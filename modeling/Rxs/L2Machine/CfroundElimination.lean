import Rxs.Core.X86
import Rxs.L2Machine.JitLayout

/-!
# Rounding modes that nobody rounds with

A `CFROUND` is overwritten when another follows and the compiler has recorded no rounding
operation between the two. The decision is about the order of the code; the code may
branch back. A branch back over a rounding operation counts as one, so there is none
between the two, and none in a loop that ends between them. That part of the program is
dead to the mode: it is entered behind the first, and left through the second.

* `Noted`: what the compiler's record says of the operations before it.
* `Dead`, `not_rounds_of_dead`, `dead_next`: where the mode may be wrong.
* `agree_step`: with the overwritten ones and without them.
* **`cfround_elimination`**: every run.
-/
namespace Rxs

open Rxs.Core Rxs.Core.Bytes Rxs.RandomX Rxs.RandomX.BytecodeMachine Rxs.RandomX.JitCompilerX86

namespace L2.Cfround

variable {P : Compilation} {k : Nat} {type : InstructionType} {instr : Instruction}

/-! ## What is overwritten -/

/-- It does nothing. -/
theorem disassemble_nops (cpu : Cpu) :
    ∃ n, X86.disassemble 3 (nops cpu) = some (List.replicate n .nop) := by
  unfold nops
  split <;> split
  · exact ⟨3, rfl⟩
  · exact ⟨2, rfl⟩
  · exact ⟨3, rfl⟩
  · exact ⟨2, rfl⟩

instance (k : Nat) (type : InstructionType) : Decidable (∃ instr, P.At k type instr) :=
  decidable_of_iff (P.program[k]?.bind P.c.decode = some type) Option.bind_eq_some_iff

instance (k i j : Nat) : Decidable (P.Overwritten k i j) :=
  decidable_of_iff (i < k ∧ (∃ instr, P.At i .CFROUND instr) ∧ (∃ instr, P.At j .CFROUND instr) ∧
      (P.state i).prevCFROUND = P.pos j ∧
      (P.state i).prevFPOperation < (P.state i).prevCFROUND ∧ ¬ P.c.Tweak_V2_CFROUND)
    ⟨fun ⟨h₁, h₂, h₃, h₄, h₅, h₆⟩ => ⟨h₁, h₂, h₃, h₄, h₅, h₆⟩,
      fun ⟨h₁, h₂, h₃, h₄, h₅, h₆⟩ => ⟨h₁, h₂, h₃, h₄, h₅, h₆⟩⟩

instance (k j : Nat) : Decidable (P.Removed k j) :=
  decidable_of_iff (∃ i < k, P.Overwritten k i j)
    ⟨fun ⟨i, _, h⟩ => ⟨i, h⟩, fun ⟨i, h⟩ => ⟨i, h.lt, h⟩⟩

/-- The bytecode without the instructions that have been overwritten. -/
def eliminated (P : Compilation) (bytecode : List InstructionByteCode) :
    List InstructionByteCode :=
  bytecode.mapIdx fun k ibc => if P.Removed P.program.length k then { type := .NOP } else ibc

theorem getElem?_eliminated (P : Compilation) (bytecode : List InstructionByteCode) (k : Nat) :
    (eliminated P bytecode)[k]? = bytecode[k]?.map fun ibc =>
      if P.Removed P.program.length k then { type := .NOP } else ibc := by
  rw [eliminated, List.getElem?_mapIdx]

/-! ## What is recorded -/

/-- Where the loop of a branch starts. -/
def loopStart (P : Compilation) (i : Nat) (instr : Instruction) : Nat :=
  (P.usage i (reg instr.dst) + 1).toNat

/-- Before instruction `k`: no rounding operation is behind the one recorded, nor is a
branch over it. -/
structure Noted (P : Compilation) (k : Nat) : Prop where
  le_pos : (P.state k).prevFPOperation ≤ P.pos k
  rounds : ∀ {f type instr}, f < k → P.At f type instr → rounds type →
    (P.pos f : Int) ≤ (P.state k).prevFPOperation
  branch : ∀ {i instr}, i < k → P.At i .CBRANCH instr →
    (P.pos (loopStart P i instr) : Int) ≤ (P.state i).prevFPOperation →
    (P.pos i : Int) ≤ (P.state k).prevFPOperation

/-- **One instruction more.** -/
theorem noted_step (hn : Noted P k) (h : P.At k type instr) : Noted P (k + 1) := by
  obtain ⟨hle, hrounds, hbranch⟩ := hn
  have hsucc := (Compilation.pos_le_succ (P := P) k).1
  have hmono {j : Nat} (hj : j < k + 1) : P.pos j ≤ P.pos k :=
    Compilation.pos_mono (Nat.le_of_lt_succ hj)
  have hpos : ((P.state k).codePos : Int) = P.pos k := rfl
  have hfp := prevFPOperation_handler P.c P.cpu type instr (P.state k)
  rw [← Compilation.state_succ h, hpos] at hfp
  split at hfp
  · refine ⟨by omega, fun hf _ _ => ?_, fun hi _ _ => ?_⟩
    · have := hmono hf
      omega
    · have := hmono hi
      omega
  · rename_i hnot
    rw [not_or] at hnot
    refine ⟨by omega, fun {f type' instr'} hf hat hr => ?_, fun {i instr'} hi hat hover => ?_⟩
    · rw [hfp]
      rcases Nat.eq_or_lt_of_le (Nat.le_of_lt_succ hf) with rfl | hlt
      · obtain ⟨rfl, rfl⟩ := h.unique hat
        exact absurd hr hnot.1
      · exact hrounds hlt hat hr
    · rw [hfp]
      rcases Nat.eq_or_lt_of_le (Nat.le_of_lt_succ hi) with rfl | hlt
      · obtain ⟨rfl, rfl⟩ := h.unique hat
        refine absurd ⟨rfl, ?_⟩ hnot.2
        rw [(Compilation.registerUsage_eq h.lt.le _).2.2]
        exact hover
      · exact hbranch hlt hat hover

theorem noted (hk : k ≤ P.program.length) : Noted P k := by
  refine Compilation.steps (motive := Noted P) ⟨?_, ?_, ?_⟩ (fun h hn => noted_step hn h) hk
  · rw [show P.state 0 = P.start from rfl, P.prepared.prevFPOperation]
    omega
  · intro f type instr hf
    omega
  · intro i instr hi
    omega

/-! ## Where the mode may be wrong -/

/-- `k` is behind an overwritten `CFROUND` and not behind the next, or in a loop whose
branch is between the two. -/
def Dead (P : Compilation) (k : Nat) : Prop :=
  ∃ a b, P.Overwritten P.program.length b a ∧ ((a < k ∧ k ≤ b) ∨
    ∃ i instr, a < i ∧ i < b ∧ P.At i .CBRANCH instr ∧ loopStart P i instr ≤ k ∧ k ≤ i)

/-- The overwritten one comes first. -/
theorem overwritten_lt {a b : Nat} (h : P.Overwritten P.program.length b a) : a < b := by
  obtain ⟨instr, ha⟩ := h.cfround
  have hlast := h.last
  rcases Compilation.prevCFROUND_eq (P := P) h.lt.le with hp | ⟨a', instr', hlt, ha', hp⟩
  · omega
  · by_contra hle
    have hpos := Compilation.cfround_pos h.version ha'
    have hnops := Compilation.length_nops P.cpu
    have hsucc := Compilation.pos_succ ha'
    have hmono := Compilation.pos_mono (P := P) (j := a' + 1) (k := a) (by omega)
    omega

/-- **No rounding operation** is between the two. -/
theorem rounds_lt {a b f : Nat} (h : P.Overwritten P.program.length b a) (hf : f < b)
    (hat : P.At f type instr) (hr : rounds type) : f < a := by
  have hfp := (noted h.lt.le).rounds hf hat hr
  have hlast := h.last
  have hrounding := h.rounding
  by_contra hle
  have := Compilation.pos_mono (P := P) (j := a) (k := f) (by omega)
  omega

/-- **None is in a loop** whose branch is between the two. -/
theorem rounds_lt_loop {a b f i : Nat} {instr' : Instruction}
    (h : P.Overwritten P.program.length b a) (hai : a < i) (hib : i < b)
    (hi : P.At i .CBRANCH instr') (hf : f < i) (hat : P.At f type instr) (hr : rounds type) :
    f < loopStart P i instr' := by
  have hfp := (noted hi.lt.le).rounds hf hat hr
  have hlast := h.last
  have hrounding := h.rounding
  have hover := (noted h.lt.le).branch hib hi
  have hpos := Compilation.pos_mono (P := P) (j := a) (k := i) hai.le
  by_contra hle
  have hmono := Compilation.pos_mono (P := P) (j := loopStart P i instr') (k := f) (by omega)
  have := hover (by omega)
  omega

theorem not_rounds_of_dead (hd : Dead P k) (h : P.At k type instr) : ¬ rounds type := by
  intro hr
  obtain ⟨a, b, ho, ⟨hlow, hhigh⟩ | ⟨i, instr', hai, hib, hi, hlow, hhigh⟩⟩ := hd
  · rcases Nat.eq_or_lt_of_le hhigh with rfl | hlt
    · obtain ⟨instr'', hc⟩ := ho.by_cfround
      obtain ⟨rfl, -⟩ := h.unique hc
      cases hr
    · have := rounds_lt ho hlt h hr
      omega
  · rcases Nat.eq_or_lt_of_le hhigh with rfl | hlt
    · obtain ⟨rfl, -⟩ := h.unique hi
      cases hr
    · have := rounds_lt_loop ho hai hib hi hlt h hr
      omega

/-- The end of the program is not dead. -/
theorem lt_of_dead (hd : Dead P k) : k < P.program.length := by
  obtain ⟨a, b, ho, ⟨-, hhigh⟩ | ⟨i, instr', -, hib, -, -, hhigh⟩⟩ := hd <;>
  · have := ho.lt
    omega

/-- Behind an overwritten one. -/
theorem dead_succ_of_removed (h : P.Removed P.program.length k) : Dead P (k + 1) := by
  obtain ⟨b, ho⟩ := h
  exact ⟨k, b, ho, .inl ⟨Nat.lt_succ_self k, overwritten_lt ho⟩⟩

/-- A branch counts as a change of every register. -/
theorem le_usage {i : Nat} (h : P.At k .CBRANCH instr) (hlt : k < i) (hi : i ≤ P.program.length)
    (r : Reg) : (k : Int) ≤ P.usage i r := by
  induction i, hlt using Nat.le_induction with
  | base => rw [Compilation.usage_succ h, compile_usage, if_pos (mem_modified_branch instr r)]
  | succ i hle ih =>
    obtain ⟨type', instr', h'⟩ := Compilation.exists_at (P := P) (k := i) (by omega)
    have ih := ih (by omega)
    rw [Compilation.usage_succ h', compile_usage]
    split <;> omega

/-- A loop has one branch, at its end. -/
theorem no_branch_in_loop {i : Nat} {instr' : Instruction} (hi : P.At i .CBRANCH instr')
    (hlow : loopStart P i instr' ≤ k) (hlt : k < i) : ¬ P.At k .CBRANCH instr := by
  intro h
  have := le_usage h hlt hi.lt.le (reg instr'.dst)
  unfold loopStart at hlow
  omega

theorem loopStart_le (h : P.At k .CBRANCH instr) : loopStart P k instr ≤ k := by
  have := (Compilation.registerUsage_eq (P := P) h.lt.le (reg instr.dst)).2.1
  unfold loopStart
  omega

/-- **From dead to dead**, but through a `CFROUND`. -/
theorem dead_next (hd : Dead P k) (h : P.At k type instr) (hc : type ≠ .CFROUND) :
    Dead P (k + 1) ∧ (type = .CBRANCH → Dead P (loopStart P k instr)) := by
  obtain ⟨a, b, ho, ⟨hlow, hhigh⟩ | ⟨i, instr', hai, hib, hi, hlow, hhigh⟩⟩ := hd
  · have hne : k ≠ b := by
      rintro rfl
      obtain ⟨instr'', hb⟩ := ho.by_cfround
      exact hc (h.unique hb).1
    refine ⟨⟨a, b, ho, .inl ⟨by omega, by omega⟩⟩, fun ht => ?_⟩
    subst ht
    exact ⟨a, b, ho, .inr ⟨k, instr, hlow, by omega, h, le_rfl, loopStart_le h⟩⟩
  · rcases Nat.eq_or_lt_of_le hhigh with rfl | hlt
    · obtain ⟨rfl, rfl⟩ := h.unique hi
      exact ⟨⟨a, b, ho, .inl ⟨by omega, by omega⟩⟩,
        fun _ => ⟨a, b, ho, .inr ⟨k, instr, hai, hib, h, le_rfl, loopStart_le h⟩⟩⟩
    · refine ⟨⟨a, b, ho, .inr ⟨i, instr', hai, hib, hi, by omega, hlt⟩⟩, fun ht => ?_⟩
      subst ht
      exact absurd h (no_branch_in_loop hi hlow hlt)

/-! ## Runs -/

variable {V : Type}

/-- A state with another rounding mode. -/
def withMode (s : Native V) (mode : BitVec 2) : Native V := { s with mode := mode }

/-- A bytecode that neither rounds nor sets the mode does not know it. -/
theorem execute_withMode (c : Configuration) (ops : FloatOps V) {ibc : InstructionByteCode}
    (hr : ¬ rounds ibc.type) (hc : ibc.type ≠ .CFROUND) (pc : Int) (s : Native V)
    (mode : BitVec 2) : executeInstruction c ops ibc pc (withMode s mode) =
      ((executeInstruction c ops ibc pc s).1,
        withMode (executeInstruction c ops ibc pc s).2 mode) := by
  obtain ⟨type, idst, fdst, isrc, fsrc, imm, target, shift, memMask⟩ := ibc
  unfold executeInstruction
  cases type
  case CFROUND => exact absurd rfl hc
  case FADD_R | FADD_M | FSUB_R | FSUB_M | FMUL_R | FDIV_M | FSQRT_R => exact absurd rfl hr
  case ISWAP_R => cases isrc <;> rfl
  case FSWAP_R | FSCAL_R => cases fdst <;> rfl
  all_goals cases isrc <;> rfl

/-- Without the test of the second version the mode is always set. -/
theorem execute_cfround {c : Configuration} (hv : ¬ c.Tweak_V2_CFROUND) (ops : FloatOps V)
    {ibc : InstructionByteCode} (hc : ibc.type = .CFROUND) (pc : Int) (s : Native V)
    (mode : BitVec 2) : executeInstruction c ops ibc pc (withMode s mode) =
      executeInstruction c ops ibc pc s ∧
      ∃ mode', executeInstruction c ops ibc pc s = (pc, withMode s mode') := by
  obtain ⟨type, idst, fdst, isrc, fsrc, imm, target, shift, memMask⟩ := ibc
  cases hc
  unfold executeInstruction
  dsimp only
  simp only [if_pos (Or.inl hv)]
  exact ⟨by cases isrc <;> rfl, _, rfl⟩

/-- The bytecode's kinds are those of the program. -/
theorem compile_kind (c : Configuration) (type : InstructionType) (instr : Instruction) (i : Nat)
    (u : Usage) : ((compile c type instr i u).1.type = .CFROUND ↔ type = .CFROUND) ∧
      rounds (compile c type instr i u).1.type = rounds type := by
  cases type <;> simp only [compile, memory, memoryFlt, regOrImm] <;> (try split) <;>
    simp [rounds]

/-- The same, but for the mode where it is dead. -/
structure Same (P : Compilation) (l l' : Loop V) : Prop where
  pc : l'.pc = l.pc
  s : ∃ mode, l'.s = withMode l.s mode
  mode : l'.s.mode = l.s.mode ∨ Dead P l.pc

/-- Where the mode is not dead, there is no difference. -/
theorem Same.eq {l l' : Loop V} (h : Same P l l') (hd : ¬ Dead P l.pc) : l'.s = l.s := by
  obtain ⟨mode, hs⟩ := h.s
  have hmode := h.mode.resolve_right hd
  rw [hs] at hmode ⊢
  have hmode : mode = l.s.mode := hmode
  rw [hmode]
  rfl

/-- An instruction that is not a `CFROUND`, where the mode is dead. -/
theorem turn_pc_dead (ops : FloatOps V) {bytecode : List InstructionByteCode} {l : Loop V}
    (h : P.At l.pc type instr) (hc : type ≠ .CFROUND) (hd : Dead P l.pc)
    (hb : bytecode[l.pc]? = some (compile P.c type instr l.pc (P.usage l.pc)).1) :
    Dead P (turn P.c ops bytecode l).pc := by
  obtain ⟨hnext, hback⟩ := dead_next hd h hc
  by_cases ht : type = .CBRANCH
  · subst ht
    rw [L2.Cbranch.turn_branch P.c ops hb ((compile_type P.c .CBRANCH instr l.pc _).mpr rfl)]
    dsimp only
    split
    · simp only [compile, Compilation.usage_toInt16 h.lt.le]
      exact hback rfl
    · exact hnext
  · have htype := (not_congr (compile_type P.c type instr l.pc (P.usage l.pc))).mpr ht
    rw [L2.Cbranch.turn_eq P.c ops hb, executeInstruction_pc P.c ops htype]
    exact hnext

/-- **One turn**, with the instructions that have been overwritten and without them. -/
theorem agree_step (hv : ¬ P.c.Tweak_V2_CFROUND) (ops : FloatOps V)
    {bytecode : List InstructionByteCode} (hlen : bytecode.length = P.program.length)
    (hcomp : ∀ {k type instr}, P.At k type instr →
      bytecode[k]? = some (compile P.c type instr k (P.usage k)).1)
    {l l' : Loop V} (h : Same P l l') :
    Same P (turn P.c ops bytecode l) (turn P.c ops (eliminated P bytecode) l') := by
  obtain ⟨k, s⟩ := l
  obtain ⟨k', s'⟩ := l'
  obtain rfl : k' = k := h.pc
  by_cases hk : k' < P.program.length
  · obtain ⟨type, instr, hat⟩ := Compilation.exists_at hk
    have hb := hcomp hat
    have hkind := compile_kind P.c type instr k' (P.usage k')
    obtain ⟨mode, rfl⟩ : ∃ mode, s' = withMode s mode := h.s
    have he := getElem?_eliminated P bytecode k'
    rw [hb, Option.map_some] at he
    by_cases hrem : P.Removed P.program.length k'
    · -- the mode is set, and not set
      rw [if_pos hrem] at he
      have htype : type = .CFROUND := by
        obtain ⟨b, ho⟩ := hrem
        obtain ⟨instr', hc⟩ := ho.cfround
        exact (hat.unique hc).1
      obtain ⟨-, mode', hexec⟩ := execute_cfround hv ops (hkind.1.mpr htype) k' s mode
      rw [L2.Cbranch.turn_eq P.c ops (l := ⟨k', s⟩) hb, hexec,
        L2.Cbranch.turn_eq P.c ops (l := ⟨k', withMode s mode⟩) he]
      exact ⟨rfl, ⟨mode, rfl⟩, .inr (dead_succ_of_removed hrem)⟩
    · rw [if_neg hrem] at he
      by_cases hc : type = .CFROUND
      · obtain ⟨hexec, -⟩ := execute_cfround hv ops (hkind.1.mpr hc) k' s mode
        rw [L2.Cbranch.turn_eq P.c ops (l := ⟨k', s⟩) hb,
          L2.Cbranch.turn_eq P.c ops (l := ⟨k', withMode s mode⟩) he]
        dsimp only
        rw [hexec]
        exact ⟨rfl, ⟨_, rfl⟩, .inl rfl⟩
      · by_cases hd : Dead P k'
        · have hr := not_rounds_of_dead hd hat
          rw [← hkind.2] at hr
          have hexec := execute_withMode P.c ops hr (fun hf => hc (hkind.1.mp hf)) k' s mode
          have hnext := turn_pc_dead ops (l := ⟨k', s⟩) hat hc hd hb
          rw [L2.Cbranch.turn_eq P.c ops (l := ⟨k', s⟩) hb] at hnext ⊢
          rw [L2.Cbranch.turn_eq P.c ops (l := ⟨k', withMode s mode⟩) he]
          dsimp only
          rw [hexec]
          exact ⟨rfl, ⟨mode, rfl⟩, .inr hnext⟩
        · have heq : withMode s mode = s := h.eq hd
          rw [heq, L2.Cbranch.turn_eq P.c ops (l := ⟨k', s⟩) hb,
            L2.Cbranch.turn_eq P.c ops (l := ⟨k', s⟩) he]
          exact ⟨rfl, ⟨_, rfl⟩, .inl rfl⟩
  · have hnone : bytecode[k']? = none := List.getElem?_eq_none (by omega)
    have he := getElem?_eliminated P bytecode k'
    rw [hnone, Option.map_none] at he
    have hturn : turn P.c ops bytecode ⟨k', s⟩ = ⟨k', s⟩ := by
      unfold turn
      rw [hnone]
    have hturn' : turn P.c ops (eliminated P bytecode) ⟨k', s'⟩ = ⟨k', s'⟩ := by
      unfold turn
      rw [he]
    rw [hturn, hturn']
    exact h

/-- What has been overwritten, and what it is to the program. -/
structure Preserved (P : Compilation) (bytecode : List InstructionByteCode) : Prop where
  /-- The code of an instruction is as it was written; or it is that of a `CFROUND`, and
  as many bytes that do nothing. -/
  code : ∀ {k : Nat} {type : InstructionType} {instr : Instruction} (h : P.At k type instr),
    (¬ P.Removed P.program.length k ∧
      slice P.code (P.pos k) (P.pos (k + 1) - P.pos k) = h.block.code) ∨
    (P.Removed P.program.length k ∧ type = .CFROUND ∧
      slice P.code (P.pos k) (P.pos (k + 1) - P.pos k) = nops P.cpu ∧
      (nops P.cpu).length = P.pos (k + 1) - P.pos k ∧
      ∃ n, X86.disassemble 3 (nops P.cpu) = some (List.replicate n .nop))
  /-- After any number of instructions only the mode is different, and it is not where an
  operation is to round, nor at the end. -/
  run : ∀ {V : Type} (ops : FloatOps V) (s : Native V) (m : Nat) {l l' : Loop V},
    l = (turn P.c ops bytecode)^[m] ⟨0, s⟩ →
    l' = (turn P.c ops (eliminated P bytecode))^[m] ⟨0, s⟩ →
    l'.pc = l.pc ∧ (∃ mode, l'.s = { l.s with mode := mode }) ∧
      (∀ {type instr}, P.At l.pc type instr → rounds type → l'.s = l.s) ∧
      (l.pc = P.program.length → l'.s = l.s)

/-- **The elimination preserves the program**: without the instructions that have been
overwritten every operation rounds as it did, and the mode is the same at the end. -/
theorem cfround_elimination (P : Compilation) (hv : ¬ P.c.Tweak_V2_CFROUND) : ∃ bytecode,
    compileProgram P.c P.program = some bytecode ∧ Preserved P bytecode := by
  obtain ⟨bytecode, hcompile, hlen, hcomp⟩ := P.bytecode_eq
  refine ⟨bytecode, hcompile, fun {k type instr} h => ?_, fun ops s m => ?_⟩
  · have hpos : P.pos (k + 1) - P.pos k = h.block.pos := by
      rw [Compilation.pos_succ h, Nat.add_sub_cancel_left]
    rw [hpos]
    rcases Compilation.slice_code h with ⟨hrem, hs⟩ | ⟨hrem, hs⟩
    · obtain ⟨i, ho⟩ := hrem
      obtain ⟨instr', hc⟩ := ho.cfround
      obtain ⟨rfl, rfl⟩ := h.unique hc
      exact .inr ⟨⟨i, ho⟩, rfl, hs, (Compilation.cfround_pos hv h).symm, disassemble_nops P.cpu⟩
    · exact .inl ⟨hrem, hs⟩
  · have hsame : Same P ((turn P.c ops bytecode)^[m] ⟨0, s⟩)
        ((turn P.c ops (eliminated P bytecode))^[m] ⟨0, s⟩) := by
      induction m with
      | zero => exact ⟨rfl, ⟨s.mode, rfl⟩, .inl rfl⟩
      | succ m ih =>
        rw [Function.iterate_succ_apply', Function.iterate_succ_apply']
        exact agree_step hv ops hlen hcomp ih
    rintro l l' rfl rfl
    refine ⟨hsame.pc, hsame.s, fun hat hr => hsame.eq fun hd => ?_,
      fun hend => hsame.eq fun hd => ?_⟩
    · exact not_rounds_of_dead hd hat hr
    · have := lt_of_dead hd
      omega

/-- Two changes of the mode, in the base variant. -/
def twice : Compilation where
  c := .base
  cpu := ⟨true, false, false, false⟩
  program := [⟨239, 0, 0, 0, 0⟩, ⟨239, 0, 1, 0, 0⟩]
  start := prepare (List.replicate 65536 0) 1024 512
  codePosFirst := 1024
  complete := Configuration.base_complete
  size_le := by decide
  masked := by simp
  prepared := prepared_prepare (by omega) (by rw [List.length_replicate]; omega)

theorem cfround_elimination_twice : ∃ bytecode,
    compileProgram twice.c twice.program = some bytecode ∧ Preserved twice bytecode :=
  cfround_elimination twice (by decide)

end L2.Cfround

end Rxs
