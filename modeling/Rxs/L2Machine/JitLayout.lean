import Mathlib.Data.Nat.Init
import Rxs.L2Machine.Cbranch
import Rxs.L2Machine.JitBlock

/-!
# Where the compiler's code is

A program is compiled instruction by instruction, here and to bytecode. The code of the
instructions stands one behind the other, and `registerUsage` is the bytecode compiler's
table, with the end of an instruction's code for its number.

* `Compilation`: a program, and the compiler before and after each instruction.
* `bytecode_eq`: its bytecode.
* `registerUsage_eq`: the two tables.
* `Layout`, `layout_succ`: the code, after each instruction.
* `slice_code`: in the finished code, every instruction's is where it was written.
-/
namespace Rxs.RandomX

open Rxs.Core Rxs.Core.Bytes Rxs.RandomX.BytecodeMachine

open JitCompilerX86

/-- A program, a configuration and a processor, and the compiler before it starts. Bytes
for registers are masked when the program is filled in. -/
structure Compilation where
  c : Configuration
  cpu : Cpu
  program : List Instruction
  start : JitCompilerX86
  codePosFirst : Nat
  complete : c.Complete
  size_le : program.length ≤ RANDOMX_PROGRAM_MAX_SIZE
  masked : ∀ instr ∈ program, instr.dst.toNat < 8 ∧ instr.src.toNat < 8
  prepared : start.Prepared codePosFirst

namespace Compilation

variable (P : Compilation) {i j k : Nat} {type : InstructionType} {instr : Instruction}

/-- The instruction at a place of the program, and which of the thirty it is. -/
def At (k : Nat) (type : InstructionType) (instr : Instruction) : Prop :=
  P.program[k]? = some instr ∧ P.c.decode instr = some type

/-- The compiler after `k` instructions. -/
def state (k : Nat) : JitCompilerX86 := generate P.c P.cpu (P.program.take k) P.start

/-- Where the code of an instruction starts. -/
def pos (k : Nat) : Nat := (P.state k).codePos

/-- The finished code. -/
def code : Bytes := (P.state P.program.length).code

/-- The bytecode compiler's table after `k` instructions. -/
def usage : Nat → Usage
  | 0 => fun _ => -1
  | k + 1 =>
    match P.program[k]?.bind fun instr => compileInstruction P.c instr k (usage k) with
    | some r => r.2
    | none => usage k

variable {P}

theorem At.lt (h : P.At k type instr) : k < P.program.length :=
  (List.getElem?_eq_some_iff.mp h.1).1

theorem exists_at (h : k < P.program.length) : ∃ type instr, P.At k type instr := by
  obtain ⟨type, htype⟩ := Option.isSome_iff_exists.mp
    (Configuration.decode_isSome P.complete P.program[k])
  exact ⟨type, P.program[k], List.getElem?_eq_getElem h, htype⟩

theorem At.unique {type' : InstructionType} {instr' : Instruction} (h : P.At k type instr)
    (h' : P.At k type' instr') : type = type' ∧ instr = instr' := by
  obtain ⟨hi, ht⟩ := h
  obtain ⟨hi', ht'⟩ := h'
  rw [hi] at hi'
  cases hi'
  rw [ht] at ht'
  cases ht'
  exact ⟨rfl, rfl⟩

theorem At.masked (h : P.At k type instr) : instr.dst.toNat < 8 ∧ instr.src.toNat < 8 :=
  P.masked instr (List.mem_of_getElem? h.1)

theorem state_succ (h : P.At k type instr) :
    P.state (k + 1) = handler P.c P.cpu type instr (P.state k) := by
  have htake : P.program.take (k + 1) = P.program.take k ++ [instr] := by
    rw [List.take_add_one, h.1]
    rfl
  rw [state, htake, generate, List.foldl_append]
  simp only [List.foldl_cons, List.foldl_nil, engine, h.2]
  rfl

theorem usage_succ (h : P.At k type instr) :
    P.usage (k + 1) = (compile P.c type instr k (P.usage k)).2 := by
  rw [usage, h.1, Option.bind_some, compileInstruction, h.2]
  rfl

/-- **The bytecode** of the program, instruction by instruction. -/
theorem bytecode_eq (P : Compilation) : ∃ bytecode,
    compileProgram P.c P.program = some bytecode ∧ bytecode.length = P.program.length ∧
      ∀ {k type instr}, P.At k type instr →
        bytecode[k]? = some (compile P.c type instr k (P.usage k)).1 := by
  have main (d k : Nat) (hk : k + d = P.program.length) : ∃ rest,
      compileFrom P.c (P.program.drop k) k (P.usage k) = some rest ∧ rest.length = d ∧
        ∀ {j type instr}, k ≤ j → P.At j type instr →
          rest[j - k]? = some (compile P.c type instr j (P.usage j)).1 := by
    induction d generalizing k with
    | zero =>
      refine ⟨[], ?_, rfl, fun hle h => ?_⟩
      · rw [List.drop_eq_nil_of_le (by omega)]
        rfl
      · have := h.lt
        omega
    | succ d ih =>
      obtain ⟨type, instr, h⟩ := exists_at (P := P) (k := k) (by omega)
      obtain ⟨rest, hrest, hlen, hcomp⟩ := ih (k + 1) (by omega)
      have hdrop : P.program.drop k = instr :: P.program.drop (k + 1) := by
        rw [List.drop_eq_getElem_cons h.lt]
        congr 1
        exact (List.getElem?_eq_some_iff.mp h.1).2
      refine ⟨(compile P.c type instr k (P.usage k)).1 :: rest, ?_, ?_,
        fun {j type' instr'} hle h' => ?_⟩
      · rw [usage_succ h] at hrest
        simp only [hdrop, compileFrom, compileInstruction, h.2, Option.map_some,
          Option.bind_eq_bind, Option.bind_some, hrest]
        rfl
      · rw [List.length_cons, hlen]
      · rcases Nat.eq_or_lt_of_le hle with rfl | hlt
        · obtain ⟨rfl, rfl⟩ := h.unique h'
          rw [Nat.sub_self]
          rfl
        · have hsub : j - k = j - (k + 1) + 1 := by omega
          rw [hsub, List.getElem?_cons_succ]
          exact hcomp hlt h'
  obtain ⟨bytecode, hcompile, hlen, hcomp⟩ := main P.program.length 0 (by omega)
  exact ⟨bytecode, hcompile, hlen, fun {k type instr} h => hcomp (Nat.zero_le k) h⟩

/-- The block of an instruction. -/
def At.block (_ : P.At k type instr) : Block :=
  JitCompilerX86.block P.c P.cpu type instr (P.state k)

theorem At.length_code (h : P.At k type instr) : h.block.code.length = h.block.pos :=
  (block_ok P.c P.cpu type instr (P.state k)).length_code

theorem pos_succ (h : P.At k type instr) : P.pos (k + 1) = P.pos k + h.block.pos := by
  rw [pos, state_succ h, codePos_handler]
  rfl

theorem pos_le_succ (k : Nat) : P.pos k ≤ P.pos (k + 1) ∧ P.pos (k + 1) ≤ P.pos k + 33 := by
  by_cases hk : k < P.program.length
  · obtain ⟨type, instr, h⟩ := exists_at hk
    have := (block_ok P.c P.cpu type instr (P.state k)).size
    rw [pos_succ h]
    unfold At.block
    omega
  · have hstate : P.state (k + 1) = P.state k := by
      rw [state, state, List.take_of_length_le (by omega), List.take_of_length_le (by omega)]
    rw [pos, pos, hstate]
    omega

theorem pos_mono (h : j ≤ k) : P.pos j ≤ P.pos k := by
  induction k, h using Nat.le_induction with
  | base => exact le_rfl
  | succ k _ ih => exact ih.trans (pos_le_succ k).1

theorem pos_zero : P.pos 0 = P.codePosFirst := P.prepared.codePos

theorem pos_range (k : Nat) :
    P.codePosFirst ≤ P.pos k ∧ P.pos k ≤ P.codePosFirst + 33 * P.program.length := by
  have hend (k : Nat) : P.pos k ≤ P.codePosFirst + 33 * k := by
    induction k with
    | zero => exact pos_zero.le
    | succ k ih =>
      have := (pos_le_succ (P := P) k).2
      omega
  refine ⟨pos_zero (P := P) ▸ pos_mono (Nat.zero_le k), ?_⟩
  by_cases hk : k ≤ P.program.length
  · have := hend k
    omega
  · have hstate : P.state k = P.state P.program.length := by
      rw [state, state, List.take_of_length_le (by omega), List.take_of_length_le le_rfl]
    rw [pos, hstate]
    exact hend P.program.length

/-! ## What holds after each instruction -/

/-- The `CFROUND` at `j` has been overwritten by the first `k` instructions: it was the
last before another, and no rounding operation had come behind it. -/
structure Overwritten (P : Compilation) (k i j : Nat) : Prop where
  lt : i < k
  by_cfround : ∃ instr, P.At i .CFROUND instr
  cfround : ∃ instr, P.At j .CFROUND instr
  last : (P.state i).prevCFROUND = P.pos j
  rounding : (P.state i).prevFPOperation < (P.state i).prevCFROUND
  version : ¬ P.c.Tweak_V2_CFROUND

def Removed (P : Compilation) (k j : Nat) : Prop := ∃ i, P.Overwritten k i j

/-- **Instruction by instruction.** -/
theorem steps {motive : Nat → Prop} (zero : motive 0)
    (succ : ∀ {k type instr}, P.At k type instr → motive k → motive (k + 1))
    (hk : k ≤ P.program.length) : motive k := by
  induction k with
  | zero => exact zero
  | succ k ih =>
    obtain ⟨type, instr, h⟩ := exists_at (P := P) (k := k) (by omega)
    exact succ h (ih (by omega))

/-- **The tables of last changes**: this compiler has the end of the code of the
instruction whose number the bytecode compiler has. -/
theorem registerUsage_eq (hk : k ≤ P.program.length) (r : Reg) :
    -1 ≤ P.usage k r ∧ P.usage k r < k ∧
      (P.state k).registerUsage r = P.pos (P.usage k r + 1).toNat := by
  refine steps (motive := fun k => -1 ≤ P.usage k r ∧ P.usage k r < k ∧
    (P.state k).registerUsage r = P.pos (P.usage k r + 1).toNat)
    ?_ (fun {k type instr} h ih => ?_) hk
  · refine ⟨le_rfl, neg_one_lt_zero, ?_⟩
    rw [show P.state 0 = P.start from rfl, P.prepared.registerUsage]
    exact congrArg Nat.cast pos_zero.symm
  · obtain ⟨hlow, hlt, heq⟩ := ih
    rw [usage_succ h, compile_usage, state_succ h, registerUsage_handler _ _ _ h.masked]
    split
    · refine ⟨by omega, by omega, ?_⟩
      rw [← state_succ h]
      rfl
    · exact ⟨hlow, by omega, heq⟩

/-- The target of a branch is a number of sixteen bits. -/
theorem usage_toInt16 (hk : k ≤ P.program.length) (r : Reg) :
    toInt16 (P.usage k r) = P.usage k r := by
  obtain ⟨hlow, hlt, -⟩ := registerUsage_eq (P := P) hk r
  have hsize := P.size_le
  unfold RANDOMX_PROGRAM_MAX_SIZE at hsize
  exact L2.Cbranch.toInt16_eq (by omega)

theorem prevCFROUND_eq (hk : k ≤ P.program.length) : (P.state k).prevCFROUND = -1 ∨
    ∃ a instr, a < k ∧ P.At a .CFROUND instr ∧ (P.state k).prevCFROUND = P.pos a := by
  refine steps (motive := fun k => (P.state k).prevCFROUND = -1 ∨
    ∃ a instr, a < k ∧ P.At a .CFROUND instr ∧ (P.state k).prevCFROUND = P.pos a)
    (.inl P.prepared.prevCFROUND) (fun {k type instr} h ih => ?_) hk
  rw [state_succ h, prevCFROUND_handler]
  split
  · rename_i ht
    subst ht
    exact .inr ⟨k, instr, Nat.lt_succ_self k, h, rfl⟩
  · rcases ih with hp | ⟨a, instr', hlt, ha, hp⟩
    · exact .inl hp
    · exact .inr ⟨a, instr', by omega, ha, hp⟩

theorem prevFPOperation_ge (hk : k ≤ P.program.length) : -1 ≤ (P.state k).prevFPOperation := by
  refine steps (motive := fun k => -1 ≤ (P.state k).prevFPOperation)
    P.prepared.prevFPOperation.ge (fun {k type instr} h ih => ?_) hk
  rw [state_succ h, prevFPOperation_handler]
  split <;> omega

theorem storage_eq (hk : k ≤ P.program.length) : (P.state k).imul_rcp_storage_used ≤ 16 ∧
    (P.state k).imul_rcp_storage =
      P.start.imul_rcp_storage + 11 * (P.state k).imul_rcp_storage_used := by
  refine steps (motive := fun k => (P.state k).imul_rcp_storage_used ≤ 16 ∧
    (P.state k).imul_rcp_storage =
      P.start.imul_rcp_storage + 11 * (P.state k).imul_rcp_storage_used)
    ?_ (fun {k type instr} h ih => ?_) hk
  · rw [show P.state 0 = P.start from rfl, P.prepared.imul_rcp_storage_used]
    exact ⟨Nat.zero_le _, rfl⟩
  · obtain ⟨hused, hstorage⟩ := ih
    rw [state_succ h]
    rcases storage_handler P.c P.cpu type instr (P.state k) with ⟨h₁, h₂⟩ | ⟨hlt, h₁, h₂⟩
    · rw [h₁, h₂]
      exact ⟨hused, hstorage⟩
    · rw [h₁, h₂]
      exact ⟨by omega, by omega⟩

/-- The code after `k` instructions: every block of them is where it was written, or has
been overwritten. -/
structure Layout (P : Compilation) (k : Nat) : Prop where
  length : (P.state k).code.length = P.start.code.length
  code : ∀ {j type instr} (h : P.At j type instr), j < k →
    (P.Removed k j ∧ slice (P.state k).code (P.pos j) h.block.pos = nops P.cpu) ∨
      (¬ P.Removed k j ∧ slice (P.state k).code (P.pos j) h.block.pos = h.block.code)

/-- A `CFROUND` has code. -/
theorem length_nops (cpu : Cpu) : 0 < (nops cpu).length := by
  unfold nops
  split <;> split <;> decide

theorem cfround_pos (hv : ¬ P.c.Tweak_V2_CFROUND) (h : P.At k .CFROUND instr) :
    h.block.pos = (nops P.cpu).length :=
  overwrites_length P.c P.cpu hv instr

/-- The blocks of two instructions. -/
theorem apart {type' : InstructionType} {instr' : Instruction} (h : P.At j type instr)
    (h' : P.At k type' instr') (hne : j ≠ k) :
    P.pos j + h.block.pos ≤ P.pos k ∨ P.pos k + h'.block.pos ≤ P.pos j := by
  rw [← pos_succ h, ← pos_succ h']
  rcases Nat.lt_or_gt_of_ne hne with hlt | hlt
  · exact .inl (pos_mono hlt)
  · exact .inr (pos_mono hlt)

/-- The code has room for every instruction. -/
theorem room (k : Nat) : P.pos k + 40 ≤ P.start.code.length := by
  have := P.prepared.room
  have := (pos_range (P := P) k).2
  have := P.size_le
  unfold RANDOMX_PROGRAM_MAX_SIZE at this
  omega

theorem removed_succ (hk : ¬ P.Overwritten (k + 1) k j) : P.Removed (k + 1) j ↔ P.Removed k j := by
  constructor
  · rintro ⟨i, hi⟩
    have hne : i ≠ k := fun he => hk (he ▸ hi)
    have hlt := hi.lt
    exact ⟨i, { hi with lt := by omega }⟩
  · rintro ⟨i, hi⟩
    exact ⟨i, { hi with lt := Nat.lt_succ_of_lt hi.lt }⟩

/-- The blocks of a code that is left as it is, or written to elsewhere. -/
theorem blocks_kept (hl : P.Layout k) {code : Bytes} (hj : j < k) (h' : P.At j type instr)
    (hk : ¬ P.Overwritten (k + 1) k j)
    (hs : slice code (P.pos j) h'.block.pos = slice (P.state k).code (P.pos j) h'.block.pos) :
    (P.Removed (k + 1) j ∧ slice code (P.pos j) h'.block.pos = nops P.cpu) ∨
      (¬ P.Removed (k + 1) j ∧ slice code (P.pos j) h'.block.pos = h'.block.code) := by
  rw [removed_succ hk, hs]
  exact hl.code h' hj

/-- What is written before the block of the next instruction: one `CFROUND` may become
overwritten, every other block is kept. -/
theorem patched_step (hl : P.Layout k) (h : P.At k type instr) :
    (patched P.c P.cpu type instr (P.state k)).length = P.start.code.length ∧
    ∀ {j type' instr'} (h' : P.At j type' instr'), j < k →
      (P.Removed (k + 1) j ∧
        slice (patched P.c P.cpu type instr (P.state k)) (P.pos j) h'.block.pos = nops P.cpu) ∨
      (¬ P.Removed (k + 1) j ∧ slice (patched P.c P.cpu type instr (P.state k)) (P.pos j)
        h'.block.pos = h'.block.code) := by
  have hlen := hl.length
  by_cases ht : type = .CFROUND
  · subst ht
    simp only [patched, overwrite]
    split
    · rename_i hcond
      rcases prevCFROUND_eq (P := P) h.lt.le with hp | ⟨a, instr', hlt, ha, hp⟩
      · have := prevFPOperation_ge (P := P) h.lt.le
        omega
      · have hsize := cfround_pos hcond.2 ha
        have hfit : P.pos a + (nops P.cpu).length ≤ (P.state k).code.length := by
          rw [← hsize, ← pos_succ ha, hlen]
          have := room (P := P) (a + 1)
          omega
        rw [hp, Int.toNat_natCast]
        refine ⟨by rw [length_writeAt hfit, hlen], fun {j type' instr'} h' hj => ?_⟩
        by_cases hja : j = a
        · subst hja
          obtain ⟨rfl, rfl⟩ := ha.unique h'
          refine .inl ⟨⟨k, Nat.lt_succ_self k, ⟨_, h⟩, ⟨_, ha⟩, hp, hcond.1, hcond.2⟩, ?_⟩
          rw [hsize]
          exact slice_writeAt hfit
        · refine blocks_kept hl hj h' (fun ho => ?_) ?_
          · obtain ⟨instr'', hc⟩ := ho.cfround
            have hlast := ho.last
            have hsep := apart ha hc (Ne.symm hja)
            have := length_nops P.cpu
            have := cfround_pos hcond.2 hc
            omega
          · refine slice_writeAt_of_disjoint hfit ?_
            rw [← hsize]
            exact apart h' ha hja
    · rename_i hcond
      refine ⟨hlen, fun {j type' instr'} h' hj => blocks_kept hl hj h' (fun ho => ?_) rfl⟩
      exact hcond ⟨ho.rounding, ho.version⟩
  · have hnone {j : Nat} : ¬ P.Overwritten (k + 1) k j := by
      intro ho
      obtain ⟨instr', hc⟩ := ho.by_cfround
      exact ht (h.unique hc).1
    have hsame (hp : patched P.c P.cpu type instr (P.state k) = (P.state k).code) :
        (patched P.c P.cpu type instr (P.state k)).length = P.start.code.length ∧
        ∀ {j type' instr'} (h' : P.At j type' instr'), j < k →
          (P.Removed (k + 1) j ∧ slice (patched P.c P.cpu type instr (P.state k)) (P.pos j)
            h'.block.pos = nops P.cpu) ∨
          (¬ P.Removed (k + 1) j ∧ slice (patched P.c P.cpu type instr (P.state k)) (P.pos j)
            h'.block.pos = h'.block.code) := by
      rw [hp]
      exact ⟨hlen, fun {j type' instr'} h' hj => blocks_kept hl hj h' hnone rfl⟩
    cases type
    case CFROUND => exact absurd rfl ht
    case IMUL_RCP =>
      simp only [patched]
      split
      · rename_i hcond
        have hstorage := storage_eq (P := P) h.lt.le
        have hprep := P.prepared.storage
        have hroom := P.prepared.room
        have hfit : (P.state k).imul_rcp_storage +
            (le 8 (randomx_reciprocal_fast (instr.imm32.setWidth 64)).toNat).length ≤
              (P.state k).code.length := by
          rw [length_le, hlen]
          omega
        refine ⟨by rw [length_writeAt hfit, hlen], fun {j type' instr'} h' hj => ?_⟩
        refine blocks_kept hl hj h' hnone (slice_writeAt_of_disjoint hfit (.inr ?_))
        have := (pos_range (P := P) j).1
        rw [length_le]
        omega
      · exact ⟨hlen, fun {j type' instr'} h' hj => blocks_kept hl hj h' hnone rfl⟩
    all_goals exact hsame rfl

/-- **One instruction more.** -/
theorem layout_succ (hl : P.Layout k) (h : P.At k type instr) : P.Layout (k + 1) := by
  obtain ⟨hlen, hblocks⟩ := patched_step hl h
  have hok := block_ok P.c P.cpu type instr (P.state k)
  have hroom := room (P := P) k
  have hfit : P.pos k + (JitCompilerX86.block P.c P.cpu type instr (P.state k)).bytes.length ≤
      (patched P.c P.cpu type instr (P.state k)).length := by
    have := hok.length_le
    have := hok.size
    omega
  have hcode : (P.state (k + 1)).code = (patched P.c P.cpu type instr (P.state k)).writeAt (P.pos k)
      (JitCompilerX86.block P.c P.cpu type instr (P.state k)).bytes := by
    rw [state_succ h, code_handler]
    rfl
  refine ⟨by rw [hcode, length_writeAt hfit, hlen], fun {j type' instr'} h' hj => ?_⟩
  rw [hcode]
  rcases Nat.eq_or_lt_of_le (Nat.le_of_lt_succ hj) with rfl | hlt
  · -- the block that is written now
    obtain ⟨rfl, rfl⟩ := h.unique h'
    refine .inr ⟨?_, ?_⟩
    · rintro ⟨i, ho⟩
      obtain ⟨instr', hc⟩ := ho.cfround
      have hi := ho.lt
      have hlt := h.lt
      rcases prevCFROUND_eq (P := P) (k := i) (by omega) with hp | ⟨a, instr'', ha, hat, hp⟩
      · have := ho.last
        omega
      · have := ho.last
        have := length_nops P.cpu
        have := cfround_pos ho.version hat
        have := pos_succ hat
        have := pos_mono (P := P) (j := a + 1) (k := j) (by omega)
        omega
    · have hslice := slice_writeAt hfit
      have htake := congrArg
        (List.take (JitCompilerX86.block P.c P.cpu type instr (P.state j)).pos) hslice
      rw [slice, List.take_take, Nat.min_eq_left hok.pos_le] at htake
      exact htake
  · have hs : slice ((patched P.c P.cpu type instr (P.state k)).writeAt (P.pos k)
        (JitCompilerX86.block P.c P.cpu type instr (P.state k)).bytes) (P.pos j) h'.block.pos =
        slice (patched P.c P.cpu type instr (P.state k)) (P.pos j) h'.block.pos := by
      refine slice_writeAt_of_disjoint hfit (.inl ?_)
      rw [← pos_succ h']
      exact pos_mono hlt
    rw [hs]
    exact hblocks h' hlt

theorem layout_of_le (hk : k ≤ P.program.length) : P.Layout k :=
  steps ⟨rfl, fun _ h => absurd h (Nat.not_lt_zero _)⟩ (fun h hl => layout_succ hl h) hk

theorem layout (P : Compilation) : P.Layout P.program.length := layout_of_le le_rfl

/-- **The finished code**: every instruction's stands where it was written, but for the
`CFROUND`s that have been overwritten. -/
theorem slice_code (h : P.At k type instr) :
    (P.Removed P.program.length k ∧ slice P.code (P.pos k) h.block.pos = nops P.cpu) ∨
      (¬ P.Removed P.program.length k ∧ slice P.code (P.pos k) h.block.pos = h.block.code) :=
  P.layout.code h h.lt

/-- What is not a `CFROUND` is not overwritten: the code from there on. -/
theorem drop_code (h : P.At k type instr) (ht : type ≠ .CFROUND) :
    P.code.drop (P.pos k) = h.block.code ++ P.code.drop (P.pos (k + 1)) := by
  rcases slice_code h with ⟨⟨i, ho⟩, -⟩ | ⟨-, hs⟩
  · obtain ⟨instr', hc⟩ := ho.cfround
    exact absurd (h.unique hc).1 ht
  · rw [← hs, slice, pos_succ h, ← List.drop_drop, List.take_append_drop]

/-! ## The stored constants -/

/-- What is before the program is written to with the constants only. -/
theorem slice_succ (h : P.At k type instr) {o : Nat} (ho : o + 8 ≤ P.codePosFirst)
    (hslot : type = .IMUL_RCP → (P.state k).imul_rcp_storage_used < 16 →
      o + 8 ≤ (P.state k).imul_rcp_storage) :
    slice (P.state (k + 1)).code o 8 = slice (P.state k).code o 8 := by
  obtain ⟨hlen, -⟩ := patched_step (layout_of_le h.lt.le) h
  have hok := block_ok P.c P.cpu type instr (P.state k)
  have hroom := room (P := P) k
  have hpos := (pos_range (P := P) k).1
  have hfit : P.pos k + (JitCompilerX86.block P.c P.cpu type instr (P.state k)).bytes.length ≤
      (patched P.c P.cpu type instr (P.state k)).length := by
    have := hok.length_le
    have := hok.size
    omega
  rw [state_succ h, code_handler]
  refine (slice_writeAt_of_disjoint hfit (.inl (by omega))).trans ?_
  cases type <;> simp only [patched]
  case IMUL_RCP =>
    split
    · rename_i hcond
      refine slice_writeAt_of_disjoint ?_ (.inl (hslot rfl hcond.2))
      have := storage_eq (P := P) h.lt.le
      have := P.prepared.storage
      have := (layout_of_le h.lt.le).length
      rw [length_le]
      omega
    · rfl
  case CFROUND =>
    unfold overwrite
    split
    · rename_i hcond
      rcases prevCFROUND_eq (P := P) h.lt.le with hp | ⟨a, instr', hlt, ha, hp⟩
      · have := prevFPOperation_ge (P := P) h.lt.le
        omega
      · have hsize := cfround_pos hcond.2 ha
        have := (pos_range (P := P) a).1
        have := room (P := P) (a + 1)
        have := pos_succ ha
        have := (layout_of_le h.lt.le).length
        rw [hp, Int.toNat_natCast]
        exact slice_writeAt_of_disjoint (by omega) (.inl (by omega))
    · rfl

/-- **A stored constant stays** where it was stored, to the end. -/
theorem slot_code (h : P.At k .IMUL_RCP instr)
    (hz : ¬ isZeroOrPowerOf2 (instr.imm32.setWidth 64))
    (hu : (P.state k).imul_rcp_storage_used < 16) :
    slice P.code (P.start.imul_rcp_storage + 11 * (P.state k).imul_rcp_storage_used) 8 =
      le 8 (randomx_reciprocal_fast (instr.imm32.setWidth 64)).toNat := by
  have hstorage := (storage_eq (P := P) h.lt.le).2
  have hprep := P.prepared.storage
  rw [← hstorage]
  have main (n : Nat) (hk : k + 1 ≤ n) : n ≤ P.program.length →
      (P.state k).imul_rcp_storage_used < (P.state n).imul_rcp_storage_used ∧
        slice (P.state n).code (P.state k).imul_rcp_storage 8 =
          le 8 (randomx_reciprocal_fast (instr.imm32.setWidth 64)).toNat := by
    induction n, hk using Nat.le_induction with
    | base =>
      intro _
      have hlen := (layout_of_le h.lt.le).length
      have hroom := room (P := P) k
      have hok := block_ok P.c P.cpu .IMUL_RCP instr (P.state k)
      have hpos := (pos_range (P := P) k).1
      have hfit : P.pos k + (JitCompilerX86.block P.c P.cpu .IMUL_RCP instr
          (P.state k)).bytes.length ≤ (patched P.c P.cpu .IMUL_RCP instr (P.state k)).length := by
        have := hok.length_le
        have := hok.size
        have := (patched_step (layout_of_le h.lt.le) h).1
        omega
      refine ⟨?_, ?_⟩
      · rw [state_succ h, handler, h_IMUL_RCP]
        dsimp only
        rw [if_pos hz, if_pos hu]
        exact Nat.lt_succ_self _
      · have hfit' : (P.state k).imul_rcp_storage + (le 8 (randomx_reciprocal_fast
            (instr.imm32.setWidth 64)).toNat).length ≤ (P.state k).code.length := by
          rw [length_le]
          omega
        have hread := slice_writeAt hfit'
        rw [length_le] at hread
        rw [state_succ h, code_handler]
        refine (slice_writeAt_of_disjoint hfit (.inl (by omega))).trans ?_
        simp only [patched]
        rw [if_pos ⟨hz, hu⟩]
        exact hread
    | succ n hkn ih =>
      intro hn
      obtain ⟨hlt, hslice⟩ := ih (by omega)
      obtain ⟨type, instr', h'⟩ := exists_at (P := P) (k := n) (by omega)
      have hstorage' := (storage_eq (P := P) h'.lt.le).2
      refine ⟨?_, ?_⟩
      · rcases storage_handler P.c P.cpu type instr' (P.state n) with hkeep | hmore
        · rw [state_succ h', hkeep.2]
          exact hlt
        · rw [state_succ h', hmore.2.2]
          omega
      · rw [slice_succ h' (by omega) fun _ _ => by omega, hslice]
  exact (main _ h.lt le_rfl).2

end Compilation

end Rxs.RandomX
