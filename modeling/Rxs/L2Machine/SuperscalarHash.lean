import Rxs.L2Machine.DatasetLanes

/-!
# The code that computes items

`generateSuperscalarHash` writes the code of the programs; behind each of them a line of
the cache is mixed in and the next one selected. `does_programs`: on lane 0 and, with
AVX2, on four more lanes this code computes what `mixFrom` does.
-/
namespace Rxs.RandomX.JitCompilerX86

open Rxs.Core Rxs.Core.Bytes Rxs.RandomX.BytecodeMachine Rxs.RandomX.Superscalar
open Rxs.RandomX.JitStatic
open Rxs.Core.Avx2 (Listing)
open SuperscalarInstructionType

/-- The bytes of instructions, one after the other. -/
def instructionsCode (AVX2 : Bool) : List Instruction → Option Bytes
  | [] => some []
  | instr :: instrs => do
    return (← generateSuperscalarCode AVX2 instr) ++ (← instructionsCode AVX2 instrs)

/-- The mask for the lines of the cache is patched in.
mirrors src/crypto/randomx/randomx.cpp:190-194 and 235 -/
def codeSshPrefetchTweaked : Bytes := sshash_prefetch.bytes.writeAt 3 (le 4 (ArgonMemory * 16 - 1))

/-- The next line is selected, by the address register. -/
def nextLine (AVX2 : Bool) (addrReg : Reg) : Bytes :=
  (le 4 (0xd88b49 + addrReg.val <<< 16)).take 3 ++ (codeSshPrefetchTweaked ++
    if AVX2 then addAt 3 (addrReg.val <<< 3) avx2_ssh_prefetch.bytes else [])

/-- What mixes lines in. -/
def codeSshLoads (AVX2 : Bool) : Bytes :=
  sshash_load.bytes ++ if AVX2 then avx2_ssh_load.bytes else []

/-- The turns of the loop, one for each program. -/
def programsCode (AVX2 : Bool) : List SuperscalarProgram → Option Bytes
  | [] => some []
  | prog :: programs => do
    let code ← instructionsCode AVX2 prog.program
    let rest ← programsCode AVX2 programs
    return code ++ (codeSshLoads AVX2 ++
      ((if programs.isEmpty then [] else nextLine AVX2 prog.addrReg) ++ rest))

/-! ## There is code -/

@[simp] theorem length_addAt (i n : Nat) (p : Bytes) : (addAt i n p).length = p.length :=
  List.length_modify ..

@[simp] theorem length_subAt (i n : Nat) (p : Bytes) : (subAt i n p).length = p.length :=
  List.length_modify ..

/-- The most that the code of an instruction takes. -/
def codeLength (AVX2 : Bool) : SuperscalarInstructionType → Nat
  | ISUB_R | IXOR_R => if AVX2 then 7 else 3
  | IADD_RS => if AVX2 then 13 else 4
  | IMUL_R => if AVX2 then 46 else 4
  | IROR_C => if AVX2 then 19 else 4
  | IADD_C7 | IXOR_C7 | IADD_C8 | IXOR_C8 | IADD_C9 | IXOR_C9 => if AVX2 then 27 else 7
  | IMULH_R => if AVX2 then 87 else 9
  | ISMULH_R => if AVX2 then 122 else 9
  | IMUL_RCP => if AVX2 then 68 else 14
  | INVALID => 0

def instructionsLength (AVX2 : Bool) (instrs : List Instruction) : Nat :=
  (instrs.map fun instr => codeLength AVX2 (typeOf instr.opcode)).sum

/-- There is code for what can be executed. -/
theorem generateSuperscalarCode_length {type : SuperscalarInstructionType} {instr : Instruction}
    (h : Safe type instr) (AVX2 : Bool) :
    ∃ code, generateSuperscalarCode AVX2 instr = some code ∧
      code.length ≤ codeLength AVX2 type := by
  rw [generateSuperscalarCode, h.typeOf_eq]
  cases type with
  | INVALID => exact absurd rfl h.valid
  | IADD_RS =>
    refine ⟨_, rfl, ?_⟩
    cases AVX2 with
    | false => simp [codeLength]
    | true => by_cases hs : instr.getModShift = 0 <;> simp [hs, vectors, codeLength]
  | _ =>
    refine ⟨_, rfl, ?_⟩
    cases AVX2 <;> simp [vectors, product, constant, writeAt, codeLength]

theorem instructionsCode_length {instrs : List Instruction}
    (h : ∀ instr ∈ instrs, ∃ type, Safe type instr) (AVX2 : Bool) :
    ∃ code, instructionsCode AVX2 instrs = some code ∧
      code.length ≤ instructionsLength AVX2 instrs := by
  induction instrs with
  | nil => exact ⟨[], rfl, Nat.le_refl _⟩
  | cons instr instrs ih =>
    obtain ⟨type, hsafe⟩ := h instr List.mem_cons_self
    obtain ⟨b, hb, hlen⟩ := generateSuperscalarCode_length hsafe AVX2
    obtain ⟨c, hc, hlen'⟩ := ih fun i hi => h i (List.mem_cons_of_mem _ hi)
    refine ⟨b ++ c, by simp [instructionsCode, hb, hc], ?_⟩
    rw [instructionsLength, List.map_cons, List.sum_cons, hsafe.typeOf_eq, List.length_append]
    exact Nat.add_le_add hlen hlen'

/-- It is not much. -/
theorem instructionsLength_le (AVX2 : Bool) (instrs : List Instruction) :
    instructionsLength AVX2 instrs ≤ 128 * instrs.length := by
  have hone (type : SuperscalarInstructionType) : codeLength AVX2 type ≤ 128 := by
    cases type <;> cases AVX2 <;> decide
  induction instrs with
  | nil => exact Nat.le_refl _
  | cons instr instrs ih =>
    rw [instructionsLength, List.map_cons, List.sum_cons, ← instructionsLength, List.length_cons]
    have := hone (typeOf instr.opcode)
    omega

theorem length_lines (AVX2 : Bool) (addrReg : Reg) :
    (codeSshLoads AVX2).length ≤ 512 ∧ (nextLine AVX2 addrReg).length ≤ 512 := by
  have hload : (Listing.bytes sshash_load).length ≤ 256 ∧
      (Listing.bytes avx2_ssh_load).length ≤ 256 := by decide +kernel
  have hnext : codeSshPrefetchTweaked.length ≤ 128 ∧
      (Listing.bytes avx2_ssh_prefetch).length ≤ 128 := by decide +kernel
  cases AVX2
  all_goals
    simp only [codeSshLoads, nextLine, List.length_append, List.length_take, length_le,
      length_addAt, if_true, if_false, Bool.false_eq_true, List.length_nil]
    omega

theorem programsCode_length {programs : List SuperscalarProgram} {size : Nat} {AVX2 : Bool}
    (h : ∀ prog ∈ programs, SafeProgram prog ∧ instructionsLength AVX2 prog.program ≤ size) :
    ∃ code, programsCode AVX2 programs = some code ∧
      code.length ≤ (size + 1024) * programs.length := by
  induction programs with
  | nil => exact ⟨[], rfl, Nat.le_refl _⟩
  | cons prog programs ih =>
    obtain ⟨hsafe, hsize⟩ := h prog List.mem_cons_self
    obtain ⟨b, hb, hlen⟩ := instructionsCode_length hsafe AVX2
    obtain ⟨c, hc, hlen'⟩ := ih fun p hp => h p (List.mem_cons_of_mem _ hp)
    obtain ⟨hload, hnext⟩ := length_lines AVX2 prog.addrReg
    refine ⟨_, by simp only [programsCode, hb, hc, Option.bind_eq_bind, Option.bind_some]; rfl, ?_⟩
    have hlast : (if programs.isEmpty then [] else nextLine AVX2 prog.addrReg).length ≤ 512 := by
      split
      · exact Nat.zero_le _
      · exact hnext
    rw [List.length_append, List.length_append, List.length_append, List.length_cons, Nat.mul_add]
    omega

end Rxs.RandomX.JitCompilerX86

namespace Rxs

open Rxs.Core Rxs.RandomX Rxs.RandomX.BytecodeMachine Rxs.RandomX.JitStatic
open Rxs.RandomX.Superscalar Rxs.RandomX.JitCompilerX86
open Rxs.L2.JitControl Rxs.L2.SuperscalarAssembly Rxs.L2.SuperscalarLanes
open Rxs.L2.DatasetFragments Rxs.L2.DatasetLanes
open Rxs.L2.JitInteger (Temporary)
open Rxs.Core.X86 (rax rcx rdx rsp rsi load64 slot Within Frame)
open Rxs.Core.Avx2 (Instr Data State Does Encodes LaneInstr Listing does_lanes)

namespace L2.SuperscalarHash

/-- The words of five items, the first in registers and the others in lanes. -/
structure Holds (AVX2 : Bool) (r : Fin 5 → Words) (d : Data) : Prop where
  words : ∀ q, d.regs (native q) = r 0 q
  lanes : AVX2 = true → ∀ l : Fin 4, Lane (d.ymm · l) (r l.succ)

/-- The lines that are mixed in next. -/
structure Selected (AVX2 : Bool) (memory lo : BitVec 64) (v : Fin 5 → BitVec 64) (d : Data) :
    Prop where
  line : d.regs rbx = getMixBlock memory (v 0)
  lines : AVX2 = true →
    ∀ l : Fin 4, load64 d.mem (slot lo (5 + l.val)) = getMixBlock memory (v l.succ)

/-- What lanes 1 to 4 need on the stack. -/
def Scratch (AVX2 : Bool) (lo c : BitVec 64) : Prop := AVX2 = true ∧ Within lo 80 c

/-- All that is changed is temporary. -/
structure Kept (AVX2 : Bool) (lo : BitVec 64) (d d' : Data) : Prop where
  regs : ∀ g ∈ [rsp, rbp, rsi, rdi], d'.regs g = d.regs g
  frame : Frame (Scratch AVX2 lo) d.mem d'.mem

variable {AVX2 : Bool} {memory lo : BitVec 64}

theorem Kept.trans {d d' d'' : Data} (h : Kept AVX2 lo d d') (h' : Kept AVX2 lo d' d'') :
    Kept AVX2 lo d d'' :=
  ⟨fun g hg => (h'.regs g hg).trans (h.regs g hg), h.frame.trans h'.frame⟩

/-! ## Instructions -/

/-- Integer instructions leave vectors alone. -/
theorem does_int {is : List X86.Instr} (hj : ∀ i ∈ is, i.jumps = false) (d : Data) {m : X86.State}
    (h : X86.execAll is d.state.toState = some m) :
    Does (is.map .int) d { d with regs := m.regs, mem := m.mem } := by
  obtain ⟨cf, hcf⟩ := Avx2.execAll_int h
  refine Avx2.does_of_execAll (s := d.state) (fun i hi => ?_) hcf
  obtain ⟨j, hmem, rfl⟩ := List.mem_map.mp hi
  exact hj j hmem

theorem ints_jumps {type : SuperscalarInstructionType} {instr : Instruction} {i : X86.Instr}
    (hi : i ∈ ints AVX2 type instr) : i.jumps = false := by
  have hall : (ints AVX2 type instr).all fun i => i.jumps = false := by
    cases type <;> cases AVX2 <;> simp [ints, X86.Instr.jumps]
  simpa using List.all_eq_true.mp hall i hi

/-- **One instruction**, on all lanes. -/
theorem does_assembly {type : SuperscalarInstructionType} {instr : Instruction}
    (h : Safe type instr) {r r' : Fin 5 → Words}
    (hexec : ∀ l, executeInstr (r l) instr = some (r' l)) {d : Data}
    (hd : Holds AVX2 r d) : ∃ d', Does (assembly AVX2 type instr) d d' ∧ Holds AVX2 r' d' ∧
      (∀ g, ¬ Temporary g → (∀ q, g ≠ native q) → d'.regs g = d.regs g) ∧ d'.mem = d.mem := by
  have hr' (l : Fin 5) : r' l = Function.update (r l) (reg instr.dst)
      (result type instr (r l (reg instr.dst)) (r l (reg instr.src))) :=
    Option.some.inj ((hexec l).symm.trans (h.executeInstr_eq (r l)))
  have hscalar : Scalar d.state.toState (r 0) d.state.toState :=
    ⟨hd.words, fun _ _ _ => rfl, rfl⟩
  obtain ⟨m, hm, hwords, hothers, hmem⟩ := hscalar.exec h AVX2
  have hint := does_int (fun i hi => ints_jumps hi) d hm
  cases AVX2 with
  | false =>
    refine ⟨_, hint.append (.nil _), ⟨fun q => ?_, nofun⟩, hothers, hmem⟩
    rw [hr']
    exact hwords q
  | true =>
    refine ⟨_, hint.append (does_lanes _ _), ⟨fun q => ?_, fun _ l => ?_⟩, hothers, hmem⟩
    · rw [hr']
      exact hwords q
    · rw [hr']
      exact (hd.lanes rfl l).exec h

/-- **A program.** -/
theorem does_instructions {instrs : List Instruction}
    (hsafe : ∀ instr ∈ instrs, ∃ type, Safe type instr) {code : Bytes}
    (hcode : instructionsCode AVX2 instrs = some code) :
    ∃ is, Encodes code is ∧ ∀ (r r' : Fin 5 → Words) (d : Data),
      (∀ l, instrs.foldlM executeInstr (r l) = some (r' l)) → Holds AVX2 r d →
      ∃ d', Does is d d' ∧ Holds AVX2 r' d' ∧
        (∀ g, ¬ Temporary g → (∀ q, g ≠ native q) → d'.regs g = d.regs g) ∧ d'.mem = d.mem := by
  induction instrs generalizing code with
  | nil =>
    cases hcode
    refine ⟨[], .nil, fun r r' d hr hd => ⟨d, .nil d, ?_, fun _ _ _ => rfl, rfl⟩⟩
    have heq : r' = r := funext fun l => (Option.some.inj (hr l)).symm
    exact heq ▸ hd
  | cons instr instrs ih =>
    obtain ⟨b, hb, c, hc, rfl⟩ : ∃ b, generateSuperscalarCode AVX2 instr = some b ∧
        ∃ c, instructionsCode AVX2 instrs = some c ∧ code = b ++ c := by
      simp only [instructionsCode, Option.bind_eq_bind, Option.bind_eq_some_iff, Option.pure_def,
        Option.some.injEq] at hcode
      obtain ⟨b, hb, c, hc, h⟩ := hcode
      exact ⟨b, hb, c, hc, h.symm⟩
    obtain ⟨type, hone⟩ := hsafe instr List.mem_cons_self
    obtain ⟨is, his, hdoes⟩ := ih (fun i hi => hsafe i (List.mem_cons_of_mem _ hi)) hc
    refine ⟨_, (encodes_code hone hb).append his, fun r r' d hr hd => ?_⟩
    have hstep (l : Fin 5) : ∃ u, executeInstr (r l) instr = some u ∧
        instrs.foldlM executeInstr u = some (r' l) := by
      have h := hr l
      rw [List.foldlM_cons] at h
      exact Option.bind_eq_some_iff.mp h
    choose u hu hur using hstep
    obtain ⟨d₁, hd₁, hu₁, hregs₁, hmem₁⟩ := does_assembly hone hu hd
    obtain ⟨d', hd', hr', hregs, hmem⟩ := hdoes u r' d₁ hur hu₁
    exact ⟨d', hd₁.append hd', hr', fun g hg hn => (hregs g hg hn).trans (hregs₁ g hg hn),
      hmem.trans hmem₁⟩

/-! ## Lines -/

theorem slot_line (memory v : BitVec 64) (q : Reg) :
    slot (getMixBlock memory v) q.val = getMixBlock memory v + 8 * BitVec.ofNat 64 q := by
  rw [slot, BitVec.ofNat_mul]
  rfl

theorem not_temporary {g : X86.Reg} (hg : g ∈ [rbx, rsp, rbp, rsi, rdi]) : ¬ Temporary g := by
  rintro (rfl | rfl | rfl) <;> revert hg <;> decide

theorem ne_native {g : X86.Reg} (hg : g ∈ [rbx, rsp, rbp, rsi, rdi]) (q : Reg) : g ≠ native q := by
  revert g q
  decide

/-- The cache is apart from the words on the stack. -/
def Apart (AVX2 : Bool) (memory lo : BitVec 64) : Prop :=
  ∀ v, ∀ q : Reg, X86.Bytes8 (fun c => ¬ Scratch AVX2 lo c) (slot (getMixBlock memory v) q)

theorem encodes_listing {l : Listing} (hl : l ∈ listings)
    (hlink : ∀ code p, Listing.linked code p l = some l.instrs) : Encodes l.bytes l.instrs :=
  Listing.encodes (listings_valid l hl) hlink

/-- **The lines are mixed in.** -/
theorem does_load {r : Fin 5 → Words} {v : Fin 5 → BitVec 64} {d : Data} (hr : Holds AVX2 r d)
    (hv : Selected AVX2 memory lo v d) (hrsp : AVX2 = true → d.regs rsp = slot lo 5)
    (hapart : Apart AVX2 memory lo) :
    ∃ d', Does (Listing.instrs sshash_load ++
        if AVX2 then Listing.instrs avx2_ssh_load else []) d d' ∧
      Holds AVX2 (fun l => mixLine d.mem memory (v l) (r l)) d' ∧ Kept AVX2 lo d d' := by
  obtain ⟨d₁, hd₁, hwords, hothers, hmem, hymm⟩ := does_sshash_load d
  have hline (q : Reg) : d₁.regs (native q) = mixLine d.mem memory (v 0) (r 0) q := by
    rw [hwords, hv.line, hr.words, slot_line]
    rfl
  have hkept (g : X86.Reg) (hg : g ∈ [rsp, rbp, rsi, rdi]) : d₁.regs g = d.regs g :=
    hothers g (ne_native (List.mem_cons_of_mem _ hg))
  cases AVX2 with
  | false =>
    refine ⟨d₁, hd₁.append (.nil _), ⟨hline, nofun⟩, hkept, ?_⟩
    rw [hmem]
    exact .refl _ _
  | true =>
    have hlines (l : Fin 4) :
        load64 d₁.mem (slot lo (5 + l.val)) = getMixBlock memory (v l.succ) := by
      rw [hmem]
      exact hv.lines rfl l
    have hclear (l : Fin 4) (q : Nat) (hq : q < 8) :
        X86.Bytes8 (fun c => ¬ Within lo 40 c) (slot (getMixBlock memory (v l.succ)) q) := by
      intro i hi hwithin
      exact hapart (v l.succ) ⟨q, hq⟩ i hi ⟨rfl, Nat.lt_trans hwithin (by decide)⟩
    obtain ⟨d', hd', hlanes, hsign, hcarry, hregs, hframe⟩ :=
      does_avx2_ssh_load d₁ ((hkept rsp (by simp)).trans (hrsp rfl)) hlines hclear
    have hback (g : X86.Reg) (ht : ¬ Temporary g) : d'.regs g = d₁.regs g :=
      hregs g (fun h => ht (.inl h)) (fun h => ht (.inr (.inl h))) (fun h => ht (.inr (.inr h)))
    refine ⟨d', hd₁.append hd', ⟨fun q => ?_, fun _ l => ⟨fun q => ?_, ?_, ?_⟩⟩, fun g hg => ?_, ?_⟩
    · rw [hback _ fun ht => ht.ne_native q rfl, hline]
    · have hl := hr.lanes rfl l
      rw [hlanes, hymm, hmem, hl.words, slot_line]
      rfl
    · rw [hsign, hymm]
      exact (hr.lanes rfl l).sign
    · rw [hcarry, hymm]
      exact (hr.lanes rfl l).carry
    · rw [hback g (not_temporary (List.mem_cons_of_mem _ hg)), hkept g hg]
    · rw [← hmem]
      exact hframe.mono fun c hc => ⟨rfl, Nat.lt_trans hc (by decide)⟩

/-- The instructions that select the next lines. -/
def nextCode (AVX2 : Bool) (a : Reg) : List Instr :=
  .int (.mov true rbx (.reg (native a))) :: (select rbx ++ .int .nop ::
    if AVX2 then prefetchCode a else [])

/-- The register that is patched in. -/
theorem encodes_places (a : Reg) :
    Encodes [0xC5, 0xFE, 0x7F, (0x04 : UInt8) + UInt8.ofNat (a.val <<< 3), 0x24]
      [.vmovdquStore (ptr rsp 0) (lane a)] := by
  refine .one (by simp) (fun rest => ?_) fun _ _ => rfl
  have hdecode : Avx2.decodeMore (0xC5 :: 0xFE :: 0x7F ::
      ((0x04 : UInt8) + UInt8.ofNat (a.val <<< 3)) :: 0x24 :: rest) =
        some (.vmovdquStore (ptr rsp 0) (lane a), rest) := by
    induction a using eight_cases <;> rfl
  exact (Avx2.decode_foreign (by decide) _).trans hdecode

theorem encodes_nextLine (AVX2 : Bool) (a : Reg) : Encodes (nextLine AVX2 a) (nextCode AVX2 a) := by
  have hmov : Encodes ((Bytes.le 4 (0xd88b49 + a.val <<< 16)).take 3)
      [.int (.mov true rbx (.reg (native a)))] := by
    refine .one (by simp [Bytes.le]) (fun rest => ?_) fun _ _ => rfl
    induction a using eight_cases <;> rfl
  have htweaked : codeSshPrefetchTweaked = Listing.bytes sshash_prefetch := by
    decide +kernel
  have hselect : Encodes codeSshPrefetchTweaked (select rbx ++ [.int .nop]) :=
    htweaked ▸ encodes_listing (by simp [listings]) fun _ _ => rfl
  cases AVX2 with
  | false => exact hmov.append (hselect.append .nil)
  | true =>
    have hrest : Encodes (Listing.bytes avx2_ssh_prefetch.tail) (prefetchCode a).tail := by
      refine Listing.encodes ?_ fun _ _ => rfl
      have hvalid := listings_valid avx2_ssh_prefetch (by simp [listings])
      exact (List.forall_cons .. |>.mp hvalid).2
    exact hmov.append (hselect.append ((encodes_places a).append hrest))

/-- **The next lines are selected.** -/
theorem does_next {r : Fin 5 → Words} {d : Data} (hr : Holds AVX2 r d) (a : Reg)
    (hrdi : d.regs rdi = memory) (hrsp : AVX2 = true → d.regs rsp = slot lo 5) :
    ∃ d', Does (nextCode AVX2 a) d d' ∧ Holds AVX2 r d' ∧
      Selected AVX2 memory lo (fun l => r l a) d' ∧ Kept AVX2 lo d d' := by
  have hmov : Does [.int (.mov true rbx (.reg (native a)))] d (d.setReg rbx (r 0 a)) := by
    refine ⟨by simp [Instr.jumps, X86.Instr.jumps], ?_⟩
    simp [hr.words]
  have hselect := does_select (r := rbx) (by decide) (d.setReg rbx (r 0 a))
  set d₁ : Data := { d.setReg rbx (r 0 a) with
    regs := Function.update (d.setReg rbx (r 0 a)).regs rbx
      (getMixBlock ((d.setReg rbx (r 0 a)).regs rdi) ((d.setReg rbx (r 0 a)).regs rbx)) }
  have hline : d₁.regs rbx = getMixBlock memory (r 0 a) := by
    have hne : rdi ≠ rbx := by decide
    simp [d₁, hne, hrdi]
  have hregs₁ (g : X86.Reg) (hg : g ≠ rbx) : d₁.regs g = d.regs g := by
    simp [d₁, hg]
  have hmem₁ : d₁.mem = d.mem := rfl
  have hymm₁ : d₁.ymm = d.ymm := rfl
  clear_value d₁
  have hnop : Does [.int .nop] d₁ d₁ := ⟨by simp [Instr.jumps, X86.Instr.jumps], by simp⟩
  have hwords (q : Reg) : d₁.regs (native q) = r 0 q :=
    (hregs₁ _ (native_ne_rbx q).symm).trans (hr.words q)
  have hkept₁ (g : X86.Reg) (hg : g ∈ [rsp, rbp, rsi, rdi]) : d₁.regs g = d.regs g :=
    hregs₁ g (by revert g; decide)
  cases AVX2 with
  | false =>
    refine ⟨d₁, hmov.append (hselect.append (hnop.append (.nil _))),
      ⟨hwords, fun h => absurd h Bool.false_ne_true⟩,
      ⟨hline, fun h => absurd h Bool.false_ne_true⟩, hkept₁, ?_⟩
    rw [hmem₁]
    exact .refl _ _
  | true =>
    obtain ⟨d', hd', hplaces, hregs, hymm, hframe⟩ :=
      does_prefetchCode a d₁ ((hkept₁ rsp (by simp)).trans (hrsp rfl))
    refine ⟨d', hmov.append (hselect.append (hnop.append hd')), ⟨fun q => ?_, fun _ l => ?_⟩,
      ⟨?_, fun _ l => ?_⟩, fun g hg => ?_, ?_⟩
    · have hne : native q ≠ rax := Temporary.ne_native (.inl rfl) q
      rw [hregs _ hne, hwords]
    · rw [hymm, hymm₁]
      exact hr.lanes rfl l
    · rw [hregs rbx (by decide), hline]
    · rw [hplaces, hkept₁ rdi (by simp), hrdi, hymm₁, (hr.lanes rfl l).words]
    · have hne : g ≠ rax := fun heq => not_temporary (List.mem_cons_of_mem _ hg) (.inl heq)
      rw [hregs g hne, hkept₁ g hg]
    · rw [← hmem₁]
      exact hframe.mono fun c hc => ⟨rfl, Nat.lt_trans hc (by decide)⟩

/-! ## Programs -/

/-- The cache decides what is mixed in, and nothing else in memory does. -/
theorem mixFrom_congr {m m' : BitVec 64 → BitVec 8}
    (h : ∀ v, ∀ q : Reg, load64 m' (slot (getMixBlock memory v) q) =
      load64 m (slot (getMixBlock memory v) q)) (programs : List SuperscalarProgram) (v : BitVec 64)
    (rl : Words) : mixFrom m' memory programs v rl = mixFrom m memory programs v rl := by
  induction programs generalizing v rl with
  | nil => rfl
  | cons prog programs ih =>
    have hline (rl : Words) : mixLine m' memory v rl = mixLine m memory v rl := by
      funext q
      rw [mixLine, mixLine, ← slot_line, h]
    simp only [mixFrom, hline, ih]

/-- The instructions make of items' words what the programs do. -/
def Mixes (AVX2 : Bool) (memory lo : BitVec 64) (programs : List SuperscalarProgram)
    (is : List Instr) : Prop :=
  ∀ (r r' : Fin 5 → Words) (v : Fin 5 → BitVec 64) (d : Data),
    (∀ l, mixFrom d.mem memory programs (v l) (r l) = some (r' l)) → Apart AVX2 memory lo →
    d.regs rdi = memory → (AVX2 = true → d.regs rsp = slot lo 5) → Holds AVX2 r d →
    Selected AVX2 memory lo v d → ∃ d', Does is d d' ∧ Holds AVX2 r' d' ∧ Kept AVX2 lo d d'

/-- **The code of the programs** makes the words of all items. -/
theorem does_programs {programs : List SuperscalarProgram}
    (hsafe : ∀ prog ∈ programs, SafeProgram prog) {code : Bytes}
    (hcode : programsCode AVX2 programs = some code) :
    ∃ is, Encodes code is ∧ Mixes AVX2 memory lo programs is := by
  induction programs generalizing code with
  | nil =>
    cases hcode
    refine ⟨[], .nil, fun r r' v d hr _ _ _ hd _ => ⟨d, .nil d, ?_, fun _ _ => rfl, .refl _ _⟩⟩
    have heq : r' = r := funext fun l => (Option.some.inj (hr l)).symm
    exact heq ▸ hd
  | cons prog programs ih =>
    obtain ⟨b, hb, c, hc, rfl⟩ : ∃ b, instructionsCode AVX2 prog.program = some b ∧
        ∃ c, programsCode AVX2 programs = some c ∧
        code = b ++ (codeSshLoads AVX2 ++
          ((if programs.isEmpty then [] else nextLine AVX2 prog.addrReg) ++ c)) := by
      simp only [programsCode, Option.bind_eq_bind, Option.bind_eq_some_iff, Option.pure_def,
        Option.some.injEq] at hcode
      obtain ⟨b, hb, c, hc, h⟩ := hcode
      exact ⟨b, hb, c, hc, h.symm⟩
    obtain ⟨is, his, hprog⟩ := does_instructions (hsafe prog List.mem_cons_self) hb
    obtain ⟨js, hjs, hrest⟩ := ih (fun p hp => hsafe p (List.mem_cons_of_mem _ hp)) hc
    have hload : Encodes (codeSshLoads AVX2)
        (Listing.instrs sshash_load ++ if AVX2 then Listing.instrs avx2_ssh_load else []) := by
      refine (encodes_listing (by simp [listings]) fun _ _ => rfl).append ?_
      cases AVX2 with
      | false => exact .nil
      | true => exact encodes_listing (by simp [listings]) fun _ _ => rfl
    -- what a program leaves, and its line mixed in
    have hturn (r r' : Fin 5 → Words) (v : Fin 5 → BitVec 64) (d : Data)
        (hr : ∀ l, mixFrom d.mem memory (prog :: programs) (v l) (r l) = some (r' l))
        (hapart : Apart AVX2 memory lo) (hrsp : AVX2 = true → d.regs rsp = slot lo 5)
        (hd : Holds AVX2 r d) (hv : Selected AVX2 memory lo v d) : ∃ u d', Does (is ++
          (Listing.instrs sshash_load ++ if AVX2 then Listing.instrs avx2_ssh_load else [])) d d' ∧
        (∀ l, mixFrom d.mem memory programs (u l prog.addrReg) (u l) = some (r' l)) ∧
        Holds AVX2 u d' ∧ Kept AVX2 lo d d' := by
      have hstep (l : Fin 5) : ∃ t, prog.program.foldlM executeInstr (r l) = some t ∧
          mixFrom d.mem memory programs (mixLine d.mem memory (v l) t prog.addrReg)
            (mixLine d.mem memory (v l) t) = some (r' l) :=
        Option.bind_eq_some_iff.mp (hr l)
      choose t ht htr using hstep
      obtain ⟨d₁, hd₁, ht₁, hregs₁, hmem₁⟩ := hprog r t d ht hd
      have hkeep (g : X86.Reg) (hg : g ∈ [rbx, rsp, rbp, rsi, rdi]) : d₁.regs g = d.regs g :=
        hregs₁ g (not_temporary hg) (ne_native hg)
      have hv₁ : Selected AVX2 memory lo v d₁ :=
        ⟨(hkeep rbx (by simp)).trans hv.line, fun h l => hmem₁ ▸ hv.lines h l⟩
      obtain ⟨d', hd', hu, hkept⟩ := does_load ht₁ hv₁
        (fun h => (hkeep rsp (by simp)).trans (hrsp h)) hapart
      rw [hmem₁] at hu
      refine ⟨_, d', hd₁.append hd', htr, hu, fun g hg => ?_, hmem₁ ▸ hkept.frame⟩
      exact (hkept.regs g hg).trans (hkeep g (List.mem_cons_of_mem _ hg))
    cases programs with
    | nil =>
      cases hc
      refine ⟨_, his.append (hload.append .nil), fun r r' v d hr hapart hrdi hrsp hd hv => ?_⟩
      obtain ⟨u, d', hd', hu, hholds, hkept⟩ := hturn r r' v d hr hapart hrsp hd hv
      have heq : r' = u := funext fun l => (Option.some.inj (hu l)).symm
      exact ⟨d', by rwa [List.append_nil], heq ▸ hholds, hkept⟩
    | cons next programs =>
      refine ⟨_, his.append (hload.append ((encodes_nextLine AVX2 prog.addrReg).append hjs)),
        fun r r' v d hr hapart hrdi hrsp hd hv => ?_⟩
      obtain ⟨u, d₁, hd₁, hu, hholds₁, hkept₁⟩ := hturn r r' v d hr hapart hrsp hd hv
      have hrdi₁ : d₁.regs rdi = memory := (hkept₁.regs rdi (by simp)).trans hrdi
      have hrsp₁ (h : AVX2 = true) : d₁.regs rsp = slot lo 5 :=
        (hkept₁.regs rsp (by simp)).trans (hrsp h)
      obtain ⟨d₂, hd₂, hholds₂, hselected₂, hkept₂⟩ := does_next hholds₁ prog.addrReg hrdi₁ hrsp₁
      have hkept := hkept₁.trans hkept₂
      have hcache (v : BitVec 64) (q : Reg) : load64 d₂.mem (slot (getMixBlock memory v) q) =
          load64 d.mem (slot (getMixBlock memory v) q) := hkept.frame.load64 (hapart v q)
      obtain ⟨d', hd', hholds, hkept'⟩ := hrest u r' _ d₂
        (fun l => (mixFrom_congr hcache _ _ _).trans (hu l)) hapart
        ((hkept.regs rdi (by simp)).trans hrdi) (fun h => (hkept.regs rsp (by simp)).trans (hrsp h))
        hholds₂ hselected₂
      exact ⟨d', by simpa only [List.append_assoc] using hd₁.append (hd₂.append hd'), hholds,
        hkept.trans hkept'⟩

end L2.SuperscalarHash

end Rxs
