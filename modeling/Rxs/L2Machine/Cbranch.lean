import Mathlib.Tactic.IntervalCases
import Rxs.Core.BackJump
import Rxs.L2Machine.BytecodeMachine

/-!
# Branches of the bytecode end

A branch adds its constant to a register and goes back, if eight bits of the sum are
zero, behind the instruction that changed the register last. Nothing between the two
changes it, and no other branch stands there. The constant has the lowest of the eight
bits set and the bit below them clear, so the sum cannot be zero there three times.

* `Marks`: what the table of last changes says of the bytecode so far.
* `branches_step`, `branches_compiled`: what the compiler makes of branches.
* `falls_through`: one of three sums in a row has a bit set.
* **`cbranch_terminates`**: every program, in three times its size.
-/
namespace Rxs

open Rxs.Core Rxs.RandomX Rxs.RandomX.BytecodeMachine

namespace L2.Cbranch

/-- What is asked of a branch at `j`: it goes back, to a place from where on nothing
changes its register and no other branch stands. -/
structure BranchOk (bytecode : List InstructionByteCode) (j : Nat) (ibc : InstructionByteCode) :
    Prop where
  back : -1 ≤ ibc.target ∧ ibc.target < j
  kept : ∀ {k : Nat} {ibc' : InstructionByteCode}, bytecode[k]? = some ibc' → ibc.target < k →
    k < j → ibc'.type ≠ .CBRANCH ∧ ibc.idst ∉ changes ibc'
  imm : ∃ instr, ibc.imm = branchImm instr ∧
    ibc.memMask = ConditionMask_Calculated <<< instr.getModCond

def Branches (bytecode : List InstructionByteCode) : Prop :=
  ∀ {j : Nat} {ibc : InstructionByteCode}, bytecode[j]? = some ibc → ibc.type = .CBRANCH →
    BranchOk bytecode j ibc

/-! ## The compiler -/

/-- Behind the last change of a register nothing changes it. -/
structure Marks (bytecode : List InstructionByteCode) (u : Usage) : Prop where
  range : ∀ r, -1 ≤ u r ∧ u r < bytecode.length
  kept : ∀ {r : Reg} {k : Nat} {ibc : InstructionByteCode}, bytecode[k]? = some ibc → u r < k →
    ibc.type ≠ .CBRANCH ∧ r ∉ changes ibc

theorem getElem?_snoc {α : Type} {l : List α} {a x : α} {k : Nat} (h : (l ++ [a])[k]? = some x) :
    l[k]? = some x ∨ k = l.length ∧ x = a := by
  rcases lt_trichotomy k l.length with hk | rfl | hk
  · exact .inl (by rwa [List.getElem?_append_left hk] at h)
  · exact .inr ⟨rfl, by simpa using h.symm⟩
  · have hlen : (l ++ [a]).length ≤ k := by
      rw [List.length_append, List.length_singleton]
      omega
    rw [List.getElem?_eq_none hlen] at h
    cases h

theorem toInt16_eq {x : Int} (h : -32768 ≤ x ∧ x < 32768) : toInt16 x = x := by
  unfold toInt16
  rw [BitVec.toInt_ofInt, Int.bmod_def]
  split <;> omega

/-- **One instruction more** keeps what the table says. -/
theorem marks_step {bytecode : List InstructionByteCode} {u : Usage} (h : Marks bytecode u)
    (c : Configuration) (type : InstructionType) (instr : Instruction) :
    Marks (bytecode ++ [(compile c type instr bytecode.length u).1])
      (compile c type instr bytecode.length u).2 := by
  by_cases ht : type = .CBRANCH
  · subst ht
    refine ⟨fun r => ?_, fun {r k ibc} hk hlt => ?_⟩
    · simp [compile]
    · rcases getElem?_snoc hk with hk | ⟨rfl, -⟩
      · have := (List.getElem?_eq_some_iff.mp hk).1
        simp only [compile] at hlt
        omega
      · simp [compile] at hlt
  · refine ⟨fun r => ?_, fun {r k ibc} hk hlt => ?_⟩
    · have hr := h.range r
      rw [List.length_append, List.length_singleton]
      rcases used_of_changes c ht instr bytecode.length u r with he | ⟨he, -⟩ <;> rw [he] <;> omega
    · rcases getElem?_snoc hk with hk | ⟨rfl, rfl⟩
      · rcases used_of_changes c ht instr bytecode.length u r with he | ⟨he, -⟩ <;> rw [he] at hlt
        · have := (List.getElem?_eq_some_iff.mp hk).1
          omega
        · exact h.kept hk hlt
      · refine ⟨fun hb => ht ((compile_type c type instr _ u).mp hb), ?_⟩
        rcases used_of_changes c ht instr bytecode.length u r with he | ⟨-, hn⟩
        · omega
        · exact hn

theorem branches_step {bytecode : List InstructionByteCode} {u : Usage} (h : Marks bytecode u)
    (hb : Branches bytecode) (hsize : bytecode.length < 32768) (c : Configuration)
    (type : InstructionType) (instr : Instruction) :
    Branches (bytecode ++ [(compile c type instr bytecode.length u).1]) := by
  intro j ibc hj htype
  rcases getElem?_snoc hj with hj | ⟨rfl, rfl⟩
  · have hlt := (List.getElem?_eq_some_iff.mp hj).1
    obtain ⟨hback, hkept, himm⟩ := hb hj htype
    refine ⟨hback, fun {k ibc'} hk => ?_, himm⟩
    rcases getElem?_snoc hk with hk | ⟨rfl, -⟩
    · exact hkept hk
    · intro _ hlt'
      omega
  · cases (compile_type c type instr _ u).mp htype
    have hr := h.range (reg instr.dst)
    have htarget : toInt16 (u (reg instr.dst)) = u (reg instr.dst) := toInt16_eq (by omega)
    refine ⟨?_, fun {k ibc'} hk hlt hlt' => ?_, instr, rfl, rfl⟩
    · simp only [compile, htarget]
      exact hr
    · simp only [compile, htarget] at hlt ⊢
      rcases getElem?_snoc hk with hk | ⟨rfl, -⟩
      · exact h.kept hk hlt
      · omega

theorem compileFrom_branches {c : Configuration} (hc : c.Complete) (program : List Instruction)
    {bytecode : List InstructionByteCode} {u : Usage} (h : Marks bytecode u)
    (hb : Branches bytecode) (hsize : bytecode.length + program.length ≤ 32768) :
    ∃ rest, compileFrom c program bytecode.length u = some rest ∧
      rest.length = program.length ∧ Branches (bytecode ++ rest) := by
  induction program generalizing bytecode u with
  | nil => exact ⟨[], rfl, rfl, by rwa [List.append_nil]⟩
  | cons instr program ih =>
    obtain ⟨type, htype⟩ := Option.isSome_iff_exists.mp (Configuration.decode_isSome hc instr)
    rw [List.length_cons] at hsize
    obtain ⟨rest, hrest, hlen, hbranch⟩ := ih (marks_step h c type instr)
      (branches_step h hb (by omega) c type instr) (by
        rw [List.length_append, List.length_singleton]
        omega)
    rw [List.length_append, List.length_singleton] at hrest
    refine ⟨(compile c type instr bytecode.length u).1 :: rest, ?_, by
      rw [List.length_cons, hlen, List.length_cons], by
      rwa [List.append_assoc, List.singleton_append] at hbranch⟩
    simp only [compileFrom, compileInstruction, htype, Option.map_some, Option.bind_eq_bind,
      Option.bind_some, hrest]
    rfl

/-- **The compiled program**: every branch is as it has to be. -/
theorem branches_compiled {c : Configuration} (hc : c.Complete) (program : Program) :
    ∃ bytecode, compileProgram c program.instructions = some bytecode ∧
      bytecode.length = program.instructions.length ∧ Branches bytecode := by
  have hsize := program.size_le
  unfold RANDOMX_PROGRAM_MAX_SIZE at hsize
  have hmarks : Marks [] fun _ => -1 := ⟨fun r => by simp, fun hk => by simp at hk⟩
  have hnone : Branches [] := fun hj => by simp at hj
  obtain ⟨bytecode, hcompile, hlen, hb⟩ :=
    compileFrom_branches hc program.instructions hmarks hnone (by
      rw [List.length_nil]
      omega)
  exact ⟨bytecode, hcompile, hlen, hb⟩

/-! ## The constant of a branch -/

/-- Eight bits of a word. -/
theorem and_mask_eq_zero (v : BitVec 64) {k : Nat} (hk : k ≤ 56) :
    v &&& (255#64 <<< k) = 0 ↔ v.toNat / 2 ^ k % 256 = 0 := by
  have hmask : (255#64 <<< k).toNat = 255 <<< k := by
    rw [BitVec.toNat_shiftLeft]
    apply Nat.mod_eq_of_lt
    rw [Nat.shiftLeft_eq]
    calc 255 * 2 ^ k < 2 ^ 8 * 2 ^ k := Nat.mul_lt_mul_of_pos_right (by decide) (Nat.two_pow_pos k)
      _ = 2 ^ (8 + k) := (Nat.pow_add 2 8 k).symm
      _ ≤ 2 ^ 64 := Nat.pow_le_pow_right (by decide) (by omega)
  have hand : v.toNat &&& 255 <<< k = (v.toNat >>> k &&& 255) <<< k := by
    apply Nat.eq_of_testBit_eq
    intro i
    simp only [Nat.testBit_and, Nat.testBit_shiftLeft, Nat.testBit_shiftRight]
    by_cases hi : k ≤ i
    · simp [hi]
    · simp [hi]
  rw [← BitVec.toNat_inj, BitVec.toNat_and, hmask, hand, Nat.shiftLeft_eq, Nat.shiftRight_eq_div_pow,
    Nat.and_two_pow_sub_one_eq_mod _ 8]
  simp

theorem conditionMask_eq {s : Nat} (hs : s < 16) :
    (ConditionMask_Calculated <<< s).setWidth 64 = 255#64 <<< (8 + s) := by
  interval_cases s <;> rfl

theorem sums {s : Nat} (hs : s < 16) {x m : Nat} (hset : m / 2 ^ (8 + s) % 2 = 1)
    (hclear : m / 2 ^ (7 + s) % 2 = 0) :
    (x + m) % 2 ^ 64 / 2 ^ (8 + s) % 256 ≠ 0 ∨
      ((x + m) % 2 ^ 64 + m) % 2 ^ 64 / 2 ^ (8 + s) % 256 ≠ 0 ∨
      (((x + m) % 2 ^ 64 + m) % 2 ^ 64 + m) % 2 ^ 64 / 2 ^ (8 + s) % 256 ≠ 0 := by
  interval_cases s <;> simp only [Nat.reduceAdd, Nat.reducePow] at * <;> omega

theorem getModCond_lt (instr : Instruction) : instr.getModCond < 16 := by
  have := instr.mod.isLt
  unfold Instruction.getModCond
  omega

/-- The lowest of the eight bits is set, the one below them clear. -/
theorem branchImm_set (instr : Instruction) :
    (branchImm instr).toNat / 2 ^ (8 + instr.getModCond) % 2 = 1 := by
  have hs := getModCond_lt instr
  have hbit : (branchImm instr).getLsbD (8 + instr.getModCond) = true := by
    simp [branchImm, JumpOffset]
    omega
  rw [BitVec.getLsbD, Nat.testBit_eq_decide_div_mod_eq] at hbit
  simpa using hbit

theorem branchImm_clear (instr : Instruction) :
    (branchImm instr).toNat / 2 ^ (7 + instr.getModCond) % 2 = 0 := by
  have hs := getModCond_lt instr
  have hbit : (branchImm instr).getLsbD (7 + instr.getModCond) = false := by
    simp [branchImm, JumpOffset]
  rw [BitVec.getLsbD, Nat.testBit_eq_decide_div_mod_eq] at hbit
  simpa using hbit

/-- The branch is not taken on `v`, or not `k` times later. -/
def FallsThrough (ibc : InstructionByteCode) : Nat → BitVec 64 → Prop
  | 0, v => (v + ibc.imm) &&& ibc.memMask.setWidth 64 ≠ 0
  | k + 1, v => (v + ibc.imm) &&& ibc.memMask.setWidth 64 ≠ 0 ∨ FallsThrough ibc k (v + ibc.imm)

/-- **Taken twice, it falls through**, whatever the register was. -/
theorem falls_through {ibc : InstructionByteCode} (h : ∃ instr, ibc.imm = branchImm instr ∧
    ibc.memMask = ConditionMask_Calculated <<< instr.getModCond) (v : BitVec 64) :
    FallsThrough ibc 2 v := by
  obtain ⟨instr, himm, hmask⟩ := h
  have hs := getModCond_lt instr
  have hsums := sums hs (x := v.toNat) (branchImm_set instr) (branchImm_clear instr)
  rw [← himm] at hsums
  simp only [FallsThrough, hmask, conditionMask_eq hs, ne_eq,
    and_mask_eq_zero _ (k := 8 + instr.getModCond) (by omega), BitVec.toNat_add]
  exact hsums

/-! ## The run -/

variable {V : Type} (c : Configuration) (ops : FloatOps V)

/-- The bytecode as code with loops, one for each branch. -/
def loops (bytecode : List InstructionByteCode) : Loops (Loop V) where
  n := bytecode.length
  pc := Loop.pc
  step := turn c ops bytecode
  start j := bytecode[j]?.bind fun ibc =>
    if ibc.type = .CBRANCH then some (ibc.target + 1).toNat else none
  left j k l := ∀ ibc ∈ bytecode[j]?, ibc.type = .CBRANCH → FallsThrough ibc k (l.s.r ibc.idst)

theorem start_eq_some {bytecode : List InstructionByteCode} {j b : Nat}
    (h : (loops c ops bytecode).start j = some b) :
    ∃ ibc, bytecode[j]? = some ibc ∧ ibc.type = .CBRANCH ∧ b = (ibc.target + 1).toNat := by
  simp only [loops, Option.bind_eq_some_iff, Option.ite_none_right_eq_some, Option.some.injEq] at h
  obtain ⟨ibc, hj, ht, hb⟩ := h
  exact ⟨ibc, hj, ht, hb.symm⟩

theorem turn_eq {bytecode : List InstructionByteCode} {l : Loop V} {ibc : InstructionByteCode}
    (h : bytecode[l.pc]? = some ibc) : turn c ops bytecode l =
      ⟨((executeInstruction c ops ibc l.pc l.s).1 + 1).toNat,
        (executeInstruction c ops ibc l.pc l.s).2⟩ := by
  unfold turn
  rw [h]

/-- A branch adds its constant, and goes back if the bits of the sum are zero. -/
theorem turn_branch {bytecode : List InstructionByteCode} {l : Loop V} {ibc : InstructionByteCode}
    (h : bytecode[l.pc]? = some ibc) (ht : ibc.type = .CBRANCH) : turn c ops bytecode l =
      ⟨if (l.s.r ibc.idst + ibc.imm) &&& ibc.memMask.setWidth 64 = 0 then (ibc.target + 1).toNat
        else l.pc + 1, l.s.setR ibc.idst (l.s.r ibc.idst + ibc.imm)⟩ := by
  rw [turn_eq c ops h]
  unfold executeInstruction
  rw [ht]
  dsimp only
  split <;> rfl

/-- **The compiled program is code with loops** of no more than two turns back. -/
theorem bounded {bytecode : List InstructionByteCode} (hb : Branches bytecode) :
    (loops c ops bytecode).Bounded 2 where
  start_le {j b} h := by
    obtain ⟨ibc, hj, ht, rfl⟩ := start_eq_some c ops h
    have := (hb hj ht).back
    omega
  start_lt {j b} h := by
    obtain ⟨ibc, hj, -, -⟩ := start_eq_some c ops h
    exact (List.getElem?_eq_some_iff.mp hj).1
  disjoint {i b j b'} hi hj hlt := by
    obtain ⟨ibc, hi', hti, -⟩ := start_eq_some c ops hi
    obtain ⟨ibc', hj', htj, rfl⟩ := start_eq_some c ops hj
    by_contra hle
    have hback := (hb hj' htj).back
    exact ((hb hj' htj).kept hi' (by omega) hlt).1 hti
  next {l} hlt hnone := by
    obtain ⟨ibc, hl⟩ : ∃ ibc, bytecode[l.pc]? = some ibc :=
      ⟨_, List.getElem?_eq_getElem hlt⟩
    have ht : ibc.type ≠ .CBRANCH := by
      intro ht
      simp only [loops] at hnone
      rw [hl, Option.bind_some, if_pos ht] at hnone
      cases hnone
    change (turn c ops bytecode l).pc = l.pc + 1
    rw [turn_eq c ops hl, executeInstruction_pc c ops ht]
    rfl
  branch {l b} hlt h := by
    obtain ⟨ibc, hl, ht, rfl⟩ := start_eq_some c ops h
    change (turn c ops bytecode l).pc = l.pc + 1 ∨ (turn c ops bytecode l).pc = _
    rw [turn_branch c ops hl ht]
    dsimp only
    split
    · exact .inr rfl
    · exact .inl rfl
  all j l := by
    intro ibc hj ht
    exact falls_through (hb hj ht).imm _
  keep {l j b k} h hle hlt hleft := by
    intro ibc hj _
    obtain ⟨ibc', hj', ht, rfl⟩ := start_eq_some c ops h
    cases hj.symm.trans hj'
    have hjlt := (List.getElem?_eq_some_iff.mp hj').1
    have hlt : l.pc < j := hlt
    have hle : (ibc.target + 1).toNat ≤ l.pc := hle
    have hback := (hb hj' ht).back
    have hl : bytecode[l.pc]? = some bytecode[l.pc] := List.getElem?_eq_getElem (by omega)
    have hkept := (hb hj' ht).kept hl (by omega) hlt
    change FallsThrough ibc k ((turn c ops bytecode l).s.r ibc.idst)
    rw [turn_eq c ops hl]
    dsimp only
    rw [executeInstruction_r c ops hkept.2]
    exact hleft ibc hj ht
  spend {l b k} hlt h hne hleft := by
    obtain ⟨ibc, hl, ht, rfl⟩ := start_eq_some c ops h
    have hleft := hleft ibc hl ht
    change (turn c ops bytecode l).pc ≠ l.pc + 1 at hne
    rw [turn_branch c ops hl ht] at hne
    have hzero : (l.s.r ibc.idst + ibc.imm) &&& ibc.memMask.setWidth 64 = 0 := by
      by_contra h
      exact hne (if_neg h)
    cases k with
    | zero => exact absurd hzero hleft
    | succ k =>
      refine ⟨k, rfl, fun ibc' hl' _ => ?_⟩
      cases hl'.symm.trans hl
      change FallsThrough ibc k ((turn c ops bytecode l).s.r ibc.idst)
      rw [turn_branch c ops hl ht]
      simpa using hleft.resolve_left (not_not_intro hzero)

/-- As many turns as the run takes bring it to the end, more do too. -/
theorem executeBytecode_eq {bytecode : List InstructionByteCode} {m fuel : Nat} (hm : m ≤ fuel)
    {l t : Loop V} (hpart : (loops c ops bytecode).Part 0 bytecode.length m l t)
    (ht : t.pc = bytecode.length) : executeBytecode c ops bytecode fuel l = some t.s := by
  obtain ⟨hrun, hinside⟩ := hpart
  induction m generalizing l fuel with
  | zero =>
    cases hrun
    cases fuel <;> exact if_neg (by rw [Function.iterate_zero, id] at ht; omega)
  | succ m ih =>
    obtain ⟨fuel, rfl⟩ : ∃ n, fuel = n + 1 := ⟨fuel - 1, by omega⟩
    have hlt : l.pc < bytecode.length := (hinside l List.mem_cons_self).2
    rw [executeBytecode, if_pos hlt]
    exact ih (by omega) hrun fun u hu => hinside u (List.mem_cons_of_mem _ hu)

/-- The branch at `j` is executed in this turn, and taken. -/
def Taken (bytecode : List InstructionByteCode) (j : Nat) (l : Loop V) : Prop :=
  l.pc = j ∧ (turn c ops bytecode l).pc ≠ j + 1

instance (bytecode : List InstructionByteCode) (j : Nat) :
    DecidablePred (Taken c ops bytecode j) := fun _ => instDecidableAnd

/-- What is asked of a run: it ends within three times the size of the program, and no
branch is taken more than twice. -/
structure Terminates (bytecode : List InstructionByteCode) (s : Native V) : Prop where
  run : ∃ m ≤ 3 * bytecode.length, ∃ t, (turn c ops bytecode)^[m] ⟨0, s⟩ = ⟨bytecode.length, t⟩ ∧
    executeBytecode c ops bytecode (3 * bytecode.length) ⟨0, s⟩ = some t ∧
    ∀ j, (trace (turn c ops bytecode) m ⟨0, s⟩).countP (Taken c ops bytecode j) ≤ 2

/-- What is asked of the branches of a program: no instruction between the target and
the branch changes its register, no two regions overlap, and on no value is a branch
taken three times in a row. -/
structure Regions (bytecode : List InstructionByteCode) : Prop where
  back : ∀ {j : Nat} {ibc : InstructionByteCode}, bytecode[j]? = some ibc →
    ibc.type = .CBRANCH → -1 ≤ ibc.target ∧ ibc.target < j
  kept : ∀ {j k : Nat} {ibc ibc' : InstructionByteCode}, bytecode[j]? = some ibc → ibc.type = .CBRANCH →
    bytecode[k]? = some ibc' → ibc.target < k → k < j → ∀ {V : Type} (c : Configuration)
      (ops : FloatOps V) (pc : Int) (s : Native V),
      (executeInstruction c ops ibc' pc s).2.r ibc.idst = s.r ibc.idst
  disjoint : ∀ {i j : Nat} {ibc ibc' : InstructionByteCode}, bytecode[i]? = some ibc → ibc.type = .CBRANCH →
    bytecode[j]? = some ibc' → ibc'.type = .CBRANCH → i < j → i ≤ ibc'.target
  twice : ∀ {j : Nat} {ibc : InstructionByteCode}, bytecode[j]? = some ibc →
    ibc.type = .CBRANCH → ∀ v, FallsThrough ibc 2 v

theorem regions_of_branches {bytecode : List InstructionByteCode} (hb : Branches bytecode) :
    Regions bytecode where
  back hj ht := (hb hj ht).back
  kept hj ht hk hlt hlt' _ c ops pc s :=
    executeInstruction_r c ops ((hb hj ht).kept hk hlt hlt').2 pc s
  disjoint hi hti hj htj hlt := by
    by_contra hle
    exact ((hb hj htj).kept hi (by omega) hlt).1 hti
  twice hj ht v := falls_through (hb hj ht).imm v

theorem terminates_of_branches {bytecode : List InstructionByteCode} (hb : Branches bytecode)
    (s : Native V) : Terminates c ops bytecode s := by
  obtain ⟨m, t, hm, hpart, ht, hcount⟩ :=
    Loops.reaches (bounded c ops hb) (s := ⟨0, s⟩) rfl
  have ht : t.pc = bytecode.length := ht
  have hrun := executeBytecode_eq c ops hm hpart ht
  obtain ⟨pc, t⟩ := t
  cases ht
  exact ⟨m, hm, t, hpart.run, hrun, hcount⟩

/-- **Every program ends**: it compiles, its branches are taken no more than twice, and
it executes no more instructions than three times its size. -/
theorem cbranch_terminates {c : Configuration} (hc : c.Complete) (program : Program) :
    ∃ bytecode, compileProgram c program.instructions = some bytecode ∧
      bytecode.length = program.instructions.length ∧ Regions bytecode ∧
      ∀ {V : Type} (ops : FloatOps V) (s : Native V), Terminates c ops bytecode s := by
  obtain ⟨bytecode, hcompile, hlen, hb⟩ := branches_compiled hc program
  exact ⟨bytecode, hcompile, hlen, regions_of_branches hb,
    fun ops s => terminates_of_branches c ops hb s⟩

/-- `CBRANCH r0`, in the base variant. -/
def branch : Instruction := ⟨214, 0, 0, 0, 0⟩

theorem cbranch_terminates_branch :
    ∃ bytecode, compileProgram .base [branch] = some bytecode ∧ bytecode.length = 1 ∧
      Regions bytecode ∧
      ∀ {V : Type} (ops : FloatOps V) (s : Native V), Terminates .base ops bytecode s :=
  cbranch_terminates (c := .base) (by decide) ⟨[branch], by decide⟩

end L2.Cbranch

end Rxs
