import Rxs.Core.HalfProducts
import Rxs.L2Machine.JitInteger
import Rxs.L2Machine.SuperscalarAssembly

/-!
# What a superscalar instruction computes

The assembly of an instruction does to its registers what `executeInstr` does: on lane 0
(`Scalar.exec`), and on every lane of the vectors (`Lane.exec`), where words of 64 bits
are multiplied by products of their halves.
-/
namespace Rxs

open Rxs.Core Rxs.RandomX Rxs.RandomX.BytecodeMachine Rxs.RandomX.JitCompilerX86
open Rxs.RandomX.Superscalar Rxs.L2.JitControl Rxs.Core.Avx2 Rxs.L2.SuperscalarAssembly
open SuperscalarInstructionType
open Rxs.L2.JitInteger (Temporary)
open Rxs.Core.HalfProducts (lows sign carry overflow)

namespace L2.SuperscalarLanes

theorem lane_injective : Function.Injective lane := fun _ _ h => Fin.ext (Fin.mk.inj h)

@[simp] theorem lane_eq_iff {a b : Reg} : lane a = lane b ↔ a = b := lane_injective.eq_iff

/-- The registers from 8 on are not those of lanes. -/
@[simp] theorem lane_ne {t : X86.Reg} (h : 8 ≤ t.val) (r : Reg) : lane r ≠ t := fun heq => by
  have := congrArg Fin.val heq
  have : (lane r).val = r.val := rfl
  omega

@[simp] theorem ne_lane {t : X86.Reg} (h : 8 ≤ t.val) (r : Reg) : t ≠ lane r := (lane_ne h r).symm

section

variable {R : X86.Reg → BitVec 64} (d s : Reg)

/-- **The middle of a high product**: its sum is in 11, the carry in 8. -/
theorem exec_middle (hsign : R 14 = sign) (hcarry : R 15 = carry) {high : X86.Reg}
    (hhigh : high = 13 ∨ high = lane d) :
    let R' := (middle (lane d) (lane s) high).foldl LaneInstr.exec R
    R' high = lows (R (lane d) >>> 32) (R (lane s) >>> 32) ∧
      R' 8 = overflow (R (lane d)) (R (lane s)) ∧
      R' 11 = HalfProducts.middle (R (lane d)) (R (lane s)) := by
  rcases hhigh with rfl | rfl
  · simp only [middle, List.foldl, LaneInstr.exec]
    simp [shiftBy, hsign, hcarry]
    exact ⟨rfl, rfl, rfl⟩
  · simp only [middle, List.foldl, LaneInstr.exec]
    simp [shiftBy, hsign, hcarry]
    exact ⟨rfl, rfl, rfl⟩

/-- The instructions of a product. -/
def productCode (d s : X86.Reg) : List LaneInstr :=
  [.shift false 8 d 32, .shift false 9 s 32, .op .vpmuludq 10 d s, .op .vpmuludq 11 9 d,
    .op .vpmuludq d 8 s, .shift true 11 11 32, .shift true d d 32, .op .vpaddq 10 10 11,
    .op .vpaddq d 10 d]

theorem exec_product {s : X86.Reg} (hs : s = 12 ∨ ∃ r, s = lane r) :
    (productCode (lane d) s).foldl LaneInstr.exec R (lane d) = R (lane d) * R s := by
  rw [← HalfProducts.mul_eq]
  rcases hs with rfl | ⟨r, rfl⟩
  · simp [productCode, LaneInstr.exec, LaneOp.apply, shiftBy, lows]
  · simp [productCode, LaneInstr.exec, LaneOp.apply, shiftBy, lows]

end

variable {type : SuperscalarInstructionType} {instr : Instruction} {R : X86.Reg → BitVec 64}

theorem reciprocal_eq (h : Safe IMUL_RCP instr) :
    randomx_reciprocal_fast (instr.imm32.setWidth 64) =
      randomx_reciprocal (instr.imm32.setWidth 64) := by
  have hpos := Nat.pos_of_ne_zero (h.reciprocal rfl).1
  refine JitInteger.randomx_reciprocal_fast_eq ?_ ?_ <;> simp <;> omega

/-- **What a lane computes.** -/
theorem lanes_value (h : Safe type instr) (hsign : R 14 = sign) (hcarry : R 15 = carry) :
    (lanes type instr).foldl LaneInstr.exec R (lane (reg instr.dst)) =
      result type instr (R (lane (reg instr.dst))) (R (lane (reg instr.src))) := by
  cases type with
  | ISUB_R | IXOR_R => simp [lanes, result, LaneInstr.exec, LaneOp.apply]
  | IADD_RS =>
    by_cases ht : instr.getModShift = 0
    · simp [lanes, result, LaneInstr.exec, LaneOp.apply, ht]
    · simp [lanes, result, LaneInstr.exec, LaneOp.apply, ht, shiftBy, BitVec.add_comm]
  | IMUL_R => exact exec_product _ (.inr ⟨_, rfl⟩)
  | IROR_C =>
    have := h.rotation rfl
    have hmod : instr.imm32.toNat % 64 = instr.imm32.toNat := Nat.mod_eq_of_lt (by omega)
    simp [lanes, result, LaneInstr.exec, LaneOp.apply, shiftBy, rotr64, hmod,
      BitVec.rotateRight, BitVec.rotateRightAux]
  | IADD_C7 | IADD_C8 | IADD_C9 | IXOR_C7 | IXOR_C8 | IXOR_C9 =>
    simp [lanes, result, LaneInstr.exec, LaneOp.apply]
  | IMULH_R =>
    obtain ⟨hhigh, hover, hsum⟩ :=
      exec_middle (reg instr.dst) (reg instr.src) hsign hcarry (.inr rfl)
    have hmulh : result IMULH_R instr (R (lane (reg instr.dst))) (R (lane (reg instr.src))) =
      X86.high (X86.product false (R (lane (reg instr.dst))) (R (lane (reg instr.src)))) := rfl
    rw [hmulh, ← HalfProducts.high_eq]
    simp [lanes, LaneInstr.exec, LaneOp.apply, shiftBy, hhigh, hover, hsum, List.foldl_append]
    ac_rfl
  | ISMULH_R =>
    obtain ⟨hhigh, hover, hsum⟩ :=
      exec_middle (reg instr.dst) (reg instr.src) hsign hcarry (.inl rfl)
    have hkeep (r : Reg) : (middle (lane (reg instr.dst)) (lane (reg instr.src)) 13).foldl
        LaneInstr.exec R (lane r) = R (lane r) :=
      LaneInstr.foldl_exec_of_ne _ (by simp [middle, LaneInstr.dst]) R
    have hsmulh : result ISMULH_R instr (R (lane (reg instr.dst))) (R (lane (reg instr.src))) =
      X86.high (X86.product true (R (lane (reg instr.dst))) (R (lane (reg instr.src)))) := rfl
    rw [hsmulh, ← HalfProducts.high_signed, ← HalfProducts.high_eq]
    simp only [lanes, List.foldl_append]
    simp [LaneInstr.exec, shiftBy, hhigh, hover, hsum, hkeep]
    simp [LaneOp.apply]
  | IMUL_RCP =>
    have hlanes : lanes IMUL_RCP instr =
      .broadcast 12 (randomx_reciprocal_fast (instr.imm32.setWidth 64)) ::
        productCode (lane (reg instr.dst)) 12 := rfl
    rw [hlanes, List.foldl_cons, exec_product _ (.inl rfl), reciprocal_eq h]
    simp [LaneInstr.exec, result]
  | INVALID => exact absurd rfl h.valid

/-- Only the destination changes, and registers for intermediate values. -/
theorem lanes_dst {i : LaneInstr} (hi : i ∈ lanes type instr) :
    i.dst = lane (reg instr.dst) ∨ (8 ≤ i.dst.val ∧ i.dst.val ≤ 13) := by
  have hall : (lanes type instr).all fun i =>
      i.dst = lane (reg instr.dst) ∨ (8 ≤ i.dst.val ∧ i.dst.val ≤ 13) := by
    cases type with
    | IADD_RS =>
      by_cases ht : instr.getModShift = 0 <;> simp [lanes, ht, LaneInstr.dst]
    | _ => simp [lanes, middle, LaneInstr.dst]
  simpa using List.all_eq_true.mp hall i hi

/-- One lane, and the words that it computes with. -/
structure Lane (R : X86.Reg → BitVec 64) (r : Words) : Prop where
  words : ∀ q, R (lane q) = r q
  sign : R 14 = HalfProducts.sign
  carry : R 15 = HalfProducts.carry

/-- **One instruction on a lane.** -/
theorem Lane.exec {r : Words} (hl : Lane R r) (h : Safe type instr) :
    Lane ((lanes type instr).foldl LaneInstr.exec R) (Function.update r (reg instr.dst)
      (result type instr (r (reg instr.dst)) (r (reg instr.src)))) where
  words q := by
    by_cases hq : q = reg instr.dst
    · subst hq
      rw [Function.update_self, lanes_value h hl.sign hl.carry, hl.words, hl.words]
    · have hne (i : LaneInstr) (hi : i ∈ lanes type instr) : lane q ≠ i.dst := by
        rcases lanes_dst hi with heq | ⟨hle, -⟩
        · simpa [heq] using hq
        · exact lane_ne hle q
      rw [Function.update_of_ne hq, LaneInstr.foldl_exec_of_ne _ hne, hl.words]
  sign := by
    rw [LaneInstr.foldl_exec_of_ne _ fun i hi => ?_, hl.sign]
    rcases lanes_dst hi with heq | ⟨-, hle⟩
    · simp [heq]
    · exact fun h => by simp [← h] at hle
  carry := by
    rw [LaneInstr.foldl_exec_of_ne _ fun i hi => ?_, hl.carry]
    rcases lanes_dst hi with heq | ⟨-, hle⟩
    · simp [heq]
    · exact fun h => by simp [← h] at hle

/-! ## Lane 0 -/

/-- The processor, started with `m₀`, has computed these words; all else is as it was, but
for what is temporary. -/
structure Scalar (m₀ : X86.State) (r : Words) (m : X86.State) : Prop where
  words : ∀ q, m.regs (native q) = r q
  others : ∀ g, ¬ Temporary g → (∀ q, g ≠ native q) → m.regs g = m₀.regs g
  mem : m.mem = m₀.mem

namespace Scalar

variable {m₀ m : X86.State} {r : Words}

theorem setReg_self (m : X86.State) (g : X86.Reg) (v : BitVec 64) : (m.setReg g v).regs g = v := by
  simp

theorem flag (h : Scalar m₀ r m) (z : Option Bool) : Scalar m₀ r (m.setFlag z) :=
  ⟨h.words, h.others, h.mem⟩

theorem temp (h : Scalar m₀ r m) {t : X86.Reg} (ht : Temporary t) (v : BitVec 64) :
    Scalar m₀ r (m.setReg t v) := by
  refine ⟨fun q => ?_, fun g hg hn => ?_, h.mem⟩
  · rw [X86.State.setReg_regs, Function.update_of_ne (ht.ne_native q), h.words]
  · have hne : g ≠ t := fun heq => hg (heq ▸ ht)
    rw [X86.State.setReg_regs, Function.update_of_ne hne, h.others g hg hn]

theorem set (h : Scalar m₀ r m) (d : Reg) {v w : BitVec 64} (hv : v = w) :
    Scalar m₀ (Function.update r d w) (m.setReg (native d) v) := by
  subst hv
  refine ⟨fun q => ?_, fun g hg hn => ?_, h.mem⟩
  · simp only [X86.State.setReg_regs, Function.update_apply, native_injective.eq_iff, h.words]
  · rw [X86.State.setReg_regs, Function.update_of_ne (hn d), h.others g hg hn]

/-- The high half of a product, by way of `rax` and `rdx`. -/
theorem product (h : Scalar m₀ r m) (signed : Bool) {d s : Reg} :
    ∃ m', X86.execAll [.mov true X86.rax (.reg (native d)), .mul signed (.reg (native s)),
        .mov true (native d) (.reg X86.rdx)] m = some m' ∧
      Scalar m₀ (Function.update r d (X86.high (X86.product signed (r d) (r s)))) m' := by
  have hd : X86.trunc true (m.read (.reg (native d))) = r d := h.words d
  have hs := (h.temp (.inl rfl) (X86.trunc true (m.read (.reg (native d))))).words s
  have hrdx : Temporary X86.rdx := .inr (.inr rfl)
  refine ⟨_, rfl, ((((h.temp (.inl rfl) _).temp (.inl rfl) _).temp hrdx _).flag none).set _ ?_⟩
  rw [JitInteger.read_self]
  exact congrArg₂ (fun v w => X86.high (X86.product signed v w))
    ((setReg_self ..).trans hd) hs

/-- **One instruction on lane 0.** -/
theorem exec (hm : Scalar m₀ r m) (h : Safe type instr) (AVX2 : Bool) :
    ∃ m', X86.execAll (ints AVX2 type instr) m = some m' ∧
      Scalar m₀ (Function.update r (reg instr.dst)
        (result type instr (r (reg instr.dst)) (r (reg instr.src)))) m' := by
  have hd := hm.words (reg instr.dst)
  have hs := hm.words (reg instr.src)
  cases type with
  | ISUB_R => exact ⟨_, rfl, (hm.set _ (congrArg₂ (· - ·) hd hs)).flag _⟩
  | IXOR_R => exact ⟨_, rfl, (hm.set _ (congrArg₂ (· ^^^ ·) hd hs)).flag _⟩
  | IADD_RS =>
    refine ⟨_, rfl, hm.set _ ?_⟩
    simp [X86.trunc, X86.State.addr, hd, hs, result]
  | IMUL_R => exact ⟨_, rfl, (hm.set _ (congrArg₂ (· * ·) hd hs)).flag _⟩
  | IROR_C =>
    refine ⟨_, rfl, hm.set _ ?_⟩
    have := h.rotation rfl
    simp [hd, result, rotr64]
  | IADD_C7 | IADD_C8 | IADD_C9 =>
    cases AVX2 with
    | false =>
      exact ⟨_, rfl, (hm.set _ (congrArg (· + signExtend2sCompl instr.imm32) hd)).flag _⟩
    | true =>
      have hrax := hm.temp (.inl rfl) (signExtend2sCompl instr.imm32)
      refine ⟨_, rfl, (hrax.set _ ?_).flag _⟩
      exact congrArg₂ (· + ·) (hrax.words _) (setReg_self ..)
  | IXOR_C7 | IXOR_C8 | IXOR_C9 =>
    cases AVX2 with
    | false =>
      exact ⟨_, rfl, (hm.set _ (congrArg (· ^^^ signExtend2sCompl instr.imm32) hd)).flag _⟩
    | true =>
      have hrax := hm.temp (.inl rfl) (signExtend2sCompl instr.imm32)
      refine ⟨_, rfl, (hrax.set _ ?_).flag _⟩
      exact congrArg₂ (· ^^^ ·) (hrax.words _) (setReg_self ..)
  | IMULH_R => exact hm.product false
  | ISMULH_R => exact hm.product true
  | IMUL_RCP =>
    have hrax := hm.temp (.inl rfl) (randomx_reciprocal_fast (instr.imm32.setWidth 64))
    refine ⟨_, rfl, (hrax.set _ ?_).flag _⟩
    refine congrArg₂ (· * ·) (hrax.words _) ?_
    exact (setReg_self ..).trans (reciprocal_eq h)
  | INVALID => exact absurd rfl h.valid

end Scalar

end L2.SuperscalarLanes
end Rxs

