import Mathlib.Tactic.Ring
import Rxs.Core.Avx2

/-!
# Products of words from products of their halves

A vector has products of 32 bits only. The product of two words is made of three of them,
its high half of four; the carry out of the middle sum is found by a signed comparison
with the sign bits flipped.

* `mul_eq`: the low half.
* `high_eq`: the high half; `high_signed`: of signed words.
-/
namespace Rxs.Core.HalfProducts

open Avx2 (LaneOp)

/-- The product of the low halves. -/
def lows (a b : BitVec 64) : BitVec 64 := LaneOp.apply .vpmuludq a b

theorem lows_toNat (a b : BitVec 64) :
    (lows a b).toNat = a.toNat % 2 ^ 32 * (b.toNat % 2 ^ 32) := by
  have hlo (x : BitVec 64) : ((x.setWidth 32).setWidth 64 : BitVec 64).toNat = x.toNat % 2 ^ 32 := by
    simp only [BitVec.toNat_setWidth]
    omega
  have hlt : a.toNat % 2 ^ 32 * (b.toNat % 2 ^ 32) < 2 ^ 32 * 2 ^ 32 :=
    Nat.mul_lt_mul'' (Nat.mod_lt _ (by decide)) (Nat.mod_lt _ (by decide))
  simp only [lows, LaneOp.apply]
  rw [BitVec.toNat_mul, hlo, hlo, Nat.mod_eq_of_lt (by omega)]

theorem upper_toNat (a : BitVec 64) : (a >>> 32).toNat % 2 ^ 32 = a.toNat / 2 ^ 32 := by
  have := a.isLt
  rw [BitVec.toNat_ushiftRight, Nat.shiftRight_eq_div_pow]
  omega

/-- A product, by halves. -/
theorem mul_split (m n : Nat) : m * n = m % 2 ^ 32 * (n % 2 ^ 32) +
    (m / 2 ^ 32 * (n % 2 ^ 32) + m % 2 ^ 32 * (n / 2 ^ 32)) * 2 ^ 32 +
      2 ^ 64 * (m / 2 ^ 32 * (n / 2 ^ 32)) := by
  conv_lhs => rw [← Nat.div_add_mod m (2 ^ 32), ← Nat.div_add_mod n (2 ^ 32)]
  ring

/-- **The low half** of a product. -/
theorem mul_eq (a b : BitVec 64) :
    lows a b + lows (b >>> 32) a <<< 32 + lows (a >>> 32) b <<< 32 = a * b := by
  apply BitVec.eq_of_toNat_eq
  simp only [BitVec.toNat_add, BitVec.toNat_mul, BitVec.toNat_shiftLeft, lows_toNat, upper_toNat,
    Nat.shiftLeft_eq]
  rw [mul_split a.toNat b.toNat, Nat.mul_comm (b.toNat / 2 ^ 32)]
  omega

/-! ## The high half -/

def sign : BitVec 64 := 1 <<< 63

def carry : BitVec 64 := 1 <<< 32

theorem xor_sign_toInt (v : BitVec 64) : (v ^^^ sign).toInt = (v.toNat : Int) - 2 ^ 63 := by
  have hmod : (v.toNat ^^^ 2 ^ 63) % 2 ^ 63 = v.toNat % 2 ^ 63 := by
    rw [Nat.xor_mod_two_pow, Nat.mod_self, Nat.xor_zero]
  have hdiv : (v.toNat ^^^ 2 ^ 63) / 2 ^ 63 = v.toNat / 2 ^ 63 ^^^ 1 := by
    rw [Nat.xor_div_two_pow, Nat.div_self (by decide)]
  have hnat : (v ^^^ sign).toNat = v.toNat ^^^ 2 ^ 63 := BitVec.toNat_xor ..
  have hlt := v.isLt
  have hbit : v.toNat / 2 ^ 63 = 0 ∨ v.toNat / 2 ^ 63 = 1 := by omega
  rw [BitVec.toInt_eq_toNat_cond, hnat]
  rcases hbit with h | h <;> rw [h] at hdiv <;>
    simp only [Nat.zero_xor, Nat.xor_self] at hdiv <;> split <;> omega

/-- With the sign bits flipped a signed comparison is one of unsigned words. -/
theorem slt_flip (x y : BitVec 64) : (x ^^^ sign).slt (y ^^^ sign) = x.ult y := by
  rw [Bool.eq_iff_iff, BitVec.slt_iff_toInt_lt, BitVec.ult_iff_lt, xor_sign_toInt,
    xor_sign_toInt, BitVec.lt_def]
  omega

/-- What the products of unlike halves add up to, with what the low product carries. -/
def middle (a b : BitVec 64) : BitVec 64 := lows (a >>> 32) b + lows a (b >>> 32) + lows a b >>> 32

theorem middle_toNat (a b : BitVec 64) : (middle a b).toNat =
    (a.toNat / 2 ^ 32 * (b.toNat % 2 ^ 32) + a.toNat % 2 ^ 32 * (b.toNat / 2 ^ 32) +
      a.toNat % 2 ^ 32 * (b.toNat % 2 ^ 32) / 2 ^ 32) % 2 ^ 64 := by
  rw [middle, BitVec.toNat_add, BitVec.toNat_add, BitVec.toNat_ushiftRight,
    Nat.shiftRight_eq_div_pow, lows_toNat, lows_toNat, lows_toNat, upper_toNat, upper_toNat,
    Nat.mod_add_mod]

/-- The middle sum is too large for a word if it is less than its first term. -/
def overflow (a b : BitVec 64) : BitVec 64 :=
  LaneOp.apply .vpcmpgtq (lows (a >>> 32) b ^^^ sign) (middle a b ^^^ sign) &&& carry

theorem overflow_toNat (a b : BitVec 64) : (overflow a b).toNat =
    if (middle a b).toNat < (lows (a >>> 32) b).toNat then 2 ^ 32 else 0 := by
  simp only [overflow, LaneOp.apply, slt_flip, BitVec.ult_iff_lt, BitVec.lt_def]
  split
  · rw [BitVec.allOnes_and]
    rfl
  · rfl

/-- **The high half** of a product. -/
theorem high_eq (a b : BitVec 64) :
    lows (a >>> 32) (b >>> 32) + overflow a b + middle a b >>> 32 =
      X86.high (X86.product false a b) := by
  have hle (m n : Nat) : m % 2 ^ 32 * (n % 2 ^ 32) ≤ (2 ^ 32 - 1) * (2 ^ 32 - 1) :=
    Nat.mul_le_mul (by omega) (by omega)
  have hx := hle a.toNat b.toNat
  have hy := hle (a.toNat / 2 ^ 32) b.toNat
  have hz := hle a.toNat (b.toNat / 2 ^ 32)
  have ha := a.isLt
  have hb := b.isLt
  rw [Nat.mod_eq_of_lt (show a.toNat / 2 ^ 32 < 2 ^ 32 by omega)] at hy
  rw [Nat.mod_eq_of_lt (show b.toNat / 2 ^ 32 < 2 ^ 32 by omega)] at hz
  have hprod : (X86.product false a b).toNat = a.toNat * b.toNat := by
    have hlt : a.toNat * b.toNat < 2 ^ 64 * 2 ^ 64 := Nat.mul_lt_mul'' ha hb
    simp only [X86.product, Bool.false_eq_true, if_false, BitVec.toNat_mul,
      BitVec.truncate_eq_setWidth, BitVec.toNat_setWidth]
    rw [Nat.mod_eq_of_lt (by omega : a.toNat < 2 ^ 128),
      Nat.mod_eq_of_lt (by omega : b.toNat < 2 ^ 128), Nat.mod_eq_of_lt (by omega)]
  apply BitVec.eq_of_toNat_eq
  rw [X86.high, BitVec.toNat_setWidth, BitVec.toNat_ushiftRight, hprod, mul_split a.toNat b.toNat]
  rw [BitVec.toNat_add, BitVec.toNat_add, BitVec.toNat_ushiftRight, Nat.shiftRight_eq_div_pow,
    overflow_toNat, middle_toNat, lows_toNat, lows_toNat, upper_toNat, upper_toNat]
  generalize a.toNat % 2 ^ 32 * (b.toNat % 2 ^ 32) = x at *
  generalize a.toNat / 2 ^ 32 * (b.toNat % 2 ^ 32) = y at *
  generalize a.toNat % 2 ^ 32 * (b.toNat / 2 ^ 32) = z at *
  generalize a.toNat / 2 ^ 32 * (b.toNat / 2 ^ 32) = w at *
  split <;> omega

/-- **The high half of a signed product**: a negative word counts the other one too much. -/
theorem high_signed (a b : BitVec 64) :
    X86.high (X86.product false a b) - (LaneOp.apply .vpcmpgtq 0 a &&& b) -
      (LaneOp.apply .vpcmpgtq 0 b &&& a) = X86.high (X86.product true a b) := by
  have hcmp (v w : BitVec 64) : (LaneOp.apply .vpcmpgtq 0 v &&& w).toNat =
      if v.msb then w.toNat else 0 := by
    have hneg : v.slt (0 : BitVec 64) = v.msb := BitVec.slt_zero_eq_msb ..
    simp only [LaneOp.apply, hneg]
    cases v.msb
    · exact congrArg BitVec.toNat (BitVec.zero_and (x := w))
    · exact congrArg BitVec.toNat (BitVec.allOnes_and (x := w))
  have ha := a.isLt
  have hb := b.isLt
  have hlt : a.toNat * b.toNat < 2 ^ 64 * 2 ^ 64 := Nat.mul_lt_mul'' ha hb
  apply BitVec.eq_of_toNat_eq
  simp only [X86.high, X86.product, Bool.false_eq_true, if_false, if_true, BitVec.toNat_sub, hcmp,
    BitVec.toNat_setWidth, BitVec.toNat_ushiftRight, BitVec.toNat_mul, BitVec.toNat_signExtend,
    BitVec.truncate_eq_setWidth, Nat.shiftRight_eq_div_pow]
  have hmod (v : BitVec 64) : v.toNat % 2 ^ 128 = v.toNat := Nat.mod_eq_of_lt (by have := v.isLt; omega)
  simp only [hmod]
  cases a.msb <;> cases b.msb
  all_goals
    simp only [Bool.false_eq_true, if_false, if_true, Nat.add_zero, Nat.sub_zero]
  · omega
  · rw [Nat.mul_add]
    omega
  · rw [Nat.add_mul]
    omega
  · rw [Nat.add_mul, Nat.mul_add, Nat.mul_add]
    omega
end Rxs.Core.HalfProducts
