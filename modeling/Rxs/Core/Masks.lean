import Mathlib.Data.Nat.Bits
import Mathlib.Algebra.Order.Ring.Nat

/-!
# The bits of a word from a place on, and those below

* `and_high`: the bits from `j` on.
* `or_high`, `or_shift`: bits put below them, bits shifted above those that are there.
-/
namespace Rxs.Core.Masks

theorem pow_split {j w : Nat} (hj : j ≤ w) : 2 ^ w = 2 ^ j * 2 ^ (w - j) := by
  rw [← Nat.pow_add, Nat.add_sub_cancel' hj]

theorem div_lt {w j v : Nat} (hj : j ≤ w) (hv : v < 2 ^ w) : v / 2 ^ j < 2 ^ (w - j) := by
  rw [Nat.div_lt_iff_lt_mul (Nat.two_pow_pos j), Nat.mul_comm, ← pow_split hj]
  exact hv

/-- The bits of a word from `j` on. -/
theorem and_high {w j v : Nat} (hj : j ≤ w) (hv : v < 2 ^ w) :
    v &&& (2 ^ w - 2 ^ j) = v / 2 ^ j * 2 ^ j := by
  have he : 2 ^ w - 2 ^ j = (2 ^ (w - j) - 1) * 2 ^ j := by
    rw [Nat.sub_one_mul, Nat.mul_comm, ← pow_split hj]
  apply Nat.eq_of_testBit_eq
  intro i
  rw [he, Nat.testBit_and, Nat.testBit_mul_two_pow, Nat.testBit_mul_two_pow]
  by_cases hi : j ≤ i
  · have hbit : v.testBit i = (v / 2 ^ j).testBit (i - j) := by
      rw [Nat.testBit_div_two_pow, Nat.sub_add_cancel hi]
    have hmod := Nat.and_two_pow_sub_one_eq_mod (v / 2 ^ j) (w - j)
    rw [Nat.mod_eq_of_lt (div_lt hj hv)] at hmod
    rw [hbit, ← hmod, Nat.testBit_and]
    simp [hi]
  · simp [hi]

/-- The bits from `j` on stay, those below are of `c`. -/
theorem or_high {a c j : Nat} (hc : c < 2 ^ j) : a * 2 ^ j ||| c = a * 2 ^ j + c := by
  rw [Nat.mul_comm, ← Nat.two_pow_add_eq_or_of_lt hc]

/-- Words with other bits below `j`. -/
theorem high_add_lt {w j v c : Nat} (hj : j ≤ w) (hv : v < 2 ^ w) (hc : c < 2 ^ j) :
    v / 2 ^ j * 2 ^ j + c < 2 ^ w := by
  have hle := Nat.mul_le_mul_right (2 ^ j) (Nat.succ_le_of_lt (div_lt hj hv))
  rw [Nat.succ_mul, Nat.mul_comm (2 ^ (w - j)), ← pow_split hj] at hle
  omega

/-- Bits from `k` on are put above those that are there; what does not fit is lost. -/
theorem or_shift {w k r x : Nat} (hk : k ≤ w) (hr : r < 2 ^ k) :
    r ||| x <<< k % 2 ^ w = (r + 2 ^ k * x) % 2 ^ w := by
  have hpos := Nat.two_pow_pos (w - k)
  have hlt : 2 ^ k * (x % 2 ^ (w - k)) < 2 ^ w := by
    rw [pow_split hk]
    exact Nat.mul_lt_mul_of_pos_left (Nat.mod_lt _ hpos) (Nat.two_pow_pos k)
  have hfits := high_add_lt hk hlt hr
  rw [Nat.mul_div_cancel_left _ (Nat.two_pow_pos k)] at hfits
  have hshift : x <<< k % 2 ^ w = x % 2 ^ (w - k) * 2 ^ k := by
    rw [Nat.shiftLeft_eq, pow_split hk, Nat.mul_comm x, Nat.mul_mod_mul_left, Nat.mul_comm]
  rw [hshift, Nat.or_comm, or_high hr, ← Nat.mod_eq_of_lt hfits, ← hshift, Nat.mod_add_mod,
    Nat.shiftLeft_eq, Nat.mul_comm x, Nat.add_comm]

end Rxs.Core.Masks
