import Mathlib.Data.Int.Log
import Mathlib.Data.Rat.Floor
import Mathlib.Tactic.FieldSimp
import Mathlib.Tactic.Linarith
import Mathlib.Tactic.Positivity

/-!
# Rounded arithmetic

A result of an operation on binary64 numbers is the exact one, rounded to 53 bits, the
even one of two that are equally near. It is never above the exact one by more than a
part in `2 ^ 53`, so a quotient of small numbers that is rounded to an integer afterwards
is not above the exact one either.

Numbers are non-negative and of normal size.

* `fl_le`: the error.
* `round_scaled_le`: a percentage, rounded.
-/
namespace Rxs.Core.Binary64

/-- The nearest integer, the even one of two. -/
def roundEven (x : ℚ) : ℤ :=
  let r := x - ⌊x⌋
  if r < 1 / 2 then ⌊x⌋
  else if 1 / 2 < r then ⌊x⌋ + 1
  else if ⌊x⌋ % 2 = 0 then ⌊x⌋
  else ⌊x⌋ + 1

/-- The unit of the last of 53 bits. -/
def ulp (x : ℚ) : ℚ := 2 ^ (Int.log 2 x - 52)

/-- The nearest number of 53 bits. -/
def fl (x : ℚ) : ℚ := roundEven (x / ulp x) * ulp x

/-- The nearest integer, the upper one of two. -/
def round (x : ℚ) : ℤ := ⌊x + 1 / 2⌋

theorem roundEven_le (x : ℚ) : (roundEven x : ℚ) ≤ x + 1 / 2 := by
  have hle := Int.floor_le x
  unfold roundEven
  dsimp only
  split
  · linarith
  · rename_i hlt
    have hhalf := not_lt.mp hlt
    split
    · push_cast
      linarith
    · split
      · linarith
      · push_cast
        linarith

theorem le_roundEven (x : ℚ) : x - 1 / 2 ≤ roundEven x := by
  have hlt := Int.lt_floor_add_one x
  unfold roundEven
  dsimp only
  split
  · linarith
  · rename_i hge
    have hhalf := not_lt.mp hge
    split
    · push_cast
      linarith
    · rename_i hle
      have hhalf' := not_lt.mp hle
      split
      · linarith
      · push_cast
        linarith

theorem roundEven_nonneg {x : ℚ} (hx : 0 ≤ x) : 0 ≤ roundEven x := by
  have hfloor : 0 ≤ ⌊x⌋ := Int.floor_nonneg.mpr hx
  unfold roundEven
  dsimp only
  split_ifs <;> omega

theorem ulp_pos (x : ℚ) : 0 < ulp x := by
  unfold ulp
  exact zpow_pos (by norm_num) _

theorem ulp_le {x : ℚ} (hx : 0 < x) : ulp x ≤ x / 2 ^ 52 := by
  have hlog : ((2 : ℕ) : ℚ) ^ Int.log 2 x ≤ x := Int.zpow_log_le_self (by decide) hx
  unfold ulp
  rw [zpow_sub₀ (by norm_num)]
  have h52 : (2 : ℚ) ^ (52 : ℤ) = 2 ^ 52 := by norm_cast
  rw [h52]
  gcongr
  exact_mod_cast hlog

theorem fl_le {x : ℚ} (hx : 0 < x) : fl x ≤ x + x / 2 ^ 53 := by
  have hu := ulp_pos x
  have hle := ulp_le hx
  have hr := roundEven_le (x / ulp x)
  calc fl x ≤ (x / ulp x + 1 / 2) * ulp x := mul_le_mul_of_nonneg_right hr hu.le
    _ = x + ulp x / 2 := by
        field_simp
    _ ≤ x + x / 2 ^ 53 := by linarith

theorem le_fl {x : ℚ} (hx : 0 < x) : x - x / 2 ^ 53 ≤ fl x := by
  have hu := ulp_pos x
  have hle := ulp_le hx
  have hr := le_roundEven (x / ulp x)
  calc x - x / 2 ^ 53 ≤ x - ulp x / 2 := by linarith
    _ = (x / ulp x - 1 / 2) * ulp x := by
        field_simp
    _ ≤ fl x := mul_le_mul_of_nonneg_right hr hu.le

/-- A rounded number has the size of the exact one. -/
theorem fl_bounds {x : ℚ} (hx : 0 < x) : x / 2 ≤ fl x ∧ fl x ≤ 2 * x := by
  have hlow := le_fl hx
  have hup := fl_le hx
  constructor <;> linarith

theorem fl_zero : fl 0 = 0 := by
  simp [fl, roundEven]

theorem fl_le_of_nonneg {x : ℚ} (hx : 0 ≤ x) : fl x ≤ x + x / 2 ^ 53 := by
  rcases hx.eq_or_lt with rfl | hx
  · simp [fl_zero]
  · exact fl_le hx

theorem fl_nonneg {x : ℚ} (hx : 0 ≤ x) : 0 ≤ fl x := by
  have hu := (ulp_pos x).le
  have hr : (0 : ℚ) ≤ roundEven (x / ulp x) := by
    exact_mod_cast roundEven_nonneg (div_nonneg hx hu)
  exact mul_nonneg hr hu

/-- An error that small does not reach the next integer. -/
theorem floor_add_lt {a b : ℕ} {δ : ℚ} (hb : 0 < b) (hδ : δ < 1 / b) :
    ⌊(a / b : ℚ) + δ⌋ ≤ (a / b : ℕ) := by
  have hb' : (0 : ℚ) < b := by exact_mod_cast hb
  have hnext : a + 1 ≤ (a / b + 1) * b := by
    have hmod := Nat.mod_lt a hb
    have hdiv := Nat.div_add_mod a b
    rw [Nat.add_mul, Nat.mul_comm (a / b)]
    omega
  have hnext' : (a : ℚ) + 1 ≤ ((a / b : ℕ) + 1 : ℚ) * b := by exact_mod_cast hnext
  have hle : (a / b : ℚ) + 1 / b ≤ (a / b : ℕ) + 1 := by
    rw [← add_div, div_le_iff₀ hb']
    exact hnext'
  have hlt : (a / b : ℚ) + δ < (a / b : ℕ) + 1 := by linarith
  have := Int.floor_lt.mpr (show (a / b : ℚ) + δ < (((a / b : ℕ) : ℤ) + 1 : ℤ) by
    push_cast
    exact_mod_cast hlt)
  omega

/-- `round (n * (p / d))` is not above the quotient of the naturals, rounded. -/
theorem round_scaled_le {n p d : ℕ} (hd : 0 < d) (hsmall : n * p ≤ 2 ^ 50) :
    round (fl (n * fl (p / d))) ≤ ((2 * (n * p) + d) / (2 * d) : ℕ) := by
  have hd' : (0 : ℚ) < d := by exact_mod_cast hd
  have hn : (0 : ℚ) ≤ n := Nat.cast_nonneg n
  have hp : (0 : ℚ) ≤ p / d := by positivity
  have hsmall' : (n : ℚ) * p ≤ 2 ^ 50 := by exact_mod_cast hsmall
  have h₁ : (n : ℚ) * fl (p / d) ≤ n * p / d * (1 + 1 / 2 ^ 53) := by
    calc (n : ℚ) * fl (p / d) ≤ n * (p / d + p / d / 2 ^ 53) :=
          mul_le_mul_of_nonneg_left (fl_le_of_nonneg hp) hn
      _ = n * p / d * (1 + 1 / 2 ^ 53) := by ring
  have h₂ := fl_le_of_nonneg (mul_nonneg hn (fl_nonneg hp))
  have hδ : (n * p / d : ℚ) * (2 / 2 ^ 53 + 1 / 2 ^ 106) < 1 / (2 * d : ℕ) := by
    have hlt : (n * p : ℚ) * (2 / 2 ^ 53 + 1 / 2 ^ 106) < 1 / 2 := by
      calc (n * p : ℚ) * (2 / 2 ^ 53 + 1 / 2 ^ 106) ≤ 2 ^ 50 * (2 / 2 ^ 53 + 1 / 2 ^ 106) :=
            mul_le_mul_of_nonneg_right hsmall' (by norm_num)
        _ < 1 / 2 := by norm_num
    push_cast
    rw [div_mul_eq_mul_div, ← div_div, div_lt_div_iff_of_pos_right hd']
    exact hlt
  have hsum : fl (n * fl (p / d)) + 1 / 2 ≤
      ((2 * (n * p) + d : ℕ) / (2 * d : ℕ) : ℚ) +
        (n * p / d : ℚ) * (2 / 2 ^ 53 + 1 / 2 ^ 106) := by
    have hq : ((2 * (n * p) + d : ℕ) / (2 * d : ℕ) : ℚ) = n * p / d + 1 / 2 := by
      push_cast
      field_simp
    rw [hq]
    linarith [h₁, h₂]
  exact (Int.floor_le_floor hsum).trans (floor_add_lt (by omega) hδ)

end Rxs.Core.Binary64
