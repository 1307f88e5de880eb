import Mathlib.Algebra.Field.ZMod
import Mathlib.Data.BitVec
import Mathlib.RingTheory.AdjoinRoot
import Mathlib.Tactic.ComputeDegree
import Mathlib.Tactic.LinearCombination

/-!
# Bytes as a field

A byte is a polynomial over the two elements, modulo `X^8 + X^4 + X^3 + X + 1`: bit `i` is
the coefficient of `X^i`. `mul` is the product as it is computed, `el` the element of the
quotient ring that a byte stands for.

* `exists_pow`: every byte but zero is a power of `X + 1`.
* `el_xor`, `el_mul`: sums and products.
* `el_injective`: so equations of bytes are equations of the ring: `mul_comm`, `mul_assoc`,
  `mul_xor`, `mul_inv`.
-/
namespace Rxs.Core.Gf256

open Polynomial

abbrev Byte := BitVec 8

/-- Times `X`. -/
def xtime (b : Byte) : Byte := (b <<< 1) ^^^ (if b.getLsbD 7 then 0x1B else 0)

/-- The product with the polynomial of the bits of `b` from `i` on, `n` of them. -/
def mulFrom (b : Byte) : Nat → Nat → Byte → Byte
  | 0, _, _ => 0
  | n + 1, i, a => (if b.getLsbD i then a else 0) ^^^ mulFrom b n (i + 1) (xtime a)

def mul (a b : Byte) : Byte := mulFrom b 8 0 a

def square (b : Byte) : Byte := mul b b

/-- The power of 254, the inverse of all but zero. -/
def inv (b : Byte) : Byte :=
  let b2 := square b
  let b3 := mul b2 b
  let b12 := square (square b3)
  let b15 := mul b12 b3
  let b240 := square (square (square (square b15)))
  mul b240 (mul b12 b2)

/-- Times `X + 1`. -/
def next (b : Byte) : Byte := xtime b ^^^ b

/-! ## Powers of `X + 1` -/

/-- A bit for each of `n` powers. -/
def mask : Nat → Byte → Nat
  | 0, _ => 0
  | n + 1, b => 1 <<< b.toNat ||| mask n (next b)

theorem exists_of_mask {n : Nat} {b : Byte} {j : Nat} (h : (mask n b).testBit j) :
    ∃ k < n, (next^[k] b).toNat = j := by
  induction n generalizing b with
  | zero => simp [mask] at h
  | succ n ih =>
    rw [mask, Nat.testBit_or, Bool.or_eq_true] at h
    rcases h with h | h
    · refine ⟨0, Nat.succ_pos n, ?_⟩
      rw [Nat.one_shiftLeft, Nat.testBit_two_pow] at h
      simpa using h
    · obtain ⟨k, hk, heq⟩ := ih h
      exact ⟨k + 1, Nat.succ_lt_succ hk, heq⟩

/-- **Every byte but zero is a power.** -/
theorem exists_pow {b : Byte} (h : b ≠ 0) : ∃ k < 255, next^[k] 1 = b := by
  have hmask : mask 255 1 = 2 * (2 ^ 255 - 1) := by decide +kernel
  have hb := b.isLt
  have hpos : 1 ≤ b.toNat := by
    have hne : b.toNat ≠ 0 := BitVec.toNat_ne.mp h
    omega
  have hbit : (mask 255 1).testBit b.toNat := by
    rw [hmask, ← Nat.sub_add_cancel hpos, Nat.testBit_succ,
      Nat.mul_div_cancel_left _ (by decide), Nat.testBit_two_pow_sub_one]
    exact decide_eq_true (by omega)
  obtain ⟨k, hk, heq⟩ := exists_of_mask hbit
  exact ⟨k, hk, BitVec.eq_of_toNat_eq heq⟩

theorem next_255 : next^[255] 1 = 1 := by
  decide +kernel

/-! ## The ring -/

noncomputable def modulus : (ZMod 2)[X] := X ^ 8 + X ^ 4 + X ^ 3 + X + 1

abbrev Ring := AdjoinRoot modulus

theorem natDegree_modulus : modulus.natDegree = 8 := by
  unfold modulus
  compute_degree!

instance nontrivial_ring : Nontrivial Ring :=
  AdjoinRoot.nontrivial modulus fun h => by
    have h0 := Polynomial.natDegree_eq_of_degree_eq_some (p := modulus) (n := 0) (by simpa using h)
    rw [natDegree_modulus] at h0
    exact absurd h0 (by decide)

noncomputable def root : Ring := AdjoinRoot.root modulus

theorem two_eq_zero : (2 : Ring) = 0 := by
  have h : (2 : ZMod 2) = 0 := by decide
  have hmap := congrArg (AdjoinRoot.of modulus) h
  rwa [map_ofNat, map_zero] at hmap

/-- The coefficient of a bit. -/
noncomputable def coeff (b : Bool) : Ring := if b then 1 else 0

theorem coeff_xor (a b : Bool) : coeff (a ^^ b) = coeff a + coeff b := by
  have h := two_eq_zero
  cases a <;> cases b <;> simp only [coeff] <;> simp
  linear_combination -h

theorem root_pow : root ^ 8 = root ^ 4 + root ^ 3 + root + 1 := by
  have h : AdjoinRoot.mk modulus (X ^ 8 + X ^ 4 + X ^ 3 + X + 1) = 0 := AdjoinRoot.mk_self
  simp only [map_add, map_pow, AdjoinRoot.mk_X, map_one] at h
  unfold root
  linear_combination h - (AdjoinRoot.root modulus ^ 4 + AdjoinRoot.root modulus ^ 3 +
    AdjoinRoot.root modulus + 1) * two_eq_zero

noncomputable def el (b : Byte) : Ring :=
  coeff (b.getLsbD 0) + coeff (b.getLsbD 1) * root + coeff (b.getLsbD 2) * root ^ 2 +
    coeff (b.getLsbD 3) * root ^ 3 + coeff (b.getLsbD 4) * root ^ 4 +
    coeff (b.getLsbD 5) * root ^ 5 + coeff (b.getLsbD 6) * root ^ 6 + coeff (b.getLsbD 7) * root ^ 7

theorem el_xor (a b : Byte) : el (a ^^^ b) = el a + el b := by
  simp only [el, BitVec.getLsbD_xor, coeff_xor]
  ring

theorem el_zero : el 0 = 0 := by
  simp [el, coeff]

theorem el_one : el 1 = 1 := by
  have hbit : ∀ i < 8, (1 : Byte).getLsbD i = decide (i = 0) := by decide
  simp only [el, hbit 0 (by decide), hbit 1 (by decide), hbit 2 (by decide), hbit 3 (by decide),
    hbit 4 (by decide), hbit 5 (by decide), hbit 6 (by decide), hbit 7 (by decide)]
  simp [coeff]

theorem bits_xtime : ∀ b : Byte, (xtime b).getLsbD 0 = b.getLsbD 7 ∧
    (xtime b).getLsbD 1 = (b.getLsbD 0 ^^ b.getLsbD 7) ∧ (xtime b).getLsbD 2 = b.getLsbD 1 ∧
    (xtime b).getLsbD 3 = (b.getLsbD 2 ^^ b.getLsbD 7) ∧
    (xtime b).getLsbD 4 = (b.getLsbD 3 ^^ b.getLsbD 7) ∧ (xtime b).getLsbD 5 = b.getLsbD 4 ∧
    (xtime b).getLsbD 6 = b.getLsbD 5 ∧ (xtime b).getLsbD 7 = b.getLsbD 6 := by
  decide +kernel

theorem el_xtime (b : Byte) : el (xtime b) = root * el b := by
  obtain ⟨h0, h1, h2, h3, h4, h5, h6, h7⟩ := bits_xtime b
  have hroot := root_pow
  simp only [el, h0, h1, h2, h3, h4, h5, h6, h7, coeff_xor]
  linear_combination -coeff (b.getLsbD 7) * hroot

theorem el_ite (p : Bool) (a : Byte) : el (if p then a else 0) = coeff p * el a := by
  cases p
  · rw [coeff, if_neg Bool.false_ne_true, if_neg Bool.false_ne_true, el_zero, zero_mul]
  · rw [coeff, if_pos rfl, if_pos rfl, MulOneClass.one_mul]

theorem el_mul (a b : Byte) : el (mul a b) = el a * el b := by
  simp only [mul, mulFrom, el_xor, el_ite, el_xtime, el_zero]
  simp only [el]
  ring

theorem el_square (b : Byte) : el (square b) = el b ^ 2 := by
  rw [square, el_mul, sq]

theorem el_inv (b : Byte) : el (inv b) = el b ^ 254 := by
  simp only [inv, el_mul, el_square]
  ring

theorem el_next (b : Byte) : el (next b) = (root + 1) * el b := by
  rw [next, el_xor, el_xtime]
  ring

theorem el_pow (k : Nat) (b : Byte) : el (next^[k] b) = (root + 1) ^ k * el b := by
  induction k generalizing b with
  | zero => rw [pow_zero, MulOneClass.one_mul, Function.iterate_zero, id]
  | succ k ih =>
    rw [Function.iterate_succ_apply, ih, el_next]
    ring

theorem root_add_one_pow : (root + 1) ^ 255 = 1 := by
  have h := el_pow 255 1
  rwa [next_255, el_one, MulOneClass.mul_one, eq_comm] at h

theorem el_pow_255 {b : Byte} (h : b ≠ 0) : el b ^ 255 = 1 := by
  obtain ⟨k, -, rfl⟩ := exists_pow h
  rw [el_pow, el_one, MulOneClass.mul_one, ← pow_mul, Nat.mul_comm, pow_mul, root_add_one_pow,
    one_pow]

/-! ## Laws -/

theorem el_eq_zero {b : Byte} (h : el b = 0) : b = 0 := by
  by_contra hb
  have hpow := el_pow_255 hb
  rw [h, zero_pow (by decide)] at hpow
  exact zero_ne_one hpow

theorem el_injective {a b : Byte} (h : el a = el b) : a = b := by
  have hxor : el (a ^^^ b) = 0 := by
    rw [el_xor, h]
    linear_combination el b * two_eq_zero
  exact BitVec.xor_eq_zero_iff.mp (el_eq_zero hxor)

theorem mul_comm (a b : Byte) : mul a b = mul b a := by
  apply el_injective
  rw [el_mul, el_mul, CommMonoid.mul_comm]

theorem mul_assoc (a b c : Byte) : mul (mul a b) c = mul a (mul b c) := by
  apply el_injective
  simp only [el_mul]
  ring

theorem mul_xor (a b c : Byte) : mul a (b ^^^ c) = mul a b ^^^ mul a c := by
  apply el_injective
  simp only [el_mul, el_xor]
  ring

theorem one_mul (a : Byte) : mul 1 a = a := by
  apply el_injective
  rw [el_mul, el_one, MulOneClass.one_mul]

theorem mul_zero (a : Byte) : mul a 0 = 0 := by
  apply el_injective
  rw [el_mul, el_zero, MulZeroClass.mul_zero]

theorem mul_inv {b : Byte} (h : b ≠ 0) : mul b (inv b) = 1 := by
  apply el_injective
  rw [el_mul, el_inv, el_one, ← pow_succ', el_pow_255 h]

theorem inv_zero : inv 0 = 0 := by
  apply el_injective
  rw [el_inv, el_zero, zero_pow (by decide)]

theorem inv_unique {a b : Byte} (h : mul a b = 1) : inv a = b := by
  have ha : a ≠ 0 := by
    intro ha
    have hel := congrArg el h
    rw [ha, el_mul, el_zero, zero_mul, el_one] at hel
    exact zero_ne_one hel
  rw [← one_mul b, ← mul_inv ha, mul_comm a, mul_assoc, h, mul_comm, one_mul]

theorem inv_inv (b : Byte) : inv (inv b) = b := by
  by_cases h : b = 0
  · rw [h, inv_zero, inv_zero]
  · exact inv_unique (by rw [mul_comm, mul_inv h])

end Rxs.Core.Gf256
