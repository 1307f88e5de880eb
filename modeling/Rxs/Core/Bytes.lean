import Mathlib.Data.List.Basic
import Mathlib.Tactic.Common
import Mathlib.Tactic.Ring

/-!
# Byte buffers: slices, in-place writes, little-endian words

A C buffer is a `List UInt8`. `writeAt b off d` is `memcpy(b + off, d, |d|)`,
`slice b off len` the bytes a later read at `off` sees. `getElem?_writeAt` says
where every byte of a written buffer comes from; the read-back, framing and
overwrite rules follow from it.
-/
namespace Rxs.Core

/-! Lanes and registers are numbered with literals. -/

instance neZero_four : NeZero 4 := ⟨by decide⟩
instance neZero_eight : NeZero 8 := ⟨by decide⟩
instance neZero_sixteen : NeZero 16 := ⟨by decide⟩

@[elab_as_elim]
theorem four_cases {P : Fin 4 → Prop} (i : Fin 4) (zero : P 0) (one : P 1) (two : P 2)
    (three : P 3) : P i := by
  match i with
  | 0 => exact zero
  | 1 => exact one
  | 2 => exact two
  | 3 => exact three

@[elab_as_elim]
theorem eight_cases {P : Fin 8 → Prop} (i : Fin 8) (zero : P 0) (one : P 1) (two : P 2)
    (three : P 3) (four : P 4) (five : P 5) (six : P 6) (seven : P 7) : P i := by
  match i with
  | 0 => exact zero
  | 1 => exact one
  | 2 => exact two
  | 3 => exact three
  | 4 => exact four
  | 5 => exact five
  | 6 => exact six
  | 7 => exact seven

abbrev Bytes := List UInt8

namespace Bytes

def slice (b : Bytes) (off len : Nat) : Bytes := (b.drop off).take len

def writeAt (b : Bytes) (off : Nat) (d : Bytes) : Bytes :=
  b.take off ++ d ++ b.drop (off + d.length)

/-- Little-endian value of a byte list. -/
def readLE : Bytes → Nat
  | [] => 0
  | x :: xs => x.toNat + 256 * readLE xs

/-- The `k` low bytes of `n`, little-endian. -/
def le : Nat → Nat → Bytes
  | 0, _ => []
  | k + 1, n => UInt8.ofNat n :: le k (n / 256)

@[simp] theorem length_le (k n : Nat) : (le k n).length = k := by
  induction k generalizing n with
  | zero => rfl
  | succ k ih => simp [le, ih]

theorem readLE_le (k n : Nat) : readLE (le k n) = n % 256 ^ k := by
  induction k generalizing n with
  | zero => simp [le, readLE, Nat.mod_one]
  | succ k ih =>
    have hx : (UInt8.ofNat n).toNat = n % 256 := by simp
    rw [le, readLE, ih, hx, Nat.pow_succ, Nat.mul_comm (256 ^ k) 256, Nat.mod_mul]

theorem le_readLE (b : Bytes) : le b.length (readLE b) = b := by
  induction b with
  | nil => rfl
  | cons x xs ih =>
    have hx : x.toNat < 256 := x.toNat_lt
    have hq : (x.toNat + 256 * readLE xs) / 256 = readLE xs := by omega
    have hr : UInt8.ofNat (x.toNat + 256 * readLE xs) = x := by
      apply UInt8.toNat_inj.mp
      rw [UInt8.toNat_ofNat']
      omega
    rw [List.length_cons, readLE, le, hq, hr, ih]

theorem le_add (j k n : Nat) : le (j + k) n = le j n ++ le k (n / 256 ^ j) := by
  induction j generalizing n with
  | zero => simp [le]
  | succ j ih =>
    rw [Nat.succ_add, le, le, ih, Nat.div_div_eq_div_mul, Nat.pow_succ, Nat.mul_comm 256]
    rfl

/-- The low bytes, whatever is above them. -/
theorem le_add_mul (k n m : Nat) : le k (n + 256 ^ k * m) = le k n := by
  induction k generalizing n with
  | zero => rfl
  | succ k ih =>
    have hn : n + 256 ^ (k + 1) * m = n + 256 * (256 ^ k * m) := by
      rw [Nat.pow_succ, Nat.mul_comm (256 ^ k) 256, Nat.mul_assoc]
    have hbyte : UInt8.ofNat (n + 256 * (256 ^ k * m)) = UInt8.ofNat n := by
      apply UInt8.toNat_inj.mp
      simp
    rw [hn, le, le, Nat.add_mul_div_left _ _ (by decide), hbyte, ih]

theorem readLE_lt (b : Bytes) : readLE b < 256 ^ b.length := by
  induction b with
  | nil => simp [readLE]
  | cons x xs ih =>
    have hx : x.toNat < 256 := x.toNat_lt
    simp only [readLE, List.length_cons, Nat.pow_succ]
    omega

@[simp] theorem length_slice {b : Bytes} {off len : Nat} (h : off + len ≤ b.length) :
    (slice b off len).length = len := by
  simp only [slice, List.length_take, List.length_drop]; omega

theorem getElem?_slice (b : Bytes) (off len i : Nat) :
    (slice b off len)[i]? = if i < len then b[off + i]? else none := by
  simp only [slice, List.getElem?_take, List.getElem?_drop]

@[simp] theorem length_writeAt {b : Bytes} {off : Nat} {d : Bytes} (h : off + d.length ≤ b.length) :
    (writeAt b off d).length = b.length := by
  simp only [writeAt, List.length_append, List.length_take, List.length_drop]; omega

/-- Where each byte of a written buffer comes from. -/
theorem getElem?_writeAt {b : Bytes} {off : Nat} {d : Bytes} (h : off + d.length ≤ b.length)
    (i : Nat) : (writeAt b off d)[i]? =
      if off ≤ i ∧ i < off + d.length then d[i - off]? else b[i]? := by
  have hl : (b.take off).length = off := by rw [List.length_take]; omega
  by_cases h₁ : i < off
  · rw [if_neg (by omega), writeAt, List.append_assoc, List.getElem?_append_left (by omega),
      List.getElem?_take, if_pos h₁]
  · rw [writeAt, List.append_assoc, List.getElem?_append_right (by omega), hl]
    by_cases h₂ : i < off + d.length
    · rw [if_pos ⟨by omega, h₂⟩, List.getElem?_append_left (by omega)]
    · rw [if_neg (by omega), List.getElem?_append_right (by omega), List.getElem?_drop]
      congr 1; omega

/-- Read-back. -/
theorem slice_writeAt {b : Bytes} {off : Nat} {d : Bytes} (h : off + d.length ≤ b.length) :
    slice (writeAt b off d) off d.length = d := by
  apply List.ext_getElem?
  intro i
  rw [getElem?_slice, getElem?_writeAt h]
  by_cases hi : i < d.length
  · rw [if_pos hi, if_pos (by omega)]; congr 1; omega
  · rw [if_neg hi, List.getElem?_eq_none (by omega)]

/-- Frame: a write leaves every disjoint slice alone. -/
theorem slice_writeAt_of_disjoint {b : Bytes} {off : Nat} {d : Bytes} {o len : Nat}
    (h : off + d.length ≤ b.length) (hd : o + len ≤ off ∨ off + d.length ≤ o) :
    slice (writeAt b off d) o len = slice b o len := by
  apply List.ext_getElem?
  intro i
  rw [getElem?_slice, getElem?_slice]
  by_cases hi : i < len
  · rw [if_pos hi, if_pos hi, getElem?_writeAt h, if_neg (by omega)]
  · rw [if_neg hi, if_neg hi]

/-- A slice of a prefix that contains it. -/
theorem slice_take {b : Bytes} {off len n : Nat} (h : off + len ≤ n) :
    slice (b.take n) off len = slice b off len := by
  apply List.ext_getElem?
  intro i
  rw [getElem?_slice, getElem?_slice]
  by_cases hi : i < len
  · rw [if_pos hi, if_pos hi, List.getElem?_take, if_pos (by omega)]
  · rw [if_neg hi, if_neg hi]

end Bytes

end Rxs.Core
