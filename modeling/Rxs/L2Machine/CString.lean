import Mathlib.Data.List.TakeWhile
import Mathlib.Data.Nat.Digits.Lemmas
import Rxs.Core.SortedMap
import Rxs.L2Machine.JobText

/-!
# Strings and numbers in them

`String::split` keeps the pieces that are not empty, and an empty string whole. The order
of strings tells no string from an empty one. Numbers are read as the C library does.

* `split_cons`: the first piece, up to its separator.
* `strLt_order`, `strLt_total`: the order, and what it tells apart.
* `strtoul_hex`: a number that is printed and read.
-/
namespace Rxs.CString

open Rxs.Core

/-! ## Pieces -/

/-- `cur` is what stands between `start` and `pos`. -/
def pieces (sep : UInt8) : Bytes → Bytes → List Bytes
  | cur, [] => if cur ≠ [] then [cur] else []
  | cur, c :: s =>
    if c = sep then (if cur ≠ [] then [cur] else []) ++ pieces sep [] s
    else pieces sep (cur ++ [c]) s

/-- mirrors src/base/tools/String.cpp:113-142 -/
def split (sep : UInt8) (s : Bytes) : List Bytes := if s = [] then [[]] else pieces sep [] s

theorem pieces_append {sep : UInt8} {cur s : Bytes} (h : sep ∉ s) (t : Bytes) :
    pieces sep cur (s ++ t) = pieces sep (cur ++ s) t := by
  induction s generalizing cur with
  | nil => simp
  | cons c s ih =>
    rw [List.mem_cons, not_or] at h
    rw [List.cons_append, pieces, if_neg (Ne.symm h.1), ih h.2]
    simp

/-- The piece before a separator. -/
theorem pieces_cons {sep : UInt8} {s : Bytes} (hs : s ≠ []) (h : sep ∉ s) (t : Bytes) :
    pieces sep [] (s ++ sep :: t) = s :: pieces sep [] t := by
  rw [pieces_append h, List.nil_append, pieces, if_pos rfl, if_pos hs]
  rfl

theorem pieces_last {sep : UInt8} {s : Bytes} (hs : s ≠ []) (h : sep ∉ s) :
    pieces sep [] s = [s] := by
  have := @pieces_append sep [] s h []
  rw [List.append_nil] at this
  rw [this, List.nil_append, pieces, if_pos hs]

theorem split_cons {sep : UInt8} {s : Bytes} (hs : s ≠ []) (h : sep ∉ s) (t : Bytes) :
    split sep (s ++ sep :: t) = s :: pieces sep [] t := by
  rw [split, if_neg (by simp), pieces_cons hs h]

/-! ## The order -/

/-- `strcmp` where neither is empty.
mirrors src/base/tools/String.h:83 -/
def strLt (s t : Bytes) : Bool := s ≠ [] && t ≠ [] && decide (s < t)

theorem strLt_order : StrictOrder strLt where
  irrefl s := by simp [strLt, List.lt_irrefl]
  trans s t u h h' := by
    simp only [strLt, Bool.and_eq_true, decide_eq_true_eq] at h h' ⊢
    exact ⟨⟨h.1.1, h'.1.2⟩, List.lt_trans h.2 h'.2⟩

/-- Of two strings that are not empty one is before the other, or they are the same. -/
theorem strLt_total {s t : Bytes} (hs : s ≠ []) (ht : t ≠ []) :
    strLt s t = true ∨ strLt t s = true ∨ s = t := by
  rcases Std.lt_trichotomy s t with h | h | h
  · exact Or.inl (by simp [strLt, hs, ht, h])
  · exact Or.inr (Or.inr h)
  · exact Or.inr (Or.inl (by simp [strLt, hs, ht, h]))

/-! ## Numbers -/

/-- The value of a letter or digit in bases up to 36. -/
def digitValue (c : UInt8) : Option Nat :=
  if 48 ≤ c ∧ c ≤ 57 then some (c.toNat - 48)
  else if 97 ≤ lower c ∧ lower c ≤ 122 then some ((lower c).toNat - 87)
  else none

def magnitude (base : Nat) (s : Bytes) : Nat :=
  ((s.map digitValue).takeWhile fun d => d.any (· < base)).foldl
    (fun n d => n * base + d.getD 0) 0

/-- A digit of base 16 behind `0x`. -/
def marked (s : Bytes) : Bool :=
  s.head? = some 48 ∧ (s[1]? = some 120 ∨ s[1]? = some 88) ∧
    ((s[2]?).bind digitValue).any (· < 16)

/-- The sign and the number; base 0 goes by the prefix. -/
def number (base : Nat) (s : Bytes) : Bool × Nat :=
  let s := s.dropWhile Job.isspace
  let neg : Bool := s.head? = some 45
  let s := if s.head? = some 45 ∨ s.head? = some 43 then s.tail else s
  if (base = 0 ∨ base = 16) ∧ marked s then (neg, magnitude 16 (s.drop 2))
  else if base = 0 then (neg, magnitude (if s.head? = some 48 then 8 else 10) s)
  else (neg, magnitude base s)

/-- `strtoll`. -/
def strtoll (base : Nat) (s : Bytes) : Int :=
  let n : Int := (number base s).2
  if (number base s).1 then max (-2 ^ 63) (-n) else min (2 ^ 63 - 1) n

/-- `strtoul` and `strtoull`, where both are of 64 bits. -/
def strtoul (base : Nat) (s : Bytes) : Nat :=
  let n := (number base s).2
  if 2 ^ 64 ≤ n then 2 ^ 64 - 1 else if (number base s).1 then (2 ^ 64 - n) % 2 ^ 64 else n

theorem strtoll_bounds (base : Nat) (s : Bytes) :
    -2 ^ 63 ≤ strtoll base s ∧ strtoll base s < 2 ^ 63 := by
  unfold strtoll
  dsimp only
  split <;> omega

/-! ## Numbers as text -/

/-- A digit of `%x`. -/
def hexChar (d : Nat) : UInt8 := UInt8.ofNat (if d < 10 then 48 + d else 87 + d)

def hexDigits (n : Nat) : List Nat := if n = 0 then [0] else (Nat.digits 16 n).reverse

/-- `%x`. -/
def hex (n : Nat) : Bytes := (hexDigits n).map hexChar

theorem digitValue_hexChar : ∀ d < 16, digitValue (hexChar d) = some d := by decide

/-- What a digit is not: a separator, or the end. -/
theorem hexChar_ne : ∀ d < 16, hexChar d ≠ 58 ∧ hexChar d ≠ 0 := by decide

theorem hexDigits_lt {n d : Nat} (h : d ∈ hexDigits n) : d < 16 := by
  unfold hexDigits at h
  split at h
  · simp only [List.mem_singleton] at h
    omega
  · exact Nat.digits_lt_base (by omega) (List.mem_reverse.mp h)

theorem hexDigits_ne_nil (n : Nat) : hexDigits n ≠ [] := by
  unfold hexDigits
  split
  · simp
  · simpa [Nat.digits_ne_nil_iff_ne_zero]

theorem mem_hex {n : Nat} {c : UInt8} (h : c ∈ hex n) : c ≠ 58 ∧ c ≠ 0 := by
  obtain ⟨d, hd, rfl⟩ := List.mem_map.mp h
  exact hexChar_ne d (hexDigits_lt hd)

/-- All digits are read. -/
theorem magnitude_digits {ds : List Nat} (h : ∀ d ∈ ds, d < 16) :
    magnitude 16 (ds.map hexChar) = ds.foldl (fun n d => n * 16 + d) 0 := by
  have hmap : (ds.map hexChar).map digitValue = ds.map some := by
    rw [List.map_map]
    exact List.map_congr_left fun d hd => digitValue_hexChar d (h d hd)
  have hall : ∀ d ∈ ds.map some, (d.any (· < 16) : Bool) = true := by
    intro d hd
    obtain ⟨e, he, rfl⟩ := List.mem_map.mp hd
    simpa using h e he
  rw [magnitude, hmap, List.takeWhile_eq_self_iff.mpr hall, List.foldl_map]
  rfl

theorem magnitude_hex (n : Nat) : magnitude 16 (hex n) = n := by
  rw [hex, magnitude_digits fun d => hexDigits_lt]
  unfold hexDigits
  split
  case isTrue h => simp [h]
  case isFalse =>
    rw [List.foldl_reverse]
    conv_rhs => rw [← Nat.ofDigits_digits 16 n, Nat.ofDigits_eq_foldr]
    congr 1
    funext d n
    simp only [Nat.cast_id]
    omega

theorem length_hex_le {k : Nat} (hk : 0 < k) (n : Nat) : (hex n).length ≤ k ↔ n < 16 ^ k := by
  unfold hex hexDigits
  rw [List.length_map]
  split
  case isTrue h =>
    have : 0 < 16 ^ k := by positivity
    simp only [List.length_singleton]
    omega
  case isFalse => rw [List.length_reverse, Nat.digits_length_le_iff (by omega)]

/-- Without its last digit. -/
theorem dropLast_hex {n : Nat} (h : 16 ≤ n) : (hex n).dropLast = hex (n / 16) := by
  unfold hex hexDigits
  rw [if_neg (by omega), if_neg (by omega), Nat.digits_def' (by omega) (by omega)]
  simp

/-- A number that is printed with `0x%x` is read from the text. -/
theorem strtoul_hex {n : Nat} (h : n < 2 ^ 64) : strtoul 0 (48 :: 120 :: hex n) = n := by
  obtain ⟨d, ds, hds⟩ := List.exists_cons_of_ne_nil (hexDigits_ne_nil n)
  have hd : d < 16 := hexDigits_lt (n := n) (by simp [hds])
  have hhead : ((hex n)[0]?.bind digitValue).any (· < 16) = true := by
    simp [hex, hds, digitValue_hexChar d hd, hd]
  have hnumber : number 0 (48 :: 120 :: hex n) = (false, n) := by
    have hspace : (48 :: 120 :: hex n).dropWhile Job.isspace = 48 :: 120 :: hex n := by
      rw [List.dropWhile_cons_of_neg (by decide)]
    unfold number
    rw [hspace]
    simp [marked, hhead, magnitude_hex]
  simp only [strtoul, hnumber, if_neg (Nat.not_le.mpr h)]
  rfl

end Rxs.CString
