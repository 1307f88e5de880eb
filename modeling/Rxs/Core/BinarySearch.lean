import Mathlib.Data.List.Basic
import Mathlib.Tactic.Common

/-!
# Binary search

A search by halves is given a comparison of what is looked for with an entry: negative
where it is before the entry, positive where it is behind. The table suits the comparison
where everything behind an entry that is not passed comes later still. Then the search
finds what a scan from the front finds.

* `binarySearch_eq_find?`: the two searches agree.
* `Suits.eq_of_zero`: at most one entry is equal.
-/
namespace Rxs.Core

variable {α : Type*}

/-- The window is `lo ≤ i < hi`. -/
def binarySearch (cmp : α → Int) (t : List α) (lo hi : Nat) : Option α :=
  if lo < hi then
    let mid := lo + (hi - lo) / 2
    match t[mid]? with
    | none => none
    | some e =>
      if cmp e = 0 then some e
      else if cmp e < 0 then binarySearch cmp t lo mid
      else binarySearch cmp t (mid + 1) hi
  else none
termination_by hi - lo

/-- What is not behind an entry is before all later ones. -/
def Suits (cmp : α → Int) (t : List α) : Prop :=
  t.Pairwise fun a b => cmp a ≤ 0 → cmp b < 0

theorem Suits.lt {cmp : α → Int} {t : List α} (h : Suits cmp t) {i j : Nat} {a b : α}
    (hij : i < j) (ha : t[i]? = some a) (hb : t[j]? = some b) (h0 : cmp a ≤ 0) : cmp b < 0 := by
  obtain ⟨hi, rfl⟩ := List.getElem?_eq_some_iff.mp ha
  obtain ⟨hj, rfl⟩ := List.getElem?_eq_some_iff.mp hb
  exact List.pairwise_iff_getElem.mp h i j hi hj hij h0

theorem Suits.eq_of_zero {cmp : α → Int} {t : List α} (h : Suits cmp t) {i j : Nat} {a b : α}
    (ha : t[i]? = some a) (hb : t[j]? = some b) (h0 : cmp a = 0) (h1 : cmp b = 0) : i = j := by
  rcases Nat.lt_trichotomy i j with hij | hij | hij
  · have := h.lt hij ha hb (Int.le_of_eq h0)
    omega
  · exact hij
  · have := h.lt hij hb ha (Int.le_of_eq h1)
    omega

theorem binarySearch_sound {cmp : α → Int} {t : List α} {lo hi : Nat} {e : α}
    (h : binarySearch cmp t lo hi = some e) : e ∈ t ∧ cmp e = 0 := by
  fun_induction binarySearch cmp t lo hi with
  | case1 => simp at h
  | case2 lo hi hlt mid a ha h0 =>
    cases h
    exact ⟨List.mem_of_getElem? ha, h0⟩
  | case3 lo hi hlt mid a ha h0 hneg ih => exact ih h
  | case4 lo hi hlt mid a ha h0 hneg ih => exact ih h
  | case5 => simp at h

theorem binarySearch_complete {cmp : α → Int} {t : List α} (hs : Suits cmp t) {lo hi k : Nat}
    {e : α} (hhi : hi ≤ t.length) (hlo : lo ≤ k) (hk : k < hi) (he : t[k]? = some e)
    (h0 : cmp e = 0) : binarySearch cmp t lo hi = some e := by
  fun_induction binarySearch cmp t lo hi with
  | case1 lo hi hlt mid hnone =>
    have : t.length ≤ mid := List.getElem?_eq_none_iff.mp hnone
    have : mid = lo + (hi - lo) / 2 := rfl
    omega
  | case2 lo hi hlt mid a ha hz =>
    have : mid = k := hs.eq_of_zero ha he hz h0
    rw [← ha, this, he]
  | case3 lo hi hlt mid a ha hz hneg ih =>
    -- the entry is not behind the middle
    have hkm : k < mid := by
      by_contra hmk
      rcases Nat.lt_or_eq_of_le (Nat.le_of_not_lt hmk) with hmk | rfl
      · have := hs.lt hmk ha he (Int.le_of_lt hneg)
        omega
      · rw [ha] at he
        cases he
        exact hz h0
    exact ih (by omega) hlo hkm
  | case4 lo hi hlt mid a ha hz hneg ih =>
    have hmk : mid < k := by
      by_contra hkm
      rcases Nat.lt_or_eq_of_le (Nat.le_of_not_lt hkm) with hkm | rfl
      · have := hs.lt hkm he ha (Int.le_of_eq h0)
        omega
      · rw [ha] at he
        cases he
        exact hz h0
    exact ih hhi hmk hk
  | case5 => omega

/-- Both searches find the same entry. -/
theorem binarySearch_eq_find? {cmp : α → Int} {t : List α} (hs : Suits cmp t) :
    binarySearch cmp t 0 t.length = t.find? fun e => cmp e = 0 := by
  cases hf : t.find? (fun e => cmp e = 0) with
  | some e =>
    obtain ⟨k, hk, rfl⟩ := List.mem_iff_getElem.mp (List.mem_of_find?_eq_some hf)
    have h0 : cmp t[k] = 0 := by simpa using List.find?_some hf
    exact binarySearch_complete hs (Nat.le_refl _) (Nat.zero_le k) hk (List.getElem?_eq_getElem hk) h0
  | none =>
    cases hb : binarySearch cmp t 0 t.length with
    | none => rfl
    | some e =>
      obtain ⟨he, h0⟩ := binarySearch_sound hb
      exact absurd (by simpa using h0) (List.find?_eq_none.mp hf e he)

end Rxs.Core
