import Mathlib.Data.List.Sort
import Mathlib.Tactic.Common

/-!
# The largest of a list

`largest n pad l` are the `n` largest of `l` in descending order, filled up with `pad` where
`l` is shorter. `IsLargest` says it of a list without a sort: the list is in order, and what
is left out is nowhere above it.

* `IsLargest.eq_largest`: there is one such list.
* `IsLargest.keep`, `IsLargest.replace`: what becomes of it when an element comes in.
-/
namespace Rxs.Core

variable {α : Type*} [LE α]

structure IsLargest (n : Nat) (pad : α) (l t : List α) : Prop where
  length : t.length = n
  sorted : t.Pairwise fun a b => b ≤ a
  rest : ∃ r, (t ++ r).Perm (l ++ List.replicate n pad) ∧ ∀ a ∈ t, ∀ b ∈ r, b ≤ a

def largest [DecidableLE α] (n : Nat) (pad : α) (l : List α) : List α :=
  ((l ++ List.replicate n pad).insertionSort fun a b => b ≤ a).take n

variable [Std.IsLinearOrder α] {n : Nat} {pad x last : α} {l t t' init : List α}

instance total_ge : Std.Total fun a b : α => b ≤ a := ⟨fun a b => (Std.Total.total a b).symm⟩

instance trans_ge : IsTrans α fun a b => b ≤ a := ⟨fun _ _ _ h h' => Std.le_trans h' h⟩

/-- Two orders of the same elements. -/
theorem eq_of_perm (h : t.Perm t') (ht : t.Pairwise fun a b => b ≤ a)
    (ht' : t'.Pairwise fun a b => b ≤ a) : t = t' :=
  h.eq_of_pairwise (fun _ _ _ _ hab hba => Std.le_antisymm hba hab) ht ht'

namespace IsLargest

/-- At first there is only what fills up. -/
theorem replicate (n : Nat) (pad : α) : IsLargest n pad [] (List.replicate n pad) where
  length := List.length_replicate
  sorted := List.pairwise_replicate.mpr (.inr (Std.le_refl pad))
  rest := ⟨[], by simp, by simp⟩

/-- The rest, in order behind it, makes the whole in order. -/
theorem eq_largest [DecidableLE α] (h : IsLargest n pad l t) : t = largest n pad l := by
  obtain ⟨r, hperm, hle⟩ := h.rest
  have hr := List.perm_insertionSort (fun a b : α => b ≤ a) r
  have hsorted : (t ++ r.insertionSort fun a b => b ≤ a).Pairwise fun a b => b ≤ a := by
    refine List.pairwise_append.mpr ⟨h.sorted, List.pairwise_insertionSort _ r, ?_⟩
    intro a ha b hb
    exact hle a ha b (hr.mem_iff.mp hb)
  have heq : (t ++ r.insertionSort fun a b => b ≤ a) =
      (l ++ List.replicate n pad).insertionSort fun a b => b ≤ a := by
    refine eq_of_perm ?_ hsorted (List.pairwise_insertionSort _ _)
    exact ((hr.append_left t).trans hperm).trans (List.perm_insertionSort _ _).symm
  rw [largest, ← heq, ← h.length, List.take_left]

/-- An element that is not above the last one is left out. -/
theorem keep (h : IsLargest n pad l (init ++ [last])) (hx : x ≤ last) :
    IsLargest n pad (l ++ [x]) (init ++ [last]) where
  length := h.length
  sorted := h.sorted
  rest := by
    obtain ⟨r, hperm, hle⟩ := h.rest
    have hlast : ∀ a ∈ init ++ [last], last ≤ a := by
      intro a ha
      rcases List.mem_append.mp ha with ha | ha
      · exact (List.pairwise_append.mp h.sorted).2.2 a ha last (List.mem_singleton_self last)
      · exact List.mem_singleton.mp ha ▸ Std.le_refl a
    refine ⟨x :: r, ?_, ?_⟩
    · calc (init ++ [last] ++ x :: r).Perm (x :: (init ++ [last] ++ r)) := List.perm_middle
        _ |>.Perm (x :: (l ++ List.replicate n pad)) := hperm.cons x
        _ |>.Perm (l ++ x :: List.replicate n pad) := List.perm_middle.symm
        _ = l ++ [x] ++ List.replicate n pad := by simp
    · intro a ha b hb
      rcases List.mem_cons.mp hb with rfl | hb
      · exact Std.le_trans hx (hlast a ha)
      · exact hle a ha b hb

/-- An element that is not below the last one takes its place, and all are put in order. -/
theorem replace (h : IsLargest n pad l (init ++ [last])) (hx : last ≤ x)
    (hp : t.Perm (init ++ [x])) (hs : t.Pairwise fun a b => b ≤ a) :
    IsLargest n pad (l ++ [x]) t where
  length := by
    have hlen := h.length
    rw [hp.length_eq]
    simpa using hlen
  sorted := hs
  rest := by
    obtain ⟨r, hperm, hle⟩ := h.rest
    have hlast : ∀ a ∈ t, last ≤ a := by
      intro a ha
      rcases List.mem_append.mp (hp.mem_iff.mp ha) with ha | ha
      · exact (List.pairwise_append.mp h.sorted).2.2 a ha last (List.mem_singleton_self last)
      · exact List.mem_singleton.mp ha ▸ hx
    refine ⟨last :: r, ?_, ?_⟩
    · calc (t ++ last :: r).Perm (init ++ [x] ++ last :: r) := hp.append_right _
        _ |>.Perm (x :: (init ++ [last] ++ r)) := by simp
        _ |>.Perm (x :: (l ++ List.replicate n pad)) := hperm.cons x
        _ |>.Perm (l ++ x :: List.replicate n pad) := List.perm_middle.symm
        _ = l ++ [x] ++ List.replicate n pad := by simp
    · intro a ha b hb
      refine Std.le_trans ?_ (hlast a ha)
      rcases List.mem_cons.mp hb with rfl | hb
      · exact Std.le_refl b
      · exact hle last (by simp) b hb

end IsLargest

end Rxs.Core
