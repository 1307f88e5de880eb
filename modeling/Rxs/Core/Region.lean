import Mathlib.Algebra.GroupWithZero.Nat
import Mathlib.Data.List.Basic
import Mathlib.Order.Interval.Finset.Nat

/-!
# Regions of memory

A region is where it starts and how many bytes it has. `Apart` regions share no byte;
`Separate` are lists of regions that are pairwise apart, which stays so when one is given
back, and when one is put behind all others. `chunk b size k` is the `k`-th of the chunks of
a region.

* `chunk_inside`, `chunk_apart`: chunks do not overlap.
* `Separate.sum_le`: regions below a bound that are apart are not larger than it together.
-/
namespace Rxs.Core

structure Region where
  start : Nat
  size : Nat
  deriving DecidableEq, Repr

namespace Region

def stop (r : Region) : Nat := r.start + r.size

def Inside (r outer : Region) : Prop := outer.start ≤ r.start ∧ r.stop ≤ outer.stop

def Apart (r s : Region) : Prop := r.stop ≤ s.start ∨ s.stop ≤ r.start

instance (r s : Region) : Decidable (r.Inside s) := inferInstanceAs (Decidable (_ ∧ _))

instance (r s : Region) : Decidable (r.Apart s) := inferInstanceAs (Decidable (_ ∨ _))

theorem Apart.symm {r s : Region} (h : r.Apart s) : s.Apart r := h.elim .inr .inl

theorem Apart.mono {r s r' s' : Region} (h : r.Apart s) (hr : r'.Inside r) (hs : s'.Inside s) :
    r'.Apart s' := by
  unfold Apart Inside at *
  omega

theorem Inside.trans {r s t : Region} (h : r.Inside s) (h' : s.Inside t) : r.Inside t := by
  unfold Inside at *
  omega

/-- Pairwise apart. -/
def Separate (rs : List Region) : Prop := rs.Pairwise Apart

theorem Separate.sublist {rs rs' : List Region} (h : Separate rs) (hs : rs'.Sublist rs) :
    Separate rs' :=
  List.Pairwise.sublist hs h

theorem Separate.snoc {rs : List Region} {s : Region} (h : Separate rs)
    (hs : ∀ r ∈ rs, r.Apart s) : Separate (rs ++ [s]) := by
  refine List.pairwise_append.mpr ⟨h, List.pairwise_singleton _ _, fun r hr t ht => ?_⟩
  rw [List.mem_singleton.mp ht]
  exact hs r hr

/-! ## Chunks -/

def chunk (b : Region) (size k : Nat) : Region := ⟨b.start + k * size, size⟩

theorem chunk_inside {b : Region} {size k n : Nat} (hk : k < n) (hsize : n * size ≤ b.size) :
    (b.chunk size k).Inside b := by
  have hmul : (k + 1) * size ≤ n * size := Nat.mul_le_mul_right size hk
  rw [Nat.succ_mul] at hmul
  unfold Inside stop chunk
  dsimp only
  omega

theorem chunk_apart (b : Region) (size : Nat) {j k : Nat} (h : j ≠ k) :
    (b.chunk size j).Apart (b.chunk size k) := by
  unfold Apart stop chunk
  dsimp only
  rcases Nat.lt_or_gt_of_ne h with hlt | hlt
  · have hmul : (j + 1) * size ≤ k * size := Nat.mul_le_mul_right size hlt
    rw [Nat.succ_mul] at hmul
    omega
  · have hmul : (k + 1) * size ≤ j * size := Nat.mul_le_mul_right size hlt
    rw [Nat.succ_mul] at hmul
    omega

/-! ## Room -/

/-- The bytes of the regions. -/
def cells (rs : List Region) : Finset Nat :=
  rs.foldr (fun r cs => Finset.Ico r.start r.stop ∪ cs) ∅

theorem mem_cells {rs : List Region} {i : Nat} :
    i ∈ cells rs ↔ ∃ r ∈ rs, r.start ≤ i ∧ i < r.stop := by
  induction rs with
  | nil => simp [cells]
  | cons r rs ih =>
    have hcons : cells (r :: rs) = Finset.Ico r.start r.stop ∪ cells rs := rfl
    rw [hcons, Finset.mem_union, ih, Finset.mem_Ico]
    simp

theorem Separate.card_cells {rs : List Region} (h : Separate rs) :
    (cells rs).card = (rs.map size).sum := by
  induction rs with
  | nil => rfl
  | cons r rs ih =>
    obtain ⟨hr, hrs⟩ := List.pairwise_cons.mp h
    have hcons : cells (r :: rs) = Finset.Ico r.start r.stop ∪ cells rs := rfl
    have hdisj : Disjoint (Finset.Ico r.start r.stop) (cells rs) := by
      rw [Finset.disjoint_left]
      intro i hi hi'
      obtain ⟨s, hs, hle, hlt⟩ := mem_cells.mp hi'
      obtain ⟨hle', hlt'⟩ := Finset.mem_Ico.mp hi
      rcases hr s hs with hd | hd <;> omega
    rw [hcons, Finset.card_union_of_disjoint hdisj, ih hrs, Nat.card_Ico, List.map_cons,
      List.sum_cons, stop, Nat.add_sub_cancel_left]

theorem Separate.sum_le {rs : List Region} (h : Separate rs) {N : Nat}
    (hN : ∀ r ∈ rs, r.stop ≤ N) : (rs.map size).sum ≤ N := by
  rw [← h.card_cells, ← Finset.card_range N]
  refine Finset.card_le_card fun i hi => ?_
  obtain ⟨r, hr, -, hlt⟩ := mem_cells.mp hi
  exact Finset.mem_range.mpr (Nat.lt_of_lt_of_le hlt (hN r hr))

end Region

end Rxs.Core
