import Mathlib.Data.List.Basic
import Mathlib.Data.Set.Basic
import Mathlib.Tactic.Common

/-!
# Numbers drawn from a shared counter

Parties draw ranges of numbers from one counter and spend them one by one. A
`Ledger` says which numbers each party may still spend and which are spent. A
step of the parties gives numbers up, draws a fresh range, or spends a number
of one's own (`Ledger.Step`).

* `Sound.step`: whatever the order, no number is ever spent twice.
* `Full.step`: when parties give up no number below a limit, none of these is lost.
* `Sound.perm_range`: when no party owes such a number any more, all were spent.
-/
namespace Rxs.Core

structure Ledger (ι : Type) where
  next : Nat
  owed : ι → Set Nat
  spent : List Nat

namespace Ledger

variable {ι : Type}

/-- What is owed is below the counter and owed by one party; what is spent was
below the counter, is owed no more and was spent once. -/
structure Sound (L : Ledger ι) : Prop where
  below : ∀ i, ∀ x ∈ L.owed i, x < L.next
  apart : ∀ i j x, x ∈ L.owed i → x ∈ L.owed j → i = j
  used : ∀ x ∈ L.spent, x < L.next ∧ ∀ i, x ∉ L.owed i
  nodup : L.spent.Nodup

inductive Step (L : Ledger ι) : Ledger ι → Prop where
  | drop (owed : ι → Set Nat) (h : ∀ i, owed i ⊆ L.owed i) : Step L { L with owed := owed }
  | draw (i : ι) (n : Nat) (owed : ι → Set Nat)
      (hi : ∀ x ∈ owed i, x ∈ L.owed i ∨ (L.next ≤ x ∧ x < L.next + n))
      (hj : ∀ j, j ≠ i → owed j ⊆ L.owed j) : Step L { L with next := L.next + n, owed := owed }
  | spend (i : ι) (x : Nat) (owed : ι → Set Nat) (hx : x ∈ L.owed i)
      (hi : ∀ y ∈ owed i, y ∈ L.owed i ∧ y ≠ x)
      (hj : ∀ j, j ≠ i → owed j ⊆ L.owed j) : Step L { L with owed := owed, spent := x :: L.spent }

/-- Nothing owed, nothing spent. -/
theorem Sound.empty (n : Nat) {owed : ι → Set Nat} (h : ∀ i x, x ∉ owed i) :
    Sound { next := n, owed := owed, spent := [] } where
  below i x hx := absurd hx (h i x)
  apart i _ x hx := absurd hx (h i x)
  used _ h := by cases h
  nodup := List.nodup_nil

theorem Sound.step {L L' : Ledger ι} (S : Sound L) (h : Step L L') : Sound L' := by
  cases h with
  | drop owed h =>
    exact ⟨fun i x hx => S.below i x (h i hx), fun i j x hi hj => S.apart i j x (h i hi) (h j hj),
      fun x hx => ⟨(S.used x hx).1, fun i hi => (S.used x hx).2 i (h i hi)⟩, S.nodup⟩
  | draw i n owed hi hj =>
    -- a number owed now was owed before, or is fresh and party `i`'s
    have hown : ∀ j, ∀ x ∈ owed j, x ∈ L.owed j ∨ (j = i ∧ L.next ≤ x ∧ x < L.next + n) := by
      intro j x hx
      by_cases h : j = i
      · subst h
        rcases hi x hx with h | h
        · left; exact h
        · right; exact ⟨rfl, h⟩
      · left; exact hj j h hx
    refine ⟨fun j x hx => ?_, fun j k x hx hy => ?_, fun x hx => ⟨?_, fun j hjx => ?_⟩, S.nodup⟩
    · have := S.below j x
      rcases hown j x hx with h | ⟨-, -, h⟩
      · exact Nat.lt_add_right n (this h)
      · exact h
    · rcases hown j x hx with h | ⟨hji, hn, -⟩ <;> rcases hown k x hy with h' | ⟨hki, hn', -⟩
      · exact S.apart j k x h h'
      · have := S.below j x h; omega
      · have := S.below k x h'; omega
      · exact hji.trans hki.symm
    · exact Nat.lt_add_right n (S.used x hx).1
    · have hlt := (S.used x hx).1
      rcases hown j x hjx with h | ⟨-, hn, -⟩
      · exact (S.used x hx).2 j h
      · omega
  | spend i x owed hx hi hj =>
    have hown : ∀ j, ∀ y ∈ owed j, y ∈ L.owed j ∧ y ≠ x := by
      intro j y hy
      by_cases h : j = i
      · subst h; exact hi y hy
      · refine ⟨hj j h hy, fun hyx => h ?_⟩
        subst hyx; exact S.apart j i y (hj j h hy) hx
    refine ⟨fun j y hy => S.below j y (hown j y hy).1,
      fun j k y hy hz => S.apart j k y (hown j y hy).1 (hown k y hz).1, fun y hy => ?_, ?_⟩
    · rcases List.mem_cons.mp hy with h | h
      · subst h; exact ⟨S.below i y hx, fun j hjy => (hown j y hjy).2 rfl⟩
      · exact ⟨(S.used y h).1, fun j hjy => (S.used y h).2 j (hown j y hjy).1⟩
    · exact List.nodup_cons.mpr ⟨fun h => (S.used x h).2 i hx, S.nodup⟩

/-- Below the limit, what was drawn is owed or spent. -/
def Full (lim : Nat) (L : Ledger ι) : Prop :=
  ∀ x < lim, x < L.next → x ∈ L.spent ∨ ∃ i, x ∈ L.owed i

theorem Full.step {lim : Nat} {L L' : Ledger ι} (F : L.Full lim)
    (hspent : ∀ x ∈ L.spent, x ∈ L'.spent)
    (howed : ∀ i, ∀ x < lim, x ∈ L.owed i → x ∈ L'.spent ∨ x ∈ L'.owed i)
    (hnew : ∀ x < lim, L.next ≤ x → x < L'.next → x ∈ L'.spent ∨ ∃ i, x ∈ L'.owed i) :
    L'.Full lim := by
  intro x hx hlt
  by_cases hn : x < L.next
  · rcases F x hx hn with h | ⟨i, h⟩
    · left; exact hspent x h
    · rcases howed i x hx h with h | h
      · left; exact h
      · right; exact ⟨i, h⟩
  · exact hnew x hx (by omega) hlt

theorem Sound.perm_range {lim : Nat} {L : Ledger ι} (S : L.Sound) (F : L.Full lim)
    (hnext : lim ≤ L.next) (hlt : ∀ x ∈ L.spent, x < lim) (howed : ∀ i, ∀ x ∈ L.owed i, lim ≤ x) :
    L.spent.Perm (List.range lim) := by
  rw [List.perm_ext_iff_of_nodup S.nodup List.nodup_range]
  intro x
  rw [List.mem_range]
  refine ⟨hlt x, ?_⟩
  intro hx
  rcases F x hx (by omega) with h | ⟨i, h⟩
  · exact h
  · have := howed i x h
    omega

end Ledger

end Rxs.Core
