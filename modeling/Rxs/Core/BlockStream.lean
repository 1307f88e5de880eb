import Mathlib.Tactic.Common

/-!
# Hashes of blocks, fed in pieces

Such a hash absorbs its input a block at a time, except for what is behind the last full
block, or the last block where there is nothing behind it: how it is absorbed is not known
before the end. `hold` is the state after an input with what is held back.

* `hold_append`: an input in two pieces.
* `feed_eq`: how code does it that has a buffer and takes full blocks from where they are.
-/
namespace Rxs.Core.BlockStream

variable {σ α : Type*} (B : Nat) (absorb : σ → List α → σ)

/-- The state, and what is held back. -/
def hold (s : σ) (m : List α) : σ × List α :=
  if _h : 0 < B ∧ B < m.length then hold (absorb s (m.take B)) (m.drop B) else (s, m)
termination_by m.length
decreasing_by
  rw [List.length_drop]
  omega

/-- A piece, behind what is held back: the buffer is filled first. -/
def feed (p : σ × List α) (x : List α) : σ × List α :=
  if B < p.2.length + x.length then
    hold B absorb (absorb p.1 (p.2 ++ x.take (B - p.2.length))) (x.drop (B - p.2.length))
  else (p.1, p.2 ++ x)

variable {B} {absorb}

theorem hold_step (hB : 0 < B) (s : σ) {m : List α} (h : B < m.length) :
    hold B absorb s m = hold B absorb (absorb s (m.take B)) (m.drop B) := by
  rw [hold, dif_pos ⟨hB, h⟩]

theorem hold_short (s : σ) {m : List α} (h : m.length ≤ B) : hold B absorb s m = (s, m) := by
  rw [hold, dif_neg (by omega)]

theorem length_hold (hB : 0 < B) (s : σ) (m : List α) : (hold B absorb s m).2.length ≤ B := by
  induction s, m using hold.induct B absorb with
  | case1 s m h ih => rwa [hold_step hB s h.2]
  | case2 s m h =>
    rw [hold_short s (by omega)]
    show m.length ≤ B
    omega

theorem hold_ne_nil (hB : 0 < B) (s : σ) {m : List α} (hm : m ≠ []) :
    (hold B absorb s m).2 ≠ [] := by
  induction s, m using hold.induct B absorb with
  | case1 s m h ih =>
    rw [hold_step hB s h.2]
    refine ih fun hnil => ?_
    have hlen := congrArg List.length hnil
    rw [List.length_drop, List.length_nil] at hlen
    omega
  | case2 s m h => rwa [hold_short s (by omega)]

/-- **An input in two pieces.** -/
theorem hold_append (hB : 0 < B) (s : σ) (m x : List α) :
    hold B absorb s (m ++ x) = hold B absorb (hold B absorb s m).1 ((hold B absorb s m).2 ++ x) := by
  induction s, m using hold.induct B absorb with
  | case1 s m h ih =>
    have hlen : B < (m ++ x).length := by
      rw [List.length_append]
      omega
    rw [hold_step hB s h.2, hold_step hB s hlen, ← ih, List.take_append_of_le_length (by omega),
      List.drop_append_of_le_length (by omega)]
  | case2 s m h => rw [hold_short s (by omega : m.length ≤ B)]

theorem feed_eq (hB : 0 < B) {p : σ × List α} (hp : p.2.length ≤ B) (x : List α) :
    feed B absorb p x = hold B absorb p.1 (p.2 ++ x) := by
  unfold feed
  split
  next h =>
    have hlen : B < (p.2 ++ x).length := by rwa [List.length_append]
    rw [hold_step hB _ hlen, List.take_append, List.drop_append, List.take_of_length_le hp,
      List.drop_of_length_le hp, List.nil_append]
  next h => rw [hold_short _ (by rw [List.length_append]; omega)]

/-- Pieces, one after the other. -/
theorem foldl_feed (hB : 0 < B) (s : σ) (m : List α) (xs : List (List α)) :
    xs.foldl (feed B absorb) (hold B absorb s m) = hold B absorb s (m ++ xs.flatten) := by
  induction xs generalizing m with
  | nil => simp
  | cons x xs ih =>
    rw [List.foldl_cons, feed_eq hB (length_hold hB s m), ← hold_append hB, ih, List.flatten_cons,
      List.append_assoc]

end Rxs.Core.BlockStream
