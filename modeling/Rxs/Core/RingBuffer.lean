import Mathlib.Data.List.Induction
import Mathlib.Logic.Function.Basic
import Mathlib.Tactic.Common

/-!
# Ring buffers

A ring has `N` slots and a place to write next, which goes around. `back N top k` is the
slot that was written `k` writes before the newest.

* `pushes_back`: what stands in each slot after any number of writes.
-/
namespace Rxs.Core

structure RingBuffer (α : Type*) where
  slot : Nat → α
  top : Nat

namespace RingBuffer

variable {α : Type*} {N : Nat}

def push (N : Nat) (r : RingBuffer α) (x : α) : RingBuffer α :=
  { slot := Function.update r.slot r.top x, top := (r.top + 1) % N }

def pushes (N : Nat) (r : RingBuffer α) (l : List α) : RingBuffer α := l.foldl (push N) r

def back (N top k : Nat) : Nat := (top + (N - 1 - k)) % N

/-! ## Places -/

theorem mod_lt_two {m : Nat} (h : m < 2 * N) : m % N = if m < N then m else m - N := by
  split
  case isTrue hlt => exact Nat.mod_eq_of_lt hlt
  case isFalse hge => rw [Nat.mod_eq_sub_mod (by omega), Nat.mod_eq_of_lt (by omega)]

theorem back_succ {top k : Nat} (htop : top < N) (hk : k + 1 < N) :
    (back N top k + (N - 1)) % N = back N top (k + 1) := by
  unfold back
  rw [mod_lt_two (m := top + (N - 1 - k)) (by omega),
    mod_lt_two (m := top + (N - 1 - (k + 1))) (by omega)]
  split <;> split <;> rw [mod_lt_two (by omega)] <;> split <;> omega

theorem back_last {top : Nat} (htop : top < N) :
    (back N top (N - 1) + (N - 1)) % N = back N top 0 := by
  unfold back
  rw [mod_lt_two (m := top + (N - 1 - (N - 1))) (by omega),
    mod_lt_two (m := top + (N - 1 - 0)) (by omega)]
  split <;> split <;> rw [mod_lt_two (by omega)] <;> split <;> omega

theorem back_pred {top k : Nat} (htop : top < N) (hk : k + 1 < N) :
    (back N top (k + 1) + 1) % N = back N top k := by
  unfold back
  rw [mod_lt_two (m := top + (N - 1 - k)) (by omega),
    mod_lt_two (m := top + (N - 1 - (k + 1))) (by omega)]
  split <;> split <;> rw [mod_lt_two (by omega)] <;> split <;> omega

theorem back_inj {top j k : Nat} (htop : top < N) (hj : j < N) (hk : k < N)
    (h : back N top j = back N top k) : j = k := by
  unfold back at h
  rw [mod_lt_two (m := top + (N - 1 - j)) (by omega),
    mod_lt_two (m := top + (N - 1 - k)) (by omega)] at h
  split at h <;> split at h <;> omega

/-- The newest slot is the one just written. -/
theorem back_zero_push {top : Nat} (htop : top < N) : back N ((top + 1) % N) 0 = top := by
  unfold back
  rw [mod_lt_two (m := top + 1) (by omega)]
  split <;> rw [mod_lt_two (by omega)] <;> split <;> omega

theorem back_succ_push {top k : Nat} (htop : top < N) (hk : k + 1 < N) :
    back N ((top + 1) % N) (k + 1) = back N top k := by
  unfold back
  rw [mod_lt_two (m := top + 1) (by omega), mod_lt_two (m := top + (N - 1 - k)) (by omega)]
  split <;> split <;> rw [mod_lt_two (by omega)] <;> split <;> omega

theorem back_ne_top {top k : Nat} (htop : top < N) (hk : k + 1 < N) : back N top k ≠ top := by
  unfold back
  rw [mod_lt_two (by omega)]
  split <;> omega

/-! ## Writes -/

theorem pushes_top {r : RingBuffer α} (htop : r.top < N) (l : List α) :
    (pushes N r l).top < N := by
  induction l generalizing r with
  | nil => exact htop
  | cons x l ih => exact ih (Nat.mod_lt _ (by omega))

/-- After the writes of `l` a slot has the value of its write, or what it had before. -/
theorem pushes_back {r : RingBuffer α} (htop : r.top < N) (l : List α) {k : Nat} (hk : k < N) :
    (pushes N r l).slot (back N (pushes N r l).top k) =
      if h : k < l.length then l[l.length - 1 - k]
      else r.slot (back N r.top (k - l.length)) := by
  induction l using List.reverseRecOn generalizing k with
  | nil => rfl
  | append_singleton l x ih =>
    have hpush : pushes N r (l ++ [x]) = push N (pushes N r l) x := by
      simp [pushes, List.foldl_append]
    have hlt := pushes_top htop l
    rw [hpush]
    simp only [push]
    cases k with
    | zero =>
      rw [back_zero_push hlt, Function.update_self, dif_pos (by simp)]
      simp
    | succ k =>
      rw [back_succ_push hlt hk, Function.update_of_ne (back_ne_top hlt hk), ih (by omega)]
      by_cases hlen : k < l.length
      · rw [dif_pos hlen, dif_pos (by simpa using hlen), List.getElem_append_left (by simp; omega)]
        congr 1
        simp only [List.length_append, List.length_singleton]
        omega
      · rw [dif_neg hlen, dif_neg (by simpa using hlen)]
        congr 2
        simp only [List.length_append, List.length_singleton]
        omega

end RingBuffer

end Rxs.Core
