import Mathlib.Algebra.Group.Nat.Defs
import Mathlib.Data.List.Basic
import Mathlib.Tactic.Common

/-!
# Hash trees

A binary tree over a list of leaves: `above f l` combines neighbours of a level,
`top` does so `m` times. For a number of leaves between two powers of two only
the last ones are combined first (`uneven`), so that a power of two remains.
`root` is that tree's top.

`climb` goes up from a node with one sibling a level; `turn` is the sibling of
position `q` and its side.

* `climb_top`: the siblings of a position take its leaf to the top.
-/
namespace Rxs.Core.HashTree

variable {α : Type} [Inhabited α] (f : α → α → α)

/-- The level above: neighbours combined. -/
def above : List α → List α
  | a :: b :: l => f a b :: above l
  | _ => []

/-- `m` levels up. -/
def top : Nat → List α → List α
  | 0, l => l
  | m + 1, l => top m (above f l)

/-- The leaves from `k` on combined. -/
def uneven (k : Nat) (l : List α) : List α := l.take k ++ above f (l.drop k)

/-- The leaves are brought down to the largest power of two below their number. -/
def root (l : List α) : α :=
  if l.length ≤ 1 then l.getD 0 default
  else
    let m := Nat.log2 (l.length - 1)
    (top f m (uneven f (2 * 2 ^ m - l.length) l)).getD 0 default

/-- A sibling, and whether the node is to its right. -/
structure Turn (α : Type) where
  sib : α
  right : Bool
  deriving DecidableEq, Repr

def climb (x : α) (ts : List (Turn α)) : α :=
  ts.foldl (fun x t => if t.right then f t.sib x else f x t.sib) x

def turn (l : List α) (q : Nat) : Turn α :=
  if q % 2 = 1 then ⟨l.getD (q - 1) default, true⟩ else ⟨l.getD (q + 1) default, false⟩

/-- The siblings from position `q` up to the top of `m` levels. -/
def turns : Nat → List α → Nat → List (Turn α)
  | 0, _, _ => []
  | m + 1, l, q => turn l q :: turns m (above f l) (q / 2)

/-- The pair of position `q`, combined. -/
def parent (l : List α) (q : Nat) : α :=
  f (l.getD (2 * (q / 2)) default) (l.getD (2 * (q / 2) + 1) default)

/-- The node at `q` is the only one with its value, and no node behind its pair
has the value of its parent. -/
structure Apart (l : List α) (q : Nat) : Prop where
  once : ∀ i, i < l.length → l.getD i default = l.getD q default → i = q
  parent : ∀ i, 2 * (q / 2) + 1 < i → i < l.length → l.getD i default ≠ parent f l q

/-- On each of `m` levels. -/
def ApartUp : Nat → List α → Nat → Prop
  | 0, _, _ => True
  | m + 1, l, q => Apart f l q ∧ ApartUp m (above f l) (q / 2)

instance [DecidableEq α] (l : List α) (q : Nat) : Decidable (Apart f l q) :=
  decidable_of_iff
    ((∀ i < l.length, l.getD i default = l.getD q default → i = q) ∧
      ∀ i < l.length, 2 * (q / 2) + 1 < i → l.getD i default ≠ parent f l q)
    ⟨fun h => ⟨h.1, fun i hq hi => h.2 i hi hq⟩, fun h => ⟨h.once, fun i hi hq => h.parent i hq hi⟩⟩

instance ApartUp.decidable [DecidableEq α] : ∀ (m : Nat) (l : List α) (q : Nat),
    Decidable (ApartUp f m l q)
  | 0, _, _ => instDecidableTrue
  | m + 1, l, q => have := ApartUp.decidable m (above f l) (q / 2); instDecidableAnd

/-! ## Levels -/

omit [Inhabited α] in
@[simp] theorem length_above (l : List α) : (above f l).length = l.length / 2 := by
  induction l using above.induct with
  | case1 a b l ih => simp only [above, List.length_cons, ih]; omega
  | case2 l h =>
    match l, h with
    | [], _ => simp [above]
    | [a], _ => simp [above]
    | a :: b :: l, h => exact absurd rfl (h a b l)

theorem getD_above (l : List α) (j : Nat) (h : 2 * j + 1 < l.length) :
    (above f l).getD j default = f (l.getD (2 * j) default) (l.getD (2 * j + 1) default) := by
  induction l using above.induct generalizing j with
  | case1 a b l ih =>
    cases j with
    | zero => rfl
    | succ j =>
      have hj : 2 * j + 1 < l.length := by simp only [List.length_cons] at h; omega
      have e : 2 * (j + 1) = 2 * j + 2 := by omega
      simpa only [above, List.getD_cons_succ, e] using ih j hj
  | case2 l hl =>
    match l, hl, h with
    | [], _, h => simp at h
    | [a], _, h => simp at h
    | a :: b :: l, hl, _ => exact absurd rfl (hl a b l)

theorem getD_above_parent (l : List α) (q : Nat) (h : q < l.length) (he : l.length % 2 = 0) :
    (above f l).getD (q / 2) default = parent f l q :=
  getD_above f l (q / 2) (by omega)

omit [Inhabited α] in
theorem climb_concat (x : α) (ts : List (Turn α)) (t : Turn α) :
    climb f x (ts ++ [t]) = if t.right then f t.sib (climb f x ts) else f (climb f x ts) t.sib := by
  rw [climb, List.foldl_append]; rfl

/-- One turn leads to the parent. -/
theorem climb_turn (l : List α) (q : Nat) (ts : List (Turn α)) :
    climb f (l.getD q default) (turn l q :: ts) = climb f (parent f l q) ts := by
  rcases Nat.mod_two_eq_zero_or_one q with h | h
  · have e : 2 * (q / 2) = q := by omega
    have ht : turn l q = ⟨l.getD (q + 1) default, false⟩ := if_neg (by omega)
    rw [ht, parent, e]
    rfl
  · have e : 2 * (q / 2) = q - 1 := by omega
    have e' : q - 1 + 1 = q := by omega
    have ht : turn l q = ⟨l.getD (q - 1) default, true⟩ := if_pos h
    rw [ht, parent, e, e']
    rfl

/-- The siblings of a position take its node to the top. -/
theorem climb_top (m : Nat) (l : List α) (q : Nat) (hl : l.length = 2 ^ m) (hq : q < l.length) :
    climb f (l.getD q default) (turns f m l q) = (top f m l).getD 0 default := by
  induction m generalizing l q with
  | zero =>
    have h0 : q = 0 := by rw [hl] at hq; omega
    rw [h0]; rfl
  | succ m ih =>
    have hlen : l.length = 2 * 2 ^ m := by rw [hl, Nat.pow_succ, Nat.mul_comm]
    rw [turns, climb_turn, top, ← getD_above_parent f l q hq (by omega)]
    refine ih (above f l) (q / 2) ?_ ?_
    · rw [length_above, hlen]; omega
    · rw [length_above]; omega

theorem length_turns (m : Nat) (l : List α) (q : Nat) : (turns f m l q).length = m := by
  induction m generalizing l q with
  | zero => rfl
  | succ m ih => rw [turns, List.length_cons, ih]

omit [Inhabited α] in
theorem length_uneven (k : Nat) (l : List α) (h : k ≤ l.length) :
    (uneven f k l).length = k + (l.length - k) / 2 := by
  rw [uneven, List.length_append, List.length_take, length_above, List.length_drop,
    Nat.min_eq_left h]

/-- For a power of two nothing is uneven. -/
theorem root_pow (m : Nat) (l : List α) (h : l.length = 2 ^ m) :
    root f l = (top f m l).getD 0 default := by
  cases m with
  | zero =>
    have h1 : l.length ≤ 1 := by simp [h]
    rw [root, if_pos h1]; rfl
  | succ m =>
    have hp := Nat.two_pow_pos m
    have h2 : l.length = 2 * 2 ^ m := by rw [h, Nat.pow_succ, Nat.mul_comm]
    have hlog : Nat.log2 (l.length - 1) = m := by
      rw [Nat.log2_eq_iff (by omega), Nat.pow_succ]
      omega
    have hk : 2 * 2 ^ m - l.length = 0 := by omega
    rw [root, if_neg (by omega)]
    simp only [hlog, hk]
    rfl

/-- Else the power of two below is that of the logarithm. -/
theorem root_uneven (m : Nat) (l : List α) (h : 2 ^ m < l.length) (h' : l.length < 2 * 2 ^ m) :
    root f l = (top f m (uneven f (2 * 2 ^ m - l.length) l)).getD 0 default := by
  have hp := Nat.two_pow_pos m
  have hlog : Nat.log2 (l.length - 1) = m := by
    rw [Nat.log2_eq_iff (by omega), Nat.pow_succ]
    omega
  rw [root, if_neg (by omega)]
  simp only [hlog]

end Rxs.Core.HashTree
