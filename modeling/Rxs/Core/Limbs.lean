import Mathlib.Algebra.BigOperators.Ring.Finset
import Mathlib.Data.Int.ModEq
import Mathlib.Data.List.GetD
import Mathlib.Tactic.Linarith
import Mathlib.Tactic.Ring

/-!
# Numbers in limbs

A number is a sum of limbs, signed machine integers, each with its weight. The steps of a
program move a part of one limb to another; a sum that overflows stops the run.

The bounds of the limbs are followed through a program without running it, and so are the
weights: a limb that others take over by a multiple loses their weights. A carry is allowed
where the weights agree modulo `M`, which is equality if `M` is zero.

* `digit`: the digits of a sum whose limbs are digits.
* `Op.bound_run`: a step that is `Op.Safe` runs, within the bounds, and keeps the number.
* **`Certified.run`**: so does a program, whose certificate is a matter of `decide`.
-/
namespace Rxs.Core.Limbs

/-! ## Programs -/

/-- A signed integer of `b` bits. -/
def fit (b : Nat) (x : Int) : Option Int :=
  if -(2 ^ (b - 1) : Nat) ≤ x ∧ x < (2 ^ (b - 1) : Nat) then some x else none

inductive Op
  /-- What is above `w` bits of limb `i`, after `r` was added, goes to limb `j`, `m` times. -/
  | carry (i r w j m : Nat)
  /-- Limb `i` is added to limb `j`, `m` times. -/
  | add (j i m : Nat)
  | sub (j i m : Nat)
  | clear (i : Nat)

def Op.run (b : Nat) : Op → List Int → Option (List Int)
  | .carry i r w j m, s => do
    let t ← fit b (s.getD i 0 + r)
    let c := t >>> w
    let p ← fit b (c * m)
    let y ← fit b (s.getD j 0 + p)
    let q ← fit b (c * (2 ^ w : Nat))
    let x ← fit b (s.getD i 0 - q)
    some ((s.set j y).set i x)
  | .add j i m, s => do
    let p ← fit b (s.getD i 0 * m)
    let y ← fit b (s.getD j 0 + p)
    some (s.set j y)
  | .sub j i m, s => do
    let p ← fit b (s.getD i 0 * m)
    let y ← fit b (s.getD j 0 - p)
    some (s.set j y)
  | .clear i, s => some (s.set i 0)

def run (b : Nat) : List Op → List Int → Option (List Int)
  | [], s => some s
  | op :: ops, s => (op.run b s).bind (run b ops)

theorem run_append (b : Nat) (ops ops' : List Op) (s : List Int) :
    run b (ops ++ ops') s = (run b ops s).bind (run b ops') := by
  induction ops generalizing s with
  | nil => rfl
  | cons op ops ih =>
    rw [List.cons_append, run, run, Option.bind_assoc]
    congr 1
    funext s'
    exact ih s'

/-- The limbs that a step writes. -/
def Op.writes : Op → List Nat
  | .carry i _ _ j _ => [i, j]
  | .add j _ _ => [j]
  | .sub j _ _ => [j]
  | .clear i => [i]

theorem getD_set_ne {α : Type} (l : List α) {i j : Nat} (h : i ≠ j) (x d : α) :
    (l.set j x).getD i d = l.getD i d := by
  rw [List.getD_eq_getElem?_getD, List.getD_eq_getElem?_getD, List.getElem?_set_ne h.symm]

theorem Op.run_frame {b k : Nat} {op : Op} {s s' : List Int} (hk : k ∉ op.writes)
    (h : op.run b s = some s') : s'.getD k 0 = s.getD k 0 := by
  cases op with
  | carry i r w j m =>
    simp only [Op.writes, List.mem_cons, List.not_mem_nil, or_false, not_or] at hk
    simp only [Op.run, Option.bind_eq_bind, Option.bind_eq_some_iff, Option.some.injEq] at h
    obtain ⟨_, _, _, _, _, _, _, _, _, _, rfl⟩ := h
    rw [getD_set_ne _ hk.1, getD_set_ne _ hk.2]
  | add j i m =>
    simp only [Op.writes, List.mem_singleton] at hk
    simp only [Op.run, Option.bind_eq_bind, Option.bind_eq_some_iff, Option.some.injEq] at h
    obtain ⟨_, _, _, _, rfl⟩ := h
    rw [getD_set_ne _ hk]
  | sub j i m =>
    simp only [Op.writes, List.mem_singleton] at hk
    simp only [Op.run, Option.bind_eq_bind, Option.bind_eq_some_iff, Option.some.injEq] at h
    obtain ⟨_, _, _, _, rfl⟩ := h
    rw [getD_set_ne _ hk]
  | clear i =>
    simp only [Op.writes, List.mem_singleton] at hk
    cases h
    rw [getD_set_ne _ hk]

/-- A limb that no step writes. -/
theorem run_frame {b k : Nat} {ops : List Op} {s s' : List Int} (hk : ∀ op ∈ ops, k ∉ op.writes)
    (h : run b ops s = some s') : s'.getD k 0 = s.getD k 0 := by
  induction ops generalizing s with
  | nil => cases h; rfl
  | cons op ops ih =>
    rw [run, Option.bind_eq_some_iff] at h
    obtain ⟨s₁, hop, hrun⟩ := h
    rw [ih (fun op' hop' => hk op' (List.mem_cons_of_mem _ hop')) hrun,
      Op.run_frame (hk op List.mem_cons_self) hop]

/-! ## Ranges -/

structure Range where
  lo : Int
  hi : Int
  deriving DecidableEq, Repr

namespace Range

def Mem (x : Int) (a : Range) : Prop := a.lo ≤ x ∧ x ≤ a.hi

instance (x : Int) (a : Range) : Decidable (Mem x a) := by unfold Mem; infer_instance

def add (a c : Range) : Range := ⟨a.lo + c.lo, a.hi + c.hi⟩

def sub (a c : Range) : Range := ⟨a.lo - c.hi, a.hi - c.lo⟩

def scale (a : Range) (m : Nat) : Range := ⟨a.lo * m, a.hi * m⟩

def shift (a : Range) (w : Nat) : Range := ⟨a.lo >>> w, a.hi >>> w⟩

def Fits (b : Nat) (a : Range) : Prop :=
  -(2 ^ (b - 1) : Nat) ≤ a.lo ∧ a.hi < (2 ^ (b - 1) : Nat)

instance (b : Nat) (a : Range) : Decidable (a.Fits b) := by unfold Fits; infer_instance

def Le (a c : Range) : Prop := c.lo ≤ a.lo ∧ a.hi ≤ c.hi

instance (a c : Range) : Decidable (a.Le c) := by unfold Le; infer_instance

variable {a c : Range} {x y : Int}

theorem Mem.add (hx : Mem x a) (hy : Mem y c) : Mem (x + y) (a.add c) :=
  ⟨Int.add_le_add hx.1 hy.1, Int.add_le_add hx.2 hy.2⟩

theorem Mem.sub (hx : Mem x a) (hy : Mem y c) : Mem (x - y) (a.sub c) :=
  ⟨Int.sub_le_sub hx.1 hy.2, Int.sub_le_sub hx.2 hy.1⟩

theorem Mem.scale (hx : Mem x a) (m : Nat) : Mem (x * m) (a.scale m) :=
  ⟨Int.mul_le_mul_of_nonneg_right hx.1 (Int.natCast_nonneg m),
    Int.mul_le_mul_of_nonneg_right hx.2 (Int.natCast_nonneg m)⟩

theorem Mem.shift (hx : Mem x a) (w : Nat) : Mem (x >>> w) (a.shift w) := by
  have hpos : (0 : Int) < (2 ^ w : Nat) := Int.natCast_pos.mpr (Nat.two_pow_pos w)
  simp only [Mem, Range.shift, Int.shiftRight_eq_div_pow]
  exact ⟨Int.ediv_le_ediv hpos hx.1, Int.ediv_le_ediv hpos hx.2⟩

theorem Mem.fit (hx : Mem x a) {b : Nat} (h : a.Fits b) : fit b x = some x :=
  if_pos ⟨Int.le_trans h.1 hx.1, Int.lt_of_le_of_lt hx.2 h.2⟩

theorem Mem.mono (hx : Mem x a) (h : a.Le c) : Mem x c :=
  ⟨Int.le_trans h.1 hx.1, Int.le_trans hx.2 h.2⟩

end Range

/-! ## Weights -/

structure Limb where
  range : Range
  weight : Int
  deriving DecidableEq, Repr

instance : Inhabited Limb := ⟨⟨⟨0, 0⟩, 0⟩⟩

/-- The limbs are in their ranges. -/
def Within (a : List Limb) (s : List Int) : Prop := List.Forall₂ (fun l x => Range.Mem x l.range) a s

/-- The number. -/
def value : List Limb → List Int → Int
  | l :: a, x :: s => l.weight * x + value a s
  | _, _ => 0

/-- The limbs after a step; a limb that was cleared has its first weight again. -/
def Op.bound (weight : Nat → Int) : Op → List Limb → List Limb
  | .carry i r w j m, a =>
    let c := ((a.getD i default).range.add ⟨r, r⟩).shift w
    let y := (a.getD j default).range.add (c.scale m)
    (a.set j ⟨y, (a.getD j default).weight⟩).set i
      ⟨⟨-r, (2 ^ w : Nat) - 1 - r⟩, (a.getD i default).weight⟩
  | .add j i m, a =>
    let y := (a.getD j default).range.add ((a.getD i default).range.scale m)
    (a.set j ⟨y, (a.getD j default).weight⟩).set i
      ⟨(a.getD i default).range, (a.getD i default).weight - m * (a.getD j default).weight⟩
  | .sub j i m, a =>
    let y := (a.getD j default).range.sub ((a.getD i default).range.scale m)
    (a.set j ⟨y, (a.getD j default).weight⟩).set i
      ⟨(a.getD i default).range, (a.getD i default).weight + m * (a.getD j default).weight⟩
  | .clear i, a => a.set i ⟨⟨0, 0⟩, weight i⟩

/-- Nothing overflows, and the weights of a carry agree modulo `M`. -/
def Op.Safe (M : Int) (b : Nat) : Op → List Limb → Prop
  | .carry i r w j m, a =>
    let t := (a.getD i default).range.add ⟨r, r⟩
    let c := t.shift w
    i ≠ j ∧ i < a.length ∧ j < a.length ∧ t.Fits b ∧ (c.scale m).Fits b ∧
      ((a.getD j default).range.add (c.scale m)).Fits b ∧ (c.scale (2 ^ w)).Fits b ∧
      Range.Fits b ⟨-r, (2 ^ w : Nat) - 1 - r⟩ ∧
      M ∣ (a.getD i default).weight * (2 ^ w : Nat) - (a.getD j default).weight * m
  | .add j i m, a =>
    i ≠ j ∧ i < a.length ∧ j < a.length ∧ ((a.getD i default).range.scale m).Fits b ∧
      ((a.getD j default).range.add ((a.getD i default).range.scale m)).Fits b
  | .sub j i m, a =>
    i ≠ j ∧ i < a.length ∧ j < a.length ∧ ((a.getD i default).range.scale m).Fits b ∧
      ((a.getD j default).range.sub ((a.getD i default).range.scale m)).Fits b
  | .clear i, a => i < a.length ∧ M ∣ (a.getD i default).weight

instance (M : Int) (b : Nat) (op : Op) (a : List Limb) : Decidable (op.Safe M b a) := by
  cases op <;> unfold Op.Safe <;> infer_instance

/-- `a` is as the limbs of `c`, or within narrower bounds. -/
def Covers (M : Int) (a c : List Limb) : Prop :=
  List.Forall₂ (fun l k => l.range.Le k.range ∧ M ∣ l.weight - k.weight) a c

instance (M : Int) (a c : List Limb) : Decidable (Covers M a c) := by
  unfold Covers; infer_instance

/-- The certificate of a program from limbs as `a` to limbs as `c`. -/
def Certified (M : Int) (b : Nat) (weight : Nat → Int) : List Op → List Limb → List Limb → Prop
  | [], a, c => Covers M a c
  | op :: ops, a, c => op.Safe M b a ∧ Certified M b weight ops (op.bound weight a) c

instance Certified.decide (M : Int) (b : Nat) (weight : Nat → Int) :
    (ops : List Op) → (a c : List Limb) → Decidable (Certified M b weight ops a c)
  | [], a, c => inferInstanceAs (Decidable (Covers M a c))
  | op :: ops, a, c =>
    have := Certified.decide M b weight ops (op.bound weight a) c
    inferInstanceAs (Decidable (_ ∧ _))

section
variable {a : List Limb} {s : List Int}

theorem Within.getD (h : Within a s) (i : Nat) :
    Range.Mem (s.getD i 0) (a.getD i default).range := by
  induction h generalizing i with
  | nil => exact ⟨Int.le_refl 0, Int.le_refl 0⟩
  | cons hx _ ih =>
    cases i with
    | zero => exact hx
    | succ i => exact ih i

theorem Within.set (h : Within a s) (i : Nat) {l : Limb} {x : Int} (hx : Range.Mem x l.range) :
    Within (a.set i l) (s.set i x) := by
  induction h generalizing i with
  | nil => exact .nil
  | cons hy h ih =>
    cases i with
    | zero => exact .cons hx h
    | succ i => exact .cons hy (ih i)

theorem set_getD_ne (l : List Int) {i j : Nat} (h : i ≠ j) (x : Int) :
    (l.set j x).set i (l.getD i 0) = l.set j x := by
  rw [← getD_set_ne l h x 0, List.getD_eq_getElem?_getD]
  apply List.ext_getElem?
  intro n
  rw [List.getElem?_set]
  split
  · next hn =>
    subst hn
    split
    · next hlt => rw [List.getElem?_eq_getElem hlt, Option.getD_some]
    · next hle => rw [List.getElem?_eq_none (Nat.not_lt.mp hle)]
  · rfl

/-- A limb is changed, and its weight. -/
theorem value_set (h : Within a s) {i : Nat} (hi : i < a.length) (l : Limb) (x : Int) :
    value (a.set i l) (s.set i x) =
      value a s + (l.weight * x - (a.getD i default).weight * s.getD i 0) := by
  induction h generalizing i with
  | nil => exact absurd hi (Nat.not_lt_zero i)
  | @cons k y a s hy h ih =>
    cases i with
    | zero =>
      simp only [List.set_cons_zero, List.getD_cons_zero, value]
      ring
    | succ i =>
      simp only [List.set_cons_succ, List.getD_cons_succ, value, ih (Nat.lt_of_succ_lt_succ hi)]
      ring

/-- Two limbs are changed, and their weights. -/
theorem value_set_set (h : Within a s) {i j : Nat} (hij : i ≠ j) (hi : i < a.length)
    (hj : j < a.length) {k l : Limb} {x y : Int} (hy : Range.Mem y k.range) :
    value ((a.set j k).set i l) ((s.set j y).set i x) =
      value a s + (k.weight * y - (a.getD j default).weight * s.getD j 0) +
        (l.weight * x - (a.getD i default).weight * s.getD i 0) := by
  rw [value_set (h.set j hy) (by rwa [List.length_set]), value_set h hj, getD_set_ne a hij,
    getD_set_ne s hij]

/-! ## Limbs by their place -/

def limbs (n : Nat) (range : Nat → Range) (weight : Nat → Int) : List Limb :=
  (List.range n).map fun i => ⟨range i, weight i⟩

theorem limbs_succ (n : Nat) (range : Nat → Range) (weight : Nat → Int) :
    limbs (n + 1) range weight =
      ⟨range 0, weight 0⟩ :: limbs n (fun i => range (i + 1)) fun i => weight (i + 1) := by
  rw [limbs, List.range_succ_eq_map, List.map_cons, List.map_map]
  rfl

theorem within_limbs {n : Nat} {range : Nat → Range} {weight : Nat → Int} :
    Within (limbs n range weight) s ↔
      s.length = n ∧ ∀ i < n, Range.Mem (s.getD i 0) (range i) := by
  induction n generalizing s range weight with
  | zero =>
    constructor
    · intro h
      cases h
      exact ⟨rfl, fun i hi => absurd hi (Nat.not_lt_zero i)⟩
    · intro ⟨hlen, _⟩
      rw [List.eq_nil_of_length_eq_zero hlen]
      exact .nil
  | succ n ih =>
    rw [limbs_succ]
    constructor
    · intro h
      cases h with
      | cons hx h =>
        obtain ⟨hlen, hmem⟩ := ih.mp h
        refine ⟨congrArg (· + 1) hlen, fun i hi => ?_⟩
        cases i with
        | zero => exact hx
        | succ i => exact hmem i (Nat.lt_of_succ_lt_succ hi)
    · intro ⟨hlen, hmem⟩
      cases s with
      | nil => cases hlen
      | cons x s =>
        exact .cons (hmem 0 (Nat.succ_pos n)) (ih.mpr ⟨Nat.succ.inj hlen,
          fun i hi => hmem (i + 1) (Nat.succ_lt_succ hi)⟩)

theorem value_limbs {n : Nat} (range : Nat → Range) (weight : Nat → Int) (h : s.length = n) :
    value (limbs n range weight) s = ∑ i ∈ Finset.range n, weight i * s.getD i 0 := by
  induction n generalizing s range weight with
  | zero => rw [List.eq_nil_of_length_eq_zero h]; rfl
  | succ n ih =>
    cases s with
    | nil => cases h
    | cons x s =>
      rw [limbs_succ, value, ih _ _ (Nat.succ.inj h), Finset.sum_range_succ', add_comm]
      rfl

/-! ## Digits -/

theorem sum_digits_lt {w n : Nat} {d : Nat → Nat} (h : ∀ i < n, d i < 2 ^ w) :
    ∑ i ∈ Finset.range n, 2 ^ (w * i) * d i < 2 ^ (w * n) := by
  induction n with
  | zero => simp
  | succ n ih =>
    have hn := Nat.mul_le_mul_left (2 ^ (w * n)) (Nat.succ_le_of_lt (h n (Nat.lt_succ_self n)))
    have hlt := ih fun i hi => h i (Nat.lt_succ_of_lt hi)
    rw [Finset.sum_range_succ, Nat.mul_succ, Nat.pow_add]
    rw [Nat.succ_eq_add_one, Nat.mul_add, Nat.mul_one] at hn
    omega

/-- What is above the first digits. -/
theorem sum_digits_div {w i k : Nat} {d : Nat → Nat} (h : ∀ j < i, d j < 2 ^ w) :
    (∑ j ∈ Finset.range (i + k), 2 ^ (w * j) * d j) / 2 ^ (w * i) =
      ∑ j ∈ Finset.range k, 2 ^ (w * j) * d (i + j) := by
  have hupper : ∑ j ∈ Finset.range k, 2 ^ (w * (i + j)) * d (i + j) =
      2 ^ (w * i) * ∑ j ∈ Finset.range k, 2 ^ (w * j) * d (i + j) := by
    rw [Finset.mul_sum]
    refine Finset.sum_congr rfl fun j _ => ?_
    rw [Nat.mul_add, Nat.pow_add, Nat.mul_assoc]
  rw [Finset.sum_range_add, hupper, Nat.add_mul_div_left _ _ (Nat.two_pow_pos _),
    Nat.div_eq_of_lt (sum_digits_lt h), Nat.zero_add]

/-- **A digit** of a sum. -/
theorem digit {w n i : Nat} {d : Nat → Nat} (h : ∀ j < n, d j < 2 ^ w) (hi : i < n) :
    (∑ j ∈ Finset.range (n + 1), 2 ^ (w * j) * d j) / 2 ^ (w * i) % 2 ^ w = d i := by
  obtain ⟨k, rfl⟩ : ∃ k, n = i + (k + 1) := ⟨n - i - 1, by omega⟩
  rw [Nat.add_assoc i, sum_digits_div fun j hj => h j (by omega), Finset.sum_range_succ']
  have hrest : ∑ j ∈ Finset.range (k + 1), 2 ^ (w * (j + 1)) * d (i + (j + 1)) =
      2 ^ w * ∑ j ∈ Finset.range (k + 1), 2 ^ (w * j) * d (i + (j + 1)) := by
    rw [Finset.mul_sum]
    refine Finset.sum_congr rfl fun j _ => ?_
    rw [Nat.mul_succ, Nat.pow_add]
    ring
  rw [hrest, Nat.mul_zero, Nat.pow_zero, Nat.one_mul, Nat.mul_add_mod]
  exact Nat.mod_eq_of_lt (h i hi)

theorem last_digit {w n : Nat} {d : Nat → Nat} (h : ∀ j < n, d j < 2 ^ w) :
    (∑ j ∈ Finset.range (n + 1), 2 ^ (w * j) * d j) / 2 ^ (w * n) = d n := by
  rw [sum_digits_div (k := 1) h]
  simp

/-- The digits of a number, the last of them with what is above. -/
theorem sum_digits (w n N : Nat) :
    ∑ i ∈ Finset.range n, 2 ^ (w * i) * (N / 2 ^ (w * i) % 2 ^ w) +
      2 ^ (w * n) * (N / 2 ^ (w * n)) = N := by
  induction n with
  | zero => simp
  | succ n ih =>
    have hdiv : N / 2 ^ (w * (n + 1)) = N / 2 ^ (w * n) / 2 ^ w := by
      rw [Nat.mul_succ, Nat.pow_add, Nat.div_div_eq_div_mul]
    have hsplit := Nat.mod_add_div (N / 2 ^ (w * n)) (2 ^ w)
    rw [Finset.sum_range_succ, hdiv, Nat.mul_succ, Nat.pow_add, Nat.mul_assoc, Nat.add_assoc,
      ← Nat.mul_add, hsplit, ih]

/-- The first `n` digits of a number, and what is above them. -/
def digitsOf (w n N : Nat) : List Nat :=
  (List.range n).map (fun i => N / 2 ^ (w * i) % 2 ^ w) ++ [N / 2 ^ (w * n)]

theorem digitsOf_lt {w n N i : Nat} (hi : i < n) :
    (digitsOf w n N).getD i 0 = N / 2 ^ (w * i) % 2 ^ w := by
  have hlen : i < ((List.range n).map fun i => N / 2 ^ (w * i) % 2 ^ w).length := by
    rwa [List.length_map, List.length_range]
  rw [digitsOf, List.getD_append _ _ _ _ hlen, List.getD_eq_getElem _ _ hlen, List.getElem_map,
    List.getElem_range]

theorem digitsOf_last (w n N : Nat) : (digitsOf w n N).getD n 0 = N / 2 ^ (w * n) := by
  have hlen : ((List.range n).map fun i => N / 2 ^ (w * i) % 2 ^ w).length = n := by
    rw [List.length_map, List.length_range]
  rw [digitsOf, List.getD_append_right _ _ _ _ (Nat.le_of_eq hlen), hlen, Nat.sub_self]
  rfl

theorem sum_digitsOf (w n N : Nat) :
    ∑ i ∈ Finset.range (n + 1), 2 ^ (w * i) * (digitsOf w n N).getD i 0 = N := by
  rw [Finset.sum_range_succ, digitsOf_last]
  refine Eq.trans (congrArg (· + _) (Finset.sum_congr rfl fun i hi => ?_)) (sum_digits w n N)
  rw [digitsOf_lt (Finset.mem_range.mp hi)]

/-! ## Programs that keep the number -/

/-- What is left below `w` bits. -/
theorem carry_mem (t r : Int) (w : Nat) :
    Range.Mem (t - r - t >>> w * (2 ^ w : Nat)) ⟨-r, (2 ^ w : Nat) - 1 - r⟩ := by
  have hpos : (0 : Int) < (2 ^ w : Nat) := Int.natCast_pos.mpr (Nat.two_pow_pos w)
  have hlo := Int.emod_nonneg t (Int.ne_of_gt hpos)
  have hhi := Int.emod_lt_of_pos t hpos
  have hdiv := Int.mul_ediv_add_emod t (2 ^ w : Nat)
  rw [Int.shiftRight_eq_div_pow, Int.mul_comm]
  refine ⟨?_, ?_⟩
  · show -r ≤ _
    omega
  · show _ ≤ ((2 ^ w : Nat) : Int) - 1 - r
    omega

/-- **A step that is safe** runs, and keeps the number modulo `M`. -/
theorem Op.bound_run {M : Int} {b : Nat} {weight : Nat → Int} {op : Op} (hop : op.Safe M b a)
    (h : Within a s) : ∃ s', op.run b s = some s' ∧ Within (op.bound weight a) s' ∧
      value (op.bound weight a) s' ≡ value a s [ZMOD M] := by
  cases op with
  | carry i r w j m =>
    obtain ⟨hij, hi, hj, ht, hp, hy, hq, hx, k, hk⟩ := hop
    have hmt : Range.Mem (s.getD i 0 + r) _ :=
      (h.getD i).add (c := ⟨r, r⟩) ⟨Int.le_refl _, Int.le_refl _⟩
    have hmc := hmt.shift w
    have hmy := (h.getD j).add (hmc.scale m)
    have hmx := carry_mem (s.getD i 0 + r) r w
    rw [Int.add_sub_cancel] at hmx
    have hrun : (Op.carry i r w j m).run b s = some
        ((s.set j (s.getD j 0 + (s.getD i 0 + r) >>> w * m)).set i
          (s.getD i 0 - (s.getD i 0 + r) >>> w * (2 ^ w : Nat))) := by
      simp only [Op.run, hmt.fit ht, (hmc.scale m).fit hp, hmy.fit hy, (hmc.scale (2 ^ w)).fit hq,
        hmx.fit hx, Option.bind_eq_bind, Option.bind_some]
    refine ⟨_, hrun, (h.set j hmy).set i hmx, Int.modEq_iff_dvd.mpr ?_⟩
    rw [Op.bound, value_set_set h hij hi hj hmy]
    -- what limb `i` loses is what limb `j` gets, up to a multiple of `M`
    refine ⟨k * (s.getD i 0 + r) >>> w, ?_⟩
    rw [← mul_assoc, ← hk]
    ring
  | add j i m =>
    obtain ⟨hij, hi, hj, hp, hy⟩ := hop
    have hmp := (h.getD i).scale m
    have hmy := (h.getD j).add hmp
    have hrun : (Op.add j i m).run b s = some (s.set j (s.getD j 0 + s.getD i 0 * m)) := by
      simp only [Op.run, hmp.fit hp, hmy.fit hy, Option.bind_eq_bind, Option.bind_some]
    have hset : s.set j (s.getD j 0 + s.getD i 0 * m) =
        (s.set j (s.getD j 0 + s.getD i 0 * m)).set i (s.getD i 0) := (set_getD_ne s hij _).symm
    refine ⟨_, hrun, ?_, ?_⟩
    · rw [hset]
      exact (h.set j hmy).set i (h.getD i)
    · rw [hset, Op.bound, value_set_set h hij hi hj hmy]
      refine congrArg (· % M) ?_
      ring
  | sub j i m =>
    obtain ⟨hij, hi, hj, hp, hy⟩ := hop
    have hmp := (h.getD i).scale m
    have hmy := (h.getD j).sub hmp
    have hrun : (Op.sub j i m).run b s = some (s.set j (s.getD j 0 - s.getD i 0 * m)) := by
      simp only [Op.run, hmp.fit hp, hmy.fit hy, Option.bind_eq_bind, Option.bind_some]
    have hset : s.set j (s.getD j 0 - s.getD i 0 * m) =
        (s.set j (s.getD j 0 - s.getD i 0 * m)).set i (s.getD i 0) := (set_getD_ne s hij _).symm
    refine ⟨_, hrun, ?_, ?_⟩
    · rw [hset]
      exact (h.set j hmy).set i (h.getD i)
    · rw [hset, Op.bound, value_set_set h hij hi hj hmy]
      refine congrArg (· % M) ?_
      ring
  | clear i =>
    obtain ⟨hi, hw⟩ := hop
    have hmx : Range.Mem 0 ⟨0, 0⟩ := ⟨Int.le_refl 0, Int.le_refl 0⟩
    refine ⟨_, rfl, h.set i hmx, Int.modEq_iff_dvd.mpr ?_⟩
    rw [Op.bound, value_set h hi]
    have hsub : value a s - (value a s + (weight i * 0 -
        (a.getD i default).weight * s.getD i 0)) = (a.getD i default).weight * s.getD i 0 := by
      ring
    rw [hsub]
    exact hw.mul_right _

theorem Covers.within {M : Int} {c : List Limb} (h : Covers M a c) (hs : Within a s) :
    Within c s ∧ value c s ≡ value a s [ZMOD M] := by
  induction h generalizing s with
  | nil => cases hs; exact ⟨.nil, rfl⟩
  | cons hlk _ ih =>
    cases hs with
    | cons hx hs =>
      obtain ⟨hin, hvalue⟩ := ih hs
      exact ⟨.cons (hx.mono hlk.1) hin,
        ((Int.modEq_iff_dvd.mpr hlk.2).mul_right _).add hvalue⟩

/-- **A program with a certificate** runs, and keeps the number modulo `M`. -/
theorem Certified.run {M : Int} {b : Nat} {weight : Nat → Int} {ops : List Op} {c : List Limb}
    (hops : Certified M b weight ops a c) (h : Within a s) : ∃ s', Limbs.run b ops s = some s' ∧
      Within c s' ∧ value c s' ≡ value a s [ZMOD M] := by
  induction ops generalizing a s with
  | nil =>
    obtain ⟨hin, hvalue⟩ := hops.within h
    exact ⟨s, rfl, hin, hvalue⟩
  | cons op ops ih =>
    obtain ⟨s₁, hrun, hin, hvalue⟩ := @Op.bound_run a s M b weight op hops.1 h
    obtain ⟨s₂, hrun₂, hin₂, hvalue₂⟩ := ih hops.2 hin
    exact ⟨s₂, by rw [Limbs.run, hrun, Option.bind_some, hrun₂], hin₂, hvalue₂.trans hvalue⟩

end

end Rxs.Core.Limbs
