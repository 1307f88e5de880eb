import Mathlib.Data.Nat.Notation
import Mathlib.Logic.Function.Basic

/-!
# Cells that are written before they are read

A cell has no value before it is written; to read it then is a fault, and so is any access that
is outside. A program that runs without a fault on cells with no values does not depend on what
memory holds before: on any memory it does the same.

* `Does`: from cells with `P` there is no fault, and what holds behind it; rules for the parts of
  a program.
* `Same`: two programs leave the same cells.
* `Persists`: more values before, the same result, and more values behind.
* **`independent`**: the result on any memory.
-/
namespace Rxs.Core.Unwritten

inductive Fault where
  | unwritten (i : ℕ)
  | outside (i : ℕ)
  deriving DecidableEq, Repr

abbrev Cells (B : Type) := ℕ → Option B

/-- A program over cells. -/
abbrev Prog (B α : Type) := StateT (Cells B) (Except Fault) α

variable {B α β : Type}

def read (size i : ℕ) : Prog B B := fun m =>
  if i < size then
    match m i with
    | none => .error (.unwritten i)
    | some b => .ok (b, m)
  else .error (.outside i)

def write (size i : ℕ) (b : B) : Prog B Unit := fun m =>
  if i < size then .ok ((), Function.update m i (some b)) else .error (.outside i)

/-- One part for each element, each from what the one before leaves. -/
def each (body : α → β → Prog B β) : List α → β → Prog B β
  | [], x => pure x
  | i :: is, x => do
    let x ← body i x
    each body is x

/-! ## No faults -/

def Does (P : Cells B → Prop) (f : Prog B α) (Q : α → Cells B → Prop) : Prop :=
  ∀ m, P m → ∃ a m', f m = .ok (a, m') ∧ Q a m'

variable {P : Cells B → Prop}

theorem Does.pure {Q : α → Cells B → Prop} {a : α} (h : ∀ m, P m → Q a m) :
    Does P (pure a) Q :=
  fun m hm => ⟨a, m, rfl, h m hm⟩

theorem Does.bind {f : Prog B α} {g : α → Prog B β} {Q : α → Cells B → Prop}
    {R : β → Cells B → Prop} (hf : Does P f Q) (hg : ∀ a, Does (Q a) (g a) R) :
    Does P (f >>= g) R := by
  intro m hm
  obtain ⟨a, m₁, h₁, hQ⟩ := hf m hm
  obtain ⟨b, m₂, h₂, hR⟩ := hg a m₁ hQ
  refine ⟨b, m₂, ?_, hR⟩
  simp only [Bind.bind, StateT.bind, h₁, Except.bind, h₂]

theorem Does.mono {f : Prog B α} {P' : Cells B → Prop} {Q Q' : α → Cells B → Prop}
    (h : Does P f Q) (hP : ∀ m, P' m → P m) (hQ : ∀ a m, Q a m → Q' a m) : Does P' f Q' := by
  intro m hm
  obtain ⟨a, m', hf, hq⟩ := h m (hP m hm)
  exact ⟨a, m', hf, hQ a m' hq⟩

/-- What holds before of values only. -/
theorem Does.assume {f : Prog B α} {Q : α → Cells B → Prop} {φ : Prop} (h : ∀ m, P m → φ)
    (hf : φ → Does P f Q) : Does P f Q :=
  fun m hm => hf (h m hm) m hm

theorem Does.read {size i : ℕ} (hi : i < size) (h : ∀ m, P m → (m i).isSome) :
    Does P (read size i) fun _ => P := by
  intro m hm
  obtain ⟨b, hb⟩ := Option.isSome_iff_exists.mp (h m hm)
  exact ⟨b, m, by simp only [Unwritten.read, hi, if_true, hb], hm⟩

theorem Does.write {size i : ℕ} {b : B} {Q : Cells B → Prop} (hi : i < size)
    (h : ∀ m, P m → Q (Function.update m i (some b))) : Does P (write size i b) fun _ => Q := by
  intro m hm
  exact ⟨(), _, by simp only [Unwritten.write, hi, if_true], h m hm⟩

/-- **A loop** over the numbers from `i` on; the invariant has the number and the value. -/
theorem Does.each {body : ℕ → β → Prog B β} {I : ℕ → β → Cells B → Prop} (n i : ℕ) {x : β}
    (h : ∀ j x, i ≤ j → j < i + n → Does (I j x) (body j x) (I (j + 1))) :
    Does (I i x) (each body (List.range' i n) x) (I (i + n)) := by
  induction n generalizing i x with
  | zero => exact Does.pure fun m hm => hm
  | succ n ih =>
    rw [List.range'_succ]
    refine Does.bind (h i x (Nat.le_refl i) (by omega)) fun y => ?_
    have hrest := ih (i + 1) (x := y) fun j z hj hlt => h j z (by omega) (by omega)
    rwa [Nat.add_right_comm, Nat.add_assoc] at hrest

/-- What a write leaves. -/
theorem isSome_update {m : Cells B} {i j : ℕ} {b : B} (h : j ≠ i → (m j).isSome) :
    (Function.update m i (some b) j).isSome := by
  by_cases hj : j = i
  · rw [hj, Function.update_self]
    rfl
  · rw [Function.update_of_ne hj]
    exact h hj

/-! ## Two programs -/

/-- Neither has a fault, and they leave the same cells. -/
def Same (P : Cells B → Prop) (f : Prog B α) (g : Prog B β) (Q : α → β → Cells B → Prop) : Prop :=
  ∀ m, P m → ∃ a b m', f m = .ok (a, m') ∧ g m = .ok (b, m') ∧ Q a b m'

variable {γ δ : Type} {f : Prog B α} {g : Prog B β}

theorem Does.same {Q : α → Cells B → Prop} (h : Does P f Q) :
    Same P f f fun a b m => b = a ∧ Q a m := by
  intro m hm
  obtain ⟨a, m', hf, hQ⟩ := h m hm
  exact ⟨a, a, m', hf, hf, rfl, hQ⟩

theorem Same.does {R : α → Cells B → Prop} (h : Same P f g fun a _ => R a) : Does P f R := by
  intro m hm
  obtain ⟨a, -, m', hf, -, hR⟩ := h m hm
  exact ⟨a, m', hf, hR⟩

variable {Q : α → β → Cells B → Prop}

theorem Same.pure {a : α} {b : β} (h : ∀ m, P m → Q a b m) : Same P (pure a) (pure b) Q :=
  fun m hm => ⟨a, b, m, rfl, rfl, h m hm⟩

theorem Same.bind {f' : α → Prog B γ} {g' : β → Prog B δ} {R : γ → δ → Cells B → Prop}
    (h : Same P f g Q) (h' : ∀ a b, Same (Q a b) (f' a) (g' b) R) :
    Same P (f >>= f') (g >>= g') R := by
  intro m hm
  obtain ⟨a, b, m₁, hf, hg, hQ⟩ := h m hm
  obtain ⟨c, d, m₂, hf', hg', hR⟩ := h' a b m₁ hQ
  refine ⟨c, d, m₂, ?_, ?_, hR⟩
  · simp only [Bind.bind, StateT.bind, hf, Except.bind, hf']
  · simp only [Bind.bind, StateT.bind, hg, Except.bind, hg']

theorem Same.mono {P' : Cells B → Prop} {Q' : α → β → Cells B → Prop} (h : Same P f g Q)
    (hP : ∀ m, P' m → P m) (hQ : ∀ a b m, Q a b m → Q' a b m) : Same P' f g Q' := by
  intro m hm
  obtain ⟨a, b, m', hf, hg, hq⟩ := h m (hP m hm)
  exact ⟨a, b, m', hf, hg, hQ a b m' hq⟩

theorem Same.assume {φ : Prop} (h : ∀ m, P m → φ) (hf : φ → Same P f g Q) : Same P f g Q :=
  fun m hm => hf (h m hm) m hm

/-- A part that both have. -/
theorem Same.shared {h : Prog B α} {f : α → Prog B γ} {g : α → Prog B δ} {R : α → Cells B → Prop}
    {Q : γ → δ → Cells B → Prop} (hR : Does P h R) (hfg : ∀ a, Same (R a) (f a) (g a) Q) :
    Same P (h >>= f) (h >>= g) Q := by
  refine hR.same.bind fun a b => Same.assume (fun m hm => hm.1) fun hba => ?_
  subst hba
  exact (hfg b).mono (fun m hm => hm.2) fun _ _ _ hm => hm

/-- The first reads a cell of which the second knows what it has. -/
theorem Same.known {size i : ℕ} {b : B} {f : B → Prog B α} (hi : i < size)
    (h : ∀ m, P m → m i = some b) (hf : Same P (f b) g Q) : Same P (read size i >>= f) g Q := by
  intro m hm
  obtain ⟨a, c, m', hf', hg', hQ⟩ := hf m hm
  have hread : read size i m = .ok (b, m) := by simp only [read, hi, if_true, h m hm]
  refine ⟨a, c, m', ?_, hg', hQ⟩
  simp only [Bind.bind, StateT.bind, hread, Except.bind, hf']

/-- The second reads a cell that the first does not. -/
theorem Same.load {size i : ℕ} {g : B → Prog B β} (hi : i < size) (h : ∀ m, P m → (m i).isSome)
    (hg : ∀ b, Same (fun m => P m ∧ m i = some b) f (g b) Q) : Same P f (read size i >>= g) Q := by
  intro m hm
  obtain ⟨b, hb⟩ := Option.isSome_iff_exists.mp (h m hm)
  obtain ⟨a, c, m', hf', hg', hQ⟩ := hg b m ⟨hm, hb⟩
  have hread : read size i m = .ok (b, m) := by simp only [read, hi, if_true, hb]
  refine ⟨a, c, m', hf', ?_, hQ⟩
  simp only [Bind.bind, StateT.bind, hread, Except.bind, hg']

theorem Same.each {body : ℕ → α → Prog B α} {body' : ℕ → β → Prog B β}
    {I : ℕ → α → β → Cells B → Prop} (n i : ℕ) {x : α} {y : β}
    (h : ∀ j x y, i ≤ j → j < i + n → Same (I j x y) (body j x) (body' j y) (I (j + 1))) :
    Same (I i x y) (each body (List.range' i n) x) (Unwritten.each body' (List.range' i n) y)
      (I (i + n)) := by
  induction n generalizing i x y with
  | zero => exact Same.pure fun m hm => hm
  | succ n ih =>
    rw [List.range'_succ]
    refine Same.bind (h i x y (Nat.le_refl i) (by omega)) fun x' y' => ?_
    have hrest := ih (i + 1) (x := x') (y := y') fun j z w hj hlt => h j z w (by omega) (by omega)
    rwa [Nat.add_right_comm, Nat.add_assoc] at hrest

/-- **From any cells**: the programs are the same. -/
theorem Same.eq {g : Prog B α} (h : Same (fun _ => True) f g fun a b _ => b = a) : g = f := by
  funext m
  obtain ⟨a, b, m', hf, hg, rfl⟩ := h m trivial
  rw [hf, hg]

/-! ## More values -/

def Le (m n : Cells B) : Prop := ∀ i b, m i = some b → n i = some b

theorem Le.update {m n : Cells B} (h : Le m n) (i : ℕ) (b : B) :
    Le (Function.update m i (some b)) (Function.update n i (some b)) := by
  intro j c hc
  by_cases hj : j = i
  · rw [hj, Function.update_self] at hc ⊢
    exact hc
  · rw [Function.update_of_ne hj] at hc ⊢
    exact h j c hc

def Persists (f : Prog B α) : Prop :=
  ∀ m n a m', Le m n → f m = .ok (a, m') → ∃ n', f n = .ok (a, n') ∧ Le m' n'

theorem Persists.pure (a : α) : Persists (pure a : Prog B α) := by
  intro m n b m' hle h
  obtain ⟨rfl, rfl⟩ := Prod.mk.inj (Except.ok.inj h)
  exact ⟨n, rfl, hle⟩

theorem Persists.bind {f : Prog B α} {g : α → Prog B β} (hf : Persists f)
    (hg : ∀ a, Persists (g a)) : Persists (f >>= g) := by
  intro m n b m' hle h
  simp only [Bind.bind, StateT.bind, Except.bind] at h ⊢
  cases hm : f m with
  | error e =>
    rw [hm] at h
    cases h
  | ok p =>
    rw [hm] at h
    obtain ⟨n₁, hn₁, hle₁⟩ := hf m n p.1 p.2 hle hm
    rw [hn₁]
    exact hg p.1 p.2 n₁ b m' hle₁ h

theorem Persists.read (size i : ℕ) : Persists (read size i : Prog B B) := by
  intro m n b m' hle h
  simp only [Unwritten.read] at h ⊢
  split at h
  · cases hm : m i with
    | none =>
      rw [hm] at h
      cases h
    | some c =>
      rw [hm] at h
      obtain ⟨rfl, rfl⟩ := Prod.mk.inj (Except.ok.inj h)
      exact ⟨n, by rw [if_pos ‹_›, hle i c hm], hle⟩
  · cases h

theorem Persists.write (size i : ℕ) (b : B) : Persists (write size i b) := by
  intro m n a m' hle h
  simp only [Unwritten.write] at h ⊢
  split at h
  · obtain ⟨-, rfl⟩ := Prod.mk.inj (Except.ok.inj h)
    exact ⟨_, if_pos ‹_›, hle.update i b⟩
  · cases h

theorem Persists.each {body : α → β → Prog B β} (h : ∀ i x, Persists (body i x)) (is : List α)
    (x : β) : Persists (each body is x) := by
  induction is generalizing x with
  | nil => exact Persists.pure x
  | cons i is ih => exact (h i x).bind ih

/-- **What memory holds before** does not matter to a program that runs from nothing. -/
theorem independent {f : Prog B α} (hf : Persists f) {a : α} {m' : Cells B}
    (h : f (fun _ => none) = .ok (a, m')) (before : ℕ → B) :
    ∃ n', f (fun i => some (before i)) = .ok (a, n') ∧ Le m' n' :=
  hf _ _ a m' (fun _ _ hb => by cases hb) h

end Rxs.Core.Unwritten
