import Mathlib.Logic.Function.Basic

/-!
# Registers whose accesses may fail

A computation reads and writes registers, one access after another; an oracle says of each
access whether it succeeds. A write that fails changes nothing.

`Writes P x` says that after `x` each register is as it was or has a value that `P` allows,
`Settles P i Q x` that where `x` ends in `Q` the register `i` has such a value. The rules follow
the operations.
-/
namespace Rxs.Core.Registers

variable {ι α β γ : Type}

/-- The values, and how many accesses were made. -/
structure Bank (ι α : Type) where
  value : ι → α
  count : Nat

abbrev Op (ι α : Type) := StateM (Bank ι α)

/-- Which accesses succeed, by their number. -/
structure Oracle (ι α : Type) where
  read : Nat → ι → Bool
  write : Nat → ι → α → Bool

def read (o : Oracle ι α) (i : ι) : Op ι α (Option α) := fun b =>
  (if o.read b.count i then some (b.value i) else none, { b with count := b.count + 1 })

def write [DecidableEq ι] (o : Oracle ι α) (i : ι) (a : α) : Op ι α Bool := fun b =>
  if o.write b.count i a then (true, ⟨Function.update b.value i a, b.count + 1⟩)
  else (false, { b with count := b.count + 1 })

@[simp] theorem pure_apply (a : β) (b : Bank ι α) : (pure a : Op ι α β) b = (a, b) := rfl

/-! ## What is asked -/

def Writes (P : ι → α → Prop) (x : Op ι α β) : Prop :=
  ∀ b i, (x b).2.value i = b.value i ∨ P i ((x b).2.value i)

def Settles (P : ι → α → Prop) (i : ι) (Q : β → Prop) (x : Op ι α β) : Prop :=
  ∀ b, Q (x b).1 → P i ((x b).2.value i)

variable {P P' : ι → α → Prop} {i : ι} {Q R : β → Prop} {S : γ → Prop}

namespace Writes

theorem pure (a : β) : Writes P (Pure.pure a : Op ι α β) := fun _ _ => Or.inl rfl

theorem read (o : Oracle ι α) (i : ι) : Writes P (Registers.read o i) := fun _ _ => Or.inl rfl

theorem write [DecidableEq ι] (o : Oracle ι α) {i : ι} {a : α}
    (h : ∀ n, o.write n i a = true → P i a) : Writes P (Registers.write o i a) := by
  intro b j
  unfold Registers.write
  split
  case isTrue hok =>
    by_cases hj : j = i
    · subst hj
      right
      dsimp only
      rw [Function.update_self]
      exact h b.count hok
    · exact Or.inl (Function.update_of_ne hj _ _)
  case isFalse => exact Or.inl rfl

/-- What comes second knows of a run of what came first. -/
theorem bind {x : Op ι α β} {f : β → Op ι α γ} (hx : Writes P x)
    (hf : ∀ b, Writes P (f (x b).1)) : Writes P (x >>= f) := by
  intro b i
  change ((f (x b).1) (x b).2).2.value i = _ ∨ P i (((f (x b).1) (x b).2).2.value i)
  rcases hf b (x b).2 i with h | h
  · rw [h]
    exact hx b i
  · exact Or.inr h

theorem ite {c : Prop} [Decidable c] {x y : Op ι α β} (hx : c → Writes P x)
    (hy : ¬c → Writes P y) : Writes P (if c then x else y) := by
  split
  · exact hx ‹_›
  · exact hy ‹_›

theorem mono {x : Op ι α β} (h : Writes P x) (hp : ∀ i a, P i a → P' i a) : Writes P' x :=
  fun b i => (h b i).imp id (hp i _)

end Writes

namespace Settles

theorem write [DecidableEq ι] (o : Oracle ι α) {i : ι} {a : α} (h : P i a) :
    Settles P i (· = true) (Registers.write o i a) := by
  intro b hb
  unfold Registers.write at hb ⊢
  split
  case isTrue =>
    dsimp only
    rw [Function.update_self]
    exact h
  case isFalse hok =>
    rw [if_neg hok] at hb
    cases hb

/-- What was settled stays so. -/
theorem bind_left {x : Op ι α β} {f : β → Op ι α γ} (hx : Settles P i Q x)
    (hf : ∀ a, Writes P (f a)) (hq : ∀ a b, S (f a b).1 → Q a) : Settles P i S (x >>= f) := by
  intro b hb
  have hb : S (f (x b).1 (x b).2).1 := hb
  change P i ((f (x b).1 (x b).2).2.value i)
  rcases hf (x b).1 (x b).2 i with h | h
  · rw [h]
    exact hx b (hq _ _ hb)
  · exact h

theorem bind_right {x : Op ι α β} {f : β → Op ι α γ} (hf : ∀ a, Settles P i S (f a)) :
    Settles P i S (x >>= f) :=
  fun b hb => hf (x b).1 (x b).2 hb

end Settles

end Rxs.Core.Registers
