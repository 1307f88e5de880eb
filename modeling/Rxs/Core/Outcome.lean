import Mathlib.Logic.Basic

/-!
# What a computation may end in

A computation in `Except ε` ends in a value or in an error. `Ends E Q` says that its
values satisfy `Q` and that its errors are among those of `E`; with `E` empty it is total
correctness. The rules follow the structure of a program: a value, an error, one
computation after another, a choice.

`Settled e m m'` is about a computation on some fuel and on more: `m` gives up with `e`, or
both end in the same.
-/
namespace Rxs.Core

variable {ε α β : Type} {E : ε → Prop} {P Q : α → Prop} {R : β → Prop}

/-- A value of `Q`, or an error of `E`. -/
def Ends (E : ε → Prop) (Q : α → Prop) : Except ε α → Prop
  | .ok a => Q a
  | .error e => E e

namespace Ends

theorem pure {a : α} (h : Q a) : Ends E Q (Pure.pure a) := h

theorem throw {e : ε} (h : E e) : Ends E Q (MonadExcept.throw e) := h

/-- Where nothing is asked. -/
theorem any (m : Except ε α) : Ends (fun _ => True) (fun _ => True) m := by
  cases m <;> trivial

theorem mono {m : Except ε α} (h : Ends E P m) (hpq : ∀ a, P a → Q a) : Ends E Q m := by
  cases m with
  | ok a => exact hpq a h
  | error e => exact h

/-- **One after the other.** -/
theorem bind {m : Except ε α} {f : α → Except ε β} (h : Ends E P m)
    (hf : ∀ a, P a → Ends E R (f a)) : Ends E R (m >>= f) := by
  cases m with
  | ok a => exact hf a h
  | error e => exact h

/-- A check, and what is behind it. -/
theorem check {p : Prop} [Decidable p] {e : ε} {m : Except ε α} (hp : p → E e)
    (hm : ¬ p → Ends E Q m) : Ends E Q (if p then MonadExcept.throw e else m) := by
  split
  · exact hp ‹_›
  · exact hm ‹_›

theorem ite {p : Prop} [Decidable p] {m m' : Except ε α} (hm : p → Ends E Q m)
    (hm' : ¬ p → Ends E Q m') : Ends E Q (if p then m else m') := by
  split
  · exact hm ‹_›
  · exact hm' ‹_›

/-- Where no error that may be is left out, there is a value. -/
theorem exists_ok {m : Except ε α} (h : Ends E Q m) (hm : ∀ e, E e → m ≠ .error e) :
    ∃ a, m = .ok a ∧ Q a := by
  cases m with
  | ok a => exact ⟨a, rfl, h⟩
  | error e => exact absurd rfl (hm e h)

end Ends

/-- `m` has given up, or `m'` ends as it does. -/
def Settled (e : ε) (m m' : Except ε α) : Prop := m = .error e ∨ m' = m

namespace Settled

variable {e : ε} {m m' : Except ε α}

theorem refl : Settled e m m := .inr rfl

/-- **One after the other.** -/
theorem bind {f f' : α → Except ε β} (h : Settled e m m') (hf : ∀ a, Settled e (f a) (f' a)) :
    Settled e (m >>= f) (m' >>= f') := by
  obtain rfl | rfl := h
  · exact .inl rfl
  · cases m' with
    | ok a => exact hf a
    | error _ => exact .inr rfl

theorem ite {p : Prop} [Decidable p] {n n' : Except ε α} (hm : Settled e m m')
    (hn : Settled e n n') : Settled e (if p then m else n) (if p then m' else n') := by
  split
  · exact hm
  · exact hn

/-- Who has not given up has settled. -/
theorem eq (h : Settled e m m') (hm : m ≠ .error e) : m' = m := h.resolve_left hm

end Settled

end Rxs.Core
