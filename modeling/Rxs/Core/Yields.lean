import Rxs.Core.Scanner

/-!
# Where a run ends

`Yields E c P x y Q`: a run of `x` from `P` ends in `Q`, or early, for a reason in `E`.
If `c` holds `y` does the same, state for state; where `y` is `x` this says nothing. So
`x` can be a program that goes on where `y` stops, and `c` what excludes that it has to.

`Stops x y`: `y` does what `x` does, or stops at something undefined. The rules of both
follow the operations.
-/
namespace Rxs.Core.Scanner

variable {ρ σ α β : Type}

def Yields (E : Halt ρ → Prop) (c : Prop) (P : Scan σ → Prop) (x y : Scanner ρ σ α)
    (Q : α → Scan σ → Prop) : Prop :=
  ∀ s, P s → (c → y s = x s) ∧ match x s with
    | .ok a t => Q a t
    | .error e _ => E e

namespace Yields

variable {E : Halt ρ → Prop} {c : Prop} {P : Scan σ → Prop}

theorem bind {x y : Scanner ρ σ α} {f g : α → Scanner ρ σ β} {Q : α → Scan σ → Prop}
    {R : β → Scan σ → Prop} (hx : Yields E c P x y Q) (hf : ∀ a, Yields E c (Q a) (f a) (g a) R) :
    Yields E c P (x >>= f) (y >>= g) R := by
  intro s hs
  obtain ⟨he, h⟩ := hx s hs
  change (c → EStateM.bind y g s = EStateM.bind x f s) ∧
    match EStateM.bind x f s with | .ok a t => R a t | .error e _ => E e
  unfold EStateM.bind
  cases hr : x s with
  | ok a t =>
    rw [hr] at h he
    refine ⟨fun hc => ?_, (hf a t h).2⟩
    rw [he hc]
    exact (hf a t h).1 hc
  | error e t =>
    rw [hr] at h he
    refine ⟨fun hc => ?_, h⟩
    rw [he hc]

theorem conseq {P' : Scan σ → Prop} {x y : Scanner ρ σ α} {Q Q' : α → Scan σ → Prop}
    (h : Yields E c P x y Q) (hp : ∀ s, P' s → P s) (hq : ∀ a s, Q a s → Q' a s) :
    Yields E c P' x y Q' := by
  intro s hs
  obtain ⟨he, h⟩ := h s (hp s hs)
  refine ⟨he, ?_⟩
  cases hr : x s with
  | ok a t =>
    rw [hr] at h
    exact hq a t h
  | error e t =>
    rw [hr] at h
    exact h

/-- A fact that is not about the state. -/
theorem assume {d : Prop} {x y : Scanner ρ σ α} {Q : α → Scan σ → Prop}
    (h : d → Yields E c P x y Q) : Yields E c (fun s => d ∧ P s) x y Q :=
  fun s hs => h hs.1 s hs.2

theorem pure (a : α) : Yields E c P (Pure.pure a) (Pure.pure a) fun b s => b = a ∧ P s :=
  fun _ hs => ⟨fun _ => rfl, rfl, hs⟩

theorem halt {e : Halt ρ} {Q : α → Scan σ → Prop} (h : E e) :
    Yields E c P (Scanner.halt e) (Scanner.halt e) Q := fun _ _ => ⟨fun _ => rfl, h⟩

theorem onlyIf {d : Prop} [Decidable d] {x y : Scanner ρ σ Unit} {Q : Scan σ → Prop}
    (h : d → Yields E c P x y fun _ => Q) (hn : ¬ d → ∀ s, P s → Q s) :
    Yields E c P (Scanner.onlyIf d x) (Scanner.onlyIf d y) fun _ => Q := by
  unfold Scanner.onlyIf
  by_cases hd : d
  · rw [if_pos hd, if_pos hd]
    exact h hd
  · rw [if_neg hd, if_neg hd]
    exact fun s hs => ⟨fun _ => rfl, hn hd s hs⟩

theorem update {Q : Scan σ → Prop} (f : σ → σ) (h : ∀ s, P s → Q { s with data := f s.data }) :
    Yields E c P (Scanner.update f) (Scanner.update f) fun _ => Q :=
  fun s hs => ⟨fun _ => rfl, h s hs⟩

theorem peek (i n : Nat) (h : E .undefined) :
    Yields E c P (Scanner.peek i n) (Scanner.peek i n) fun _ => P := by
  intro s hs
  refine ⟨fun _ => rfl, ?_⟩
  unfold Scanner.peek
  by_cases hn : i + n ≤ s.mem.length
  · rw [if_pos hn]
    exact hs
  · rw [if_neg hn]
    exact h

/-- The invariant is carried by the body, the end by the condition. -/
theorem loop {I J Q : α → Scan σ → Prop} {cond : α → Scanner ρ σ Bool}
    {body body' : α → Scanner ρ σ α} (hE : E .fuel)
    (hc : ∀ a, Yields E c (I a) (cond a) (cond a) fun go s => if go then J a s else Q a s)
    (hb : ∀ a, Yields E c (J a) (body a) (body' a) I) (fuel : Nat) (a : α) :
    Yields E c (I a) (Scanner.loop cond body fuel a) (Scanner.loop cond body' fuel a) Q := by
  induction fuel generalizing a with
  | zero => exact .halt hE
  | succ fuel ih =>
    refine (hc a).bind fun go => ?_
    cases go with
    | false => exact fun s hs => ⟨fun _ => rfl, hs⟩
    | true => exact (hb a).bind fun b => ih b

end Yields

def Stops (x y : Scanner ρ σ α) : Prop := ∀ s, y s = x s ∨ ∃ t, y s = .error .undefined t

namespace Stops

theorem refl (x : Scanner ρ σ α) : Stops x x := fun _ => .inl rfl

theorem bind {x y : Scanner ρ σ α} {f g : α → Scanner ρ σ β} (hx : Stops x y)
    (hf : ∀ a, Stops (f a) (g a)) : Stops (x >>= f) (y >>= g) := by
  intro s
  change EStateM.bind y g s = EStateM.bind x f s ∨ ∃ t, EStateM.bind y g s = .error .undefined t
  unfold EStateM.bind
  rcases hx s with h | ⟨t, h⟩
  · rw [h]
    cases x s with
    | ok a t => exact hf a t
    | error e t => exact .inl rfl
  · rw [h]
    exact .inr ⟨t, rfl⟩

theorem onlyIf {d : Prop} [Decidable d] {x y : Scanner ρ σ Unit} (h : Stops x y) :
    Stops (Scanner.onlyIf d x) (Scanner.onlyIf d y) := by
  unfold Scanner.onlyIf
  split
  · exact h
  · exact .refl _

theorem loop {cond : α → Scanner ρ σ Bool} {body body' : α → Scanner ρ σ α}
    (hb : ∀ a, Stops (body a) (body' a)) (fuel : Nat) (a : α) :
    Stops (Scanner.loop cond body fuel a) (Scanner.loop cond body' fuel a) := by
  induction fuel generalizing a with
  | zero => exact .refl _
  | succ fuel ih =>
    refine (Stops.refl (cond a)).bind fun go => ?_
    cases go with
    | false => exact .refl _
    | true => exact (hb a).bind ih

end Stops

end Rxs.Core.Scanner
