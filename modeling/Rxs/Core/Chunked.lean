import Mathlib.Tactic.Common

/-!
# Consumers of a stream that arrives in chunks

A consumer takes a state and a chunk and returns a state and what it gives out.
`Follows` says in one rule what a chunk must do for the outputs to depend on the
stream alone: `out` is what the stream so far gives, and `R` ties the state to it.

* `Follows.feed`: all chunks, from the rule for one.
-/
namespace Rxs.Core.Chunked

variable {σ α β : Type*}

/-- All chunks, one after the other. -/
def feed (f : σ → List α → σ × List β) : σ → List (List α) → σ × List β
  | s, [] => (s, [])
  | s, c :: cs =>
    let r := f s c
    let t := feed f r.1 cs
    (t.1, r.2 ++ t.2)

/-- What the state and the outputs are of the stream so far, chunk by chunk, as long
as the stream is one of `Pre`. -/
structure Follows (f : σ → List α → σ × List β) (out : List α → List β) (Pre : List α → Prop)
    (R : List α → σ → Prop) : Prop where
  before : ∀ seen c, Pre (seen ++ c) → Pre seen
  step : ∀ seen s c, R seen s → Pre (seen ++ c) →
    out (seen ++ c) = out seen ++ (f s c).2 ∧ R (seen ++ c) (f s c).1

variable {f : σ → List α → σ × List β} {out : List α → List β} {Pre : List α → Prop}
  {R : List α → σ → Prop}

/-- **All chunks** give what the stream gives. -/
theorem Follows.feed (h : Follows f out Pre R) {seen : List α} {s : σ} (cs : List (List α))
    (hs : R seen s) (hpre : Pre (seen ++ cs.flatten)) :
    out (seen ++ cs.flatten) = out seen ++ (Chunked.feed f s cs).2 ∧
      R (seen ++ cs.flatten) (Chunked.feed f s cs).1 := by
  induction cs generalizing seen s with
  | nil =>
    simp only [List.flatten_nil, List.append_nil]
    exact ⟨(List.append_nil _).symm, hs⟩
  | cons c cs ih =>
    rw [List.flatten_cons, ← List.append_assoc] at hpre ⊢
    obtain ⟨hout, hr⟩ := h.step seen s c hs (h.before _ _ hpre)
    obtain ⟨hout', hr'⟩ := ih hr hpre
    refine ⟨?_, hr'⟩
    rw [hout', hout, List.append_assoc]
    rfl

end Rxs.Core.Chunked
