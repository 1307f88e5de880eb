import Mathlib.Logic.Relation
import Mathlib.Tactic.Common

/-!
# Labelled transition systems: runs, reachable states, invariants, restrictions

Every concurrent part of the miner is a step function `σ → ℓ → Option σ`: the
label says which thread moves (and how its environment answers), `none` says
that the thread cannot move. `LTS.ofFn` turns it into a transition relation.

* `LTS.Run`: a finite run with its labels, `LTS.Reachable`: the end of a run
  from an initial state.
* `LTS.Inductive`: holds initially and across every step; `Inductive.reachable`
  and `Inductive.run` are the two induction rules.
* `LTS.restrict`: the runs every step of which meets a condition on the state
  before it. A law that the whole system breaks is stated for such a
  restriction; `Run.of_restrict` brings the run back to the whole system.
* `LTS.exec`: the executable run; `run_of_exec` and `run_of_execOk` turn an
  evaluation into a run of the system, or of a restriction of it.
* `Sim`: a projection that maps every step to a step or to nothing; reachable
  states map to reachable states (`Sim.reachable`, and `Inductive.simulates`
  where the steps start in states of an invariant).
* `Run.count_le_measure`: labels that cost one unit of a measure no other label
  raises occur at most as often as the measure was large.
* `Run.reaches`: until a goal is reached each step is paid from a measure, which
  some steps raise.
-/
namespace Rxs.Core

structure LTS (σ ℓ : Type) where
  init : σ → Prop
  step : σ → ℓ → σ → Prop

namespace LTS

variable {σ ℓ : Type}

inductive Run (M : LTS σ ℓ) : σ → List ℓ → σ → Prop where
  | nil (s : σ) : Run M s [] s
  | cons {s s' s'' : σ} {l : ℓ} {ls : List ℓ} :
      M.step s l s' → Run M s' ls s'' → Run M s (l :: ls) s''

def Reachable (M : LTS σ ℓ) (s : σ) : Prop := ∃ s₀ ls, M.init s₀ ∧ M.Run s₀ ls s

/-- `P` holds initially and across every step. -/
structure Inductive (M : LTS σ ℓ) (P : σ → Prop) : Prop where
  init : ∀ s, M.init s → P s
  step : ∀ s l s', P s → M.step s l s' → P s'

def ofFn (s₀ : σ) (f : σ → ℓ → Option σ) : LTS σ ℓ where
  init s := s = s₀
  step s l s' := f s l = some s'

/-- The runs of `M` whose every step meets `ok` in the state before it. -/
def restrict (M : LTS σ ℓ) (ok : σ → ℓ → Prop) : LTS σ ℓ where
  init := M.init
  step s l s' := ok s l ∧ M.step s l s'

variable {M : LTS σ ℓ}

theorem Run.append {s s' s'' : σ} {ls ls' : List ℓ} (h : M.Run s ls s') (h' : M.Run s' ls' s'') :
    M.Run s (ls ++ ls') s'' := by
  induction h with
  | nil => exact h'
  | cons hs _ ih => exact .cons hs (ih h')

theorem Reachable.init {s : σ} (h : M.init s) : M.Reachable s := ⟨s, [], h, .nil s⟩

theorem Reachable.run {s s' : σ} {ls : List ℓ} (h : M.Reachable s) (r : M.Run s ls s') :
    M.Reachable s' := by
  obtain ⟨s₀, ls₀, h₀, r₀⟩ := h
  exact ⟨s₀, ls₀ ++ ls, h₀, r₀.append r⟩

theorem Reachable.step {s s' : σ} {l : ℓ} (h : M.Reachable s) (hs : M.step s l s') :
    M.Reachable s' :=
  h.run (.cons hs (.nil _))

/-- The run rule: what every step preserves, a whole run preserves. -/
theorem Run.preserves {P : σ → Prop} {s s' : σ} {ls : List ℓ} (r : M.Run s ls s')
    (hstep : ∀ s l s', P s → M.step s l s' → P s') (h : P s) : P s' := by
  induction r with
  | nil => exact h
  | cons hs _ ih => exact ih (hstep _ _ _ h hs)

theorem Inductive.run {P : σ → Prop} (I : M.Inductive P) {s s' : σ} {ls : List ℓ}
    (r : M.Run s ls s') (h : P s) : P s' :=
  r.preserves I.step h

theorem Inductive.reachable {P : σ → Prop} (I : M.Inductive P) {s : σ} (h : M.Reachable s) :
    P s := by
  obtain ⟨s₀, ls, h₀, r⟩ := h
  exact I.run r (I.init s₀ h₀)

/-- Invariant rule with what is already known of reachable states. -/
theorem reachable_induction {P : σ → Prop} (hinit : ∀ s, M.init s → P s)
    (hstep : ∀ s l s', M.Reachable s → P s → M.step s l s' → P s') {s : σ}
    (h : M.Reachable s) : P s := by
  have I : M.Inductive fun s => M.Reachable s ∧ P s :=
    { init := fun s hs => ⟨.init hs, hinit s hs⟩
      step := fun s l s' hs hst => ⟨hs.1.step hst, hstep s l s' hs.1 hs.2 hst⟩ }
  exact (I.reachable h).2

/-! ## Restrictions -/

theorem Run.of_restrict {ok : σ → ℓ → Prop} {s s' : σ} {ls : List ℓ}
    (r : (M.restrict ok).Run s ls s') : M.Run s ls s' := by
  induction r with
  | nil => exact .nil _
  | cons hs _ ih => exact .cons hs.2 ih

/-- A run whose labels meet a condition is one of the restriction to it. -/
theorem Run.restrict {p : ℓ → Prop} {s s' : σ} {ls : List ℓ} (r : M.Run s ls s')
    (h : ∀ l ∈ ls, p l) : (M.restrict fun _ l => p l).Run s ls s' := by
  induction r with
  | nil => exact .nil _
  | cons hs _ ih =>
    obtain ⟨hl, hls⟩ := List.forall_mem_cons.mp h
    exact .cons ⟨hl, hs⟩ (ih hls)

theorem Reachable.of_restrict {ok : σ → ℓ → Prop} {s : σ} (h : (M.restrict ok).Reachable s) :
    M.Reachable s := by
  obtain ⟨s₀, ls, h₀, r⟩ := h
  exact ⟨s₀, ls, h₀, r.of_restrict⟩

/-- An invariant of the whole system is one of each restriction. -/
theorem Inductive.restrict {P : σ → Prop} (I : M.Inductive P) (ok : σ → ℓ → Prop) :
    (M.restrict ok).Inductive P where
  init := I.init
  step s l s' h hs := I.step s l s' h hs.2

/-! ## Projections -/

/-- A projection that maps the steps from states of an invariant. -/
theorem Inductive.simulates {τ κ : Type} {N : LTS τ κ} {P : σ → Prop} (I : M.Inductive P)
    {f : σ → τ} (hinit : ∀ s, M.init s → N.init (f s))
    (hstep : ∀ s l s', P s → M.step s l s' → f s' = f s ∨ ∃ k, N.step (f s) k (f s')) {s : σ}
    (h : M.Reachable s) : N.Reachable (f s) := by
  have I' : M.Inductive fun s => P s ∧ N.Reachable (f s) :=
    { init := fun s hs => ⟨I.init s hs, .init (hinit s hs)⟩
      step := fun s l s' hs hst => by
        refine ⟨I.step s l s' hs.1 hst, ?_⟩
        rcases hstep s l s' hs.1 hst with e | ⟨k, hk⟩
        · rw [e]; exact hs.2
        · exact hs.2.step hk }
  exact (I'.reachable h).2

/-- `f` maps every step of `M` to a step of `N`, or to no step at all. -/
structure Sim {τ κ : Type} (M : LTS σ ℓ) (N : LTS τ κ) (f : σ → τ) : Prop where
  init : ∀ s, M.init s → N.init (f s)
  step : ∀ s l s', M.step s l s' → f s' = f s ∨ ∃ k, N.step (f s) k (f s')

theorem Sim.reachable {τ κ : Type} {N : LTS τ κ} {f : σ → τ} (S : Sim M N f) {s : σ}
    (h : M.Reachable s) : N.Reachable (f s) := by
  have I : M.Inductive fun _ => True := ⟨fun _ _ => trivial, fun _ _ _ _ _ => trivial⟩
  exact I.simulates S.init (fun s l s' _ => S.step s l s') h

/-! ## Progress measures -/

/-- If a label satisfying `p` costs at least one unit of `μ` and no other label
raises `μ`, a run has at most `μ s` labels satisfying `p`. `P` is an invariant
the costs may rely on. -/
theorem Run.count_le_measure {P : σ → Prop} (μ : σ → Nat) (p : ℓ → Bool)
    (hP : ∀ s l s', P s → M.step s l s' → P s')
    (hle : ∀ s l s', P s → M.step s l s' → μ s' ≤ μ s)
    (hlt : ∀ s l s', P s → M.step s l s' → p l = true → μ s' < μ s)
    {s s' : σ} {ls : List ℓ} (r : M.Run s ls s') (h : P s) : ls.countP p + μ s' ≤ μ s := by
  induction r with
  | nil => simp
  | @cons s₁ s₂ _ l _ hs _ ih =>
    have h₂ := ih (hP _ _ _ h hs)
    have hle' := hle _ _ _ h hs
    rw [List.countP_cons]
    by_cases hp : p l = true
    · have := hlt _ _ _ h hs hp
      simp only [hp, if_true]; omega
    · simp only [hp, if_false, Bool.false_eq_true]; omega

/-- Until `G` is reached labels satisfying `p` cost one unit of `μ`, and labels
satisfying `q` add one. A run with more of the first than there were units and are added
reaches it. -/
theorem Run.reaches {P G : σ → Prop} (μ : σ → Nat) (p q : ℓ → Bool)
    (hP : ∀ s l s', P s → M.step s l s' → P s')
    (hstay : ∀ s l s', G s → M.step s l s' → G s')
    (hstep : ∀ s l s', P s → M.step s l s' → ¬ G s' →
      μ s' + (if p l = true then 1 else 0) ≤ μ s + (if q l = true then 1 else 0))
    {s s' : σ} {ls : List ℓ} (r : M.Run s ls s') (h : P s)
    (hcount : μ s + ls.countP q < ls.countP p) : G s' := by
  by_contra hgoal
  have hpaid : μ s' + ls.countP p ≤ μ s + ls.countP q := by
    clear hcount
    induction r with
    | nil => simp
    | @cons s₁ s₂ _ l _ hs r ih =>
      have h₂ := ih (hP _ _ _ h hs) hgoal
      have h₁ := hstep _ _ _ h hs fun hg => hgoal (r.preserves hstay hg)
      rw [List.countP_cons, List.countP_cons]
      omega
  omega

/-! ## Executable runs -/

/-- Run `f` along `ls`. -/
def exec (f : σ → ℓ → Option σ) : σ → List ℓ → Option σ
  | s, [] => some s
  | s, l :: ls => (f s l).bind fun s' => exec f s' ls

theorem exec_append (f : σ → ℓ → Option σ) (s : σ) (ls ls' : List ℓ) :
    exec f s (ls ++ ls') = (exec f s ls).bind fun s' => exec f s' ls' := by
  induction ls generalizing s with
  | nil => rfl
  | cons l ls ih =>
    simp only [List.cons_append, exec]
    cases f s l with
    | none => rfl
    | some s' => exact ih s'

theorem run_of_exec {f : σ → ℓ → Option σ} {s₀ s s' : σ} {ls : List ℓ}
    (h : exec f s ls = some s') : (ofFn s₀ f).Run s ls s' := by
  induction ls generalizing s with
  | nil => simp only [exec, Option.some.injEq] at h; subst h; exact .nil _
  | cons l ls ih =>
    simp only [exec, Option.bind_eq_some_iff] at h
    obtain ⟨s₁, h₁, h₂⟩ := h
    exact .cons h₁ (ih h₂)

/-- Run `f` along `ls`, checking `ok` before every step. -/
def execOk (f : σ → ℓ → Option σ) (ok : σ → ℓ → Prop) [∀ s l, Decidable (ok s l)] :
    σ → List ℓ → Option σ
  | s, [] => some s
  | s, l :: ls => if ok s l then (f s l).bind fun s' => execOk f ok s' ls else none

theorem execOk_append (f : σ → ℓ → Option σ) (ok : σ → ℓ → Prop) [∀ s l, Decidable (ok s l)]
    (s : σ) (ls ls' : List ℓ) :
    execOk f ok s (ls ++ ls') = (execOk f ok s ls).bind fun s' => execOk f ok s' ls' := by
  induction ls generalizing s with
  | nil => rfl
  | cons l ls ih =>
    simp only [List.cons_append, execOk]
    split
    · cases f s l with
      | none => rfl
      | some s' => exact ih s'
    · rfl

theorem run_of_execOk {f : σ → ℓ → Option σ} {ok : σ → ℓ → Prop} [∀ s l, Decidable (ok s l)]
    {s₀ s s' : σ} {ls : List ℓ} (h : execOk f ok s ls = some s') :
    ((ofFn s₀ f).restrict ok).Run s ls s' := by
  induction ls generalizing s with
  | nil => simp only [execOk, Option.some.injEq] at h; subst h; exact .nil _
  | cons l ls ih =>
    simp only [execOk] at h
    split at h
    · rename_i hok
      obtain ⟨s₁, h₁, h₂⟩ := Option.bind_eq_some_iff.mp h
      exact .cons ⟨hok, h₁⟩ (ih h₂)
    · cases h

theorem reachable_of_exec {f : σ → ℓ → Option σ} {s₀ s : σ} {ls : List ℓ}
    (h : exec f s₀ ls = some s) : (ofFn s₀ f).Reachable s :=
  ⟨s₀, ls, rfl, run_of_exec h⟩

theorem reachable_of_execOk {f : σ → ℓ → Option σ} {ok : σ → ℓ → Prop}
    [∀ s l, Decidable (ok s l)] {s₀ s : σ} {ls : List ℓ} (h : execOk f ok s₀ ls = some s) :
    ((ofFn s₀ f).restrict ok).Reachable s :=
  ⟨s₀, ls, rfl, run_of_execOk h⟩

end LTS

end Rxs.Core
