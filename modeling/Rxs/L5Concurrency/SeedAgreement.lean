import Rxs.Core.LTS
import Rxs.L2Machine.RxQueue

/-!
# The RandomX queue ends at the seed it was asked for last

The queue alone, under every interleaving of `enqueue` calls with arbitrary
seeds, background steps (with arbitrary allocation outcomes), the shutdown, the
delivery of the ready event and configuration writes by other threads. `last`
is the argument of the most recent `enqueue`.

* `inv_reachable`: the lock invariant `Rx.Inv`, and `m_seed` always equal to
  `last` in the `RxSeed` sense, a dropped request included.
* **`seed_agreement`**: in every reachable state, `IDLE` means nothing is
  pending and the storage was set up for `last`; the background thread has not
  dereferenced an empty item; `last` is pending, in work, or installed; and
  while the queue is `PENDING` its thread can move and gets closer to `IDLE`.
-/
namespace Rxs.L5.SeedAgreement

open Rxs.Core

structure QSys where
  q : Rx := {}
  last : Option RxSeed := none
  deriving DecidableEq, Repr

inductive Lbl where
  | enqueue (seed : RxSeed)
  | bg (a : Alloc)
  | shutdown
  | onReady
  | apply (a : Algorithm)
  deriving DecidableEq, Repr

def step (s : QSys) : Lbl → Option QSys
  | .enqueue seed => some ⟨s.q.enqueue seed, some seed⟩
  | .bg a => (s.q.bgStep a).map fun q => { s with q := q }
  | .shutdown => some { s with q := s.q.shutdown }
  | .onReady => some { s with q := s.q.onReady }
  | .apply a => some { s with q := s.q.apply a }

def lts : LTS QSys Lbl := .ofFn {} step

/-! ## Invariant -/

structure Inv (s : QSys) : Prop where
  q : s.q.Inv
  last : ∀ t, s.last = some t → s.q.seed.isEqual t = true ∧ s.q.storage.isSome = true

theorem inv_init : Inv {} := ⟨Rx.inv_init, by simp⟩

theorem inv_step {s s' : QSys} {l : Lbl} (I : Inv s) (h : step s l = some s') : Inv s' := by
  cases l with
  | enqueue seed =>
    simp only [step, Option.some.injEq] at h; subst h
    refine ⟨Rx.inv_enqueue I.q seed, ?_⟩
    rintro t ⟨⟩
    rcases Rx.enqueue_cases s.q seed with ⟨-, he, e⟩ | ⟨-, e⟩ <;> simp only [e]
    · exact ⟨he, rfl⟩
    · exact ⟨RxSeed.isEqual_refl _, rfl⟩
  | bg a =>
    simp only [step, Option.map_eq_some_iff] at h
    obtain ⟨q', hq, rfl⟩ := h
    refine ⟨Rx.inv_bgStep I.q hq, fun t ht => ?_⟩
    obtain ⟨he, hst⟩ := Rx.bgStep_seed I.q hq
    exact ⟨he ▸ (I.last t ht).1, hst (I.last t ht).2⟩
  | shutdown =>
    simp only [step, Option.some.injEq] at h; subst h
    exact ⟨Rx.inv_shutdown I.q, I.last⟩
  | onReady =>
    simp only [step, Option.some.injEq] at h; subst h
    exact ⟨Rx.inv_onReady I.q, I.last⟩
  | apply a =>
    simp only [step, Option.some.injEq] at h; subst h
    exact ⟨Rx.inv_apply I.q a, I.last⟩

theorem inv_inductive : lts.Inductive Inv where
  init _ h := h ▸ inv_init
  step _ _ _ I h := inv_step I h

theorem inv_reachable {s : QSys} (h : lts.Reachable s) : Inv s := inv_inductive.reachable h

/-! ## Seed agreement -/

/-- `t` waits in `m_pending`, is being worked on with nothing newer pending, or
is what the storage was last set up for. -/
def Held (q : Rx) (t : RxSeed) : Prop :=
  (∃ it, q.pending = some it ∧ it.seed.isEqual t = true) ∨
  (q.pending = none ∧ ∃ it, q.bg.item = some it ∧ it.seed.isEqual t = true) ∨
  (q.pending = none ∧ q.bg.item = none ∧ ∃ st, q.storage = some st ∧ st.seed.isEqual t = true)

theorem held_last {s : QSys} (I : Inv s) {t : RxSeed} (ht : s.last = some t) : Held s.q t := by
  obtain ⟨he, hst⟩ := I.last t ht
  cases hp : s.q.pending with
  | some it => exact .inl ⟨it, hp, by rw [(I.q.pending it hp).1]; exact he⟩
  | none =>
    cases hb : s.q.bg.item with
    | some it => exact .inr (.inl ⟨hp, it, hb, by rw [(I.q.item it hb).2 hp]; exact he⟩)
    | none =>
      obtain ⟨st, hst⟩ := Option.isSome_iff_exists.mp hst
      exact .inr (.inr ⟨hp, hb, st, hst, by rw [I.q.settled hp hb st hst]; exact he⟩)

/-- **Seed agreement**: `IDLE` after an `enqueue` means nothing pending and the
storage set up for the last seed; no empty item is dereferenced; the last seed
is never lost, and a queue that is not shut down works its way to `IDLE`. -/
theorem seed_agreement {s : QSys} (h : lts.Reachable s) :
    (s.q.state = .IDLE → ∀ t, s.last = some t → s.q.pending = none ∧
      ∃ st, s.q.storage = some st ∧ st.seed.isEqual t = true) ∧
    s.q.bg ≠ .fault ∧
    (∀ t, s.last = some t → Held s.q t) ∧
    (s.q.state = .PENDING → s.q.bg ≠ .exited → ∀ a, ∃ q', s.q.bgStep a = some q' ∧
      q'.bgRank < s.q.bgRank) := by
  have I := inv_reachable h
  refine ⟨fun hi t ht => ?_, I.q.fault, fun t ht => held_last I ht, fun hs hb a => ?_⟩
  swap
  · obtain ⟨q', hq⟩ := Rx.bgStep_isSome I.q hs hb a
    exact ⟨q', hq, Rx.bgStep_rank I.q hs hq⟩
  obtain ⟨hp, hb⟩ := I.q.idle hi
  refine ⟨hp, ?_⟩
  rcases held_last I ht with ⟨it, hit, -⟩ | ⟨-, it, hit, -⟩ | ⟨-, -, hst⟩
  · rw [hp] at hit; cases hit
  · rw [hb] at hit; cases hit
  · exact hst

/-- Two requests cross the first initialisation, the second of them equal to a
seed the thread has already taken; the queue ends at the second. -/
def crossing : List Lbl :=
  [.enqueue ⟨.RX_0, [1]⟩, .bg .full, .enqueue ⟨.RX_WOW, [2]⟩, .bg .full, .bg .full,
   .enqueue ⟨.RX_0, [1]⟩, .bg .full, .bg .full, .bg .full, .bg .full, .bg .full,
   .bg .full, .bg .full, .bg .full, .bg .full, .bg .full, .bg .full, .bg .full]

theorem seed_agreement_crossing : ∃ s, LTS.exec step {} crossing = some s ∧
    s.q.state = .IDLE ∧ s.last = some ⟨.RX_0, [1]⟩ ∧ s.q.pending = none ∧
    ∃ st, s.q.storage = some st ∧ st.seed.isEqual ⟨.RX_0, [1]⟩ = true := by
  obtain ⟨s, hs⟩ : ∃ s, LTS.exec step {} crossing = some s :=
    Option.isSome_iff_exists.mp (by decide)
  have hst : (LTS.exec step {} crossing).map (fun s => (s.q.state, s.last)) =
    some (.IDLE, some ⟨.RX_0, [1]⟩) := by decide
  simp only [hs, Option.map_some, Option.some.injEq, Prod.mk.injEq] at hst
  exact ⟨s, hs, hst.1, hst.2, (seed_agreement (LTS.reachable_of_exec hs)).1 hst.1 _ hst.2⟩

end Rxs.L5.SeedAgreement
