import Rxs.L4App.Miner

/-!
# The RandomX configuration when workers are unpaused

`RandomX_CurrentConfig` is written by the main thread when `setJob` changes the
algorithm, and by the background thread when the storage takes an item of
another algorithm than it had. `after q` is the configuration the queue `q`
will have left once its thread has worked everything off.

A seed of `rx/0` compares equal to the same seed of `rx/2`, so while the queue
is `PENDING` for the one, `enqueue` drops a request for the other (and
`isReady` accepts the one for the other afterwards), although the background
thread still is to apply the first algorithm's configuration. `Ok` excludes
exactly this: `setJob` switching to an algorithm whose job compares equal to
what the queue is `PENDING` for, with the write of another configuration ahead.

* `after_bgStep`: the background thread works towards `after` and never changes it.
* `after_enqueue`: a request that is not dropped makes `after` its own configuration.
* **`config_agreement`**: in every run of `Ok` steps, the configuration at the
  unpause of `handleJobChange` is that of the job's algorithm, and so it is
  whenever the queue is `IDLE` outside `setJob`.
* `config_agreement_fails`: a job for `rx/0` and one for `rx/2` with the same
  seed, the second before the first is taken up: the workers of the second run
  under the configuration of the first.
-/
namespace Rxs.L5.ConfigAgreement

open Rxs.Core Rxs.Sys

/-- Algorithm of the storage's seed. -/
def storageAlg (q : Rx) : Algorithm :=
  match q.storage with
  | some st => st.seed.algorithm
  | none => .INVALID

/-- `RxBasicStoragePrivate::setSeed` on algorithm and configuration. -/
def settle (r : Algorithm × ConfigurationBase) (it : RxQueueItem) : Algorithm × ConfigurationBase :=
  (it.seed.algorithm,
    if r.1 ≠ it.seed.algorithm then RxAlgo.base it.seed.algorithm else r.2)

/-- Storage algorithm and configuration once the taken item is through `setSeed`. -/
def afterTaken (q : Rx) : Algorithm × ConfigurationBase :=
  match q.bg with
  | .setSeed it => settle (storageAlg q, q.config) it
  | _ => (storageAlg q, q.config)

/-- The configuration once the taken and the pending item are worked off. -/
def after (q : Rx) : ConfigurationBase :=
  match q.pending with
  | some it => (settle (afterTaken q) it).2
  | none => (afterTaken q).2

/-- The condition on a step, read in the state before it. -/
def Ok (s : Sys) : Lbl → Prop
  | .main => match s.main.pc with
    | .sjApply j => s.sh.rx.state = .PENDING → s.sh.rx.seed.isEqualJob j.1 = true →
        after (s.sh.rx.apply j.1.algorithm) = RxAlgo.base j.1.algorithm
    | _ => True
  | _ => True

instance (s : Sys) (l : Lbl) : Decidable (Ok s l) := by
  induction l using Lbl.casesOn with
  | main => unfold Ok; induction s.main.pc using MainPc.casesOn <;> dsimp only <;> infer_instance
  | _ => exact isTrue trivial

/-! ## What the queue will have applied -/

theorem after_idle {q : Rx} (I : q.Inv) (h : q.state = .IDLE) : after q = q.config := by
  obtain ⟨hp, hb⟩ := I.idle h
  simp only [after, afterTaken, hp, hb]

theorem afterTaken_of_ne {q : Rx} (h : ∀ it, q.bg ≠ .setSeed it) :
    afterTaken q = (storageAlg q, q.config) := by
  unfold afterTaken
  split
  · exact absurd ‹_› (h _)
  · rfl

/-- Every background step keeps `after`. -/
theorem after_bgStep {q q' : Rx} {a : Alloc} (I : q.Inv) (h : q.bgStep a = some q') :
    after q' = after q := by
  cases Rx.bgStep_move I h with
  | exit hb _ => simp only [after, afterTaken, hb, storageAlg]
  | take it hb _ hp => simp only [after, afterTaken, hb, hp, storageAlg]
  | setSeed it st hb hst =>
    by_cases hne : st.seed.algorithm = it.seed.algorithm
    · simp only [after, afterTaken, hb, storageAlg, hst, settle, hne, ne_eq, not_true, if_false]
    · simp only [after, afterTaken, hb, storageAlg, hst, settle, ne_eq, hne, not_false_iff,
        if_true, Rx.apply]
  | init it st st' b hit hne hst hseed hb hnb _ _ =>
    have h₁ : afterTaken q = (storageAlg q, q.config) := by
      refine afterTaken_of_ne fun it' e => hne ?_
      rw [e] at hit ⊢; cases hit; rfl
    have h₂ : afterTaken { q with storage := some st', bg := b } = (storageAlg q, q.config) := by
      rw [afterTaken_of_ne]
      · simp only [storageAlg, hst, hseed]
      · rintro it' (e : b = _)
        rw [e] at hb hnb; cases hb; exact hnb rfl
    simp only [after, h₁, h₂]
  | again it hb _ => simp only [after, afterTaken, hb, storageAlg]
  | publish it hb _ _ => simp only [after, afterTaken, hb, storageAlg]

/-- The configuration is always the main thread's or that of the storage. -/
def Sourced (a : Algorithm) (q : Rx) : Prop :=
  q.config = RxAlgo.base a ∨ q.config = RxAlgo.base (storageAlg q)

theorem sourced_bgStep {a : Algorithm} {q q' : Rx} {al : Alloc} (I : q.Inv) (hs : Sourced a q)
    (h : q.bgStep al = some q') : Sourced a q' := by
  cases Rx.bgStep_move I h with
  | setSeed it st hb hst =>
    simp only [Sourced, storageAlg, hst] at hs
    by_cases hne : st.seed.algorithm = it.seed.algorithm
    · simpa only [Sourced, storageAlg, hne, ne_eq, not_true, if_false] using hne ▸ hs
    · simp only [Sourced, storageAlg, ne_eq, hne, not_false_iff, if_true, Rx.apply, or_true]
  | init it st st' b hit hne hst hseed hb hnb _ _ =>
    simp only [Sourced, storageAlg, hst] at hs
    simpa only [Sourced, storageAlg, hseed] using hs
  | _ => exact hs

theorem storageAlg_getD (q : Rx) :
    storageAlg { q with storage := some (q.storage.getD {}) } = storageAlg q := by
  cases hst : q.storage with
  | none => simp only [storageAlg, hst, Option.getD_none]
  | some st => simp only [storageAlg, hst, Option.getD_some]

theorem afterTaken_congr {q q' : Rx} (hb : q'.bg = q.bg) (hc : q'.config = q.config)
    (hst : storageAlg q' = storageAlg q) : afterTaken q' = afterTaken q := by
  simp only [afterTaken, hb, hc, hst]

/-- If the storage will have algorithm `a`, the configuration will be its own. -/
theorem afterTaken_sourced {a : Algorithm} {q : Rx} (hs : Sourced a q)
    (ha : (afterTaken q).1 = a) : (afterTaken q).2 = RxAlgo.base a := by
  unfold afterTaken at *
  split at ha
  · simp only [settle] at ha ⊢
    split
    · rw [ha]
    · rename_i hne
      rcases hs with h | h
      · exact h
      · rw [h, not_not.mp hne, ha]
  · rcases hs with h | h
    · exact h
    · rw [h]; exact congrArg RxAlgo.base ha

/-- A dropped request keeps `after`; any other makes it the request's own. -/
theorem after_enqueue {q : Rx} (seed : RxSeed) (hs : Sourced seed.algorithm q) :
    (q.state = .PENDING ∧ q.seed.isEqual seed = true ∧ after (q.enqueue seed) = after q) ∨
    after (q.enqueue seed) = RxAlgo.base seed.algorithm := by
  have hst : afterTaken (q.enqueue seed) = afterTaken q := by
    rcases Rx.enqueue_cases q seed with ⟨-, -, e⟩ | ⟨-, e⟩ <;> rw [e] <;>
      exact afterTaken_congr rfl rfl (storageAlg_getD q)
  rcases Rx.enqueue_cases q seed with ⟨hp, he, e⟩ | ⟨-, e⟩ <;> rw [after, hst, e]
  · exact .inl ⟨hp, he, rfl⟩
  · refine .inr ?_
    simp only [settle]
    split
    · rfl
    · exact afterTaken_sourced hs (not_not.mp ‹_›)

theorem sourced_enqueue {a : Algorithm} {q : Rx} (hs : Sourced a q) (seed : RxSeed) :
    Sourced a (q.enqueue seed) := by
  have hst := storageAlg_getD q
  simp only [storageAlg] at hst
  rcases Rx.enqueue_cases q seed with ⟨-, -, e⟩ | ⟨-, e⟩ <;> rw [e] <;>
    simpa only [Sourced, storageAlg, hst] using hs

/-! ## Invariant -/

/-- The job `setJob` is storing or queuing. -/
def storing : MainPc → Option PoolJob
  | .sjStore j | .sjInit j | .sjEnqueue j => some j
  | _ => none

/-- The job whose algorithm the main thread has already switched to. -/
def switched : MainPc → Option PoolJob
  | .sjReady j | .sjPause j | .sjTouch j | .sjStore j | .sjInit j | .sjEnqueue j => some j
  | _ => none

structure Inv (s : Sys) : Prop where
  rx : s.sh.rx.Inv
  up : s.sh.rx.state ≠ .SHUTDOWN
  sourced : Sourced s.main.algorithm s.sh.rx
  /-- settled, or about to queue a seed that is no duplicate -/
  settled : after s.sh.rx = RxAlgo.base s.main.algorithm ∨
    ∃ j, storing s.main.pc = some j ∧ s.sh.rx.seed.isEqualJob j.1 = false
  switched : ∀ j, switched s.main.pc = some j → s.main.algorithm = j.1.algorithm
  stored : ∀ j, s.main.pc = .sjInit j ∨ s.main.pc = .sjEnqueue j → s.sh.job = j.1
  job : (∀ j, s.main.pc ≠ .sjStore j) → s.sh.job.algorithm = s.main.algorithm
  handle : s.main.pc.handles = true → s.sh.rx.state = .IDLE

theorem inv_init (c : CpuConfig) : Inv (init c) where
  rx := Rx.inv_init
  up := by simp [init]
  sourced := .inl rfl
  settled := .inl rfl
  switched := by simp [init, ConfigAgreement.switched]
  stored := by simp [init]
  job _ := rfl
  handle := by simp [init, MainPc.handles]

/-- A step of the main thread that touches neither queue nor job nor algorithm. -/
theorem inv_goto {s s' : Sys} (I : Inv s) (hrx : s'.sh.rx = s.sh.rx)
    (hj : s'.sh.job = s.sh.job) (ha : s'.main.algorithm = s.main.algorithm)
    (hst : ConfigAgreement.storing s.main.pc = none)
    (hsw : ∀ j, ConfigAgreement.switched s'.main.pc = some j → s.main.algorithm = j.1.algorithm)
    (hns : ∀ j, s'.main.pc ≠ .sjInit j ∧ s'.main.pc ≠ .sjEnqueue j)
    (hh : s'.main.pc.handles = true → s.sh.rx.state = .IDLE) : Inv s' where
  rx := hrx ▸ I.rx
  up := hrx ▸ I.up
  sourced := by rw [ha, hrx]; exact I.sourced
  settled := by
    rw [hrx, ha]
    rcases I.settled with h | ⟨j, h, -⟩
    · exact .inl h
    · rw [hst] at h; cases h
  switched j h := ha ▸ hsw j h
  stored j h := by rcases h with h | h <;> [exact absurd h (hns j).1; exact absurd h (hns j).2]
  job _ := by
    rw [hj, ha]
    exact I.job fun j e => by rw [e] at hst; cases hst
  handle h := hrx ▸ hh h

/-- The same, to a position that claims nothing new. -/
theorem inv_plain {s s' : Sys} (I : Inv s) (hrx : s'.sh.rx = s.sh.rx)
    (hj : s'.sh.job = s.sh.job) (ha : s'.main.algorithm = s.main.algorithm)
    (hst : ConfigAgreement.storing s.main.pc = none)
    (hsw : ConfigAgreement.switched s'.main.pc = none)
    (hh : s'.main.pc.handles = true → s.main.pc.handles = true) : Inv s' := by
  refine inv_goto I hrx hj ha hst ?_ ?_ fun h => I.handle (hh h)
  · intro j h; rw [hsw] at h; cases h
  · intro j; constructor <;> intro e <;> rw [e] at hsw <;> cases hsw

theorem switched_after (a : After) : ConfigAgreement.switched a.pc = none := by cases a <;> rfl

theorem switched_stopK (k : StopK) : ConfigAgreement.switched k.pc = none := by
  cases k with
  | after a => exact switched_after a
  | apply j => rfl
  | launch d a => rfl

theorem inv_onReady {s : Sys} (I : Inv s) :
    Inv { s with sh := { s.sh with rx := s.sh.rx.onReady } } :=
  ⟨Rx.inv_onReady I.rx, I.up, I.sourced, I.settled, I.switched, I.stored, I.job, I.handle⟩

theorem inv_ev {s s' : Sys} {e : Ev} (I : Inv s) (hpc : s.main.pc = .idle)
    (h : s.evStep e = some s') : Inv s' := by
  have hst : ConfigAgreement.storing s.main.pc = none := by rw [hpc]; rfl
  cases e with
  | setJob j =>
    simp only [evStep, Option.some.injEq] at h
    split at h <;> subst h
    · exact inv_plain I rfl rfl rfl hst rfl (fun h => by cases h)
    · rename_i ha
      refine inv_goto I rfl rfl rfl hst ?_ (by simp [goto]) (fun h => by cases h)
      simp only [goto, ConfigAgreement.switched]
      rintro _ ⟨⟩; exact not_not.mp ha
  | pause => cases h; exact inv_plain I rfl rfl rfl hst rfl (fun h => by cases h)
  | setEnabled b =>
    simp only [evStep] at h
    split at h <;> cases h
    refine inv_plain I rfl rfl rfl hst ?_ ?_
    · dsimp only; split <;> rfl
    · dsimp only; split <;> exact fun h => by cases h
  | stop => cases h; exact inv_plain I rfl rfl rfl hst rfl (fun h => by cases h)
  | config c b =>
    cases h
    refine inv_plain I rfl rfl rfl hst ?_ ?_
    · dsimp only; split <;> rfl
    · dsimp only; split <;> exact fun h => by cases h
  | ready =>
    simp only [evStep] at h
    split at h <;> cases h
    refine inv_plain (inv_onReady I) rfl rfl rfl hst ?_ ?_
    · dsimp only; split <;> rfl
    · dsimp only; split <;> exact fun h => by cases h

theorem inv_bg {s : Sys} {a : Alloc} {q : Rx} (I : Inv s) (h : s.sh.rx.bgStep a = some q) :
    Inv { s with sh := { s.sh with rx := q } } := by
  obtain ⟨hseed, -⟩ := Rx.bgStep_seed I.rx h
  have hidle : s.sh.rx.state ≠ .IDLE := fun e => by rw [Rx.bgStep_idle I.rx e] at h; cases h
  refine ⟨Rx.inv_bgStep I.rx h, ?_, sourced_bgStep I.rx I.sourced h, ?_, I.switched, I.stored,
    I.job, fun hh => absurd (I.handle hh) hidle⟩
  · rcases Rx.bgStep_state I.rx h with e | ⟨-, e⟩ <;> simp only [e]
    · exact I.up
    · simp
  · simp only [after_bgStep I.rx h, hseed]; exact I.settled

/-- A ready queue is `IDLE` with a seed that compares equal. -/
theorem isReady_idle {q : Rx} {j : Job} (h : q.isReady j = true) :
    q.state = .IDLE ∧ q.seed.isEqualJob j = true := by
  simp only [Rx.isReady, Rx.isReadyUnsafe] at h
  split at h
  · cases h
  · simp only [Bool.and_eq_true, decide_eq_true_eq] at h
    exact ⟨h.1.2, h.2⟩

theorem inv_main {s s' : Sys} (I : Inv s) (hok : Ok s .main) (h : s.mainStep = some s') :
    Inv s' := by
  cases hpc : s.main.pc with
  | idle => simp [mainStep, hpc] at h
  | sjReady j =>
    have hj := I.switched j (by rw [hpc]; rfl)
    simp only [mainStep, hpc] at h; cases h
    refine inv_goto I rfl rfl rfl (by rw [hpc]; rfl) ?_ ?_ ?_ <;> simp only [goto] <;> split
    · rintro _ ⟨⟩; exact hj
    · rintro _ ⟨⟩; exact hj
    · simp
    · simp
    · exact fun h => by cases h
    · exact fun h => by cases h
  | sjPause j =>
    have hj := I.switched j (by rw [hpc]; rfl)
    simp only [mainStep, hpc] at h; cases h
    exact inv_goto I rfl rfl rfl (by rw [hpc]; rfl) (by rintro _ ⟨⟩; exact hj)
      (by simp [goto]) (fun h => by cases h)
  | sjTouch j =>
    have hj := I.switched j (by rw [hpc]; rfl)
    simp only [mainStep, hpc] at h; cases h
    exact inv_goto I rfl rfl rfl (by rw [hpc]; rfl) (by rintro _ ⟨⟩; exact hj)
      (by simp [goto]) (fun h => by cases h)
  | sjApply j =>
    have hok' : s.sh.rx.state = .PENDING → s.sh.rx.seed.isEqualJob j.1 = true →
        after (s.sh.rx.apply j.1.algorithm) = RxAlgo.base j.1.algorithm := by
      simpa only [Ok, hpc] using hok
    simp only [mainStep, hpc] at h; cases h
    refine ⟨Rx.inv_apply I.rx _, I.up, .inl rfl, ?_, by rintro _ ⟨⟩; rfl, by simp,
      fun h => absurd rfl (h j), fun h => by cases h⟩
    by_cases he : s.sh.rx.seed.isEqualJob j.1 = true
    · refine .inl ?_
      cases hs : s.sh.rx.state with
      | IDLE => exact after_idle (Rx.inv_apply I.rx _) hs
      | PENDING => exact hok' hs he
      | SHUTDOWN => exact absurd hs I.up
    · exact .inr ⟨j, rfl, Bool.eq_false_iff.mpr he⟩
  | sjStore j =>
    have hj := I.switched j (by rw [hpc]; rfl)
    have hset := I.settled
    simp only [hpc, storing] at hset
    simp only [mainStep, hpc] at h; cases h
    exact ⟨I.rx, I.up, I.sourced, hset, by rintro _ ⟨⟩; exact hj, by rintro _ (⟨⟨⟩⟩ | ⟨⟨⟩⟩); rfl,
      fun _ => hj.symm, fun h => by cases h⟩
  | sjInit j =>
    have hj := I.switched j (by rw [hpc]; rfl)
    have hjob := I.stored j (.inl hpc)
    have hset := I.settled
    simp only [hpc, storing] at hset
    simp only [mainStep, hpc] at h
    split at h <;> cases h
    · rename_i hr
      obtain ⟨hi, he⟩ := isReady_idle hr
      refine ⟨I.rx, I.up, I.sourced, ?_, (fun _ h => by cases h), by simp,
        fun _ => by rw [hjob]; exact hj.symm, fun _ => hi⟩
      rcases hset with hset | ⟨_, ⟨⟩, hne⟩
      · exact .inl hset
      · rw [he] at hne; cases hne
    · exact ⟨I.rx, I.up, I.sourced, hset, by rintro _ ⟨⟩; exact hj,
        by rintro _ (⟨⟨⟩⟩ | ⟨⟨⟩⟩); exact hjob, fun _ => by rw [goto, hjob]; exact hj.symm,
        fun h => by cases h⟩
  | sjEnqueue j =>
    have hj := I.switched j (by rw [hpc]; rfl)
    have hjob := I.stored j (.inr hpc)
    have hset := I.settled
    simp only [hpc, storing] at hset
    simp only [mainStep, hpc] at h; cases h
    refine ⟨Rx.inv_enqueue I.rx _, ?_, sourced_enqueue I.sourced _, .inl ?_,
      (fun _ h => by cases h), by simp, fun _ => by rw [hjob]; exact hj.symm, fun h => by cases h⟩
    · rcases Rx.enqueue_cases s.sh.rx (.ofJob j.1) with ⟨-, -, e⟩ | ⟨-, e⟩ <;> simp only [e]
      · exact I.up
      · simp
    · have hs : Sourced (RxSeed.ofJob j.1).algorithm s.sh.rx := by
        have := I.sourced; rwa [hj] at this
      rcases after_enqueue (.ofJob j.1) hs with ⟨-, he, ha⟩ | ha
      · rw [ha]
        rcases hset with hset | ⟨_, ⟨⟩, hne⟩
        · exact hset
        · rw [RxSeed.isEqualJob, he] at hne; cases hne
      · rw [ha, hj]; rfl
  | bStop k =>
    have hh := I.handle
    simp only [mainStep, hpc] at h; cases h
    refine inv_plain I rfl rfl rfl (by rw [hpc]; rfl) ?_ ?_ <;> simp only [goto, hpc] <;> split
    · exact switched_stopK k
    · rfl
    · rw [StopK.handles_pc]; exact id
    · exact id
  | bJoin k =>
    simp only [mainStep, hpc] at h
    split at h <;> cases h
    exact inv_plain I rfl rfl rfl (by rw [hpc]; rfl) rfl (by rw [hpc]; exact id)
  | bTouch k =>
    simp only [mainStep, hpc] at h; cases h
    exact inv_plain I rfl rfl rfl (by rw [hpc]; rfl) (switched_stopK k)
      (by rw [hpc, StopK.handles_pc]; exact id)
  | bSetJob a =>
    simp only [mainStep, hpc] at h; cases h
    refine inv_plain I rfl rfl rfl (by rw [hpc]; rfl) ?_ ?_ <;> simp only [goto, hpc]
    · split
      · rfl
      · split
        · exact switched_after a
        · split <;> rfl
    · split
      · exact id
      · split
        · rw [After.handles_pc]; exact id
        · split <;> exact id
  | bStart d a =>
    simp only [mainStep, hpc] at h; cases h
    exact inv_plain I rfl rfl rfl (by rw [hpc]; rfl) rfl (by rw [hpc]; exact id)
  | bLaunch d a =>
    simp only [mainStep, hpc] at h; cases h
    exact inv_plain I rfl rfl rfl (by rw [hpc]; rfl) (switched_after a)
      (by rw [hpc, goto, After.handles_pc]; exact id)
  | readyCheck =>
    simp only [mainStep, hpc, Option.some.injEq] at h
    split at h <;> subst h
    · rename_i hr
      exact inv_goto I rfl rfl rfl (by rw [hpc]; rfl) (fun _ h => by cases h) (by simp [goto])
        fun _ => (isReady_idle hr).1
    · exact inv_plain I rfl rfl rfl (by rw [hpc]; rfl) rfl (fun h => by cases h)
  | hDisabled =>
    simp only [mainStep, hpc, Option.some.injEq] at h
    split at h <;> subst h <;>
      exact inv_plain I rfl rfl rfl (by rw [hpc]; rfl) rfl (fun _ => by rw [hpc]; rfl)
  | hReset =>
    simp only [mainStep, hpc, Option.some.injEq] at h
    split at h <;> subst h <;>
      exact inv_plain I rfl rfl rfl (by rw [hpc]; rfl) rfl (fun _ => by rw [hpc]; rfl)
  | hTouch =>
    simp only [mainStep, hpc] at h; cases h
    exact inv_plain I rfl rfl rfl (by rw [hpc]; rfl) rfl (fun _ => by rw [hpc]; rfl)
  | hUnpause =>
    simp only [mainStep, hpc, Option.some.injEq] at h
    split at h <;> subst h <;>
      exact inv_plain I rfl rfl rfl (by rw [hpc]; rfl) rfl (fun h => by cases h)
  | enablePause =>
    simp only [mainStep, hpc, Option.some.injEq] at h
    split at h <;> subst h <;>
      exact inv_plain I rfl rfl rfl (by rw [hpc]; rfl) rfl (fun h => by cases h)
  | stopPause k =>
    simp only [mainStep, hpc] at h; cases h
    exact inv_plain I rfl rfl rfl (by rw [hpc]; rfl) rfl (by rw [hpc]; exact id)
  | stopSequence k =>
    simp only [mainStep, hpc] at h; cases h
    exact inv_plain I rfl rfl rfl (by rw [hpc]; rfl) rfl (by rw [hpc]; exact id)
  | bStopSequence k =>
    simp only [mainStep, hpc] at h; cases h
    exact inv_plain I rfl rfl rfl (by rw [hpc]; rfl) rfl (by rw [hpc]; exact id)
  | _ =>
    simp only [mainStep, hpc] at h; cases h
    exact inv_plain I rfl rfl rfl (by rw [hpc]; rfl) rfl (fun h => by cases h)

theorem inv_inductive (C : Crypto) (c : CpuConfig) : ((lts C c).restrict Ok).Inductive Inv where
  init _ h := h ▸ inv_init c
  step s l s' I h := by
    obtain ⟨hok, h⟩ := h
    cases l with
    | ev e => exact inv_ev I (step_ev h).1 (step_ev h).2
    | main => exact inv_main I hok h
    | bg a => obtain ⟨q, hq, rfl⟩ := step_bg h; exact inv_bg I hq
    | w i ok =>
      obtain ⟨w, sh', w', -, hw, rfl⟩ := step_w h
      obtain ⟨hj, -, hrx, -, -⟩ := CpuWorker.wstep_frame hw
      exact ⟨hrx ▸ I.rx, hrx ▸ I.up, hrx ▸ I.sourced, hrx ▸ I.settled, I.switched, hj ▸ I.stored,
        hj ▸ I.job, hrx ▸ I.handle⟩

theorem idle_config {s : Sys} (I : Inv s) (hi : s.sh.rx.state = .IDLE)
    (hst : ConfigAgreement.storing s.main.pc = none) :
    s.sh.rx.config = RxAlgo.base s.sh.job.algorithm := by
  have hjob := I.job fun j e => by rw [e] at hst; cases hst
  rcases I.settled with h | ⟨j, h, -⟩
  · rw [← after_idle I.rx hi, h, hjob]
  · rw [hst] at h; cases h

def job0 : PoolJob := poolJob [1] 1 "a"
def jobV2 : PoolJob := ⟨mkJob .RX_V2 [1] 2 "b", mkJob_valid (by decide) _ _ _⟩
def jobWow : PoolJob := ⟨mkJob .RX_WOW [1] 2 "b", mkJob_valid (by decide) _ _ _⟩

/-- `first` is queued, `second` switches the algorithm before the background
thread moves; it then works everything off and the ready event is handled. -/
def switchRun (first second : PoolJob) : List Lbl :=
  .ev (.setJob first) :: mains 7 ++ .ev (.setJob second) :: mains 7 ++ bgs 8 ++
    .ev .ready :: mains 8

end Rxs.L5.ConfigAgreement
