import Rxs.L4App.Miner

/-!
# What a worker waiting for its dataset waits for

`consumeJob` copies the miner's job once and then polls for that job's dataset
until it is there or the workers are stopped; it never looks at the miner's job
again. `wants w` is the job whose dataset the worker `w` is on its way to, from
the copy to the successful poll.

`Ok` is the condition under which the wait is never for an obsolete dataset. It
excludes

* `setJob` queuing another seed while a worker is on its way to the dataset of
  the old one;
* `WorkerJob::add` keeping the job it has for a new one with the same id, blob
  and target, but another seed.

* `wants_step`: how a worker's own step changes what it wants.
* `inv_reachable`: every worker wants the dataset of the queue's seed, and so
  does the miner's job while its mutex is free.
* **`waits_for_current`**: in every run of `Ok` steps, with the queue `IDLE` for
  the current job's seed every waiting worker waits for this seed, and the
  dataset is ready for it as it is for the current job.
* `waits_for_current_fails`: without the condition a worker that copied a job is
  left behind when the next job, with another seed, replaces the queue's seed.
-/
namespace Rxs.L5.DatasetWait

open Rxs.Core Rxs.Sys

/-- The job whose dataset the worker is on its way to. -/
def wants (w : CpuWorker) : Option Job :=
  match w.pc with
  | .addSequence _ j | .addJob _ j => some j
  | .saveFetch _ | .saveDecide _ _ | .poll _ | .sleepCheck _ => some w.m.job
  | _ => none

/-- The wait loop of `allocateRandomX_VM`.
mirrors src/backend/cpu/CpuWorker.cpp:76-86 -/
def waiting (w : CpuWorker) : Bool :=
  match w.pc with
  | .poll _ | .sleepCheck _ => true
  | _ => false

/-- `WorkerJob::add` keeps the present job for an equal one of the same seed only. -/
def KeepsSeed (w : CpuWorker) : Prop :=
  match w.pc with
  | .addJob _ j => w.m.job.isEqual j = true → (RxSeed.ofJob w.m.job).isEqual (.ofJob j) = true
  | _ => True

instance (w : CpuWorker) : Decidable (KeepsSeed w) := by
  unfold KeepsSeed; split <;> infer_instance

/-- The condition on a step, read in the state before it. -/
def Ok (s : Sys) : Lbl → Prop
  | .main => match s.main.pc with
    | .sjEnqueue j => s.sh.rx.seed.isEqualJob j.1 = false → ∀ w ∈ s.ws, wants w = none
    | _ => True
  | .w i _ => ∀ w ∈ s.ws[i]?, KeepsSeed w
  | _ => True

instance (s : Sys) (l : Lbl) : Decidable (Ok s l) := by
  induction l using Lbl.casesOn with
  | main => unfold Ok; induction s.main.pc using MainPc.casesOn <;> dsimp only <;> infer_instance
  | w i ok => unfold Ok; infer_instance
  | _ => exact isTrue trivial

/-! ## Worker steps -/

/-- A worker comes to want a dataset by copying the miner's job or by keeping
an equal one. -/
theorem wants_step {C : Crypto} {ok : Bool} {s s' : Shared} {w w' : CpuWorker}
    (h : w.wstep C ok s = some (s', w')) :
    wants w' = none ∨ wants w' = wants w ∨ (s.locked = false ∧ wants w' = some s.job) ∨
      (∃ k j, w.pc = .addJob k j ∧ w.m.job.isEqual j = true ∧ wants w = some j ∧
        wants w' = some w.m.job) := by
  have hret : ∀ (v : CpuWorker) (k : Ret), wants (v.ret k) = none := fun v k => by cases k <;> rfl
  cases hpc : w.pc with
  | takeJob k =>
    simp only [CpuWorker.wstep, hpc] at h
    split at h
    · cases h
    · cases h; exact .inr (.inr (.inl ⟨by simp_all, rfl⟩))
  | addSequence k j =>
    simp only [CpuWorker.wstep, hpc] at h; cases h
    exact .inr (.inl (by simp only [wants, hpc]))
  | addJob k j =>
    simp only [CpuWorker.wstep, hpc] at h
    split at h <;> cases h
    · exact .inr (.inr (.inr ⟨k, j, rfl, ‹_›, by simp only [wants, hpc], rfl⟩))
    · exact .inr (.inl (by simp only [wants, hpc, WorkerJob.save]))
  | saveFetch k =>
    simp only [CpuWorker.wstep, hpc] at h
    split at h <;> cases h <;> exact .inr (.inl (by simp only [wants, hpc]))
  | saveDecide k c =>
    simp only [CpuWorker.wstep, hpc] at h
    split at h <;> cases h <;>
      exact .inr (.inl (by simp only [wants, hpc, WorkerJob.grant, WorkerJob.setNonce]))
  | poll k =>
    simp only [CpuWorker.wstep, hpc] at h; cases h
    by_cases hd : (s.rx.dataset w.m.job).isSome = true
    · exact .inl (by simp only [hd, if_true, wants])
    · exact .inr (.inl (by simp only [hd, Bool.false_eq_true, if_false, wants, hpc]))
  | sleepCheck k =>
    simp only [CpuWorker.wstep, hpc] at h
    split at h <;> cases h
    · exact .inl (hret _ _)
    · exact .inr (.inl (by simp only [wants, hpc]))
  | pausedCheck =>
    simp only [CpuWorker.wstep, hpc] at h
    split at h <;> cases h
    · exact .inl rfl
    · exact .inl (hret _ _)
  | consume k =>
    simp only [CpuWorker.wstep, hpc] at h
    split at h <;> cases h
    · exact .inl (hret _ _)
    · exact .inl rfl
  | bindVm k =>
    simp only [CpuWorker.wstep, hpc] at h
    split at h <;> cases h
    · exact .inl rfl
    · exact .inl (hret _ _)
  | body =>
    simp only [CpuWorker.wstep, hpc] at h
    split at h <;> cases h
    · exact .inl rfl
    · cases w.l.first <;> exact .inl rfl
  | hashFirst =>
    simp only [CpuWorker.wstep, hpc] at h; split at h <;> cases h <;> exact .inl rfl
  | round => simp only [CpuWorker.wstep, hpc] at h; split at h <;> cases h <;> exact .inl rfl
  | roundFetch => simp only [CpuWorker.wstep, hpc] at h; split at h <;> cases h <;> exact .inl rfl
  | roundDecide c =>
    simp only [CpuWorker.wstep, hpc] at h; split at h <;> cases h <;> exact .inl rfl
  | hashNext => simp only [CpuWorker.wstep, hpc] at h; split at h <;> cases h <;> exact .inl rfl
  | done => simp [CpuWorker.wstep, hpc] at h
  | fault => simp [CpuWorker.wstep, hpc] at h
  | _ =>
    simp only [CpuWorker.wstep, hpc] at h; cases h
    first
      | exact .inl rfl
      | (split <;> exact .inl rfl)

/-! ## Invariant -/

structure Inv (s : Sys) : Prop where
  rx : s.sh.rx.Inv
  lock : LockInv s
  job : s.sh.locked = false → s.sh.rx.seed.isEqualJob s.sh.job = true
  wants : ∀ w ∈ s.ws, ∀ j ∈ wants w, s.sh.rx.seed.isEqualJob j = true

theorem inv_init (c : CpuConfig) : Inv (init c) where
  rx := Rx.inv_init
  lock := ⟨rfl, fun _ h => by cases h⟩
  job _ := RxSeed.isEqual_refl _
  wants _ h := by cases h

/-- `enqueue` leaves `m_seed` equal to its argument. -/
theorem enqueue_seed (q : Rx) (seed : RxSeed) : (q.enqueue seed).seed.isEqual seed = true := by
  rcases Rx.enqueue_cases q seed with ⟨-, he, e⟩ | ⟨-, e⟩ <;> rw [e]
  · exact he
  · exact RxSeed.isEqual_refl _

theorem inv_main {C : Crypto} {c : CpuConfig} {s s' : Sys} (I : Inv s) (hok : Ok s .main)
    (h : s.mainStep = some s') : Inv s' := by
  have hlock : LockInv s' := (lock_inductive C c).step s .main s' I.lock h
  have hw : ∀ w ∈ s'.ws, ∀ j ∈ DatasetWait.wants w, w ∈ s.ws := by
    intro w hw j hj
    rcases mainStep_ws h with e | ⟨k, -, -, e⟩ | ⟨d, a, -, e⟩ <;> rw [e] at hw
    · exact hw
    · cases hw
    · obtain ⟨x, -, rfl⟩ := List.mem_map.mp hw; cases hj
  rcases mainStep_rx h with e | ⟨j, hpc, e⟩ | ⟨j, hpc, e⟩
  · refine ⟨e ▸ I.rx, hlock, ?_, fun w hw' j hj => e ▸ I.wants w (hw w hw' j hj) j hj⟩
    rcases mainStep_job h with ⟨hj, hl, -⟩ | ⟨j, -, -, -, hl⟩ | ⟨j, hpc, hr, -, hj, -⟩ |
      ⟨j, hpc, hp, hj, -⟩
    · rw [hj, hl, e]; exact I.job
    · rw [hl]; exact fun h => by cases h
    · intro _
      rw [hj, e, I.lock.job j (by rw [hpc]; rfl)]
      simp only [Rx.isReady, Rx.isReadyUnsafe] at hr
      split at hr
      · cases hr
      · simp only [Bool.and_eq_true] at hr; exact hr.2
    · intro _
      rw [hj, I.lock.job j (by rw [hpc]; rfl)]
      simp only [mainStep, hpc, Option.some.injEq] at h
      rw [← h]; exact enqueue_seed _ _
  · refine ⟨e ▸ Rx.inv_apply I.rx _, hlock, ?_, ?_⟩
    · rcases mainStep_job h with ⟨hj, hl, -⟩ | ⟨j', h', -⟩ | ⟨j', h', -⟩ | ⟨j', h', -⟩
      · rw [hj, hl, e]; exact I.job
      all_goals rw [hpc] at h'; cases h'
    · rw [e]; exact fun w hw' j hj => I.wants w (hw w hw' j hj) j hj
  · have hj : s.sh.job = j.1 := I.lock.job j (by rw [hpc]; rfl)
    have hok' : s.sh.rx.seed.isEqualJob j.1 = false → ∀ w ∈ s.ws, DatasetWait.wants w = none := by
      simpa only [Ok, hpc] using hok
    refine ⟨e ▸ Rx.inv_enqueue I.rx _, hlock, ?_, ?_⟩
    · intro _
      rcases mainStep_job h with ⟨-, -, hh⟩ | ⟨j', h', -⟩ | ⟨j', h', -⟩ | ⟨j', -, -, hj', -⟩
      · simp only [mainStep, hpc, Option.some.injEq] at h
        rw [← h, hpc] at hh; cases hh
      · rw [hpc] at h'; cases h'
      · rw [hpc] at h'; cases h'
      · rw [hj', hj, e]; exact enqueue_seed _ _
    · intro w hw' j' hj'
      have hmem := hw w hw' j' hj'
      rw [e]
      rcases hs : s.sh.rx.seed.isEqualJob j.1 with _ | _
      · rw [hok' hs w hmem] at hj'; cases hj'
      · have hold := I.wants w hmem j' hj'
        exact RxSeed.isEqual_trans (RxSeed.isEqual_trans (enqueue_seed _ _)
          (RxSeed.isEqual_symm hs)) hold

theorem inv_w {C : Crypto} {s s' : Sys} {i : Nat} {ok : Bool} (I : Inv s)
    (hok : Ok s (.w i ok)) (h : step C s (.w i ok) = some s') : Inv s' := by
  obtain ⟨w, sh', w', hw, hr, rfl⟩ := step_w h
  obtain ⟨hj, hl, hrx, -, -⟩ := CpuWorker.wstep_frame hr
  refine ⟨hrx ▸ I.rx, ⟨hl ▸ I.lock.locked, hj ▸ I.lock.job⟩, ?_, ?_⟩
  · simp only [hl, hj, hrx]; exact I.job
  · intro v hv j hvj
    simp only [hrx]
    have hmem : w ∈ s.ws := List.mem_of_getElem? hw
    rcases List.mem_or_eq_of_mem_set hv with hv | rfl
    · exact I.wants v hv j hvj
    · rcases wants_step hr with hn | he | ⟨hlk, he⟩ | ⟨k, j', hpc, heq, hold, he⟩
      · rw [hn] at hvj; cases hvj
      · rw [he] at hvj; exact I.wants w hmem j hvj
      · rw [he] at hvj; cases hvj; exact I.job hlk
      · rw [he] at hvj; cases hvj
        have hkeep := hok w hw
        simp only [KeepsSeed, hpc] at hkeep
        exact RxSeed.isEqual_trans (I.wants w hmem j' hold) (RxSeed.isEqual_symm (hkeep heq))

theorem inv_inductive (C : Crypto) (c : CpuConfig) : ((lts C c).restrict Ok).Inductive Inv where
  init _ h := h ▸ inv_init c
  step s l s' I h := by
    obtain ⟨hok, h⟩ := h
    cases l with
    | ev e =>
      have hlock := (lock_inductive C c).step s (.ev e) s' I.lock h
      obtain ⟨hw, -, hj, hl, -, hrx, -, -⟩ := evStep_frame (step_ev h).2
      rcases hrx with e | e
      · exact ⟨e ▸ I.rx, hlock, by rw [hl, hj, e]; exact I.job, by rw [hw, e]; exact I.wants⟩
      · exact ⟨e ▸ Rx.inv_onReady I.rx, hlock, by rw [hl, hj, e]; exact I.job,
          by rw [hw, e]; exact I.wants⟩
    | main => exact inv_main (C := C) (c := c) I hok h
    | bg a =>
      obtain ⟨q, hq, rfl⟩ := step_bg h
      have hs := (Rx.bgStep_seed I.rx hq).1
      exact ⟨Rx.inv_bgStep I.rx hq, ⟨I.lock.locked, I.lock.job⟩, by simp only [hs]; exact I.job,
        by simp only [hs]; exact I.wants⟩
    | w i ok => exact inv_w I hok h

/-- **No obsolete wait**: in every run whose steps meet `Ok`, every worker in the
wait loop waits for the seed of the queue. So if this is the seed of the
miner's current job, it waits for the current job's seed, and finds the dataset
ready whenever it is ready for the current job. -/
theorem waits_for_current {C : Crypto} {c : CpuConfig} {s : Sys}
    (h : ((lts C c).restrict Ok).Reachable s) {w : CpuWorker} (hw : w ∈ s.ws)
    (hwait : waiting w = true) :
    s.sh.rx.seed.isEqualJob w.m.job = true ∧
      (s.sh.rx.seed.isEqualJob s.sh.job = true →
        (RxSeed.ofJob w.m.job).isEqual (.ofJob s.sh.job) = true) ∧
      (s.sh.rx.isReady s.sh.job = true → s.sh.rx.isReady w.m.job = true) := by
  have I := (inv_inductive C c).reachable h
  have hwant : wants w = some w.m.job := by
    unfold waiting at hwait
    unfold wants
    split at hwait
    · rw [‹w.pc = _›]
    · rw [‹w.pc = _›]
    · cases hwait
  have hseed := I.wants w hw w.m.job hwant
  refine ⟨hseed, fun hj => RxSeed.isEqual_trans (RxSeed.isEqual_symm hseed) hj, fun hr => ?_⟩
  simp only [Rx.isReady, Rx.isReadyUnsafe] at hr ⊢
  split at hr
  · cases hr
  · simp only [Bool.and_eq_true] at hr ⊢
    exact ⟨hr.1, hseed⟩

/-! ## Runs -/

def jobA : PoolJob := poolJob [1] 1 "a"
def jobB : PoolJob := poolJob [2] 2 "b"
def jobC : PoolJob := poolJob [3] 3 "c"

/-- Job `a` is mined; while its worker is about to copy the current job, job `b`
with another seed comes in. The worker copies `b` and waits for its dataset. -/
def waitingForB : List Lbl :=
  .ev (.setJob jobA) :: mains 7 ++ bgs 8 ++ .ev .ready :: mains 9 ++ works 0 6 ++
    .ev (.setJob jobB) :: mains 6 ++ works 0 6

/-- Before the background thread takes `b` up, job `c` with a third seed takes its place. -/
def leftBehind : List Lbl := waitingForB ++ .ev (.setJob jobC) :: mains 6 ++ bgs 8

theorem waits_for_current_b : ∃ s w,
    LTS.execOk (step .sample) Ok (init (threadsConfig 1)) (waitingForB ++ bgs 8) = some s ∧
    w ∈ s.ws ∧ waiting w = true ∧ s.sh.rx.seed.isEqualJob w.m.job = true := by
  obtain ⟨s, hs⟩ : ∃ s, LTS.execOk (step .sample) Ok (init (threadsConfig 1))
      (waitingForB ++ bgs 8) = some s := Option.isSome_iff_exists.mp (by decide +kernel)
  have he : (LTS.execOk (step .sample) Ok (init (threadsConfig 1)) (waitingForB ++ bgs 8)).map
      (fun s => s.ws.any waiting) = some true := by decide +kernel
  simp only [hs, Option.map_some, Option.some.injEq, List.any_eq_true] at he
  obtain ⟨w, hw, hwait⟩ := he
  exact ⟨s, w, hs, hw, hwait, (waits_for_current (LTS.reachable_of_execOk hs) hw hwait).1⟩

/-- Without the condition a worker keeps waiting for a seed the queue and the
current job have left behind. -/
theorem waits_for_current_fails : ¬ ∀ s, (lts .sample (threadsConfig 1)).Reachable s →
    s.sh.rx.state = .IDLE → s.sh.rx.seed.isEqualJob s.sh.job = true →
    ∀ w ∈ s.ws, waiting w = true → s.sh.rx.seed.isEqualJob w.m.job = true := by
  intro h
  obtain ⟨s, hs⟩ : ∃ s, LTS.exec (step .sample) (init (threadsConfig 1)) leftBehind = some s :=
    Option.isSome_iff_exists.mp (by decide +kernel)
  have he : (LTS.exec (step .sample) (init (threadsConfig 1)) leftBehind).map
      (fun s => ((s.sh.rx.state, s.sh.rx.seed.isEqualJob s.sh.job),
        s.ws.all fun w => !waiting w || s.sh.rx.seed.isEqualJob w.m.job)) =
      some ((.IDLE, true), false) := by decide +kernel
  simp only [hs, Option.map_some, Option.some.injEq, Prod.mk.injEq] at he
  obtain ⟨⟨h₁, h₂⟩, h₃⟩ := he
  have h₄ := h s (LTS.reachable_of_exec hs) h₁ h₂
  refine absurd (List.all_eq_true.mpr fun w hw => ?_) (by rw [h₃]; decide)
  cases hwt : waiting w with
  | false => rfl
  | true => simpa using h₄ w hw hwt

end Rxs.L5.DatasetWait
