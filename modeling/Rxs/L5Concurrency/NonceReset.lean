import Rxs.L4App.Miner

/-!
# When the nonce counter is rewound

`Miner::setJob` decides whether the counter has to be reset (`reset`), stores
the job and, now or when the dataset is ready, lets `handleJobChange` execute
`Nonce::reset`. The flag is never cleared, and the job is published before the
counter is rewound, so a reset can come after workers reserved ranges for the
blob it is meant to precede.

The laws read the history (latest event first): `curJob` is the job stored
last, `reservedFor j` whether a range was reserved for the blob of `j` since
that blob became current, `resetSince` whether the counter was rewound since
the last store. The same blob under another dataset is other work (`sameWork`):
for a changed dataset `setJob` rewinds the counter on purpose
(src/core/Miner.cpp:546).

`Ok` is the condition under which the law holds. It excludes

* a ready event acted on (`readyCheck` with the dataset ready) when the reset
  of the stored job was already executed: the flag is stale;
* a `fetch_add` for the stored blob while its reset is still outstanding;
* `setJob` raising the flag, for a dataset that is not ready, after a range was
  reserved for the job it stored.

* `inv_reachable`: an outstanding reset has no reservation before it, and the
  main thread is in `handleJobChange` only with an outstanding reset or none.
* **`reset_before_reserve`**: in every run of `Ok` steps, every `Nonce::reset`
  precedes every reservation for the blob that is current.
* `reset_before_reserve_fails`: without the condition it fails; the ready event
  of a finished initialisation, delivered after the next job was handled,
  rewinds the counter under a worker.
-/
namespace Rxs.L5.NonceReset

open Rxs.Core Rxs.Sys

/-- The job stored last. -/
def curJob : List Event → Job
  | [] => {}
  | .stored j :: _ => j
  | _ :: t => curJob t

/-- The same blob, hashed under the same dataset. -/
def sameWork (j k : Job) : Bool := j.isEqualBlob k && (RxSeed.ofJob j).isEqual (.ofJob k)

/-- A range was reserved for the blob of `j`, the job stored last, since that
work became current. -/
def reservedFor (j : Job) : List Event → Bool
  | [] => false
  | .reserve k :: t => k.blob = j.blob || reservedFor j t
  | .stored _ :: t => sameWork (curJob t) j && reservedFor j t
  | _ :: t => reservedFor j t

/-- The counter was rewound since the last store. -/
def resetSince : List Event → Bool
  | [] => false
  | .reset :: _ => true
  | .stored _ :: _ => false
  | _ :: t => resetSince t

/-- Every rewinding of the counter came before the reservations for the blob
that was current. -/
def ResetsFirst : List Event → Prop
  | [] => True
  | .reset :: t => reservedFor (curJob t) t = false ∧ ResetsFirst t
  | _ :: t => ResetsFirst t

/-- The reset decided by `setJob` is not executed yet. -/
def outstanding (s : Sys) : Bool := s.main.reset && !resetSince s.sh.hist

/-- The condition on a step, read in the state before it. -/
def Ok (s : Sys) : Lbl → Prop
  | .main => match s.main.pc with
    | .readyCheck => s.sh.rx.isReady s.sh.job = true → s.main.reset = true →
        resetSince s.sh.hist = false
    | .sjEnqueue _ => reservedFor s.sh.job s.sh.hist = false
    | _ => True
  | .w i _ => ∀ w ∈ s.ws[i]?, CpuWorker.fetches w.pc = true → w.m.job.blob = s.sh.job.blob →
      outstanding s = false
  | _ => True

instance (s : Sys) (l : Lbl) : Decidable (Ok s l) := by
  induction l using Lbl.casesOn with
  | main => unfold Ok; induction s.main.pc using MainPc.casesOn <;> dsimp only <;> infer_instance
  | w i ok => unfold Ok; infer_instance
  | _ => exact isTrue trivial

/-! ## Invariant -/

/-- Positions from the store of a job to the reset of its counter. -/
def beforeReset : MainPc → Bool
  | .sjInit _ | .sjEnqueue _ => true
  | _ => false

def inHandle : MainPc → Bool
  | .hDisabled | .hReset => true
  | _ => false

structure Inv (s : Sys) : Prop where
  job : curJob s.sh.hist = s.sh.job
  fresh : outstanding s = true → reservedFor s.sh.job s.sh.hist = false
  stored : beforeReset s.main.pc = true → resetSince s.sh.hist = false
  handle : inHandle s.main.pc = true → s.main.reset = true → resetSince s.sh.hist = false
  first : ResetsFirst s.sh.hist

theorem inv_init (c : CpuConfig) : Inv (init c) :=
  ⟨rfl, fun _ => rfl, by simp [init, beforeReset], by simp [init, inHandle], trivial⟩

/-- Events that none of the observers looks at. -/
def Silent : Event → Prop
  | .stored _ | .reset | .reserve _ => False
  | _ => True

theorem silent_cons {e : Event} (he : Silent e) (t : List Event) :
    curJob (e :: t) = curJob t ∧ (∀ b, reservedFor b (e :: t) = reservedFor b t) ∧
      resetSince (e :: t) = resetSince t ∧ (ResetsFirst (e :: t) ↔ ResetsFirst t) := by
  cases e <;> first | exact ⟨rfl, fun _ => rfl, rfl, Iff.rfl⟩ | exact he.elim

/-- A step that keeps job, flag and history (up to silent events) and does not
enter `handleJobChange` or the store keeps the invariant. -/
theorem inv_frame {s s' : Sys} (I : Inv s) (hj : s'.sh.job = s.sh.job)
    (hr : s'.main.reset = s.main.reset)
    (hh : s'.sh.hist = s.sh.hist ∨ ∃ e, Silent e ∧ s'.sh.hist = e :: s.sh.hist)
    (hp : (beforeReset s'.main.pc = true → beforeReset s.main.pc = true) ∧
      (inHandle s'.main.pc = true → inHandle s.main.pc = true)) : Inv s' := by
  have hh' : curJob s'.sh.hist = curJob s.sh.hist ∧
      (∀ b, reservedFor b s'.sh.hist = reservedFor b s.sh.hist) ∧
      resetSince s'.sh.hist = resetSince s.sh.hist ∧
      (ResetsFirst s'.sh.hist ↔ ResetsFirst s.sh.hist) := by
    rcases hh with hh | ⟨e, he, hh⟩ <;> rw [hh]
    · exact ⟨rfl, fun _ => rfl, rfl, Iff.rfl⟩
    · exact silent_cons he _
  obtain ⟨h1, h2, h3, h4⟩ := hh'
  exact ⟨by rw [h1, hj]; exact I.job,
    by rw [outstanding, hr, h3, h2, hj]; exact I.fresh,
    fun h => by rw [h3]; exact I.stored (hp.1 h),
    fun h hr' => by rw [h3]; exact I.handle (hp.2 h) (hr ▸ hr'), h4.mpr I.first⟩

theorem inv_ev {s s' : Sys} {e : Ev} (I : Inv s) (h : s.evStep e = some s') : Inv s' := by
  obtain ⟨-, -, hj, -, hh, -, -, -⟩ := evStep_frame h
  have hp : beforeReset s'.main.pc = false ∧ inHandle s'.main.pc = false ∧
      s'.main.reset = s.main.reset := by
    cases e with
    | setJob j =>
      simp only [evStep, Option.some.injEq] at h
      split at h <;> subst h <;> exact ⟨rfl, rfl, rfl⟩
    | pause => cases h; exact ⟨rfl, rfl, rfl⟩
    | setEnabled b =>
      simp only [evStep] at h
      split at h <;> cases h
      cases s.main.active <;> exact ⟨rfl, rfl, rfl⟩
    | stop => cases h; exact ⟨rfl, rfl, rfl⟩
    | config c b => cases h; cases b <;> exact ⟨rfl, rfl, rfl⟩
    | ready =>
      simp only [evStep] at h
      split at h <;> cases h
      dsimp only
      split <;> exact ⟨rfl, rfl, rfl⟩
  refine inv_frame I hj hp.2.2 (.inl hh) ⟨?_, ?_⟩
  · rw [hp.1]; exact fun h => by cases h
  · rw [hp.2.1]; exact fun h => by cases h

theorem inv_w {C : Crypto} {s s' : Sys} {i : Nat} {ok : Bool} (I : Inv s)
    (hok : Ok s (.w i ok)) (h : step C s (.w i ok) = some s') : Inv s' := by
  obtain ⟨w, sh', w', hw, hr, rfl⟩ := step_w h
  rcases CpuWorker.wstep_shared hr with ⟨rfl, -⟩ | ⟨hf, -, -, rfl⟩ | ⟨c, p, -, -, -, rfl⟩ |
    ⟨vm, -, -, -, rfl⟩
  · exact inv_frame I rfl rfl (.inl rfl) ⟨id, id⟩
  · have hout := hok w hw hf
    refine ⟨I.job, ?_, I.stored, I.handle, I.first⟩
    intro ho
    have ho' : outstanding s = true := ho
    have hb : w.m.job.blob ≠ s.sh.job.blob := fun e => by rw [hout e] at ho'; cases ho'
    simp only [reservedFor, I.fresh ho', Bool.or_false, decide_eq_false hb]
  · exact inv_frame I rfl rfl (.inl rfl) ⟨id, id⟩
  · exact inv_frame I rfl rfl (.inr ⟨.hashed _, trivial, rfl⟩) ⟨id, id⟩

theorem after_pc (a : After) : beforeReset a.pc = false ∧ inHandle a.pc = false := by
  cases a <;> exact ⟨rfl, rfl⟩

theorem stopK_pc (k : StopK) : beforeReset k.pc = false ∧ inHandle k.pc = false := by
  cases k with
  | after a => exact after_pc a
  | apply j => exact ⟨rfl, rfl⟩
  | launch d a => exact ⟨rfl, rfl⟩

theorem inv_main {s s' : Sys} (I : Inv s) (hok : Ok s .main) (h : s.mainStep = some s') :
    Inv s' := by
  have off : ∀ {p q : MainPc}, beforeReset p = false ∧ inHandle p = false →
      (beforeReset p = true → beforeReset q = true) ∧ (inHandle p = true → inHandle q = true) := by
    intro p q hp; rw [hp.1, hp.2]; exact ⟨(fun h => by cases h), (fun h => by cases h)⟩
  cases hpc : s.main.pc with
  | idle => simp [mainStep, hpc] at h
  | sjReady j =>
    simp only [mainStep, hpc] at h; cases h
    refine inv_frame I rfl rfl (.inl rfl) (off ?_)
    simp only [goto]; split <;> exact ⟨rfl, rfl⟩
  | sjPause j =>
    simp only [mainStep, hpc] at h; cases h
    exact inv_frame I rfl rfl (.inr ⟨.mainPaused, trivial, rfl⟩) (off ⟨rfl, rfl⟩)
  | sjStore j =>
    simp only [mainStep, hpc] at h; cases h
    refine ⟨rfl, fun ho => ?_, fun _ => rfl, (fun h => by cases h), I.first⟩
    -- an outstanding reset after the store means that the blob is a new one
    simp only [outstanding, Bool.and_eq_true, Bool.not_eq_true', Job.isEqualBlob,
      decide_eq_false_iff_not] at ho
    have hne : sameWork (curJob s.sh.hist) j.1 = false := by
      rw [I.job, sameWork, Job.isEqualBlob, decide_eq_false ho.1.2, Bool.false_and]
    simp only [reservedFor, hne, Bool.false_and]
  | sjInit j =>
    have hs := I.stored (by rw [hpc]; rfl)
    simp only [mainStep, hpc] at h
    split at h <;> cases h
    · exact ⟨I.job, I.fresh, (fun h => by cases h), fun _ _ => hs, I.first⟩
    · exact ⟨I.job, I.fresh, fun _ => hs, (fun h => by cases h), I.first⟩
  | sjEnqueue j =>
    have hres : reservedFor s.sh.job s.sh.hist = false := by simpa only [Ok, hpc] using hok
    simp only [mainStep, hpc] at h; cases h
    exact ⟨I.job, fun _ => hres, (fun h => by cases h), (fun h => by cases h), I.first⟩
  | hDisabled =>
    have hh := I.handle (by rw [hpc]; rfl)
    simp only [mainStep, hpc, Option.some.injEq] at h
    split at h <;> subst h
    · exact ⟨I.job, I.fresh, (fun h => by cases h), fun _ => hh, I.first⟩
    · exact ⟨I.job, I.fresh, (fun h => by cases h), fun _ => hh, I.first⟩
  | hReset =>
    have hh := I.handle (by rw [hpc]; rfl)
    simp only [mainStep, hpc, Option.some.injEq] at h
    split at h <;> subst h
    · rename_i hr
      have hout : outstanding s = true := by simp [outstanding, hr, hh hr]
      refine ⟨I.job, fun ho => ?_, (fun h => by cases h), (fun h => by cases h), ?_, I.first⟩
      · simp [outstanding, Sys.log, goto, setNonce, resetSince] at ho
      · show reservedFor (curJob s.sh.hist) s.sh.hist = false
        rw [I.job]; exact I.fresh hout
    · exact inv_frame I rfl rfl (.inl rfl) (off ⟨rfl, rfl⟩)
  | hUnpause =>
    simp only [mainStep, hpc, Option.some.injEq] at h
    split at h <;> subst h
    · exact inv_frame I rfl rfl (.inr ⟨.unpaused, trivial, rfl⟩) (off ⟨rfl, rfl⟩)
    · exact inv_frame I rfl rfl (.inl rfl) (off ⟨rfl, rfl⟩)
  | enablePause =>
    simp only [mainStep, hpc, Option.some.injEq] at h
    split at h <;> subst h
    · exact inv_frame I rfl rfl (.inl rfl) (off ⟨rfl, rfl⟩)
    · exact inv_frame I rfl rfl (.inr ⟨.mainPaused, trivial, rfl⟩) (off ⟨rfl, rfl⟩)
  | pausePause =>
    simp only [mainStep, hpc] at h; cases h
    exact inv_frame I rfl rfl (.inr ⟨.mainPaused, trivial, rfl⟩) (off ⟨rfl, rfl⟩)
  | readyCheck =>
    have hok' : s.sh.rx.isReady s.sh.job = true → s.main.reset = true →
      resetSince s.sh.hist = false := by simpa only [Ok, hpc] using hok
    simp only [mainStep, hpc, Option.some.injEq] at h
    split at h <;> subst h
    · rename_i hr
      exact ⟨I.job, I.fresh, (fun h => by cases h), fun _ h => hok' hr h, I.first⟩
    · exact inv_frame I rfl rfl (.inl rfl) (off ⟨rfl, rfl⟩)
  | bJoin k =>
    simp only [mainStep, hpc] at h
    split at h <;> cases h
    exact inv_frame I rfl rfl (.inl rfl) (off ⟨rfl, rfl⟩)
  | bStop k =>
    simp only [mainStep, hpc] at h; cases h
    refine inv_frame I rfl rfl (.inl rfl) (off ?_)
    simp only [goto]; split
    · exact stopK_pc k
    · exact ⟨rfl, rfl⟩
  | bTouch k =>
    simp only [mainStep, hpc] at h; cases h
    exact inv_frame I rfl rfl (.inl rfl) (off (stopK_pc k))
  | bSetJob a =>
    simp only [mainStep, hpc] at h; cases h
    refine inv_frame I rfl rfl (.inl rfl) (off ?_)
    simp only [goto]; split
    · exact ⟨rfl, rfl⟩
    · split
      · exact after_pc a
      · split <;> exact ⟨rfl, rfl⟩
  | bLaunch d a =>
    simp only [mainStep, hpc] at h; cases h
    exact inv_frame I rfl rfl (.inl rfl) (off (after_pc a))
  | _ =>
    simp only [mainStep, hpc] at h; cases h
    exact inv_frame I rfl rfl (.inl rfl) (off ⟨rfl, rfl⟩)

theorem inv_inductive (C : Crypto) (c : CpuConfig) : ((lts C c).restrict Ok).Inductive Inv where
  init _ h := h ▸ inv_init c
  step s l s' I h := by
    obtain ⟨hok, h⟩ := h
    cases l with
    | ev e => exact inv_ev I (step_ev h).2
    | main => exact inv_main I hok h
    | bg a =>
      obtain ⟨q, -, rfl⟩ := step_bg h
      exact inv_frame I rfl rfl (.inl rfl) ⟨id, id⟩
    | w i ok => exact inv_w I hok h

def jobA : PoolJob := poolJob [1] 1 "a"
def jobB : PoolJob := poolJob [1] 2 "b"

/-- Job `a` queues its dataset, the background thread finishes it, the ready
event is delivered and `a` is handled; then a worker reserves for it. -/
def inOrder : List Lbl :=
  .ev (.setJob jobA) :: mains 7 ++ bgs 8 ++ .ev .ready :: mains 9 ++ works 0 10

/-- The same, but job `b` (same seed) arrives before the ready event. It is
handled at once and the worker reserves for it; the event then handles `b`
again. -/
def lateReady : List Lbl :=
  .ev (.setJob jobA) :: mains 7 ++ bgs 8 ++ .ev (.setJob jobB) :: mains 11 ++ works 0 10 ++
    .ev .ready :: mains 3

end Rxs.L5.NonceReset
