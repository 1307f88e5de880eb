import Rxs.L4App.Miner

/-!
# The pause flag

One global flag is raised by workers that reserve the last range of their
job's nonce space and by half a dozen main-thread paths, and cleared by
`Nonce::stop`, `handleJobChange` and `setEnabled`. Two laws:

* while the miner is disabled or inactive, the flag is set or no worker is
  running (`Quiet`), except while the main thread is just pausing or stopping
  (`transient`);
* after `handleJobChange` unpaused the workers for the current job (`live`),
  the flag stays clear until the main thread pauses or stores another job, or
  the nonce space of this job is exhausted (`spent`).

`Ok` is the condition under which they hold. It excludes

* a launch of workers with the flag clear while the miner is disabled or
  inactive (`Nonce::stop` cleared it, and a reloaded configuration or a ready
  event starts the workers again);
* an unpause while a worker still has to decide about a counter in the last
  range of its mask that does not exhaust the current job;
* a `fetch_add` of the last range of a mask smaller than the current job's.

* `inv_reachable`: both laws with what they need at every step of the main thread.
* **`pause_flag`**: in every run of `Ok` steps both laws hold.
* `pause_flag_fails`: disable, stop and reload the configuration: the workers
  run although the miner is disabled.
-/
namespace Rxs.L5.PauseFlag

open Rxs.Core Rxs.Sys

/-- The workers were unpaused for the current job and the main thread has
neither paused nor started on another job since. -/
def live : List Event → Bool
  | [] => false
  | .unpaused :: _ => true
  | .mainPaused :: _ | .stored _ :: _ | .handling :: _ => false
  | _ :: t => live t

/-- The nonce space of the current job is used up. -/
def spent (s : Sys) : Bool := s.sh.job.nonceMask < s.sh.nonce.counter

/-- Enabled and active, or paused, or no worker is running. -/
def Quiet (s : Sys) : Prop :=
  (s.main.enabled = true ∧ s.main.active = true) ∨ s.sh.nonce.paused = true ∨
    allDone s.ws = true

/-- A worker that is about to raise the pause flag does so for an exhausted job. -/
def Pending (s : Sys) (w : CpuWorker) : Prop :=
  ∀ c ∈ CpuWorker.decides w.pc, Nonce.lastRange w.m.mask c = true → spent s = true

/-- The condition on a step, read in the state before it. -/
def Ok (s : Sys) : Lbl → Prop
  | .main => match s.main.pc with
    | .bLaunch _ _ => s.sh.nonce.paused = true ∨ (s.main.enabled = true ∧ s.main.active = true)
    | .hUnpause => s.main.active = true → s.main.enabled = true → ∀ w ∈ s.ws, Pending s w
    | _ => True
  | .w i _ => ∀ w ∈ s.ws[i]?, CpuWorker.fetches w.pc = true → live s.sh.hist = true →
      Nonce.lastRange w.m.mask s.sh.nonce.counter = true →
      s.sh.job.nonceMask ≤ Nonce.mask63 w.m.mask
  | _ => True

instance (s : Sys) (w : CpuWorker) : Decidable (Pending s w) := by unfold Pending; infer_instance

instance (s : Sys) (l : Lbl) : Decidable (Ok s l) := by
  induction l using Lbl.casesOn with
  | main => unfold Ok; induction s.main.pc using MainPc.casesOn <;> dsimp only <;> infer_instance
  | w i ok => unfold Ok; infer_instance
  | _ => exact isTrue trivial

/-! ## Invariant -/

/-- Positions between a change of the flag or of `active` and the step that
makes up for it. -/
def transient : MainPc → Bool
  | .pausePause | .enablePause | .stopSequence _ | .bStop _ | .bStopSequence _ | .bJoin _ => true
  | _ => false

structure Inv (s : Sys) : Prop where
  active : s.main.pc = .enablePause → s.main.active = true
  quiet : transient s.main.pc = false → Quiet s
  handle : s.main.pc.handles = true → live s.sh.hist = false
  live : live s.sh.hist = true →
    (s.sh.nonce.paused = false ∨ spent s = true) ∧ ∀ w ∈ s.ws, Pending s w

theorem inv_init (c : CpuConfig) : Inv (init c) where
  active h := by cases h
  quiet _ := .inr (.inl rfl)
  handle _ := rfl
  live h := by cases h

theorem quiet_nil {s : Sys} (h : s.ws = []) : Quiet s := .inr (.inr (by rw [h]; rfl))

/-- A step of the main thread that changes neither workers nor flag nor job nor
counter nor history. -/
theorem inv_goto {s s' : Sys} (I : Inv s) (hws : s'.ws = s.ws)
    (hm : s'.main.enabled = s.main.enabled ∧ s'.main.active = s.main.active)
    (hs : s'.sh.job = s.sh.job ∧ s'.sh.nonce.paused = s.sh.nonce.paused ∧
      s'.sh.nonce.counter = s.sh.nonce.counter ∧ s'.sh.hist = s.sh.hist)
    (ha : s'.main.pc ≠ .enablePause) (hq : transient s.main.pc = false)
    (hh : s'.main.pc.handles = true → s.main.pc.handles = true) : Inv s' := by
  obtain ⟨he, hac⟩ := hm
  obtain ⟨hjob, hp, hc, hhist⟩ := hs
  have hsp : spent s' = spent s := by simp only [spent, hjob, hc]
  refine ⟨fun h => absurd h ha, fun _ => ?_, fun h => hhist ▸ I.handle (hh h), fun h => ?_⟩
  · have := I.quiet hq
    simp only [Quiet, he, hac, hp, hws]; exact this
  · have := I.live (hhist ▸ h)
    simp only [Pending, hp, hsp, hws]; exact this

theorem after_pc (a : After) : a.pc ≠ .enablePause := by cases a <;> simp [After.pc]

theorem stopK_pc (k : StopK) : k.pc ≠ .enablePause := by
  cases k with
  | after a => exact after_pc a
  | apply j => simp [StopK.pc]
  | launch d a => simp [StopK.pc]

theorem inv_ev {s s' : Sys} {e : Ev} (I : Inv s) (hpc : s.main.pc = .idle)
    (h : s.evStep e = some s') : Inv s' := by
  have hq : transient s.main.pc = false := by rw [hpc]; rfl
  cases e with
  | setJob j =>
    simp only [evStep, Option.some.injEq] at h
    split at h <;> subst h <;>
      exact inv_goto I rfl ⟨rfl, rfl⟩ ⟨rfl, rfl, rfl, rfl⟩ (by simp [goto]) hq
        (fun h => by cases h)
  | pause =>
    cases h
    exact ⟨(fun h => by cases h),
      (fun h => by cases h), (fun h => by cases h), I.live⟩
  | setEnabled b =>
    simp only [evStep] at h
    split at h <;> cases h
    cases hact : s.main.active with
    | true =>
      exact ⟨fun _ => rfl,
        (fun h => by cases h), (fun h => by cases h), I.live⟩
    | false =>
      refine ⟨(fun h => by cases h),
        fun _ => ?_, (fun h => by cases h), I.live⟩
      rcases I.quiet hq with ⟨-, h⟩ | h
      · rw [hact] at h; cases h
      · exact .inr h
  | stop =>
    cases h
    exact inv_goto I rfl ⟨rfl, rfl⟩ ⟨rfl, rfl, rfl, rfl⟩ (by simp [goto]) hq
      (fun h => by cases h)
  | config c b =>
    cases h
    cases b <;>
      exact inv_goto I rfl ⟨rfl, rfl⟩ ⟨rfl, rfl, rfl, rfl⟩ (by simp) hq
        (fun h => by cases h)
  | ready =>
    simp only [evStep] at h
    split at h <;> cases h
    refine inv_goto I rfl ⟨rfl, rfl⟩ ⟨rfl, rfl, rfl, rfl⟩ ?_ hq ?_ <;>
      dsimp only <;> split <;> first | rfl | simp | exact fun h => by cases h

/-- A worker raises the flag only with `Pending`, and fetches only what `Ok` allows. -/
theorem inv_w {C : Crypto} {s s' : Sys} {i : Nat} {ok : Bool} (I : Inv s)
    (hok : Ok s (.w i ok)) (h : step C s (.w i ok) = some s') : Inv s' := by
  obtain ⟨w, sh', w', hw, hr, rfl⟩ := step_w h
  have hmem : w ∈ s.ws := List.mem_of_getElem? hw
  have hdone : allDone s.ws ≠ true := by
    intro hd
    have hd : w.pc = .done := by simpa [allDone] using List.all_eq_true.mp hd w hmem
    simp [CpuWorker.wstep, hd] at hr
  obtain ⟨hj, -, -, -, hc⟩ := CpuWorker.wstep_frame hr
  have hspent : spent s = true → spent { s with sh := sh', ws := s.ws.set i w' } = true := by
    simp only [spent, hj, decide_eq_true_eq]; omega
  -- what the step does to flag, history and the counters still to be decided about
  have hp : (sh'.nonce.paused = s.sh.nonce.paused ∨
      (sh'.nonce.paused = true ∧ (live s.sh.hist = true → spent s = true)) ∨
      (sh'.nonce.paused = true ∧ s.sh.nonce.paused = true)) ∧
      live sh'.hist = live s.sh.hist ∧
      (live s.sh.hist = true → Pending { s with sh := sh', ws := s.ws.set i w' } w') := by
    rcases CpuWorker.wstep_shared hr with ⟨rfl, hd⟩ | ⟨hf, hd, hm, rfl⟩ | ⟨c, p, hdec, hd, hp, rfl⟩ |
      ⟨vm, -, -, hd, rfl⟩
    · exact ⟨.inl rfl, rfl, fun _ c hc => by rw [hd] at hc; cases hc⟩
    · refine ⟨.inl rfl, rfl, fun hl c hc => ?_⟩
      rw [hd] at hc; cases hc
      intro hlast
      rw [hm] at hlast
      have hmask := hok w hw hf hl hlast
      simp only [Nonce.lastRange, Bool.and_eq_true, decide_eq_true_eq] at hlast
      refine decide_eq_true (show s.sh.job.nonceMask < s.sh.nonce.counter + kReserveCount from ?_)
      unfold kReserveCount at *; omega
    · refine ⟨?_, rfl, fun _ c hc => by rw [hd] at hc; cases hc⟩
      cases hpa : s.sh.nonce.paused with
      | true => exact .inr (.inr ⟨rfl, rfl⟩)
      | false =>
        cases p with
        | false => exact .inl rfl
        | true =>
          refine .inr (.inl ⟨rfl, fun hl => ?_⟩)
          exact (I.live hl).2 w hmem c hdec (hp rfl)
    · exact ⟨.inl rfl, rfl, fun _ c hc => by rw [hd] at hc; cases hc⟩
  obtain ⟨hp, hhist, hpend⟩ := hp
  refine ⟨I.active, fun h => ?_, fun h => by rw [hhist]; exact I.handle h, fun hl' => ?_⟩
  · rcases I.quiet h with hq | hq | hq
    · exact .inl hq
    · refine .inr (.inl ?_)
      rcases hp with hp | ⟨hp, -⟩ | ⟨hp, -⟩
      · exact hp.trans hq
      · exact hp
      · exact hp
    · exact absurd hq hdone
  · rw [hhist] at hl'
    obtain ⟨hl, hall⟩ := I.live hl'
    refine ⟨?_, fun v hv => ?_⟩
    · rcases hp with hp | ⟨-, hs⟩ | ⟨hp, hp'⟩
      · rw [hp]; exact hl.imp id hspent
      · exact .inr (hspent (hs hl'))
      · rcases hl with hl | hl
        · rw [hl] at hp'; cases hp'
        · exact .inr (hspent hl)
    · rcases List.mem_or_eq_of_mem_set hv with hv | rfl
      · exact fun c hc hlast => hspent (hall v hv c hc hlast)
      · exact hpend hl'

theorem inv_main {s s' : Sys} (J : JoinInv s) (I : Inv s) (hok : Ok s .main) (h : s.mainStep = some s') :
    Inv s' := by
  cases hpc : s.main.pc with
  | idle => simp [mainStep, hpc] at h
  | sjReady j =>
    simp only [mainStep, hpc] at h; cases h
    refine inv_goto I rfl ⟨rfl, rfl⟩ ⟨rfl, rfl, rfl, rfl⟩ ?_ (by rw [hpc]; rfl) ?_ <;>
      simp only [goto] <;> split <;> first | rfl | simp | exact fun h => by cases h
  | sjPause j =>
    simp only [mainStep, hpc] at h; cases h
    exact ⟨(fun h => by cases h),
      fun _ => .inr (.inl rfl), (fun h => by cases h), (fun h => by cases h)⟩
  | sjTouch j =>
    simp only [mainStep, hpc] at h; cases h
    exact inv_goto I rfl ⟨rfl, rfl⟩ ⟨rfl, rfl, rfl, rfl⟩ (by simp [goto])
      (by rw [hpc]; rfl) (fun h => by cases h)
  | sjApply j =>
    simp only [mainStep, hpc] at h; cases h
    exact inv_goto I rfl ⟨rfl, rfl⟩ ⟨rfl, rfl, rfl, rfl⟩ (by simp)
      (by rw [hpc]; rfl) (fun h => by cases h)
  | sjStore j =>
    have hq := I.quiet (by rw [hpc]; rfl)
    simp only [mainStep, hpc] at h; cases h
    exact ⟨(fun h => by cases h),
      fun _ => hq, (fun h => by cases h), (fun h => by cases h)⟩
  | sjInit j =>
    have hq := I.quiet (by rw [hpc]; rfl)
    simp only [mainStep, hpc] at h
    split at h <;> cases h
    · exact ⟨(fun h => by cases h),
        fun _ => hq.imp (fun e => ⟨e.1, rfl⟩) id, fun _ => rfl, (fun h => by cases h)⟩
    · exact ⟨(fun h => by cases h),
        fun _ => hq, (fun h => by cases h), I.live⟩
  | sjEnqueue j =>
    have hq := I.quiet (by rw [hpc]; rfl)
    simp only [mainStep, hpc] at h; cases h
    exact ⟨(fun h => by cases h),
      fun _ => hq.imp (fun e => ⟨e.1, rfl⟩) id, (fun h => by cases h), I.live⟩
  | stopPause k =>
    have hh := I.handle
    rw [hpc] at hh
    simp only [mainStep, hpc] at h; cases h
    exact ⟨(fun h => by cases h),
      (fun h => by cases h), hh, fun h => ⟨.inl rfl, (I.live h).2⟩⟩
  | stopSequence k =>
    have hh := I.handle
    rw [hpc] at hh
    simp only [mainStep, hpc] at h; cases h
    exact ⟨(fun h => by cases h),
      (fun h => by cases h), hh, I.live⟩
  | bStop k =>
    have hh := I.handle
    rw [hpc] at hh
    simp only [mainStep, hpc] at h; cases h
    by_cases ht : s.main.threads = []
    · refine ⟨?_, fun _ => quiet_nil (J.threads ht), ?_, I.live⟩ <;> simp only [goto, if_pos ht]
      · exact fun h => absurd h (stopK_pc k)
      · rw [StopK.handles_pc]; exact hh
    · refine ⟨?_, ?_, ?_, I.live⟩ <;> simp only [goto, if_neg ht]
      · exact fun h => by cases h
      · exact fun h => by cases h
      · exact hh
  | bStopSequence k =>
    have hh := I.handle
    rw [hpc] at hh
    simp only [mainStep, hpc] at h; cases h
    exact ⟨(fun h => by cases h),
      (fun h => by cases h), hh, I.live⟩
  | bJoin k =>
    have hh := I.handle
    rw [hpc] at hh
    simp only [mainStep, hpc] at h
    split at h <;> cases h
    exact ⟨(fun h => by cases h), fun _ => quiet_nil rfl, hh, fun h => ⟨(I.live h).1, fun _ h => by cases h⟩⟩
  | bTouch k =>
    have hh := I.handle
    rw [hpc] at hh
    have hws := J.joined (by rw [hpc]; rfl)
    simp only [mainStep, hpc] at h; cases h
    exact ⟨fun h => absurd h (stopK_pc k), fun _ => quiet_nil hws,
      by dsimp only; rw [StopK.handles_pc]; exact hh, I.live⟩
  | bSetJob a =>
    have hh := I.handle
    rw [hpc] at hh
    simp only [mainStep, hpc] at h; cases h
    refine inv_goto I rfl ⟨rfl, rfl⟩ ⟨rfl, rfl, rfl, rfl⟩ ?_ (by rw [hpc]; rfl) ?_ <;>
      simp only [goto, hpc]
    · split <;> [simp; split <;> [exact after_pc a; split <;> simp]]
    · split <;> [exact id; split <;> [(rw [After.handles_pc]; exact id); split <;> exact id]]
  | bStart d a =>
    have hh := I.handle
    rw [hpc] at hh
    have hws := J.joined (by rw [hpc]; rfl)
    simp only [mainStep, hpc] at h; cases h
    exact ⟨(fun h => by cases h), fun _ => quiet_nil hws, hh, I.live⟩
  | bLaunch d a =>
    have hh := I.handle
    rw [hpc] at hh
    have hok' : s.sh.nonce.paused = true ∨ (s.main.enabled = true ∧ s.main.active = true) := by
      simpa only [Ok, hpc] using hok
    simp only [mainStep, hpc] at h; cases h
    refine ⟨fun h => absurd h (after_pc a), fun _ => ?_,
      by simp only [goto]; rw [After.handles_pc]; exact hh, fun h => ⟨(I.live h).1, ?_⟩⟩
    · rcases hok' with h | h
      · exact .inr (.inl h)
      · exact .inl h
    · intro w hw c hc
      obtain ⟨x, -, rfl⟩ := List.mem_map.mp hw
      cases hc
  | hDisabled =>
    have hq := I.quiet (by rw [hpc]; rfl)
    have hh := I.handle (by rw [hpc]; rfl)
    simp only [mainStep, hpc, Option.some.injEq] at h
    split at h <;> subst h
    · exact inv_goto I rfl ⟨rfl, rfl⟩ ⟨rfl, rfl, rfl, rfl⟩ (by simp [goto])
        (by rw [hpc]; rfl) (fun _ => by rw [hpc]; rfl)
    · exact ⟨(fun h => by cases h),
        fun _ => .inr (.inl rfl), fun _ => rfl, (fun h => by cases h)⟩
  | hReset =>
    have hq := I.quiet (by rw [hpc]; rfl)
    have hh := I.handle (by rw [hpc]; rfl)
    simp only [mainStep, hpc, Option.some.injEq] at h
    split at h <;> subst h
    · exact ⟨(fun h => by cases h),
        fun _ => hq, fun _ => hh, fun h => absurd (show live s.sh.hist = true from h) (by simp [hh])⟩
    · exact inv_goto I rfl ⟨rfl, rfl⟩ ⟨rfl, rfl, rfl, rfl⟩ (by simp [goto])
        (by rw [hpc]; rfl) (fun _ => by rw [hpc]; rfl)
  | hTouch =>
    simp only [mainStep, hpc] at h; cases h
    exact inv_goto I rfl ⟨rfl, rfl⟩ ⟨rfl, rfl, rfl, rfl⟩ (by simp [goto])
      (by rw [hpc]; rfl) (fun _ => by rw [hpc]; rfl)
  | hUnpause =>
    have hok' : s.main.active = true → s.main.enabled = true → ∀ w ∈ s.ws, Pending s w := by
      simpa only [Ok, hpc] using hok
    simp only [mainStep, hpc, Option.some.injEq] at h
    split at h <;> subst h
    · rename_i hae
      simp only [Bool.and_eq_true] at hae
      exact ⟨(fun h => by cases h),
        fun _ => .inl ⟨hae.2, hae.1⟩, (fun h => by cases h),
        fun _ => ⟨.inl rfl, hok' hae.1 hae.2⟩⟩
    · exact inv_goto I rfl ⟨rfl, rfl⟩ ⟨rfl, rfl, rfl, rfl⟩ (by simp [goto])
        (by rw [hpc]; rfl) (fun h => by cases h)
  | pausePause =>
    simp only [mainStep, hpc] at h; cases h
    exact ⟨(fun h => by cases h),
      fun _ => .inr (.inl rfl), (fun h => by cases h), (fun h => by cases h)⟩
  | enablePause =>
    have hact := I.active hpc
    simp only [mainStep, hpc, Option.some.injEq] at h
    split at h <;> subst h
    · exact ⟨(fun h => by cases h),
        fun _ => .inl ⟨‹_›, hact⟩, (fun h => by cases h), fun h => ⟨.inl rfl, (I.live h).2⟩⟩
    · exact ⟨(fun h => by cases h),
        fun _ => .inr (.inl rfl), (fun h => by cases h), (fun h => by cases h)⟩
  | pauseTouch =>
    simp only [mainStep, hpc] at h; cases h
    exact inv_goto I rfl ⟨rfl, rfl⟩ ⟨rfl, rfl, rfl, rfl⟩ (by simp [goto])
      (by rw [hpc]; rfl) (fun h => by cases h)
  | enableTouch =>
    simp only [mainStep, hpc] at h; cases h
    exact inv_goto I rfl ⟨rfl, rfl⟩ ⟨rfl, rfl, rfl, rfl⟩ (by simp [goto])
      (by rw [hpc]; rfl) (fun h => by cases h)
  | readyCheck =>
    have hq := I.quiet (by rw [hpc]; rfl)
    simp only [mainStep, hpc, Option.some.injEq] at h
    split at h <;> subst h
    · exact ⟨(fun h => by cases h),
        fun _ => hq, fun _ => rfl, (fun h => by cases h)⟩
    · exact inv_goto I rfl ⟨rfl, rfl⟩ ⟨rfl, rfl, rfl, rfl⟩ (by simp [goto])
        (by rw [hpc]; rfl) (fun h => by cases h)

theorem inv_reachable {C : Crypto} {c : CpuConfig} {s : Sys}
    (h : ((lts C c).restrict Ok).Reachable s) : Inv s := by
  refine LTS.reachable_induction (fun s hs => hs ▸ inv_init c) (fun s l s' hr I hs => ?_) h
  obtain ⟨hok, h⟩ := hs
  cases l with
  | ev e => exact inv_ev I (step_ev h).1 (step_ev h).2
  | main => exact inv_main ((join_inductive C c).reachable hr.of_restrict) I hok h
  | bg a => obtain ⟨q, -, rfl⟩ := step_bg h; exact ⟨I.active, I.quiet, I.handle, I.live⟩
  | w i ok => exact inv_w I hok h

def jobA : PoolJob := poolJob [1] 1 "a"

/-- A job is mined, then the miner is disabled. -/
def disabled : List Lbl :=
  .ev (.setJob jobA) :: mains 7 ++ bgs 8 ++ .ev .ready :: mains 9 ++ works 0 9 ++
    .ev (.setEnabled false) :: mains 2

/-- The disabled miner is stopped (its worker has yet to start) and its
configuration reloaded. -/
def reloaded : List Lbl :=
  .ev (.setJob jobA) :: mains 7 ++ bgs 8 ++ .ev .ready :: mains 9 ++
    .ev (.setEnabled false) :: mains 2 ++ .ev .stop :: mains 4 ++ works 0 2 ++ mains 2 ++
    .ev (.config (threadsConfig 1) false) :: mains 4

end Rxs.L5.PauseFlag
