import Rxs.Core.LTS
import Rxs.L2Machine.CpuWorker

/-!
# The miner: main thread, RandomX background thread and CPU workers

`Sys` is the whole mining core: the state shared by the threads (`sh`), the
members of `MinerPrivate` and of the CPU backend the main thread works on
(`main`), and one `CpuWorker` per launched thread. A label names the thread
that moves. The main thread takes one event at a time from its loop (`ev`) and
works it off step by step (`main`): every access to a nonce global, to the
queue or to the job under the mutex is a step of its own, so workers and the
background thread may move in between.

Events are the ways other code calls the miner: a new pool job, `pause` (no
active pool), `setEnabled` (keys, API, battery and idle detection; the calls
that return at once are not events), `stop` (API), a reloaded configuration,
and the queue's ready event.

* `rx_inv`: the queue invariant `Rx.Inv` holds of the queue inside the miner.
* `lock_inductive`: the job's mutex is held while a new job is stored and not
  yet handled or queued.
* `join_inductive`: the backend has no workers between join and launch.
* `workers_inductive`: every worker is well formed.
-/
namespace Rxs

open Rxs.Core

/-- What `CpuLaunchData::isEqual` compares: the scratchpad size of the
algorithm, and the remaining options as one value.
mirrors src/backend/cpu/CpuLaunchData.cpp:45-56 -/
structure CpuLaunchData where
  algorithm : Algorithm
  options : Nat
  deriving DecidableEq, Repr

namespace CpuLaunchData

def isEqual (d other : CpuLaunchData) : Bool :=
  d.algorithm.l3 = other.algorithm.l3 && d.options = other.options

/-- `std::equal` on vectors of the same size. -/
def isEqualList : List CpuLaunchData → List CpuLaunchData → Bool
  | [], [] => true
  | d :: ds, e :: es => d.isEqual e && isEqualList ds es
  | _, _ => false

end CpuLaunchData

structure CpuConfig where
  enabled : Bool
  threads : Algorithm → List Nat

/-- mirrors src/backend/cpu/CpuConfig.cpp:91-115 -/
def CpuConfig.get (c : CpuConfig) (a : Algorithm) : List CpuLaunchData :=
  (c.threads a).map fun o => ⟨a, o⟩

/-- A fresh worker thread.
mirrors src/backend/cpu/CpuWorker.cpp:56-66 and src/backend/common/Workers.cpp:177-201 -/
def CpuWorker.launch (d : CpuLaunchData) : CpuWorker := { algorithm := d.algorithm }

/-- Where the main thread goes on after the backend took a job:
`onConfigChanged` returns, `handleJobChange` touches. -/
inductive After where
  | idle | touch
  deriving DecidableEq, Repr

/-- What follows `CpuBackend::stop`: nothing (`Miner::stop`), the rest of
`Miner::setJob`, or in `CpuBackend::setJob` a return or a launch. -/
inductive StopK where
  | after (a : After)
  | apply (j : PoolJob)
  | launch (data : List CpuLaunchData) (a : After)
  deriving DecidableEq

/-- Position of the main thread.
mirrors src/core/Miner.cpp:99-123,463-600,687-694,
src/backend/cpu/CpuBackend.cpp:316-386 and src/backend/common/Workers.cpp:120-138,204-223 -/
inductive MainPc where
  | idle
  -- Miner::setJob
  | sjReady (j : PoolJob)
  | sjPause (j : PoolJob)
  | sjTouch (j : PoolJob)
  | sjApply (j : PoolJob)
  | sjStore (j : PoolJob)
  | sjInit (j : PoolJob)
  | sjEnqueue (j : PoolJob)
  -- Nonce::stop
  | stopPause (k : StopK)
  | stopSequence (k : StopK)
  -- CpuBackend::stop, Workers::stop
  | bStop (k : StopK)
  | bStopSequence (k : StopK)
  | bJoin (k : StopK)
  | bTouch (k : StopK)
  -- CpuBackend::setJob, Workers::start
  | bSetJob (a : After)
  | bStart (data : List CpuLaunchData) (a : After)
  | bLaunch (data : List CpuLaunchData) (a : After)
  -- handleJobChange
  | hDisabled | hReset | hTouch | hUnpause
  -- pause, setEnabled, onDatasetReady
  | pausePause | pauseTouch | enablePause | enableTouch
  | readyCheck
  deriving DecidableEq

def After.pc : After → MainPc
  | .idle => .idle
  | .touch => .hTouch

def StopK.pc : StopK → MainPc
  | .after a => After.pc a
  | .apply j => .sjApply j
  | .launch data a => .bStart data a

def After.handles : After → Bool
  | .touch => true
  | .idle => false

def StopK.handles : StopK → Bool
  | .after a | .launch _ a => a.handles
  | .apply _ => false

/-- The positions inside `handleJobChange`, the backend's part included. -/
def MainPc.handles : MainPc → Bool
  | .hDisabled | .hReset | .hTouch | .hUnpause => true
  | .bSetJob a | .bStart _ a | .bLaunch _ a => a.handles
  | .stopPause k | .stopSequence k | .bStop k | .bStopSequence k | .bJoin k | .bTouch k => k.handles
  | _ => false

@[simp] theorem After.handles_pc (a : After) : a.pc.handles = a.handles := by cases a <;> rfl

@[simp] theorem StopK.handles_pc (k : StopK) : k.pc.handles = k.handles := by
  cases k with
  | after a => exact a.handles_pc
  | apply j => rfl
  | launch d a => rfl

/-- The members of `MinerPrivate` and `CpuBackendPrivate` the main thread uses
(`job` is shared); `config` is the CPU part of the controller's configuration.
mirrors src/core/Miner.cpp:336-352 -/
structure Main where
  pc : MainPc := .idle
  algorithm : Algorithm := .INVALID
  active : Bool := false
  enabled : Bool := true
  reset : Bool := true
  userJobId : String := ""
  threads : List CpuLaunchData := []
  config : CpuConfig

structure Sys where
  sh : Shared := {}
  main : Main
  ws : List CpuWorker := []

inductive Ev where
  | setJob (j : PoolJob)
  | pause
  | setEnabled (b : Bool)
  | stop
  | config (c : CpuConfig) (poolsChanged : Bool)
  | ready

inductive Lbl where
  | ev (e : Ev)
  | main
  | bg (a : Alloc)
  | w (i : Nat) (ok : Bool)

namespace Sys

def allDone (ws : List CpuWorker) : Bool := ws.all fun w => decide (w.pc = .done)

def goto (s : Sys) (pc : MainPc) : Sys := { s with main := { s.main with pc := pc } }

def log (s : Sys) (e : Event) : Sys := { s with sh := { s.sh with hist := e :: s.sh.hist } }

def setNonce (s : Sys) (n : Nonce) : Sys := { s with sh := { s.sh with nonce := n } }

/-- The main thread takes an event from its loop.
mirrors src/core/Miner.cpp:463-600,687-694 and src/crypto/rx/RxQueue.cpp:167-178 -/
def evStep (s : Sys) : Ev → Option Sys
  | .setJob j =>
    some <| if s.main.algorithm ≠ j.1.algorithm then s.goto (.stopPause (.apply j))
      else s.goto (.sjReady j)
  | .pause => some { s with main := { s.main with active := false, pc := .pausePause } }
  | .setEnabled b =>
    if s.main.enabled = b then none
    else some { s with main := { s.main with
      enabled := b, pc := if s.main.active then .enablePause else .idle } }
  | .stop => some (s.goto (.stopPause (.after .idle)))
  | .config c poolsChanged =>
    some { s with main := { s.main with
      config := c, pc := if poolsChanged then .idle else .bSetJob .idle } }
  | .ready =>
    if s.sh.rx.async = false then none
    else some { s with
      sh := { s.sh with rx := s.sh.rx.onReady }
      main := { s.main with pc := if s.sh.rx.state = .IDLE then .readyCheck else .idle } }

/-- One step of the main thread inside an event. -/
def mainStep (s : Sys) : Option Sys :=
  match s.main.pc with
  | .idle => none
  -- Miner::setJob
  | .sjReady j => some (s.goto (if s.sh.rx.isReady j.1 then .sjStore j else .sjPause j))
  | .sjPause j =>
    some (((s.setNonce (s.sh.nonce.pause true)).log .mainPaused).goto (.sjTouch j))
  | .sjTouch j => some ((s.setNonce s.sh.nonce.touch).goto (.sjStore j))
  | .sjApply j =>
    some { s with sh := { s.sh with rx := s.sh.rx.apply j.1.algorithm },
                  main := { s.main with algorithm := j.1.algorithm, pc := .sjStore j } }
  | .sjStore j =>
    -- takes the mutex
    some { s with
      sh := { s.sh with job := j.1, locked := true, hist := .stored j.1 :: s.sh.hist }
      main := { s.main with
        reset := s.main.userJobId ≠ j.1.id && !s.sh.job.isEqualBlob j.1
        userJobId := j.1.id
        pc := .sjInit j } }
  | .sjInit j =>
    if s.sh.rx.isReady j.1 then
      -- gives the mutex back and enters handleJobChange
      some { s with
        sh := { s.sh with locked := false, hist := .handling :: s.sh.hist }
        main := { s.main with active := true, pc := .hDisabled } }
    else some (s.goto (.sjEnqueue j))
  | .sjEnqueue j =>
    some { s with
      sh := { s.sh with rx := s.sh.rx.enqueue (.ofJob j.1), locked := false }
      main := { s.main with reset := true, active := true, pc := .idle } }
  -- Nonce::stop
  | .stopPause k => some ((s.setNonce (s.sh.nonce.pause false)).goto (.stopSequence k))
  | .stopSequence k => some ((s.setNonce s.sh.nonce.stop).goto (.bStop k))
  -- CpuBackend::stop, Workers::stop
  | .bStop k => some (s.goto (if s.main.threads = [] then StopK.pc k else .bStopSequence k))
  | .bStopSequence k => some ((s.setNonce s.sh.nonce.stop).goto (.bJoin k))
  | .bJoin k => if allDone s.ws then some ({ s with ws := [] }.goto (.bTouch k)) else none
  | .bTouch k =>
    some { s with sh := { s.sh with nonce := s.sh.nonce.touch },
                  main := { s.main with threads := [], pc := StopK.pc k } }
  -- CpuBackend::setJob, Workers::start
  | .bSetJob a =>
    let threads := s.main.config.get s.sh.job.algorithm
    some <| s.goto <|
      if s.main.config.enabled = false then .bStop (.after a)
      else if s.main.threads ≠ [] ∧ CpuLaunchData.isEqualList s.main.threads threads then After.pc a
      else if threads = [] then .bStop (.after a)
      else .bStop (.launch threads a)
  | .bStart data a =>
    some { s with sh := { s.sh with nonce := s.sh.nonce.touch },
                  main := { s.main with threads := data, pc := .bLaunch data a } }
  | .bLaunch data a =>
    some ({ s with ws := data.map CpuWorker.launch }.goto (After.pc a))
  -- handleJobChange
  | .hDisabled =>
    some <| if s.main.enabled then s.goto .hReset
      else ((s.setNonce (s.sh.nonce.pause true)).log .mainPaused).goto .hReset
  | .hReset =>
    some <| if s.main.reset then ((s.setNonce s.sh.nonce.reset).log .reset).goto (.bSetJob .touch)
      else s.goto (.bSetJob .touch)
  | .hTouch => some ((s.setNonce s.sh.nonce.touch).goto .hUnpause)
  | .hUnpause =>
    some <| if s.main.active && s.main.enabled then
        ((s.setNonce (s.sh.nonce.pause false)).log .unpaused).goto .idle
      else s.goto .idle
  -- pause, setEnabled
  | .pausePause =>
    some (((s.setNonce (s.sh.nonce.pause true)).log .mainPaused).goto .pauseTouch)
  | .pauseTouch => some ((s.setNonce s.sh.nonce.touch).goto .idle)
  | .enablePause =>
    some <| if s.main.enabled then (s.setNonce (s.sh.nonce.pause false)).goto .enableTouch
      else ((s.setNonce (s.sh.nonce.pause true)).log .mainPaused).goto .enableTouch
  | .enableTouch => some ((s.setNonce s.sh.nonce.touch).goto .idle)
  -- onDatasetReady
  | .readyCheck =>
    some <| if s.sh.rx.isReady s.sh.job then (s.log .handling).goto .hDisabled else s.goto .idle

def step (C : Crypto) (s : Sys) : Lbl → Option Sys
  | .ev e => if s.main.pc = .idle then s.evStep e else none
  | .main => s.mainStep
  | .bg a => (s.sh.rx.bgStep a).map fun q => { s with sh := { s.sh with rx := q } }
  | .w i ok =>
    (s.ws[i]?).bind fun w => (w.wstep C ok s.sh).map fun r =>
      { s with sh := r.1, ws := s.ws.set i r.2 }

def init (c : CpuConfig) : Sys := { main := { config := c } }

def lts (C : Crypto) (c : CpuConfig) : LTS Sys Lbl := .ofFn (init c) (step C)

/-! ## What each kind of step can change -/

theorem evStep_frame {s s' : Sys} {e : Ev} (h : s.evStep e = some s') :
    s'.ws = s.ws ∧ s'.sh.nonce = s.sh.nonce ∧ s'.sh.job = s.sh.job ∧
      s'.sh.locked = s.sh.locked ∧ s'.sh.hist = s.sh.hist ∧
      (s'.sh.rx = s.sh.rx ∨ s'.sh.rx = s.sh.rx.onReady) ∧
      s'.main.algorithm = s.main.algorithm ∧ s'.main.threads = s.main.threads := by
  cases e with
  | setJob j =>
    simp only [evStep, Option.some.injEq] at h
    split at h <;> subst h <;> exact ⟨rfl, rfl, rfl, rfl, rfl, .inl rfl, rfl, rfl⟩
  | pause => cases h; exact ⟨rfl, rfl, rfl, rfl, rfl, .inl rfl, rfl, rfl⟩
  | setEnabled b =>
    simp only [evStep] at h
    split at h <;> cases h; exact ⟨rfl, rfl, rfl, rfl, rfl, .inl rfl, rfl, rfl⟩
  | stop => cases h; exact ⟨rfl, rfl, rfl, rfl, rfl, .inl rfl, rfl, rfl⟩
  | config c b => cases h; exact ⟨rfl, rfl, rfl, rfl, rfl, .inl rfl, rfl, rfl⟩
  | ready =>
    simp only [evStep] at h
    split at h <;> cases h; exact ⟨rfl, rfl, rfl, rfl, rfl, .inr rfl, rfl, rfl⟩

/-- The main thread replaces the workers in two places only: the end of the
join, and the launch. -/
theorem mainStep_ws {s s' : Sys} (h : s.mainStep = some s') :
    s'.ws = s.ws ∨ (∃ k, s.main.pc = .bJoin k ∧ allDone s.ws = true ∧ s'.ws = []) ∨
      (∃ data a, s.main.pc = .bLaunch data a ∧ s'.ws = data.map CpuWorker.launch) := by
  cases hpc : s.main.pc with
  | bJoin k =>
    simp only [mainStep, hpc] at h
    split at h <;> cases h
    rename_i hd; exact .inr (.inl ⟨k, rfl, hd, rfl⟩)
  | bLaunch data a =>
    simp only [mainStep, hpc] at h; cases h
    exact .inr (.inr ⟨data, a, rfl, rfl⟩)
  | idle => simp [mainStep, hpc] at h
  | sjInit j => simp only [mainStep, hpc] at h; split at h <;> cases h <;> exact .inl rfl
  | hDisabled =>
    simp only [mainStep, hpc, Option.some.injEq] at h; split at h <;> subst h <;> exact .inl rfl
  | hReset =>
    simp only [mainStep, hpc, Option.some.injEq] at h; split at h <;> subst h <;> exact .inl rfl
  | hUnpause =>
    simp only [mainStep, hpc, Option.some.injEq] at h; split at h <;> subst h <;> exact .inl rfl
  | enablePause =>
    simp only [mainStep, hpc, Option.some.injEq] at h; split at h <;> subst h <;> exact .inl rfl
  | readyCheck =>
    simp only [mainStep, hpc, Option.some.injEq] at h; split at h <;> subst h <;> exact .inl rfl
  | _ => simp only [mainStep, hpc] at h; cases h; exact .inl rfl

/-- The step of a worker, taken apart. -/
theorem step_w {C : Crypto} {s s' : Sys} {i : Nat} {ok : Bool} (h : step C s (.w i ok) = some s') :
    ∃ w sh' w', s.ws[i]? = some w ∧ w.wstep C ok s.sh = some (sh', w') ∧
      s' = { s with sh := sh', ws := s.ws.set i w' } := by
  simp only [step, Option.bind_eq_some_iff, Option.map_eq_some_iff] at h
  obtain ⟨w, hw, ⟨sh', w'⟩, hr, rfl⟩ := h
  exact ⟨w, sh', w', hw, hr, rfl⟩

theorem step_bg {C : Crypto} {s s' : Sys} {a : Alloc} (h : step C s (.bg a) = some s') :
    ∃ q, s.sh.rx.bgStep a = some q ∧ s' = { s with sh := { s.sh with rx := q } } := by
  simp only [step, Option.map_eq_some_iff] at h
  obtain ⟨q, hq, rfl⟩ := h
  exact ⟨q, hq, rfl⟩

theorem step_ev {C : Crypto} {s s' : Sys} {e : Ev} (h : step C s (.ev e) = some s') :
    s.main.pc = .idle ∧ s.evStep e = some s' := by
  simp only [step] at h
  split at h
  · exact ⟨‹_›, h⟩
  · cases h

/-! ## The queue inside the miner -/

/-- The main thread reaches the queue through `apply` and `enqueue` only. -/
theorem mainStep_rx {s s' : Sys} (h : s.mainStep = some s') :
    s'.sh.rx = s.sh.rx ∨
      (∃ j, s.main.pc = .sjApply j ∧ s'.sh.rx = s.sh.rx.apply j.1.algorithm) ∨
      (∃ j, s.main.pc = .sjEnqueue j ∧ s'.sh.rx = s.sh.rx.enqueue (.ofJob j.1)) := by
  cases hpc : s.main.pc with
  | sjApply j => simp only [mainStep, hpc] at h; cases h; exact .inr (.inl ⟨j, rfl, rfl⟩)
  | sjEnqueue j => simp only [mainStep, hpc] at h; cases h; exact .inr (.inr ⟨j, rfl, rfl⟩)
  | idle => simp [mainStep, hpc] at h
  | bJoin k => simp only [mainStep, hpc] at h; split at h <;> cases h; exact .inl rfl
  | sjInit j => simp only [mainStep, hpc] at h; split at h <;> cases h <;> exact .inl rfl
  | hDisabled =>
    simp only [mainStep, hpc, Option.some.injEq] at h; split at h <;> subst h <;> exact .inl rfl
  | hReset =>
    simp only [mainStep, hpc, Option.some.injEq] at h; split at h <;> subst h <;> exact .inl rfl
  | hUnpause =>
    simp only [mainStep, hpc, Option.some.injEq] at h; split at h <;> subst h <;> exact .inl rfl
  | enablePause =>
    simp only [mainStep, hpc, Option.some.injEq] at h; split at h <;> subst h <;> exact .inl rfl
  | readyCheck =>
    simp only [mainStep, hpc, Option.some.injEq] at h; split at h <;> subst h <;> exact .inl rfl
  | _ => simp only [mainStep, hpc] at h; cases h; exact .inl rfl

theorem rx_inductive (C : Crypto) (c : CpuConfig) : (lts C c).Inductive fun s => s.sh.rx.Inv where
  init _ h := h ▸ Rx.inv_init
  step s l s' I h := by
    cases l with
    | ev e =>
      obtain ⟨-, -, -, -, -, hr | hr, -, -⟩ := evStep_frame (step_ev h).2 <;> rw [hr]
      · exact I
      · exact Rx.inv_onReady I
    | main =>
      rcases mainStep_rx h with hr | ⟨j, -, hr⟩ | ⟨j, -, hr⟩ <;> rw [hr]
      · exact I
      · exact Rx.inv_apply I _
      · exact Rx.inv_enqueue I _
    | bg a => obtain ⟨q, hq, rfl⟩ := step_bg h; exact Rx.inv_bgStep I hq
    | w i ok =>
      obtain ⟨w, sh', w', -, hw, rfl⟩ := step_w h
      have hf := (CpuWorker.wstep_frame hw).2.2.1
      simpa only [hf] using I

theorem rx_inv {C : Crypto} {c : CpuConfig} {s : Sys} (h : (lts C c).Reachable s) :
    s.sh.rx.Inv :=
  (rx_inductive C c).reachable h

/-! ## The mutex of the job -/

/-- The positions at which the main thread holds the mutex, with the job stored. -/
def holding : MainPc → Option PoolJob
  | .sjInit j | .sjEnqueue j => some j
  | _ => none

/-- The job changes under the mutex, and the mutex is given back with the queue
ready for the job or asked for it. -/
theorem mainStep_job {s s' : Sys} (h : s.mainStep = some s') :
    (s'.sh.job = s.sh.job ∧ s'.sh.locked = s.sh.locked ∧ holding s'.main.pc = holding s.main.pc) ∨
    (∃ j, s.main.pc = .sjStore j ∧ s'.main.pc = .sjInit j ∧ s'.sh.job = j.1 ∧
      s'.sh.locked = true) ∨
    (∃ j, s.main.pc = .sjInit j ∧ s.sh.rx.isReady j.1 = true ∧ s'.main.pc = .hDisabled ∧
      s'.sh.job = s.sh.job ∧ s'.sh.locked = false) ∨
    (∃ j, s.main.pc = .sjEnqueue j ∧ s'.main.pc = .idle ∧ s'.sh.job = s.sh.job ∧
      s'.sh.locked = false) := by
  have hafter : ∀ a : After, holding a.pc = none := fun a => by cases a <;> rfl
  have hstop : ∀ k : StopK, holding k.pc = none := fun k => by
    cases k with
    | after a => exact hafter a
    | apply j => rfl
    | launch d a => rfl
  cases hpc : s.main.pc with
  | idle => simp [mainStep, hpc] at h
  | sjStore j =>
    simp only [mainStep, hpc] at h; cases h
    exact .inr (.inl ⟨j, rfl, rfl, rfl, rfl⟩)
  | sjInit j =>
    simp only [mainStep, hpc] at h
    split at h <;> cases h
    · exact .inr (.inr (.inl ⟨j, rfl, ‹_›, rfl, rfl, rfl⟩))
    · exact .inl ⟨rfl, rfl, rfl⟩
  | sjEnqueue j =>
    simp only [mainStep, hpc] at h; cases h
    exact .inr (.inr (.inr ⟨j, rfl, rfl, rfl, rfl⟩))
  | sjReady j =>
    simp only [mainStep, hpc] at h; cases h
    refine .inl ⟨rfl, rfl, ?_⟩
    simp only [goto]; split <;> rfl
  | bStop k =>
    simp only [mainStep, hpc] at h; cases h
    refine .inl ⟨rfl, rfl, ?_⟩
    simp only [goto]; split
    · exact hstop k
    · rfl
  | bJoin k =>
    simp only [mainStep, hpc] at h
    split at h <;> cases h; exact .inl ⟨rfl, rfl, rfl⟩
  | bTouch k => simp only [mainStep, hpc] at h; cases h; exact .inl ⟨rfl, rfl, hstop k⟩
  | bSetJob a =>
    simp only [mainStep, hpc] at h; cases h
    refine .inl ⟨rfl, rfl, ?_⟩
    simp only [goto]; split
    · rfl
    · split
      · exact hafter a
      · split <;> rfl
  | bLaunch d a => simp only [mainStep, hpc] at h; cases h; exact .inl ⟨rfl, rfl, hafter a⟩
  | hDisabled =>
    simp only [mainStep, hpc, Option.some.injEq] at h
    split at h <;> subst h <;> exact .inl ⟨rfl, rfl, rfl⟩
  | hReset =>
    simp only [mainStep, hpc, Option.some.injEq] at h
    split at h <;> subst h <;> exact .inl ⟨rfl, rfl, rfl⟩
  | hUnpause =>
    simp only [mainStep, hpc, Option.some.injEq] at h
    split at h <;> subst h <;> exact .inl ⟨rfl, rfl, rfl⟩
  | enablePause =>
    simp only [mainStep, hpc, Option.some.injEq] at h
    split at h <;> subst h <;> exact .inl ⟨rfl, rfl, rfl⟩
  | readyCheck =>
    simp only [mainStep, hpc, Option.some.injEq] at h
    split at h <;> subst h <;> exact .inl ⟨rfl, rfl, rfl⟩
  | _ => simp only [mainStep, hpc] at h; cases h; exact .inl ⟨rfl, rfl, rfl⟩

theorem evStep_holding {s s' : Sys} {e : Ev} (h : s.evStep e = some s') :
    holding s'.main.pc = none := by
  cases e with
  | setJob j => simp only [evStep, Option.some.injEq] at h; split at h <;> subst h <;> rfl
  | pause => cases h; rfl
  | setEnabled b =>
    simp only [evStep] at h
    split at h <;> cases h
    dsimp only; split <;> rfl
  | stop => cases h; rfl
  | config c b => cases h; dsimp only; split <;> rfl
  | ready =>
    simp only [evStep] at h
    split at h <;> cases h
    dsimp only; split <;> rfl

/-- The mutex is held at `holding` positions only, and there `job` is the job
being set. -/
structure LockInv (s : Sys) : Prop where
  locked : s.sh.locked = (holding s.main.pc).isSome
  job : ∀ j, holding s.main.pc = some j → s.sh.job = j.1

theorem lock_inductive (C : Crypto) (c : CpuConfig) : (lts C c).Inductive LockInv where
  init _ h := h ▸ ⟨rfl, fun _ h => by cases h⟩
  step s l s' I h := by
    cases l with
    | ev e =>
      obtain ⟨hpc, h⟩ := step_ev h
      obtain ⟨-, -, -, hl, -, -, -, -⟩ := evStep_frame h
      have hh := evStep_holding h
      have hs := I.locked
      rw [hpc] at hs
      exact ⟨by rw [hl, hs, hh]; rfl, fun j hj => by rw [hh] at hj; cases hj⟩
    | main =>
      rcases mainStep_job h with ⟨hj, hl, hh⟩ | ⟨j, -, hp, hj, hl⟩ | ⟨j, -, -, hp, -, hl⟩ |
        ⟨j, -, hp, -, hl⟩
      · exact ⟨by rw [hl, hh]; exact I.locked, fun j h => by rw [hj]; exact I.job j (hh ▸ h)⟩
      · exact ⟨by rw [hl, hp]; rfl, fun j' h' => by rw [hp] at h'; cases h'; exact hj⟩
      · exact ⟨by rw [hl, hp]; rfl, fun j' h' => by rw [hp] at h'; cases h'⟩
      · exact ⟨by rw [hl, hp]; rfl, fun j' h' => by rw [hp] at h'; cases h'⟩
    | bg a => obtain ⟨q, -, rfl⟩ := step_bg h; exact ⟨I.locked, I.job⟩
    | w i ok =>
      obtain ⟨w, sh', w', -, hw, rfl⟩ := step_w h
      obtain ⟨hj, hl, -, -, -⟩ := CpuWorker.wstep_frame hw
      exact ⟨hl ▸ I.locked, hj ▸ I.job⟩

/-! ## Join and launch -/

/-- Positions after the join and before the launch. -/
def joined : MainPc → Bool
  | .bTouch _ | .bStart _ _ | .bLaunch _ _ => true
  | _ => false

theorem joined_after (a : After) : joined a.pc = false := by cases a <;> rfl

/-- What the main thread does to the workers and to `m_threads`: nothing, or a
step of `Workers::stop` or `Workers::start`. -/
theorem mainStep_join {s s' : Sys} (h : s.mainStep = some s') :
    (s'.ws = s.ws ∧ s'.main.threads = s.main.threads ∧
      (joined s'.main.pc = false ∨
        ∃ k, s.main.pc = .bStop k ∧ s.main.threads = [] ∧ s'.main.pc = k.pc)) ∨
    (∃ k, s.main.pc = .bJoin k ∧ allDone s.ws = true ∧ s'.ws = [] ∧ s'.main.pc = .bTouch k ∧
      s'.main.threads = s.main.threads) ∨
    (∃ k, s.main.pc = .bTouch k ∧ s'.ws = s.ws ∧ s'.main.threads = [] ∧ s'.main.pc = k.pc) ∨
    (∃ d a, s.main.pc = .bStart d a ∧ s'.ws = s.ws ∧ s'.main.threads = d ∧
      s'.main.pc = .bLaunch d a) ∨
    (∃ d a, s.main.pc = .bLaunch d a ∧ s'.ws = d.map CpuWorker.launch ∧
      s'.main.threads = s.main.threads ∧ s'.main.pc = a.pc) := by
  cases hpc : s.main.pc with
  | idle => simp [mainStep, hpc] at h
  | bStop k =>
    simp only [mainStep, hpc] at h; cases h
    refine .inl ⟨rfl, rfl, ?_⟩
    by_cases ht : s.main.threads = []
    · exact .inr ⟨k, rfl, ht, if_pos ht⟩
    · refine .inl ?_
      simp only [goto, if_neg ht]; rfl
  | bJoin k =>
    simp only [mainStep, hpc] at h
    split at h <;> cases h
    exact .inr (.inl ⟨k, rfl, ‹_›, rfl, rfl, rfl⟩)
  | bTouch k =>
    simp only [mainStep, hpc] at h; cases h
    exact .inr (.inr (.inl ⟨k, rfl, rfl, rfl, rfl⟩))
  | bStart d a =>
    simp only [mainStep, hpc] at h; cases h
    exact .inr (.inr (.inr (.inl ⟨d, a, rfl, rfl, rfl, rfl⟩)))
  | bLaunch d a =>
    simp only [mainStep, hpc] at h; cases h
    exact .inr (.inr (.inr (.inr ⟨d, a, rfl, rfl, rfl, rfl⟩)))
  | bSetJob a =>
    simp only [mainStep, hpc] at h; cases h
    refine .inl ⟨rfl, rfl, .inl ?_⟩
    simp only [goto]; split
    · rfl
    · split
      · exact joined_after a
      · split <;> rfl
  | sjReady j =>
    simp only [mainStep, hpc] at h; cases h
    refine .inl ⟨rfl, rfl, .inl ?_⟩
    simp only [goto]; split <;> rfl
  | sjInit j =>
    simp only [mainStep, hpc] at h
    split at h <;> cases h <;> exact .inl ⟨rfl, rfl, .inl rfl⟩
  | hDisabled =>
    simp only [mainStep, hpc, Option.some.injEq] at h
    split at h <;> subst h <;> exact .inl ⟨rfl, rfl, .inl rfl⟩
  | hReset =>
    simp only [mainStep, hpc, Option.some.injEq] at h
    split at h <;> subst h <;> exact .inl ⟨rfl, rfl, .inl rfl⟩
  | hUnpause =>
    simp only [mainStep, hpc, Option.some.injEq] at h
    split at h <;> subst h <;> exact .inl ⟨rfl, rfl, .inl rfl⟩
  | enablePause =>
    simp only [mainStep, hpc, Option.some.injEq] at h
    split at h <;> subst h <;> exact .inl ⟨rfl, rfl, .inl rfl⟩
  | readyCheck =>
    simp only [mainStep, hpc, Option.some.injEq] at h
    split at h <;> subst h <;> exact .inl ⟨rfl, rfl, .inl rfl⟩
  | _ => simp only [mainStep, hpc] at h; cases h; exact .inl ⟨rfl, rfl, .inl rfl⟩

theorem evStep_joined {s s' : Sys} {e : Ev} (h : s.evStep e = some s') :
    joined s'.main.pc = false := by
  cases e with
  | setJob j => simp only [evStep, Option.some.injEq] at h; split at h <;> subst h <;> rfl
  | pause => cases h; rfl
  | setEnabled b =>
    simp only [evStep] at h
    split at h <;> cases h
    dsimp only; split <;> rfl
  | stop => cases h; rfl
  | config c b => cases h; dsimp only; split <;> rfl
  | ready =>
    simp only [evStep] at h
    split at h <;> cases h
    dsimp only; split <;> rfl

/-- Without threads there are no workers; there are none between join and
launch either, and the launch is that of `m_threads`. -/
structure JoinInv (s : Sys) : Prop where
  threads : s.main.threads = [] → s.ws = []
  joined : joined s.main.pc = true → s.ws = []
  launch : ∀ d a, s.main.pc = .bLaunch d a → s.main.threads = d

theorem stopK_pc_ne_launch (k : StopK) (d : List CpuLaunchData) (a : After) :
    k.pc ≠ .bLaunch d a := by
  cases k with
  | after b => cases b <;> simp [StopK.pc, After.pc]
  | apply j => simp [StopK.pc]
  | launch e b => simp [StopK.pc]

theorem join_main {s s' : Sys} (I : JoinInv s) (h : s.mainStep = some s') : JoinInv s' := by
  have hl : ∀ {pc}, Sys.joined pc = false → ∀ d a, pc ≠ .bLaunch d a := by
    rintro _ hj d a rfl; cases hj
  rcases mainStep_join h with ⟨hw, ht, hj | ⟨k, -, hn, hp⟩⟩ | ⟨k, -, -, hw, hp, ht⟩ |
    ⟨k, hpc, hw, ht, hp⟩ | ⟨d, a, hpc, hw, ht, hp⟩ | ⟨d, a, hpc, hw, ht, hp⟩
  · exact ⟨fun h => hw.trans (I.threads (ht ▸ h)), (fun h => by rw [hj] at h; cases h),
      fun d a h => absurd h (hl hj d a)⟩
  · have hnil := hw.trans (I.threads hn)
    exact ⟨fun _ => hnil, fun _ => hnil, fun d a h => absurd (hp ▸ h) (stopK_pc_ne_launch k d a)⟩
  · exact ⟨fun _ => hw, fun _ => hw, fun d a h => by rw [hp] at h; cases h⟩
  · have hnil := hw.trans (I.joined (by rw [hpc]; rfl))
    exact ⟨fun _ => hnil, fun _ => hnil, fun d a h => absurd (hp ▸ h) (stopK_pc_ne_launch k d a)⟩
  · have hnil := hw.trans (I.joined (by rw [hpc]; rfl))
    exact ⟨fun _ => hnil, fun _ => hnil, fun d' a' h => by rw [hp] at h; cases h; exact ht⟩
  · have hd := I.launch d a hpc
    refine ⟨fun h => ?_, (fun h => by rw [hp, joined_after] at h; cases h),
      fun d' a' h => absurd (hp ▸ h) (hl (joined_after a) d' a')⟩
    rw [hw, ← hd, ← ht, h]; rfl

theorem join_inductive (C : Crypto) (c : CpuConfig) : (lts C c).Inductive JoinInv where
  init _ h := h ▸ ⟨fun _ => rfl, fun _ => rfl, fun _ _ h => by cases h⟩
  step s l s' I h := by
    cases l with
    | ev e =>
      obtain ⟨-, h⟩ := step_ev h
      obtain ⟨hw, -, -, -, -, -, -, ht⟩ := evStep_frame h
      have hj := evStep_joined h
      refine ⟨fun h => hw.trans (I.threads (ht ▸ h)), fun h => ?_, fun d a h => ?_⟩
      · rw [hj] at h; cases h
      · rw [h] at hj; cases hj
    | main => exact join_main I h
    | bg a => obtain ⟨q, -, rfl⟩ := step_bg h; exact ⟨I.threads, I.joined, I.launch⟩
    | w i ok =>
      obtain ⟨w, sh', w', hw, -, rfl⟩ := step_w h
      have hne : s.ws ≠ [] := List.ne_nil_of_mem (List.mem_of_getElem? hw)
      exact ⟨fun h => absurd (I.threads h) hne, fun h => absurd (I.joined h) hne, I.launch⟩

/-! ## The nonce globals -/

/-- Positions at which the main thread calls `Nonce::touch`. -/
def touches : MainPc → Bool
  | .sjTouch _ | .bTouch _ | .bStart _ _ | .hTouch | .pauseTouch | .enableTouch => true
  | _ => false

/-- Positions at which the main thread sets the sequence to 0. -/
def stops : MainPc → Bool
  | .stopSequence _ | .bStopSequence _ => true
  | _ => false

/-- All the main thread does to the nonce globals. -/
theorem mainStep_nonce {s s' : Sys} (h : s.mainStep = some s') :
    (∃ p, s'.sh.nonce = s.sh.nonce.pause p) ∨
    (touches s.main.pc = true ∧ s'.sh.nonce = s.sh.nonce.touch) ∨
    (stops s.main.pc = true ∧ s'.sh.nonce = s.sh.nonce.stop) ∨
    (s.main.pc = .hReset ∧ s.main.reset = true ∧ s'.sh.nonce = s.sh.nonce.reset) := by
  cases hpc : s.main.pc with
  | idle => simp [mainStep, hpc] at h
  | sjTouch j => simp only [mainStep, hpc] at h; cases h; exact .inr (.inl ⟨rfl, rfl⟩)
  | bTouch k => simp only [mainStep, hpc] at h; cases h; exact .inr (.inl ⟨rfl, rfl⟩)
  | bStart d a => simp only [mainStep, hpc] at h; cases h; exact .inr (.inl ⟨rfl, rfl⟩)
  | hTouch => simp only [mainStep, hpc] at h; cases h; exact .inr (.inl ⟨rfl, rfl⟩)
  | pauseTouch => simp only [mainStep, hpc] at h; cases h; exact .inr (.inl ⟨rfl, rfl⟩)
  | enableTouch => simp only [mainStep, hpc] at h; cases h; exact .inr (.inl ⟨rfl, rfl⟩)
  | stopSequence k => simp only [mainStep, hpc] at h; cases h; exact .inr (.inr (.inl ⟨rfl, rfl⟩))
  | bStopSequence k => simp only [mainStep, hpc] at h; cases h; exact .inr (.inr (.inl ⟨rfl, rfl⟩))
  | hReset =>
    simp only [mainStep, hpc, Option.some.injEq] at h
    split at h <;> subst h
    · exact .inr (.inr (.inr ⟨rfl, ‹_›, rfl⟩))
    · exact .inl ⟨_, rfl⟩
  | bJoin k => simp only [mainStep, hpc] at h; split at h <;> cases h; exact .inl ⟨_, rfl⟩
  | sjInit j => simp only [mainStep, hpc] at h; split at h <;> cases h <;> exact .inl ⟨_, rfl⟩
  | hDisabled =>
    simp only [mainStep, hpc, Option.some.injEq] at h
    split at h <;> subst h <;> exact .inl ⟨_, rfl⟩
  | hUnpause =>
    simp only [mainStep, hpc, Option.some.injEq] at h
    split at h <;> subst h <;> exact .inl ⟨_, rfl⟩
  | enablePause =>
    simp only [mainStep, hpc, Option.some.injEq] at h
    split at h <;> subst h <;> exact .inl ⟨_, rfl⟩
  | readyCheck =>
    simp only [mainStep, hpc, Option.some.injEq] at h
    split at h <;> subst h <;> exact .inl ⟨_, rfl⟩
  | _ => simp only [mainStep, hpc] at h; cases h; exact .inl ⟨_, rfl⟩

/-- The main thread completes no hash. -/
theorem mainStep_hist {s s' : Sys} (h : s.mainStep = some s') :
    s'.sh.hist = s.sh.hist ∨ ∃ e, s'.sh.hist = e :: s.sh.hist ∧ ∀ r, e ≠ .hashed r := by
  cases hpc : s.main.pc with
  | idle => simp [mainStep, hpc] at h
  | sjPause j => simp only [mainStep, hpc] at h; cases h; exact .inr ⟨_, rfl, by simp⟩
  | sjStore j => simp only [mainStep, hpc] at h; cases h; exact .inr ⟨_, rfl, by simp⟩
  | pausePause => simp only [mainStep, hpc] at h; cases h; exact .inr ⟨_, rfl, by simp⟩
  | sjInit j =>
    simp only [mainStep, hpc] at h
    split at h <;> cases h
    · exact .inr ⟨_, rfl, by simp⟩
    · exact .inl rfl
  | bJoin k => simp only [mainStep, hpc] at h; split at h <;> cases h; exact .inl rfl
  | hDisabled =>
    simp only [mainStep, hpc, Option.some.injEq] at h
    split at h <;> subst h
    · exact .inl rfl
    · exact .inr ⟨_, rfl, by simp⟩
  | hReset =>
    simp only [mainStep, hpc, Option.some.injEq] at h
    split at h <;> subst h
    · exact .inr ⟨_, rfl, by simp⟩
    · exact .inl rfl
  | hUnpause =>
    simp only [mainStep, hpc, Option.some.injEq] at h
    split at h <;> subst h
    · exact .inr ⟨_, rfl, by simp⟩
    · exact .inl rfl
  | enablePause =>
    simp only [mainStep, hpc, Option.some.injEq] at h
    split at h <;> subst h
    · exact .inl rfl
    · exact .inr ⟨_, rfl, by simp⟩
  | readyCheck =>
    simp only [mainStep, hpc, Option.some.injEq] at h
    split at h <;> subst h
    · exact .inr ⟨_, rfl, by simp⟩
    · exact .inl rfl
  | _ => simp only [mainStep, hpc] at h; cases h; exact .inl rfl

/-- The counter moves in whole reservations, so no fetched value is retried. -/
structure CounterInv (s : Sys) : Prop where
  counter : s.sh.nonce.counter % kReserveCount = 0
  fetched : ∀ w ∈ s.ws, ∀ c ∈ CpuWorker.decides w.pc, c % kReserveCount = 0

theorem counter_inductive (C : Crypto) (c : CpuConfig) : (lts C c).Inductive CounterInv where
  init _ h := h ▸ ⟨rfl, fun _ h => by cases h⟩
  step s l s' I h := by
    cases l with
    | ev e =>
      obtain ⟨hw, hn, -, -, -, -, -, -⟩ := evStep_frame (step_ev h).2
      exact ⟨hn ▸ I.counter, hw ▸ I.fetched⟩
    | main =>
      refine ⟨?_, ?_⟩
      · rcases mainStep_nonce h with ⟨p, hn⟩ | ⟨-, hn⟩ | ⟨-, hn⟩ | ⟨-, -, hn⟩ <;> rw [hn]
        · exact I.counter
        · exact I.counter
        · exact I.counter
        · rfl
      · rcases mainStep_ws h with hw | ⟨k, -, -, hw⟩ | ⟨d, a, -, hw⟩ <;> rw [hw]
        · exact I.fetched
        · exact fun _ h => by cases h
        · intro w hw c hc
          obtain ⟨e, -, rfl⟩ := List.mem_map.mp hw
          cases hc
    | bg a => obtain ⟨q, -, rfl⟩ := step_bg h; exact ⟨I.counter, I.fetched⟩
    | w i ok =>
      obtain ⟨w, sh', w', hw, hr, rfl⟩ := step_w h
      have hset : (∀ c ∈ CpuWorker.decides w'.pc, c % kReserveCount = 0) →
          ∀ v ∈ s.ws.set i w', ∀ c ∈ CpuWorker.decides v.pc, c % kReserveCount = 0 := by
        intro hw' v hv
        rcases List.mem_or_eq_of_mem_set hv with hv | rfl
        · exact I.fetched v hv
        · exact hw'
      rcases CpuWorker.wstep_shared hr with ⟨rfl, hd⟩ | ⟨-, hd, -, rfl⟩ | ⟨c, p, -, hd, -, rfl⟩ |
        ⟨vm, -, -, hd, rfl⟩
      · exact ⟨I.counter, hset fun c hc => by rw [hd] at hc; cases hc⟩
      · refine ⟨?_, hset fun c hc => by rw [hd] at hc; cases hc; exact I.counter⟩
        have : (s.sh.nonce.counter + kReserveCount) % kReserveCount = 0 := by
          rw [Nat.add_mod_right]; exact I.counter
        exact this
      · exact ⟨I.counter, hset fun c hc => by rw [hd] at hc; cases hc⟩
      · exact ⟨I.counter, hset fun c hc => by rw [hd] at hc; cases hc⟩

/-! ## The workers inside the miner -/

/-- The job and every worker are well formed. -/
structure WorkersOk (s : Sys) : Prop where
  job : CpuWorker.JobOk s.sh.job
  ws : ∀ w ∈ s.ws, CpuWorker.WorkerOk w

theorem workers_inductive (C : Crypto) (c : CpuConfig) : (lts C c).Inductive WorkersOk where
  init _ h := h ▸ ⟨.inl rfl, fun _ h => by cases h⟩
  step s l s' I h := by
    cases l with
    | ev e =>
      obtain ⟨hw, -, hj, -, -, -, -, -⟩ := evStep_frame (step_ev h).2
      exact ⟨hj ▸ I.job, hw ▸ I.ws⟩
    | main =>
      refine ⟨?_, ?_⟩
      · rcases mainStep_job h with ⟨hj, -, -⟩ | ⟨j, -, -, hj, -⟩ | ⟨j, -, -, -, hj, -⟩ |
          ⟨j, -, -, hj, -⟩ <;> rw [hj]
        · exact I.job
        · exact .inr j.2
        · exact I.job
        · exact I.job
      · rcases mainStep_ws h with hw | ⟨k, -, -, hw⟩ | ⟨d, a, -, hw⟩ <;> rw [hw]
        · exact I.ws
        · exact fun _ h => by cases h
        · intro w hw
          obtain ⟨e, -, rfl⟩ := List.mem_map.mp hw
          exact .launch _
    | bg a => obtain ⟨q, -, rfl⟩ := step_bg h; exact ⟨I.job, I.ws⟩
    | w i ok =>
      obtain ⟨w, sh', w', hw, hr, rfl⟩ := step_w h
      have hj := (CpuWorker.wstep_frame hr).1
      refine ⟨hj ▸ I.job, fun v hv => ?_⟩
      rcases List.mem_or_eq_of_mem_set hv with hv | rfl
      · exact I.ws v hv
      · exact CpuWorker.workerOk_step I.job (I.ws w (List.mem_of_getElem? hw)) hr

/-! ## Concrete runs

Jobs, configurations and label sequences the executions of the later modules
are put together from. -/

/-- A job with an empty nonce field; `x` tells two blobs apart. -/
def mkJob (a : Algorithm) (seed : Bytes) (x : UInt8) (id : String) : Job :=
  { algorithm := a, seed := seed, blob := x :: List.replicate 159 0, id := id, target := 2 ^ 64 }

theorem mkJob_valid {a : Algorithm} (h : a ≠ .INVALID) (seed : Bytes) (x : UInt8) (id : String) :
    (mkJob a seed x id).Valid := by
  refine ⟨h, ?_, by simp [mkJob, Job.size, kMaxBlobSize], fun _ => ?_⟩
  · simp only [mkJob, Job.nonceOffset, Job.nonceSize, Job.size, List.length_cons,
      List.length_replicate]
    cases a <;> simp
  · cases a <;> rfl

/-- A job as a pool sends it. -/
def poolJob (seed : Bytes) (x : UInt8) (id : String) : PoolJob :=
  ⟨mkJob .RX_0 seed x id, mkJob_valid (by decide) seed x id⟩

/-- `n` CPU threads for every algorithm. -/
def threadsConfig (n : Nat) : CpuConfig := { enabled := true, threads := fun _ => List.replicate n 0 }

/-- The main thread works its event off in `n` steps. -/
def mains (n : Nat) : List Lbl := List.replicate n .main

/-- `n` steps of worker `i`. -/
def works (i n : Nat) : List Lbl := List.replicate n (.w i true)

/-- The background thread initialises what is pending, from the take to `IDLE`. -/
def bgs (n : Nat) : List Lbl := List.replicate n (.bg .full)

end Sys

end Rxs
