import Rxs.L4App.Miner

/-!
# Stopping drains the workers

The sequence value 0 means that the backend was stopped. A worker checks it at
every turn, but its hashing loop only compares the present sequence with the
one `WorkerJob::add` recorded. The law says that no worker is in that loop with
a recorded 0 and a job of its own, that none calls a hash function without a
virtual machine, and that after a stop the join ends.

`Ok` is the condition under which it holds: the sequence is not set to 0 while
a worker that comes back from the pause is between the check of `consumeJob`
and the record of `WorkerJob::add` (`window`), and a virtual machine can be
created when one is asked for.

* `safe_wstep`: one step of a worker keeps what the law rests on (`Safe`).
* `rank_wstep`: with sequence 0 a step of a worker takes it closer to its end.
* **`stop_drains`**: in every run of `Ok` steps the law holds.
* `stop_drains_fails`: a stop in the window. The worker records 0, meets 0 in
  the loop, and hashes on while the main thread joins it.
-/
namespace Rxs.L5.StopDrains

open Rxs.Core Rxs.Sys Rxs.CpuWorker

/-! ## Positions -/

/-- Between the check and the record, on the way back into the loop. -/
def window : WPc → Bool
  | .takeJob .loop | .addSequence .loop _ => true
  | _ => false

/-- Between the record and the virtual machine. -/
def settingUp : WPc → Bool
  | .addJob _ _ | .saveFetch _ | .saveDecide _ _ | .poll _ | .sleepCheck _ | .bindVm _ => true
  | _ => false

/-- After the record, on the way back to the check of the outer loop. -/
def backOut : WPc → Bool
  | .addJob .outer _ | .saveFetch .outer | .saveDecide .outer _ | .poll .outer
  | .sleepCheck .outer | .bindVm .outer | .outer | .done => true
  | _ => false

def adding : WPc → Bool
  | .addJob _ _ => true
  | _ => false

def inLoop (pc : WPc) : Bool := pc = .body || hashing pc

def binds : WPc → Bool
  | .bindVm _ => true
  | _ => false

/-- The main thread is about to set the sequence to 0, or to join. -/
def stopping : MainPc → Bool
  | .bStop _ | .bStopSequence _ | .bJoin _ => true
  | _ => false

/-- The condition on a step, read in the state before it. -/
def Ok (s : Sys) : Lbl → Prop
  | .main => stops s.main.pc = true → ∀ w ∈ s.ws, window w.pc = false
  | .w i ok => ∀ w ∈ s.ws[i]?, binds w.pc = true → w.vm = none → ok = true
  | _ => True

instance (s : Sys) (l : Lbl) : Decidable (Ok s l) := by
  induction l using Lbl.casesOn <;> unfold Ok <;> infer_instance

/-! ## One worker -/

/-- What the law rests on, for one worker under sequence `n` and queue `q`. -/
structure Safe (n : Nat) (q : Rx) (w : CpuWorker) : Prop where
  window : window w.pc = true → n ≠ 0
  zero : w.m.sequence = 0 →
    (w.m.job = {} ∧ adding w.pc = false) ∨ (n = 0 ∧ backOut w.pc = true)
  vm : w.vm = none → w.m.job.Valid → settingUp w.pc = true ∨ (n = 0 ∧ inLoop w.pc = false)
  bind : binds w.pc = true → q.hasDataset = true
  fault : w.pc ≠ .fault

theorem Safe.launch (n : Nat) (q : Rx) (a : Algorithm) : Safe n q { algorithm := a } where
  window h := by cases h
  zero _ := .inl ⟨rfl, rfl⟩
  vm _ h := absurd rfl h.1
  bind h := by cases h
  fault h := by cases h

/-- The rest of the miner moves: the sequence may become 0, but not nonzero. -/
theorem Safe.env {n n' : Nat} {q q' : Rx} {w : CpuWorker} (I : Safe n q w)
    (hn : n ≠ 0 ∨ n' = 0) (hw : n' = 0 → StopDrains.window w.pc = false)
    (hq : q.hasDataset = true → q'.hasDataset = true) : Safe n' q' w where
  window h h0 := by rw [hw h0] at h; cases h
  zero h := by
    rcases I.zero h with h | ⟨h, hb⟩
    · exact .inl h
    · rcases hn with hn | hn
      · exact absurd h hn
      · exact .inr ⟨hn, hb⟩
  vm hv hj := by
    rcases I.vm hv hj with h | ⟨h, hb⟩
    · exact .inl h
    · rcases hn with hn | hn
      · exact absurd h hn
      · exact .inr ⟨hn, hb⟩
  bind h := hq (I.bind h)
  fault := I.fault

/-- A step that keeps the recorded sequence, the job and the virtual machine. -/
theorem Safe.move {n : Nat} {q : Rx} {w w' : CpuWorker} (I : Safe n q w)
    (hm : w'.m.sequence = w.m.sequence ∧ w'.m.job = w.m.job ∧ w'.vm = w.vm)
    (hwin : StopDrains.window w'.pc = true → n ≠ 0) (hadd : adding w'.pc = false)
    (hout : n = 0 → backOut w.pc = true → backOut w'.pc = true)
    (hvm : w.m.job.Valid → settingUp w.pc = true ∨ (n = 0 ∧ inLoop w.pc = false) →
      settingUp w'.pc = true ∨ (n = 0 ∧ inLoop w'.pc = false))
    (hbind : binds w'.pc = true → q.hasDataset = true) (hf : w'.pc ≠ .fault) : Safe n q w' where
  window := hwin
  zero h := by
    rw [hm.2.1]
    rcases I.zero (hm.1 ▸ h) with h | ⟨h, hb⟩
    · exact .inl ⟨h.1, hadd⟩
    · exact .inr ⟨h, hout h hb⟩
  vm hv hj := by
    rw [hm.2.1] at hj
    exact hvm hj (I.vm (hm.2.2 ▸ hv) hj)
  bind := hbind
  fault := hf

theorem not_settingUp {pc : WPc} (h : settingUp pc = false) :
    adding pc = false ∧ binds pc = false := by
  cases pc <;> first | exact ⟨rfl, rfl⟩ | cases h

/-- Outside loop and set-up, to another such position. -/
theorem Safe.plain {n : Nat} {q : Rx} {w w' : CpuWorker} (I : Safe n q w)
    (hm : w'.m.sequence = w.m.sequence ∧ w'.m.job = w.m.job ∧ w'.vm = w.vm)
    (hs : settingUp w.pc = false) (hwin : StopDrains.window w'.pc = true → n ≠ 0)
    (hs' : settingUp w'.pc = false) (hl : inLoop w'.pc = false) (hf : w'.pc ≠ .fault)
    (hout : n = 0 → backOut w.pc = true → backOut w'.pc = true) : Safe n q w' := by
  refine I.move hm hwin (not_settingUp hs').1 hout (fun _ h => .inr ?_) (fun h => ?_) hf
  · rcases h with h | h
    · rw [hs] at h; cases h
    · exact ⟨h.1, hl⟩
  · rw [(not_settingUp hs').2] at h; cases h

/-- Out of the loop or on inside it: the worker has its virtual machine, or no job. -/
theorem Safe.looping {n : Nat} {q : Rx} {w w' : CpuWorker} (I : Safe n q w)
    (hm : w'.m.sequence = w.m.sequence ∧ w'.m.job = w.m.job ∧ w'.vm = w.vm)
    (hl : inLoop w.pc = true) (hwin : StopDrains.window w'.pc = false)
    (hs' : settingUp w'.pc = false) (hf : w'.pc ≠ .fault) : Safe n q w' := by
  have hns : settingUp w.pc = false ∧ backOut w.pc = false := by
    cases hpc : w.pc <;> first | exact ⟨rfl, rfl⟩ | (rw [hpc] at hl; cases hl)
  refine I.move hm (fun h => by rw [hwin] at h; cases h) (not_settingUp hs').1
    (fun _ h => by rw [hns.2] at h; cases h) (fun _ h => ?_) (fun h => ?_) hf
  · rcases h with h | h
    · rw [hns.1] at h; cases h
    · rw [hl] at h; cases h.2
  · rw [(not_settingUp hs').2] at h; cases h

/-- Inside the set-up. -/
theorem Safe.setup {n : Nat} {q : Rx} {w w' : CpuWorker} (I : Safe n q w)
    (hm : w'.m.sequence = w.m.sequence ∧ w'.m.job = w.m.job ∧ w'.vm = w.vm)
    (hs : settingUp w'.pc = true) (hadd : adding w'.pc = false)
    (hout : backOut w.pc = true → backOut w'.pc = true)
    (hbind : binds w'.pc = true → q.hasDataset = true) : Safe n q w' := by
  have hns : StopDrains.window w'.pc = false ∧ w'.pc ≠ .fault := by
    cases hpc : w'.pc <;> first | (rw [hpc] at hs; cases hs; done) | exact ⟨rfl, by simp⟩
  exact I.move hm (fun h => by rw [hns.1] at h; cases h) hadd (fun _ => hout)
    (fun _ _ => .inl hs) hbind hns.2

theorem ret_pc (w : CpuWorker) (k : Ret) : window (w.ret k).pc = false ∧
    settingUp (w.ret k).pc = false ∧ inLoop (w.ret k).pc = false ∧ (w.ret k).pc ≠ .fault := by
  cases k <;> exact ⟨rfl, rfl, rfl, by simp [ret]⟩

theorem ret_m (w : CpuWorker) (k : Ret) : (w.ret k).m = w.m ∧ (w.ret k).vm = w.vm := by
  cases k <;> exact ⟨rfl, rfl⟩

/-- Back from `consumeJob`, after the sequence was seen to be 0 or with the
virtual machine. -/
theorem Safe.back {n : Nat} {q : Rx} {w : CpuWorker} (I : Safe n q w) (k : Ret)
    (hout : backOut w.pc = true → k = .outer) (hvm : w.vm = none → n = 0) :
    Safe n q (w.ret k) := by
  obtain ⟨hw, hs, hl, hf⟩ := ret_pc w k
  obtain ⟨hm, hv⟩ := ret_m w k
  refine ⟨(fun h => by rw [hw] at h; cases h), fun h => ?_, fun h _ => .inr ⟨?_, hl⟩, fun h => ?_, hf⟩
  · rw [hm] at h ⊢
    rcases I.zero h with h | ⟨h, hb⟩
    · exact .inl ⟨h.1, (not_settingUp hs).1⟩
    · exact .inr ⟨h, by rw [hout hb]; rfl⟩
  · exact hvm (hv ▸ h)
  · rw [(not_settingUp hs).2] at h; cases h

theorem safe_wstep {C : Crypto} {ok : Bool} {s s' : Shared} {w w' : CpuWorker}
    (hok : binds w.pc = true → w.vm = none → ok = true) (W : WorkerOk w)
    (I : Safe s.nonce.sequence s.rx w) (h : wstep C ok s w = some (s', w')) :
    Safe s.nonce.sequence s.rx w' := by
  cases hpc : w.pc with
  | takeJob k =>
    have hwin := I.window
    rw [hpc] at hwin
    simp only [wstep, hpc] at h
    split at h <;> cases h
    refine I.plain ⟨rfl, rfl, rfl⟩ (by rw [hpc]; rfl) ?_ rfl rfl (by simp)
      (fun _ h => by rw [hpc] at h; cases h)
    cases k with
    | loop => exact hwin
    | outer => exact fun h => by cases h
  | addSequence k j =>
    have hwin := I.window
    rw [hpc] at hwin
    simp only [wstep, hpc] at h; cases h
    refine ⟨(fun h => by cases h), fun h => .inr ⟨h, ?_⟩, fun _ _ => .inl rfl,
      (fun h => by cases h), by simp⟩
    cases k with
    | loop => exact absurd h (hwin rfl)
    | outer => rfl
  | addJob k j =>
    simp only [wstep, hpc] at h
    split at h <;> cases h
    · refine I.setup ⟨rfl, rfl, rfl⟩ rfl rfl ?_ (fun h => by cases h)
      rw [hpc]; cases k <;> exact id
    · refine ⟨(fun h => by cases h), fun h => .inr ?_, fun _ _ => .inl rfl,
        (fun h => by cases h), by simp⟩
      rcases I.zero h with ⟨-, ha⟩ | ⟨h0, hb⟩
      · rw [hpc] at ha; cases ha
      · rw [hpc] at hb
        cases k with
        | loop => cases hb
        | outer => exact ⟨h0, rfl⟩
  | saveFetch k =>
    simp only [wstep, hpc] at h
    split at h <;> cases h <;>
      exact I.setup ⟨rfl, rfl, rfl⟩ rfl rfl (by rw [hpc]; cases k <;> exact id)
        (fun h => by cases h)
  | saveDecide k c =>
    simp only [wstep, hpc] at h
    split at h <;> cases h <;>
      exact I.setup ⟨rfl, rfl, rfl⟩ rfl rfl (by rw [hpc]; cases k <;> exact id)
        (fun h => by cases h)
  | poll k =>
    simp only [wstep, hpc] at h; cases h
    split
    · exact I.setup ⟨rfl, rfl, rfl⟩ rfl rfl (by rw [hpc]; cases k <;> exact id)
        (fun _ => Rx.dataset_hasDataset ‹_›)
    · exact I.setup ⟨rfl, rfl, rfl⟩ rfl rfl (by rw [hpc]; cases k <;> exact id)
        (fun h => by cases h)
  | sleepCheck k =>
    simp only [wstep, hpc] at h; cases h
    split
    · refine I.back k (fun h => ?_) fun _ => ‹_›
      rw [hpc] at h; cases k <;> first | rfl | cases h
    · exact I.setup ⟨rfl, rfl, rfl⟩ rfl rfl (by rw [hpc]; cases k <;> exact id)
        (fun h => by cases h)
  | bindVm k =>
    have hb := I.bind (by rw [hpc]; rfl)
    simp only [wstep, hpc] at h
    split at h <;> cases h
    · rename_i hn
      rw [Rx.hasDataset, hn] at hb; cases hb
    · rename_i d hd
      have I' : Safe s.nonce.sequence s.rx (w.bindVm d ok) :=
        ⟨I.window, I.zero, fun _ _ => .inl (by simp [CpuWorker.bindVm, hpc, settingUp]), I.bind,
          I.fault⟩
      refine I'.back k (fun h => ?_) fun hv => ?_
      · simp only [CpuWorker.bindVm, hpc] at h; cases k <;> first | rfl | cases h
      · -- creation was asked for and succeeded, or there was a machine before
        exfalso
        simp only [CpuWorker.bindVm] at hv
        split at hv
        · rename_i hn
          rw [hok (by rw [hpc]; rfl) hn] at hv; cases hv
        · split at hv <;> cases hv
  | guard =>
    simp only [wstep, hpc] at h; cases h
    split
    · exact I.plain ⟨rfl, rfl, rfl⟩ (by rw [hpc]; rfl) (fun h => by cases h) rfl rfl (by simp)
        (fun _ h => by rw [hpc] at h; cases h)
    · rename_i hn
      have hn : s.nonce.sequence = w.m.sequence := by simpa [Nonce.isOutdated] using hn
      refine ⟨(fun h => by cases h), fun h => ?_, fun hv hj => ?_, (fun h => by cases h), by simp⟩
      · rcases I.zero h with h | ⟨-, h⟩
        · exact .inl ⟨h.1, rfl⟩
        · rw [hpc] at h; cases h
      · exfalso
        rcases I.vm hv hj with h | ⟨h0, -⟩
        · rw [hpc] at h; cases h
        · rcases I.zero (hn ▸ h0) with h | ⟨-, h⟩
          · rw [h.1] at hj; exact hj.1 rfl
          · rw [hpc] at h; cases h
  | body =>
    simp only [wstep, hpc] at h
    split at h <;> cases h
    · exact I.looping ⟨rfl, rfl, rfl⟩ (by rw [hpc]; rfl) rfl rfl (by simp)
    · refine I.looping ⟨rfl, rfl, rfl⟩ (by rw [hpc]; rfl) ?_ ?_ ?_ <;> dsimp only <;> split <;>
        first | rfl | simp
  | hashFirst =>
    have hv := W.hashing (by rw [hpc]; rfl)
    simp only [wstep, hpc] at h
    split at h <;> cases h
    · exfalso
      rcases I.vm ‹_› hv with h | ⟨-, h⟩ <;> rw [hpc] at h <;> cases h
    · exact I.looping ⟨by rw [CpuWorker.hashFirst, sequence_signed], job_signed C w.m, rfl⟩
        (by rw [hpc]; rfl) rfl rfl (by simp [CpuWorker.hashFirst])
  | hashNext =>
    have hv := W.hashing (by rw [hpc]; rfl)
    simp only [wstep, hpc] at h
    split at h <;> cases h
    · exfalso
      rcases I.vm ‹_› hv with h | ⟨-, h⟩ <;> rw [hpc] at h <;> cases h
    · exact I.looping ⟨by rw [CpuWorker.hashNext, sequence_signed], job_signed C w.m, rfl⟩
        (by rw [hpc]; rfl) rfl rfl (by simp [CpuWorker.hashNext])
  | round =>
    simp only [wstep, hpc] at h
    split at h <;> cases h <;> exact I.looping ⟨rfl, rfl, rfl⟩ (by rw [hpc]; rfl) rfl rfl (by simp)
  | roundFetch =>
    simp only [wstep, hpc] at h
    split at h <;> cases h <;> exact I.looping ⟨rfl, rfl, rfl⟩ (by rw [hpc]; rfl) rfl rfl (by simp)
  | roundDecide c =>
    simp only [wstep, hpc] at h
    split at h <;> cases h <;> exact I.looping ⟨rfl, rfl, rfl⟩ (by rw [hpc]; rfl) rfl rfl (by simp)
  | consume k =>
    simp only [wstep, hpc] at h; cases h
    have hout : ∀ {pc'}, s.nonce.sequence = 0 → backOut w.pc = true → backOut pc' = true :=
      fun _ h => by rw [hpc] at h; cases h
    split
    · exact I.back k (fun h => by rw [hpc] at h; cases h) fun _ => ‹_›
    · exact I.plain ⟨rfl, rfl, rfl⟩ (by rw [hpc]; rfl) (fun _ => ‹_›) rfl rfl (by simp) hout
  | outer =>
    simp only [wstep, hpc] at h; cases h
    split
    · refine I.plain ⟨rfl, rfl, rfl⟩ (by rw [hpc]; rfl) (fun h => by cases h) rfl rfl (by simp)
        fun h0 _ => ?_
      omega
    · exact I.plain ⟨rfl, rfl, rfl⟩ (by rw [hpc]; rfl) (fun h => by cases h) rfl rfl (by simp)
        fun _ _ => rfl
  | pausedCheck =>
    simp only [wstep, hpc] at h; cases h
    split
    · exact I.plain ⟨rfl, rfl, rfl⟩ (by rw [hpc]; rfl) (fun h => by cases h) rfl rfl (by simp)
        (fun _ h => by rw [hpc] at h; cases h)
    · exact I.plain ⟨rfl, rfl, rfl⟩ (by rw [hpc]; rfl) (fun h => by cases h) rfl rfl
        (by simp [ret]) (fun _ h => by rw [hpc] at h; cases h)
  | done => simp [wstep, hpc] at h
  | fault => simp [wstep, hpc] at h
  | _ =>
    simp only [wstep, hpc] at h; cases h
    split <;>
      exact I.plain ⟨rfl, rfl, rfl⟩ (by rw [hpc]; rfl) (fun h => by cases h) rfl rfl (by simp)
        (fun _ h => by rw [hpc] at h; cases h)

/-! ## The end of a worker -/

/-- How many steps of its own a worker still makes when the sequence is 0. -/
def rank (w : CpuWorker) : Nat :=
  match w.pc with
  | .done | .fault => 0
  | .outer | .afterWait => 1
  | .selfTest | .waitSequence | .consume .outer => 2
  | .waitPaused | .tail => 3
  | .guard => 5
  | .body => if w.m.sequence = 0 then 4 else 11
  | .pausedCheck | .consume .loop | .bindVm _ | .sleepCheck _ | .hashNext => 6
  | .poll _ | .roundDecide _ => 7
  | .saveDecide _ _ | .roundFetch => 8
  | .saveFetch _ | .round => 9
  | .addJob _ _ | .hashFirst => 10
  | .addSequence _ _ => 11
  | .takeJob _ => 12

theorem rank_le (w : CpuWorker) : rank w ≤ 12 := by
  unfold rank
  split <;> first | decide | (split <;> decide)

theorem rank_ret (w : CpuWorker) (k : Ret) : rank (w.ret k) ≤ 5 := by
  cases k <;> simp [ret, rank]

theorem rank_wstep {C : Crypto} {ok : Bool} {s s' : Shared} {w w' : CpuWorker}
    (h0 : s.nonce.sequence = 0) (W : WorkerOk w) (I : Safe s.nonce.sequence s.rx w)
    (hc : ∀ c ∈ decides w.pc, c % kReserveCount = 0) (h : wstep C ok s w = some (s', w')) :
    rank w' < rank w := by
  cases hpc : w.pc with
  | takeJob k => simp only [wstep, hpc] at h; split at h <;> cases h; simp [rank, hpc]
  | addJob k j => simp only [wstep, hpc] at h; split at h <;> cases h <;> simp [rank, hpc]
  | saveFetch k => simp only [wstep, hpc] at h; split at h <;> cases h <;> simp [rank, hpc]
  | saveDecide k c =>
    have hne : Nonce.decision kReserveCount w.m.mask c ≠ .again :=
      Nonce.decision_mul (hc c (by rw [hpc]; rfl))
    simp only [wstep, hpc] at h
    split at h <;> cases h
    · rename_i he; exact absurd he hne
    · simp [rank, hpc]
    · simp [rank, hpc]
  | roundDecide c =>
    have hne : Nonce.decision kReserveCount w.m.mask c ≠ .again :=
      Nonce.decision_mul (hc c (by rw [hpc]; rfl))
    simp only [wstep, hpc] at h
    split at h <;> cases h
    · rename_i he; exact absurd he hne
    · simp [rank, hpc]
    · simp [rank, hpc]
  | bindVm k =>
    simp only [wstep, hpc] at h
    split at h <;> cases h
    · simp [rank, hpc]
    · rename_i d _
      have := rank_ret (w.bindVm d ok) k
      have he : rank w = 6 := by rw [rank, hpc]
      omega
  | guard =>
    simp only [wstep, hpc] at h; cases h
    split
    · simp [rank, hpc]
    · rename_i hn
      have hn : s.nonce.sequence = w.m.sequence := by simpa [Nonce.isOutdated] using hn
      simp [rank, hpc, ← hn, h0]
  | body =>
    simp only [wstep, hpc] at h
    split at h <;> cases h
    · simp only [rank, hpc]; split <;> decide
    · rename_i hl
      -- with a recorded 0 the worker has no job, so the scratchpad check fails
      have hv := valid_of_l3 W.job (W.algorithm (by simp [hpc]) (by simp [hpc])) (not_not.mp hl)
      have hm : w.m.sequence ≠ 0 := fun hm => by
        rcases I.zero hm with h | ⟨-, h⟩
        · rw [h.1] at hv; exact hv.1 rfl
        · rw [hpc] at h; cases h
      cases hf : w.l.first <;> simp [rank, hpc, hm]
  | hashFirst =>
    simp only [wstep, hpc] at h; split at h <;> cases h <;> simp [rank, hpc, CpuWorker.hashFirst]
  | hashNext =>
    simp only [wstep, hpc] at h; split at h <;> cases h <;> simp [rank, hpc, CpuWorker.hashNext]
  | round => simp only [wstep, hpc] at h; split at h <;> cases h <;> simp [rank, hpc]
  | roundFetch => simp only [wstep, hpc] at h; split at h <;> cases h <;> simp [rank, hpc]
  | consume k =>
    simp only [wstep, hpc, h0] at h; cases h
    cases k <;> simp [rank, hpc, ret]
  | sleepCheck k =>
    simp only [wstep, hpc, h0, if_true] at h; cases h
    have := rank_ret w k
    have he : rank w = 6 := by rw [rank, hpc]
    omega
  | done => simp [wstep, hpc] at h
  | fault => simp [wstep, hpc] at h
  | addSequence k j => simp only [wstep, hpc] at h; cases h; simp [rank, hpc]
  | outer =>
    simp only [wstep, hpc, h0, gt_iff_lt, Nat.lt_irrefl, if_false] at h; cases h
    simp [rank, hpc]
  | waitSequence =>
    simp only [wstep, hpc, h0, gt_iff_lt, Nat.lt_irrefl, if_false] at h; cases h
    simp [rank, hpc]
  | afterWait => simp only [wstep, hpc, h0, if_true] at h; cases h; simp [rank, hpc]
  | _ =>
    simp only [wstep, hpc] at h; cases h
    split <;> simp [rank, hpc, ret]

/-- A worker is blocked by the mutex only. -/
theorem wstep_isSome {C : Crypto} {s : Shared} {w : CpuWorker} (ok : Bool)
    (hl : s.locked = false) (hd : w.pc ≠ .done) (hf : w.pc ≠ .fault) :
    (wstep C ok s w).isSome = true := by
  cases hpc : w.pc with
  | done => exact absurd hpc hd
  | fault => exact absurd hpc hf
  | takeJob k => simp [wstep, hpc, hl]
  | _ =>
    simp only [wstep, hpc]
    first | rfl | (split <;> rfl)

/-! ## The miner -/

structure Inv (s : Sys) : Prop where
  launch : ∀ d a, s.main.pc = .bLaunch d a → s.sh.nonce.sequence ≠ 0
  path : s.sh.nonce.sequence = 0 → s.ws = [] ∨ stopping s.main.pc = true
  safe : ∀ w ∈ s.ws, Safe s.sh.nonce.sequence s.sh.rx w

theorem inv_init (c : CpuConfig) : Inv (init c) where
  launch _ _ h := by cases h
  path _ := .inl rfl
  safe _ h := by cases h

theorem not_stopping {pc : MainPc} (h : touches pc = true) : stopping pc = false := by
  cases pc <;> first | rfl | cases h

theorem mainStep_sequence {s s' : Sys} (h : s.mainStep = some s') :
    s'.sh.nonce.sequence = s.sh.nonce.sequence ∨
    (touches s.main.pc = true ∧ s'.sh.nonce.sequence = s.sh.nonce.sequence + 1) ∨
    (stops s.main.pc = true ∧ s'.sh.nonce.sequence = 0) := by
  rcases mainStep_nonce h with ⟨p, hn⟩ | ⟨ht, hn⟩ | ⟨ht, hn⟩ | ⟨-, -, hn⟩ <;> rw [hn]
  · exact .inl rfl
  · exact .inr (.inl ⟨ht, rfl⟩)
  · exact .inr (.inr ⟨ht, rfl⟩)
  · exact .inl rfl

/-- On its way to the join the main thread stays on it, or has nobody to join. -/
theorem mainStep_stopping {s s' : Sys} (J : JoinInv s) (h : s.mainStep = some s')
    (hs : stopping s.main.pc = true) : s'.ws = [] ∨ stopping s'.main.pc = true := by
  cases hpc : s.main.pc with
  | bStop k =>
    simp only [mainStep, hpc] at h; cases h
    by_cases ht : s.main.threads = []
    · exact .inl (J.threads ht)
    · refine .inr ?_
      simp only [goto, if_neg ht]; rfl
  | bStopSequence k => simp only [mainStep, hpc] at h; cases h; exact .inr rfl
  | bJoin k => simp only [mainStep, hpc] at h; split at h <;> cases h; exact .inl rfl
  | _ => rw [hpc] at hs; cases hs

theorem stopping_of_stops {s s' : Sys} (h : s.mainStep = some s')
    (hs : stops s.main.pc = true) : stopping s'.main.pc = true := by
  cases hpc : s.main.pc with
  | stopSequence k => simp only [mainStep, hpc] at h; cases h; rfl
  | bStopSequence k => simp only [mainStep, hpc] at h; cases h; rfl
  | _ => rw [hpc] at hs; cases hs

theorem mainStep_hasDataset {s s' : Sys} (h : s.mainStep = some s')
    (hd : s.sh.rx.hasDataset = true) : s'.sh.rx.hasDataset = true := by
  rcases mainStep_rx h with hr | ⟨j, -, hr⟩ | ⟨j, -, hr⟩ <;> rw [hr]
  · exact hd
  · exact hd
  · exact Rx.enqueue_hasDataset _ hd

theorem inv_main {s s' : Sys} (J : JoinInv s) (I : Inv s) (hok : Ok s .main)
    (h : s.mainStep = some s') : Inv s' := by
  have hseq := mainStep_sequence h
  refine ⟨fun d a hl => ?_, fun h0 => ?_, fun w hw => ?_⟩
  · -- only `Workers::start` gets there, and it touches
    rcases mainStep_join h with ⟨-, -, hj | ⟨k, -, -, hp⟩⟩ | ⟨k, -, -, -, hp, -⟩ |
      ⟨k, -, -, -, hp⟩ | ⟨d', a', hpc, -, -, -⟩ | ⟨d', a', -, -, -, hp⟩
    · rw [hl] at hj; cases hj
    · exact absurd (hp ▸ hl) (stopK_pc_ne_launch k d a)
    · rw [hl] at hp; cases hp
    · exact absurd (hp ▸ hl) (stopK_pc_ne_launch k d a)
    · simp only [mainStep, hpc] at h; cases h; exact Nat.succ_ne_zero _
    · have := joined_after a'
      rw [← hp, hl] at this; cases this
  · rcases hseq with hs | ⟨-, hs⟩ | ⟨hs, -⟩
    · rcases I.path (hs ▸ h0) with hnil | hst
      · refine .inl ?_
        rcases mainStep_ws h with hw | ⟨k, -, -, hw⟩ | ⟨d, a, hpc, -⟩
        · exact hw.trans hnil
        · exact hw
        · exact absurd (hs ▸ h0) (I.launch d a hpc)
      · exact mainStep_stopping J h hst
    · rw [hs] at h0; cases h0
    · exact .inr (stopping_of_stops h hs)
  · rcases mainStep_ws h with hws | ⟨k, -, -, hws⟩ | ⟨d, a, -, hws⟩ <;> rw [hws] at hw
    · refine (I.safe w hw).env ?_ (fun h0 => ?_) (mainStep_hasDataset h)
      · rcases hseq with hs | ⟨ht, -⟩ | ⟨-, hs⟩
        · rw [hs]; exact (Nat.eq_zero_or_pos _).symm.imp Nat.pos_iff_ne_zero.mp id
        · refine .inl fun h0 => ?_
          rcases I.path h0 with hnil | hst
          · rw [hnil] at hw; cases hw
          · rw [not_stopping ht] at hst; cases hst
        · exact .inr hs
      · rcases hseq with hs | ⟨-, hs⟩ | ⟨hs, -⟩
        · cases hwin : window w.pc with
          | false => rfl
          | true => exact absurd (hs ▸ h0) ((I.safe w hw).window hwin)
        · rw [hs] at h0; cases h0
        · exact hok hs w hw
    · cases hw
    · obtain ⟨e, -, rfl⟩ := List.mem_map.mp hw
      exact .launch _ _ _

theorem inv_step {C : Crypto} {s s' : Sys} {l : Lbl} (J : JoinInv s) (W : WorkersOk s)
    (I : Inv s) (hok : Ok s l) (h : step C s l = some s') : Inv s' := by
  cases l with
  | ev e =>
    obtain ⟨hpc, h⟩ := step_ev h
    obtain ⟨hw, hn, -, -, -, hr, -, -⟩ := evStep_frame h
    have hj := evStep_joined h
    have hd : s.sh.rx.hasDataset = true → s'.sh.rx.hasDataset = true := by
      intro hd
      rcases hr with hr | hr <;> rw [hr] <;> exact hd
    refine ⟨fun d a hl => ?_, fun h0 => .inl ?_, fun w hws => ?_⟩
    · rw [hl] at hj; cases hj
    · rcases I.path (hn ▸ h0) with h | h
      · exact hw.trans h
      · rw [hpc] at h; cases h
    · rw [hw] at hws
      rw [hn]
      exact (I.safe w hws).env ((Nat.eq_zero_or_pos _).symm.imp Nat.pos_iff_ne_zero.mp id)
        (fun h0 => by
          cases hwin : window w.pc with
          | false => rfl
          | true => exact absurd h0 ((I.safe w hws).window hwin)) hd
  | main => exact inv_main J I hok h
  | bg a =>
    obtain ⟨q, hq, rfl⟩ := step_bg h
    refine ⟨I.launch, I.path, fun w hw => ?_⟩
    have S := I.safe w hw
    exact ⟨S.window, S.zero, S.vm, fun hb => Rx.bgStep_hasDataset hq (S.bind hb), S.fault⟩
  | w i ok =>
    obtain ⟨w, sh', w', hw, hr, rfl⟩ := step_w h
    have hmem := List.mem_of_getElem? hw
    obtain ⟨-, -, hrx, hn, -⟩ := CpuWorker.wstep_frame hr
    have S := safe_wstep (hok w hw) (W.ws w hmem) (I.safe w hmem) hr
    refine ⟨fun d a hl => hn ▸ I.launch d a hl, fun h0 => ?_, fun v hv => ?_⟩
    · exact (I.path (hn ▸ h0)).imp (fun h => absurd h (List.ne_nil_of_mem hmem)) id
    · simp only [hn, hrx]
      rcases List.mem_or_eq_of_mem_set hv with hv | rfl
      · exact I.safe v hv
      · exact S

theorem inv_reachable {C : Crypto} {c : CpuConfig} {s : Sys}
    (h : ((lts C c).restrict Ok).Reachable s) : Inv s := by
  refine LTS.reachable_induction (fun s hs => hs ▸ inv_init c) (fun s l s' hr I hs => ?_) h
  have hr := hr.of_restrict
  exact inv_step ((join_inductive C c).reachable hr) ((workers_inductive C c).reachable hr) I
    hs.1 hs.2

/-! ## Draining -/

def isMain : Lbl → Bool
  | .main => true
  | _ => false

/-- A step of worker `i`. -/
def moves (i : Nat) : Lbl → Bool
  | .w j _ => i = j
  | _ => false

def joins : MainPc → Bool
  | .bJoin _ => true
  | _ => false

/-- The run stays before the end of the join. -/
def BeforeJoin (s : Sys) (l : Lbl) : Prop := Ok s l ∧ (isMain l = true → joins s.main.pc = false)

/-- Stopped, with workers left to join. -/
structure Stopped (C : Crypto) (c : CpuConfig) (s : Sys) : Prop where
  reachable : ((lts C c).restrict Ok).Reachable s
  sequence : s.sh.nonce.sequence = 0
  workers : s.ws ≠ []

theorem Stopped.stopping {C : Crypto} {c : CpuConfig} {s : Sys} (S : Stopped C c s) :
    stopping s.main.pc = true :=
  ((inv_reachable S.reachable).path S.sequence).resolve_left S.workers

/-- How many steps the main thread is from the join. -/
def mainRank (s : Sys) : Nat :=
  match s.main.pc with
  | .bStop _ => 2
  | .bStopSequence _ => 1
  | _ => 0

def rankAt (i : Nat) (s : Sys) : Nat := (s.ws[i]?).elim 0 rank

theorem rankAt_le (i : Nat) (s : Sys) : rankAt i s ≤ 12 := by
  unfold rankAt
  cases s.ws[i]? with
  | none => exact Nat.zero_le _
  | some w => exact rank_le w

/-- What a step before the join does to a stopped miner. -/
theorem stopped_step {C : Crypto} {c : CpuConfig} {s s' : Sys} {l : Lbl} (S : Stopped C c s)
    (hok : BeforeJoin s l) (h : step C s l = some s') :
    Stopped C c s' ∧
      (isMain l = true → mainRank s' < mainRank s) ∧ mainRank s' ≤ mainRank s ∧
      ∀ i, (moves i l = true → rankAt i s' < rankAt i s) ∧ rankAt i s' ≤ rankAt i s := by
  have hr' := S.reachable.step ⟨hok.1, h⟩
  have hst := S.stopping
  have hr := S.reachable.of_restrict
  cases l with
  | ev e => rw [(step_ev h).1] at hst; cases hst
  | main =>
    have h : s.mainStep = some s' := h
    cases hpc : s.main.pc with
    | bStop k =>
      have ht : s.main.threads ≠ [] := fun ht =>
        S.workers (((join_inductive C c).reachable hr).threads ht)
      simp only [mainStep, hpc, if_neg ht] at h; cases h
      exact ⟨⟨hr', S.sequence, S.workers⟩, fun _ => by simp [mainRank, hpc, goto],
        by simp [mainRank, hpc, goto], fun i => ⟨(fun h => by cases h), Nat.le_refl _⟩⟩
    | bStopSequence k =>
      simp only [mainStep, hpc] at h; cases h
      exact ⟨⟨hr', rfl, S.workers⟩, fun _ => by simp [mainRank, hpc, goto],
        by simp [mainRank, goto], fun i => ⟨(fun h => by cases h), Nat.le_refl _⟩⟩
    | bJoin k => have := hok.2 rfl; rw [hpc] at this; cases this
    | _ => rw [hpc] at hst; cases hst
  | bg a =>
    obtain ⟨q, -, rfl⟩ := step_bg h
    exact ⟨⟨hr', S.sequence, S.workers⟩, (fun h => by cases h), Nat.le_refl _,
      fun i => ⟨(fun h => by cases h), Nat.le_refl _⟩⟩
  | w j ok =>
    obtain ⟨w, sh', w', hw, hws, rfl⟩ := step_w h
    have hmem := List.mem_of_getElem? hw
    have hlt := rank_wstep S.sequence (((workers_inductive C c).reachable hr).ws w hmem)
      ((inv_reachable S.reachable).safe w hmem)
      (((counter_inductive C c).reachable hr).fetched w hmem) hws
    obtain ⟨hjl, -⟩ := List.getElem?_eq_some_iff.mp hw
    have hj : rankAt j { s with sh := sh', ws := s.ws.set j w' } < rankAt j s := by
      simp only [rankAt, List.getElem?_set_self hjl, hw, Option.elim]; exact hlt
    have hi : ∀ i, i ≠ j → rankAt i { s with sh := sh', ws := s.ws.set j w' } = rankAt i s := by
      intro i hne
      simp only [rankAt, List.getElem?_set_ne (Ne.symm hne)]
    refine ⟨⟨hr', ?_, ?_⟩, (fun h => by cases h), Nat.le_refl _, fun i => ?_⟩
    · exact ((CpuWorker.wstep_frame hws).2.2.2.1).trans S.sequence
    · exact fun h => S.workers (by simpa using h)
    · by_cases he : i = j
      · subst he; exact ⟨fun _ => hj, Nat.le_of_lt hj⟩
      · exact ⟨fun h => absurd (by simpa [moves] using h) he, Nat.le_of_eq (hi i he)⟩

/-- Every worker that has not returned can move; the main thread can, unless it
waits for one of them. -/
theorem stopped_moves {C : Crypto} {c : CpuConfig} {s : Sys} (S : Stopped C c s) :
    (∀ i w ok, s.ws[i]? = some w → w.pc ≠ .done → (step C s (.w i ok)).isSome = true) ∧
    ((step C s .main).isSome = true ∨ (joins s.main.pc = true ∧ allDone s.ws = false)) := by
  have hst := S.stopping
  have hlock := (lock_inductive C c).reachable S.reachable.of_restrict
  refine ⟨fun i w ok hw hd => ?_, ?_⟩
  · have hl : s.sh.locked = false := by
      rw [hlock.locked]
      cases hpc : s.main.pc <;> first | rfl | (rw [hpc] at hst; cases hst)
    have hf := ((inv_reachable S.reachable).safe w (List.mem_of_getElem? hw)).fault
    have := wstep_isSome (C := C) ok hl hd hf
    simp only [step, hw, Option.bind_some, Option.isSome_map, this]
  · cases hpc : s.main.pc with
    | bStop k => exact .inl (by simp [step, mainStep, hpc])
    | bStopSequence k => exact .inl (by simp [step, mainStep, hpc])
    | bJoin k =>
      cases hd : allDone s.ws with
      | true => exact .inl (by simp [step, mainStep, hpc, hd])
      | false => exact .inr ⟨rfl, rfl⟩
    | _ => rw [hpc] at hst; cases hst

/-- Until the join has ended a worker makes at most 12 steps and the main
thread at most 2. -/
theorem stopped_run {C : Crypto} {c : CpuConfig} {s s' : Sys} {ls : List Lbl}
    (S : Stopped C c s) (r : ((lts C c).restrict BeforeJoin).Run s ls s') :
    (∀ i, ls.countP (moves i) ≤ 12) ∧ ls.countP isMain ≤ 2 := by
  have hP : ∀ s l s', Stopped C c s → ((lts C c).restrict BeforeJoin).step s l s' →
      Stopped C c s' := fun s l s' S h => (stopped_step S h.1 h.2).1
  refine ⟨fun i => ?_, ?_⟩
  · have := LTS.Run.count_le_measure (rankAt i) (moves i) hP
      (fun s l s' S h => ((stopped_step S h.1 h.2).2.2.2 i).2)
      (fun s l s' S h => ((stopped_step S h.1 h.2).2.2.2 i).1) r S
    have := rankAt_le i s
    omega
  · have := LTS.Run.count_le_measure mainRank isMain hP
      (fun s l s' S h => (stopped_step S h.1 h.2).2.2.1)
      (fun s l s' S h => (stopped_step S h.1 h.2).2.1) r S
    have hm : mainRank s ≤ 2 := by
      unfold mainRank; split <;> decide
    omega

/-- The two safety halves of the law, for one worker. -/
structure Sound (w : CpuWorker) : Prop where
  /-- in the loop with a recorded 0: no job was added yet, the first turn ends -/
  loop : inLoop w.pc = true → w.m.sequence = 0 → w.m.job = {}
  hash : hashing w.pc = true → w.m.sequence ≠ 0 ∧ w.vm ≠ none
  fault : w.pc ≠ .fault

theorem sound_of_safe {n : Nat} {q : Rx} {w : CpuWorker} (W : WorkerOk w) (I : Safe n q w) :
    Sound w := by
  have hb : inLoop w.pc = true → backOut w.pc = false ∧ settingUp w.pc = false := by
    intro h
    cases hpc : w.pc <;> first | exact ⟨rfl, rfl⟩ | (rw [hpc] at h; cases h)
  have hl : inLoop w.pc = true → w.m.sequence = 0 → w.m.job = {} := by
    intro h h0
    rcases I.zero h0 with hz | ⟨-, hz⟩
    · exact hz.1
    · rw [(hb h).1] at hz; cases hz
  refine ⟨hl, fun h => ?_, I.fault⟩
  have hv := W.hashing h
  have hin : inLoop w.pc = true := by rw [inLoop, h, Bool.or_true]
  refine ⟨fun h0 => ?_, fun hn => ?_⟩
  · rw [hl hin h0] at hv; exact hv.1 rfl
  · rcases I.vm hn hv with h | ⟨-, h⟩
    · rw [(hb hin).2] at h; cases h
    · rw [hin] at h; cases h

/-- **Stopping drains the workers**: in every run whose steps meet `Ok`, no
worker is in the loop with a recorded 0 and a job, none hashes without a
virtual machine, and once the sequence is 0 every worker can move until it has
returned, returns within 12 steps of its own, and the main thread gets through
the join once they have. -/
theorem stop_drains {C : Crypto} {c : CpuConfig} {s : Sys}
    (h : ((lts C c).restrict Ok).Reachable s) :
    (∀ w ∈ s.ws, Sound w) ∧
    (s.sh.nonce.sequence = 0 → s.ws ≠ [] →
      (∀ i w ok, s.ws[i]? = some w → w.pc ≠ .done → (step C s (.w i ok)).isSome = true) ∧
      ((step C s .main).isSome = true ∨ (joins s.main.pc = true ∧ allDone s.ws = false)) ∧
      ∀ ls s', ((lts C c).restrict BeforeJoin).Run s ls s' →
        (∀ i, ls.countP (moves i) ≤ 12) ∧ ls.countP isMain ≤ 2) := by
  have W := (workers_inductive C c).reachable h.of_restrict
  refine ⟨fun w hw => sound_of_safe (W.ws w hw) ((inv_reachable h).safe w hw), fun h0 hne => ?_⟩
  have S : Stopped C c s := ⟨h, h0, hne⟩
  obtain ⟨hm, hmain⟩ := stopped_moves S
  exact ⟨hm, hmain, fun _ _ r => stopped_run S r⟩

/-! ## Concrete runs -/

def jobA : PoolJob := poolJob [1] 1 "a"
def jobB : PoolJob := poolJob [1] 2 "b"

/-- The worker is launched for job `a`, finds the miner paused (no active pool),
and job `b` brings it back from the pause up to the check of `consumeJob`. -/
def resumed : List Lbl :=
  .ev (.setJob jobA) :: mains 7 ++ bgs 8 ++ .ev .ready :: mains 9 ++ .ev .pause :: mains 2 ++
    works 0 3 ++ .ev (.setJob jobB) :: mains 8 ++ works 0 2

/-- The stop arrives before the check. -/
def stopBefore : List Lbl := resumed ++ .ev .stop :: mains 4

/-- The stop arrives between the check and the record. -/
def stopInside : List Lbl := resumed ++ works 0 1 ++ .ev .stop :: mains 4 ++ works 0 9

theorem stop_drains_before : ∃ s,
    LTS.execOk (step .sample) Ok (init (threadsConfig 1)) stopBefore = some s ∧
    ∀ ls s', ((lts .sample (threadsConfig 1)).restrict BeforeJoin).Run s ls s' →
      (∀ i, ls.countP (moves i) ≤ 12) ∧ ls.countP isMain ≤ 2 := by
  obtain ⟨s, hs⟩ : ∃ s, LTS.execOk (step .sample) Ok (init (threadsConfig 1)) stopBefore = some s :=
    Option.isSome_iff_exists.mp (by decide +kernel)
  have he : (LTS.execOk (step .sample) Ok (init (threadsConfig 1)) stopBefore).map
      (fun s => (s.sh.nonce.sequence, s.ws.length)) = some (0, 1) := by decide +kernel
  simp only [hs, Option.map_some, Option.some.injEq, Prod.mk.injEq] at he
  have hne : s.ws ≠ [] := fun h => by rw [h] at he; cases he.2
  exact ⟨s, hs, ((stop_drains (LTS.reachable_of_execOk hs)).2 he.1 hne).2.2⟩

/-- The main thread joins a worker that hashes under the recorded sequence 0. -/
theorem stop_drains_fails : ¬ ∀ s, (lts .sample (threadsConfig 1)).Reachable s →
    ∀ w ∈ s.ws, Sound w := by
  intro h
  obtain ⟨s, hs⟩ : ∃ s, LTS.exec (step .sample) (init (threadsConfig 1)) stopInside = some s :=
    Option.isSome_iff_exists.mp (by decide +kernel)
  have he : (LTS.exec (step .sample) (init (threadsConfig 1)) stopInside).map
      (fun s => (joins s.main.pc, s.ws.map fun w => (hashing w.pc, w.m.sequence))) =
      some (true, [(true, 0)]) := by decide +kernel
  simp only [hs, Option.map_some, Option.some.injEq, Prod.mk.injEq] at he
  obtain ⟨-, he⟩ := he
  obtain ⟨w, hw, hp⟩ : ∃ w ∈ s.ws, (hashing w.pc, w.m.sequence) = (true, 0) :=
    List.mem_map.mp (he ▸ List.mem_singleton_self _)
  have := (h s (LTS.reachable_of_exec hs) w hw).hash (congrArg Prod.fst hp)
  exact this.1 (congrArg Prod.snd hp)

end Rxs.L5.StopDrains
