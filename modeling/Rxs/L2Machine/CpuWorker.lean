import Rxs.L2Machine.Nonce
import Rxs.L2Machine.RxQueue

/-!
# The CPU worker thread

`CpuWorker` is one `CpuWorker<1>` running `start()`: its members, the locals of
its hashing loop and its position `pc`. `wstep` is one step of it; every read
or write of shared state is a step of its own, so any other thread may move
between two of them. `Shared` is what a worker sees of the rest of the miner.

RandomX itself is the parameter `Crypto`: `fill` hashes the input and fills the
scratchpad (`randomx_calculate_hash_first` and the tail of
`randomx_calculate_hash_next`), `run` executes the programs on the filled
scratchpad against the dataset in use and yields the 32-byte hash. A hash is
thus in work from the `fill` of its input to the `run` of the next round, and
`HashEnv` is the configuration and memory it meets at either end.

A worker only changes the nonce globals and appends to the history
(`wstep_frame`). The history `hist` (latest first) is no part of the source: it
records the events the laws about whole runs speak of.

The benchmark build option is not modelled (no benchmark job is ever set), and
intensity is 1 for every RandomX algorithm, so `N = 1`.
-/
namespace Rxs

open Rxs.Core

/-- What the programs of a hash meet: the configuration, and the content and
the overwrite count of the memory they read. -/
structure HashEnv where
  config : ConfigurationBase := .monero
  content : Option RxKey := none
  epoch : Nat := 0
  deriving DecidableEq, Repr

structure Crypto where
  fill : ConfigurationBase → Bytes → Bytes
  run : ConfigurationBase → Option RxKey → Bytes → Bytes
  blake2b : Bytes → Bytes
  /-- keccak prefix hash and `generate_signature` -/
  sign : EphemeralKeys → Bytes → Bytes
  run_length : ∀ c k t, (run c k t).length = 32
  blake2b_length : ∀ b, (blake2b b).length = 32
  sign_length : ∀ k b, (sign k b).length = 64

theorem length_padded (t : Bytes) : (Bytes.writeAt (List.replicate 32 0) 0
    (t.take 32 ++ List.replicate (32 - t.length) 0)).length = 32 := by
  simp [Bytes.writeAt]
  omega

/-- A stand-in with the right lengths, for executions. -/
def Crypto.sample : Crypto where
  fill _ b := b
  run _ _ t := Bytes.writeAt (List.replicate 32 0) 0 (t.take 32 ++ List.replicate (32 - t.length) 0)
  blake2b b := Bytes.writeAt (List.replicate 32 0) 0 (b.take 32 ++ List.replicate (32 - b.length) 0)
  sign _ b := Bytes.writeAt (List.replicate 64 0) 0 (b.take 32)
  run_length _ _ t := length_padded t
  blake2b_length := length_padded
  sign_length _ _ := by simp [Bytes.writeAt]

/-- The virtual machine: bound to the dataset, or to the cache as it was after
its `bound`-th overwriting.
mirrors src/crypto/rx/RxVm.cpp:28-61 -/
structure Vm where
  full : Bool
  bound : Nat
  deriving DecidableEq, Repr

/-- `extra_data` of a submission. -/
inductive Extra where
  | none
  | rawHash (b : Bytes)
  | signature (b : Bytes)
  deriving DecidableEq, Repr

/-- A completed hash: what was tested against the target, and whether it was
submitted. `fillEnv` and `runEnv` are what its two ends met. -/
structure HashRec where
  job : Job
  nonce : Nat
  hash : Bytes
  extra : Extra
  submitted : Bool
  fillEnv : HashEnv
  runEnv : HashEnv
  deriving DecidableEq, Repr

inductive Event where
  | stored (j : Job)
  | reset
  | handling
  | unpaused
  | mainPaused
  | reserve (j : Job)
  | hashed (r : HashRec)
  deriving DecidableEq, Repr

/-- `locked`: the main thread holds the mutex of `Miner::job()`. -/
structure Shared where
  nonce : Nonce := {}
  job : Job := {}
  locked : Bool := false
  rx : Rx := {}
  hist : List Event := []
  deriving DecidableEq, Repr

/-- Where `consumeJob` returns to: the hashing loop, or the outer loop.
mirrors src/backend/cpu/CpuWorker.cpp:133,220 -/
inductive Ret where
  | loop | outer
  deriving DecidableEq, Repr

/-- mirrors src/backend/cpu/CpuWorker.cpp:118-274 -/
inductive WPc where
  | selfTest | outer | pausedCheck | waitPaused | waitSequence | afterWait
  | consume (k : Ret)
  | takeJob (k : Ret)
  | addSequence (k : Ret) (j : Job)
  | addJob (k : Ret) (j : Job)
  | saveFetch (k : Ret)
  | saveDecide (k : Ret) (c : Nat)
  | poll (k : Ret)
  | sleepCheck (k : Ret)
  | bindVm (k : Ret)
  | guard | body | hashFirst | round | roundFetch
  | roundDecide (c : Nat)
  | hashNext | tail | done | fault
  deriving DecidableEq, Repr

/-- The locals of `start()` and the hash buffers; `temp` is `tempHash` with the
scratchpad filled from it.
mirrors src/backend/cpu/CpuWorker.cpp:136-141 and src/backend/cpu/CpuWorker.h:63-66 -/
structure Locals where
  first : Bool := true
  nonce : Nat := 0
  temp : Bytes := []
  fillEnv : HashEnv := {}
  prevJob : Bytes := []
  sigSaved : Bytes := []
  deriving DecidableEq, Repr

/-- mirrors src/backend/cpu/CpuWorker.h:40-72 -/
structure CpuWorker where
  algorithm : Algorithm
  pc : WPc := .selfTest
  m : WorkerJob := {}
  vm : Option Vm := none
  seed : Bytes := []
  l : Locals := {}
  deriving DecidableEq, Repr

namespace CpuWorker

/-- Return from `consumeJob`. Entering the loop sets its locals up afresh. -/
def ret (w : CpuWorker) : Ret → CpuWorker
  | .loop => { w with pc := .guard, l := {} }
  | .outer => { w with pc := .outer }

/-- mirrors src/base/net/stratum/Job.cpp:412-423 -/
def generateMinerSignature (C : Crypto) (keys : EphemeralKeys) (m : WorkerJob) : Bytes :=
  C.sign keys ((Bytes.writeAt m.blob (m.job.nonceOffset + m.job.nonceSize)
    (List.replicate 64 0)).take m.job.size)

def sigOffset (m : WorkerJob) : Nat := m.job.nonceOffset + m.job.nonceSize

/-- The signature is written behind the nonce field, for jobs that carry keys.
mirrors src/backend/cpu/CpuWorker.cpp:168-170,184-187 -/
def signed (C : Crypto) (m : WorkerJob) : WorkerJob :=
  match m.job.ephKeys with
  | none => m
  | some keys =>
    { m with blob := Bytes.writeAt m.blob (sigOffset m) (generateMinerSignature C keys m) }

/-- The memory the worker's virtual machine reads. A light machine compiled for
another cache than the present one reads nothing defined. -/
def hashEnv (rx : Rx) (vm : Vm) : HashEnv :=
  match rx.storage.bind (·.dataset) with
  | none => { config := rx.config }
  | some d =>
    if vm.full then { config := rx.config, content := d.mem, epoch := d.memEpoch }
    else { config := rx.config, epoch := d.cacheEpoch,
           content := if vm.bound = d.cacheEpoch then d.cache else none }

/-- `randomx_calculate_hash_first` and the copy of its input.
mirrors src/backend/cpu/CpuWorker.cpp:165-178 -/
def hashFirst (C : Crypto) (rx : Rx) (vm : Vm) (w : CpuWorker) : CpuWorker :=
  let m := signed C w.m
  { w with
    m := m, pc := .round,
    l := { w.l with
      first := false, temp := C.fill rx.config m.input, fillEnv := hashEnv rx vm,
      prevJob := if rx.config.tweakV2Commitment then m.input else w.l.prevJob } }

/-- What the loop body computes after `nextRound`: `m_hash` (the commitment
where commitments are enabled), the extra data, and whether the value is below
the target.
mirrors src/backend/cpu/CpuWorker.cpp:184-229 -/
def finish (C : Crypto) (rx : Rx) (vm : Vm) (w : CpuWorker) : HashRec :=
  let raw := C.run rx.config (hashEnv rx vm).content w.l.temp
  let hash := if rx.config.tweakV2Commitment then C.blake2b (w.l.prevJob ++ raw) else raw
  { job := w.m.job, nonce := w.l.nonce, hash := hash,
    extra := if rx.config.tweakV2Commitment then .rawHash raw
      else if w.m.job.hasMinerSignature then .signature (Bytes.slice w.m.blob (sigOffset w.m) 64)
      else .none,
    submitted := Bytes.readLE (Bytes.slice hash 24 8) < w.m.job.target,
    fillEnv := w.l.fillEnv, runEnv := hashEnv rx vm }

/-- `randomx_calculate_hash_next`: the tail fills the scratchpad for the input
of the coming round.
mirrors src/backend/cpu/CpuWorker.cpp:184-198 -/
def hashNext (C : Crypto) (rx : Rx) (vm : Vm) (w : CpuWorker) : CpuWorker :=
  let m := signed C w.m
  { w with
    m := m, pc := .guard,
    l := { w.l with
      temp := C.fill rx.config m.input, fillEnv := hashEnv rx vm,
      sigSaved := if w.m.job.hasMinerSignature then Bytes.slice w.m.blob (sigOffset w.m) 64
        else w.l.sigSaved,
      prevJob := if rx.config.tweakV2Commitment then m.input else w.l.prevJob } }

/-- `allocateRandomX_VM` once it has the dataset; `ok` is whether `RxVm::create`
succeeds.
mirrors src/backend/cpu/CpuWorker.cpp:88-96 -/
def bindVm (d : RxDataset) (ok : Bool) (w : CpuWorker) : CpuWorker :=
  let vm := match w.vm with
    | none => if ok then some ⟨d.full, d.cacheEpoch⟩ else none
    | some vm =>
      if d.full = false ∧ w.m.job.seed ≠ w.seed then some { vm with bound := d.cacheEpoch }
      else some vm
  { w with vm := vm, seed := w.m.job.seed }

/-- One step of the worker thread. `ok` answers a VM creation.
mirrors src/backend/cpu/CpuWorker.cpp:74-96,118-274 and
src/backend/common/WorkerJob.h:51-65,127-163 -/
def wstep (C : Crypto) (ok : Bool) (s : Shared) (w : CpuWorker) : Option (Shared × CpuWorker) :=
  match w.pc with
  | .selfTest => some (s, { w with pc := if w.algorithm.isRandomX then .outer else .done })
  | .outer => some (s, { w with pc := if s.nonce.sequence > 0 then .pausedCheck else .done })
  | .pausedCheck =>
    some (s, if s.nonce.paused then { w with pc := .waitPaused } else w.ret .loop)
  | .waitPaused =>
    some (s, { w with pc := if s.nonce.paused then .waitSequence else .afterWait })
  | .waitSequence =>
    some (s, { w with pc := if s.nonce.sequence > 0 then .waitPaused else .afterWait })
  | .afterWait =>
    some (s, { w with pc := if s.nonce.sequence = 0 then .done else .consume .loop })
  | .consume k =>
    some (s, if s.nonce.sequence = 0 then w.ret k else { w with pc := .takeJob k })
  | .takeJob k => if s.locked then none else some (s, { w with pc := .addSequence k s.job })
  | .addSequence k j =>
    some (s, { w with m := { w.m with sequence := s.nonce.sequence }, pc := .addJob k j })
  | .addJob k j =>
    some (s, if w.m.job.isEqual j then { w with pc := .poll k }
      else { w with m := w.m.save j, pc := .saveFetch k })
  | .saveFetch k =>
    if Nonce.refuses kReserveCount w.m.mask then
      some (s, { w with m := { w.m with reserved := false }, pc := .poll k })
    else some ({ s with nonce := s.nonce.fetchAdd kReserveCount,
                        hist := .reserve w.m.job :: s.hist },
      { w with pc := .saveDecide k s.nonce.counter })
  | .saveDecide k c =>
    match Nonce.decision kReserveCount w.m.mask c with
    | .again => some (s, { w with pc := .saveFetch k })
    | .fail p => some ({ s with nonce := s.nonce.pause (s.nonce.paused || p) },
        { w with m := { w.m with reserved := false }, pc := .poll k })
    | .ok p => some ({ s with nonce := s.nonce.pause (s.nonce.paused || p) },
        { w with m := w.m.grant c, pc := .poll k })
  | .poll k =>
    some (s, { w with pc := if (s.rx.dataset w.m.job).isSome then .bindVm k else .sleepCheck k })
  | .sleepCheck k => some (s, if s.nonce.sequence = 0 then w.ret k else { w with pc := .poll k })
  | .bindVm k =>
    match s.rx.storage.bind (·.dataset) with
    | none => some (s, { w with pc := .fault })
    | some d => some (s, (w.bindVm d ok).ret k)
  | .guard =>
    some (s, { w with pc := if s.nonce.isOutdated w.m.sequence then .tail else .body })
  | .body =>
    if w.m.job.algorithm.l3 ≠ w.algorithm.l3 then some (s, { w with pc := .tail })
    else some (s, { w with l := { w.l with nonce := w.m.nonce },
                           pc := if w.l.first then .hashFirst else .round })
  | .hashFirst =>
    match w.vm with
    | none => some (s, { w with pc := .fault })
    | some vm => some (s, w.hashFirst C s.rx vm)
  | .round =>
    let rounds := w.m.rounds + 1
    if rounds &&& (kReserveCount - 1) = 0 then
      some (s, { w with m := { w.m with rounds := rounds }, pc := .roundFetch })
    else some (s, { w with m := { w.m with rounds := rounds }.advance, pc := .hashNext })
  | .roundFetch =>
    if Nonce.refuses kReserveCount w.m.mask then
      some (s, { w with m := { w.m with reserved := false }, pc := .tail })
    else some ({ s with nonce := s.nonce.fetchAdd kReserveCount,
                        hist := .reserve w.m.job :: s.hist },
      { w with pc := .roundDecide s.nonce.counter })
  | .roundDecide c =>
    match Nonce.decision kReserveCount w.m.mask c with
    | .again => some (s, { w with pc := .roundFetch })
    | .fail p => some ({ s with nonce := s.nonce.pause (s.nonce.paused || p) },
        { w with m := { w.m with reserved := false }, pc := .tail })
    | .ok p => some ({ s with nonce := s.nonce.pause (s.nonce.paused || p) },
        { w with m := w.m.grant c, pc := .hashNext })
  | .hashNext =>
    match w.vm with
    | none => some (s, { w with pc := .fault })
    | some vm => some ({ s with hist := .hashed (w.finish C s.rx vm) :: s.hist },
        w.hashNext C s.rx vm)
  | .tail => some (s, { w with pc := if s.nonce.paused then .outer else .consume .outer })
  | .done => none
  | .fault => none

/-! ## What a step can do to the shared state -/

/-- The fetched counter a worker still has to decide about. -/
def decides : WPc → Option Nat
  | .saveDecide _ c | .roundDecide c => some c
  | _ => none

/-- Positions whose next step is a `fetch_add`. -/
def fetches : WPc → Bool
  | .saveFetch _ | .roundFetch => true
  | _ => false

@[simp] theorem decides_ret (w : CpuWorker) (k : Ret) : decides (w.ret k).pc = none := by
  cases k <;> rfl

/-- A worker reserves a range, raises the pause flag for the last range of its
mask, or completes a hash; nothing else is visible to other threads. It has a
fetched counter to decide about only right after it reserved. -/
theorem wstep_shared {C : Crypto} {ok : Bool} {s s' : Shared} {w w' : CpuWorker}
    (h : wstep C ok s w = some (s', w')) :
    (s' = s ∧ decides w'.pc = none) ∨
    (fetches w.pc = true ∧ decides w'.pc = some s.nonce.counter ∧ w'.m = w.m ∧
      s' = { s with nonce := s.nonce.fetchAdd kReserveCount,
                    hist := .reserve w.m.job :: s.hist }) ∨
    (∃ c p, decides w.pc = some c ∧ decides w'.pc = none ∧
      (p = true → Nonce.lastRange w.m.mask c = true) ∧
      s' = { s with nonce := s.nonce.pause (s.nonce.paused || p) }) ∨
    (∃ vm, w.pc = .hashNext ∧ w.vm = some vm ∧ decides w'.pc = none ∧
      s' = { s with hist := .hashed (w.finish C s.rx vm) :: s.hist }) := by
  have hd : ∀ {c : Nat} {p : Bool}, Nonce.decision kReserveCount w.m.mask c = .fail p ∨
      Nonce.decision kReserveCount w.m.mask c = .ok p → p = true →
      Nonce.lastRange w.m.mask c = true := by
    intro c p hc hp; subst hp; exact Nonce.decision_pause hc
  cases hpc : w.pc with
  | saveFetch k =>
    simp only [wstep, hpc] at h
    split at h <;> cases h
    · exact .inl ⟨rfl, rfl⟩
    · exact .inr (.inl ⟨rfl, rfl, rfl, rfl⟩)
  | roundFetch =>
    simp only [wstep, hpc] at h
    split at h <;> cases h
    · exact .inl ⟨rfl, rfl⟩
    · exact .inr (.inl ⟨rfl, rfl, rfl, rfl⟩)
  | saveDecide k c =>
    simp only [wstep, hpc] at h
    split at h <;> cases h
    · exact .inl ⟨rfl, rfl⟩
    · rename_i p he; exact .inr (.inr (.inl ⟨c, p, rfl, rfl, hd (.inl he), rfl⟩))
    · rename_i p he; exact .inr (.inr (.inl ⟨c, p, rfl, rfl, hd (.inr he), rfl⟩))
  | roundDecide c =>
    simp only [wstep, hpc] at h
    split at h <;> cases h
    · exact .inl ⟨rfl, rfl⟩
    · rename_i p he; exact .inr (.inr (.inl ⟨c, p, rfl, rfl, hd (.inl he), rfl⟩))
    · rename_i p he; exact .inr (.inr (.inl ⟨c, p, rfl, rfl, hd (.inr he), rfl⟩))
  | hashNext =>
    simp only [wstep, hpc] at h
    split at h <;> cases h
    · exact .inl ⟨rfl, rfl⟩
    · rename_i vm hvm; exact .inr (.inr (.inr ⟨vm, rfl, hvm, rfl, rfl⟩))
  | bindVm k =>
    simp only [wstep, hpc] at h
    split at h <;> cases h
    · exact .inl ⟨rfl, rfl⟩
    · exact .inl ⟨rfl, decides_ret _ _⟩
  | body =>
    simp only [wstep, hpc] at h
    split at h <;> cases h
    · exact .inl ⟨rfl, rfl⟩
    · exact .inl ⟨rfl, by dsimp only; split <;> rfl⟩
  | hashFirst => simp only [wstep, hpc] at h; split at h <;> cases h <;> exact .inl ⟨rfl, rfl⟩
  | takeJob k => simp only [wstep, hpc] at h; split at h <;> cases h; exact .inl ⟨rfl, rfl⟩
  | round => simp only [wstep, hpc] at h; split at h <;> cases h <;> exact .inl ⟨rfl, rfl⟩
  | done => simp [wstep, hpc] at h
  | fault => simp [wstep, hpc] at h
  | addSequence k j => simp only [wstep, hpc] at h; cases h; exact .inl ⟨rfl, rfl⟩
  | _ =>
    simp only [wstep, hpc] at h; cases h
    refine .inl ⟨rfl, ?_⟩
    split <;> first | rfl | exact decides_ret _ _

theorem wstep_frame {C : Crypto} {ok : Bool} {s s' : Shared} {w w' : CpuWorker}
    (h : wstep C ok s w = some (s', w')) :
    s'.job = s.job ∧ s'.locked = s.locked ∧ s'.rx = s.rx ∧
      s'.nonce.sequence = s.nonce.sequence ∧ s.nonce.counter ≤ s'.nonce.counter := by
  rcases wstep_shared h with ⟨rfl, -⟩ | ⟨-, -, -, rfl⟩ | ⟨c, p, -, -, -, rfl⟩ |
    ⟨vm, -, -, -, rfl⟩
  · exact ⟨rfl, rfl, rfl, rfl, Nat.le_refl _⟩
  · exact ⟨rfl, rfl, rfl, rfl, Nat.le_add_right _ _⟩
  · exact ⟨rfl, rfl, rfl, rfl, Nat.le_refl _⟩
  · exact ⟨rfl, rfl, rfl, rfl, Nat.le_refl _⟩

/-! ## What holds of every worker -/

/-- No job yet, or one that came through `Miner::setJob`. -/
def JobOk (j : Job) : Prop := j = {} ∨ j.Valid

/-- The job copied out of the miner and not yet added. -/
def copied : WPc → Option Job
  | .addSequence _ j | .addJob _ j => some j
  | _ => none

/-- Positions in the loop body after the scratchpad check. -/
def hashing : WPc → Bool
  | .hashFirst | .round | .roundFetch | .roundDecide _ | .hashNext => true
  | _ => false

structure WorkerOk (w : CpuWorker) : Prop where
  length : w.m.blob.length = kMaxBlobSize
  job : JobOk w.m.job
  copied : ∀ j, copied w.pc = some j → JobOk j
  algorithm : w.pc ≠ .selfTest → w.pc ≠ .done → w.algorithm ≠ .INVALID
  hashing : hashing w.pc = true → w.m.job.Valid

theorem nonceOffset_le (j : Job) : j.nonceOffset + j.nonceSize + 64 ≤ kMaxBlobSize := by
  unfold Job.nonceOffset Job.nonceSize kMaxBlobSize; split <;> omega

theorem WorkerOk.fits {w : CpuWorker} (h : WorkerOk w) : w.m.Fits := by
  have := nonceOffset_le w.m.job
  unfold WorkerJob.Fits
  rw [h.length]
  unfold Job.nonceSize at this; omega

theorem JobOk.size_le {j : Job} (h : JobOk j) : j.size ≤ kMaxBlobSize := by
  rcases h with rfl | h
  · exact Nat.zero_le _
  · exact Nat.le_of_lt h.2.2.1

theorem length_save {m : WorkerJob} {j : Job} (hm : m.blob.length = kMaxBlobSize) (hj : JobOk j) :
    (m.save j).blob.length = kMaxBlobSize := by
  rw [← hm]
  exact Bytes.length_writeAt (by rw [hm, Nat.zero_add]; exact hj.size_le)

theorem signed_cases (C : Crypto) (m : WorkerJob) : signed C m = m ∨
    ∃ keys, m.job.ephKeys = some keys ∧ signed C m =
      { m with blob := Bytes.writeAt m.blob (sigOffset m) (generateMinerSignature C keys m) } := by
  unfold signed
  cases hk : m.job.ephKeys with
  | none => exact .inl rfl
  | some keys => exact .inr ⟨keys, rfl, rfl⟩

theorem length_signed {C : Crypto} {m : WorkerJob} (hm : m.blob.length = kMaxBlobSize) :
    (signed C m).blob.length = kMaxBlobSize := by
  rcases signed_cases C m with e | ⟨keys, -, e⟩ <;> rw [e]
  · exact hm
  · rw [← hm]
    refine Bytes.length_writeAt ?_
    have := nonceOffset_le m.job
    rw [hm, generateMinerSignature, C.sign_length]
    exact this

@[simp] theorem job_signed (C : Crypto) (m : WorkerJob) : (signed C m).job = m.job := by
  unfold signed; split <;> rfl

@[simp] theorem sequence_signed (C : Crypto) (m : WorkerJob) :
    (signed C m).sequence = m.sequence := by
  unfold signed; split <;> rfl

@[simp] theorem rounds_signed (C : Crypto) (m : WorkerJob) : (signed C m).rounds = m.rounds := by
  unfold signed; split <;> rfl

@[simp] theorem mask_signed (C : Crypto) (m : WorkerJob) : (signed C m).mask = m.mask := by
  unfold signed; split <;> rfl

@[simp] theorem reserved_signed (C : Crypto) (m : WorkerJob) :
    (signed C m).reserved = m.reserved := by
  unfold signed; split <;> rfl

/-- The signature stands behind the nonce. -/
theorem nonce_signed {C : Crypto} {m : WorkerJob} (hm : m.blob.length = kMaxBlobSize) :
    (signed C m).nonce = m.nonce := by
  rcases signed_cases C m with e | ⟨keys, -, e⟩ <;> rw [e]
  have hl : (generateMinerSignature C keys m).length = 64 := C.sign_length _ _
  refine congrArg Bytes.readLE (Bytes.slice_writeAt_of_disjoint ?_ (.inl (Nat.le_refl _)))
  rw [hl, hm]; exact nonceOffset_le m.job

/-- A scratchpad of the right size means that a job was added. -/
theorem valid_of_l3 {w : CpuWorker} (hj : JobOk w.m.job) (ha : w.algorithm ≠ .INVALID)
    (hl : w.m.job.algorithm.l3 = w.algorithm.l3) : w.m.job.Valid := by
  rcases hj with hj | hj
  · rw [hj] at hl
    have : (Algorithm.INVALID).l3 ≠ w.algorithm.l3 := by
      cases hw : w.algorithm <;> first | exact absurd hw ha | decide
    exact absurd hl this
  · exact hj

theorem WorkerOk.launch (a : Algorithm) : WorkerOk { algorithm := a } where
  length := List.length_replicate ..
  job := .inl rfl
  copied _ h := by cases h
  algorithm h _ := absurd rfl h
  hashing h := by cases h

/-- Only position, sequence, rounds, mask and locals change. -/
theorem WorkerOk.move {w w' : CpuWorker} (I : WorkerOk w) (hb : w'.m.blob.length = w.m.blob.length)
    (hj : w'.m.job = w.m.job) (ha : w'.algorithm = w.algorithm)
    (hc : CpuWorker.copied w'.pc = none) (hal : w.pc ≠ .selfTest ∧ w.pc ≠ .done)
    (hh : CpuWorker.hashing w'.pc = true → w.m.job.Valid) : WorkerOk w' where
  length := hb.trans I.length
  job := hj ▸ I.job
  copied j h := by rw [hc] at h; cases h
  algorithm _ _ := ha ▸ I.algorithm hal.1 hal.2
  hashing h := hj ▸ hh h

theorem workerOk_ret {w : CpuWorker} (I : WorkerOk w) (hal : w.pc ≠ .selfTest ∧ w.pc ≠ .done)
    (k : Ret) : WorkerOk (w.ret k) := by
  cases k <;> exact I.move rfl rfl rfl rfl hal (fun h => by cases h)

theorem length_grant {w : CpuWorker} (I : WorkerOk w) (c : Nat) :
    (w.m.grant c).blob.length = w.m.blob.length :=
  WorkerJob.length_setNonce I.fits _

theorem workerOk_step {C : Crypto} {ok : Bool} {s s' : Shared} {w w' : CpuWorker}
    (hs : JobOk s.job) (I : WorkerOk w) (h : wstep C ok s w = some (s', w')) : WorkerOk w' := by
  cases hpc : w.pc with
  | selfTest =>
    simp only [wstep, hpc] at h; cases h
    refine ⟨I.length, I.job, ?_, ?_, ?_⟩ <;> dsimp only
    · split <;> exact fun _ h => by cases h
    · split
      · exact fun _ _ => (Algorithm.isRandomX_iff _).mp ‹_›
      · exact fun _ h => absurd rfl h
    · split <;> exact fun h => by cases h
  | takeJob k =>
    simp only [wstep, hpc] at h
    split at h <;> cases h
    exact ⟨I.length, I.job, by rintro _ ⟨⟩; exact hs,
      fun _ _ => I.algorithm (by simp [hpc]) (by simp [hpc]), fun h => by cases h⟩
  | addSequence k j =>
    simp only [wstep, hpc] at h; cases h
    exact ⟨I.length, I.job, by rintro _ ⟨⟩; exact I.copied j (by rw [hpc]; rfl),
      fun _ _ => I.algorithm (by simp [hpc]) (by simp [hpc]), fun h => by cases h⟩
  | addJob k j =>
    have hj := I.copied j (by rw [hpc]; rfl)
    simp only [wstep, hpc] at h
    split at h <;> cases h
    · exact I.move rfl rfl rfl rfl (by simp [hpc]) (fun h => by cases h)
    · exact ⟨length_save I.length hj, hj, (fun _ h => by cases h),
        fun _ _ => I.algorithm (by simp [hpc]) (by simp [hpc]), fun h => by cases h⟩
  | saveFetch k =>
    simp only [wstep, hpc] at h
    split at h <;> cases h <;>
      exact I.move rfl rfl rfl rfl (by simp [hpc]) (fun h => by cases h)
  | saveDecide k c =>
    simp only [wstep, hpc] at h
    split at h <;> cases h
    · exact I.move rfl rfl rfl rfl (by simp [hpc]) (fun h => by cases h)
    · exact I.move rfl rfl rfl rfl (by simp [hpc]) (fun h => by cases h)
    · exact I.move (length_grant I c) rfl rfl rfl (by simp [hpc]) (fun h => by cases h)
  | bindVm k =>
    simp only [wstep, hpc] at h
    split at h <;> cases h
    · exact I.move rfl rfl rfl rfl (by simp [hpc]) (fun h => by cases h)
    · exact workerOk_ret (w := w.bindVm _ ok)
        ⟨I.length, I.job, I.copied, I.algorithm, I.hashing⟩ (by simp [bindVm, hpc]) k
  | body =>
    simp only [wstep, hpc] at h
    split at h <;> cases h
    · exact I.move rfl rfl rfl rfl (by simp [hpc]) (fun h => by cases h)
    · rename_i hl
      have hv := valid_of_l3 I.job (I.algorithm (by simp [hpc]) (by simp [hpc])) (not_not.mp hl)
      refine I.move rfl rfl rfl ?_ (by simp [hpc]) fun _ => hv
      dsimp only; split <;> rfl
  | hashFirst =>
    simp only [wstep, hpc] at h
    split at h <;> cases h
    · exact I.move rfl rfl rfl rfl (by simp [hpc]) (fun h => by cases h)
    · exact I.move ((length_signed I.length).trans I.length.symm) (job_signed C w.m) rfl rfl
        (by simp [hpc]) fun _ => I.hashing (by rw [hpc]; rfl)
  | round =>
    have hv := I.hashing (by rw [hpc]; rfl)
    simp only [wstep, hpc] at h
    split at h <;> cases h
    · exact I.move rfl rfl rfl rfl (by simp [hpc]) fun _ => hv
    · exact I.move (WorkerJob.length_setNonce (m := { w.m with rounds := _ }) I.fits _) rfl rfl rfl
        (by simp [hpc]) fun _ => hv
  | roundFetch =>
    have hv := I.hashing (by rw [hpc]; rfl)
    simp only [wstep, hpc] at h
    split at h <;> cases h <;> exact I.move rfl rfl rfl rfl (by simp [hpc]) fun _ => hv
  | roundDecide c =>
    have hv := I.hashing (by rw [hpc]; rfl)
    simp only [wstep, hpc] at h
    split at h <;> cases h
    · exact I.move rfl rfl rfl rfl (by simp [hpc]) fun _ => hv
    · exact I.move rfl rfl rfl rfl (by simp [hpc]) fun _ => hv
    · exact I.move (length_grant I c) rfl rfl rfl (by simp [hpc]) fun _ => hv
  | hashNext =>
    simp only [wstep, hpc] at h
    split at h <;> cases h
    · exact I.move rfl rfl rfl rfl (by simp [hpc]) (fun h => by cases h)
    · exact I.move ((length_signed I.length).trans I.length.symm) (job_signed C w.m) rfl rfl
        (by simp [hpc]) (fun h => by cases h)
  | done => simp [wstep, hpc] at h
  | fault => simp [wstep, hpc] at h
  | _ =>
    simp only [wstep, hpc] at h; cases h
    first
      | exact I.move rfl rfl rfl rfl (by simp [hpc]) (fun h => by cases h)
      | (split <;> first
          | exact workerOk_ret I (by simp [hpc]) _
          | exact I.move rfl rfl rfl rfl (by simp [hpc]) (fun h => by cases h))

end CpuWorker

end Rxs
