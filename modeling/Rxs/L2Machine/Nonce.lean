import Rxs.Core.Masks
import Rxs.L2Machine.Job

/-!
# The shared nonce counter and the per-worker job slot

`Nonce` is the global state of `crypto/common/Nonce`: the pause flag, the CPU
sequence and the counter of the only nonce slot (`Nonce::MAX` is 1). Sequence
and counter are unbounded here; in the source they are 64 bits wide and wrap
after 2^64 touches or 2^49 reservations.

`Nonce::next` is two steps for the threads that run it: the `fetch_add`, and
what it decides about the fetched value (`Nonce.decision`).

`WorkerJob` is `WorkerJob<1>`: every job has index 0, so only the first of its
two slots is ever used and the branch of `add` that returns to slot 0 is dead.
`reserved` is a history bit, the result of the last `Nonce::next`: `nextRound`
tests it, `save` drops it.

* `merge_eq`: the nonce written by `Nonce::next` keeps the bits above the mask
  and takes the counter below it.
* `decision_ok` / `decision_mul`: a granted range lies inside the mask, and a
  counter that only moves in whole reservations never meets the 32-bit seam.
* `nonce_setNonce`, `nonce_save`: what a write to the nonce field and a new job
  leave in it.
-/
namespace Rxs

open Rxs.Core

/-- mirrors src/backend/cpu/CpuWorker.cpp:50 -/
def kReserveCount : Nat := 32768

/-- mirrors src/crypto/common/Nonce.cpp:25-27 -/
structure Nonce where
  paused : Bool := true
  sequence : Nat := 1
  counter : Nat := 0
  deriving DecidableEq, Repr

namespace Nonce

/-- mirrors src/crypto/common/Nonce.h:39-43 -/
def isOutdated (n : Nonce) (sequence : Nat) : Bool := n.sequence ≠ sequence
def pause (n : Nonce) (paused : Bool) : Nonce := { n with paused := paused }
def reset (n : Nonce) : Nonce := { n with counter := 0 }
def stop (n : Nonce) : Nonce := { n with sequence := 0 }
def touch (n : Nonce) : Nonce := { n with sequence := n.sequence + 1 }
def fetchAdd (n : Nonce) (reserveCount : Nat) : Nonce :=
  { n with counter := n.counter + reserveCount }

/-- mirrors src/crypto/common/Nonce.cpp:35 -/
def mask63 (mask : Nat) : Nat := mask &&& 0x7FFFFFFFFFFFFFFF

/-- The early return before the counter is touched.
mirrors src/crypto/common/Nonce.cpp:36-38 -/
def refuses (reserveCount mask : Nat) : Bool :=
  reserveCount = 0 || mask63 mask < reserveCount - 1

/-- `fail`/`ok` carry whether `pause(true)` was called on the way. -/
inductive Decision where
  | fail (pause : Bool)
  | again
  | ok (pause : Bool)
  deriving DecidableEq, Repr

/-- mirrors src/crypto/common/Nonce.cpp:41-65 -/
def decision (reserveCount mask counter : Nat) : Decision :=
  if mask63 mask < counter then .fail false
  else if mask63 mask - counter ≤ reserveCount - 1 then
    if mask63 mask - counter < reserveCount - 1 then .fail true else .ok true
  else if 0xFFFFFFFF - counter % 2 ^ 32 < reserveCount - 1 then .again
  else .ok false

/-- The 32-bit value written to the nonce field.
mirrors src/crypto/common/Nonce.cpp:57 -/
def merge (old mask counter : Nat) : Nat :=
  ((old &&& (0xFFFFFFFFFFFFFFFF - mask63 mask)) ||| counter) % 2 ^ 32

theorem mask63_nonceMask (j : Job) : mask63 j.nonceMask = j.nonceMask := by
  unfold Job.nonceMask; split <;> decide

theorem refuses_nonceMask (j : Job) : refuses kReserveCount j.nonceMask = false := by
  simp only [refuses, mask63_nonceMask]
  unfold Job.nonceMask; split <;> decide

/-- A granted range `[c, c + 32768)` lies inside the mask. -/
theorem decision_ok {mask c : Nat} {p : Bool} (h : decision kReserveCount mask c = .ok p) :
    c + kReserveCount ≤ mask63 mask + 1 := by
  unfold decision kReserveCount at h
  unfold kReserveCount
  split at h
  · cases h
  · split at h
    · split at h
      · cases h
      · omega
    · omega

/-- Multiples of the reservation never meet the 32-bit seam. -/
theorem decision_mul {mask c : Nat} (hc : c % kReserveCount = 0) :
    decision kReserveCount mask c ≠ .again := by
  unfold decision
  unfold kReserveCount at *
  split
  · simp
  · split
    · split <;> simp
    · split
      · omega
      · simp

/-- The pause flag is raised exactly for the last range of the mask. -/
def lastRange (mask counter : Nat) : Bool :=
  counter ≤ mask63 mask && mask63 mask - counter ≤ kReserveCount - 1

theorem decision_pause {mask c : Nat}
    (h : decision kReserveCount mask c = .fail true ∨ decision kReserveCount mask c = .ok true) :
    lastRange mask c = true := by
  unfold decision at h
  unfold lastRange
  split at h
  · simp at h
  · split at h
    · simp only [Bool.and_eq_true, decide_eq_true_eq]; omega
    · split at h <;> simp at h

/-- The complement of a mask has the bits above it. -/
theorem and_compl_eq {v k : Nat} (hk : k ≤ 32) (hv : v < 2 ^ 32) :
    v &&& (0xFFFFFFFFFFFFFFFF - (2 ^ k - 1)) = v / 2 ^ k * 2 ^ k := by
  have hcompl : 0xFFFFFFFFFFFFFFFF - (2 ^ k - 1) = 2 ^ 64 - 2 ^ k := by
    have := Nat.two_pow_pos k
    omega
  rw [hcompl, Masks.and_high (by omega) (by omega)]

/-- The written nonce keeps the bits above the mask and takes the counter below. -/
theorem merge_eq {old k c : Nat} (hk : k = 24 ∨ k = 32) (hold : old < 2 ^ 32) (hc : c < 2 ^ k) :
    merge old (2 ^ k - 1) c = old / 2 ^ k * 2 ^ k + c := by
  have hm : mask63 (2 ^ k - 1) = 2 ^ k - 1 := by rcases hk with rfl | rfl <;> decide
  unfold merge
  rw [hm, and_compl_eq (by omega) hold, Masks.or_high hc]
  rcases hk with rfl | rfl <;> omega

end Nonce

/-- mirrors src/backend/common/WorkerJob.h:35-118 -/
structure WorkerJob where
  sequence : Nat := 0
  job : Job := {}
  blob : Bytes := List.replicate kMaxBlobSize 0
  rounds : Nat := 0
  mask : Nat := 0
  reserved : Bool := false
  deriving DecidableEq, Repr

namespace WorkerJob

/-- mirrors src/backend/common/WorkerJob.h:121-125 -/
def nonce (m : WorkerJob) : Nat := Bytes.readLE (Bytes.slice m.blob m.job.nonceOffset 4)

def setNonce (m : WorkerJob) (v : Nat) : WorkerJob :=
  { m with blob := Bytes.writeAt m.blob m.job.nonceOffset (Bytes.le 4 v) }

/-- The bytes handed to the hash: the first `job.size()` of the buffer. -/
def input (m : WorkerJob) : Bytes := m.blob.take m.job.size

/-- `save` up to its call of `Nonce::next`.
mirrors src/backend/common/WorkerJob.h:150-163 -/
def save (m : WorkerJob) (j : Job) : WorkerJob :=
  { m with job := j, rounds := 0, mask := j.nonceMask, blob := Bytes.writeAt m.blob 0 j.blob }

/-- The write of a granted range to the nonce field.
mirrors src/crypto/common/Nonce.cpp:57 -/
def grant (m : WorkerJob) (c : Nat) : WorkerJob :=
  { m.setNonce (Nonce.merge m.nonce m.mask c) with reserved := true }

/-- The next nonce inside a range.
mirrors src/backend/common/WorkerJob.h:142-144 -/
def advance (m : WorkerJob) : WorkerJob := m.setNonce ((m.nonce + 1) % 2 ^ 32)

/-- Room for the nonce field in the worker's buffer. -/
def Fits (m : WorkerJob) : Prop := m.job.nonceOffset + 4 ≤ m.blob.length

theorem nonce_lt {m : WorkerJob} : m.nonce < 2 ^ 32 := by
  have h := Bytes.readLE_lt (Bytes.slice m.blob m.job.nonceOffset 4)
  have hl : (Bytes.slice m.blob m.job.nonceOffset 4).length ≤ 4 := by simp [Bytes.slice]
  exact Nat.lt_of_lt_of_le h (Nat.pow_le_pow_right (by decide) hl)

theorem nonce_setNonce {m : WorkerJob} (hm : m.Fits) (v : Nat) :
    (m.setNonce v).nonce = v % 2 ^ 32 := by
  have hs : Bytes.slice (Bytes.writeAt m.blob m.job.nonceOffset (Bytes.le 4 v))
      m.job.nonceOffset 4 = Bytes.le 4 v := by
    have := Bytes.slice_writeAt (b := m.blob) (d := Bytes.le 4 v) (by simpa [Fits] using hm)
    simpa using this
  have hp : (256 : Nat) ^ 4 = 2 ^ 32 := by decide
  simp only [nonce, setNonce, hs, Bytes.readLE_le, hp]

@[simp] theorem length_setNonce {m : WorkerJob} (hm : m.Fits) (v : Nat) :
    (m.setNonce v).blob.length = m.blob.length :=
  Bytes.length_writeAt (by simpa [Fits] using hm)

theorem nonce_grant {m : WorkerJob} (hm : m.Fits) (c : Nat) :
    (m.grant c).nonce = Nonce.merge m.nonce m.mask c := by
  have h := nonce_setNonce hm (Nonce.merge m.nonce m.mask c)
  rwa [Nat.mod_eq_of_lt (show Nonce.merge m.nonce m.mask c < 2 ^ 32 from
    Nat.mod_lt _ (by decide))] at h

theorem nonce_advance {m : WorkerJob} (hm : m.Fits) : m.advance.nonce = (m.nonce + 1) % 2 ^ 32 := by
  have h := nonce_setNonce hm ((m.nonce + 1) % 2 ^ 32)
  rwa [Nat.mod_mod] at h

/-- A freshly saved job shows its own nonce bits. -/
theorem nonce_save {m : WorkerJob} {j : Job} (hj : j.nonceOffset + 4 ≤ j.size) :
    (m.save j).nonce = j.nonce := by
  have hw : Bytes.slice (Bytes.writeAt m.blob 0 j.blob) j.nonceOffset 4 =
      Bytes.slice j.blob j.nonceOffset 4 := by
    simp only [Bytes.writeAt, List.take_zero, List.nil_append]
    rw [← Bytes.slice_take (n := j.size) hj, Job.size, List.take_left']
    rfl
  simp only [nonce, save, hw, Job.nonce]

end WorkerJob

end Rxs
