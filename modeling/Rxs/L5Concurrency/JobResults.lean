import Mathlib.Algebra.Group.Nat.Defs
import Mathlib.Logic.Function.Basic
import Rxs.Core.Channel

/-!
# Results on their way to the network

A worker puts a result into `m_results`, under the lock, and writes to an eventfd before it
leaves the lock. The loop, when the descriptor is readable or without a reason, reads it until
it is empty, swaps `m_results` for an empty vector, under the lock, and hands the results to
the listener one by one. Any number of workers; every step of a thread is one of the system.

A result that is pushed after the last read is behind a write of its own: it is swapped out
by the same callback, whose write then wakes the loop for nothing, or by the next.

* `moves_of_step`: what a step can be.
* `Locked`, `Queued`, `Woken`: the lock, what is where, and why the loop will come.
* `refines`: the handler is a channel.
* `delivered_run`: what it takes until a result is delivered.
* **`job_results`**: every result is delivered once, in order, and none is left behind.
-/
namespace Rxs.L5.JobResults

open Rxs.Core

/-! ## The handler and its threads -/

/-- The largest value of an eventfd. -/
def kMaxCounter : Nat := 2 ^ 64 - 2

/-- No vector has more elements than there are bytes between two pointers. -/
def kMaxSize : Nat := 2 ^ 63 - 1

inductive Thread (ω : Type) where
  | main
  | worker (i : ω)
  deriving DecidableEq, Repr

/-- Where a worker is in `submit`.
mirrors src/net/JobResults.cpp:63-69 -/
inductive WorkerPc (ρ : Type) where
  | out
  | lock (result : ρ)
  | push_back (result : ρ)
  | send
  | unlock
  deriving DecidableEq, Repr

/-- Where the loop is in `on_schedule` and `onAsync`.
mirrors src/base/io/Async.cpp:57-80, src/net/JobResults.cpp:76-91 -/
inductive MainPc where
  | loop
  | read
  | lock
  | swap
  | unlock
  | deliver (next : Nat)
  deriving DecidableEq, Repr

/-- The handler and the threads that use it. What was submitted by whom, what was pushed and
what was delivered since it exists is kept beside it. -/
structure JobResultsPrivate (ω ρ : Type) where
  m_results : List ρ := []
  m_processingResults : List ρ := []
  m_mutex : Option (Thread ω) := none
  /-- the counter of the eventfd -/
  m_async : Nat := 0
  main : MainPc := .loop
  worker : ω → WorkerPc ρ := fun _ => .out
  aborted : Bool := false
  submitted : ω → List ρ := fun _ => []
  pushed : List (ω × ρ) := []
  delivered : List ρ := []

inductive Label (ω ρ : Type) where
  | submit (i : ω) (result : ρ)
  | lock (i : ω)
  | push_back (i : ω)
  | send (i : ω)
  | unlock (i : ω)
  | onSchedule
  | main
  /-- a system call that is made again: `EINTR` -/
  | interrupted (t : Thread ω)
  deriving DecidableEq, Repr

variable {ω ρ : Type}

/-- A step of the loop in its callback.
mirrors src/base/io/Async.cpp:57-80, src/net/JobResults.cpp:78-91 -/
def mainStep (s : JobResultsPrivate ω ρ) : Option (JobResultsPrivate ω ρ) :=
  match s.main with
  | .loop => none
  | .read =>
    if s.m_async = 0 then some { s with main := .lock }
    else some { s with m_async := 0 }
  | .lock =>
    if s.m_mutex = none then some { s with m_mutex := some .main, main := .swap } else none
  | .swap =>
    some { s with
      m_results := s.m_processingResults
      m_processingResults := s.m_results
      main := .unlock }
  | .unlock => some { s with m_mutex := none, main := .deliver 0 }
  | .deliver next =>
    match s.m_processingResults[next]? with
    | some result =>
      some { s with delivered := s.delivered ++ [result], main := .deliver (next + 1) }
    | none => some { s with m_processingResults := [], main := .loop }

variable {s s' : JobResultsPrivate ω ρ} {l : Label ω ρ}

section Steps

variable [DecidableEq ω]

/-- A step of a worker in `submit`. Where there is no memory for a result the program ends.
mirrors src/net/JobResults.cpp:63-69, src/base/io/Async.cpp:96-107 -/
def workerStep (s : JobResultsPrivate ω ρ) : Label ω ρ → Option (JobResultsPrivate ω ρ)
  | .submit i result =>
    match s.worker i with
    | .out =>
      some { s with
        worker := Function.update s.worker i (.lock result)
        submitted := Function.update s.submitted i (s.submitted i ++ [result]) }
    | _ => none
  | .lock i =>
    match s.worker i with
    | .lock result =>
      if s.m_mutex = none then
        some { s with
          worker := Function.update s.worker i (.push_back result)
          m_mutex := some (.worker i) }
      else none
    | _ => none
  | .push_back i =>
    match s.worker i with
    | .push_back result =>
      if s.m_results.length < kMaxSize then
        some { s with
          worker := Function.update s.worker i .send
          m_results := s.m_results ++ [result]
          pushed := s.pushed ++ [(i, result)] }
      else none
    | _ => none
  | .send i =>
    match s.worker i with
    | .send =>
      if s.m_async + 1 ≤ kMaxCounter then
        some { s with worker := Function.update s.worker i .unlock, m_async := s.m_async + 1 }
      -- `write` fails with -1, not with 1
      else some { s with aborted := true }
    | _ => none
  | .unlock i =>
    match s.worker i with
    | .unlock => some { s with worker := Function.update s.worker i .out, m_mutex := none }
    | _ => none
  | _ => none

def step (s : JobResultsPrivate ω ρ) (l : Label ω ρ) : Option (JobResultsPrivate ω ρ) :=
  if s.aborted then none
  else
    match l with
    | .onSchedule => if s.main = .loop then some { s with main := .read } else none
    | .main => mainStep s
    | .interrupted .main => if s.main = .read then some s else none
    | .interrupted (.worker i) =>
      match s.worker i with
      | .send => some s
      | _ => none
    | l => workerStep s l

def lts (ω ρ : Type) [DecidableEq ω] : LTS (JobResultsPrivate ω ρ) (Label ω ρ) :=
  LTS.ofFn {} step

/-! ## What a step can be -/

inductive Moves (s : JobResultsPrivate ω ρ) : Label ω ρ → JobResultsPrivate ω ρ → Prop where
  | submit {i : ω} {result : ρ} (hw : s.worker i = .out) :
      Moves s (.submit i result) { s with
        worker := Function.update s.worker i (.lock result)
        submitted := Function.update s.submitted i (s.submitted i ++ [result]) }
  | lock {i : ω} {result : ρ} (hw : s.worker i = .lock result) (hfree : s.m_mutex = none) :
      Moves s (.lock i) { s with
        worker := Function.update s.worker i (.push_back result)
        m_mutex := some (.worker i) }
  | push_back {i : ω} {result : ρ} (hw : s.worker i = .push_back result)
      (hsize : s.m_results.length < kMaxSize) :
      Moves s (.push_back i) { s with
        worker := Function.update s.worker i .send
        m_results := s.m_results ++ [result]
        pushed := s.pushed ++ [(i, result)] }
  | send {i : ω} (hw : s.worker i = .send) (hmax : s.m_async + 1 ≤ kMaxCounter) :
      Moves s (.send i) { s with
        worker := Function.update s.worker i .unlock
        m_async := s.m_async + 1 }
  | abort {i : ω} (hw : s.worker i = .send) (hmax : ¬ s.m_async + 1 ≤ kMaxCounter) :
      Moves s (.send i) { s with aborted := true }
  | unlock {i : ω} (hw : s.worker i = .unlock) :
      Moves s (.unlock i) { s with
        worker := Function.update s.worker i .out
        m_mutex := none }
  | onSchedule (hm : s.main = .loop) : Moves s .onSchedule { s with main := .read }
  | readEmpty (hm : s.main = .read) (h0 : s.m_async = 0) : Moves s .main { s with main := .lock }
  | read (hm : s.main = .read) (h0 : s.m_async ≠ 0) : Moves s .main { s with m_async := 0 }
  | mainLock (hm : s.main = .lock) (hfree : s.m_mutex = none) :
      Moves s .main { s with m_mutex := some .main, main := .swap }
  | swap (hm : s.main = .swap) :
      Moves s .main { s with
        m_results := s.m_processingResults
        m_processingResults := s.m_results
        main := .unlock }
  | mainUnlock (hm : s.main = .unlock) :
      Moves s .main { s with m_mutex := none, main := .deliver 0 }
  | deliver {next : Nat} {result : ρ} (hm : s.main = .deliver next)
      (hnext : s.m_processingResults[next]? = some result) :
      Moves s .main { s with delivered := s.delivered ++ [result], main := .deliver (next + 1) }
  | clear {next : Nat} (hm : s.main = .deliver next) (hnext : s.m_processingResults[next]? = none) :
      Moves s .main { s with m_processingResults := [], main := .loop }
  | again {t : Thread ω} : Moves s (.interrupted t) s

theorem moves_of_mainStep (h : mainStep s = some s') : Moves s .main s' := by
  unfold mainStep at h
  split at h
  case h_1 => cases h
  case h_2 hm =>
    split at h
    case isTrue h0 =>
      obtain rfl := Option.some.inj h
      exact .readEmpty hm h0
    case isFalse h0 =>
      obtain rfl := Option.some.inj h
      exact .read hm h0
  case h_3 hm =>
    obtain ⟨hfree, h⟩ := Option.ite_none_right_eq_some.mp h
    obtain rfl := Option.some.inj h
    exact .mainLock hm hfree
  case h_4 hm =>
    obtain rfl := Option.some.inj h
    exact .swap hm
  case h_5 hm =>
    obtain rfl := Option.some.inj h
    exact .mainUnlock hm
  case h_6 next hm =>
    split at h
    case h_1 result hnext =>
      obtain rfl := Option.some.inj h
      exact .deliver hm hnext
    case h_2 hnext =>
      obtain rfl := Option.some.inj h
      exact .clear hm hnext

theorem moves_of_workerStep (h : workerStep s l = some s') : Moves s l s' := by
  unfold workerStep at h
  split at h
  case h_1 i result =>
    split at h
    case h_1 hw =>
      obtain rfl := Option.some.inj h
      exact .submit hw
    case h_2 => cases h
  case h_2 i =>
    split at h
    case h_1 result hw =>
      obtain ⟨hfree, h⟩ := Option.ite_none_right_eq_some.mp h
      obtain rfl := Option.some.inj h
      exact .lock hw hfree
    case h_2 => cases h
  case h_3 i =>
    split at h
    case h_1 result hw =>
      obtain ⟨hsize, h⟩ := Option.ite_none_right_eq_some.mp h
      obtain rfl := Option.some.inj h
      exact .push_back hw hsize
    case h_2 => cases h
  case h_4 i =>
    split at h
    case h_1 hw =>
      split at h
      case isTrue hmax =>
        obtain rfl := Option.some.inj h
        exact .send hw hmax
      case isFalse hmax =>
        obtain rfl := Option.some.inj h
        exact .abort hw hmax
    case h_2 => cases h
  case h_5 i =>
    split at h
    case h_1 hw =>
      obtain rfl := Option.some.inj h
      exact .unlock hw
    case h_2 => cases h
  case h_6 => cases h

theorem moves_of_step (h : step s l = some s') : s.aborted = false ∧ Moves s l s' := by
  unfold step at h
  split at h
  case isTrue => cases h
  case isFalse ha =>
    refine ⟨Bool.eq_false_iff.mpr ha, ?_⟩
    cases l with
    | onSchedule =>
      obtain ⟨hm, h⟩ := Option.ite_none_right_eq_some.mp h
      obtain rfl := Option.some.inj h
      exact .onSchedule hm
    | main => exact moves_of_mainStep h
    | interrupted t =>
      cases t with
      | main =>
        obtain ⟨-, h⟩ := Option.ite_none_right_eq_some.mp h
        obtain rfl := Option.some.inj h
        exact .again
      | worker i =>
        dsimp only at h
        split at h
        · obtain rfl := Option.some.inj h
          exact .again
        · cases h
    | _ => exact moves_of_workerStep h

end Steps

/-! ## The lock -/

def inLock : WorkerPc ρ → Bool
  | .push_back _ | .send | .unlock => true
  | .out | .lock _ => false

def mainInLock : MainPc → Bool
  | .swap | .unlock => true
  | _ => false

/-- The lock is held by whoever is behind it. -/
structure Locked (s : JobResultsPrivate ω ρ) : Prop where
  main : s.m_mutex = some .main ↔ mainInLock s.main = true
  worker : ∀ i, s.m_mutex = some (.worker i) ↔ inLock (s.worker i) = true

/-- Only one thread is behind it. -/
theorem Locked.unique (h : Locked s) {i j : ω} (hi : inLock (s.worker i) = true)
    (hj : inLock (s.worker j) = true) : i = j := by
  have heq := ((h.worker i).mpr hi).symm.trans ((h.worker j).mpr hj)
  cases heq
  rfl

theorem Locked.not_main (h : Locked s) {i : ω} (hi : inLock (s.worker i) = true) :
    mainInLock s.main = false := by
  rw [Bool.eq_false_iff]
  intro hm
  have heq := ((h.worker i).mpr hi).symm.trans (h.main.mpr hm)
  cases heq

theorem Locked.not_worker (h : Locked s) (hm : mainInLock s.main = true) (i : ω) :
    inLock (s.worker i) = false := by
  rw [Bool.eq_false_iff]
  intro hi
  rw [h.not_main hi] at hm
  cases hm

/-- The loop stays on its side of the lock. -/
theorem Locked.of_main (h : Locked s) (hmutex : s'.m_mutex = s.m_mutex)
    (hworker : s'.worker = s.worker) (hmain : mainInLock s'.main = mainInLock s.main) :
    Locked s' where
  main := by
    rw [hmutex, hmain]
    exact h.main
  worker i := by
    rw [hmutex, hworker]
    exact h.worker i

variable [DecidableEq ω]

theorem worker_update {P : ω → WorkerPc ρ → Prop} {i : ω} {pc : WorkerPc ρ} (hi : P i pc)
    (hj : ∀ j, j ≠ i → P j (s.worker j)) (j : ω) : P j (Function.update s.worker i pc j) :=
  (Function.forall_update_iff s.worker P).mpr ⟨hi, hj⟩ j

/-- A worker stays on its side of the lock. -/
theorem Locked.of_worker (h : Locked s) {i : ω} {pc : WorkerPc ρ}
    (hmutex : s'.m_mutex = s.m_mutex) (hmain : s'.main = s.main)
    (hworker : s'.worker = Function.update s.worker i pc)
    (hpc : inLock pc = inLock (s.worker i)) : Locked s' where
  main := by
    rw [hmutex, hmain]
    exact h.main
  worker := by
    rw [hmutex, hworker]
    refine worker_update (P := fun j pc => s.m_mutex = some (.worker j) ↔ inLock pc = true) ?_
      fun j _ => h.worker j
    rw [hpc]
    exact h.worker i

theorem locked_step (h : Locked s) (hst : Moves s l s') : Locked s' := by
  cases hst with
  | submit hw => exact h.of_worker rfl rfl rfl (by rw [hw]; rfl)
  | @lock i result hw hfree =>
    have hmain := h.main
    rw [hfree] at hmain
    refine ⟨by simpa using hmain, worker_update
      (P := fun j pc => some (Thread.worker i) = some (.worker j) ↔ inLock pc = true)
      (by simp [inLock]) fun j hj => ?_⟩
    have hworker := h.worker j
    rw [hfree] at hworker
    simpa [Ne.symm hj] using hworker
  | push_back hw hsize => exact h.of_worker rfl rfl rfl (by rw [hw]; rfl)
  | send hw hmax => exact h.of_worker rfl rfl rfl (by rw [hw]; rfl)
  | abort hw hmax => exact h.of_main rfl rfl rfl
  | @unlock i hw =>
    have hin : inLock (s.worker i) = true := by
      rw [hw]
      rfl
    have hmain := h.not_main hin
    refine ⟨by simp [hmain], worker_update
      (P := fun j pc => none = some (Thread.worker j) ↔ inLock pc = true)
      (by simp [inLock]) fun j hj => ?_⟩
    have hout : inLock (s.worker j) ≠ true := fun hjn => hj (h.unique hjn hin)
    simp [hout]
  | onSchedule hm => exact h.of_main rfl rfl (by rw [hm]; rfl)
  | readEmpty hm h0 => exact h.of_main rfl rfl (by rw [hm]; rfl)
  | read hm h0 => exact h.of_main rfl rfl rfl
  | mainLock hm hfree =>
    refine ⟨by simp [mainInLock], fun i => ?_⟩
    have hworker := h.worker i
    rw [hfree] at hworker
    simpa using hworker
  | swap hm => exact h.of_main rfl rfl (by rw [hm]; rfl)
  | mainUnlock hm =>
    refine ⟨by simp [mainInLock], fun i => ?_⟩
    have hout := h.not_worker (by rw [hm]; rfl) i
    simp [hout]
  | deliver hm hnext => exact h.of_main rfl rfl (by rw [hm]; rfl)
  | clear hm hnext => exact h.of_main rfl rfl (by rw [hm]; rfl)
  | again => exact h

/-! ## What is where -/

/-- What is still to be handed to the listener of the results that were swapped out. -/
def rest (s : JobResultsPrivate ω ρ) : List ρ :=
  match s.main with
  | .deliver next => s.m_processingResults.drop next
  | _ => s.m_processingResults

/-- What a worker has submitted and not pushed. -/
def inFlight : WorkerPc ρ → List ρ
  | .lock result | .push_back result => [result]
  | .out | .send | .unlock => []

def processes : MainPc → Bool
  | .unlock | .deliver _ => true
  | _ => false

/-- Every result that was pushed is in one place, in the order of the pushes. -/
structure Queued (s : JobResultsPrivate ω ρ) : Prop where
  content : s.delivered ++ (rest s ++ s.m_results) = s.pushed.map Prod.snd
  submitted : ∀ i, Channel.fromSender i s.pushed ++ inFlight (s.worker i) = s.submitted i
  processing : processes s.main = false → s.m_processingResults = []
  swapped : s.main = .unlock → s.m_results = []

/-- A worker that neither submits nor pushes. -/
theorem Queued.of_worker (h : Queued s) {i : ω} {pc : WorkerPc ρ}
    (hpc : inFlight pc = inFlight (s.worker i)) {mutex : Option (Thread ω)} {counter : Nat} :
    Queued { s with
      worker := Function.update s.worker i pc, m_mutex := mutex, m_async := counter } where
  content := h.content
  submitted := worker_update
    (P := fun j pc => Channel.fromSender j s.pushed ++ inFlight pc = s.submitted j)
    (by rw [hpc]; exact h.submitted i) fun j _ => h.submitted j
  processing := h.processing
  swapped := h.swapped

/-- The loop where it handles no result. -/
theorem Queued.of_main (h : Queued s) (hm : processes s.main = false) {pc : MainPc}
    (hpc : processes pc = false) {mutex : Option (Thread ω)} {counter : Nat} :
    Queued { s with main := pc, m_mutex := mutex, m_async := counter } where
  content := by
    have hp := h.processing hm
    have hrest : ∀ m, rest { s with main := m, m_mutex := mutex, m_async := counter } = [] := by
      intro m
      unfold rest
      rw [hp]
      cases m <;> first | rfl | exact List.drop_nil
    have hold : rest s = [] := by
      unfold rest
      rw [hp]
      split <;> simp
    rw [hrest, ← hold]
    exact h.content
  submitted := h.submitted
  processing _ := h.processing hm
  swapped hu := by
    have hpc' : processes pc = true := by
      obtain rfl : pc = .unlock := hu
      rfl
    rw [hpc] at hpc'
    cases hpc'

theorem queued_step (hl : Locked s) (h : Queued s) (hst : Moves s l s') : Queued s' := by
  cases hst with
  | @submit i result hw =>
    refine ⟨h.content, fun j => ?_, h.processing, h.swapped⟩
    have hj := h.submitted j
    by_cases hji : j = i
    · subst hji
      rw [hw] at hj
      simp only [Function.update_self, inFlight, ← hj, List.append_nil]
    · simpa only [Function.update_of_ne hji] using hj
  | lock hw hfree => exact h.of_worker (by rw [hw]; rfl)
  | @push_back i result hw hsize =>
    refine ⟨?_, fun j => ?_, h.processing, fun hu => ?_⟩
    · rw [List.map_append, ← h.content, List.append_assoc, List.append_assoc]
      rfl
    · have hj := h.submitted j
      by_cases hji : j = i
      · subst hji
        rw [hw] at hj
        simp only [Function.update_self, Channel.fromSender_append, Channel.fromSender_self]
        rw [← hj]
        exact List.append_nil _
      · simp only [Function.update_of_ne hji, Channel.fromSender_append,
          Channel.fromSender_of_ne (Ne.symm hji), List.append_nil]
        exact hj
    · -- the loop would be behind the lock too
      have hmain := hl.not_main (i := i) (by rw [hw]; rfl)
      rw [show s.main = .unlock from hu] at hmain
      cases hmain
  | send hw hmax => exact h.of_worker (by rw [hw]; rfl)
  | abort hw hmax => exact ⟨h.content, h.submitted, h.processing, h.swapped⟩
  | unlock hw => exact h.of_worker (by rw [hw]; rfl)
  | onSchedule hm => exact h.of_main (by rw [hm]; rfl) rfl
  | readEmpty hm h0 => exact h.of_main (by rw [hm]; rfl) rfl
  | read hm h0 => exact ⟨h.content, h.submitted, h.processing, h.swapped⟩
  | mainLock hm hfree => exact h.of_main (by rw [hm]; rfl) rfl
  | swap hm =>
    have hp := h.processing (by rw [hm]; rfl)
    have hcontent := h.content
    simp only [rest, hm, hp] at hcontent
    refine ⟨?_, h.submitted, fun hu => (by cases hu), fun _ => hp⟩
    simp only [rest, hp]
    rw [List.append_nil]
    exact hcontent
  | mainUnlock hm =>
    have hcontent := h.content
    simp only [rest, hm] at hcontent
    exact ⟨hcontent, h.submitted, fun hu => (by cases hu), fun hu => (by cases hu)⟩
  | @deliver next result hm hnext =>
    have hcontent := h.content
    obtain ⟨hlt, hget⟩ := List.getElem?_eq_some_iff.mp hnext
    simp only [rest, hm, List.drop_eq_getElem_cons hlt, hget] at hcontent
    refine ⟨?_, h.submitted, fun hu => (by cases hu), fun hu => (by cases hu)⟩
    simp only [rest]
    rw [List.append_assoc]
    exact hcontent
  | @clear next hm hnext =>
    have hcontent := h.content
    simp only [rest, hm, List.drop_eq_nil_of_le (List.getElem?_eq_none_iff.mp hnext)] at hcontent
    exact ⟨hcontent, h.submitted, fun _ => rfl, fun hu => (by cases hu)⟩
  | again => exact h

/-! ## Why the loop will come -/

/-- The swap is still to come. -/
def willSwap : MainPc → Bool
  | .read | .lock | .swap => true
  | _ => false

/-- The last read is done, the swap is not. -/
def drained : MainPc → Bool
  | .lock | .swap => true
  | _ => false

/-- The writes since the last read are those for what is in the queue, and for what was there
when it was swapped. -/
def bound (s : JobResultsPrivate ω ρ) : Nat :=
  s.m_results.length + if drained s.main = true then 0 else kMaxSize

/-- A wake-up is on its way: the descriptor is readable, or a worker behind the lock is about
to write to it. -/
def WakeUpPending (s : JobResultsPrivate ω ρ) : Prop := 0 < s.m_async ∨ ∃ i, s.worker i = .send

structure Woken (s : JobResultsPrivate ω ρ) : Prop where
  wake : s.m_results = [] ∨ WakeUpPending s ∨ willSwap s.main = true
  sent : ∀ i, s.worker i = .send → s.m_results ≠ []
  size : s.m_results.length ≤ kMaxSize
  counter : s.m_async ≤ bound s
  counter_send : ∀ i, s.worker i = .send → s.m_async < bound s
  alive : s.aborted = false

/-- A worker that neither pushes nor sends. -/
theorem Woken.of_worker (h : Woken s) {i : ω} {pc : WorkerPc ρ} (hold : s.worker i ≠ .send)
    (hpc : pc ≠ .send) (hworker : s'.worker = Function.update s.worker i pc)
    (hmain : s'.main = s.main) (hresults : s'.m_results = s.m_results)
    (hasync : s'.m_async = s.m_async) (halive : s'.aborted = s.aborted) : Woken s' := by
  have hbound : bound s' = bound s := by rw [bound, bound, hresults, hmain]
  have hsend : ∀ j, s'.worker j = .send → s.worker j = .send := by
    rw [hworker]
    exact worker_update (P := fun j pc => pc = .send → s.worker j = .send)
      (fun hp => absurd hp hpc) fun j _ => id
  refine ⟨?_, ?_, ?_, ?_, ?_, ?_⟩
  · rw [hresults, hmain]
    rcases h.wake with hw | (hw | ⟨j, hj⟩) | hw
    · exact .inl hw
    · exact .inr (.inl (.inl (hasync ▸ hw)))
    · have hji : j ≠ i := fun he => hold (he ▸ hj)
      exact .inr (.inl (.inr ⟨j, by rw [hworker, Function.update_of_ne hji, hj]⟩))
    · exact .inr (.inr hw)
  · intro j hj
    rw [hresults]
    exact h.sent j (hsend j hj)
  · rw [hresults]
    exact h.size
  · rw [hasync, hbound]
    exact h.counter
  · intro j hj
    rw [hasync, hbound]
    exact h.counter_send j (hsend j hj)
  · rw [halive]
    exact h.alive

omit [DecidableEq ω] in
/-- The loop where it neither reads nor swaps. -/
theorem Woken.of_main (h : Woken s) (hwill : willSwap s'.main = willSwap s.main)
    (hdrained : drained s'.main = drained s.main) (hworker : s'.worker = s.worker)
    (hresults : s'.m_results = s.m_results) (hasync : s'.m_async = s.m_async)
    (halive : s'.aborted = s.aborted) : Woken s' := by
  have hbound : bound s' = bound s := by rw [bound, bound, hresults, hdrained]
  constructor
  · rw [WakeUpPending, hresults, hwill, hasync, hworker]
    exact h.wake
  · rw [hworker, hresults]
    exact h.sent
  · rw [hresults]
    exact h.size
  · rw [hasync, hbound]
    exact h.counter
  · rw [hworker, hasync, hbound]
    exact h.counter_send
  · rw [halive]
    exact h.alive

theorem woken_step (hl : Locked s) (hq : Queued s) (h : Woken s) (hst : Moves s l s') :
    Woken s' := by
  cases hst with
  | submit hw =>
    exact h.of_worker (by simp [hw]) (by simp) rfl rfl rfl rfl rfl
  | lock hw hfree =>
    exact h.of_worker (by simp [hw]) (by simp) rfl rfl rfl rfl rfl
  | @push_back i result hw hsize =>
    have hcounter := h.counter
    have hlen : (s.m_results ++ [result]).length = s.m_results.length + 1 := List.length_append
    have hless : s.m_async < (s.m_results ++ [result]).length +
        if drained s.main = true then 0 else kMaxSize := by
      unfold bound at hcounter
      omega
    refine ⟨.inr (.inl (.inr ⟨i, Function.update_self _ _ _⟩)), fun j hj => ?_, ?_,
      Nat.le_of_lt hless, fun j hj => hless, h.alive⟩
    · simp
    · rw [hlen]
      exact hsize
  | @send i hw hmax =>
    have hsend := h.counter_send i hw
    -- no other worker is behind the lock
    have hnone : ∀ j, Function.update s.worker i .unlock j ≠ .send := by
      refine worker_update (P := fun j pc => pc ≠ .send) (by intro hc; cases hc) fun j hji hj => ?_
      exact hji (hl.unique (by rw [hj]; rfl) (by rw [hw]; rfl))
    exact ⟨.inr (.inl (.inl (Nat.succ_pos _))), fun j hj => absurd hj (hnone j), h.size, hsend,
      fun j hj => absurd hj (hnone j), h.alive⟩
  | @abort i hw hmax =>
    have hsend := h.counter_send i hw
    have hsize := h.size
    have hbound : bound s ≤ s.m_results.length + kMaxSize := by
      unfold bound
      split <;> omega
    have hK : 2 * kMaxSize = kMaxCounter := rfl
    omega
  | unlock hw =>
    exact h.of_worker (by simp [hw]) (by simp) rfl rfl rfl rfl rfl
  | onSchedule hm =>
    refine ⟨.inr (.inr rfl), h.sent, h.size, ?_, ?_, h.alive⟩
    · have hcounter := h.counter
      rw [bound, hm] at hcounter
      exact hcounter
    · have hsend := h.counter_send
      rw [bound, hm] at hsend
      exact hsend
  | readEmpty hm h0 =>
    refine ⟨.inr (.inr rfl), h.sent, h.size, ?_, fun j hj => ?_, h.alive⟩
    · show s.m_async ≤ _
      rw [h0]
      exact Nat.zero_le _
    · show s.m_async < _
      rw [h0]
      exact List.length_pos_iff.mpr (h.sent j hj)
  | read hm h0 =>
    refine ⟨.inr (.inr (by rw [hm]; rfl)), h.sent, h.size, Nat.zero_le _, fun j hj => ?_, h.alive⟩
    exact Nat.lt_of_lt_of_le (List.length_pos_iff.mpr (h.sent j hj)) (Nat.le_add_right _ _)
  | mainLock hm hfree =>
    exact h.of_main (by rw [hm]; rfl) (by rw [hm]; rfl) rfl rfl rfl rfl
  | swap hm =>
    have hp := hq.processing (by rw [hm]; rfl)
    -- no worker is behind the lock
    have hnone : ∀ i, s.worker i ≠ .send := by
      intro i hi
      have hout := hl.not_worker (by rw [hm]; rfl) i
      rw [hi] at hout
      cases hout
    have hcounter := h.counter
    have hsize := h.size
    rw [bound, hm] at hcounter
    refine ⟨.inl hp, fun i hi => absurd hi (hnone i), ?_, ?_, fun i hi => absurd hi (hnone i),
      h.alive⟩
    · show s.m_processingResults.length ≤ _
      rw [hp]
      exact Nat.zero_le _
    · show s.m_async ≤ s.m_processingResults.length + kMaxSize
      have hle : s.m_async ≤ s.m_results.length := hcounter
      omega
  | mainUnlock hm =>
    exact h.of_main (by rw [hm]; rfl) (by rw [hm]; rfl) rfl rfl rfl rfl
  | @deliver next result hm hnext =>
    exact h.of_main (by rw [hm]; rfl) (by rw [hm]; rfl) rfl rfl rfl rfl
  | clear hm hnext =>
    exact h.of_main (by rw [hm]; rfl) (by rw [hm]; rfl) rfl rfl rfl rfl
  | again => exact h

/-! ## Every reachable state -/

structure Inv (s : JobResultsPrivate ω ρ) : Prop where
  locked : Locked s
  queued : Queued s
  woken : Woken s

theorem inv_init : Inv ({} : JobResultsPrivate ω ρ) where
  locked := ⟨by simp [mainInLock], fun i => by simp [inLock]⟩
  queued := ⟨rfl, fun i => rfl, fun _ => rfl, fun hu => by cases hu⟩
  woken :=
    { wake := .inl rfl
      sent := fun i hi => by cases hi
      size := Nat.zero_le _
      counter := Nat.zero_le _
      counter_send := fun i hi => by cases hi
      alive := rfl }

theorem inv_inductive : (lts ω ρ).Inductive Inv where
  init := by
    rintro s rfl
    exact inv_init
  step := by
    intro s l s' h hst
    have hmoves := (moves_of_step hst).2
    exact ⟨locked_step h.locked hmoves, queued_step h.locked h.queued hmoves,
      woken_step h.locked h.queued h.woken hmoves⟩

/-! ## A channel -/

/-- What was pushed is sent, what was delivered is received. -/
def channel (s : JobResultsPrivate ω ρ) : Channel ω ρ where
  sent := s.pushed
  received := s.delivered

/-- A step puts a result into the channel, takes the next out, or does nothing to it. -/
theorem channel_step (h : Inv s) (hst : Moves s l s') :
    channel s' = channel s ∨ ∃ a, (channel s).step a = some (channel s') := by
  cases hst with
  | @push_back i result hw hsize => exact .inr ⟨.put i result, rfl⟩
  | @deliver next result hm hnext =>
    refine .inr ⟨.take, ?_⟩
    have hcontent := h.queued.content
    obtain ⟨hlt, hget⟩ := List.getElem?_eq_some_iff.mp hnext
    simp only [rest, hm, List.drop_eq_getElem_cons hlt, hget] at hcontent
    have hnth : (s.pushed.map Prod.snd)[s.delivered.length]? = some result := by
      rw [← hcontent, List.getElem?_append_right (Nat.le_refl _), Nat.sub_self]
      rfl
    rw [List.getElem?_map] at hnth
    obtain ⟨x, hx, rfl⟩ := Option.map_eq_some_iff.mp hnth
    simp only [Channel.step, channel, hx, Option.map_some]
  | _ => exact .inl rfl

/-- **The handler is a channel.** -/
theorem refines (h : (lts ω ρ).Reachable s) : (Channel.lts ω ρ).Reachable (channel s) := by
  refine inv_inductive.simulates (f := channel) ?_ ?_ h
  · rintro s rfl
    rfl
  · intro s l s' hi hst
    exact channel_step hi (moves_of_step hst).2

/-! ## How long it takes -/

def isLoop : Label ω ρ → Bool
  | .onSchedule | .main => true
  | _ => false

def isSend : Label ω ρ → Bool
  | .send _ => true
  | _ => false

/-- Steps of the loop until the first `n` results are delivered. Each write may cost it one
more read. -/
def todo (n : Nat) (s : JobResultsPrivate ω ρ) : Nat :=
  n - s.delivered.length +
    match s.main with
    | .loop => 5 + min s.m_async 1
    | .read => 4 + min s.m_async 1
    | .lock => 3
    | .swap => 2
    | .unlock => 1
    | .deliver next =>
      if n ≤ s.delivered.length + (s.m_processingResults.length - next) then 0
      else 6 + min s.m_async 1

omit [DecidableEq ω] in
theorem todo_le (n : Nat) (s : JobResultsPrivate ω ρ) : todo n s ≤ n - s.delivered.length + 7 := by
  unfold todo
  split <;> try split
  all_goals omega

omit [DecidableEq ω] in
/-- Of a worker's steps only a write counts. -/
theorem todo_of_worker {n k : Nat} (hdelivered : s'.delivered = s.delivered)
    (hmain : s'.main = s.main) (hresults : s'.m_processingResults = s.m_processingResults)
    (hasync : s'.m_async ≤ s.m_async + k) : todo n s' ≤ todo n s + k := by
  unfold todo
  rw [hdelivered, hmain, hresults]
  cases s.main with
  | deliver next =>
    dsimp only
    split <;> omega
  | _ =>
    dsimp only
    omega

theorem todo_step {n : Nat} (h : Inv s) (hn : n ≤ s.pushed.length) (hst : Moves s l s')
    (hgoal : ¬ n ≤ s'.delivered.length) :
    todo n s' + (if isLoop l = true then 1 else 0) ≤
      todo n s + (if isSend l = true then 1 else 0) := by
  cases hst with
  | submit hw => exact todo_of_worker rfl rfl rfl (Nat.le_refl _)
  | lock hw hfree => exact todo_of_worker rfl rfl rfl (Nat.le_refl _)
  | push_back hw hsize => exact todo_of_worker rfl rfl rfl (Nat.le_refl _)
  | send hw hmax => exact todo_of_worker rfl rfl rfl (Nat.le_refl _)
  | abort hw hmax => exact todo_of_worker rfl rfl rfl (Nat.le_succ _)
  | unlock hw => exact todo_of_worker rfl rfl rfl (Nat.le_refl _)
  | onSchedule hm =>
    simp only [todo, hm, isLoop, isSend, if_true, Bool.false_eq_true, if_false]
    omega
  | readEmpty hm h0 =>
    simp only [todo, hm, h0, isLoop, isSend, if_true, Bool.false_eq_true, if_false]
    omega
  | read hm h0 =>
    simp only [todo, hm, isLoop, isSend, if_true, Bool.false_eq_true, if_false]
    omega
  | mainLock hm hfree =>
    simp only [todo, hm, isLoop, isSend, if_true, Bool.false_eq_true, if_false]
    omega
  | swap hm =>
    simp only [todo, hm, isLoop, isSend, if_true, Bool.false_eq_true, if_false]
    omega
  | mainUnlock hm =>
    -- all that was pushed is swapped out
    have hcontent := congrArg List.length h.queued.content
    simp only [rest, hm, h.queued.swapped hm, List.append_nil, List.length_append,
      List.length_map] at hcontent
    simp only [todo, hm, isLoop, isSend, if_true, Bool.false_eq_true, if_false]
    split <;> omega
  | @deliver next result hm hnext =>
    obtain ⟨hlt, -⟩ := List.getElem?_eq_some_iff.mp hnext
    have hlen : (s.delivered ++ [result]).length = s.delivered.length + 1 := List.length_append
    have hgoal' : ¬ n ≤ s.delivered.length + 1 := hlen ▸ hgoal
    simp only [todo, hm, isLoop, isSend, hlen, if_true, Bool.false_eq_true,
      if_false]
    split <;> split <;> omega
  | @clear next hm hnext =>
    have hle := List.getElem?_eq_none_iff.mp hnext
    have hgoal' : ¬ n ≤ s.delivered.length := hgoal
    simp only [todo, hm, isLoop, isSend, if_true, Bool.false_eq_true, if_false]
    split <;> omega
  | again => exact Nat.le_refl _

/-- What was pushed and what was delivered stays. -/
theorem grows_step (hst : Moves s l s') :
    s.pushed <+: s'.pushed ∧ s.delivered <+: s'.delivered := by
  cases hst with
  | push_back hw hsize => exact ⟨List.prefix_append _ _, List.prefix_rfl⟩
  | deliver hm hnext => exact ⟨List.prefix_rfl, List.prefix_append _ _⟩
  | _ => exact ⟨List.prefix_rfl, List.prefix_rfl⟩

/-- **What was pushed is delivered** when the loop has made as many steps as there are results
before it, and a few more, and one for each write. -/
theorem delivered_run (h : Inv s) {ls : List (Label ω ρ)} (r : (lts ω ρ).Run s ls s')
    (hcount : s.pushed.length - s.delivered.length + 7 + ls.countP isSend < ls.countP isLoop) :
    s.pushed.length ≤ s'.delivered.length := by
  have hle := todo_le s.pushed.length s
  refine r.reaches (P := fun t => Inv t ∧ s.pushed.length ≤ t.pushed.length)
    (G := fun t => s.pushed.length ≤ t.delivered.length) (todo s.pushed.length) isLoop isSend
    ?_ ?_ ?_ ⟨h, Nat.le_refl _⟩ (by omega)
  · intro t l t' ht hst
    have hgrows := grows_step (moves_of_step hst).2
    exact ⟨inv_inductive.step t l t' ht.1 hst, Nat.le_trans ht.2 hgrows.1.length_le⟩
  · intro t l t' ht hst
    exact Nat.le_trans ht (grows_step (moves_of_step hst).2).2.length_le
  · intro t l t' ht hst hgoal
    exact todo_step ht.1 ht.2 (moves_of_step hst).2 hgoal

/-! ## While the handler exists -/

inductive Event (ω ρ : Type) where
  | setListener
  | stop
  | run (l : Label ω ρ)
  deriving DecidableEq, Repr

/-- The loop's thread makes the handler and deletes it. A call that finds none does nothing;
one that is inside when the handler is deleted is not followed any further.
mirrors src/net/JobResults.cpp:109-146 -/
def handlerStep : Option (JobResultsPrivate ω ρ) → Event ω ρ →
    Option (Option (JobResultsPrivate ω ρ))
  | none, .setListener => some (some {})
  | some s, .stop => if s.main = .loop then some none else none
  | some s, .run l => (step s l).map some
  | none, .run (.submit _ _) => some none
  | _, _ => none

def program (ω ρ : Type) [DecidableEq ω] :
    LTS (Option (JobResultsPrivate ω ρ)) (Event ω ρ) :=
  LTS.ofFn none handlerStep

/-- A handler was made, and then it ran. -/
theorem reachable_handler (h : (program ω ρ).Reachable (some s)) : (lts ω ρ).Reachable s := by
  have hinv : (program ω ρ).Inductive fun t => ∀ s, t = some s → (lts ω ρ).Reachable s := by
    refine ⟨?_, ?_⟩
    · rintro t rfl s hs
      cases hs
    · intro t l t' ht hst s' hs'
      subst hs'
      cases t with
      | none =>
        cases l with
        | setListener =>
          obtain rfl := Option.some.inj (Option.some.inj hst)
          exact .init rfl
        | stop => cases hst
        | run l => cases l <;> cases hst
      | some s =>
        cases l with
        | setListener => cases hst
        | stop =>
          obtain ⟨-, hnone⟩ := Option.ite_none_right_eq_some.mp hst
          cases hnone
        | run l =>
          obtain ⟨s'', hs, heq⟩ := Option.map_eq_some_iff.mp hst
          obtain rfl := Option.some.inj heq
          exact (ht s rfl).step hs
  exact hinv.reachable h s rfl

/-- A step of the worker that is behind the lock. -/
def Leaves (i : ω) (l : Label ω ρ) : Prop := l = .push_back i ∨ l = .send i ∨ l = .unlock i

/-- **The law.** The results are numbered by the order of the pushes, which is for each worker
that of its calls.

* `conserved`: what was delivered, what is being delivered and what is in the queue are the
  results that were pushed, each once.
* `submitted`: of what a worker submitted at most the last is not pushed.
* `received`, `order`: what was delivered is what was pushed first, of each worker too.
* `empty`: without a wake-up and a callback nothing is left; `settled`: if no worker is in
  `submit` either, every result was delivered.
* `driven`: where something is left the descriptor is readable, the loop can go on, or a worker
  behind the lock can, or has no memory.
* `delivers`: steps of the loop deliver it. -/
structure Law (s : JobResultsPrivate ω ρ) : Prop where
  conserved : s.delivered ++ (rest s ++ s.m_results) = s.pushed.map Prod.snd
  submitted : ∀ i, Channel.fromSender i s.pushed ++ inFlight (s.worker i) = s.submitted i
  received : s.delivered = (s.pushed.take s.delivered.length).map Prod.snd
  order : ∀ i, Channel.fromSender i (s.pushed.take s.delivered.length) <+: s.submitted i
  empty : s.main = .loop → ¬ WakeUpPending s → s.m_results = [] ∧ s.m_processingResults = []
  settled : s.main = .loop → ¬ WakeUpPending s → (∀ i, s.worker i = .out) →
    s.delivered = s.pushed.map Prod.snd ∧ ∀ i, Channel.fromSender i s.pushed = s.submitted i
  driven : s.delivered.length < s.pushed.length →
    s.main = .loop ∧ 0 < s.m_async ∨ (step s .main).isSome = true ∨
      ∃ i, s.m_mutex = some (.worker i) ∧
        (s.m_results.length = kMaxSize ∨ ∃ l, Leaves i l ∧ (step s l).isSome = true)
  delivers : ∀ ls s', (lts ω ρ).Run s ls s' →
    s.pushed.length - s.delivered.length + 7 + ls.countP isSend < ls.countP isLoop →
      s.pushed.map Prod.snd <+: s'.delivered
  alive : s.aborted = false

theorem empty_of_inv (h : Inv s) (hm : s.main = .loop) (hw : ¬ WakeUpPending s) :
    s.m_results = [] ∧ s.m_processingResults = [] := by
  refine ⟨?_, h.queued.processing (by rw [hm]; rfl)⟩
  rcases h.woken.wake with hempty | hwake | hwill
  · exact hempty
  · exact absurd hwake hw
  · rw [hm] at hwill
    cases hwill

theorem settled_of_inv (h : Inv s) (hm : s.main = .loop) (hw : ¬ WakeUpPending s)
    (hout : ∀ i, s.worker i = .out) :
    s.delivered = s.pushed.map Prod.snd ∧ ∀ i, Channel.fromSender i s.pushed = s.submitted i := by
  obtain ⟨hresults, hprocessing⟩ := empty_of_inv h hm hw
  constructor
  · rw [← h.queued.content, hresults, rest, hm, hprocessing]
    simp
  · intro i
    have hi := h.queued.submitted i
    rw [hout i] at hi
    rw [← hi]
    exact (List.append_nil _).symm

/-- Who holds the lock can leave it. -/
theorem leaves_of_inv (h : Inv s) {i : ω} (hi : s.m_mutex = some (.worker i)) :
    s.m_results.length = kMaxSize ∨ ∃ l, Leaves i l ∧ (step s l).isSome = true := by
  have hin := (h.locked.worker i).mp hi
  have halive := h.woken.alive
  cases hw : s.worker i with
  | out =>
    rw [hw] at hin
    cases hin
  | lock result =>
    rw [hw] at hin
    cases hin
  | push_back result =>
    by_cases hsize : s.m_results.length < kMaxSize
    · refine .inr ⟨.push_back i, .inl rfl, ?_⟩
      simp [step, workerStep, halive, hw, hsize]
    · exact .inl (Nat.le_antisymm h.woken.size (Nat.le_of_not_lt hsize))
  | send =>
    refine .inr ⟨.send i, .inr (.inl rfl), ?_⟩
    have hstep : step s (.send i) = workerStep s (.send i) := by
      unfold step
      rw [halive]
      rfl
    rw [hstep]
    simp only [workerStep, hw]
    split <;> rfl
  | unlock =>
    refine .inr ⟨.unlock i, .inr (.inr rfl), ?_⟩
    simp [step, workerStep, halive, hw]

theorem driven_of_inv (h : Inv s) (hleft : s.delivered.length < s.pushed.length) :
    s.main = .loop ∧ 0 < s.m_async ∨ (step s .main).isSome = true ∨
      ∃ i, s.m_mutex = some (.worker i) ∧
        (s.m_results.length = kMaxSize ∨ ∃ l, Leaves i l ∧ (step s l).isSome = true) := by
  have hstep : step s .main = mainStep s := by
    rw [step, h.woken.alive]
    rfl
  cases hm : s.main with
  | loop =>
    have hne : s.m_results ≠ [] := by
      intro hempty
      have hcontent := congrArg List.length h.queued.content
      rw [hempty, rest, hm, h.queued.processing (by rw [hm]; rfl)] at hcontent
      simp only [List.append_nil, List.length_map] at hcontent
      omega
    rcases h.woken.wake with hempty | (hcounter | ⟨i, hi⟩) | hwill
    · exact absurd hempty hne
    · exact .inl ⟨rfl, hcounter⟩
    · have hmutex := (h.locked.worker i).mpr (by rw [hi]; rfl)
      exact .inr (.inr ⟨i, hmutex, leaves_of_inv h hmutex⟩)
    · rw [hm] at hwill
      cases hwill
  | lock =>
    cases hmutex : s.m_mutex with
    | none => exact .inr (.inl (by rw [hstep]; simp [mainStep, hm, hmutex]))
    | some t =>
      cases t with
      | main =>
        have hin := h.locked.main.mp hmutex
        rw [hm] at hin
        cases hin
      | worker i => exact .inr (.inr ⟨i, hmutex ▸ rfl, leaves_of_inv h hmutex⟩)
  | read =>
    refine .inr (.inl ?_)
    rw [hstep, mainStep, hm]
    dsimp only
    split <;> rfl
  | swap =>
    refine .inr (.inl ?_)
    rw [hstep, mainStep, hm]
    rfl
  | unlock =>
    refine .inr (.inl ?_)
    rw [hstep, mainStep, hm]
    rfl
  | deliver next =>
    refine .inr (.inl ?_)
    rw [hstep, mainStep, hm]
    dsimp only
    split <;> rfl

/-- **No result is lost and none is delivered twice**, in every state that is reached while
the handler exists, whoever made which step. -/
theorem job_results (h : (program ω ρ).Reachable (some s)) : Law s := by
  have hr := reachable_handler h
  have hi := inv_inductive.reachable hr
  have hreceived := Channel.received_eq (refines hr)
  refine
    { conserved := hi.queued.content
      submitted := hi.queued.submitted
      received := hreceived
      order := fun i => ?_
      empty := empty_of_inv hi
      settled := settled_of_inv hi
      driven := driven_of_inv hi
      delivers := fun ls s' r hcount => ?_
      alive := hi.woken.alive }
  · rw [← hi.queued.submitted i]
    exact (Channel.fromSender_take i _ _).trans (List.prefix_append _ _)
  · have hlen := delivered_run hi r hcount
    have hgrows : s.pushed <+: s'.pushed :=
      r.preserves (P := fun t => s.pushed <+: t.pushed)
        (fun t l t' ht hst => ht.trans (grows_step (moves_of_step hst).2).1) List.prefix_rfl
    have hreceived' := Channel.received_eq (refines (hr.run r))
    simp only [channel] at hreceived'
    rw [hreceived']
    exact (List.prefix_of_prefix_length_le hgrows (List.take_prefix _ _) (by
      rw [List.length_take]
      have := hgrows.length_le
      omega)).map Prod.snd

/-- Two workers: the second result is pushed after the last read and is delivered by the same
callback; its write stays. -/
def pairRun : List (Event Bool Nat) :=
  .setListener :: [.submit true 7, .lock true, .push_back true, .send true, .submit false 8,
    .onSchedule, .main, .unlock true, .main, .lock false, .push_back false, .send false,
    .unlock false, .main, .main, .main, .main, .main, .main].map .run

theorem job_results_pair : ∃ s : JobResultsPrivate Bool Nat,
    s.main = .loop ∧ s.delivered = [7, 8] ∧ s.m_async = 1 ∧ Law s :=
  ⟨_, rfl, rfl, rfl, job_results (@LTS.reachable_of_exec _ _ handlerStep none _ pairRun rfl)⟩

end Rxs.L5.JobResults
