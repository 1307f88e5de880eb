import Rxs.L2Machine.Job

/-!
# The RandomX queue, its storage and its background thread

`RxQueue` owns one background thread that initialises the dataset for the seed
the main thread asks for last. `Rx` is its state (`m_storage`, `m_seed`,
`m_state`, `m_pending`, the thread's position `bg`, the undelivered ready event
`async`) together with the global `RandomX_CurrentConfig` both threads write
(`config`; `applies` counts the writes).

The queue's mutex makes `enqueue`, `isReady`, `dataset`, the take of a pending
item and the final hand-over single steps. `m_storage->init` runs unlocked and
is several steps: `setSeed`, `create`, then the overwriting of the cache and of
the dataset, each from a `Begin` to an `End`. Between the two the memory has no
defined content (`none`); afterwards it holds the `RxKey` of the seed and
parameters it was computed from, unless the configuration was written
meanwhile. Allocation failures are the step's `Alloc` argument.

`RxBasicStorage` is the storage of a machine without a NUMA node set.

* `Inv`: the lock invariant of the queue, preserved by every operation
  (`inv_enqueue`, `inv_bgStep`, `inv_onReady`, `inv_apply`, `inv_shutdown`).
* `bgStep_cases`: all the background thread can do in one step.
* `bgStep_rank`: while an item is pending or in work the background thread can
  move and gets closer to `IDLE`.
-/
namespace Rxs

open Rxs.Core

/-- `rx/2` differs from `rx/0` in the virtual machine only: its dataset
parameters are those of `rx/0`.
mirrors src/crypto/randomx/randomx.cpp:55-63 -/
def ConfigurationBase.datasetParams : ConfigurationBase → ConfigurationBase
  | .moneroV2 => .monero
  | c => c

/-- What a cache or dataset was computed from. -/
structure RxKey where
  params : ConfigurationBase
  data : Bytes
  deriving DecidableEq, Repr

def RxSeed.key (s : RxSeed) : RxKey := ⟨(RxAlgo.base s.algorithm).datasetParams, s.data⟩

/-- `full`: the dataset memory was allocated (`get() != nullptr`); `cacheSeed`
is `RxCache::m_seed`; the epochs count how often a memory was overwritten.
mirrors src/crypto/rx/RxDataset.h:83-98 and src/crypto/rx/RxCache.h:56-66 -/
structure RxDataset where
  full : Bool
  cacheSeed : Bytes := []
  cache : Option RxKey := none
  cacheEpoch : Nat := 0
  mem : Option RxKey := none
  memEpoch : Nat := 0
  deriving DecidableEq, Repr

/-- mirrors src/crypto/rx/RxBasicStorage.cpp:127-131 -/
structure RxBasicStorage where
  ready : Bool := false
  isAllocated : Bool := false
  dataset : Option RxDataset := none
  seed : RxSeed := {}
  deriving DecidableEq, Repr

inductive RxState where
  | IDLE | PENDING | SHUTDOWN
  deriving DecidableEq, Repr

/-- The options an item carries besides its seed only choose how memory is
allocated and threaded.
mirrors src/crypto/rx/RxQueue.h:45-66 -/
structure RxQueueItem where
  seed : RxSeed
  deriving DecidableEq, Repr

/-- Position of the background thread. `fault` is the dereference of an empty
`m_pending`, a null storage or a null dataset; the counters are the value of
`applies` when the overwriting began.
mirrors src/crypto/rx/RxQueue.cpp:124-164 and
src/crypto/rx/RxBasicStorage.cpp:165-174 -/
inductive Bg where
  | wait
  | setSeed (item : RxQueueItem)
  | create (item : RxQueueItem)
  | cacheBegin (item : RxQueueItem)
  | cacheEnd (item : RxQueueItem) (applies : Nat)
  | dsBegin (item : RxQueueItem)
  | dsEnd (item : RxQueueItem) (applies : Nat)
  | lock (item : RxQueueItem)
  | exited
  | fault
  deriving DecidableEq, Repr

/-- Outcome of `createDataset`: no cache, a cache only, or cache and dataset. -/
inductive Alloc where
  | fail | light | full
  deriving DecidableEq, Repr

structure Rx where
  storage : Option RxBasicStorage := none
  seed : RxSeed := {}
  state : RxState := .IDLE
  pending : Option RxQueueItem := none
  async : Bool := false
  bg : Bg := .wait
  config : ConfigurationBase := .monero
  applies : Nat := 0
  deriving DecidableEq, Repr

namespace Rx

/-- mirrors src/crypto/rx/RxQueue.cpp:118-121 -/
def isReadyUnsafe (q : Rx) (seed : RxSeed) : Bool :=
  match q.storage with
  | none => false
  | some st => st.isAllocated && q.state = .IDLE && q.seed.isEqual seed

/-- `Rx::isReady(job)`. mirrors src/crypto/rx/Rx.cpp:175-179 -/
def isReady (q : Rx) (j : Job) : Bool := q.isReadyUnsafe (.ofJob j)

/-- `Rx::dataset(job)`.
mirrors src/crypto/rx/RxQueue.cpp:58-67 and src/crypto/rx/RxBasicStorage.cpp:155-162 -/
def dataset (q : Rx) (j : Job) : Option RxDataset :=
  if q.isReady j then
    match q.storage with
    | none => none
    | some st => if st.ready && st.seed.isEqualJob j then st.dataset else none
  else none

/-- `RxAlgo::apply`. mirrors src/crypto/rx/RxAlgo.cpp:27-32 -/
def apply (q : Rx) (a : Algorithm) : Rx :=
  { q with config := RxAlgo.base a, applies := q.applies + 1 }

/-- mirrors src/crypto/rx/RxQueue.cpp:87-115 -/
def enqueue (q : Rx) (seed : RxSeed) : Rx :=
  let q := { q with storage := some (q.storage.getD {}) }
  if q.state = .PENDING ∧ q.seed.isEqual seed = true then q
  else { q with pending := some ⟨seed⟩, seed := seed, state := .PENDING }

/-- The destructor's first half. mirrors src/crypto/rx/RxQueue.cpp:44-49 -/
def shutdown (q : Rx) : Rx := { q with state := .SHUTDOWN }

/-- The event loop takes the ready event. mirrors src/crypto/rx/RxQueue.cpp:167-178 -/
def onReady (q : Rx) : Rx := { q with async := false }

/-- Continue with the storage's dataset, or fault where there is none. -/
def withDataset (q : Rx) (f : RxBasicStorage → RxDataset → Rx) : Rx :=
  match q.storage with
  | some st =>
    match st.dataset with
    | some d => f st d
    | none => { q with bg := .fault }
  | none => { q with bg := .fault }

/-- Replace the storage's dataset and move on. -/
def putDataset (q : Rx) (st : RxBasicStorage) (d : RxDataset) (bg : Bg) : Rx :=
  { q with storage := some { st with dataset := some d }, bg := bg }

/-- One step of the background thread; `none` when it is blocked in `m_cv.wait`
or has ended.
mirrors src/crypto/rx/RxQueue.cpp:124-164, src/crypto/rx/RxBasicStorage.cpp:53-99,165-174,
src/crypto/rx/RxCache.cpp:55-72 and src/crypto/rx/RxDataset.cpp:166-219 -/
def bgStep (q : Rx) (a : Alloc) : Option Rx :=
  match q.bg with
  | .wait =>
    match q.state with
    | .IDLE => none
    | .SHUTDOWN => some { q with bg := .exited }
    | .PENDING =>
      match q.pending with
      | none => some { q with bg := .fault }
      | some item => some { q with pending := none, bg := .setSeed item }
  | .setSeed item =>
    match q.storage with
    | none => some { q with bg := .fault }
    | some st =>
      let q' := if st.seed.algorithm ≠ item.seed.algorithm then q.apply item.seed.algorithm else q
      some { q' with storage := some { st with ready := false, seed := item.seed },
                     bg := .create item }
  | .create item =>
    match q.storage with
    | none => some { q with bg := .fault }
    | some st =>
      match st.dataset, a with
      | some _, _ => some { q with bg := .cacheBegin item }
      | none, .fail =>
        some { q with storage := some { st with isAllocated := false }, bg := .lock item }
      | none, .light =>
        some { q with storage := some { st with dataset := some { full := false }, isAllocated := true },
                      bg := .cacheBegin item }
      | none, .full =>
        some { q with storage := some { st with dataset := some { full := true }, isAllocated := true },
                      bg := .cacheBegin item }
  | .cacheBegin item =>
    some <| q.withDataset fun st d =>
      -- `RxCache::init` compares seed bytes only
      if d.cacheSeed = item.seed.data then { q with bg := .dsBegin item }
      else q.putDataset st
        { d with cacheSeed := item.seed.data, cache := none, cacheEpoch := d.cacheEpoch + 1 }
        (.cacheEnd item q.applies)
  | .cacheEnd item n =>
    some <| q.withDataset fun st d =>
      q.putDataset st
        { d with cache := if q.applies = n then some ⟨q.config.datasetParams, item.seed.data⟩ else none }
        (.dsBegin item)
  | .dsBegin item =>
    some <| q.withDataset fun st d =>
      if d.full then
        q.putDataset st { d with mem := none, memEpoch := d.memEpoch + 1 } (.dsEnd item q.applies)
      else { q with storage := some { st with ready := true }, bg := .lock item }
  | .dsEnd item n =>
    some <| q.withDataset fun st d =>
      -- the dataset items are computed from the cache under the current parameters
      let key := match d.cache with
        | some k => if q.applies = n ∧ k.params = q.config.datasetParams then some k else none
        | none => none
      q.putDataset { st with ready := true } { d with mem := key } (.lock item)
  | .lock item =>
    if q.state = .SHUTDOWN ∨ q.pending.isSome = true then some { q with bg := .wait }
    else some { q with seed := item.seed, state := .IDLE, async := true, bg := .wait }
  | .exited => none
  | .fault => none

end Rx

/-- The item the background thread has taken and not yet handed over. -/
def Bg.item : Bg → Option RxQueueItem
  | .setSeed it | .create it | .cacheBegin it | .cacheEnd it _ | .dsBegin it | .dsEnd it _
  | .lock it => some it
  | .wait | .exited | .fault => none

/-- Positions that dereference `m_dataset`. -/
def Bg.inDataset : Bg → Bool
  | .cacheBegin _ | .cacheEnd _ _ | .dsBegin _ | .dsEnd _ _ => true
  | _ => false

/-- How far the background thread is from handing its item over. -/
def Bg.rank : Bg → Nat
  | .wait | .exited | .fault => 0
  | .setSeed _ => 8
  | .create _ => 7
  | .cacheBegin _ => 6
  | .cacheEnd _ _ => 5
  | .dsBegin _ => 4
  | .dsEnd _ _ => 3
  | .lock _ => 1

namespace Rx

/-! ## The lock invariant -/

structure Inv (q : Rx) : Prop where
  fault : q.bg ≠ .fault
  idle : q.state = .IDLE → q.pending = none ∧ q.bg = .wait
  pending : ∀ it, q.pending = some it → it.seed = q.seed ∧ q.storage.isSome = true
  work : q.state = .PENDING → q.pending = none → q.bg.item.isSome = true
  item : ∀ it, q.bg.item = some it →
    q.storage.isSome = true ∧ (q.pending = none → it.seed = q.seed)
  started : ∀ it, q.bg.item = some it → q.bg ≠ .setSeed it →
    ∀ st, q.storage = some st → st.seed = it.seed
  dataset : q.bg.inDataset = true → ∀ st, q.storage = some st → st.dataset.isSome = true
  settled : q.pending = none → q.bg.item = none →
    ∀ st, q.storage = some st → st.seed = q.seed

theorem inv_init : Inv {} where
  fault := by simp
  idle := by simp
  pending := by simp
  work := by simp
  item := by simp [Bg.item]
  started := by simp [Bg.item]
  dataset := by simp
  settled := by simp

theorem inv_apply {q : Rx} (I : Inv q) (a : Algorithm) : Inv (q.apply a) :=
  ⟨I.fault, I.idle, I.pending, I.work, I.item, I.started, I.dataset, I.settled⟩

theorem inv_onReady {q : Rx} (I : Inv q) : Inv q.onReady :=
  ⟨I.fault, I.idle, I.pending, I.work, I.item, I.started, I.dataset, I.settled⟩

theorem inv_shutdown {q : Rx} (I : Inv q) : Inv q.shutdown where
  fault := I.fault
  idle h := by cases h
  pending := I.pending
  work h := by cases h
  item := I.item
  started := I.started
  dataset := I.dataset
  settled := I.settled

/-- `enqueue` either drops a request equal to the one in `m_seed` while
`PENDING`, or makes its argument the pending item. -/
theorem enqueue_cases (q : Rx) (seed : RxSeed) :
    (q.state = .PENDING ∧ q.seed.isEqual seed = true ∧
      q.enqueue seed = { q with storage := some (q.storage.getD {}) }) ∨
    (¬(q.state = .PENDING ∧ q.seed.isEqual seed = true) ∧
      q.enqueue seed = { q with storage := some (q.storage.getD {}), pending := some ⟨seed⟩,
                                seed := seed, state := .PENDING }) := by
  unfold enqueue
  by_cases h : q.state = .PENDING ∧ q.seed.isEqual seed = true
  · exact .inl ⟨h.1, h.2, by simp only [if_pos h]⟩
  · exact .inr ⟨h, by simp only [if_neg h]⟩

/-- Once the storage exists `enqueue` keeps it. -/
theorem storage_getD {q : Rx} (h : q.storage.isSome = true) :
    { q with storage := some (q.storage.getD {}) } = q := by
  obtain ⟨st, hst⟩ := Option.isSome_iff_exists.mp h
  cases q; simp only at hst; subst hst; rfl

theorem inv_enqueue {q : Rx} (I : Inv q) (seed : RxSeed) : Inv (q.enqueue seed) := by
  rcases enqueue_cases q seed with ⟨hs, -, e⟩ | ⟨-, e⟩ <;> rw [e]
  · have hst : q.storage.isSome = true := by
      cases hp : q.pending with
      | some it => exact (I.pending it hp).2
      | none =>
        obtain ⟨it, hit⟩ := Option.isSome_iff_exists.mp (I.work hs hp)
        exact (I.item it hit).1
    rw [storage_getD hst]; exact I
  · refine ⟨I.fault, by simp, by simp, by simp, ?_, ?_, ?_, by simp⟩
    · intro it hit
      exact ⟨rfl, by simp⟩
    · intro it hit hne st hst
      obtain ⟨st', hst'⟩ := Option.isSome_iff_exists.mp (I.item it hit).1
      simp only [hst', Option.getD_some, Option.some.injEq] at hst
      exact hst ▸ I.started it hit hne st' hst'
    · intro hd st hst
      cases hb : q.bg.item with
      | none => simp only [Bg.inDataset, Bg.item] at hd hb; split at hd <;> simp_all
      | some it =>
        obtain ⟨st', hst'⟩ := Option.isSome_iff_exists.mp (I.item it hb).1
        simp only [hst', Option.getD_some, Option.some.injEq] at hst
        exact hst ▸ I.dataset hd st' hst'

theorem withDataset_eq {q : Rx} {st : RxBasicStorage} {d : RxDataset}
    (f : RxBasicStorage → RxDataset → Rx) (hst : q.storage = some st)
    (hd : st.dataset = some d) : q.withDataset f = f st d := by
  simp only [withDataset, hst, hd]

/-- What the invariant says at a position that dereferences `m_dataset`. -/
theorem Inv.at_dataset {q : Rx} (I : Inv q) (it : RxQueueItem) (hit : q.bg.item = some it)
    (hd : q.bg.inDataset = true) :
    ∃ st d, q.storage = some st ∧ st.dataset = some d ∧ st.seed = it.seed := by
  obtain ⟨st, hst⟩ := Option.isSome_iff_exists.mp (I.item it hit).1
  obtain ⟨d, hd'⟩ := Option.isSome_iff_exists.mp (I.dataset hd st hst)
  refine ⟨st, d, hst, hd', I.started it hit ?_ st hst⟩
  intro e; rw [e] at hd; cases hd

/-! ## What the background thread can do in one step -/

/-- The moves of the background thread: it ends, takes the pending item, sets
its seed up, works on the storage, finds something newer pending, or publishes
`IDLE`. -/
inductive BgMove (q : Rx) : Rx → Prop where
  | exit : q.bg = .wait → q.state = .SHUTDOWN → BgMove q { q with bg := .exited }
  | take (it : RxQueueItem) : q.bg = .wait → q.state = .PENDING → q.pending = some it →
      BgMove q { q with pending := none, bg := .setSeed it }
  | setSeed (it : RxQueueItem) (st : RxBasicStorage) : q.bg = .setSeed it → q.storage = some st →
      BgMove q { (if st.seed.algorithm ≠ it.seed.algorithm then q.apply it.seed.algorithm else q) with
        storage := some { st with ready := false, seed := it.seed }, bg := .create it }
  | init (it : RxQueueItem) (st st' : RxBasicStorage) (b : Bg) : q.bg.item = some it →
      q.bg ≠ .setSeed it → q.storage = some st → st'.seed = st.seed → b.item = some it →
      b ≠ .setSeed it → (b.inDataset = true → st'.dataset.isSome = true) → b.rank < q.bg.rank →
      BgMove q { q with storage := some st', bg := b }
  | again (it : RxQueueItem) : q.bg = .lock it → (q.state = .SHUTDOWN ∨ q.pending.isSome = true) →
      BgMove q { q with bg := .wait }
  | publish (it : RxQueueItem) : q.bg = .lock it → q.state = .PENDING → q.pending = none →
      BgMove q { q with seed := it.seed, state := .IDLE, async := true, bg := .wait }

theorem bgStep_move {q q' : Rx} {a : Alloc} (I : Inv q) (h : q.bgStep a = some q') :
    BgMove q q' := by
  cases hb : q.bg with
  | wait =>
    simp only [bgStep, hb] at h
    split at h
    · cases h
    · cases h; exact .exit hb ‹_›
    · rename_i hs
      cases hp : q.pending with
      | none => have := I.work hs hp; rw [hb] at this; cases this
      | some it => simp only [hp, Option.some.injEq] at h; subst h; exact .take it hb hs hp
  | setSeed it =>
    obtain ⟨st, hst⟩ := Option.isSome_iff_exists.mp (I.item it (by rw [hb]; rfl)).1
    simp only [bgStep, hb, hst, Option.some.injEq] at h; subst h
    exact .setSeed it st hb hst
  | create it =>
    have hit : q.bg.item = some it := by rw [hb]; rfl
    have hne : q.bg ≠ .setSeed it := by rw [hb]; simp
    obtain ⟨st, hst⟩ := Option.isSome_iff_exists.mp (I.item it hit).1
    simp only [bgStep, hb, hst] at h
    split at h <;> cases h
    · exact .init it st st _ hit hne hst rfl rfl (by simp) (by simp_all) (by simp [hb, Bg.rank])
    · exact .init it st _ _ hit hne hst rfl rfl (by simp) (by simp [Bg.inDataset])
        (by simp [hb, Bg.rank])
    · exact .init it st _ _ hit hne hst rfl rfl (by simp) (by simp) (by simp [hb, Bg.rank])
    · exact .init it st _ _ hit hne hst rfl rfl (by simp) (by simp) (by simp [hb, Bg.rank])
  | cacheBegin it =>
    have hit : q.bg.item = some it := by rw [hb]; rfl
    have hne : q.bg ≠ .setSeed it := by rw [hb]; simp
    obtain ⟨st, d, hst, hd, -⟩ := I.at_dataset it hit (by rw [hb]; rfl)
    simp only [bgStep, hb, withDataset_eq _ hst hd, Option.some.injEq] at h; subst h
    split
    · have := BgMove.init it st st (.dsBegin it) hit hne hst rfl rfl (by simp) (by simp [hd])
        (by simp [hb, Bg.rank])
      rwa [← hst] at this
    · exact .init it st _ _ hit hne hst rfl rfl (by simp) (by simp) (by simp [hb, Bg.rank])
  | cacheEnd it n =>
    have hit : q.bg.item = some it := by rw [hb]; rfl
    have hne : q.bg ≠ .setSeed it := by rw [hb]; simp
    obtain ⟨st, d, hst, hd, -⟩ := I.at_dataset it hit (by rw [hb]; rfl)
    simp only [bgStep, hb, withDataset_eq _ hst hd, Option.some.injEq] at h; subst h
    exact .init it st _ _ hit hne hst rfl rfl (by simp) (by simp) (by simp [hb, Bg.rank])
  | dsBegin it =>
    have hit : q.bg.item = some it := by rw [hb]; rfl
    have hne : q.bg ≠ .setSeed it := by rw [hb]; simp
    obtain ⟨st, d, hst, hd, -⟩ := I.at_dataset it hit (by rw [hb]; rfl)
    simp only [bgStep, hb, withDataset_eq _ hst hd, Option.some.injEq] at h; subst h
    split
    · exact .init it st _ _ hit hne hst rfl rfl (by simp) (by simp) (by simp [hb, Bg.rank])
    · exact .init it st _ _ hit hne hst rfl rfl (by simp) (by simp [Bg.inDataset])
        (by simp [hb, Bg.rank])
  | dsEnd it n =>
    have hit : q.bg.item = some it := by rw [hb]; rfl
    have hne : q.bg ≠ .setSeed it := by rw [hb]; simp
    obtain ⟨st, d, hst, hd, -⟩ := I.at_dataset it hit (by rw [hb]; rfl)
    simp only [bgStep, hb, withDataset_eq _ hst hd, Option.some.injEq] at h; subst h
    exact .init it st _ _ hit hne hst rfl rfl (by simp) (by simp [Bg.inDataset])
      (by simp [hb, Bg.rank])
  | lock it =>
    have hi : q.state ≠ .IDLE := fun e => by have := (I.idle e).2; rw [hb] at this; cases this
    simp only [bgStep, hb] at h
    split at h <;> cases h
    · exact .again it hb ‹_›
    · rename_i hc
      have hp : q.pending = none := by simpa using fun hp => hc (.inr hp)
      cases hs : q.state with
      | IDLE => exact absurd hs hi
      | PENDING => exact .publish it hb hs hp
      | SHUTDOWN => exact absurd (.inl hs) hc
  | exited => simp [bgStep, hb] at h
  | fault => exact absurd hb I.fault

theorem inv_bgStep {q q' : Rx} {a : Alloc} (I : Inv q) (h : q.bgStep a = some q') : Inv q' := by
  cases bgStep_move I h with
  | exit hb hs =>
    exact ⟨by simp, fun hi => absurd (hs.symm.trans hi) (by simp), I.pending,
      fun hp => absurd (hs.symm.trans hp) (by simp), by simp [Bg.item],
      by simp [Bg.item], by simp [Bg.inDataset], fun hp _ => I.settled hp (by rw [hb]; rfl)⟩
  | take it hb hs hp =>
    obtain ⟨he, hst⟩ := I.pending it hp
    exact ⟨by simp, fun hi => absurd (hs.symm.trans hi) (by simp), by simp,
      by simp [Bg.item], by simp only [Bg.item]; rintro _ ⟨⟩; exact ⟨hst, fun _ => he⟩,
      by simp only [Bg.item]; rintro _ ⟨⟩ hne; exact absurd rfl hne,
      by simp [Bg.inDataset], by simp [Bg.item]⟩
  | setSeed it st hb hst =>
    have hit : q.bg.item = some it := by rw [hb]; rfl
    have hi : q.state ≠ .IDLE := fun e => by have := (I.idle e).2; rw [hb] at this; cases this
    have hpe := I.pending
    have hitem := (I.item it hit).2
    constructor <;> split <;> simp_all [Bg.item, Bg.inDataset, apply]
  | init it st st' b hit hne hst hseed hb hnb hd hr =>
    have hs := I.started it hit hne st hst
    refine ⟨?_, ?_, fun it' h => ⟨(I.pending it' h).1, rfl⟩, ?_, ?_, ?_, ?_, ?_⟩
    · simp only; intro e; rw [e] at hb; cases hb
    · intro hi; have := (I.idle hi).2; rw [this] at hit; cases hit
    · intro _ _; simp only [hb, Option.isSome_some]
    · intro it' h
      simp only [hb, Option.some.injEq] at h
      subst h; exact ⟨rfl, (I.item it hit).2⟩
    · intro it' h _ st'' hst''
      simp only [hb, Option.some.injEq] at h hst''
      rw [← h, ← hst'', hseed, hs]
    · intro h st'' hst''
      simp only [Option.some.injEq] at hst''
      exact hst'' ▸ hd h
    · intro _ h; simp only [hb] at h; cases h
  | again it hb hc =>
    have hit : q.bg.item = some it := by rw [hb]; rfl
    exact ⟨by simp, fun hi => ⟨(I.idle hi).1, rfl⟩, I.pending,
      by rintro (hs : q.state = _) (hp : q.pending = _); simp [hs, hp] at hc,
      by simp [Bg.item], by simp [Bg.item], by simp [Bg.inDataset], fun hp _ st hst => by
        rw [I.started it hit (by rw [hb]; simp) st hst]; exact (I.item it hit).2 hp⟩
  | publish it hb hs hp =>
    have hit : q.bg.item = some it := by rw [hb]; rfl
    exact ⟨by simp, fun _ => ⟨hp, rfl⟩, by simp [hp], by simp, by simp [Bg.item],
      by simp [Bg.item], by simp [Bg.inDataset], fun _ _ st hst =>
        I.started it hit (by rw [hb]; simp) st hst⟩

/-- The hand-over does not change `m_seed` (it is only reached with nothing
pending), and the storage never goes away. -/
theorem bgStep_seed {q q' : Rx} {a : Alloc} (I : Inv q) (h : q.bgStep a = some q') :
    q'.seed = q.seed ∧ (q.storage.isSome = true → q'.storage.isSome = true) := by
  cases bgStep_move I h with
  | setSeed it st hb hst => split <;> exact ⟨rfl, fun _ => rfl⟩
  | init it st st' b => exact ⟨rfl, fun _ => rfl⟩
  | publish it hb hs hp => exact ⟨(I.item it (by rw [hb]; rfl)).2 hp, id⟩
  | _ => exact ⟨rfl, id⟩

/-- A dataset was created. It is never given back. -/
def hasDataset (q : Rx) : Bool := (q.storage.bind (·.dataset)).isSome

theorem bgStep_hasDataset {q q' : Rx} {a : Alloc} (h : q.bgStep a = some q')
    (hd : q.hasDataset = true) : q'.hasDataset = true := by
  unfold hasDataset at *
  obtain ⟨d, hd⟩ := Option.isSome_iff_exists.mp hd
  obtain ⟨st, hst, hd⟩ := Option.bind_eq_some_iff.mp hd
  have hq : q.storage.bind (·.dataset) = some d := by rw [hst]; exact hd
  have hw : ∀ f, q.withDataset f = f st d := fun f => by simp only [withDataset, hst, hd]
  cases hb : q.bg with
  | wait =>
    simp only [bgStep, hb] at h
    split at h
    · cases h
    · cases h; rw [hq]; rfl
    · split at h <;> cases h <;> rw [hq] <;> rfl
  | setSeed it =>
    simp only [bgStep, hb, hst, Option.some.injEq] at h
    subst h; split <;> simp [hd]
  | create it => simp only [bgStep, hb, hst, hd, Option.some.injEq] at h; subst h; simp [hd]
  | cacheBegin it =>
    simp only [bgStep, hb, hw, Option.some.injEq] at h
    subst h; split <;> first | (rw [hq]; rfl) | rfl
  | cacheEnd it n => simp only [bgStep, hb, hw, Option.some.injEq] at h; subst h; rfl
  | dsBegin it =>
    simp only [bgStep, hb, hw, Option.some.injEq] at h
    subst h; split <;> first | simp [hd] | rfl
  | dsEnd it n => simp only [bgStep, hb, hw, Option.some.injEq] at h; subst h; rfl
  | lock it =>
    simp only [bgStep, hb] at h
    split at h <;> cases h <;> rw [hq] <;> rfl
  | exited => simp [bgStep, hb] at h
  | fault => simp [bgStep, hb] at h

theorem enqueue_hasDataset {q : Rx} (seed : RxSeed) (hd : q.hasDataset = true) :
    (q.enqueue seed).hasDataset = true := by
  unfold hasDataset at *
  obtain ⟨d, hd⟩ := Option.isSome_iff_exists.mp hd
  obtain ⟨st, hst, hd⟩ := Option.bind_eq_some_iff.mp hd
  rcases enqueue_cases q seed with ⟨-, -, e⟩ | ⟨-, e⟩ <;> simp [e, hst, hd]

theorem dataset_hasDataset {q : Rx} {j : Job} (h : (q.dataset j).isSome = true) :
    q.hasDataset = true := by
  obtain ⟨d, h⟩ := Option.isSome_iff_exists.mp h
  unfold hasDataset
  simp only [dataset] at h
  split at h
  · split at h
    · cases h
    · rename_i st hst
      split at h
      · rw [hst]; simp [h]
      · cases h
  · cases h

/-- In `IDLE` the background thread is blocked. -/
theorem bgStep_idle {q : Rx} (I : Inv q) (h : q.state = .IDLE) (a : Alloc) : q.bgStep a = none := by
  simp only [bgStep, (I.idle h).2, h]

/-- The background thread takes the state to `IDLE` only. -/
theorem bgStep_state {q q' : Rx} {a : Alloc} (I : Inv q) (h : q.bgStep a = some q') :
    q'.state = q.state ∨ (q.state = .PENDING ∧ q'.state = .IDLE) := by
  cases bgStep_move I h with
  | setSeed it st hb hst => split <;> exact .inl rfl
  | publish it hb hs hp => exact .inr ⟨hs, rfl⟩
  | _ => exact .inl rfl

/-! ## Progress of the background thread -/

/-- How many more steps the background thread needs until it publishes `IDLE`. -/
def bgRank (q : Rx) : Nat := (if q.pending.isSome then 9 else 0) + q.bg.rank

/-- While the queue is `PENDING` its thread, unless it has ended, can move. -/
theorem bgStep_isSome {q : Rx} (I : Inv q) (hs : q.state = .PENDING) (hb : q.bg ≠ .exited)
    (a : Alloc) : ∃ q', q.bgStep a = some q' := by
  cases hbg : q.bg with
  | wait => simp only [bgStep, hbg, hs]; split <;> exact ⟨_, rfl⟩
  | setSeed it => simp only [bgStep, hbg]; split <;> exact ⟨_, rfl⟩
  | create it => simp only [bgStep, hbg]; split <;> [exact ⟨_, rfl⟩; (split <;> exact ⟨_, rfl⟩)]
  | lock it => simp only [bgStep, hbg]; split <;> exact ⟨_, rfl⟩
  | exited => exact absurd hbg hb
  | fault => exact absurd hbg I.fault
  | _ => exact ⟨_, by simp only [bgStep, hbg]; rfl⟩

/-- Each step of a `PENDING` queue's thread brings it closer to `IDLE`. -/
theorem bgStep_rank {q q' : Rx} {a : Alloc} (I : Inv q) (hs : q.state = .PENDING)
    (h : q.bgStep a = some q') : q'.bgRank < q.bgRank := by
  cases bgStep_move I h with
  | exit hb hs' => rw [hs] at hs'; cases hs'
  | take it hb _ hp => simp [bgRank, hb, hp, Bg.rank]
  | setSeed it st hb hst =>
    split <;> simp only [bgRank, hb, Bg.rank, apply] <;> exact Nat.add_lt_add_left (by decide) _
  | init it st st' b _ _ _ _ _ _ _ hr => exact Nat.add_lt_add_left hr _
  | again it hb _ =>
    simp only [bgRank, hb, Bg.rank]; exact Nat.add_lt_add_left (by decide) _
  | publish it hb _ hp => simp [bgRank, hb, hp, Bg.rank]

end Rx

end Rxs
