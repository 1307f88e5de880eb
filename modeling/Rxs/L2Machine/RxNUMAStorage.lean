import Mathlib.Logic.Function.Basic
import Rxs.Core.LTS

/-!
# Datasets on several NUMA nodes

Each node of the list gets a dataset of its own if it can be bound and allocated. One of them
is initialised, the others are copies of it. The cache it is initialised from is in its pages
of one gigabyte, or it is allocated apart and attached to the dataset of the first node. A
lookup for a node without a dataset gives that of the first node.

The list is the user's: a node may not exist, or be named twice.

* `datasets_allocate`, `leaked_allocate`: what the threads of an init leave.
* `createDatasets_eq`, `lookup_iff`: the two halves of an init.
* `law_init`: one init, exactly under `Ok`.
* **`numa_storage`**: sequences of inits.
* `numa_storage_fails`: the first node cannot be bound.
-/
namespace Rxs

open Rxs.Core

variable {Seed : Type}

/-- `get`: the cache could be created. -/
structure RxNUMAStorage.RxCache (Seed : Type) where
  get : Bool := true
  seed : Option Seed := none
  deriving DecidableEq, Repr

/-- `full`: the dataset could be created. `mem` is the seed whose items it has. -/
structure RxNUMAStorage.RxDataset (Seed : Type) where
  full : Bool
  oneGbPages : Bool := false
  cache : Option (RxNUMAStorage.RxCache Seed) := none
  mem : Option Seed := none
  deriving DecidableEq, Repr

namespace RxNUMAStorage.RxDataset

/-- mirrors src/crypto/rx/RxDataset.cpp:166-219 -/
def init (d : RxDataset Seed) (seed : Seed) : RxDataset Seed :=
  match d.cache with
  | none => d
  | some c =>
    if ¬ c.get then d
    else
      { d with
        cache := some { c with seed := some seed }
        mem := if d.full then some seed else d.mem }

/-- mirrors src/crypto/rx/RxDataset.cpp:348-366 -/
def setRaw (d src : RxDataset Seed) : RxDataset Seed :=
  if d.full ∧ src.full then { d with mem := src.mem } else d

/-- Filled for the seed; a dataset without items has a cache that is. -/
def InitFor (d : RxDataset Seed) (seed : Seed) : Prop :=
  if d.full then d.mem = some seed
  else ∃ c ∈ d.cache, c.get = true ∧ c.seed = some seed

end RxNUMAStorage.RxDataset

/-- What happens to the thread of a node. `allocated`: a dataset, for pages of one gigabyte
with whether the cache in them can be created. -/
inductive RxNUMAStorage.Outcome where
  | bindFailed
  | datasetFailed
  | allocated (oneGbPages : Option Bool)
  deriving DecidableEq, Repr

/-- mirrors src/crypto/rx/RxNUMAStorage.cpp:216-236 and src/crypto/rx/RxDataset.cpp:133-148 -/
def RxNUMAStorage.Outcome.dataset : RxNUMAStorage.Outcome → Option (RxNUMAStorage.RxDataset Seed)
  | .bindFailed | .datasetFailed => none
  | .allocated none => some { full := true }
  | .allocated (some get) => some { full := true, oneGbPages := true, cache := some { get := get } }

/-- The list of nodes is not empty. `datasets` has entries of its nodes only. `cache` is
whether `m_cache` was set. Ghost: `leaked`, the datasets and caches nobody will delete;
`threw`, an exception nobody catches. -/
structure RxNUMAStorage (Seed : Type) where
  front : Nat
  others : List Nat
  allocated : Bool := false
  ready : Bool := false
  cache : Bool := false
  seed : Option Seed := none
  datasets : Nat → Option (RxNUMAStorage.RxDataset Seed) := fun _ => none
  leaked : Nat := 0
  threw : Bool := false

namespace RxNUMAStorage

def nodeset (s : RxNUMAStorage Seed) : List Nat := s.front :: s.others

def isEmpty (s : RxNUMAStorage Seed) : Bool := s.nodeset.all fun n => (s.datasets n).isNone

/-- Where `at` throws there is none.
mirrors src/crypto/rx/RxNUMAStorage.cpp:97-101 -/
def dataset (s : RxNUMAStorage Seed) (node : Nat) : Option (RxDataset Seed) :=
  if (s.datasets node).isSome then s.datasets node else s.datasets s.front

/-- The threads, one behind the other; an entry that is there stays.
mirrors src/crypto/rx/RxNUMAStorage.cpp:216-236 -/
def allocate (outcome : Nat → Outcome) (s : RxNUMAStorage Seed) : List Nat → RxNUMAStorage Seed
  | [] => s
  | n :: ns =>
    match (outcome n).dataset with
    | none => allocate outcome s ns
    | some d =>
      if (s.datasets n).isSome then allocate outcome { s with leaked := s.leaked + 1 } ns
      else allocate outcome { s with datasets := Function.update s.datasets n (some d) } ns

/-- mirrors src/crypto/rx/RxNUMAStorage.cpp:154-167 -/
def isCacheRequired (s : RxNUMAStorage Seed) : Bool :=
  s.isEmpty || s.nodeset.all fun n => (s.datasets n).all (¬ ·.oneGbPages)

def setCache (s : RxNUMAStorage Seed) (node : Nat) : RxNUMAStorage Seed :=
  let attached := (s.datasets node).map fun d => { d with cache := some {} }
  { s with datasets := Function.update s.datasets node attached }

/-- Where `at` throws, the cache that was allocated for the datasets has no owner.
mirrors src/crypto/rx/RxNUMAStorage.cpp:116-151,240-258 -/
def createDatasets (s : RxNUMAStorage Seed) (outcome : Nat → Outcome) (cacheOk : Bool) :
    RxNUMAStorage Seed × Bool :=
  let s := s.allocate outcome s.nodeset
  let s := { s with cache := s.cache || (s.isCacheRequired && cacheOk) }
  if s.isCacheRequired ∧ ¬ s.cache then (s, false)
  else if s.isEmpty then
    let slow : RxDataset Seed := { full := false, cache := some {} }
    ({ s with datasets := Function.update s.datasets s.front (some slow), allocated := true }, true)
  else if s.cache then
    if (s.dataset s.front).isNone then ({ s with threw := true, leaked := s.leaked + 1 }, false)
    else ({ s.setCache s.front with allocated := true }, true)
  else ({ s with allocated := true }, true)

/-- The nodes whose dataset has a cache. -/
def caching (s : RxNUMAStorage Seed) : List Nat :=
  s.nodeset.filter fun n => (s.datasets n).any (·.cache.isSome)

/-- The last one of the map that has a cache, whose order is not known: `choice` says which. -/
def primaryId (s : RxNUMAStorage Seed) (choice : Nat) : Nat :=
  (s.caching[choice % s.caching.length]?).getD 0

/-- mirrors src/crypto/rx/RxNUMAStorage.cpp:170-200 -/
def initDatasets (s : RxNUMAStorage Seed) (seed : Seed) (choice : Nat) : RxNUMAStorage Seed :=
  let id := s.primaryId choice
  match s.dataset id with
  | none => { s with threw := true }
  | some primary =>
    let key := if (s.datasets id).isSome then id else s.front
    let primary := primary.init seed
    { s with
      datasets := fun n =>
        if n = key then some primary else (s.datasets n).map (·.setRaw primary)
      ready := true }

/-- An init with what happens to its threads. -/
structure Init (Seed : Type) where
  seed : Seed
  outcome : Nat → Outcome
  cacheOk : Bool
  choice : Nat

/-- mirrors src/crypto/rx/RxNUMAStorage.cpp:104-113,379-388 -/
def init (s : RxNUMAStorage Seed) (i : Init Seed) : RxNUMAStorage Seed :=
  let s := { s with ready := false, seed := some i.seed }
  if s.allocated then s.initDatasets i.seed i.choice
  else
    let (s, ok) := s.createDatasets i.outcome i.cacheOk
    if ok then s.initDatasets i.seed i.choice else s

def lts (Seed : Type) (front : Nat) (others : List Nat) : LTS (RxNUMAStorage Seed) (Init Seed) where
  init s := s = { front := front, others := others }
  step s i s' := s.threw = false ∧ s' = s.init i

/-- Every lookup of a storage that is ready gives a dataset for its seed, nothing is lost,
and nothing is thrown. -/
structure Law (s : RxNUMAStorage Seed) : Prop where
  lookup : s.ready = true → ∃ seed, s.seed = some seed ∧
    ∀ node, ∃ d ∈ s.dataset node, d.InitFor seed
  leaked : s.leaked = 0
  threw : s.threw = false

/-- The datasets there are behind the threads. -/
def behind (s : RxNUMAStorage Seed) (outcome : Nat → Outcome) : RxNUMAStorage Seed :=
  { s with
    datasets := fun n =>
      if (s.datasets n).isSome then s.datasets n
      else if n ∈ s.nodeset then (outcome n).dataset else none }

def Outcome.succeeds : Outcome → Bool
  | .allocated _ => true
  | _ => false

/-- No node gets a second dataset. -/
def Fresh (s : RxNUMAStorage Seed) (outcome : Nat → Outcome) (ns : List Nat) : Prop :=
  (ns.filter fun n => (outcome n).succeeds).Nodup ∧
    ∀ n ∈ ns, (outcome n).succeeds = true → s.datasets n = none

/-- The dataset that is initialised has a cache that works, or has the items already. -/
def Works (s : RxNUMAStorage Seed) (i : Init Seed) : Prop :=
  ∃ d ∈ s.datasets (s.primaryId i.choice), (∃ c ∈ d.cache, c.get = true) ∨ d.mem = some i.seed

/-- The condition on an init. -/
def Ok (s : RxNUMAStorage Seed) (i : Init Seed) : Prop :=
  if s.allocated then s.Works i
  else
    let t := s.behind i.outcome
    s.Fresh i.outcome s.nodeset ∧
      (t.isEmpty = true ∨ (t.isCacheRequired = true ∧ i.cacheOk = false) ∨
        ((t.datasets t.front).isSome = true ∧ (t.isCacheRequired = true ∨ t.Works i)))

/-! ## The threads -/

theorem succeeds_iff (o : Outcome) :
    o.succeeds = true ↔ ∃ d : RxDataset Seed, o.dataset = some d := by
  cases o with
  | bindFailed => simp [Outcome.succeeds, Outcome.dataset]
  | datasetFailed => simp [Outcome.succeeds, Outcome.dataset]
  | allocated oneGbPages => cases oneGbPages <;> simp [Outcome.succeeds, Outcome.dataset]

/-- A new dataset is full and without items; it has a cache exactly in pages of one gigabyte. -/
theorem dataset_new {o : Outcome} {d : RxDataset Seed} (h : o.dataset = some d) :
    d.full = true ∧ d.mem = none ∧ d.cache.isSome = d.oneGbPages := by
  cases o with
  | bindFailed => cases h
  | datasetFailed => cases h
  | allocated oneGbPages => cases oneGbPages <;> cases h <;> simp

/-- What the threads leave alone. -/
theorem allocate_frame (outcome : Nat → Outcome) (s : RxNUMAStorage Seed) (ns : List Nat) :
    allocate outcome s ns =
      { s with
        datasets := (allocate outcome s ns).datasets
        leaked := (allocate outcome s ns).leaked } := by
  induction ns generalizing s with
  | nil => rfl
  | cons n ns ih =>
    unfold allocate
    split
    · exact ih s
    · split
      · rw [ih]
      · rw [ih]

theorem datasets_allocate (outcome : Nat → Outcome) (s : RxNUMAStorage Seed) (ns : List Nat)
    (n : Nat) :
    (allocate outcome s ns).datasets n =
      if (s.datasets n).isSome then s.datasets n
      else if n ∈ ns then (outcome n).dataset else none := by
  induction ns generalizing s with
  | nil =>
    cases h : s.datasets n with
    | none => simp [allocate, h]
    | some d => simp [allocate, h]
  | cons m ns ih =>
    unfold allocate
    split
    · rename_i hm
      rw [ih]
      by_cases hn : n = m
      · subst hn
        simp [hm]
      · simp [hn]
    · rename_i d hm
      split
      · rename_i hsome
        rw [ih]
        by_cases hn : n = m
        · subst hn
          simp [hsome]
        · simp [hn]
      · rename_i hnone
        rw [ih]
        by_cases hn : n = m
        · subst hn
          simp [hnone, hm]
        · simp [hn]

theorem le_leaked (outcome : Nat → Outcome) (s : RxNUMAStorage Seed) (ns : List Nat) :
    s.leaked ≤ (allocate outcome s ns).leaked := by
  induction ns generalizing s with
  | nil => exact Nat.le_refl _
  | cons n ns ih =>
    unfold allocate
    split
    · exact ih s
    · split
      · exact Nat.le_trans (Nat.le_succ _) (ih { s with leaked := s.leaked + 1 })
      · exact ih { s with datasets := Function.update s.datasets n (some _) }

/-- A dataset is lost exactly where a node gets a second one. -/
theorem leaked_allocate (outcome : Nat → Outcome) (s : RxNUMAStorage Seed) (ns : List Nat) :
    (allocate outcome s ns).leaked = s.leaked ↔ s.Fresh outcome ns := by
  induction ns generalizing s with
  | nil => simp [allocate, Fresh]
  | cons n ns ih =>
    have hsucc := @succeeds_iff Seed (outcome n)
    unfold allocate
    split
    · rename_i hnone
      have hfail : (outcome n).succeeds = false := by
        rw [← Bool.not_eq_true, hsucc, hnone]
        simp
      rw [ih]
      simp [Fresh, hfail]
    · rename_i d hd
      have hok : (outcome n).succeeds = true := hsucc.mpr ⟨d, hd⟩
      split
      · rename_i hsome
        have hle := le_leaked outcome { s with leaked := s.leaked + 1 } ns
        dsimp only at hle
        refine iff_of_false (by omega) fun h => ?_
        rw [h.2 n List.mem_cons_self hok] at hsome
        cases hsome
      · rename_i hnone
        have hempty : s.datasets n = none := by simpa using hnone
        refine (ih { s with datasets := Function.update s.datasets n (some d) }).trans ?_
        simp only [Fresh, List.filter_cons, hok, if_true, List.nodup_cons, List.mem_cons,
          List.mem_filter, forall_eq_or_imp, hempty, forall_const, true_and]
        constructor
        · rintro ⟨hnodup, hall⟩
          refine ⟨⟨fun hmem => ?_, hnodup⟩, fun m hm hs => ?_⟩
          · have := hall n hmem.1 hok
            simp at this
          · have hne : m ≠ n := by
              rintro rfl
              have := hall m hm hs
              simp at this
            simpa [Function.update_of_ne hne] using hall m hm hs
        · rintro ⟨⟨hnot, hnodup⟩, hall⟩
          refine ⟨hnodup, fun m hm hs => ?_⟩
          have hne : m ≠ n := by
            rintro rfl
            exact hnot ⟨hm, trivial⟩
          rw [Function.update_of_ne hne]
          exact hall m hm hs

theorem allocate_eq (s : RxNUMAStorage Seed) (outcome : Nat → Outcome) :
    s.allocate outcome s.nodeset =
      { s.behind outcome with leaked := (s.allocate outcome s.nodeset).leaked } := by
  rw [allocate_frame]
  have hdatasets : (s.allocate outcome s.nodeset).datasets = (s.behind outcome).datasets := by
    funext n
    rw [datasets_allocate]
    rfl
  rw [hdatasets]
  rfl

/-! ## The initialisation -/

/-- A storage that can be initialised: the first node has a dataset, some dataset has a cache,
and all are full, but for the one of slow mode. -/
structure Sound (s : RxNUMAStorage Seed) : Prop where
  range : ∀ n, (s.datasets n).isSome = true → n ∈ s.nodeset
  front : (s.datasets s.front).isSome = true
  cached : s.caching ≠ []
  shape : (∀ n, ∀ d ∈ s.datasets n, d.full = true) ∨
    ∃ d c, s.datasets s.front = some d ∧ d.full = false ∧ d.cache = some c ∧ c.get = true ∧
      ∀ n, n ≠ s.front → s.datasets n = none

theorem primary_of_caching {s : RxNUMAStorage Seed} (h : s.caching ≠ []) (choice : Nat) :
    ∃ d, s.datasets (s.primaryId choice) = some d ∧ d.cache.isSome = true := by
  have hlt : choice % s.caching.length < s.caching.length :=
    Nat.mod_lt _ (List.length_pos_iff.mpr h)
  have hmem : s.primaryId choice ∈ s.caching := by
    rw [primaryId, List.getElem?_eq_getElem hlt, Option.getD_some]
    exact List.getElem_mem hlt
  have hany := (List.mem_filter.mp hmem).2
  cases hd : s.datasets (s.primaryId choice) with
  | none => simp [hd] at hany
  | some d => exact ⟨d, rfl, by simpa [hd] using hany⟩

/-- The datasets behind an initialisation. -/
def filled (s : RxNUMAStorage Seed) (seed : Seed) (id : Nat) (d : RxDataset Seed) (n : Nat) :
    Option (RxDataset Seed) :=
  if n = id then some (d.init seed) else (s.datasets n).map (·.setRaw (d.init seed))

theorem initDatasets_eq {s : RxNUMAStorage Seed} {seed : Seed} {choice : Nat}
    {d : RxDataset Seed} (h : s.datasets (s.primaryId choice) = some d) :
    s.initDatasets seed choice =
      { s with datasets := s.filled seed (s.primaryId choice) d, ready := true } := by
  simp only [initDatasets, dataset, h, Option.isSome_some, if_true]
  rfl

theorem cache_init (d : RxDataset Seed) (seed : Seed) :
    (d.init seed).cache.isSome = d.cache.isSome ∧ (d.init seed).full = d.full := by
  unfold RxDataset.init
  split
  · exact ⟨rfl, rfl⟩
  · rename_i c hc
    split
    · exact ⟨rfl, rfl⟩
    · simp [hc]

theorem cache_setRaw (d src : RxDataset Seed) :
    (d.setRaw src).cache = d.cache ∧ (d.setRaw src).full = d.full := by
  unfold RxDataset.setRaw
  split
  · exact ⟨rfl, rfl⟩
  · exact ⟨rfl, rfl⟩

/-- Who has a dataset, and who has a cache, stays. -/
theorem filled_cache {s : RxNUMAStorage Seed} {seed : Seed} {id : Nat} {d : RxDataset Seed}
    (h : s.datasets id = some d) (n : Nat) :
    (s.filled seed id d n).isSome = (s.datasets n).isSome ∧
      (s.filled seed id d n).any (·.cache.isSome) = (s.datasets n).any (·.cache.isSome) := by
  unfold filled
  split
  · rename_i hn
    subst hn
    simp [h, (cache_init d seed).1]
  · cases s.datasets n with
    | none => simp
    | some e => simp [(cache_setRaw e (d.init seed)).1]

theorem init_mem {d : RxDataset Seed} {seed : Seed} (hfull : d.full = true) :
    (d.init seed).mem = some seed ↔
      (∃ c ∈ d.cache, c.get = true) ∨ d.mem = some seed := by
  unfold RxDataset.init
  cases hc : d.cache with
  | none => simp
  | some c => cases hget : c.get <;> simp [hget, hfull]

theorem filled_front {s : RxNUMAStorage Seed} (h : s.Sound) {seed : Seed} {id : Nat}
    {d : RxDataset Seed} (hd : s.datasets id = some d) :
    (s.filled seed id d s.front).isSome = true := by
  rw [(filled_cache hd s.front).1]
  exact h.front

/-- A lookup finds an entry of the map, and finds each. -/
theorem lookup_all {f : Nat → Option (RxDataset Seed)} {s : RxNUMAStorage Seed}
    (hf : (f s.front).isSome = true) {P : RxDataset Seed → Prop} :
    (∀ node, ∃ e ∈ ({ s with datasets := f } : RxNUMAStorage Seed).dataset node, P e) ↔
      ∀ n, ∀ e ∈ f n, P e := by
  constructor
  · intro h n e he
    obtain ⟨e', he', hP⟩ := h n
    have hsome : (f n).isSome = true := Option.isSome_iff_exists.mpr ⟨e, he⟩
    rw [dataset, if_pos hsome] at he'
    cases he.symm.trans he'
    exact hP
  · intro h node
    unfold dataset
    split
    · rename_i hsome
      obtain ⟨e, he⟩ := Option.isSome_iff_exists.mp hsome
      exact ⟨e, he, h node e he⟩
    · obtain ⟨e, he⟩ := Option.isSome_iff_exists.mp hf
      exact ⟨e, he, h s.front e he⟩

/-- **An initialisation**: every dataset has the items exactly if the primary works. -/
theorem lookup_iff {s : RxNUMAStorage Seed} (h : s.Sound) {i : Init Seed} {d : RxDataset Seed}
    (hd : s.datasets (s.primaryId i.choice) = some d) :
    (∀ node, ∃ e ∈ (s.initDatasets i.seed i.choice).dataset node, e.InitFor i.seed) ↔
      s.Works i := by
  have hworks : s.Works i ↔ (∃ c ∈ d.cache, c.get = true) ∨ d.mem = some i.seed := by
    simp [Works, hd]
  rw [initDatasets_eq hd, hworks]
  refine (@lookup_all Seed _ { s with ready := true } (filled_front h hd) _).trans ?_
  rcases h.shape with hfull | ⟨d', c, hfront, hslow, hc, hget, honly⟩
  · have hdfull := hfull _ d hd
    rw [← init_mem hdfull]
    constructor
    · intro hall
      have := hall (s.primaryId i.choice) (d.init i.seed) (by simp [filled])
      simpa [RxDataset.InitFor, cache_init, hdfull] using this
    · intro hmem n e he
      unfold filled at he
      split at he
      · cases he
        simpa [RxDataset.InitFor, cache_init, hdfull] using hmem
      · obtain ⟨e₀, he₀, rfl⟩ := Option.map_eq_some_iff.mp he
        have hfull₀ := hfull n e₀ he₀
        simp [RxDataset.InitFor, RxDataset.setRaw, hfull₀, cache_init, hdfull, hmem]
  · have hid : s.primaryId i.choice = s.front := by
      by_contra hne
      rw [honly _ hne] at hd
      cases hd
    rw [hid] at hd
    cases hfront.symm.trans hd
    refine iff_of_true (fun n e he => ?_) (.inl ⟨c, hc, hget⟩)
    unfold filled at he
    split at he
    · cases he
      simp [RxDataset.InitFor, RxDataset.init, hc, hget, hslow]
    · rename_i hn
      rw [hid] at hn
      rw [honly n hn] at he
      cases he

theorem Sound.initDatasets {s : RxNUMAStorage Seed} (h : s.Sound) (seed : Seed) (choice : Nat) :
    (s.initDatasets seed choice).Sound := by
  obtain ⟨d, hd, -⟩ := primary_of_caching h.cached choice
  have hcache := @filled_cache Seed s seed _ d hd
  rw [initDatasets_eq hd]
  refine ⟨fun n hn => ?_, filled_front h hd, ?_, ?_⟩
  · dsimp only at hn
    rw [(hcache n).1] at hn
    exact h.range n hn
  · have hsame : ({ s with datasets := s.filled seed (s.primaryId choice) d, ready := true } :
        RxNUMAStorage Seed).caching = s.caching := by
      unfold caching
      refine List.filter_congr fun n _ => ?_
      exact (hcache n).2
    rw [hsame]
    exact h.cached
  · rcases h.shape with hfull | ⟨d', c, hfront, hslow, hc, hget, honly⟩
    · refine .inl fun n e he => ?_
      have hdfull := hfull _ d hd
      unfold filled at he
      dsimp only at he
      split at he
      · cases he
        rw [(cache_init d seed).2, hdfull]
      · obtain ⟨e₀, he₀, rfl⟩ := Option.map_eq_some_iff.mp he
        rw [(cache_setRaw e₀ _).2]
        exact hfull n e₀ he₀
    · have hid : s.primaryId choice = s.front := by
        by_contra hne
        rw [honly _ hne] at hd
        cases hd
      rw [hid] at hd ⊢
      cases hfront.symm.trans hd
      refine .inr ⟨d.init seed, { c with seed := some seed }, by simp [filled], ?_, ?_, hget, ?_⟩
      · rw [(cache_init d seed).2, hslow]
      · simp [RxDataset.init, hc, hget]
      · intro n hn
        have hn' : n ≠ s.front := hn
        simp [filled, hn', honly n hn']

theorem law_initDatasets {s : RxNUMAStorage Seed} (h : s.Sound) {i : Init Seed}
    (hseed : s.seed = some i.seed) (hthrew : s.threw = false) :
    (s.initDatasets i.seed i.choice).Law ↔ s.leaked = 0 ∧ s.Works i := by
  obtain ⟨d, hd, -⟩ := primary_of_caching h.cached i.choice
  have hiff := @lookup_iff Seed s h i d hd
  have heq := @initDatasets_eq Seed s i.seed i.choice d hd
  constructor
  · intro hlaw
    refine ⟨?_, hiff.mp fun node => ?_⟩
    · have hleaked := hlaw.leaked
      rwa [heq] at hleaked
    · obtain ⟨seed, hs, hall⟩ := hlaw.lookup (by rw [heq])
      have hsame : some i.seed = some seed := by
        rw [heq] at hs
        exact hseed.symm.trans hs
      cases hsame
      exact hall node
  · rintro ⟨hleaked, hworks⟩
    refine ⟨fun _ => ⟨i.seed, ?_, hiff.mpr hworks⟩, ?_, ?_⟩
    · rw [heq]
      exact hseed
    · rw [heq]
      exact hleaked
    · rw [heq]
      exact hthrew

/-! ## The creation -/

/-- A storage before its datasets: those there are from an init without a cache. -/
structure Idle (s : RxNUMAStorage Seed) : Prop where
  range : ∀ n, (s.datasets n).isSome = true → n ∈ s.nodeset
  ready : s.ready = false
  cache : s.cache = false
  fresh : ∀ n, ∀ d ∈ s.datasets n, d.full = true ∧ d.mem = none ∧ d.cache.isSome = d.oneGbPages

theorem Idle.behind {s : RxNUMAStorage Seed} (h : s.Idle) (outcome : Nat → Outcome) :
    (s.behind outcome).Idle := by
  refine ⟨fun n hn => ?_, h.ready, h.cache, fun n d hd => ?_⟩
  · dsimp only [RxNUMAStorage.behind] at hn
    split at hn
    · exact h.range n hn
    · split at hn
      · rename_i hmem
        exact hmem
      · cases hn
  · dsimp only [RxNUMAStorage.behind] at hd
    split at hd
    · exact h.fresh n d hd
    · split at hd
      · exact dataset_new hd
      · cases hd

theorem Idle.congr {s u : RxNUMAStorage Seed} (h : s.Idle) (hfront : u.front = s.front)
    (hothers : u.others = s.others) (hdatasets : u.datasets = s.datasets)
    (hready : u.ready = false) (hcache : u.cache = false) : u.Idle := by
  cases u
  cases s
  cases hfront
  cases hothers
  cases hdatasets
  exact ⟨h.range, hready, hcache, h.fresh⟩

theorem isEmpty_iff (s : RxNUMAStorage Seed) :
    s.isEmpty = true ↔ ∀ n ∈ s.nodeset, s.datasets n = none := by
  simp [isEmpty, List.all_eq_true]

/-- Where there are datasets, one in pages of one gigabyte makes the cache unnecessary. -/
theorem required_iff {s : RxNUMAStorage Seed} (h : s.Idle) :
    s.isCacheRequired = true ↔ ∀ n, ∀ d ∈ s.datasets n, d.oneGbPages = false := by
  have hmem : ∀ n, ∀ d ∈ s.datasets n, n ∈ s.nodeset := fun n d hd =>
    h.range n (Option.isSome_iff_exists.mpr ⟨d, hd⟩)
  constructor
  · intro hr n d hd
    rcases Bool.or_eq_true _ _ ▸ hr with hempty | hall
    · rw [(isEmpty_iff s).mp hempty n (hmem n d hd)] at hd
      cases hd
    · have := List.all_eq_true.mp hall n (hmem n d hd)
      have hd : s.datasets n = some d := hd
      simpa [hd] using this
  · intro hall
    refine Bool.or_eq_true _ _ ▸ .inr (List.all_eq_true.mpr fun n _ => ?_)
    cases hd : s.datasets n with
    | none => rfl
    | some d => simp [hall n d hd]

theorem caching_of_onegb {s : RxNUMAStorage Seed} (h : s.Idle) (hr : s.isCacheRequired = false) :
    s.caching ≠ [] := by
  intro hnil
  have hall : s.isCacheRequired = true := by
    refine (required_iff h).mpr fun n d hd => ?_
    have hn := h.range n (Option.isSome_iff_exists.mpr ⟨d, hd⟩)
    have hd : s.datasets n = some d := hd
    have hcache := List.filter_eq_nil_iff.mp hnil n hn
    rw [← (h.fresh n d hd).2.2]
    simpa [hd] using hcache
  rw [hr] at hall
  cases hall

/-- The datasets of the threads alone, when no cache is needed. -/
theorem sound_onegb {s : RxNUMAStorage Seed} (h : s.Idle) (hr : s.isCacheRequired = false)
    (hfront : (s.datasets s.front).isSome = true) : s.Sound := by
  refine ⟨h.range, hfront, caching_of_onegb h hr, .inl fun n d hd => (h.fresh n d hd).1⟩

/-- Slow mode: one dataset without items, for the first node. -/
def slow (s : RxNUMAStorage Seed) : RxNUMAStorage Seed :=
  let dataset : RxDataset Seed := { full := false, cache := some {} }
  { s with datasets := Function.update s.datasets s.front (some dataset) }

theorem Sound.congr {s u : RxNUMAStorage Seed} (h : s.Sound) (hfront : u.front = s.front)
    (hothers : u.others = s.others) (hdatasets : u.datasets = s.datasets) : u.Sound := by
  cases u
  cases s
  cases hfront
  cases hothers
  cases hdatasets
  exact ⟨h.range, h.front, h.cached, h.shape⟩

theorem sound_slow {s : RxNUMAStorage Seed} (h : s.Idle) (hempty : s.isEmpty = true) :
    s.slow.Sound ∧ ∀ i, s.slow.Works i := by
  have hnone (n) : s.datasets n = none := by
    by_contra hne
    have hn := h.range n (Option.ne_none_iff_isSome.mp hne)
    exact hne ((isEmpty_iff s).mp hempty n hn)
  have hfront : s.slow.datasets s.front = some { full := false, cache := some {} } := by
    simp [slow]
  have hother (n) (hn : n ≠ s.front) : s.slow.datasets n = none := by
    simp [slow, Function.update_of_ne hn, hnone n]
  have hcached : s.slow.caching ≠ [] := by
    have hmem : s.front ∈ s.slow.caching :=
      List.mem_filter.mpr ⟨List.mem_cons_self, by simp [hfront]⟩
    exact List.ne_nil_of_mem hmem
  refine ⟨⟨fun n hn => ?_, ?_, hcached, .inr ⟨_, _, hfront, rfl, rfl, rfl, hother⟩⟩, fun i => ?_⟩
  · by_cases heq : n = s.front
    · rw [heq]
      exact List.mem_cons_self
    · rw [hother n heq] at hn
      cases hn
  · exact Option.isSome_iff_exists.mpr ⟨_, hfront⟩
  · obtain ⟨d, hd, -⟩ := primary_of_caching hcached i.choice
    refine ⟨d, hd, .inl ?_⟩
    by_cases heq : s.slow.primaryId i.choice = s.front
    · rw [heq] at hd
      cases hfront.symm.trans hd
      exact ⟨{}, rfl, rfl⟩
    · rw [hother _ heq] at hd
      cases hd

/-- A cache that is attached to the first dataset is the only one. -/
theorem sound_attached {s : RxNUMAStorage Seed} (h : s.Idle) (hr : s.isCacheRequired = true)
    (hsome : (s.datasets s.front).isSome = true) :
    (s.setCache s.front).Sound ∧ ∀ i, (s.setCache s.front).Works i := by
  obtain ⟨d₀, hd₀⟩ := Option.isSome_iff_exists.mp hsome
  have hfront : (s.setCache s.front).datasets s.front = some { d₀ with cache := some {} } := by
    simp [setCache, hd₀]
  have hother (n) (hn : n ≠ s.front) : (s.setCache s.front).datasets n = s.datasets n := by
    simp [setCache, Function.update_of_ne hn]
  have hcached : (s.setCache s.front).caching ≠ [] := by
    have hmem : s.front ∈ (s.setCache s.front).caching :=
      List.mem_filter.mpr ⟨List.mem_cons_self, by simp [hfront]⟩
    exact List.ne_nil_of_mem hmem
  refine ⟨⟨fun n hn => ?_, ?_, hcached, .inl fun n d hd => ?_⟩, fun i => ?_⟩
  · by_cases heq : n = s.front
    · rw [heq]
      exact List.mem_cons_self
    · rw [hother n heq] at hn
      exact h.range n hn
  · exact Option.isSome_iff_exists.mpr ⟨_, hfront⟩
  · by_cases heq : n = s.front
    · subst heq
      cases hfront.symm.trans hd
      exact (h.fresh s.front d₀ hd₀).1
    · rw [hother n heq] at hd
      exact (h.fresh n d hd).1
  · obtain ⟨d, hd, hcache⟩ := primary_of_caching hcached i.choice
    refine ⟨d, hd, .inl ?_⟩
    by_cases heq : (s.setCache s.front).primaryId i.choice = s.front
    · rw [heq] at hd
      cases hfront.symm.trans hd
      exact ⟨{}, rfl, rfl⟩
    · -- no other dataset has one: none is in pages of one gigabyte
      rw [hother _ heq] at hd
      rw [(h.fresh _ d hd).2.2, (required_iff h).mp hr _ d hd] at hcache
      cases hcache

/-- What a creation leaves, by what it finds behind the threads. -/
theorem createDatasets_eq {s : RxNUMAStorage Seed} (h : s.cache = false)
    (outcome : Nat → Outcome) (cacheOk : Bool) :
    s.createDatasets outcome cacheOk =
      let t := s.behind outcome
      let u := { t with
        leaked := (s.allocate outcome s.nodeset).leaked
        cache := t.isCacheRequired && cacheOk }
      if t.isCacheRequired ∧ ¬ cacheOk then (u, false)
      else if t.isEmpty then ({ u.slow with allocated := true }, true)
      else if t.isCacheRequired then
        if (t.datasets t.front).isNone then
          ({ u with threw := true, leaked := u.leaked + 1 }, false)
        else ({ u.setCache t.front with allocated := true }, true)
      else ({ u with allocated := true }, true) := by
  have hdataset (u : RxNUMAStorage Seed) : u.dataset u.front = u.datasets u.front := by
    unfold dataset
    split <;> rfl
  unfold createDatasets
  rw [allocate_eq s outcome]
  generalize (s.allocate outcome s.nodeset).leaked = leaked
  have hcache : (s.behind outcome).cache = false := h
  generalize s.behind outcome = t at *
  have hreq (c : Bool) :
      ({ t with leaked := leaked, cache := c } : RxNUMAStorage Seed).isCacheRequired =
        t.isCacheRequired := rfl
  have hempty (c : Bool) :
      ({ t with leaked := leaked, cache := c } : RxNUMAStorage Seed).isEmpty = t.isEmpty := rfl
  have hplain : ({ t with leaked := leaked } : RxNUMAStorage Seed).isCacheRequired =
      t.isCacheRequired := rfl
  have hfront (c : Bool) :
      ({ t with leaked := leaked, cache := c } : RxNUMAStorage Seed).dataset t.front =
        t.datasets t.front :=
    hdataset _
  dsimp only
  rw [hplain, hcache, Bool.false_or]
  cases hr : t.isCacheRequired with
  | true =>
    cases cacheOk with
    | true => simp [hreq, hempty, hfront, hr, slow]
    | false => simp [hreq, hr]
  | false =>
    have hne : t.isEmpty = false := by
      cases he : t.isEmpty with
      | true => simp [isCacheRequired, he] at hr
      | false => rfl
    simp [hreq, hempty, hr, hne]

/-- The invariant of runs. -/
structure Inv (s : RxNUMAStorage Seed) : Prop where
  law : s.Law
  idle : s.allocated = false → s.Idle
  sound : s.allocated = true → s.Sound

/-- An init of datasets that are there. -/
theorem init_allocated {s : RxNUMAStorage Seed} (h : s.Inv) (ha : s.allocated = true)
    (i : Init Seed) :
    ((s.init i).Law ↔ s.Works i) ∧ (s.init i).Sound ∧ (s.init i).allocated = true := by
  have hsound := h.sound ha
  have hs : ({ s with ready := false, seed := some i.seed } : RxNUMAStorage Seed).Sound :=
    hsound.congr rfl rfl rfl
  have heq : s.init i =
      ({ s with ready := false, seed := some i.seed } : RxNUMAStorage Seed).initDatasets i.seed
        i.choice := by
    simp [init, ha]
  obtain ⟨d, hd, -⟩ := primary_of_caching hs.cached i.choice
  rw [heq]
  refine ⟨?_, hs.initDatasets i.seed i.choice, ?_⟩
  · rw [law_initDatasets hs rfl h.law.threw]
    exact and_iff_right h.law.leaked
  · rw [initDatasets_eq hd]
    exact ha

/-- A storage that is not ready owes no lookup. -/
theorem law_idle {s : RxNUMAStorage Seed} (hready : s.ready = false) (hthrew : s.threw = false) :
    s.Law ↔ s.leaked = 0 := by
  refine ⟨fun h => h.leaked, fun h => ⟨fun hr => ?_, h, hthrew⟩⟩
  rw [hready] at hr
  cases hr

/-- A first node without a dataset is not found, once the storage is ready. -/
theorem law_front {s : RxNUMAStorage Seed} {i : Init Seed} (hc : s.caching ≠ [])
    (hfront : s.datasets s.front = none) : ¬ (s.initDatasets i.seed i.choice).Law := by
  obtain ⟨d, hd, -⟩ := primary_of_caching hc i.choice
  intro hlaw
  rw [initDatasets_eq hd] at hlaw
  obtain ⟨seed, -, hall⟩ := hlaw.lookup rfl
  obtain ⟨e, he, -⟩ := hall s.front
  have hnone : s.filled i.seed (s.primaryId i.choice) d s.front = none := by
    have := (@filled_cache Seed s i.seed _ d hd s.front).1
    rw [hfront] at this
    simpa using this
  simp only [dataset, hnone] at he
  cases he

/-- The storage an init starts from. -/
def start (s : RxNUMAStorage Seed) (i : Init Seed) : RxNUMAStorage Seed :=
  { s with ready := false, seed := some i.seed }

theorem init_of_idle {s : RxNUMAStorage Seed} (ha : s.allocated = false) (i : Init Seed) :
    s.init i =
      if ((s.start i).createDatasets i.outcome i.cacheOk).2 then
        ((s.start i).createDatasets i.outcome i.cacheOk).1.initDatasets i.seed i.choice
      else ((s.start i).createDatasets i.outcome i.cacheOk).1 := by
  simp [init, start, ha]

/-- What a storage is between two inits. -/
structure Shape (s : RxNUMAStorage Seed) : Prop where
  idle : s.allocated = false → s.Idle
  sound : s.allocated = true → s.Sound

/-- The second half of an init that has created datasets. -/
theorem shape_initDatasets {s : RxNUMAStorage Seed} (h : s.Sound) (ha : s.allocated = true)
    (i : Init Seed) : (s.initDatasets i.seed i.choice).Shape := by
  obtain ⟨d, hd, -⟩ := primary_of_caching h.cached i.choice
  have hall : (s.initDatasets i.seed i.choice).allocated = true := by
    rw [initDatasets_eq hd]
    exact ha
  refine ⟨fun hf => ?_, fun _ => h.initDatasets i.seed i.choice⟩
  rw [hall] at hf
  cases hf

/-- An init that creates the datasets. -/
theorem init_idle {s : RxNUMAStorage Seed} (h : s.Inv) (ha : s.allocated = false) (i : Init Seed) :
    ((s.init i).Law ↔ s.Ok i) ∧ ((s.init i).Law → (s.init i).Shape) := by
  have hidle := h.idle ha
  have hb : ((s.start i).behind i.outcome).Idle := (hidle.behind i.outcome).congr rfl rfl rfl rfl hidle.cache
  have hcreate := createDatasets_eq (show (s.start i).cache = false from hidle.cache) i.outcome
    i.cacheOk
  have hleaked : ((s.start i).allocate i.outcome s.nodeset).leaked = 0 ↔
      s.Fresh i.outcome s.nodeset := by
    have := leaked_allocate i.outcome (s.start i) s.nodeset
    rw [show (s.start i).leaked = 0 from h.law.leaked] at this
    exact this
  have hok : s.Ok i ↔ s.Fresh i.outcome s.nodeset ∧
      (((s.start i).behind i.outcome).isEmpty = true ∨
        (((s.start i).behind i.outcome).isCacheRequired = true ∧ i.cacheOk = false) ∨
        ((((s.start i).behind i.outcome).datasets s.front).isSome = true ∧
          (((s.start i).behind i.outcome).isCacheRequired = true ∨
            ((s.start i).behind i.outcome).Works i))) := by
    rw [Ok, if_neg (by simp [ha])]
    exact Iff.rfl
  have hinit := init_of_idle ha i
  rw [hcreate] at hinit
  have hfronts : ((s.start i).behind i.outcome).front = s.front := rfl
  have hseed : ((s.start i).behind i.outcome).seed = some i.seed := rfl
  have hthrew : ((s.start i).behind i.outcome).threw = false := h.law.threw
  have hready : ((s.start i).behind i.outcome).ready = false := rfl
  have hunalloc : ((s.start i).behind i.outcome).allocated = false := ha
  have hnodes : (s.start i).nodeset = s.nodeset := rfl
  rw [hnodes] at hinit
  generalize (s.start i).behind i.outcome = b at *
  generalize ((s.start i).allocate i.outcome s.nodeset).leaked = L at *
  rw [hok, ← hleaked]
  clear hok hleaked hcreate
  dsimp only at hinit
  by_cases hr : b.isCacheRequired = true
  · by_cases hc : i.cacheOk = true
    · by_cases he : b.isEmpty = true
      · -- slow mode
        obtain ⟨hsound, hworks⟩ := sound_slow hb he
        have hu : ({ b.slow with allocated := true, leaked := L, cache := true } :
            RxNUMAStorage Seed).Sound := hsound.congr rfl rfl rfl
        have heq : s.init i = ({ b.slow with allocated := true, leaked := L, cache := true } :
            RxNUMAStorage Seed).initDatasets i.seed i.choice := by
          rw [hinit]
          simp [hr, hc, he, slow]
        rw [heq, law_initDatasets hu hseed hthrew]
        refine ⟨?_, fun _ => shape_initDatasets hu rfl i⟩
        have hworks := hworks i
        simp only [he, true_or, and_true]
        exact and_iff_left hworks
      · by_cases hf : (b.datasets b.front).isSome = true
        · -- the cache is attached to the first dataset
          obtain ⟨hsound, hworks⟩ := sound_attached hb hr hf
          have hu : ({ b.setCache b.front with allocated := true, leaked := L, cache := true } :
              RxNUMAStorage Seed).Sound := hsound.congr rfl rfl rfl
          have heq : s.init i =
              ({ b.setCache b.front with allocated := true, leaked := L, cache := true } :
                RxNUMAStorage Seed).initDatasets i.seed i.choice := by
            have hsome : b.datasets b.front ≠ none := Option.ne_none_iff_isSome.mpr hf
            rw [hinit]
            simp [hr, hc, he, hsome, setCache]
          rw [heq, law_initDatasets hu hseed hthrew]
          refine ⟨?_, fun _ => shape_initDatasets hu rfl i⟩
          have hworks := hworks i
          rw [hfronts] at hf
          simp only [hf, hr, true_or, and_self, or_true, and_true]
          exact and_iff_left hworks
        · -- the first node is looked up, and is not there
          have hnone : b.datasets b.front = none := by simpa using hf
          have heq : s.init i = { b with leaked := L + 1, cache := true, threw := true } := by
            rw [hinit]
            simp [hr, hc, he, hnone]
          rw [heq]
          refine ⟨iff_of_false (fun hlaw => ?_) ?_, fun hlaw => ?_⟩
          · cases hlaw.threw
          · rw [hfronts] at hf
            rintro ⟨-, hempty | ⟨-, hcache⟩ | ⟨hsome, -⟩⟩
            · exact he hempty
            · rw [hc] at hcache
              cases hcache
            · exact hf hsome
          · cases hlaw.threw
    · -- no cache: the storage stays as it is behind the threads
      have heq : s.init i = { b with leaked := L, cache := false } := by
        rw [hinit]
        simp [hr, hc]
      have hlaw : ({ b with leaked := L, cache := false } : RxNUMAStorage Seed).Law ↔ L = 0 :=
        law_idle hready hthrew
      rw [heq, hlaw]
      refine ⟨by simp [hr, hc], fun _ => ⟨fun _ => hb.congr rfl rfl rfl hready rfl, fun hall => ?_⟩⟩
      exact absurd (hunalloc.symm.trans hall) Bool.false_ne_true
  · -- a dataset in pages of one gigabyte has a cache
    have hr : b.isCacheRequired = false := by simpa using hr
    have he : b.isEmpty = false := by
      cases he : b.isEmpty with
      | true => simp [isCacheRequired, he] at hr
      | false => rfl
    have heq : s.init i = ({ b with allocated := true, leaked := L, cache := false } :
        RxNUMAStorage Seed).initDatasets i.seed i.choice := by
      rw [hinit]
      simp [hr, he]
    have hcaching := caching_of_onegb hb hr
    rw [heq]
    by_cases hf : (b.datasets b.front).isSome = true
    · have hu : ({ b with allocated := true, leaked := L, cache := false } :
          RxNUMAStorage Seed).Sound := (sound_onegb hb hr hf).congr rfl rfl rfl
      rw [law_initDatasets hu hseed hthrew]
      refine ⟨?_, fun _ => shape_initDatasets hu rfl i⟩
      rw [hfronts] at hf
      simp only [hr, he, hf, Bool.false_eq_true, false_and, false_or, true_and]
      exact Iff.rfl
    · have hnone : b.datasets b.front = none := by simpa using hf
      have hno : ¬ (({ b with allocated := true, leaked := L, cache := false } :
          RxNUMAStorage Seed).initDatasets i.seed i.choice).Law := law_front hcaching hnone
      rw [hfronts] at hf
      refine ⟨iff_of_false hno ?_, fun hlaw => absurd hlaw hno⟩
      simp [hr, he, hf]

/-- **One init.** -/
theorem law_init {s : RxNUMAStorage Seed} (h : s.Inv) (i : Init Seed) :
    (s.init i).Law ↔ s.Ok i := by
  cases ha : s.allocated with
  | false => exact (init_idle h ha i).1
  | true =>
    rw [(init_allocated h ha i).1, Ok, if_pos ha]

theorem inv_init {s : RxNUMAStorage Seed} (h : s.Inv) {i : Init Seed} (hok : s.Ok i) :
    (s.init i).Inv := by
  have hlaw := (law_init h i).mpr hok
  cases ha : s.allocated with
  | false =>
    have hshape := (init_idle h ha i).2 hlaw
    exact ⟨hlaw, hshape.idle, hshape.sound⟩
  | true =>
    obtain ⟨-, hsound, hall⟩ := init_allocated h ha i
    refine ⟨hlaw, fun hf => ?_, fun _ => hsound⟩
    rw [hall] at hf
    cases hf

end RxNUMAStorage

namespace L2.RxNUMAStorage

open Rxs.RxNUMAStorage

/-- **The datasets of the nodes**, in runs of inits that meet the condition. -/
theorem numa_storage (Seed : Type) (front : Nat) (others : List Nat) :
    (∀ s, ((lts Seed front others).restrict Ok).Reachable s → s.Law) ∧
      ∀ s i, ((lts Seed front others).restrict Ok).Reachable s → ((s.init i).Law ↔ s.Ok i) := by
  have I : ((lts Seed front others).restrict Ok).Inductive Inv :=
    { init := by
        rintro s rfl
        exact ⟨⟨nofun, rfl, rfl⟩, fun _ => ⟨nofun, rfl, rfl, nofun⟩, nofun⟩
      step := by
        rintro s i s' h ⟨hok, -, rfl⟩
        exact inv_init h hok }
  exact ⟨fun s hs => (I.reachable hs).law, fun s i hs => law_init (I.reachable hs) i⟩

/-- The first of two nodes cannot be bound, the other has pages of one gigabyte. -/
def partly : Init Nat where
  seed := 1
  outcome n := if n = 0 then .bindFailed else .allocated (some true)
  cacheOk := true
  choice := 0

/-- The storage is ready, and the lookup of the first node throws; where the other node has no
such pages, the init itself throws. -/
theorem numa_storage_fails :
    (¬ ∀ (Seed : Type) front others s, (lts Seed front others).Reachable s → s.Law) ∧
      (({ front := 0, others := [1] } : Rxs.RxNUMAStorage Nat).init partly).ready = true ∧
      ((({ front := 0, others := [1] } : Rxs.RxNUMAStorage Nat).init partly).dataset 0) = none := by
  have hready : (({ front := 0, others := [1] } : Rxs.RxNUMAStorage Nat).init partly).ready =
      true := by decide
  have hnone : ((({ front := 0, others := [1] } : Rxs.RxNUMAStorage Nat).init partly).dataset 0) =
      none := by decide
  refine ⟨fun h => ?_, hready, hnone⟩
  have hreach : (lts Nat 0 [1]).Reachable
      (({ front := 0, others := [1] } : Rxs.RxNUMAStorage Nat).init partly) :=
    ⟨_, _, rfl, .cons ⟨rfl, rfl⟩ (.nil _)⟩
  obtain ⟨seed, -, hall⟩ := (h _ _ _ _ hreach).lookup hready
  obtain ⟨d, hd, -⟩ := hall 0
  rw [hnone] at hd
  cases hd

end L2.RxNUMAStorage

end Rxs
