import Mathlib.Data.List.Nodup
import Mathlib.Data.List.Perm.Basic
import Rxs.Core.Binary64
import Rxs.L2Machine.Job

/-!
# Threads by the caches of the processor

`threads` looks for the caches of the highest level that has a size, and gives each as
many of the units below it as there are scratchpads that fit into it: one unit of every
core, then a second one of every core, in the other order, and so on. A limit is shared
out among the caches.

What hwloc reports is a tree. `Topology` has what hwloc says of it: units have no
children and different numbers, no cache has one of its own level below it (only groups
are at several depths, and caches of instructions are not kept), and the number of units
is an `int`.

* `caches_disjoint`: the units below the caches are units of the tree, each once.
* `assign_spec`: the loop over the cores.
* `processTopLevelCache_spec`: the threads of a cache.
* **`threads_sound`**: the threads.
-/
namespace Rxs.L4.HwlocCpuInfo

open Rxs.Core

/-! ## Topologies -/

structure CacheAttr where
  depth : Nat
  size : UInt64
  associativity : Int
  deriving DecidableEq, Repr

inductive ObjType where
  | MACHINE | PACKAGE | NUMANODE | GROUP | CORE | PU | MISC
  | CACHE (cache : CacheAttr)
  deriving DecidableEq, Repr

/-- `hwloc_obj`, with the value of its info `Inclusive`. -/
inductive Obj where
  | node (type : ObjType) (os_index : UInt32) (inclusive : Option (List Char))
      (children : List Obj)

namespace Obj

def type : Obj → ObjType
  | node type _ _ _ => type

def os_index : Obj → UInt32
  | node _ os_index _ _ => os_index

def inclusive : Obj → Option (List Char)
  | node _ _ inclusive _ => inclusive

def children : Obj → List Obj
  | node _ _ _ children => children

def cache (o : Obj) : Option CacheAttr :=
  match o.type with
  | .CACHE cache => some cache
  | _ => none

end Obj

mutual

/-- The objects that the lambda gets.
mirrors src/backend/cpu/platform/HwlocCpuInfo.cpp:50-64 -/
def findCache (min max : Nat) : Obj → List Obj
  | .node _ _ _ children => findCaches min max children

def findCaches (min max : Nat) : List Obj → List Obj
  | [] => []
  | child :: children =>
    (match child.cache with
      | some cache =>
        if cache.depth < min ∨ cache.depth > max then [] else child :: findCache min max child
      | none => findCache min max child) ++ findCaches min max children

end

mutual

/-- mirrors src/backend/cpu/platform/HwlocCpuInfo.cpp:67-78 and 89-106 -/
def findByType (type : ObjType) : Obj → List Obj
  | .node _ _ _ children => findByTypes type children

def findByTypes (type : ObjType) : List Obj → List Obj
  | [] => []
  | child :: children =>
    (if child.type = type then [child] else findByType type child) ++ findByTypes type children

end

mutual

/-- All objects below. -/
def below : Obj → List Obj
  | .node _ _ _ children => belows children

def belows : List Obj → List Obj
  | [] => []
  | child :: children => child :: (below child ++ belows children)

end

/-- The numbers of the units below. -/
def units (o : Obj) : List UInt32 := (findByType .PU o).map Obj.os_index

/-- Units have no children, and no cache has one of its own level below it. -/
def Reported (o : Obj) : Prop :=
  (o.type = .PU → o.children = []) ∧
    ∀ a, o.cache = some a → ∀ o' ∈ below o, ∀ a', o'.cache = some a' → a'.depth ≠ a.depth

/-- What hwloc reports. -/
structure Topology where
  root : Obj
  reported : ∀ o ∈ below root, Reported o
  distinct : (units root).Nodup
  count_lt : (units root).length < 2 ^ 31

/-! ## The processor -/

/-- mirrors src/backend/cpu/interfaces/ICpuInfo.h:43-47 -/
inductive Vendor where
  | VENDOR_UNKNOWN | VENDOR_INTEL | VENDOR_AMD
  deriving DecidableEq, Repr

/-- mirrors src/backend/cpu/interfaces/ICpuInfo.h:49-57 -/
inductive Arch where
  | ARCH_UNKNOWN | ARCH_ZEN | ARCH_ZEN_PLUS | ARCH_ZEN2 | ARCH_ZEN3 | ARCH_ZEN4 | ARCH_ZEN5
  deriving DecidableEq, Repr

structure CpuInfo where
  topology : Topology
  vendor : Vendor
  arch : Arch
  hardware_concurrency : UInt32

/-- mirrors src/backend/cpu/CpuThread.h:34-58 -/
structure CpuThread where
  affinity : Int := -1
  intensity : Nat := 0
  deriving DecidableEq, Repr

/-- mirrors src/base/crypto/Algorithm.h:77-82 -/
def l2 (a : Algorithm) : UInt64 :=
  let exp := (a.id >>> 8) &&& 0xff
  if ¬ a.isRandomX then 0 else if exp ≤ 31 then 1 <<< UInt64.ofNat exp else 0

/-- `Algorithm::l3`. -/
def scratchpad (a : Algorithm) : UInt64 := UInt64.ofNat a.l3

/-- The same for every algorithm.
mirrors src/base/crypto/Algorithm.h:101 -/
def maxIntensity : Nat := 1

namespace CpuInfo

variable (cpu : CpuInfo)

/-- `m_cache[depth]`.
mirrors src/backend/cpu/platform/HwlocCpuInfo.cpp:150 -/
def cacheSize (depth : Nat) : UInt64 :=
  ((findCache 2 3 cpu.topology.root).filterMap Obj.cache).foldl
    (fun sum a => if a.depth = depth then sum + a.size else sum) 0

def L2 : UInt64 := cpu.cacheSize 2

def L3 : UInt64 := cpu.cacheSize 3

/-- `m_threads`; that of `BasicCpuInfo` where there are no units.
mirrors src/backend/cpu/platform/HwlocCpuInfo.cpp:405-424 -/
def m_threads : Nat :=
  if (units cpu.topology.root).length = 0 then cpu.hardware_concurrency.toNat
  else (units cpu.topology.root).length

end CpuInfo

/-- `BasicCpuInfo::threads`, which has no units and takes no limit.
mirrors src/backend/cpu/platform/BasicCpuInfo.cpp:310-329 -/
def basicThreads (cpu : CpuInfo) (algorithm : Algorithm) : List CpuThread :=
  let count := cpu.hardware_concurrency.toNat
  if count = 1 then List.replicate 1 {}
  else if algorithm.isRandomX then
    if algorithm = .RX_WOW then List.replicate count {}
    else List.replicate (max (count / 2) 1) {}
  else List.replicate (max (count / 2) 1) { intensity := 1 }

/-! ## One cache -/

/-- mirrors src/backend/cpu/platform/HwlocCpuInfo.cpp:107-111 -/
def isCacheExclusive (o : Obj) : Bool :=
  match o.inclusive with
  | none => true
  | some value => value.head? ≠ some '1'

/-- What is added up of the caches below a cache of level 3. -/
structure Below where
  L2 : UInt64 := 0
  L2_associativity : Int := 0
  extra : UInt64 := 0

/-- mirrors src/backend/cpu/platform/HwlocCpuInfo.cpp:294-311 -/
def process_L2 (cpu : CpuInfo) (L3_exclusive : Bool) (scratchpad : UInt64) (s : Below) (l2 : Obj) :
    Below :=
  match l2.cache with
  | none => s
  | some a =>
    let s := { s with L2 := s.L2 + a.size, L2_associativity := a.associativity }
    if L3_exclusive then
      if cpu.vendor = .VENDOR_AMD ∧ (cpu.arch = .ARCH_ZEN4 ∨ cpu.arch = .ARCH_ZEN5) then
        { s with extra := s.extra + min (a.size / 2) scratchpad }
      else if a.size ≥ scratchpad then { s with extra := s.extra + scratchpad }
      else s
    else s

/-- mirrors src/backend/cpu/platform/HwlocCpuInfo.cpp:313-323 -/
def processChild (cpu : CpuInfo) (L3_exclusive : Bool) (scratchpad : UInt64) (s : Below)
    (ch : Obj) : Below :=
  if ch.type = .GROUP then ch.children.foldl (process_L2 cpu L3_exclusive scratchpad) s
  else process_L2 cpu L3_exclusive scratchpad s ch

def oneMiB : UInt64 := 1024 * 1024

/-- How many hashes fit; `a` are the attributes of the cache.
mirrors src/backend/cpu/platform/HwlocCpuInfo.cpp:276-351 -/
def cacheHashes (cpu : CpuInfo) (algorithm : Algorithm) (cache : Obj) (a : CacheAttr) : UInt64 :=
  let PUs := UInt64.ofNat (findByType .PU cache).length
  let cores := UInt64.ofNat (findByType .CORE cache).length
  let L3_exclusive := isCacheExclusive cache
  let scratchpad := scratchpad algorithm
  let s : Below :=
    if a.depth = 3 then cache.children.foldl (processChild cpu L3_exclusive scratchpad) {} else {}
  let L3 := a.size
  let L2 := s.L2
  let (L3, extra) :=
    if cpu.vendor = .VENDOR_INTEL ∧ scratchpad = 2 * oneMiB ∧ L2 ≠ 0 ∧ cores * oneMiB = L2 ∧
        s.L2_associativity = 16 ∧ L3 ≥ L2 then (L2, L2)
    else (L3, s.extra)
  let cacheHashes := ((L3 + extra) + scratchpad / 2) / scratchpad
  let cacheHashes :=
    if cpu.vendor = .VENDOR_INTEL ∧ algorithm.isRandomX ∧ L3_exclusive ∧ PUs < cores * 2 then
      (L3 + L2) / scratchpad
    else cacheHashes
  if extra = 0 ∧ l2 algorithm > 0 then min (max (L2 / l2 algorithm) cores) cacheHashes
  else cacheHashes

/-- Between two cores. -/
structure Pass where
  threads_data : List UInt32
  cacheHashes : UInt64
  PUs : UInt64
  allocated_pu : Bool

/-- The `for` loop: unit `pu_id` of every core.
mirrors src/backend/cpu/platform/HwlocCpuInfo.cpp:372-388 -/
def pass (pu_id : Nat) : List Obj → Pass → Pass
  | [], p => p
  | core :: cores, p =>
    match (units core)[pu_id]? with
    | none => pass pu_id cores p
    | some pu =>
      let p := ⟨p.threads_data ++ [pu], p.cacheHashes - 1, p.PUs - 1, true⟩
      if p.cacheHashes = 0 then p else pass pu_id cores p

/-- A pass that takes a unit leaves fewer hashes. -/
theorem pass_cacheHashes (pu_id : Nat) (cores : List Obj) (p : Pass) (h : p.cacheHashes ≠ 0) :
    ∃ pus, pus.Sublist (cores.filterMap fun core => (units core)[pu_id]?) ∧
      (pass pu_id cores p).threads_data = p.threads_data ++ pus ∧
      (pass pu_id cores p).cacheHashes.toNat + pus.length = p.cacheHashes.toNat ∧
      ((pass pu_id cores p).allocated_pu → p.allocated_pu ∨ pus ≠ []) := by
  induction cores generalizing p with
  | nil => exact ⟨[], List.Sublist.refl _, (List.append_nil _).symm, rfl, .inl⟩
  | cons core cores ih =>
    rw [pass]
    cases hu : (units core)[pu_id]? with
    | none =>
      obtain ⟨pus, hsub, hrest⟩ := ih p h
      refine ⟨pus, ?_, hrest⟩
      rwa [List.filterMap_cons_none (f := fun core => (units core)[pu_id]?) hu]
    | some pu =>
      have hpos : 1 ≤ p.cacheHashes.toNat := by
        have hne : p.cacheHashes.toNat ≠ 0 := fun h0 => h (UInt64.toNat_inj.mp h0)
        omega
      have hone : (1 : UInt64).toNat = 1 := rfl
      have hsub : (p.cacheHashes - 1).toNat = p.cacheHashes.toNat - 1 :=
        UInt64.toNat_sub_of_le _ _ (UInt64.le_iff_toNat_le.mpr hpos)
      rw [List.filterMap_cons_some (f := fun core => (units core)[pu_id]?) hu]
      dsimp only
      split
      · refine ⟨[pu], List.singleton_sublist.mpr List.mem_cons_self, rfl, ?_, fun _ => .inr ?_⟩
        · show (p.cacheHashes - 1).toNat + 1 = _
          omega
        · exact List.cons_ne_nil _ _
      · rename_i hne
        obtain ⟨pus, hs, hdata, hcount, -⟩ :=
          ih ⟨p.threads_data ++ [pu], p.cacheHashes - 1, p.PUs - 1, true⟩ hne
        refine ⟨pu :: pus, hs.cons_cons pu, ?_, ?_, fun _ => .inr (List.cons_ne_nil _ _)⟩
        · rw [hdata, List.append_assoc]
          rfl
        · rw [List.length_cons]
          dsimp only at hcount
          omega

/-- The `while` loop.
mirrors src/backend/cpu/platform/HwlocCpuInfo.cpp:364-400 -/
def assign (cores : List Obj) (pu_id : Nat) (cacheHashes PUs : UInt64) : List UInt32 :=
  if _h : cacheHashes ≠ 0 ∧ PUs ≠ 0 then
    let p := pass pu_id cores ⟨[], cacheHashes, PUs, false⟩
    let data := if pu_id &&& 1 ≠ 0 then p.threads_data.reverse else p.threads_data
    if _ha : p.allocated_pu then data ++ assign cores.reverse (pu_id + 1) p.cacheHashes p.PUs
    else data
  else []
termination_by cacheHashes.toNat
decreasing_by
  obtain ⟨pus, -, -, hcount, halloc⟩ :=
    pass_cacheHashes pu_id cores ⟨[], cacheHashes, PUs, false⟩ _h.1
  have hne := (halloc _ha).resolve_left Bool.false_ne_true
  have := List.length_pos_iff.mpr hne
  dsimp only at hcount ⊢
  omega

/-- How many hashes fit into a cache. -/
def hashes (cpu : CpuInfo) (algorithm : Algorithm) (cache : Obj) : UInt64 :=
  match cache.cache with
  | some a => cacheHashes cpu algorithm cache a
  | none => 0

/-- mirrors src/backend/cpu/platform/HwlocCpuInfo.cpp:272-402 -/
def processTopLevelCache (cpu : CpuInfo) (algorithm : Algorithm) (limit : UInt64) (cache : Obj) :
    List CpuThread :=
  let PUs := UInt64.ofNat (findByType .PU cache).length
  if PUs = 0 then []
  else
    let cores := findByType .CORE cache
    let intensity := if maxIntensity = 1 then 0 else 1
    let cacheHashes := hashes cpu algorithm cache
    let cacheHashes := if limit > 0 then min cacheHashes limit else cacheHashes
    let pus :=
      if cacheHashes ≥ PUs then cores.flatMap units else assign cores 0 cacheHashes PUs
    pus.map fun pu => ⟨pu.toNat, intensity⟩

/-! ## All caches -/

/-- What is left is shared out; a cache does not get more than it would alone.
mirrors src/backend/cpu/platform/HwlocCpuInfo.cpp:223-231 -/
def shareOut (cpu : CpuInfo) (algorithm : Algorithm) (maxPerCache : Int) :
    Int → List Obj → List CpuThread
  | _, [] => []
  | remaining, cache :: caches =>
    processTopLevelCache cpu algorithm (UInt64.ofNat (min maxPerCache remaining).toNat) cache ++
      if remaining - maxPerCache ≤ 0 then []
      else shareOut cpu algorithm maxPerCache (remaining - maxPerCache) caches

/-- mirrors src/backend/cpu/platform/HwlocCpuInfo.cpp:209-237 -/
def caches (cpu : CpuInfo) : List Obj :=
  let depth := if cpu.L3 > 0 then 3 else 2
  findCache depth depth cpu.topology.root

/-- mirrors src/backend/cpu/platform/HwlocCpuInfo.cpp:218-221 -/
def maxTotalThreads (cpu : CpuInfo) (limit : Nat) : Int :=
  Binary64.round (Binary64.fl (cpu.m_threads * Binary64.fl (limit / (100 : ℕ))))

/-- mirrors src/backend/cpu/platform/HwlocCpuInfo.cpp:218-237 -/
def cacheThreads (cpu : CpuInfo) (algorithm : Algorithm) (limit : UInt32) : List CpuThread :=
  if limit > 0 ∧ limit < 100 ∧ caches cpu ≠ [] then
    let maxTotalThreads := maxTotalThreads cpu limit.toNat
    let maxPerCache := max (Binary64.round (Binary64.fl (maxTotalThreads / (caches cpu).length))) 1
    shareOut cpu algorithm maxPerCache (max maxTotalThreads 1) (caches cpu)
  else (caches cpu).flatMap (processTopLevelCache cpu algorithm 0)

/-- mirrors src/backend/cpu/platform/HwlocCpuInfo.cpp:202-249 -/
def threads (cpu : CpuInfo) (algorithm : Algorithm) (limit : UInt32) : List CpuThread :=
  if cpu.L2 = 0 ∧ cpu.L3 = 0 then basicThreads cpu algorithm
  else
    let threads := cacheThreads cpu algorithm limit
    if threads = [] then basicThreads cpu algorithm else threads

/-! ## Trees -/

theorem findCache_node (min max : Nat) (o : Obj) :
    findCache min max o = findCaches min max o.children := by
  cases o
  rw [findCache, Obj.children]

theorem findByType_node (type : ObjType) (o : Obj) :
    findByType type o = findByTypes type o.children := by
  cases o
  rw [findByType, Obj.children]

mutual

/-- A cache that is found is below, and of a level that is looked for. -/
theorem mem_findCache {min max : Nat} {c : Obj} (o : Obj) (h : c ∈ findCache min max o) :
    c ∈ below o ∧ ∃ a, c.cache = some a ∧ min ≤ a.depth ∧ a.depth ≤ max := by
  match o with
  | .node _ _ _ children =>
    rw [findCache] at h
    rw [below]
    exact mem_findCaches children h

theorem mem_findCaches {min max : Nat} {c : Obj} (os : List Obj) (h : c ∈ findCaches min max os) :
    c ∈ belows os ∧ ∃ a, c.cache = some a ∧ min ≤ a.depth ∧ a.depth ≤ max := by
  match os with
  | [] => rw [findCaches] at h; cases h
  | child :: children =>
    rw [findCaches, List.mem_append] at h
    rw [belows]
    cases h with
    | inr h =>
      obtain ⟨hb, ha⟩ := mem_findCaches children h
      exact ⟨List.mem_cons_of_mem _ (List.mem_append_right _ hb), ha⟩
    | inl h =>
      have hrec (h : c ∈ findCache min max child) : c ∈ child :: (below child ++ belows children) ∧
          ∃ a, c.cache = some a ∧ min ≤ a.depth ∧ a.depth ≤ max := by
        obtain ⟨hb, ha⟩ := mem_findCache child h
        exact ⟨List.mem_cons_of_mem _ (List.mem_append_left _ hb), ha⟩
      cases hc : child.cache with
      | none =>
        rw [hc] at h
        exact hrec h
      | some a =>
        rw [hc] at h
        dsimp only at h
        split at h
        · cases h
        · rename_i hin
          rcases List.mem_cons.mp h with rfl | h
          · exact ⟨List.mem_cons_self, a, hc, by omega, by omega⟩
          · exact hrec h

end

mutual

/-- **The cores**: the units below the cores below an object are below that object, each
once. -/
theorem cores_sublist (o : Obj) (h : ∀ o' ∈ below o, Reported o') :
    ((findByType .CORE o).flatMap (findByType .PU)).Sublist (findByType .PU o) := by
  match o with
  | .node _ _ _ children =>
    rw [below] at h
    rw [findByType, findByType]
    exact cores_sublists children h

theorem cores_sublists (os : List Obj) (h : ∀ o' ∈ belows os, Reported o') :
    ((findByTypes .CORE os).flatMap (findByType .PU)).Sublist (findByTypes .PU os) := by
  match os with
  | [] => exact List.Sublist.refl _
  | child :: children =>
    rw [belows] at h
    have hchild := h child List.mem_cons_self
    rw [findByTypes, findByTypes, List.flatMap_append]
    refine List.Sublist.append ?_ (cores_sublists children fun o' ho' =>
      h o' (List.mem_cons_of_mem _ (List.mem_append_right _ ho')))
    by_cases hcore : child.type = .CORE
    · have hpu : child.type ≠ .PU := by
        rw [hcore]
        decide
      rw [if_pos hcore, if_neg hpu, List.flatMap_cons, List.flatMap_nil, List.append_nil]
    · rw [if_neg hcore]
      by_cases hpu : child.type = .PU
      · rw [if_pos hpu, findByType_node, hchild.1 hpu]
        exact List.nil_sublist _
      · rw [if_neg hpu]
        exact cores_sublist child fun o' ho' =>
          h o' (List.mem_cons_of_mem _ (List.mem_append_left _ ho'))

end

mutual

/-- **The caches**: the units below the caches of one level are below the object, each once. -/
theorem caches_sublist (depth : Nat) (o : Obj) (h : ∀ o' ∈ below o, Reported o') :
    ((findCache depth depth o).flatMap (findByType .PU)).Sublist (findByType .PU o) := by
  match o with
  | .node _ _ _ children =>
    rw [below] at h
    rw [findCache, findByType]
    exact caches_sublists depth children h

theorem caches_sublists (depth : Nat) (os : List Obj) (h : ∀ o' ∈ belows os, Reported o') :
    ((findCaches depth depth os).flatMap (findByType .PU)).Sublist (findByTypes .PU os) := by
  match os with
  | [] => exact List.Sublist.refl _
  | child :: children =>
    rw [belows] at h
    have hchild := h child List.mem_cons_self
    rw [findCaches, findByTypes, List.flatMap_append]
    refine List.Sublist.append ?_ (caches_sublists depth children fun o' ho' =>
      h o' (List.mem_cons_of_mem _ (List.mem_append_right _ ho')))
    cases hc : child.cache with
    | none =>
      dsimp only
      by_cases hpu : child.type = .PU
      · rw [if_pos hpu, findCache_node, hchild.1 hpu]
        exact List.nil_sublist _
      · rw [if_neg hpu]
        exact caches_sublist depth child fun o' ho' =>
          h o' (List.mem_cons_of_mem _ (List.mem_append_left _ ho'))
    | some a =>
      have hpu : child.type ≠ .PU := by
        intro hpu
        rw [Obj.cache, hpu] at hc
        cases hc
      rw [if_neg hpu]
      dsimp only
      split
      · exact List.nil_sublist _
      · rename_i hin
        -- below a cache of the level there is none
        have hnone : findCache depth depth child = [] := by
          refine List.eq_nil_iff_forall_not_mem.mpr fun c hcm => ?_
          obtain ⟨hb, a', ha', hlo, hhi⟩ := mem_findCache child hcm
          exact hchild.2 a hc c hb a' ha' (by omega)
        rw [hnone, List.flatMap_cons, List.flatMap_nil, List.append_nil]

end

/-! ## Units of cores -/

/-- The units from `k` on: those with number `k`, and those behind them. -/
theorem drop_perm (k : Nat) (cores : List Obj) :
    (cores.flatMap fun core => (units core).drop k).Perm
      ((cores.filterMap fun core => (units core)[k]?) ++
        cores.flatMap fun core => (units core).drop (k + 1)) := by
  induction cores with
  | nil => exact List.Perm.refl _
  | cons core cores ih =>
    rw [List.flatMap_cons, List.flatMap_cons, List.drop_eq_getElem?_toList_append]
    cases hu : (units core)[k]? with
    | none =>
      rw [List.filterMap_cons_none (f := fun core => (units core)[k]?) hu]
      rw [Option.toList_none, List.nil_append]
      exact (ih.append_left _).trans (List.perm_append_comm_assoc _ _ _)
    | some pu =>
      rw [List.filterMap_cons_some (f := fun core => (units core)[k]?) hu]
      rw [Option.toList_some, List.singleton_append, List.cons_append, List.cons_append]
      exact List.Perm.cons pu ((ih.append_left _).trans (List.perm_append_comm_assoc _ _ _))

/-- **The loop**: units of the cores, each once, and not more than hashes. -/
theorem assign_spec (cores : List Obj) (pu_id : Nat) (cacheHashes PUs : UInt64) :
    (assign cores pu_id cacheHashes PUs).Subperm
        (cores.flatMap fun core => (units core).drop pu_id) ∧
      (assign cores pu_id cacheHashes PUs).length ≤ cacheHashes.toNat := by
  induction hn : cacheHashes.toNat using Nat.strong_induction_on
    generalizing cores pu_id cacheHashes PUs with
  | _ n ih =>
    rw [assign]
    split
    · rename_i h
      obtain ⟨pus, hsub, hdata, hcount, halloc⟩ :=
        pass_cacheHashes pu_id cores ⟨[], cacheHashes, PUs, false⟩ h.1
      dsimp only at hdata hcount halloc ⊢
      rw [List.nil_append] at hdata
      generalize pass pu_id cores ⟨[], cacheHashes, PUs, false⟩ = p at hdata hcount halloc ⊢
      -- the other order of a turn changes nothing
      have hperm : (if pu_id &&& 1 ≠ 0 then pus.reverse else pus).Perm pus := by
        split
        · exact List.reverse_perm pus
        · exact List.Perm.refl pus
      have hlevel := hperm.subperm.trans hsub.subperm
      have hlen := hperm.length_eq
      have hdrop := drop_perm pu_id cores
      rw [hdata]
      split
      · rename_i ha
        have hpos := List.length_pos_iff.mpr ((halloc ha).resolve_left Bool.false_ne_true)
        obtain ⟨hrest, hlen'⟩ := ih p.cacheHashes.toNat (by omega) cores.reverse (pu_id + 1)
          p.cacheHashes p.PUs rfl
        have hrev := (List.reverse_perm cores).flatMap_right fun core =>
          (units core).drop (pu_id + 1)
        constructor
        · refine ((List.subperm_append_right _).mpr hlevel).trans ?_
          refine ((List.subperm_append_left _).mpr (hrest.trans hrev.subperm)).trans ?_
          exact hdrop.symm.subperm
        · rw [List.length_append, hlen]
          omega
      · constructor
        · exact hlevel.trans ((List.sublist_append_left _ _).subperm.trans hdrop.symm.subperm)
        · rw [hlen]
          omega
    · exact ⟨List.nil_subperm, Nat.zero_le _⟩

/-! ## Threads of a cache -/

def thread (pu : UInt32) : CpuThread := ⟨pu.toNat, 0⟩

theorem cores_units (o : Obj) (h : ∀ o' ∈ below o, Reported o') :
    ((findByType .CORE o).flatMap units).Sublist (units o) := by
  have hmap : (findByType .CORE o).flatMap units =
      ((findByType .CORE o).flatMap (findByType .PU)).map Obj.os_index := by
    rw [List.map_flatMap]
    rfl
  rw [hmap]
  exact (cores_sublist o h).map _

theorem length_units (o : Obj) : (units o).length = (findByType .PU o).length := List.length_map _

/-- The hashes, with a limit if there is one. -/
theorem limited {n limit x : UInt64} (hx : (if limit > 0 then min n limit else n) = x) :
    x.toNat ≤ n.toNat ∧ (limit ≠ 0 → x.toNat ≤ limit.toNat) := by
  split at hx
  · have hmin : (if n ≤ limit then n else limit) = x := hx
    split at hmin
    · rename_i hle
      exact hmin ▸ ⟨Nat.le_refl _, fun _ => UInt64.le_iff_toNat_le.mp hle⟩
    · rename_i hlt
      have := UInt64.lt_iff_toNat_lt.mp (UInt64.not_le.mp hlt)
      exact hmin ▸ ⟨by omega, fun _ => Nat.le_refl _⟩
  · rename_i h0
    refine hx ▸ ⟨Nat.le_refl _, fun hne => absurd ?_ h0⟩
    have : limit.toNat ≠ 0 := fun hz => hne (UInt64.toNat_inj.mp hz)
    exact UInt64.lt_iff_toNat_lt.mpr (Nat.pos_of_ne_zero this)

/-- **The threads of a cache.** -/
theorem processTopLevelCache_spec (cpu : CpuInfo) (algorithm : Algorithm) (limit : UInt64)
    {cache : Obj} (h : ∀ o' ∈ below cache, Reported o') (hlt : (units cache).length < 2 ^ 64) :
    ∃ pus : List UInt32, processTopLevelCache cpu algorithm limit cache = pus.map thread ∧
      pus.Subperm (units cache) ∧ pus.length ≤ (hashes cpu algorithm cache).toNat ∧
      (limit ≠ 0 → pus.length ≤ limit.toNat) := by
  have hcores := (cores_units cache h).subperm
  have hPUs : (UInt64.ofNat (findByType .PU cache).length).toNat = (units cache).length := by
    rw [length_units] at hlt ⊢
    exact UInt64.toNat_ofNat_of_lt' hlt
  unfold processTopLevelCache
  dsimp only
  split
  · exact ⟨[], rfl, List.nil_subperm, Nat.zero_le _, fun _ => Nat.zero_le _⟩
  · generalize hx : (if limit > 0 then min (hashes cpu algorithm cache) limit
      else hashes cpu algorithm cache) = x
    obtain ⟨hle, hlim⟩ := limited hx
    by_cases hge : x ≥ UInt64.ofNat (findByType .PU cache).length
    · rw [if_pos hge]
      have hge := UInt64.le_iff_toNat_le.mp hge
      have hlen := hcores.length_le
      rw [hPUs] at hge
      exact ⟨_, rfl, hcores, by omega, fun h0 => by have := hlim h0; omega⟩
    · rw [if_neg hge]
      obtain ⟨hsub, hlen⟩ := assign_spec (findByType .CORE cache) 0 x
        (UInt64.ofNat (findByType .PU cache).length)
      exact ⟨_, rfl, hsub.trans hcores, hlen.trans hle, fun h0 => hlen.trans (hlim h0)⟩

/-! ## Threads of all caches -/

/-- Each cache has units of its own, not more than hashes fit; the last ones may have
none. -/
inductive Spread (hashes : Obj → Nat) : List Obj → List UInt32 → Prop where
  | nil (cs : List Obj) : Spread hashes cs []
  | cons {c : Obj} {cs : List Obj} {pus rest : List UInt32} (hsub : pus.Subperm (units c))
      (hlen : pus.length ≤ hashes c) (hrest : Spread hashes cs rest) :
      Spread hashes (c :: cs) (pus ++ rest)

theorem Spread.subperm {hashes : Obj → Nat} {cs : List Obj} {pus : List UInt32}
    (h : Spread hashes cs pus) : pus.Subperm (cs.flatMap units) := by
  induction h with
  | nil cs => exact List.nil_subperm
  | cons hsub _ _ ih =>
    rw [List.flatMap_cons]
    exact hsub.append ih

/-- Where no unit is below two caches, the threads of a cache are those of its turn. -/
theorem Spread.length_le {hashes : Obj → Nat} {cs : List Obj} {pus : List UInt32}
    (h : Spread hashes cs pus) (hnd : (cs.flatMap units).Nodup) {c : Obj} (hc : c ∈ cs) :
    (pus.filter (· ∈ units c)).length ≤ hashes c := by
  induction h with
  | nil cs => exact Nat.zero_le _
  | @cons d cs pus rest hsub hlen hrest ih =>
    rw [List.flatMap_cons] at hnd
    obtain ⟨-, hcs, hdisj⟩ := List.nodup_append'.mp hnd
    rw [List.filter_append, List.length_append]
    rcases List.mem_cons.mp hc with rfl | hmem
    · have hother : rest.filter (· ∈ units c) = [] := by
        refine List.filter_eq_nil_iff.mpr fun pu hpu => ?_
        simpa using fun hu => hdisj hu (hrest.subperm.subset hpu)
      have := List.length_filter_le (· ∈ units c) pus
      rw [hother, List.length_nil]
      omega
    · have hother : pus.filter (· ∈ units c) = [] := by
        refine List.filter_eq_nil_iff.mpr fun pu hpu => ?_
        simpa using fun hu => hdisj (hsub.subset hpu) (List.mem_flatMap.mpr ⟨c, hmem, hu⟩)
      have := ih hcs hmem
      rw [hother, List.length_nil]
      omega

mutual

theorem below_trans {c : Obj} (o : Obj) (h : c ∈ below o) : below c ⊆ below o := by
  match o with
  | .node _ _ _ children =>
    rw [below] at h ⊢
    exact belows_trans children h

theorem belows_trans {c : Obj} (os : List Obj) (h : c ∈ belows os) : below c ⊆ belows os := by
  match os with
  | [] =>
    rw [belows] at h
    cases h
  | child :: children =>
    rw [belows] at h ⊢
    intro o ho
    rcases List.mem_cons.mp h with rfl | h
    · exact List.mem_cons_of_mem _ (List.mem_append_left _ ho)
    · refine List.mem_cons_of_mem _ (List.mem_append.mpr ?_)
      rcases List.mem_append.mp h with h | h
      · exact .inl (below_trans child h ho)
      · exact .inr (belows_trans children h ho)

end

/-- The units below the caches are units of the tree. -/
theorem caches_units (cpu : CpuInfo) :
    ((caches cpu).flatMap units).Sublist (units cpu.topology.root) := by
  have hmap : (caches cpu).flatMap units =
      ((caches cpu).flatMap (findByType .PU)).map Obj.os_index := by
    rw [List.map_flatMap]
    rfl
  rw [hmap]
  exact (caches_sublist _ cpu.topology.root cpu.topology.reported).map _

/-- **No unit is below two caches.** -/
theorem caches_disjoint (cpu : CpuInfo) : ((caches cpu).flatMap units).Nodup :=
  (caches_units cpu).nodup cpu.topology.distinct

theorem cache_spec (cpu : CpuInfo) (algorithm : Algorithm) (limit : UInt64) {cache : Obj}
    (hc : cache ∈ caches cpu) :
    ∃ pus : List UInt32, processTopLevelCache cpu algorithm limit cache = pus.map thread ∧
      pus.Subperm (units cache) ∧ pus.length ≤ (hashes cpu algorithm cache).toNat ∧
      (limit ≠ 0 → pus.length ≤ limit.toNat) := by
  have hbelow := below_trans _ (mem_findCache _ hc).1
  refine processTopLevelCache_spec cpu algorithm limit
    (fun o ho => cpu.topology.reported o (hbelow ho)) ?_
  have hsub : units cache ⊆ units cpu.topology.root := fun pu hpu =>
    (caches_units cpu).subset (List.mem_flatMap.mpr ⟨cache, hc, hpu⟩)
  have hnd : (units cache).Nodup := (List.nodup_flatMap.mp (caches_disjoint cpu)).1 cache hc
  have hle := (List.Nodup.subperm hnd hsub).length_le
  have := cpu.topology.count_lt
  omega

/-- Without a limit. -/
theorem flatMap_spread (cpu : CpuInfo) (algorithm : Algorithm) (limit : UInt64) {cs : List Obj}
    (hcs : cs ⊆ caches cpu) :
    ∃ pus : List UInt32, cs.flatMap (processTopLevelCache cpu algorithm limit) = pus.map thread ∧
      Spread (fun c => (hashes cpu algorithm c).toNat) cs pus := by
  induction cs with
  | nil => exact ⟨[], rfl, .nil []⟩
  | cons c cs ih =>
    obtain ⟨rest, hrest, hs⟩ := ih fun o ho => hcs (List.mem_cons_of_mem c ho)
    obtain ⟨pus, hp, hsub, hlen, -⟩ := cache_spec cpu algorithm limit (hcs List.mem_cons_self)
    refine ⟨pus ++ rest, ?_, .cons hsub hlen hs⟩
    rw [List.flatMap_cons, hp, hrest, List.map_append]

/-- **With a limit**: not more than what is left. -/
theorem shareOut_spread (cpu : CpuInfo) (algorithm : Algorithm) {maxPerCache : Int}
    (hmax : 1 ≤ maxPerCache) {cs : List Obj} (hcs : cs ⊆ caches cpu) {remaining : Int}
    (hpos : 1 ≤ remaining) (hlt : remaining < 2 ^ 64) :
    ∃ pus : List UInt32, shareOut cpu algorithm maxPerCache remaining cs = pus.map thread ∧
      Spread (fun c => (hashes cpu algorithm c).toNat) cs pus ∧ (pus.length : Int) ≤ remaining := by
  induction cs generalizing remaining with
  | nil => exact ⟨[], rfl, .nil [], by simp; omega⟩
  | cons c cs ih =>
    have hlim : (UInt64.ofNat (min maxPerCache remaining).toNat).toNat =
        (min maxPerCache remaining).toNat := UInt64.toNat_ofNat_of_lt' (by
      show _ < 2 ^ 64
      omega)
    have hne : UInt64.ofNat (min maxPerCache remaining).toNat ≠ 0 := by
      intro h0
      have := congrArg UInt64.toNat h0
      rw [hlim] at this
      have : (min maxPerCache remaining).toNat = 0 := this
      omega
    obtain ⟨pus, hp, hsub, hlen, hle⟩ := cache_spec cpu algorithm
      (UInt64.ofNat (min maxPerCache remaining).toNat) (hcs List.mem_cons_self)
    have hle := hle hne
    rw [hlim] at hle
    rw [shareOut, hp]
    split
    · refine ⟨pus ++ [], ?_, .cons hsub hlen (.nil cs), ?_⟩
      · rw [List.append_nil, List.append_nil]
      · rw [List.append_nil]
        omega
    · have hleft : 1 ≤ remaining - maxPerCache := by omega
      obtain ⟨rest, hrest, hs, hlen'⟩ := ih (fun o ho => hcs (List.mem_cons_of_mem c ho)) hleft
        (by omega)
      refine ⟨pus ++ rest, ?_, .cons hsub hlen hs, ?_⟩
      · rw [hrest, List.map_append]
      · rw [List.length_append]
        omega

/-- Whether the threads are those of `BasicCpuInfo`. -/
def Fallback (cpu : CpuInfo) (algorithm : Algorithm) (limit : UInt32) : Prop :=
  cpu.L2 = 0 ∧ cpu.L3 = 0 ∨ cacheThreads cpu algorithm limit = []

/-- `round(units * limit / 100)`, at least one. -/
def maxThreads (cpu : CpuInfo) (limit : UInt32) : Nat :=
  max 1 ((2 * ((units cpu.topology.root).length * limit.toNat) + 100) / 200)

theorem threads_eq (cpu : CpuInfo) (algorithm : Algorithm) (limit : UInt32) :
    (Fallback cpu algorithm limit → threads cpu algorithm limit = basicThreads cpu algorithm) ∧
      (¬ Fallback cpu algorithm limit →
        threads cpu algorithm limit = cacheThreads cpu algorithm limit) := by
  unfold Fallback threads
  dsimp only
  constructor
  · rintro (h | h)
    · rw [if_pos h]
    · rw [if_pos h, ite_self]
  · intro h
    obtain ⟨h₁, h₂⟩ := not_or.mp h
    rw [if_neg h₁, if_neg h₂]

theorem basicThreads_affinity (cpu : CpuInfo) (algorithm : Algorithm) :
    ∀ t ∈ basicThreads cpu algorithm, t.affinity = -1 := by
  intro t ht
  unfold basicThreads at ht
  dsimp only at ht
  split at ht
  · rw [List.eq_of_mem_replicate ht]
  · split at ht
    · split at ht
      · rw [List.eq_of_mem_replicate ht]
      · rw [List.eq_of_mem_replicate ht]
    · rw [List.eq_of_mem_replicate ht]

theorem m_threads_lt (cpu : CpuInfo) : cpu.m_threads < 2 ^ 32 := by
  have hcount := cpu.topology.count_lt
  have hhw := cpu.hardware_concurrency.toNat_lt
  unfold CpuInfo.m_threads
  split <;> omega

/-- The rounded product of the machine is not above that of the numbers. -/
theorem maxTotalThreads_le (cpu : CpuInfo) {limit : UInt32} (hlimit : limit < 100) :
    maxTotalThreads cpu limit.toNat ≤ ((2 * (cpu.m_threads * limit.toNat) + 100) / 200 : ℕ) ∧
      maxTotalThreads cpu limit.toNat < 2 ^ 63 := by
  have hlt : limit.toNat < 100 := UInt32.lt_iff_toNat_lt.mp hlimit
  have hcount := m_threads_lt cpu
  have hprod : cpu.m_threads * limit.toNat ≤ 2 ^ 32 * 100 := Nat.mul_le_mul hcount.le hlt.le
  have hround := Binary64.round_scaled_le (d := 100) (by decide) (hprod.trans (by decide))
  unfold maxTotalThreads
  exact ⟨hround, by omega⟩

theorem cacheThreads_spec (cpu : CpuInfo) (algorithm : Algorithm) (limit : UInt32) :
    ∃ pus : List UInt32, cacheThreads cpu algorithm limit = pus.map thread ∧
      Spread (fun c => (hashes cpu algorithm c).toNat) (caches cpu) pus ∧
      (0 < limit → limit < 100 → pus.length ≤ maxThreads cpu limit) := by
  unfold cacheThreads
  split
  · rename_i h
    dsimp only
    obtain ⟨hround, hlt⟩ := maxTotalThreads_le cpu h.2.1
    obtain ⟨pus, hp, hs, hle⟩ := shareOut_spread cpu algorithm (le_max_right (Binary64.round
      (Binary64.fl (maxTotalThreads cpu limit.toNat / (caches cpu).length))) 1)
      (List.Subset.refl _) (le_max_right (maxTotalThreads cpu limit.toNat) 1) (by omega)
    refine ⟨pus, hp, hs, fun _ _ => ?_⟩
    unfold maxThreads
    by_cases h0 : (units cpu.topology.root).length = 0
    · have hnil := (hs.subperm.trans (caches_units cpu).subperm).length_le
      omega
    · have hthreads : cpu.m_threads = (units cpu.topology.root).length := if_neg h0
      rw [hthreads] at hround
      omega
  · rename_i h
    obtain ⟨pus, hp, hs⟩ := flatMap_spread cpu algorithm 0 (List.Subset.refl _)
    refine ⟨pus, hp, hs, fun h₁ h₂ => ?_⟩
    have hnil : caches cpu = [] := by
      by_contra hne
      exact h ⟨h₁, h₂, hne⟩
    have hle := hs.subperm.length_le
    rw [hnil, List.flatMap_nil, List.length_nil] at hle
    omega

/-- One of the RandomX algorithms. -/
abbrev RandomX := { a : Algorithm // a.isRandomX }

/-- **The threads**: of units that are below one of the caches, no unit twice, below no
cache more than hashes fit, and with a limit not more than that part of the units; or those
of `BasicCpuInfo`, which name no unit and do not look at the limit. -/
theorem threads_sound (cpu : CpuInfo) (algorithm : RandomX) (limit : UInt32) :
    (Fallback cpu algorithm.1 limit → threads cpu algorithm.1 limit = basicThreads cpu algorithm.1 ∧
      ∀ t ∈ threads cpu algorithm.1 limit, t.affinity = -1) ∧
    (¬ Fallback cpu algorithm.1 limit → ∃ pus : List UInt32,
      threads cpu algorithm.1 limit = pus.map thread ∧ pus.Nodup ∧
      (∀ pu ∈ pus, ∃ cache ∈ caches cpu, pu ∈ units cache) ∧
      (∀ cache ∈ caches cpu,
        (pus.filter (· ∈ units cache)).length ≤ (hashes cpu algorithm.1 cache).toNat) ∧
      (0 < limit → limit < 100 → pus.length ≤ maxThreads cpu limit)) := by
  obtain ⟨hfall, hcache⟩ := threads_eq cpu algorithm.1 limit
  constructor
  · intro h
    rw [hfall h]
    exact ⟨rfl, basicThreads_affinity cpu algorithm.1⟩
  · intro h
    obtain ⟨pus, hp, hs, hlimit⟩ := cacheThreads_spec cpu algorithm.1 limit
    have hnd := caches_disjoint cpu
    obtain ⟨l, hperm, hsub⟩ := hs.subperm
    refine ⟨pus, (hcache h).trans hp, hperm.nodup_iff.mp (hsub.nodup hnd), ?_,
      fun c hc => hs.length_le hnd hc, hlimit⟩
    intro pu hpu
    obtain ⟨c, hc, hu⟩ := List.mem_flatMap.mp (hs.subperm.subset hpu)
    exact ⟨c, hc, hu⟩

/-- Four cores of one unit, and no cache. -/
def bare : CpuInfo where
  topology :=
    { root := .node .MACHINE 0 none ([0, 1, 2, 3].map fun i =>
        .node .CORE i none [.node .PU i none []])
      reported := by
        simp [below, belows, Reported, Obj.type, Obj.children, Obj.cache]
      distinct := by decide
      count_lt := by decide }
  vendor := .VENDOR_INTEL
  arch := .ARCH_UNKNOWN
  hardware_concurrency := 4

/-- A tenth of four units, and two threads. -/
theorem threads_unlimited : ¬ ∀ (cpu : CpuInfo) (algorithm : RandomX) (limit : UInt32),
    0 < limit → limit < 100 →
      (threads cpu algorithm.1 limit).length ≤ maxThreads cpu limit := by
  intro h
  have hle := h bare ⟨.RX_0, by decide⟩ 10 (by decide) (by decide)
  have hthreads : threads bare .RX_0 10 = List.replicate 2 {} := by decide
  have hmax : maxThreads bare 10 = 1 := by decide
  rw [hthreads, hmax] at hle
  exact absurd hle (by decide)

end Rxs.L4.HwlocCpuInfo
