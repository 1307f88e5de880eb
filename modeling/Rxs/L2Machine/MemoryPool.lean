import Mathlib.Logic.Function.Basic
import Rxs.Core.LTS
import Rxs.Core.Region

/-!
# The memory pool

Scratchpads come from a pool: one block of memory from which regions are cut one behind
the other, until all of them have been given back. On a machine with several NUMA nodes
there is a pool for each, made when it is first asked for. Whoever gets no region from the
pool allocates its own, which the pool does not see.

What the system answers to an allocation is part of the label: the address, zero where it
fails. An allocation lies below the end of the address space and apart from the others.

* `MemoryPool.inv_get`, `inv_release`: the regions lie between the aligned start and the
  offset, as long as the pool has memory.
* `law_step`: one event, exactly under `Ok`.
* **`memory_pool`**: runs of such events.
* `memory_pool_fails`: a pool without memory hands out addresses.
-/
namespace Rxs

open Rxs.Core

namespace VirtualMemory

/-- mirrors src/crypto/common/VirtualMemory.h:74 -/
def align (pos align : BitVec 64) : BitVec 64 := ((pos - 1) / align + 1) * align

def kDefaultHugePageSize : BitVec 64 := 2 * 1024 * 1024

theorem align_toNat {pos a : BitVec 64} (hpos : 0 < pos.toNat) (ha : 0 < a.toNat)
    (hsum : pos.toNat + a.toNat ≤ 2 ^ 64) :
    pos.toNat ≤ (align pos a).toNat ∧ (align pos a).toNat < pos.toNat + a.toNat := by
  have hsub : (pos - 1).toNat = pos.toNat - 1 := by
    have h1 : (1 : BitVec 64).toNat = 1 := rfl
    rw [BitVec.toNat_sub, h1]
    omega
  have hdiv := Nat.div_add_mod (pos.toNat - 1) a.toNat
  have hmod := Nat.mod_lt (pos.toNat - 1) ha
  have hmul : ((pos.toNat - 1) / a.toNat + 1) * a.toNat =
      a.toNat * ((pos.toNat - 1) / a.toNat) + a.toNat := by
    rw [Nat.add_mul, Nat.one_mul, Nat.mul_comm]
  have hval : (align pos a).toNat = ((pos.toNat - 1) / a.toNat + 1) * a.toNat := by
    have h1 : (1 : BitVec 64).toNat = 1 := rfl
    have hquot : ((pos - 1) / a + 1).toNat = (pos.toNat - 1) / a.toNat + 1 := by
      rw [BitVec.toNat_add, BitVec.toNat_udiv, hsub, h1, Nat.mod_eq_of_lt]
      have := Nat.div_le_self (pos.toNat - 1) a.toNat
      omega
    rw [align, BitVec.toNat_mul, hquot, Nat.mod_eq_of_lt]
    omega
  omega

/-- Zero is aligned to less than one unit. -/
theorem align_zero_toNat {a : BitVec 64} (ha : 1 < a.toNat) : (align 0 a).toNat < a.toNat := by
  have hsub : ((0 : BitVec 64) - 1).toNat = 2 ^ 64 - 1 := rfl
  have h1 : (1 : BitVec 64).toNat = 1 := rfl
  have hdiv := Nat.div_add_mod (2 ^ 64 - 1) a.toNat
  have hmod := Nat.mod_lt (2 ^ 64 - 1) (Nat.lt_of_succ_lt ha)
  have hhalf : (2 ^ 64 - 1) / a.toNat ≤ (2 ^ 64 - 1) / 2 := Nat.div_le_div_left ha (by decide)
  have hquot : ((0 - 1) / a + 1 : BitVec 64).toNat = (2 ^ 64 - 1) / a.toNat + 1 := by
    rw [BitVec.toNat_add, BitVec.toNat_udiv, hsub, h1, Nat.mod_eq_of_lt]
    omega
  have hmul : ((2 ^ 64 - 1) / a.toNat + 1) * a.toNat =
      a.toNat * ((2 ^ 64 - 1) / a.toNat) + a.toNat := by
    rw [Nat.add_mul, Nat.one_mul, Nat.mul_comm]
  rw [align, BitVec.toNat_mul, hquot, hmul]
  omega

end VirtualMemory

/-- The memory of a pool. Its address is zero where the allocation failed. -/
structure Backing where
  scratchpad : BitVec 64
  size : BitVec 64
  deriving DecidableEq, Repr

def Backing.region (m : Backing) : Region := ⟨m.scratchpad.toNat, m.size.toNat⟩

/-- `refs` does not reach `2 ^ 64`. Ghost: `used`, what has been handed out. -/
structure MemoryPool where
  refs : Nat := 0
  offset : BitVec 64 := 0
  alignOffset : BitVec 64 := 0
  memory : Option Backing := none
  used : List Region := []
  deriving DecidableEq, Repr

namespace MemoryPool

def pageSize : BitVec 64 := 2 * 1024 * 1024

def alignment : BitVec 64 := 1 <<< 24

/-- mirrors src/crypto/common/MemoryPool.cpp:44-55 -/
def create (hugePageSize size scratchpad : BitVec 64) : MemoryPool :=
  if size = 0 then {}
  else
    { alignOffset := (alignment - scratchpad % alignment) % alignment
      memory := some ⟨scratchpad, VirtualMemory.align (size * pageSize + alignment) hugePageSize⟩ }

/-- What is asked for is more than what is left. -/
def exceeds (p : MemoryPool) (m : Backing) (size : BitVec 64) : Bool :=
  m.size - p.offset - p.alignOffset < size

/-- mirrors src/crypto/common/MemoryPool.cpp:70-84 -/
def get (p : MemoryPool) (size : BitVec 64) : BitVec 64 × MemoryPool :=
  match p.memory with
  | none => (0, p)
  | some m =>
    if p.exceeds m size then (0, p)
    else (m.scratchpad + p.alignOffset + p.offset,
      { p with offset := p.offset + size, refs := p.refs + 1 })

/-- mirrors src/crypto/common/MemoryPool.cpp:87-98 -/
def release (p : MemoryPool) : MemoryPool :=
  let p := if 0 < p.refs then { p with refs := p.refs - 1 } else p
  if p.refs = 0 then { p with offset := 0 } else p

/-- A constructor takes the region if there is one. -/
def take (p : MemoryPool) (size : BitVec 64) : MemoryPool :=
  let (out, p) := p.get size
  if out = 0 then p else { p with used := p.used ++ [⟨out.toNat, size.toNat⟩] }

/-- The destructor of whoever has the region. -/
def giveBack (p : MemoryPool) (i : Nat) : MemoryPool :=
  { p.release with used := p.used.eraseIdx i }

/-- What a pool promises. -/
structure Law (p : MemoryPool) : Prop where
  inside : ∀ r ∈ p.used, ∃ m ∈ p.memory, m.scratchpad ≠ 0 ∧ r.Inside m.region
  separate : Region.Separate p.used
  counted : p.refs = p.used.length

/-- The allocation of the memory failed, and the request is not refused. -/
def Dangling (p : MemoryPool) (size : BitVec 64) : Prop :=
  ∃ m ∈ p.memory, m.scratchpad = 0 ∧ p.exceeds m size = false

/-- The regions are between the aligned start and the offset. -/
structure Inv (p : MemoryPool) : Prop where
  law : p.Law
  unused : (∀ m ∈ p.memory, m.scratchpad = 0) → p.offset = 0
  room : ∀ m ∈ p.memory, m.scratchpad ≠ 0 →
    m.region.stop < 2 ^ 64 ∧ p.alignOffset.toNat + p.offset.toNat ≤ m.size.toNat
  between : ∀ m ∈ p.memory, ∀ r ∈ p.used,
    r.stop ≤ m.scratchpad.toNat + p.alignOffset.toNat + p.offset.toNat

/-- What the system's answer keeps to. -/
def Answer (m : Backing) : Prop := m.scratchpad ≠ 0 → m.region.stop < 2 ^ 64

theorem inv_create {hugePageSize size scratchpad : BitVec 64} (hsize : size.toNat < 2 ^ 41)
    (hh : 0 < hugePageSize.toNat ∧ hugePageSize.toNat ≤ 2 ^ 30)
    (ha : ∀ m ∈ (create hugePageSize size scratchpad).memory, Answer m) :
    (create hugePageSize size scratchpad).Inv := by
  unfold create at *
  split
  · exact ⟨⟨nofun, List.Pairwise.nil, rfl⟩, fun _ => rfl, nofun, nofun⟩
  · rename_i hne
    rw [if_neg hne] at ha
    refine ⟨⟨nofun, List.Pairwise.nil, rfl⟩, fun _ => rfl, fun m hm h0 => ⟨ha m hm h0, ?_⟩, nofun⟩
    cases hm
    have halign : alignment.toNat = 2 ^ 24 := rfl
    have hpage : pageSize.toNat = 2 ^ 21 := rfl
    have hmul : (size * pageSize + alignment).toNat = size.toNat * 2 ^ 21 + 2 ^ 24 := by
      rw [BitVec.toNat_add, BitVec.toNat_mul, hpage, halign]
      omega
    have hsize := (@VirtualMemory.align_toNat (size * pageSize + alignment) hugePageSize
      (by omega) hh.1 (by omega)).1
    have hoffset : ((alignment - scratchpad % alignment) % alignment).toNat < 2 ^ 24 := by
      rw [BitVec.toNat_umod, halign]
      exact Nat.mod_lt _ (by decide)
    have h0 : (0 : BitVec 64).toNat = 0 := rfl
    dsimp only
    omega

theorem take_none {p : MemoryPool} (h : p.memory = none) (size : BitVec 64) : p.take size = p := by
  simp [take, get, h]

theorem take_exceeds {p : MemoryPool} {m : Backing} (h : p.memory = some m) {size : BitVec 64}
    (he : p.exceeds m size = true) : p.take size = p := by
  simp [take, get, h, he]

/-- What a request takes that is not refused. -/
def cut (p : MemoryPool) (m : Backing) (size : BitVec 64) : MemoryPool :=
  { p with
    offset := p.offset + size
    refs := p.refs + 1
    used := p.used ++ [⟨(m.scratchpad + p.alignOffset + p.offset).toNat, size.toNat⟩] }

theorem take_cut {p : MemoryPool} {m : Backing} (h : p.memory = some m) {size : BitVec 64}
    (he : p.exceeds m size = false) (hout : m.scratchpad + p.alignOffset + p.offset ≠ 0) :
    p.take size = p.cut m size := by
  unfold take get cut
  simp only [h, he, Bool.false_eq_true, if_false]
  rw [if_neg hout]

theorem inv_cut {p : MemoryPool} (h : p.Inv) {m : Backing} (hm : p.memory = some m)
    {size : BitVec 64} (hbase : m.scratchpad ≠ 0) (he : p.exceeds m size = false) :
    m.scratchpad + p.alignOffset + p.offset ≠ 0 ∧ (p.cut m size).Inv := by
  obtain ⟨hregion, hroom⟩ := h.room m hm hbase
  have hstop : m.scratchpad.toNat + m.size.toNat < 2 ^ 64 := hregion
  have hpos : 0 < m.scratchpad.toNat := by
    refine Nat.pos_of_ne_zero fun h0 => hbase ?_
    exact BitVec.eq_of_toNat_eq h0
  -- nothing wraps: the remaining space is a difference of numbers
  have hleft : size.toNat ≤ m.size.toNat - p.offset.toNat - p.alignOffset.toNat := by
    have hle : ¬ m.size - p.offset - p.alignOffset < size := by simpa [exceeds] using he
    rw [BitVec.lt_def] at hle
    have h₁ : (m.size - p.offset).toNat = m.size.toNat - p.offset.toNat := by
      rw [BitVec.toNat_sub]
      omega
    have h₂ : (m.size - p.offset - p.alignOffset).toNat =
        m.size.toNat - p.offset.toNat - p.alignOffset.toNat := by
      rw [BitVec.toNat_sub, h₁]
      omega
    omega
  have hout : (m.scratchpad + p.alignOffset + p.offset).toNat =
      m.scratchpad.toNat + p.alignOffset.toNat + p.offset.toNat := by
    rw [BitVec.toNat_add, BitVec.toNat_add]
    omega
  have hoffset : (p.offset + size).toNat = p.offset.toNat + size.toNat := by
    rw [BitVec.toNat_add]
    omega
  refine ⟨fun h0 => ?_, ⟨?_, ?_, ?_⟩, ?_, ?_, ?_⟩
  · have hzero := congrArg BitVec.toNat h0
    rw [hout] at hzero
    have : (0 : BitVec 64).toNat = 0 := rfl
    omega
  · intro r hr
    rcases List.mem_append.mp hr with hr | hr
    · exact h.law.inside r hr
    · rw [List.mem_singleton.mp hr]
      refine ⟨m, hm, hbase, ?_⟩
      simp only [Region.Inside, Region.stop, Backing.region, hout]
      omega
  · refine Region.Separate.snoc h.law.separate fun r hr => .inl ?_
    rw [hout]
    exact h.between m hm r hr
  · rw [cut, List.length_append, List.length_singleton, h.law.counted]
  · intro hall
    exact absurd (hall m hm) hbase
  · intro m' hm' _
    cases hm.symm.trans hm'
    refine ⟨hregion, ?_⟩
    simp only [cut, hoffset]
    omega
  · intro m' hm' r hr
    cases hm.symm.trans hm'
    simp only [cut, hoffset]
    rcases List.mem_append.mp hr with hr | hr
    · have := h.between m hm r hr
      omega
    · rw [List.mem_singleton.mp hr]
      simp only [Region.stop, hout]
      omega

theorem inv_take {p : MemoryPool} (h : p.Inv) {size : BitVec 64} (hok : ¬ p.Dangling size) :
    (p.take size).Inv := by
  cases hm : p.memory with
  | none =>
    rw [take_none hm]
    exact h
  | some m =>
    cases he : p.exceeds m size with
    | true =>
      rw [take_exceeds hm he]
      exact h
    | false =>
      have hbase : m.scratchpad ≠ 0 := fun h0 => hok ⟨m, hm, h0, he⟩
      obtain ⟨hout, hcut⟩ := inv_cut h hm hbase he
      rw [take_cut hm he hout]
      exact hcut

/-- **A pool without memory** counts a region that nobody has, or hands one out. -/
theorem dangling_take {p : MemoryPool} (h : p.Inv) {size : BitVec 64} (hd : p.Dangling size) :
    ¬ (p.take size).Law := by
  obtain ⟨m, hm, h0, he⟩ := hd
  have hm : p.memory = some m := hm
  have hused : p.used = [] := by
    refine List.eq_nil_iff_forall_not_mem.mpr fun r hr => ?_
    obtain ⟨m', hm', hne, -⟩ := h.law.inside r hr
    cases hm.symm.trans hm'
    exact hne h0
  intro hlaw
  by_cases hout : m.scratchpad + p.alignOffset + p.offset = 0
  · have hcounted := hlaw.counted
    simp [take, get, hm, he, hout, hused] at hcounted
  · rw [take_cut hm he hout] at hlaw
    obtain ⟨m', hm', hne, -⟩ := hlaw.inside _ (List.mem_append_right _ (List.mem_singleton.mpr rfl))
    cases hm.symm.trans hm'
    exact hne h0

theorem release_eq {p : MemoryPool} (h : 0 < p.refs) :
    p.release = { p with refs := p.refs - 1, offset := if p.refs = 1 then 0 else p.offset } := by
  unfold release
  rw [if_pos h]
  by_cases h1 : p.refs = 1
  · simp [h1]
  · have hne : ¬ p.refs - 1 = 0 := by omega
    simp [h1, hne]

theorem inv_giveBack {p : MemoryPool} (h : p.Inv) {i : Nat} (hi : i < p.used.length) :
    (p.giveBack i).Inv := by
  have hrefs : 0 < p.refs := by
    rw [h.law.counted]
    omega
  have hlen := List.length_eraseIdx_of_lt hi
  have hsub := List.eraseIdx_sublist p.used i
  have hcounted := h.law.counted
  rw [giveBack, release_eq hrefs]
  refine ⟨⟨fun r hr => h.law.inside r (hsub.subset hr), h.law.separate.sublist hsub, ?_⟩, ?_, ?_, ?_⟩
  · dsimp only
    omega
  · intro hall
    have := h.unused hall
    simp [this]
  · intro m hm h0
    obtain ⟨hstop, hroom⟩ := h.room m hm h0
    refine ⟨hstop, ?_⟩
    dsimp only
    split
    · have : (0 : BitVec 64).toNat = 0 := rfl
      omega
    · exact hroom
  · intro m hm r hr
    have hbetween := h.between m hm r (hsub.subset hr)
    dsimp only at hr ⊢
    split
    · -- the last one: no region is left
      have hnil : p.used.eraseIdx i = [] := List.length_eq_zero_iff.mp (by omega)
      rw [hnil] at hr
      cases hr
    · exact hbetween

theorem take_memory (p : MemoryPool) (size : BitVec 64) : (p.take size).memory = p.memory := by
  unfold take get
  cases hm : p.memory with
  | none => simp [hm]
  | some m =>
    dsimp only
    split
    · simp [hm]
    · split <;> simp

theorem giveBack_memory (p : MemoryPool) (i : Nat) : (p.giveBack i).memory = p.memory := by
  unfold giveBack release
  split <;> dsimp only <;> split <;> rfl

end MemoryPool

/-- What the pools are made from: `memory-pool` and `huge-pages` of the configuration, the
threads, the cache and the nodes of the machine. -/
structure PoolSetup where
  memoryPool : BitVec 32
  hugePageSizeKb : BitVec 64
  threads : BitVec 64
  L3 : BitVec 64
  nodes : BitVec 64
  hugePageSizeKb_lt : hugePageSizeKb.toNat < 1048576
  threads_lt : threads.toNat < 2 ^ 32
  L3_lt : L3.toNat < 2 ^ 60
  nodes_lt : nodes.toNat < 2 ^ 32

namespace PoolSetup

/-- mirrors src/backend/cpu/CpuConfig.cpp:85-88 -/
def memPoolSize (c : PoolSetup) : BitVec 64 :=
  if c.memoryPool.slt 0 then
    let l3 := c.L3 >>> 21
    if c.threads < l3 then l3 else c.threads
  else c.memoryPool.signExtend 64

/-- mirrors src/backend/cpu/CpuConfig.h:71 -/
def hugePageSize (c : PoolSetup) : BitVec 64 := c.hugePageSizeKb * 1024

theorem memPoolSize_lt (c : PoolSetup) : c.memPoolSize.toNat < 2 ^ 40 := by
  have ht := c.threads_lt
  have hl := c.L3_lt
  unfold memPoolSize
  split
  · dsimp only
    have hshift : (c.L3 >>> 21).toNat = c.L3.toNat / 2 ^ 21 := by
      rw [BitVec.toNat_ushiftRight, Nat.shiftRight_eq_div_pow]
    split <;> omega
  · rename_i h
    have hmsb : c.memoryPool.msb = false := by
      change ¬ c.memoryPool.slt 0#32 = true at h
      rw [BitVec.slt_zero_eq_msb] at h
      simpa using h
    rw [BitVec.signExtend_eq_setWidth_of_msb_false hmsb, BitVec.toNat_setWidth]
    have := c.memoryPool.isLt
    omega

end PoolSetup

/-- The pools of the nodes. Without NUMA there is one, and every node stands for it.
mirrors src/crypto/common/NUMAMemoryPool.cpp:34-98 -/
structure MemoryPools where
  numa : Bool
  hugePageSize : BitVec 64
  nodeSize : BitVec 64
  size : BitVec 64
  map : BitVec 32 → Option MemoryPool := fun _ => none

namespace MemoryPools

open MemoryPool

/-- mirrors src/crypto/common/VirtualMemory.cpp:131-146 -/
def init (c : PoolSetup) (scratchpad : BitVec 64) : MemoryPools :=
  let page := if c.hugePageSize = 0 then VirtualMemory.kDefaultHugePageSize else c.hugePageSize
  if 1 < c.nodes then
    let size := VirtualMemory.align c.memPoolSize c.nodes
    { numa := true, hugePageSize := page, size := size
      nodeSize := if size / c.nodes < 1 then 1 else size / c.nodes }
  else
    { numa := false, hugePageSize := page, size := c.memPoolSize, nodeSize := c.memPoolSize
      map := Function.update (fun _ => none) 0 (some (create page c.memPoolSize scratchpad)) }

def key (s : MemoryPools) (node : BitVec 32) : BitVec 32 := if s.numa then node else 0

/-- No pool is made of a size of zero. -/
def disabled (s : MemoryPools) : Bool := s.numa && s.size = 0

def getOrCreate (s : MemoryPools) (node : BitVec 32) (scratchpad : BitVec 64) : MemoryPool :=
  (s.map (s.key node)).getD (create s.hugePageSize s.nodeSize scratchpad)

def setPool (s : MemoryPools) (node : BitVec 32) (p : MemoryPool) : MemoryPools :=
  { s with map := Function.update s.map (s.key node) (some p) }

@[simp] theorem setPool_map (s : MemoryPools) (node : BitVec 32) (p : MemoryPool) :
    (s.setPool node p).map = Function.update s.map (s.key node) (some p) := rfl

inductive Event where
  /-- A `VirtualMemory` is constructed; `scratchpad` is what the system gives to a pool that
  is made for it. -/
  | construct (size : BitVec 64) (node : BitVec 32) (scratchpad : BitVec 64)
  /-- A constructor asks for huge pages first, and then allocates them itself. -/
  | isHugePages (node : BitVec 32) (scratchpad : BitVec 64)
  /-- The one that has the region `i` of the node's pool is destroyed. -/
  | destroy (node : BitVec 32) (i : Nat)
  deriving DecidableEq, Repr

/-- mirrors src/crypto/common/VirtualMemory.cpp:48-107 -/
def apply (s : MemoryPools) : Event → MemoryPools
  | .construct size node scratchpad =>
    if s.disabled then s
    else s.setPool node ((s.getOrCreate node scratchpad).take
      (VirtualMemory.align size s.hugePageSize))
  | .isHugePages node scratchpad =>
    if s.disabled then s else s.setPool node (s.getOrCreate node scratchpad)
  | .destroy node i => (s.map (s.key node)).elim s fun p => s.setPool node (p.giveBack i)

/-- An allocation has room, and is apart from the memory of the other pools. -/
def Fresh (s : MemoryPools) (p : MemoryPool) : Prop :=
  ∀ m ∈ p.memory, Answer m ∧ (m.scratchpad ≠ 0 →
    ∀ k, ∀ p' ∈ s.map k, ∀ m' ∈ p'.memory, m'.scratchpad ≠ 0 → m.region.Apart m'.region)

/-- What can happen. -/
def Allowed (s : MemoryPools) : Event → Prop
  | .construct _ node scratchpad | .isHugePages node scratchpad =>
    s.map (s.key node) = none → s.Fresh (create s.hugePageSize s.nodeSize scratchpad)
  | .destroy node i => ∃ p ∈ s.map (s.key node), i < p.used.length

def lts (c : PoolSetup) : LTS MemoryPools Event where
  init s := ∃ scratchpad, s = init c scratchpad ∧
    ∀ k, ∀ p ∈ (init c scratchpad).map k, ∀ m ∈ p.memory, Answer m
  step s e s' := s.Allowed e ∧ s' = s.apply e

/-- Every region is inside of its pool's memory, no two regions overlap, and the references
are those that are in use. -/
structure Law (s : MemoryPools) : Prop where
  pool : ∀ k, ∀ p ∈ s.map k, p.Law
  apart : ∀ k k', k ≠ k' → ∀ p ∈ s.map k, ∀ p' ∈ s.map k', ∀ r ∈ p.used, ∀ r' ∈ p'.used,
    r.Apart r'

/-- The condition on an event: memory that could not be allocated is not asked for what it
would have room for. -/
def Ok (s : MemoryPools) : Event → Prop
  | .construct size node scratchpad => s.disabled = false →
      ¬ (s.getOrCreate node scratchpad).Dangling (VirtualMemory.align size s.hugePageSize)
  | _ => True

structure Inv (s : MemoryPools) : Prop where
  page : 0 < s.hugePageSize.toNat ∧ s.hugePageSize.toNat ≤ 2 ^ 30
  nodeSize : s.nodeSize.toNat < 2 ^ 41
  pool : ∀ k, ∀ p ∈ s.map k, p.Inv
  apart : ∀ k k', k ≠ k' → ∀ p ∈ s.map k, ∀ p' ∈ s.map k', ∀ m ∈ p.memory, ∀ m' ∈ p'.memory,
    m.scratchpad ≠ 0 → m'.scratchpad ≠ 0 → m.region.Apart m'.region

theorem Inv.law {s : MemoryPools} (h : s.Inv) : s.Law where
  pool k p hp := (h.pool k p hp).law
  apart k k' hk p hp p' hp' r hr r' hr' := by
    obtain ⟨m, hm, hne, hin⟩ := (h.pool k p hp).law.inside r hr
    obtain ⟨m', hm', hne', hin'⟩ := (h.pool k' p' hp').law.inside r' hr'
    exact (h.apart k k' hk p hp p' hp' m hm m' hm' hne hne').mono hin hin'

/-- A pool that is put in its place keeps the memory it had. -/
theorem inv_setPool {s : MemoryPools} (h : s.Inv) {node : BitVec 32} {p q : MemoryPool}
    (hp : q.Inv) (hmem : q.memory = p.memory)
    (hold : s.map (s.key node) = some p ∨ (s.map (s.key node) = none ∧ s.Fresh p)) :
    (s.setPool node q).Inv := by
  have hcross : ∀ k, k ≠ s.key node → ∀ p' ∈ s.map k, ∀ m ∈ q.memory, ∀ m' ∈ p'.memory,
      m.scratchpad ≠ 0 → m'.scratchpad ≠ 0 → m.region.Apart m'.region := by
    intro k hk p' hp' m hm m' hm' hne hne'
    rw [hmem] at hm
    rcases hold with hold | ⟨-, hfresh⟩
    · exact h.apart (s.key node) k (Ne.symm hk) p hold p' hp' m hm m' hm' hne hne'
    · exact (hfresh m hm).2 hne k p' hp' m' hm' hne'
  refine ⟨h.page, h.nodeSize, fun k p' hp' => ?_, fun k k' hkk p₁ hp₁ p₂ hp₂ m₁ hm₁ m₂ hm₂ h₁ h₂ => ?_⟩
  · by_cases hk : k = s.key node
    · rw [setPool_map, hk, Function.update_self] at hp'
      cases hp'
      exact hp
    · rw [setPool_map, Function.update_of_ne hk] at hp'
      exact h.pool k p' hp'
  · rw [setPool_map] at hp₁ hp₂
    by_cases hk : k = s.key node
    · rw [hk, Function.update_self] at hp₁
      cases hp₁
      have hk' : k' ≠ s.key node := fun heq => hkk (hk.trans heq.symm)
      rw [Function.update_of_ne hk'] at hp₂
      exact hcross k' hk' p₂ hp₂ m₁ hm₁ m₂ hm₂ h₁ h₂
    · rw [Function.update_of_ne hk] at hp₁
      by_cases hk' : k' = s.key node
      · rw [hk', Function.update_self] at hp₂
        cases hp₂
        exact (hcross k hk p₁ hp₁ m₂ hm₂ m₁ hm₁ h₂ h₁).symm
      · rw [Function.update_of_ne hk'] at hp₂
        exact h.apart k k' hkk p₁ hp₁ p₂ hp₂ m₁ hm₁ m₂ hm₂ h₁ h₂

/-- What the pool of a node is before an event. -/
theorem getOrCreate_old {s : MemoryPools} (h : s.Inv) {node : BitVec 32} {scratchpad : BitVec 64}
    (hfresh : s.map (s.key node) = none → s.Fresh (create s.hugePageSize s.nodeSize scratchpad)) :
    (s.getOrCreate node scratchpad).Inv ∧
      (s.map (s.key node) = some (s.getOrCreate node scratchpad) ∨
        (s.map (s.key node) = none ∧ s.Fresh (s.getOrCreate node scratchpad))) := by
  unfold getOrCreate
  cases hm : s.map (s.key node) with
  | none =>
    rw [Option.getD_none]
    exact ⟨inv_create h.nodeSize h.page fun m hmem => (hfresh hm m hmem).1, .inr ⟨rfl, hfresh hm⟩⟩
  | some p => exact ⟨h.pool _ p hm, .inl rfl⟩

theorem inv_apply {s : MemoryPools} (h : s.Inv) {e : Event} (ha : s.Allowed e) (hok : s.Ok e) :
    (s.apply e).Inv := by
  cases e with
  | construct size node scratchpad =>
    rw [apply]
    split
    · exact h
    · rename_i hd
      obtain ⟨hp, hold⟩ := getOrCreate_old h ha
      exact inv_setPool h (inv_take hp (hok (Bool.eq_false_iff.mpr hd))) (take_memory _ _) hold
  | isHugePages node scratchpad =>
    rw [apply]
    split
    · exact h
    · obtain ⟨hp, hold⟩ := getOrCreate_old h ha
      exact inv_setPool h hp rfl hold
  | destroy node i =>
    obtain ⟨p, hp, hi⟩ := ha
    have hp : s.map (s.key node) = some p := hp
    rw [apply, hp]
    exact inv_setPool h (inv_giveBack (h.pool _ p hp) hi) (giveBack_memory p i) (.inl hp)

/-- **One event.** -/
theorem law_apply {s : MemoryPools} (h : s.Inv) {e : Event} (ha : s.Allowed e) :
    (s.apply e).Law ↔ s.Ok e := by
  refine ⟨fun hlaw => ?_, fun hok => (inv_apply h ha hok).law⟩
  cases e with
  | construct size node scratchpad =>
    intro hd hdangling
    obtain ⟨hp, -⟩ := getOrCreate_old h ha
    have hpool := hlaw.pool (s.key node) ((s.getOrCreate node scratchpad).take
      (VirtualMemory.align size s.hugePageSize)) (by
        rw [apply, hd, if_neg Bool.false_ne_true, setPool_map, Function.update_self]
        rfl)
    exact dangling_take hp hdangling hpool
  | isHugePages node scratchpad => trivial
  | destroy node i => trivial

theorem nodeSize_lt (c : PoolSetup) (h : 1 < c.nodes) :
    (VirtualMemory.align c.memPoolSize c.nodes / c.nodes).toNat < 2 ^ 41 := by
  have hn := c.nodes_lt
  have hsize := c.memPoolSize_lt
  have h1 : 1 < c.nodes.toNat := h
  have halign : (VirtualMemory.align c.memPoolSize c.nodes).toNat < 2 ^ 41 := by
    by_cases h0 : c.memPoolSize.toNat = 0
    · have hzero : c.memPoolSize = 0 := BitVec.eq_of_toNat_eq h0
      rw [hzero]
      have := VirtualMemory.align_zero_toNat h1
      omega
    · have := (@VirtualMemory.align_toNat c.memPoolSize c.nodes (by omega) (by omega)
        (by omega)).2
      omega
  rw [BitVec.toNat_udiv]
  have := Nat.div_le_self (VirtualMemory.align c.memPoolSize c.nodes).toNat c.nodes.toNat
  omega

theorem page_le (c : PoolSetup) :
    0 < (if c.hugePageSize = 0 then VirtualMemory.kDefaultHugePageSize else c.hugePageSize).toNat ∧
      (if c.hugePageSize = 0 then VirtualMemory.kDefaultHugePageSize
        else c.hugePageSize).toNat ≤ 2 ^ 30 := by
  have hkb := c.hugePageSizeKb_lt
  split
  · exact ⟨by decide, by decide⟩
  · rename_i hne
    have hmul : c.hugePageSize.toNat = c.hugePageSizeKb.toNat * 1024 := by
      have h1024 : (1024 : BitVec 64).toNat = 1024 := rfl
      rw [PoolSetup.hugePageSize, BitVec.toNat_mul, h1024]
      omega
    have hpos : c.hugePageSize.toNat ≠ 0 := fun h0 => hne (BitVec.eq_of_toNat_eq h0)
    omega

theorem inv_init (c : PoolSetup) (scratchpad : BitVec 64)
    (h : ∀ k, ∀ p ∈ (init c scratchpad).map k, ∀ m ∈ p.memory, Answer m) :
    (init c scratchpad).Inv := by
  unfold init at *
  dsimp only at *
  split
  · rename_i hn
    refine ⟨page_le c, ?_, nofun, nofun⟩
    dsimp only
    split
    · decide
    · exact nodeSize_lt c hn
  · rename_i hn
    have hsize := c.memPoolSize_lt
    rw [if_neg hn] at h
    refine ⟨page_le c, ?_, fun k p hp => ?_, fun k k' hkk p hp p' hp' => ?_⟩
    · dsimp only
      omega
    · by_cases hk : k = 0
      · have hmem := h k p hp
        dsimp only at hp
        rw [hk, Function.update_self] at hp
        cases hp
        exact inv_create (by omega) (page_le c) hmem
      · dsimp only at hp
        rw [Function.update_of_ne hk] at hp
        cases hp
    · dsimp only at hp hp'
      by_cases hk : k = 0
      · have hk' : k' ≠ 0 := fun heq => hkk (hk.trans heq.symm)
        rw [Function.update_of_ne hk'] at hp'
        cases hp'
      · rw [Function.update_of_ne hk] at hp
        cases hp

end MemoryPools

namespace L2.MemoryPool

open Rxs.MemoryPools

/-- **The pools keep their promise**, in every run whose events are `Ok`; and the first event
that is not breaks it. -/
theorem memory_pool (c : PoolSetup) :
    (∀ s, ((lts c).restrict Ok).Reachable s → s.Law) ∧
      ∀ s e, ((lts c).restrict Ok).Reachable s → s.Allowed e → ((s.apply e).Law ↔ s.Ok e) := by
  have I : ((lts c).restrict Ok).Inductive Inv :=
    { init := by
        rintro s ⟨scratchpad, rfl, h⟩
        exact inv_init c scratchpad h
      step := by
        rintro s e s' h ⟨hok, ha, rfl⟩
        exact inv_apply h ha hok }
  exact ⟨fun s hs => (I.reachable hs).law, fun s e hs ha => law_apply (I.reachable hs) ha⟩

/-- One node, a pool of one page, which cannot be allocated. -/
def starved : PoolSetup where
  memoryPool := 1
  hugePageSizeKb := 2048
  threads := 1
  L3 := 2097152
  nodes := 1
  hugePageSizeKb_lt := by decide
  threads_lt := by decide
  L3_lt := by decide
  nodes_lt := by decide

/-- The second region of two megabytes. -/
theorem memory_pool_fails : ¬ ∀ c s, (lts c).Reachable s → s.Law := by
  intro h
  let e : MemoryPools.Event := .construct 2097152 0 0
  have hinit : (lts starved).init (init starved 0) := by
    refine ⟨0, rfl, fun k p hp m hm h0 => ?_⟩
    have hfirst : (init starved 0).map =
        Function.update (fun _ => none) 0 (some (MemoryPool.create 2097152 1 0)) := rfl
    rw [hfirst] at hp
    by_cases hk : k = 0
    · rw [hk, Function.update_self] at hp
      cases hp
      have hmem : (MemoryPool.create 2097152 1 0).memory = some ⟨0, 18874368⟩ := by decide
      cases hmem.symm.trans hm
      exact absurd rfl h0
    · rw [Function.update_of_ne hk] at hp
      cases hp
  have hallowed : ∀ s : MemoryPools, (∃ p, s.map 0 = some p) → s.numa = false → s.Allowed e := by
    rintro s ⟨p, hp⟩ hs hnone
    rw [key, hs, if_neg Bool.false_ne_true, hp] at hnone
    cases hnone
  have hreach : (lts starved).Reachable (((init starved 0).apply e).apply e) :=
    ⟨_, _, hinit, .cons ⟨hallowed _ ⟨_, rfl⟩ rfl, rfl⟩ (.cons ⟨hallowed _ ⟨_, rfl⟩ rfl, rfl⟩ (.nil _))⟩
  have hpool : (((init starved 0).apply e).apply e).map 0 =
      some ⟨2, 4194304, 0, some ⟨0, 18874368⟩, [⟨2097152, 2097152⟩]⟩ := by
    decide +kernel
  obtain ⟨m, hm, hne, -⟩ := ((h _ _ hreach).pool 0 _ hpool).inside _ (List.mem_singleton.mpr rfl)
  cases hm
  exact hne rfl

end L2.MemoryPool

end Rxs
