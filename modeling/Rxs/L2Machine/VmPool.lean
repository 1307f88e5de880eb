import Mathlib.Logic.Function.Basic
import Rxs.Core.LTS
import Rxs.Core.Region
import Rxs.L2Machine.MemoryPool

/-!
# Where the virtual machines are

Each NUMA node has a pool of two megabytes in which the objects of the virtual machines are
placed, one behind the other. Near its end the offset is set back to zero, whoever is still
there, and a machine that is destroyed leaves nothing behind that the pool would know of.
The sizes of the objects are parameters.

Scratchpads come from what is left of a dataset in pages of one gigabyte; a counter that
only grows tells how many have been asked for.

* `inv_place`: machines of this pass over the pool end at the offset.
* `handed_apart`: the counter comes back to a place only after `2 ^ 43` requests.
* `law_apply`: one call, exactly under `Ok`.
* **`live_vms`**: sequences of such calls.
* `live_vms_fail`: one machine at a time, made and destroyed again and again.
-/
namespace Rxs

open Rxs.Core

/-! ## Scratchpads -/

/-- Ghost: how often it was asked, and the scratchpads it gave. -/
structure VmHost.RxDataset where
  raw : BitVec 64
  capacity : BitVec 64
  scratchpadOffset : BitVec 64 := 0
  scratchpadLimit : BitVec 64 := 0
  calls : Nat := 0
  handed : List Region := []
  deriving DecidableEq, Repr

namespace VmHost.RxDataset

def maxSize : BitVec 64 := 2181038080
def RANDOMX_CACHE_MAX_SIZE : BitVec 64 := 268435456
def RANDOMX_SCRATCHPAD_L3_MAX_SIZE : BitVec 64 := 2097152

theorem scratchpad_toNat : RANDOMX_SCRATCHPAD_L3_MAX_SIZE.toNat = 2 ^ 21 := rfl

/-- `raw` is zero where there is no dataset.
mirrors src/crypto/rx/RxDataset.cpp:366-387 and src/crypto/common/VirtualMemory.cpp:68-71 -/
def allocate (oneGbPages : Bool) (hugePageSize raw : BitVec 64) : RxDataset :=
  if oneGbPages then
    { raw := raw
      capacity := VirtualMemory.align maxSize (1 <<< 30)
      scratchpadOffset := maxSize + RANDOMX_CACHE_MAX_SIZE
      scratchpadLimit := VirtualMemory.align maxSize (1 <<< 30) }
  else { raw := raw, capacity := VirtualMemory.align maxSize hugePageSize }

def exhausted (d : RxDataset) : Bool :=
  d.scratchpadLimit < RANDOMX_SCRATCHPAD_L3_MAX_SIZE ||
    d.scratchpadLimit - RANDOMX_SCRATCHPAD_L3_MAX_SIZE < d.scratchpadOffset

/-- mirrors src/crypto/rx/RxDataset.cpp:262-283 -/
def tryAllocateScrathpad (d : RxDataset) : BitVec 64 × RxDataset :=
  if d.raw = 0 then (0, d)
  else
    let next := { d with
      scratchpadOffset := d.scratchpadOffset + RANDOMX_SCRATCHPAD_L3_MAX_SIZE
      calls := d.calls + 1 }
    if d.exhausted then (0, next) else (d.raw + d.scratchpadOffset, next)

/-- A worker asks, and has what it is given. -/
def ask (d : RxDataset) : RxDataset :=
  let (out, d) := d.tryAllocateScrathpad
  if out = 0 then d
  else { d with handed := d.handed ++ [⟨out.toNat, RANDOMX_SCRATCHPAD_L3_MAX_SIZE.toNat⟩] }

def region (d : RxDataset) : Region := ⟨d.raw.toNat, d.capacity.toNat⟩

structure Law (d : RxDataset) : Prop where
  inside : ∀ r ∈ d.handed, r.Inside d.region
  separate : Region.Separate d.handed

/-- The counter has not come round, or nothing is given. -/
def Ok (d : RxDataset) : Prop := d.raw ≠ 0 → d.exhausted = false → d.calls < 2 ^ 43

/-- The offset at a call. -/
def place (start : BitVec 64) (i : Nat) : Nat := (start.toNat + i * 2 ^ 21) % 2 ^ 64

/-- The places of two calls are a scratchpad apart. -/
theorem handed_apart (start : BitVec 64) {i j : Nat} (hij : i < j) (hj : j < 2 ^ 43) :
    place start i + 2 ^ 21 ≤ place start j ∨ place start j + 2 ^ 21 ≤ place start i := by
  unfold place
  omega

theorem place_round (start : BitVec 64) {i : Nat} (h : 2 ^ 43 ≤ i) :
    place start i = place start (i - 2 ^ 43) := by
  unfold place
  omega

/-- The scratchpads are those of the calls for which there was room. -/
structure Inv (start : BitVec 64) (d : RxDataset) : Prop where
  offset : d.scratchpadOffset.toNat = place start d.calls
  limit : d.scratchpadLimit.toNat ≤ d.capacity.toNat
  room : d.raw.toNat + d.capacity.toNat < 2 ^ 64
  handed : ∀ r, r ∈ d.handed ↔ ∃ i < d.calls,
    place start i + 2 ^ 21 ≤ d.scratchpadLimit.toNat ∧ r = ⟨d.raw.toNat + place start i, 2 ^ 21⟩
  separate : Region.Separate d.handed

theorem Inv.law {start : BitVec 64} {d : RxDataset} (h : d.Inv start) : d.Law where
  inside r hr := by
    obtain ⟨i, -, hi, rfl⟩ := (h.handed r).mp hr
    have hlimit := h.limit
    simp only [Region.Inside, Region.stop, region]
    omega
  separate := h.separate

theorem exhausted_iff (d : RxDataset) :
    d.exhausted = false ↔ d.scratchpadOffset.toNat + 2 ^ 21 ≤ d.scratchpadLimit.toNat := by
  simp only [exhausted, Bool.or_eq_false_iff, decide_eq_false_iff_not, BitVec.lt_def,
    BitVec.toNat_sub, scratchpad_toNat]
  omega

/-- What a call leaves that gives nothing. -/
def miss (d : RxDataset) : RxDataset :=
  { d with
    scratchpadOffset := d.scratchpadOffset + RANDOMX_SCRATCHPAD_L3_MAX_SIZE
    calls := d.calls + 1 }

/-- What a call leaves that gives the scratchpad `r`. -/
def give (d : RxDataset) (r : Region) : RxDataset := { d.miss with handed := d.handed ++ [r] }

-- each is unfolded first: two sums in `scratchpadOffset` are not compared by counting down
@[simp] theorem miss_raw (d : RxDataset) : d.miss.raw = d.raw := by unfold miss; rfl
@[simp] theorem miss_capacity (d : RxDataset) : d.miss.capacity = d.capacity := by unfold miss; rfl
@[simp] theorem miss_limit (d : RxDataset) : d.miss.scratchpadLimit = d.scratchpadLimit := by
  unfold miss; rfl
@[simp] theorem miss_calls (d : RxDataset) : d.miss.calls = d.calls + 1 := by unfold miss; rfl
@[simp] theorem miss_handed (d : RxDataset) : d.miss.handed = d.handed := by unfold miss; rfl
@[simp] theorem give_raw (d : RxDataset) (r : Region) : (d.give r).raw = d.raw := by
  unfold give miss; rfl
@[simp] theorem give_capacity (d : RxDataset) (r : Region) : (d.give r).capacity = d.capacity := by
  unfold give miss; rfl
@[simp] theorem give_limit (d : RxDataset) (r : Region) :
    (d.give r).scratchpadLimit = d.scratchpadLimit := by
  unfold give miss; rfl
@[simp] theorem give_calls (d : RxDataset) (r : Region) : (d.give r).calls = d.calls + 1 := by
  unfold give miss; rfl
@[simp] theorem give_offset (d : RxDataset) (r : Region) :
    (d.give r).scratchpadOffset = d.miss.scratchpadOffset := by
  unfold give miss; rfl
@[simp] theorem give_handed (d : RxDataset) (r : Region) :
    (d.give r).handed = d.handed ++ [r] := by
  unfold give miss; rfl

theorem ask_null {d : RxDataset} (h : d.raw = 0) : d.ask = d := by
  simp [ask, tryAllocateScrathpad, h]

theorem ask_miss {d : RxDataset} (h : d.raw ≠ 0) (he : d.exhausted = true) : d.ask = d.miss := by
  unfold ask tryAllocateScrathpad miss
  rw [if_neg h]
  simp only [he, if_true]

theorem ask_give {d : RxDataset} {start : BitVec 64} (hi : d.Inv start) (h : d.raw ≠ 0)
    (he : d.exhausted = false) :
    d.ask = d.give ⟨d.raw.toNat + place start d.calls, 2 ^ 21⟩ := by
  have hroom := hi.room
  have hlimit := hi.limit
  have hfits := (exhausted_iff d).mp he
  have hout : (d.raw + d.scratchpadOffset).toNat = d.raw.toNat + place start d.calls := by
    rw [BitVec.toNat_add, hi.offset, Nat.mod_eq_of_lt]
    have := hi.offset
    omega
  have hne : d.raw + d.scratchpadOffset ≠ 0 := by
    intro h0
    have hzero := congrArg BitVec.toNat h0
    have : d.raw.toNat ≠ 0 := fun h1 => h (BitVec.eq_of_toNat_eq h1)
    have h2 : (0 : BitVec 64).toNat = 0 := rfl
    omega
  unfold ask tryAllocateScrathpad give miss
  rw [if_neg h]
  simp only [he, Bool.false_eq_true, if_false]
  rw [if_neg hne, hout, scratchpad_toNat]

theorem miss_offset {start : BitVec 64} {d : RxDataset} (h : d.Inv start) :
    d.miss.scratchpadOffset.toNat = place start (d.calls + 1) := by
  rw [miss, BitVec.toNat_add, h.offset, scratchpad_toNat]
  unfold place
  omega

theorem inv_ask {start : BitVec 64} {d : RxDataset} (h : d.Inv start) (hok : d.Ok) :
    d.ask.Inv start := by
  by_cases hraw : d.raw = 0
  · rw [ask_null hraw]
    exact h
  cases he : d.exhausted with
  | true =>
    have hfull : ¬ place start d.calls + 2 ^ 21 ≤ d.scratchpadLimit.toNat := by
      intro hle
      rw [← h.offset, ← exhausted_iff, he] at hle
      cases hle
    rw [ask_miss hraw he]
    constructor
    · rw [miss_offset h, miss_calls]
    · simpa using h.limit
    · simpa using h.room
    · intro r
      rw [miss_handed, h.handed, miss_calls, miss_limit, miss_raw]
      constructor
      · rintro ⟨i, hi, hfit, hr⟩
        exact ⟨i, Nat.lt_succ_of_lt hi, hfit, hr⟩
      · rintro ⟨i, hi, hfit, hr⟩
        rcases Nat.lt_succ_iff_lt_or_eq.mp hi with hi | rfl
        · exact ⟨i, hi, hfit, hr⟩
        · exact absurd hfit hfull
    · simpa using h.separate
  | false =>
    have hfits := (exhausted_iff d).mp he
    rw [h.offset] at hfits
    rw [ask_give h hraw he]
    constructor
    · rw [give_offset, miss_offset h, give_calls]
    · simpa using h.limit
    · simpa using h.room
    · intro r
      rw [give_handed, List.mem_append, List.mem_singleton, h.handed, give_calls, give_limit,
        give_raw]
      constructor
      · rintro (⟨i, hi, hfit, hr⟩ | rfl)
        · exact ⟨i, Nat.lt_succ_of_lt hi, hfit, hr⟩
        · exact ⟨d.calls, Nat.lt_succ_self _, hfits, rfl⟩
      · rintro ⟨i, hi, hfit, hr⟩
        rcases Nat.lt_succ_iff_lt_or_eq.mp hi with hi | rfl
        · exact .inl ⟨i, hi, hfit, hr⟩
        · exact .inr hr
    · rw [give_handed]
      refine h.separate.snoc fun r hr => ?_
      obtain ⟨i, hi, -, rfl⟩ := (h.handed r).mp hr
      have := handed_apart start hi (hok hraw he)
      simp only [Region.Apart, Region.stop]
      omega

/-- **The counter comes round**: a scratchpad is given for the second time. -/
theorem ask_round {start : BitVec 64} {d : RxDataset} (h : d.Inv start) (hok : ¬ d.Ok) :
    ¬ d.ask.Law := by
  simp only [Ok, Classical.not_imp, Nat.not_lt] at hok
  obtain ⟨hraw, he, hcalls⟩ := hok
  have hfits := (exhausted_iff d).mp he
  rw [h.offset] at hfits
  have hmem : (⟨d.raw.toNat + place start d.calls, 2 ^ 21⟩ : Region) ∈ d.handed := by
    rw [h.handed]
    refine ⟨d.calls - 2 ^ 43, by omega, ?_, ?_⟩
    · rw [← place_round start hcalls]
      exact hfits
    · rw [← place_round start hcalls]
  intro hlaw
  have hsep := hlaw.separate
  rw [ask_give h hraw he, give_handed] at hsep
  have hapart := (List.pairwise_append.mp hsep).2.2 _ hmem _ (List.mem_singleton.mpr rfl)
  simp only [Region.Apart, Region.stop] at hapart
  omega

theorem inv_allocate (oneGbPages : Bool) (hugePageSize raw : BitVec 64)
    (h : (allocate oneGbPages hugePageSize raw).region.stop < 2 ^ 64) :
    ∃ start, (allocate oneGbPages hugePageSize raw).Inv start := by
  cases oneGbPages with
  | true =>
    have hstart : (maxSize + RANDOMX_CACHE_MAX_SIZE).toNat =
        place (maxSize + RANDOMX_CACHE_MAX_SIZE) 0 := by decide
    refine ⟨maxSize + RANDOMX_CACHE_MAX_SIZE, hstart, Nat.le_refl _, h, fun r => ?_, .nil⟩
    exact ⟨nofun, fun ⟨_, hi, _⟩ => absurd hi (Nat.not_lt_zero _)⟩
  | false =>
    have hstart : (0 : BitVec 64).toNat = place 0 0 := by decide
    refine ⟨0, hstart, Nat.zero_le _, h, fun r => ?_, .nil⟩
    exact ⟨nofun, fun ⟨_, hi, _⟩ => absurd hi (Nat.not_lt_zero _)⟩

end VmHost.RxDataset

/-! ## Virtual machines -/

/-- The flags that choose the class. -/
structure VmFlags where
  fullMem : Bool := false
  jit : Bool := false
  hardAes : Bool := false
  deriving DecidableEq, Repr

/-- Ghost: in which pass over its pool the machine was placed. -/
structure VmHost.Vm where
  node : Nat
  pass : Nat
  region : Region
  deriving DecidableEq, Repr

/-- The pools, the machines that have not been destroyed, and the dataset. Ghost: `pass`, how
often each offset has been set back. -/
structure VmHost where
  vm_pool : Nat → Nat := fun _ => 0
  vm_pool_offset : Nat → Nat := fun _ => 0
  pass : Nat → Nat := fun _ => 0
  live : List VmHost.Vm := []
  dataset : VmHost.RxDataset

namespace VmHost

def VM_POOL_SIZE : Nat := 2 * 1024 * 1024

def poolNode (node : Nat) : Nat := if 64 ≤ node then 0 else node

def pool (s : VmHost) (node : Nat) : Region := ⟨s.vm_pool node, VM_POOL_SIZE⟩

/-- A pool is allocated when there is none; `memory` is what the system answers, zero where
both ways fail. -/
def ensurePool (s : VmHost) (node memory : Nat) : VmHost :=
  if s.vm_pool node = 0 then { s with vm_pool := Function.update s.vm_pool node memory } else s

def next (s : VmHost) (node vm_size : Nat) : Region :=
  ⟨s.vm_pool node + s.vm_pool_offset node, vm_size⟩

/-- The end of the pool is near. -/
def rewinds (s : VmHost) (node vm_size : Nat) : Bool :=
  VM_POOL_SIZE < s.vm_pool_offset node + vm_size + 4096

def place (s : VmHost) (node vm_size : Nat) : VmHost :=
  { s with
    live := s.live ++ [⟨node, s.pass node, s.next node vm_size⟩]
    vm_pool_offset := Function.update s.vm_pool_offset node
      (if s.rewinds node vm_size then 0 else s.vm_pool_offset node + vm_size)
    pass := Function.update s.pass node
      (if s.rewinds node vm_size then s.pass node + 1 else s.pass node) }

inductive Event where
  /-- `thrown`: a constructor or a setter throws, and there is no machine. -/
  | randomx_create_vm (flags : VmFlags) (node memory : Nat) (thrown : Bool)
  | randomx_destroy_vm (i : Nat)
  | tryAllocateScrathpad
  deriving DecidableEq, Repr

/-- `size` is that of the class.
mirrors src/crypto/randomx/randomx.cpp:481-595 -/
def apply (size : VmFlags → Nat) (s : VmHost) : Event → VmHost
  | .randomx_create_vm flags node memory thrown =>
    let s := s.ensurePool (poolNode node) memory
    if thrown then s else s.place (poolNode node) (size flags)
  | .randomx_destroy_vm i => { s with live := s.live.eraseIdx i }
  | .tryAllocateScrathpad => { s with dataset := s.dataset.ask }

/-- A pool that is allocated is apart from the others. -/
def Allowed (s : VmHost) : Event → Prop
  | .randomx_create_vm _ node memory _ => s.vm_pool (poolNode node) = 0 → memory ≠ 0 →
      ∀ n, s.vm_pool n ≠ 0 → Region.Apart ⟨memory, VM_POOL_SIZE⟩ (s.pool n)
  | .randomx_destroy_vm i => i < s.live.length
  | .tryAllocateScrathpad => True

def lts (size : VmFlags → Nat) : LTS VmHost Event where
  init s := ∃ oneGbPages hugePageSize raw,
    (RxDataset.allocate oneGbPages hugePageSize raw).region.stop < 2 ^ 64 ∧
      s = { dataset := RxDataset.allocate oneGbPages hugePageSize raw }
  step s e s' := s.Allowed e ∧ s' = s.apply size e

/-- Every machine is inside of its node's pool and apart from every other, and the scratchpads
are inside of the dataset and apart. -/
structure Law (s : VmHost) : Prop where
  inside : ∀ v ∈ s.live, s.vm_pool v.node ≠ 0 ∧ v.region.Inside (s.pool v.node)
  separate : Region.Separate (s.live.map (·.region))
  dataset : s.dataset.Law

/-- The condition on a machine that is placed: there is a pool, the object ends before the
pool does, and no machine of an earlier pass over the pool still lives where it goes. -/
def Room (s : VmHost) (node vm_size : Nat) : Prop :=
  s.vm_pool node ≠ 0 ∧ s.vm_pool_offset node + vm_size ≤ VM_POOL_SIZE ∧
    ∀ v ∈ s.live, v.node = node → v.pass < s.pass node → v.region.Apart (s.next node vm_size)

def Ok (size : VmFlags → Nat) (s : VmHost) : Event → Prop
  | .randomx_create_vm flags node memory thrown => thrown = false →
      (s.ensurePool (poolNode node) memory).Room (poolNode node) (size flags)
  | .randomx_destroy_vm _ => True
  | .tryAllocateScrathpad => s.dataset.Ok

/-- The machines of this pass end where the offset is. -/
structure Inv (s : VmHost) : Prop where
  law : s.Law
  start : ∃ start, s.dataset.Inv start
  pools : ∀ n n', n ≠ n' → s.vm_pool n ≠ 0 → s.vm_pool n' ≠ 0 → (s.pool n).Apart (s.pool n')
  earlier : ∀ v ∈ s.live, v.pass ≤ s.pass v.node
  behind : ∀ v ∈ s.live, v.pass = s.pass v.node →
    v.region.stop ≤ s.vm_pool v.node + s.vm_pool_offset v.node

theorem inv_ensurePool {s : VmHost} (h : s.Inv) {node memory : Nat}
    (hfresh : s.vm_pool node = 0 → memory ≠ 0 →
      ∀ n, s.vm_pool n ≠ 0 → Region.Apart ⟨memory, VM_POOL_SIZE⟩ (s.pool n)) :
    (s.ensurePool node memory).Inv := by
  unfold ensurePool
  split
  · rename_i h0
    have hother (v) (hv : v ∈ s.live) : v.node ≠ node := by
      intro heq
      exact (h.law.inside v hv).1 (heq ▸ h0)
    refine ⟨⟨fun v hv => ?_, h.law.separate, h.law.dataset⟩, h.start, fun n n' hne hn hn' => ?_,
      h.earlier, fun v hv hp => ?_⟩
    · have := h.law.inside v hv
      simpa [pool, Function.update_of_ne (hother v hv)] using this
    · dsimp only [pool] at *
      by_cases h₁ : n = node
      · have h₂ : n' ≠ node := fun heq => hne (h₁.trans heq.symm)
        subst h₁
        rw [Function.update_self] at hn ⊢
        rw [Function.update_of_ne h₂] at hn' ⊢
        exact hfresh h0 hn n' hn'
      · rw [Function.update_of_ne h₁] at hn ⊢
        by_cases h₂ : n' = node
        · subst h₂
          rw [Function.update_self] at hn' ⊢
          exact (hfresh h0 hn' n hn).symm
        · rw [Function.update_of_ne h₂] at hn' ⊢
          exact h.pools n n' hne hn hn'
    · simpa [Function.update_of_ne (hother v hv)] using h.behind v hv hp
  · exact h

@[simp] theorem place_vm_pool (s : VmHost) (node vm_size : Nat) :
    (s.place node vm_size).vm_pool = s.vm_pool := rfl

@[simp] theorem place_live (s : VmHost) (node vm_size : Nat) :
    (s.place node vm_size).live = s.live ++ [⟨node, s.pass node, s.next node vm_size⟩] := rfl

@[simp] theorem place_dataset (s : VmHost) (node vm_size : Nat) :
    (s.place node vm_size).dataset = s.dataset := rfl

@[simp] theorem place_pool (s : VmHost) (node vm_size n : Nat) :
    (s.place node vm_size).pool n = s.pool n := rfl

/-- In a pass that goes on the offset moves behind the new machine. -/
theorem place_goes_on {s : VmHost} {node vm_size : Nat} (h : s.rewinds node vm_size = false) :
    (s.place node vm_size).pass = s.pass ∧
      (s.place node vm_size).vm_pool_offset node = s.vm_pool_offset node + vm_size := by
  simp [place, h]

theorem place_rewinds {s : VmHost} {node vm_size : Nat} (h : s.rewinds node vm_size = true) :
    (s.place node vm_size).pass node = s.pass node + 1 := by
  simp [place, h]

theorem place_pass_of_ne {s : VmHost} {node vm_size n : Nat} (h : n ≠ node) :
    (s.place node vm_size).pass n = s.pass n := by
  simp [place, Function.update_of_ne h]

theorem place_offset_of_ne {s : VmHost} {node vm_size n : Nat} (h : n ≠ node) :
    (s.place node vm_size).vm_pool_offset n = s.vm_pool_offset n := by
  simp [place, Function.update_of_ne h]

theorem le_place_pass (s : VmHost) (node vm_size n : Nat) :
    s.pass n ≤ (s.place node vm_size).pass n := by
  by_cases hn : n = node
  · subst hn
    cases hr : s.rewinds n vm_size with
    | true =>
      have := place_rewinds hr
      omega
    | false => exact Nat.le_of_eq (congrFun (place_goes_on hr).1.symm n)
  · exact Nat.le_of_eq (place_pass_of_ne hn).symm

theorem next_inside {s : VmHost} {node vm_size : Nat}
    (h : s.vm_pool_offset node + vm_size ≤ VM_POOL_SIZE) :
    (s.next node vm_size).Inside (s.pool node) := by
  simp only [Region.Inside, Region.stop, next, pool]
  omega

/-- A machine that lives is apart from the new one: in another pool, or before the offset, or
by the condition. -/
theorem apart_next {s : VmHost} (h : s.Inv) {node vm_size : Nat} (hroom : s.Room node vm_size)
    {v : Vm} (hv : v ∈ s.live) : v.region.Apart (s.next node vm_size) := by
  obtain ⟨hpool, hfits, hearlier⟩ := hroom
  obtain ⟨hvpool, hvin⟩ := h.law.inside v hv
  by_cases hn : v.node = node
  · rcases Nat.lt_or_eq_of_le (h.earlier v hv) with hlt | heq
    · exact hearlier v hv hn (hn ▸ hlt)
    · have hbehind := h.behind v hv heq
      rw [hn] at hbehind
      exact .inl hbehind
  · exact (h.pools _ _ hn hvpool hpool).mono hvin (next_inside hfits)

theorem inv_place {s : VmHost} (h : s.Inv) {node vm_size : Nat} (hroom : s.Room node vm_size) :
    (s.place node vm_size).Inv := by
  refine ⟨⟨fun v hv => ?_, ?_, h.law.dataset⟩, h.start, h.pools, fun v hv => ?_, fun v hv hp => ?_⟩
  · rcases List.mem_append.mp hv with hv | hv
    · exact h.law.inside v hv
    · rw [List.mem_singleton.mp hv]
      exact ⟨hroom.1, next_inside hroom.2.1⟩
  · rw [place_live, List.map_append]
    refine Region.Separate.snoc h.law.separate fun r hr => ?_
    obtain ⟨v, hv, rfl⟩ := List.mem_map.mp hr
    exact apart_next h hroom hv
  · rcases List.mem_append.mp hv with hv | hv
    · exact Nat.le_trans (h.earlier v hv) (le_place_pass s node vm_size v.node)
    · rw [List.mem_singleton.mp hv]
      exact le_place_pass s node vm_size node
  · by_cases hn : v.node = node
    · have hle : v.pass ≤ s.pass node := by
        rcases List.mem_append.mp hv with hv | hv
        · exact hn ▸ h.earlier v hv
        · exact Nat.le_of_eq (congrArg Vm.pass (List.mem_singleton.mp hv))
      rw [hn] at hp ⊢
      cases hr : s.rewinds node vm_size with
      | true =>
        -- a new pass begins, of which no machine is yet
        rw [place_rewinds hr] at hp
        omega
      | false =>
        obtain ⟨hpass, hoffset⟩ := place_goes_on hr
        rw [hpass] at hp
        rw [hoffset, place_vm_pool]
        rcases List.mem_append.mp hv with hv | hv
        · have hbehind := h.behind v hv (by rw [hn, hp])
          rw [hn] at hbehind
          omega
        · rw [List.mem_singleton.mp hv]
          simp only [Region.stop, next]
          omega
    · have hv : v ∈ s.live := by
        rcases List.mem_append.mp hv with hv | hv
        · exact hv
        · exact absurd (congrArg Vm.node (List.mem_singleton.mp hv)) hn
      rw [place_pass_of_ne hn] at hp
      rw [place_offset_of_ne hn, place_vm_pool]
      exact h.behind v hv hp

theorem room_of_place {s : VmHost} {node vm_size : Nat} (h : (s.place node vm_size).Law) :
    s.Room node vm_size := by
  have hnew : (⟨node, s.pass node, s.next node vm_size⟩ : Vm) ∈ (s.place node vm_size).live :=
    List.mem_append_right _ (List.mem_singleton.mpr rfl)
  obtain ⟨hpool, hin⟩ := h.inside _ hnew
  refine ⟨hpool, ?_, fun v hv _ _ => ?_⟩
  · rw [place_pool] at hin
    simp only [Region.Inside, Region.stop, next, pool] at hin
    omega
  · have hsep := h.separate
    rw [place_live, List.map_append] at hsep
    exact (List.pairwise_append.mp hsep).2.2 _ (List.mem_map_of_mem hv) _
      (List.mem_singleton.mpr rfl)

theorem inv_destroy {s : VmHost} (h : s.Inv) (i : Nat) :
    ({ s with live := s.live.eraseIdx i } : VmHost).Inv := by
  have hsub := List.eraseIdx_sublist s.live i
  exact ⟨⟨fun v hv => h.law.inside v (hsub.subset hv), h.law.separate.sublist (hsub.map _),
    h.law.dataset⟩, h.start, h.pools, fun v hv => h.earlier v (hsub.subset hv),
    fun v hv => h.behind v (hsub.subset hv)⟩

theorem inv_dataset {s : VmHost} (h : s.Inv) (hok : s.dataset.Ok) :
    ({ s with dataset := s.dataset.ask } : VmHost).Inv := by
  obtain ⟨start, hstart⟩ := h.start
  have hask := RxDataset.inv_ask hstart hok
  exact ⟨⟨h.law.inside, h.law.separate, hask.law⟩, ⟨start, hask⟩, h.pools, h.earlier, h.behind⟩

theorem inv_apply {size : VmFlags → Nat} {s : VmHost} (h : s.Inv) {e : Event} (ha : s.Allowed e)
    (hok : s.Ok size e) : (s.apply size e).Inv := by
  cases e with
  | randomx_create_vm flags node memory thrown =>
    have hpool := inv_ensurePool h ha
    cases thrown with
    | true => exact hpool
    | false => exact inv_place hpool (hok rfl)
  | randomx_destroy_vm i => exact inv_destroy h i
  | tryAllocateScrathpad => exact inv_dataset h hok

/-- **One call.** -/
theorem law_apply {size : VmFlags → Nat} {s : VmHost} (h : s.Inv) {e : Event}
    (ha : s.Allowed e) : (s.apply size e).Law ↔ s.Ok size e := by
  refine ⟨fun hlaw => ?_, fun hok => (inv_apply h ha hok).law⟩
  cases e with
  | randomx_create_vm flags node memory thrown =>
    rintro rfl
    exact room_of_place hlaw
  | randomx_destroy_vm i => trivial
  | tryAllocateScrathpad =>
    obtain ⟨start, hstart⟩ := h.start
    by_contra hok
    exact RxDataset.ask_round hstart hok hlaw.dataset

theorem inv_init {size : VmFlags → Nat} {s : VmHost} (h : (lts size).init s) : s.Inv := by
  obtain ⟨oneGbPages, hugePageSize, raw, hstop, rfl⟩ := h
  obtain ⟨start, hstart⟩ := RxDataset.inv_allocate oneGbPages hugePageSize raw hstop
  exact ⟨⟨nofun, .nil, hstart.law⟩, ⟨start, hstart⟩, fun _ _ _ hn => absurd rfl hn, nofun, nofun⟩

end VmHost

namespace L2.VmPool

open VmHost

theorem live_vms (size : VmFlags → Nat) :
    (∀ s, ((lts size).restrict (Ok size)).Reachable s → s.Law) ∧
      ∀ s e, ((lts size).restrict (Ok size)).Reachable s → s.Allowed e →
        ((s.apply size e).Law ↔ s.Ok size e) := by
  have I : ((lts size).restrict (Ok size)).Inductive Inv :=
    { init := fun s hs => inv_init (show (lts size).init s from hs)
      step := by
        rintro s e s' h ⟨hok, ha, rfl⟩
        exact inv_apply h ha hok }
  exact ⟨fun s hs => (I.reachable hs).law, fun s e hs ha => law_apply (I.reachable hs) ha⟩

/-- Every class as large as the interpreters. -/
def interpreted : VmFlags → Nat := fun _ => 15936

def createVm : VmHost.Event := .randomx_create_vm {} 0 4194304 false

theorem apply_createVm (s : VmHost) :
    s.apply interpreted createVm = (s.ensurePool 0 4194304).place 0 15936 := by
  simp only [createVm, apply, poolNode, interpreted, Bool.false_eq_true, if_false]
  rfl

theorem destroy_vm_pool (size : VmFlags → Nat) (s : VmHost) (i : Nat) :
    (s.apply size (.randomx_destroy_vm i)).vm_pool = s.vm_pool := rfl

theorem destroy_offset (size : VmFlags → Nat) (s : VmHost) (i : Nat) :
    (s.apply size (.randomx_destroy_vm i)).vm_pool_offset = s.vm_pool_offset := rfl

theorem destroy_live (size : VmFlags → Nat) (s : VmHost) (i : Nat) :
    (s.apply size (.randomx_destroy_vm i)).live = s.live.eraseIdx i := rfl

/-- One pool, and nobody in it. -/
structure Idle (s : VmHost) (offset : Nat) : Prop where
  offset : s.vm_pool_offset 0 = offset
  live : s.live = []
  pool : ∀ n, s.vm_pool n ≠ 0 → n = 0 ∧ s.vm_pool 0 = 4194304

theorem Idle.allowed {s : VmHost} {offset : Nat} (h : Idle s offset) : s.Allowed createVm := by
  intro h0 _ n hn
  exact absurd (h0.symm.trans (h.pool n hn).2) (by decide)

/-- The machine that is made. -/
theorem Idle.create {s : VmHost} {offset : Nat} (h : Idle s offset) :
    (s.ensurePool 0 4194304).vm_pool 0 = 4194304 ∧
      (s.ensurePool 0 4194304).vm_pool_offset = s.vm_pool_offset ∧
      (s.ensurePool 0 4194304).live = [] ∧
      ∀ n, (s.ensurePool 0 4194304).vm_pool n ≠ 0 → n = 0 := by
  unfold ensurePool
  split
  · refine ⟨by simp, rfl, h.live, fun n hn => ?_⟩
    by_contra hne
    dsimp only at hn
    rw [Function.update_of_ne hne] at hn
    exact hne (h.pool n hn).1
  · rename_i h0
    exact ⟨(h.pool 0 h0).2, rfl, h.live, fun n hn => (h.pool n hn).1⟩

theorem Idle.next {s : VmHost} {offset : Nat} (h : Idle s offset)
    (hroom : offset + 15936 + 4096 ≤ 2097152) :
    Idle ((s.apply interpreted createVm).apply interpreted (.randomx_destroy_vm 0))
      (offset + 15936) := by
  obtain ⟨hpool, hoffset, hlive, honly⟩ := h.create
  have hgoes : (s.ensurePool 0 4194304).rewinds 0 15936 = false := by
    rw [rewinds, hoffset, h.offset, VM_POOL_SIZE]
    simp only [decide_eq_false_iff_not]
    omega
  have hplace := (place_goes_on hgoes).2
  rw [hoffset, h.offset] at hplace
  refine ⟨?_, ?_, fun n hn => ?_⟩
  · rw [destroy_offset, apply_createVm, hplace]
  · rw [destroy_live, apply_createVm, place_live, hlive]
    rfl
  · rw [destroy_vm_pool, apply_createVm, place_vm_pool] at hn ⊢
    exact ⟨honly n hn, hpool⟩

/-- One machine at a time: only the offset remembers those that were. -/
theorem one_at_a_time {k : Nat} (hk : k ≤ 131) :
    ∃ s, (lts interpreted).Reachable s ∧ Idle s (15936 * k) := by
  induction k with
  | zero =>
    exact ⟨_, .init ⟨false, 2097152, 0, by decide, rfl⟩, rfl, rfl, fun n hn => absurd rfl hn⟩
  | succ k ih =>
    obtain ⟨s, hs, hidle⟩ := ih (by omega)
    have hdestroy : (s.apply interpreted createVm).Allowed (.randomx_destroy_vm 0) := by
      rw [apply_createVm]
      simp [Allowed]
    exact ⟨_, (hs.step ⟨hidle.allowed, rfl⟩).step ⟨hdestroy, rfl⟩, hidle.next (by omega)⟩

/-- The hundred and thirty-second machine goes past the end of its pool. -/
theorem live_vms_fail : ¬ ∀ size s, (lts size).Reachable s → s.Law := by
  intro h
  obtain ⟨s, hs, hidle⟩ := one_at_a_time (Nat.le_refl 131)
  have hlaw := h interpreted _ (hs.step ⟨hidle.allowed, rfl⟩)
  rw [apply_createVm] at hlaw
  have hfits := (room_of_place hlaw).2.1
  rw [hidle.create.2.1, hidle.offset, VM_POOL_SIZE] at hfits
  omega

end L2.VmPool

end Rxs
