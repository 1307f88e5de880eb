import Rxs.L2Machine.InterpretedVm

/-!
# Slices of the dataset

`init` cuts the items into as many slices as there are threads, and each thread computes
its slice in one call or two: items are computed by fives (by fours on RISC-V), and what
is left over is computed again with the items in front of it.

* `exists_between`: numbers between the first and the last bound are between two
  neighbours.
* `slice_items`: the calls of a slice.
* **`dataset_covered`**: the calls of a dataset.
* `read_covered`: an item that the machine reads is computed.
-/
namespace Rxs.L2.DatasetSlices

open Rxs.RandomX.InterpretedVm

/-- `randomx_init_dataset`. -/
structure Call where
  startItem : UInt32
  itemCount : UInt32
  deriving DecidableEq, Repr

namespace Call

def items (c : Call) : Set Nat :=
  {i | c.startItem.toNat ≤ i ∧ i < c.startItem.toNat + c.itemCount.toNat}

end Call

/-- What the items are computed with. -/
structure Host where
  hasAVX2 : Bool
  RXS_RISCV : Bool
  deriving DecidableEq, Repr

/-! ## The source -/

/-- mirrors src/crypto/rx/RxDataset.cpp:80-84 -/
def alignDown (count align : UInt32) : UInt32 := count - count % align

/-- mirrors src/crypto/rx/RxDataset.cpp:96-110 and 112-125, with 5 and with 4 -/
def alignedCalls (align startItem itemCount : UInt32) : List Call :=
  let aligned := alignDown itemCount align
  if aligned ≠ itemCount then
    if itemCount ≥ align then
      (if aligned > 0 then [⟨startItem, aligned⟩] else []) ++
        [⟨startItem + itemCount - align, align⟩]
    else [⟨startItem, itemCount⟩]
  else [⟨startItem, itemCount⟩]

/-- mirrors src/crypto/rx/RxDataset.cpp:86-129 -/
def init_dataset_slice (host : Host) (startItem itemCount : UInt32) : List Call :=
  if itemCount = 0 then []
  else if host.hasAVX2 then alignedCalls 5 startItem itemCount
  else if host.RXS_RISCV then alignedCalls 4 startItem itemCount
  else [⟨startItem, itemCount⟩]

def MAX_DATASET_THREADS : UInt32 := 256

/-- mirrors src/crypto/rx/RxDataset.cpp:178-181 -/
def safeThreads (numThreads : UInt32) : UInt32 := min (max numThreads 1) MAX_DATASET_THREADS

/-- Start and count.
mirrors src/crypto/rx/RxDataset.cpp:197-204 -/
def slice (datasetItemCount : UInt64) (threads : UInt32) (i : Nat) : UInt32 × UInt32 :=
  let a64 := datasetItemCount * UInt64.ofNat i / threads.toUInt64
  let b64 := datasetItemCount * (UInt64.ofNat i + 1) / threads.toUInt64
  (a64.toUInt32, (b64 - a64).toUInt32)

/-- The slices of all threads.
mirrors src/crypto/rx/RxDataset.cpp:185-204 -/
def slices (datasetItemCount : UInt64) (numThreads : UInt32) : List (UInt32 × UInt32) :=
  let threads := safeThreads numThreads
  if threads ≤ 1 then [(0, datasetItemCount.toUInt32)]
  else (List.range threads.toNat).map (slice datasetItemCount threads)

/-- The calls, thread by thread, of a dataset that has its memory and its cache.
mirrors src/crypto/rx/RxDataset.cpp:166-219 -/
def init (host : Host) (datasetItemCount : UInt64) (numThreads : UInt32) : List Call :=
  (slices datasetItemCount numThreads).flatMap fun s => init_dataset_slice host s.1 s.2

/-- mirrors src/crypto/randomx/randomx.cpp:458 -/
def DatasetItemCount : UInt64 :=
  UInt64.ofNat ((DatasetBaseSize + DatasetExtraSize) /
    RANDOMX_DATASET_ITEM_SIZE)

/-! ## Calls of a slice -/

theorem toNat_alignDown (count align : UInt32) :
    (alignDown count align).toNat = count.toNat - count.toNat % align.toNat := by
  have hle : count % align ≤ count := by
    rw [UInt32.le_iff_toNat_le, UInt32.toNat_mod]
    exact Nat.mod_le _ _
  rw [alignDown, UInt32.toNat_sub_of_le _ _ hle, UInt32.toNat_mod]

/-- What calls are for: they compute the items from one to another and no others. -/
def Covers (calls : List Call) (first last : Nat) : Prop :=
  (∀ c ∈ calls, first ≤ c.startItem.toNat ∧ c.startItem.toNat + c.itemCount.toNat ≤ last) ∧
    ∀ i, first ≤ i → i < last → ∃ c ∈ calls, i ∈ c.items

theorem covers_one {start count : UInt32} :
    Covers [⟨start, count⟩] start.toNat (start.toNat + count.toNat) := by
  refine ⟨?_, fun i hi hlt => ⟨_, List.mem_cons_self, hi, hlt⟩⟩
  intro c hc
  rw [List.mem_singleton.mp hc]
  exact ⟨Nat.le_refl _, Nat.le_refl _⟩

theorem alignedCalls_covers {align start count : UInt32} (ha : 0 < align.toNat)
    (hfits : start.toNat + count.toNat < 2 ^ 32) :
    Covers (alignedCalls align start count) start.toNat (start.toNat + count.toNat) := by
  have hmod := Nat.mod_lt count.toNat ha
  have hdown := toNat_alignDown count align
  unfold alignedCalls
  dsimp only
  split
  · split
    · rename_i hge
      have hge : align.toNat ≤ count.toNat := UInt32.le_iff_toNat_le.mp hge
      have hpos : alignDown count align > 0 := by
        have := Nat.mod_le count.toNat align.toNat
        have h0 : (0 : UInt32).toNat = 0 := rfl
        rw [gt_iff_lt, UInt32.lt_iff_toNat_lt, hdown, h0]
        omega
      have hsum : (start + count).toNat = start.toNat + count.toNat := by
        rw [UInt32.toNat_add, Nat.mod_eq_of_lt hfits]
      have hlast : (start + count - align).toNat = start.toNat + count.toNat - align.toNat := by
        rw [UInt32.toNat_sub_of_le, hsum]
        rw [UInt32.le_iff_toNat_le, hsum]
        omega
      rw [if_pos hpos]
      constructor
      · intro c hc
        simp only [List.cons_append, List.nil_append, List.mem_cons, List.not_mem_nil,
          or_false] at hc
        rcases hc with rfl | rfl
        · dsimp only
          omega
        · dsimp only
          omega
      · intro i hi hlt
        by_cases hin : i < start.toNat + (alignDown count align).toNat
        · exact ⟨_, List.mem_cons_self, hi, hin⟩
        · refine ⟨_, List.mem_append_right _ List.mem_cons_self, ?_, ?_⟩
          · dsimp only
            omega
          · dsimp only
            omega
    · exact covers_one
  · exact covers_one

theorem alignedCalls_mod (align : UInt32) {start count : UInt32}
    (hge : align.toNat ≤ count.toNat) :
    ∀ c ∈ alignedCalls align start count, c.itemCount.toNat % align.toNat = 0 := by
  have hdown := toNat_alignDown count align
  have hmod : (alignDown count align).toNat % align.toNat = 0 := by
    rw [hdown]
    exact Nat.sub_mod_eq_zero_of_mod_eq (by rw [Nat.mod_mod])
  unfold alignedCalls
  dsimp only
  intro c hc
  split at hc
  · split at hc
    · rw [List.mem_append] at hc
      rcases hc with hc | hc
      · split at hc
        · rw [List.mem_singleton.mp hc]
          exact hmod
        · cases hc
      · rw [List.mem_singleton.mp hc]
        exact Nat.mod_self _
    · rename_i hlt
      exact absurd (UInt32.le_iff_toNat_le.mpr hge) hlt
  · rename_i heq
    rw [List.mem_singleton.mp hc]
    rw [not_not.mp heq] at hmod
    exact hmod

theorem slice_items (host : Host) {start count : UInt32}
    (hfits : start.toNat + count.toNat < 2 ^ 32) :
    Covers (init_dataset_slice host start count) start.toNat (start.toNat + count.toNat) := by
  unfold init_dataset_slice
  split
  · rename_i h0
    have h0 : count.toNat = 0 := by
      rw [h0]
      rfl
    exact ⟨nofun, fun i hi hlt => by omega⟩
  · split
    · exact alignedCalls_covers (by decide) hfits
    · split
      · exact alignedCalls_covers (by decide) hfits
      · exact covers_one

/-! ## Slices of the dataset -/

/-- Numbers between the first and the last bound. -/
theorem exists_between (f : Nat → Nat) (n : Nat) {j : Nat} (h0 : f 0 ≤ j) (hj : j < f n) :
    ∃ i < n, f i ≤ j ∧ j < f (i + 1) := by
  induction n with
  | zero => omega
  | succ n ih =>
    by_cases hlt : j < f n
    · obtain ⟨i, hi, hb⟩ := ih hlt
      exact ⟨i, Nat.lt_succ_of_lt hi, hb⟩
    · exact ⟨n, Nat.lt_succ_self n, Nat.not_lt.mp hlt, hj⟩

/-- The bounds. -/
def bound (n threads i : Nat) : Nat := n * i / threads

theorem bound_le_succ (n threads i : Nat) : bound n threads i ≤ bound n threads (i + 1) :=
  Nat.div_le_div_right (Nat.mul_le_mul_left n (Nat.le_succ i))

theorem bound_le {n threads i : Nat} (hi : i ≤ threads) : bound n threads i ≤ n :=
  Nat.div_le_of_le_mul (Nat.mul_comm n threads ▸ Nat.mul_le_mul_left n hi)

theorem bound_self {n threads : Nat} (h : 0 < threads) : bound n threads threads = n :=
  Nat.mul_div_cancel n h

theorem toNat_safeThreads (numThreads : UInt32) :
    1 ≤ (safeThreads numThreads).toNat ∧ (safeThreads numThreads).toNat ≤ 256 := by
  have h₂ : MAX_DATASET_THREADS.toNat = 256 := rfl
  have hmax : 1 ≤ (max numThreads 1).toNat := by
    show 1 ≤ (if numThreads ≤ 1 then 1 else numThreads).toNat
    split
    · exact Nat.le_refl 1
    · rename_i h
      exact Nat.le_of_lt (UInt32.lt_iff_toNat_lt.mp (UInt32.not_le.mp h))
  show 1 ≤ (if max numThreads 1 ≤ MAX_DATASET_THREADS then max numThreads 1
      else MAX_DATASET_THREADS).toNat ∧
    (if max numThreads 1 ≤ MAX_DATASET_THREADS then max numThreads 1
      else MAX_DATASET_THREADS).toNat ≤ 256
  split
  · rename_i h
    exact ⟨hmax, UInt32.le_iff_toNat_le.mp h⟩
  · rw [h₂]
    omega

/-- The words have room for the products, and 32 bits for the bounds. -/
theorem slice_eq {n : UInt64} {threads : UInt32} {i : Nat} (hn : n.toNat < 2 ^ 32)
    (ht : threads.toNat ≤ 256) (hi : i < threads.toNat) :
    (slice n threads i).1.toNat = bound n.toNat threads.toNat i ∧
      (slice n threads i).1.toNat + (slice n threads i).2.toNat =
        bound n.toNat threads.toNat (i + 1) := by
  have hprod (k : Nat) (hk : k ≤ 256) : n.toNat * k < 2 ^ 64 :=
    calc n.toNat * k ≤ n.toNat * 256 := Nat.mul_le_mul_left _ hk
      _ < 2 ^ 64 := by omega
  have hmul (k : Nat) (hk : k ≤ 256) :
      (n * UInt64.ofNat k / threads.toUInt64).toNat = bound n.toNat threads.toNat k := by
    have hk' : (UInt64.ofNat k).toNat = k := UInt64.toNat_ofNat_of_lt' (by
      show k < 2 ^ 64
      omega)
    rw [UInt64.toNat_div, UInt64.toNat_mul, hk', Nat.mod_eq_of_lt (hprod k hk),
      UInt32.toNat_toUInt64]
    rfl
  have hsucc : UInt64.ofNat i + 1 = UInt64.ofNat (i + 1) := (UInt64.ofNat_add i 1).symm
  have hle := bound_le_succ n.toNat threads.toNat i
  have hb : bound n.toNat threads.toNat (i + 1) ≤ n.toNat := bound_le hi
  have hsub : (n * (UInt64.ofNat i + 1) / threads.toUInt64 -
      n * UInt64.ofNat i / threads.toUInt64).toNat =
      bound n.toNat threads.toNat (i + 1) - bound n.toNat threads.toNat i := by
    rw [hsucc, UInt64.toNat_sub_of_le, hmul _ (by omega), hmul _ (by omega)]
    rw [UInt64.le_iff_toNat_le, hmul _ (by omega), hmul _ (by omega)]
    exact hle
  have h₁ : (slice n threads i).1.toNat = bound n.toNat threads.toNat i := by
    show (n * UInt64.ofNat i / threads.toUInt64).toUInt32.toNat = _
    rw [UInt64.toNat_toUInt32, hmul _ (by omega), Nat.mod_eq_of_lt (by omega)]
  have h₂ : (slice n threads i).2.toNat =
      bound n.toNat threads.toNat (i + 1) - bound n.toNat threads.toNat i := by
    show (n * (UInt64.ofNat i + 1) / threads.toUInt64 -
      n * UInt64.ofNat i / threads.toUInt64).toUInt32.toNat = _
    rw [UInt64.toNat_toUInt32, hsub, Nat.mod_eq_of_lt (by omega)]
  refine ⟨h₁, ?_⟩
  rw [h₁, h₂]
  omega

/-- **The slices**: inside the dataset, and no item is between them. -/
theorem slices_cover {n : UInt64} (hn : n.toNat < 2 ^ 32) (numThreads : UInt32) :
    (∀ s ∈ slices n numThreads, s.1.toNat + s.2.toNat ≤ n.toNat) ∧
      ∀ i < n.toNat, ∃ s ∈ slices n numThreads, s.1.toNat ≤ i ∧ i < s.1.toNat + s.2.toNat := by
  obtain ⟨hone, hmax⟩ := toNat_safeThreads numThreads
  unfold slices
  dsimp only
  split
  · have h0 : (0 : UInt32).toNat = 0 := rfl
    have hcount : n.toUInt32.toNat = n.toNat := by
      rw [UInt64.toNat_toUInt32, Nat.mod_eq_of_lt hn]
    constructor
    · intro s hs
      rw [List.mem_singleton.mp hs, hcount, h0]
      omega
    · intro i hi
      refine ⟨_, List.mem_cons_self, ?_, ?_⟩
      · rw [h0]
        omega
      · rw [h0, hcount]
        omega
  · constructor
    · intro s hs
      obtain ⟨k, hk, rfl⟩ := List.mem_map.mp hs
      have hk := List.mem_range.mp hk
      rw [(slice_eq hn hmax hk).2]
      exact bound_le hk
    · intro i hi
      obtain ⟨k, hk, hb⟩ := exists_between (bound n.toNat (safeThreads numThreads).toNat)
        (safeThreads numThreads).toNat (j := i) (by simp [bound]) (by rwa [bound_self hone])
      obtain ⟨h₁, h₂⟩ := slice_eq hn hmax hk
      refine ⟨_, List.mem_map.mpr ⟨k, List.mem_range.mpr hk, rfl⟩, ?_, ?_⟩
      · rw [h₁]
        exact hb.1
      · rw [h₂]
        exact hb.2

theorem init_covers (host : Host) {n : UInt64} (hn : n.toNat < 2 ^ 32) (numThreads : UInt32) :
    Covers (init host n numThreads) 0 n.toNat := by
  obtain ⟨hin, hall⟩ := slices_cover hn numThreads
  constructor
  · intro c hc
    obtain ⟨s, hs, hc⟩ := List.mem_flatMap.mp hc
    have hle := hin s hs
    have := ((slice_items host (by omega)).1 c hc).2
    omega
  · intro i _ hi
    obtain ⟨s, hs, h₁, h₂⟩ := hall i hi
    have hle := hin s hs
    obtain ⟨c, hc, hci⟩ := (slice_items host (by omega)).2 i h₁ h₂
    exact ⟨c, List.mem_flatMap.mpr ⟨s, hs, hc⟩, hci⟩

/-- **Every item**, and no other number: for any number of items of 32 bits, any number of
threads that is asked for, and any processor. By fives are all calls of a slice that has
five items. -/
theorem dataset_covered (host : Host) (n numThreads : UInt32) :
    (∀ c ∈ init host n.toUInt64 numThreads, c.startItem.toNat + c.itemCount.toNat ≤ n.toNat) ∧
      {i | ∃ c ∈ init host n.toUInt64 numThreads, i ∈ c.items} = {i | i < n.toNat} ∧
      (host.hasAVX2 → ∀ s ∈ slices n.toUInt64 numThreads, 5 ≤ s.2.toNat →
        ∀ c ∈ init_dataset_slice host s.1 s.2, c.itemCount.toNat % 5 = 0) := by
  have hn : n.toUInt64.toNat = n.toNat := UInt32.toNat_toUInt64 n
  obtain ⟨hin, hall⟩ := init_covers host (n := n.toUInt64) (hn ▸ n.toNat_lt) numThreads
  rw [hn] at hin hall
  refine ⟨fun c hc => (hin c hc).2, ?_, ?_⟩
  · ext i
    constructor
    · rintro ⟨c, hc, -, hlt⟩
      exact Nat.lt_of_lt_of_le hlt (hin c hc).2
    · exact fun hi => hall i (Nat.zero_le i) hi
  · intro hAVX2 s _ hs c hc
    unfold init_dataset_slice at hc
    split at hc
    · cases hc
    · exact alignedCalls_mod 5 hs c hc

/-- One item more than 32 bits can number: the one thread computes none. -/
theorem dataset_uncovered : ¬ ∀ (host : Host) (n : UInt64) (numThreads : UInt32),
    {i | ∃ c ∈ init host n numThreads, i ∈ c.items} = {i | i < n.toNat} := by
  intro h
  have hnone : init ⟨true, false⟩ 4294967296 1 = [] := by decide
  have hzero : 0 ∈ {i | i < (4294967296 : UInt64).toNat} := by
    show 0 < (4294967296 : UInt64).toNat
    decide
  rw [← h ⟨true, false⟩ 4294967296 1, hnone] at hzero
  obtain ⟨c, hc, -⟩ := hzero
  cases hc

/-- **What the machine reads is computed**, whatever the entropy of its program. -/
theorem read_covered (host : Host) (numThreads : UInt32) {V : Type}
    (v : VectorOps V) (entropy : Fin 16 → BitVec 64)
    (mem : MemoryRegisters) :
    ∃ c ∈ init host DatasetItemCount numThreads, (readPtr
      (initializeVm v entropy).datasetOffset mem).toNat /
        RANDOMX_DATASET_ITEM_SIZE ∈ c.items := by
  have hcount : DatasetItemCount.toNat = 34078719 := by decide
  have hfits := (readPtr_fits
    (initializeVm_offset v entropy) mem).2
  refine (init_covers host (by rw [hcount]; decide) numThreads).2 _ (Nat.zero_le _) ?_
  rw [hcount]
  unfold RANDOMX_DATASET_ITEM_SIZE DatasetBaseSize
    DatasetExtraSize at hfits
  unfold RANDOMX_DATASET_ITEM_SIZE
  omega

end Rxs.L2.DatasetSlices
