import Mathlib.Data.Finset.Max
import Rxs.Core.Arena

/-!
# The pool of network buffers

Sockets read into chunks of a pool. The pool gets its memory in blocks of `INIT_SIZE` chunks,
which are numbered through: chunk `i` is in block `i / INIT_SIZE`. Of each number it knows
whether it is free or at which pointer it is used.

The address of a block is part of the label: blocks do not overlap, and none is at zero.
A program that cannot get a block ends.

* `Inv`: what each number stands for, `inv_allocate`, `inv_deallocate`.
* `simulates`: the pool is an arena.
* **`mem_pool`**: runs in which only live pointers or null are given back.
* `mem_pool_fails`: with chunks of no bytes a number is lost.
-/
namespace Rxs.L2

open Rxs.Core

/-- The keys of `m_data` are the places in the list; an entry is where its bytes are.
mirrors src/base/net/tools/MemPool.h:87-89 -/
structure MemPool where
  m_used : Nat → Option Nat := fun _ => none
  m_data : List Nat := []
  m_free : Finset Nat := ∅

namespace MemPool

section Model

variable (CHUNK_SIZE INIT_SIZE : Nat)

/-- The bytes of a block, of the size that `CHUNK_SIZE * INIT_SIZE` has. -/
def block (data : Nat) : Region := ⟨data, CHUNK_SIZE * INIT_SIZE % 2 ^ 64⟩

def chunk (ptr : Nat) : Region := ⟨ptr, CHUNK_SIZE⟩

/-- mirrors src/base/net/tools/MemPool.h:76-84 -/
def resize (s : MemPool) (data : Nat) : MemPool :=
  let index := s.m_data.length
  { s with
    m_data := s.m_data ++ [data]
    m_free := (List.range INIT_SIZE).foldl
      (fun free i => insert ((index * INIT_SIZE + i) % 2 ^ 64) free) s.m_free }

/-- A new block, if there is one, is at `data`. Without a free number there is no first one.
mirrors src/base/net/tools/MemPool.h:45-60 -/
def allocate (s : MemPool) (data : Nat) : Option (Nat × MemPool) :=
  let s := if s.m_free = ∅ then s.resize INIT_SIZE data else s
  if h : s.m_free.Nonempty then
    let i := s.m_free.min' h
    let r := i / INIT_SIZE
    (s.m_data[r]?).map fun data =>
      let ptr := (data + (i - r * INIT_SIZE) * CHUNK_SIZE % 2 ^ 64) % 2 ^ 64
      (ptr, { s with
        m_used := if (s.m_used ptr).isSome then s.m_used else Function.update s.m_used ptr (some i)
        m_free := s.m_free.erase i })
  else none

/-- mirrors src/base/net/tools/MemPool.h:63-73 -/
def deallocate (s : MemPool) (ptr : Nat) : MemPool :=
  if ptr = 0 then s
  else
    { s with
      m_free := insert ((s.m_used ptr).getD 0) s.m_free
      m_used := Function.update s.m_used ptr none }

/-! ## Runs -/

inductive Event where
  | allocate (data : Nat)
  | deallocate (ptr : Nat)
  deriving DecidableEq, Repr

/-- Ghost: `live`, the pointers that were returned and are not given back. -/
structure State where
  pool : MemPool := {}
  live : List Nat := []

/-- Where a block can be, if one is needed. -/
def Fits (s : MemPool) (data : Nat) : Prop :=
  s.m_free = ∅ → 0 < data ∧ (block CHUNK_SIZE INIT_SIZE data).stop ≤ 2 ^ 64 ∧
    ∀ d ∈ s.m_data, (block CHUNK_SIZE INIT_SIZE d).Apart (block CHUNK_SIZE INIT_SIZE data)

instance (s : MemPool) (data : Nat) : Decidable (Fits CHUNK_SIZE INIT_SIZE s data) := by
  unfold Fits
  infer_instance

def step (s : State) : Event → Option State
  | .allocate data =>
    if Fits CHUNK_SIZE INIT_SIZE s.pool data then
      (s.pool.allocate CHUNK_SIZE INIT_SIZE data).map fun r => ⟨r.2, s.live ++ [r.1]⟩
    else none
  | .deallocate ptr =>
    if ptr = 0 ∨ ptr ∈ s.live then some ⟨s.pool.deallocate ptr, s.live.erase ptr⟩ else none

def lts : LTS State Event := LTS.ofFn {} (step CHUNK_SIZE INIT_SIZE)

/-- The blocks that are there and the chunks that are out. -/
def arena (s : State) : Arena where
  blocks := s.pool.m_data.map (block CHUNK_SIZE INIT_SIZE)
  live := s.live.map (chunk CHUNK_SIZE)

/-- A number is used at some pointer. -/
def Used (s : MemPool) (i : Nat) : Prop := ∃ ptr, s.m_used ptr = some i

/-- The numbers of all blocks are free or used, and none is both. -/
structure Partition (s : MemPool) : Prop where
  created : ∀ i, i < s.m_data.length * INIT_SIZE ↔ i ∈ s.m_free ∨ s.Used i
  disjoint : ∀ i ∈ s.m_free, ¬s.Used i
  once : ∀ p q i, s.m_used p = some i → s.m_used q = some i → p = q

end Model

variable {C I : Nat} {s : MemPool} {i j d e : Nat}

/-! ## Places -/

theorem block_size (hsize : C * I < 2 ^ 64) (d : Nat) : (block C I d).size = C * I :=
  Nat.mod_eq_of_lt hsize

/-- The chunk of a number is one of its block. -/
theorem chunk_inside_block (hI : 0 < I) (hsize : C * I < 2 ^ 64) (d i : Nat) :
    (chunk C (d + i % I * C)).Inside (block C I d) := by
  refine Region.chunk_inside (b := block C I d) (Nat.mod_lt i hI) ?_
  rw [block_size hsize, Nat.mul_comm]

theorem blocks_apart (h : Region.Separate (s.m_data.map (block C I))) {a b : Nat} (hab : a ≠ b)
    (ha : s.m_data[a]? = some d) (hb : s.m_data[b]? = some e) :
    (block C I d).Apart (block C I e) := by
  obtain ⟨ha', rfl⟩ := List.getElem?_eq_some_iff.mp ha
  obtain ⟨hb', rfl⟩ := List.getElem?_eq_some_iff.mp hb
  have hpair := List.pairwise_iff_getElem.mp (List.pairwise_map.mp h)
  rcases Nat.lt_or_gt_of_ne hab with hlt | hlt
  · exact hpair a b ha' hb' hlt
  · exact (hpair b a hb' ha' hlt).symm

/-- The chunks of two numbers do not overlap. -/
theorem places_apart (hI : 0 < I) (hsize : C * I < 2 ^ 64)
    (h : Region.Separate (s.m_data.map (block C I))) (hij : i ≠ j)
    (hi : s.m_data[i / I]? = some d) (hj : s.m_data[j / I]? = some e) :
    (chunk C (d + i % I * C)).Apart (chunk C (e + j % I * C)) := by
  by_cases hdiv : i / I = j / I
  · have hde : d = e := by
      rw [hdiv, hj] at hi
      exact (Option.some.inj hi).symm
    have hmod : i % I ≠ j % I := by
      intro hmod
      rw [← Nat.div_add_mod i I, ← Nat.div_add_mod j I, hdiv, hmod] at hij
      exact hij rfl
    rw [← hde]
    exact Region.chunk_apart (block C I d) C hmod
  · exact (blocks_apart h hdiv hi hj).mono (chunk_inside_block hI hsize d i)
      (chunk_inside_block hI hsize e j)

theorem not_apart (hC : 0 < C) (p : Nat) : ¬(chunk C p).Apart (chunk C p) := by
  unfold Region.Apart Region.stop chunk
  dsimp only
  omega

/-! ## The invariant -/

/-- Blocks do not overlap, every number is free or used, and a pointer is that of the number
it is used for. -/
structure Good (C I : Nat) (s : MemPool) : Prop where
  separate : Region.Separate (s.m_data.map (block C I))
  bounds : ∀ d ∈ s.m_data, 0 < d ∧ (block C I d).stop ≤ 2 ^ 64
  partition : Partition I s
  place : ∀ p i, s.m_used p = some i → ∃ d, s.m_data[i / I]? = some d ∧ p = d + i % I * C

/-- What is out is what is used. -/
structure Inv (C I : Nat) (s : State) : Prop where
  good : Good C I s.pool
  live : ∀ p, p ∈ s.live ↔ (s.pool.m_used p).isSome
  nodup : s.live.Nodup

theorem good_empty (C I : Nat) : Good C I {} where
  separate := .nil
  bounds d hd := by cases hd
  partition :=
    { created := fun i => by simp [Used]
      disjoint := fun i hi => by simp at hi
      once := fun p q i hp => by simp at hp }
  place p i hp := by simp at hp

/-- All blocks have room below the end of the address space. -/
theorem room (hsize : C * I < 2 ^ 64) {data : List Nat}
    (h : Region.Separate (data.map (block C I)))
    (hstop : ∀ d ∈ data, (block C I d).stop ≤ 2 ^ 64) : data.length * (C * I) ≤ 2 ^ 64 := by
  have hsum := h.sum_le (N := 2 ^ 64) fun r hr => by
    obtain ⟨d, hd, rfl⟩ := List.mem_map.mp hr
    exact hstop d hd
  have hmap : (data.map (block C I)).map Region.size =
      List.replicate data.length (C * I) := by
    rw [List.map_map, List.eq_replicate_iff]
    refine ⟨by simp, fun n hn => ?_⟩
    obtain ⟨d, -, rfl⟩ := List.mem_map.mp hn
    exact block_size hsize d
  rwa [hmap, List.sum_replicate_nat] at hsum

theorem mem_foldl_insert {l : List Nat} {g : Nat → Nat} {f : Finset Nat} {x : Nat} :
    x ∈ l.foldl (fun free i => insert (g i) free) f ↔ x ∈ f ∨ ∃ i ∈ l, g i = x := by
  induction l generalizing f with
  | nil => simp
  | cons a l ih =>
    rw [List.foldl_cons, ih, Finset.mem_insert]
    simp only [List.mem_cons, exists_eq_or_imp]
    tauto

/-- The numbers of a new block. -/
theorem mem_resize (hroom : (s.m_data.length + 1) * I ≤ 2 ^ 64) :
    i ∈ (s.resize I d).m_free ↔
      i ∈ s.m_free ∨ s.m_data.length * I ≤ i ∧ i < (s.m_data.length + 1) * I := by
  rw [resize, mem_foldl_insert]
  refine or_congr Iff.rfl ?_
  rw [Nat.succ_mul] at hroom ⊢
  constructor
  · rintro ⟨k, hk, rfl⟩
    rw [List.mem_range] at hk
    rw [Nat.mod_eq_of_lt (by omega)]
    omega
  · rintro ⟨hle, hlt⟩
    refine ⟨i - s.m_data.length * I, List.mem_range.mpr (by omega), ?_⟩
    rw [Nat.mod_eq_of_lt (by omega)]
    omega

/-! ## The operations -/

/-- A block that fits brings its numbers, all of them free. -/
theorem Good.resize (h : Good C I s) (hC : 0 < C) (hsize : C * I < 2 ^ 64)
    (hfree : s.m_free = ∅) (hfits : Fits C I s d) : Good C I (s.resize I d) := by
  obtain ⟨hpos, hstop, hapart⟩ := hfits hfree
  have hsep : Region.Separate ((s.m_data ++ [d]).map (block C I)) := by
    rw [List.map_append]
    refine h.separate.snoc fun r hr => ?_
    obtain ⟨e, he, rfl⟩ := List.mem_map.mp hr
    exact hapart e he
  have hbounds : ∀ e ∈ s.m_data ++ [d], 0 < e ∧ (block C I e).stop ≤ 2 ^ 64 := by
    intro e he
    rcases List.mem_append.mp he with he | he
    · exact h.bounds e he
    · rw [List.mem_singleton.mp he]
      exact ⟨hpos, hstop⟩
  have hroom : (s.m_data.length + 1) * I ≤ 2 ^ 64 := by
    have hle := room hsize hsep fun e he => (hbounds e he).2
    rw [List.length_append, List.length_singleton] at hle
    exact (Nat.mul_le_mul_left _ (Nat.le_mul_of_pos_left I hC)).trans hle
  have hmem : ∀ i, i ∈ (s.resize I d).m_free ↔
      s.m_data.length * I ≤ i ∧ i < (s.m_data.length + 1) * I := by
    intro i
    rw [mem_resize hroom, hfree]
    simp
  have hused : ∀ i, Used s i → i < s.m_data.length * I := fun i hi =>
    (h.partition.created i).mpr (.inr hi)
  refine ⟨hsep, hbounds, ⟨fun i => ?_, fun i hi hu => ?_, h.partition.once⟩, fun p i hp => ?_⟩
  · have hold := h.partition.created i
    rw [hfree] at hold
    rw [hmem]
    simp only [Finset.notMem_empty, false_or] at hold
    have hlen : (s.resize I d).m_data.length = s.m_data.length + 1 := List.length_append
    have hsame : Used (s.resize I d) i ↔ Used s i := Iff.rfl
    rw [hlen, hsame, ← hold, Nat.succ_mul]
    omega
  · have := hused i hu
    have := (hmem i).mp hi
    omega
  · obtain ⟨e, he, hpe⟩ := h.place p i hp
    exact ⟨e, List.getElem?_append_left (List.getElem?_eq_some_iff.mp he).1 ▸ he, hpe⟩

theorem Good.resize_nonempty (h : Good C I s) (hI : 0 < I)
    (hr : Good C I (s.resize I d)) : (s.resize I d).m_free.Nonempty := by
  have hlen : (s.resize I d).m_data.length = s.m_data.length + 1 := List.length_append
  have hcreated := (hr.partition.created (s.m_data.length * I)).mp (by
    rw [hlen, Nat.succ_mul]
    omega)
  rcases hcreated with hmem | hused
  · exact ⟨_, hmem⟩
  · have hlt := (h.partition.created (s.m_data.length * I)).mpr (.inr hused)
    omega

/-- The computation of a pointer does not come round. -/
theorem Good.ptr_eq (h : Good C I s) (hC : 0 < C) (hI : 0 < I) (hsize : C * I < 2 ^ 64)
    (hd : d ∈ s.m_data) (i : Nat) :
    (d + (i - i / I * I) * C % 2 ^ 64) % 2 ^ 64 = d + i % I * C := by
  have hmod : i - i / I * I = i % I := by
    rw [Nat.mod_eq_sub_div_mul]
  obtain ⟨-, hle⟩ := chunk_inside_block (C := C) hI hsize d i
  have hstop := (h.bounds d hd).2
  have hchunk : (chunk C (d + i % I * C)).stop = d + i % I * C + C := rfl
  rw [hmod, Nat.mod_eq_of_lt (a := i % I * C) (by omega), Nat.mod_eq_of_lt (by omega)]

/-- The pointer of a free number is not used. -/
theorem Good.fresh (h : Good C I s) (hC : 0 < C) (hI : 0 < I) (hsize : C * I < 2 ^ 64)
    (hi : i ∈ s.m_free) (hd : s.m_data[i / I]? = some d) : s.m_used (d + i % I * C) = none := by
  cases hu : s.m_used (d + i % I * C) with
  | none => rfl
  | some j =>
    obtain ⟨e, he, hp⟩ := h.place _ _ hu
    have hij : i ≠ j := fun hij =>
      h.partition.disjoint i hi ⟨_, hu.trans (congrArg some hij.symm)⟩
    have hapart := places_apart hI hsize h.separate hij hd he
    rw [← hp] at hapart
    exact absurd hapart (not_apart hC _)

/-- What `allocate` does: from a pool that may have a new block, a free number goes to the
pointer of its chunk. -/
theorem allocate_spec (h : Good C I s) (hC : 0 < C) (hI : 0 < I) (hsize : C * I < 2 ^ 64)
    (hfits : Fits C I s d) : ∃ t new i e, Good C I t ∧
      t.m_data = s.m_data ++ new ∧ t.m_used = s.m_used ∧
      i ∈ t.m_free ∧ t.m_data[i / I]? = some e ∧
      s.allocate C I d = some (e + i % I * C,
        { t with
          m_used := Function.update t.m_used (e + i % I * C) (some i)
          m_free := t.m_free.erase i }) := by
  obtain ⟨t, ht, ⟨new, hnew⟩, hsame, hif, hne⟩ : ∃ t, Good C I t ∧
      (∃ new, t.m_data = s.m_data ++ new) ∧ t.m_used = s.m_used ∧
      (if s.m_free = ∅ then s.resize I d else s) = t ∧ t.m_free.Nonempty := by
    by_cases hfree : s.m_free = ∅
    · have hgood := h.resize hC hsize hfree hfits
      exact ⟨_, hgood, ⟨[d], rfl⟩, rfl, if_pos hfree, h.resize_nonempty hI hgood⟩
    · exact ⟨s, h, ⟨[], (List.append_nil _).symm⟩, rfl, if_neg hfree,
        Finset.nonempty_iff_ne_empty.mpr hfree⟩
  have hmem := t.m_free.min'_mem hne
  have hlt := (ht.partition.created _).mpr (.inl hmem)
  have hdiv : t.m_free.min' hne / I < t.m_data.length :=
    Nat.div_lt_of_lt_mul (by rwa [Nat.mul_comm])
  have hdata := List.getElem?_eq_getElem hdiv
  refine ⟨t, new, _, _, ht, hnew, hsame, hmem, hdata, ?_⟩
  rw [allocate, hif, dif_pos hne]
  dsimp only
  rw [hdata, Option.map_some, ht.ptr_eq hC hI hsize (List.getElem_mem hdiv),
    ht.fresh hC hI hsize hmem hdata]
  rfl

/-- A free number is used at its pointer. -/
theorem Good.take (h : Good C I s) (hi : i ∈ s.m_free) (hd : s.m_data[i / I]? = some d)
    (hnone : s.m_used (d + i % I * C) = none) :
    Good C I { s with
      m_used := Function.update s.m_used (d + i % I * C) (some i)
      m_free := s.m_free.erase i } := by
  have hused : ∀ q j, Function.update s.m_used (d + i % I * C) (some i) q = some j ↔
      q = d + i % I * C ∧ j = i ∨ s.m_used q = some j := by
    intro q j
    by_cases hq : q = d + i % I * C
    · rw [hq, Function.update_self, hnone]
      simp [eq_comm]
    · rw [Function.update_of_ne hq]
      simp [hq]
  refine ⟨h.separate, h.bounds, ⟨fun j => ?_, fun j hj hu => ?_, fun p q j hp hq => ?_⟩,
    fun p j hp => ?_⟩
  · rw [h.partition.created j]
    simp only [Used, hused, Finset.mem_erase]
    by_cases hj : j = i
    · subst hj
      simp [hi]
    · simp [hj]
  · obtain ⟨q, hq⟩ := hu
    obtain ⟨hne, hmem⟩ := Finset.mem_erase.mp hj
    rcases (hused q j).mp hq with ⟨-, heq⟩ | hq
    · exact hne heq
    · exact h.partition.disjoint j hmem ⟨q, hq⟩
  · have hfree := h.partition.disjoint i hi
    rcases (hused p j).mp hp with ⟨hp', rfl⟩ | hp'
    · rcases (hused q j).mp hq with ⟨hq', -⟩ | hq'
      · rw [hp', hq']
      · exact absurd ⟨q, hq'⟩ hfree
    · rcases (hused q j).mp hq with ⟨-, rfl⟩ | hq'
      · exact absurd ⟨p, hp'⟩ hfree
      · exact h.partition.once p q j hp' hq'
  · rcases (hused p j).mp hp with ⟨rfl, rfl⟩ | hp'
    · exact ⟨d, hd, rfl⟩
    · exact h.place p j hp'

/-- The number of a pointer becomes free. -/
theorem Good.deallocate (h : Good C I s) {p : Nat} (hp : s.m_used p = some i) :
    Good C I { s with
      m_free := insert i s.m_free
      m_used := Function.update s.m_used p none } := by
  have hused : ∀ q j, Function.update s.m_used p none q = some j ↔
      q ≠ p ∧ s.m_used q = some j := by
    intro q j
    by_cases hq : q = p
    · rw [hq, Function.update_self]
      simp
    · rw [Function.update_of_ne hq]
      simp [hq]
  refine ⟨h.separate, h.bounds, ⟨fun j => ?_, fun j hj hu => ?_, fun q q' j hq hq' => ?_⟩,
    fun q j hq => h.place q j ((hused q j).mp hq).2⟩
  · rw [h.partition.created j]
    simp only [Used, hused, Finset.mem_insert]
    constructor
    · rintro (hj | ⟨q, hq⟩)
      · exact .inl (.inr hj)
      · by_cases hqp : q = p
        · rw [hqp, hp] at hq
          exact .inl (.inl (Option.some.inj hq).symm)
        · exact .inr ⟨q, hqp, hq⟩
    · rintro ((rfl | hj) | ⟨q, -, hq⟩)
      · exact .inr ⟨p, hp⟩
      · exact .inl hj
      · exact .inr ⟨q, hq⟩
  · obtain ⟨q, hq⟩ := hu
    obtain ⟨hne, hold⟩ := (hused q j).mp hq
    rcases Finset.mem_insert.mp hj with rfl | hj
    · exact hne (h.partition.once q p j hold hp)
    · exact h.partition.disjoint j hj ⟨q, hold⟩
  · exact h.partition.once q q' j ((hused q j).mp hq).2 ((hused q' j).mp hq').2

/-! ## The result -/

variable {st st' : State}

/-- A pointer that is out and the chunk of a free number. -/
theorem Good.live_apart (h : Good C I s) (hI : 0 < I) (hsize : C * I < 2 ^ 64) {p : Nat}
    (hp : (s.m_used p).isSome) (hi : i ∈ s.m_free) (hd : s.m_data[i / I]? = some d) :
    (chunk C p).Apart (chunk C (d + i % I * C)) := by
  obtain ⟨j, hj⟩ := Option.isSome_iff_exists.mp hp
  obtain ⟨e, he, rfl⟩ := h.place p j hj
  have hij : j ≠ i := fun hij => h.partition.disjoint i hi ⟨_, hij ▸ hj⟩
  exact places_apart hI hsize h.separate hij he hd

theorem step_allocate (h : Good C I st.pool) (hC : 0 < C) (hI : 0 < I) (hsize : C * I < 2 ^ 64)
    (hs : step C I st (.allocate d) = some st') : ∃ t new i e, Good C I t ∧
      t.m_data = st.pool.m_data ++ new ∧ t.m_used = st.pool.m_used ∧
      i ∈ t.m_free ∧ t.m_data[i / I]? = some e ∧
      st' = ⟨{ t with
        m_used := Function.update t.m_used (e + i % I * C) (some i)
        m_free := t.m_free.erase i }, st.live ++ [e + i % I * C]⟩ := by
  rw [step] at hs
  split at hs
  case isFalse => cases hs
  case isTrue hfits =>
    obtain ⟨t, new, i, e, ht, hnew, hsame, hi, he, heq⟩ := allocate_spec h hC hI hsize hfits
    rw [heq] at hs
    exact ⟨t, new, i, e, ht, hnew, hsame, hi, he, (Option.some.inj hs).symm⟩

theorem inv_allocate (h : Inv C I st) (hC : 0 < C) (hI : 0 < I) (hsize : C * I < 2 ^ 64)
    (hs : step C I st (.allocate d) = some st') : Inv C I st' := by
  obtain ⟨t, new, i, e, ht, -, hsame, hi, he, rfl⟩ := step_allocate h.good hC hI hsize hs
  have hfresh := ht.fresh hC hI hsize hi he
  refine ⟨ht.take hi he hfresh, fun p => ?_, ?_⟩
  · dsimp only
    rw [List.mem_append, List.mem_singleton, h.live, ← hsame]
    by_cases hp : p = e + i % I * C
    · rw [hp, Function.update_self]
      simp
    · rw [Function.update_of_ne hp]
      simp [hp]
  · refine List.nodup_append.mpr ⟨h.nodup, List.nodup_singleton _, fun p hp q hq => ?_⟩
    rintro rfl
    rw [h.live, ← hsame, List.mem_singleton.mp hq, hfresh] at hp
    cases hp

theorem step_deallocate {p : Nat} (hs : step C I st (.deallocate p) = some st') :
    (p = 0 ∨ p ∈ st.live) ∧ st' = ⟨st.pool.deallocate p, st.live.erase p⟩ := by
  rw [step] at hs
  split at hs
  case isFalse => cases hs
  case isTrue hlive => exact ⟨hlive, (Option.some.inj hs).symm⟩

/-- No chunk is at null. -/
theorem Inv.zero_notMem (h : Inv C I st) : 0 ∉ st.live := by
  intro h0
  obtain ⟨i, hi⟩ := Option.isSome_iff_exists.mp ((h.live 0).mp h0)
  obtain ⟨d, hd, hzero⟩ := h.good.place 0 i hi
  have := (h.good.bounds d (List.mem_of_getElem? hd)).1
  omega

theorem inv_deallocate (h : Inv C I st) {p : Nat}
    (hs : step C I st (.deallocate p) = some st') : Inv C I st' := by
  obtain ⟨hlive, rfl⟩ := step_deallocate hs
  by_cases hp : p = 0
  · have hsame : st.pool.deallocate p = st.pool := if_pos hp
    have hnot : p ∉ st.live := hp ▸ h.zero_notMem
    rw [hsame, List.erase_of_not_mem hnot]
    exact h
  · obtain ⟨i, hi⟩ := Option.isSome_iff_exists.mp ((h.live p).mp (hlive.resolve_left hp))
    have hd : st.pool.deallocate p = { st.pool with
        m_free := insert i st.pool.m_free
        m_used := Function.update st.pool.m_used p none } := by
      rw [deallocate, if_neg hp, hi]
      rfl
    rw [hd]
    refine ⟨h.good.deallocate hi, fun q => ?_, h.nodup.erase p⟩
    dsimp only
    rw [h.nodup.mem_erase_iff, h.live]
    by_cases hq : q = p
    · rw [hq, Function.update_self]
      simp
    · rw [Function.update_of_ne hq]
      simp [hq]

theorem inv_inductive (hC : 0 < C) (hI : 0 < I) (hsize : C * I < 2 ^ 64) :
    (lts C I).Inductive (Inv C I) where
  init st hst := by
    obtain rfl : st = {} := hst
    exact ⟨good_empty C I, fun p => by simp, .nil⟩
  step st l st' h hs := by
    cases l with
    | allocate d => exact inv_allocate h hC hI hsize hs
    | deallocate p => exact inv_deallocate h hs

/-- **The pool is an arena.** -/
theorem simulates (hC : 0 < C) (hI : 0 < I) (hsize : C * I < 2 ^ 64)
    (h : (lts C I).Reachable st) : Arena.lts.Reachable (arena C I st) := by
  refine (inv_inductive hC hI hsize).simulates (f := arena C I) ?_ ?_ h
  · rintro st rfl
    rfl
  · intro st l st' hinv hs
    refine .inr ⟨(), ?_⟩
    cases l with
    | allocate d =>
      obtain ⟨t, new, i, e, ht, hnew, hsame, hi, he, rfl⟩ :=
        step_allocate hinv.good hC hI hsize hs
      have hmap : t.m_data.map (block C I) =
          (arena C I st).blocks ++ new.map (block C I) := by
        rw [hnew, List.map_append]
        rfl
      have harena : arena C I ⟨{ t with
            m_used := Function.update t.m_used (e + i % I * C) (some i)
            m_free := t.m_free.erase i }, st.live ++ [e + i % I * C]⟩ =
          { blocks := (arena C I st).blocks ++ new.map (block C I)
            live := (arena C I st).live ++ [chunk C (e + i % I * C)] } := by
        simp only [arena, hnew, List.map_append, List.map_singleton]
      rw [harena]
      refine .give _ (b := block C I e) ?_ ?_ (chunk_inside_block hI hsize e i) ?_
      · rw [← hmap]
        exact ht.separate
      · rw [← hmap]
        exact List.mem_map_of_mem (List.mem_of_getElem? he)
      · intro r hr
        obtain ⟨p, hp, rfl⟩ := List.mem_map.mp hr
        exact ht.live_apart hI hsize (hsame ▸ (hinv.live p).mp hp) hi he
    | deallocate p =>
      obtain ⟨-, rfl⟩ := step_deallocate hs
      have harena : arena C I ⟨st.pool.deallocate p, st.live.erase p⟩ =
          { arena C I st with live := (st.live.erase p).map (chunk C) } := by
        have hdata : (st.pool.deallocate p).m_data = st.pool.m_data := by
          unfold deallocate
          split <;> rfl
        simp only [arena, hdata]
      rw [harena]
      exact .back _ (List.erase_sublist.map _)

/-- **The pool.** In any run in which only live pointers or null are given back: no live
chunks overlap and each is in one block, the numbers of all blocks are free or used, the
pointers in use are the live ones, and the next chunk is in a block and apart from all live
ones. -/
theorem mem_pool (hC : 0 < C) (hI : 0 < I) (hsize : C * I < 2 ^ 64)
    (h : (lts C I).Reachable st) :
    (arena C I st).Sound ∧ Partition I st.pool ∧
    (∀ p, p ∈ st.live ↔ (st.pool.m_used p).isSome) ∧
    ∀ data, Fits C I st.pool data → ∃ ptr pool, st.pool.allocate C I data = some (ptr, pool) ∧
      (∃ d ∈ pool.m_data, (chunk C ptr).Inside (block C I d)) ∧
      ∀ p ∈ st.live, (chunk C p).Apart (chunk C ptr) := by
  have hinv := (inv_inductive hC hI hsize).reachable h
  refine ⟨Arena.sound (simulates hC hI hsize h), hinv.good.partition, hinv.live, ?_⟩
  intro data hfits
  obtain ⟨t, new, i, d, ht, -, hsame, hi, hd, heq⟩ :=
    allocate_spec hinv.good hC hI hsize hfits
  refine ⟨_, _, heq, ⟨d, List.mem_of_getElem? hd, chunk_inside_block hI hsize d i⟩, ?_⟩
  intro p hp
  exact ht.live_apart hI hsize (hsame ▸ (hinv.live p).mp hp) hi hd

/-- The pool of the sockets, after two reads. -/
theorem mem_pool_sockets : ∃ st, (lts 65536 4).Reachable st ∧ st.live = [4096, 69632] ∧
    (arena 65536 4 st).Sound ∧ Partition 4 st.pool := by
  have hrun : (LTS.exec (step 65536 4) {} [.allocate 4096, .allocate 0]).map (·.live) =
      some [4096, 69632] := by decide +kernel
  obtain ⟨st, hst, hlive⟩ := Option.map_eq_some_iff.mp hrun
  have h : (lts 65536 4).Reachable st := LTS.reachable_of_exec hst
  obtain ⟨hsound, hpart, -⟩ := mem_pool (by decide) (by decide) (by decide) h
  exact ⟨st, h, hlive, hsound, hpart⟩

/-- With chunks of no bytes the second chunk is where the first is, and its number is
neither free nor used. -/
theorem mem_pool_fails : ∃ st, (lts 0 4).Reachable st ∧ ¬Partition 4 st.pool := by
  have hrun : (LTS.exec (step 0 4) {} [.allocate 4096, .allocate 0]).map
      (fun st => (st.pool.m_data, st.pool.m_free)) = some ([4096], {2, 3}) := by decide +kernel
  have hused : (LTS.exec (step 0 4) {} [.allocate 4096, .allocate 0]).map (·.pool.m_used) =
      some (Function.update (fun _ => none) 4096 (some 0)) := rfl
  obtain ⟨st, hst, hpool⟩ := Option.map_eq_some_iff.mp hrun
  obtain ⟨hdata, hfree⟩ := Prod.mk.inj hpool
  rw [hst, Option.map_some, Option.some.injEq] at hused
  refine ⟨st, LTS.reachable_of_exec hst, fun hp => ?_⟩
  rcases (hp.created 1).mp (by rw [hdata]; decide) with hmem | ⟨p, hp⟩
  · rw [hfree] at hmem
    exact absurd hmem (by decide)
  · rw [hused] at hp
    by_cases h : p = 4096
    · rw [h, Function.update_self] at hp
      cases hp
    · rw [Function.update_of_ne h] at hp
      cases hp

end MemPool

end Rxs.L2
