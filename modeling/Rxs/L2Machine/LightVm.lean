import Rxs.L2Machine.DatasetInit
import Rxs.L2Machine.DatasetSlices

/-!
# The machine with no dataset

`InterpretedLightVm` has the cache only: where the machine reads an item of the dataset, it
computes it. With a dataset, threads have written the items before, each a slice of them, and
some items are written by two.

* `load64_writes`: writes that agree can be made in any order.
* `init_writes`: what the threads of `init` write.
* `dataset_holds`: the words behind it.
* **`light_eq_full`**: both machines run any program in the same way.
-/
namespace Rxs.L2.LightVm

open Rxs.RandomX Rxs.RandomX.BytecodeMachine Rxs.RandomX.InterpretedVm
open Rxs.RandomX.Superscalar (Words CacheAccesses CacheLineSize SuperscalarProgram SafeProgram
  initDatasetItem mixFrom_isSome)
open Rxs.L2.DatasetInit (Produced)
open Rxs.L2.DatasetSlices (Call Host init init_covers DatasetItemCount)

/-! ## Writes -/

/-- A word of memory is written. -/
structure Write where
  addr : Nat
  word : BitVec 64

namespace Write

def apply (m : Memory) (w : Write) : Memory := store64 m w.addr w.word

end Write

/-- The word that is written at an address is the one of `value`. -/
def Agree (value : Nat → BitVec 64) (ws : List Write) : Prop :=
  ∀ w ∈ ws, w.addr % 8 = 0 ∧ w.word = value w.addr

theorem byte_writes {value : Nat → BitVec 64} {ws : List Write} (h : Agree value ws) (m : Memory)
    (a : Nat) : ws.foldl Write.apply m a =
      if a / 8 * 8 ∈ ws.map Write.addr then (value (a / 8 * 8)).extractLsb' (8 * (a % 8)) 8
      else m a := by
  induction ws generalizing m with
  | nil => simp
  | cons w ws ih =>
    obtain ⟨hmod, hword⟩ := h w List.mem_cons_self
    rw [List.foldl_cons, ih (fun w hw => h w (List.mem_cons_of_mem _ hw)), List.map_cons]
    by_cases hlater : a / 8 * 8 ∈ ws.map Write.addr
    · rw [if_pos hlater, if_pos (List.mem_cons_of_mem _ hlater)]
    · rw [if_neg hlater, Write.apply, store64]
      by_cases hin : w.addr ≤ a ∧ a < w.addr + 8
      · have haddr : a / 8 * 8 = w.addr := by omega
        have hbyte : a - w.addr = a % 8 := by omega
        rw [if_pos hin, if_pos (haddr ▸ List.mem_cons_self), haddr, hbyte, hword]
      · rw [if_neg hin, if_neg]
        intro hmem
        rcases List.mem_cons.mp hmem with haddr | hmem
        · omega
        · exact hlater hmem

/-- A word is its eight bytes. -/
theorem load64_bytes {m : Memory} {a : Nat} {v : BitVec 64}
    (h : ∀ i < 8, m (a + i) = v.extractLsb' (8 * i) 8) : load64 m a = v := by
  have glue (k n : Nat) : v.extractLsb' (8 * (k + 1)) n ++ v.extractLsb' (8 * k) 8 =
      v.extractLsb' (8 * k) (n + 8) := BitVec.extractLsb'_append_extractLsb'_eq_extractLsb' (by omega)
  have h0 := h 0 (by decide)
  rw [Nat.add_zero] at h0
  rw [load64, h 7 (by decide), h 6 (by decide), h 5 (by decide), h 4 (by decide), h 3 (by decide),
    h 2 (by decide), h 1 (by decide), h0, glue 6, glue 5, glue 4, glue 3, glue 2, glue 1, glue 0]
  exact BitVec.extractLsb'_eq_self

theorem load64_writes {value : Nat → BitVec 64} {ws : List Write} (h : Agree value ws) (m : Memory)
    {w : Write} (hw : w ∈ ws) : load64 (ws.foldl Write.apply m) w.addr = value w.addr := by
  have hmod := (h w hw).1
  refine load64_bytes fun i hi => ?_
  have haddr : (w.addr + i) / 8 * 8 = w.addr := by omega
  have hbyte : (w.addr + i) % 8 = i := by omega
  rw [byte_writes h, haddr, hbyte, if_pos (List.mem_map_of_mem hw)]

/-! ## The dataset -/

/-- `randomx_cache`: the bytes that are at `memory`, and the programs. -/
structure Cache where
  bytes : BitVec 64 → BitVec 8
  memory : BitVec 64
  programs : Fin CacheAccesses → SuperscalarProgram

namespace Cache

def item (cache : Cache) (itemNumber : BitVec 64) : Option Words :=
  initDatasetItem cache.bytes cache.memory cache.programs itemNumber

end Cache

/-- `memcpy(out, &rl, CacheLineSize)` -/
def itemWrites (out : Nat) (rl : Words) : List Write :=
  (List.finRange 8).map fun q => ⟨out + 8 * q.val, rl q⟩

/-- So many items from `itemNumber` on.
mirrors src/crypto/randomx/dataset.cpp:161-164 -/
def initDataset (cache : Cache) : Nat → Nat → Nat → Option (List Write)
  | 0, _, _ => some []
  | items + 1, dataset, itemNumber => do
    let rl ← cache.item (BitVec.ofNat 64 itemNumber)
    let ws ← initDataset cache items (dataset + CacheLineSize) (itemNumber + 1)
    return itemWrites dataset rl ++ ws

/-- The addresses are those of the dataset's own memory.
mirrors src/crypto/randomx/randomx.cpp:466-473 -/
def randomx_init_dataset (cache : Cache) (c : Call) : Option (List Write) :=
  initDataset cache c.itemCount.toNat (c.startItem.toNat * CacheLineSize) c.startItem.toNat

def randomx_init_datasets (cache : Cache) : List Call → Option (List Write)
  | [] => some []
  | c :: calls => do
    let ws ← randomx_init_dataset cache c
    let ws' ← randomx_init_datasets cache calls
    return ws ++ ws'

/-- What the threads write, one behind the other.
mirrors src/crypto/rx/RxDataset.cpp:166-219 -/
def initWrites (cache : Cache) (host : Host) (numThreads : UInt32) : Option (List Write) :=
  randomx_init_datasets cache (init host DatasetItemCount numThreads)

/-! ## The machines -/

variable {V : Type}

/-- mirrors src/crypto/randomx/vm_interpreted.cpp:114-119 -/
def fullRead (dataset : Memory) (address : BitVec 64) (s : Native V) :
    InterpretedVm.Run (Native V) := do
  InterpretedVm.item address.toNat
  return datasetRead dataset s address.toNat

/-- mirrors src/crypto/randomx/vm_interpreted_light.cpp:40-48 -/
def lightRead (cache : Cache) (address : BitVec 64) (s : Native V) : InterpretedVm.Run (Native V) :=
  let itemNumber : BitVec 32 := (address / BitVec.ofNat 64 CacheLineSize).setWidth 32
  match cache.item (itemNumber.setWidth 64) with
  | none => .error .unreachable
  | some rl => .ok { s with r := fun q => s.r q ^^^ rl q }

/-- `datasetRead` is virtual.
mirrors src/crypto/randomx/vm_interpreted.cpp:62-100 -/
def iteration (read : BitVec 64 → Native V → InterpretedVm.Run (Native V)) (c : Configuration)
    (v : VectorOps V) (config : ProgramConfiguration) (datasetOffset : BitVec 64)
    (bytecode : List InstructionByteCode) (fuel : Nat) (st : State V) :
    InterpretedVm.Run (State V) := do
  let ops := v.ops config.eMask
  let spMix := st.nreg.r config.readReg0 ^^^ st.nreg.r config.readReg1
  let spAddr0 := (st.spAddr0 ^^^ spMix.setWidth 32) &&& c.ScratchpadL3Mask64
  let spAddr1 := (st.spAddr1 ^^^ (spMix >>> 32).setWidth 32) &&& c.ScratchpadL3Mask64
  access c spAddr0.toNat 64
  let s := mixIntegers st.nreg spAddr0.toNat
  access c spAddr1.toNat 64
  let s ← InterpretedVm.executeBytecode c ops bytecode fuel ⟨0, loadFloats ops s spAddr1.toNat⟩
  let readPtr := readPtr datasetOffset st.mem
  let mem := nextMem c st.mem (s.r config.readReg2 ^^^ s.r config.readReg3)
  let s ← read readPtr s
  access c spAddr1.toNat 64
  let s := storeIntegers s spAddr1.toNat
  access c spAddr0.toNat 64
  let s := storeFloats v s spAddr0.toNat
  return ⟨s, mem, 0, 0⟩

def iterations (read : BitVec 64 → Native V → InterpretedVm.Run (Native V)) (c : Configuration)
    (v : VectorOps V) (config : ProgramConfiguration) (datasetOffset : BitVec 64)
    (bytecode : List InstructionByteCode) (fuel : Nat) :
    Nat → State V → InterpretedVm.Run (State V)
  | 0, st => .ok st
  | ic + 1, st => do
    let st ← iteration read c v config datasetOffset bytecode fuel st
    iterations read c v config datasetOffset bytecode fuel ic st

/-- The machine with the cache only.
mirrors src/crypto/randomx/vm_interpreted.cpp:49-100 -/
def execute (c : Configuration) (v : VectorOps V) (cache : Cache) (program : List Instruction)
    (vm : InterpretedVm.Vm V) (nreg : Native V) (ProgramIterations fuel : Nat) :
    InterpretedVm.Run (State V) :=
  let nreg := { nreg with r := fun _ => 0, a := vm.a }
  match compileProgram c program with
  | none => .error .unreachable
  | some bytecode =>
    iterations (lightRead cache) c v vm.config vm.datasetOffset bytecode fuel ProgramIterations
      ⟨nreg, vm.mem, vm.mem.mx, vm.mem.ma⟩

/-! ## What is written -/

/-- The word of the dataset at an address. -/
def word (cache : Cache) (a : Nat) : BitVec 64 :=
  match cache.item (BitVec.ofNat 64 (a / 64)) with
  | none => 0
  | some rl => rl (Fin.ofNat 8 (a % 64 / 8))

theorem item_eq {cache : Cache} (h : ∀ j, Produced (cache.programs j)) (itemNumber : Nat) :
    cache.item (BitVec.ofNat 64 itemNumber) =
      some fun q => word cache (64 * itemNumber + 8 * q.val) := by
  have hsafe : ∀ prog ∈ List.ofFn cache.programs, SafeProgram prog := by
    intro prog hprog
    obtain ⟨j, rfl⟩ := List.mem_ofFn.mp hprog
    exact (h j).spec.1
  obtain ⟨rl, hrl⟩ := mixFrom_isSome hsafe cache.bytes cache.memory (BitVec.ofNat 64 itemNumber)
    (Superscalar.initial (BitVec.ofNat 64 itemNumber))
  have hitem : cache.item (BitVec.ofNat 64 itemNumber) = some rl := hrl
  rw [hitem]
  congr 1
  funext q
  have hq := q.isLt
  have hdiv : (64 * itemNumber + 8 * q.val) / 64 = itemNumber := by omega
  have hmod : (64 * itemNumber + 8 * q.val) % 64 / 8 = q.val := by omega
  rw [word, hdiv, hitem, hmod]
  exact congrArg rl (Fin.ext (Nat.mod_eq_of_lt hq).symm)

/-- Writes of items, all of them below `last`. -/
structure Writes (cache : Cache) (ws : List Write) (items : Set Nat) : Prop where
  agree : Agree (word cache) ws
  all : ∀ i ∈ items, ∀ q : Reg, ∃ w ∈ ws, w.addr = 64 * i + 8 * q.val

theorem Writes.append {cache : Cache} {ws ws' : List Write} {s t : Set Nat}
    (h : Writes cache ws s) (h' : Writes cache ws' t) : Writes cache (ws ++ ws') (s ∪ t) := by
  constructor
  · intro w hw
    rcases List.mem_append.mp hw with hw | hw
    · exact h.agree w hw
    · exact h'.agree w hw
  · intro i hi q
    rcases hi with hi | hi
    · obtain ⟨w, hw, hq⟩ := h.all i hi q
      exact ⟨w, List.mem_append_left _ hw, hq⟩
    · obtain ⟨w, hw, hq⟩ := h'.all i hi q
      exact ⟨w, List.mem_append_right _ hw, hq⟩

theorem writes_item (cache : Cache) (i : Nat) :
    Writes cache (itemWrites (i * CacheLineSize) fun q => word cache (64 * i + 8 * q.val)) {i} := by
  constructor
  · intro w hw
    obtain ⟨q, -, rfl⟩ := List.mem_map.mp hw
    have haddr : i * CacheLineSize + 8 * q.val = 64 * i + 8 * q.val := by
      rw [CacheLineSize, Nat.mul_comm]
    refine ⟨?_, by simp only [haddr]⟩
    simp only [haddr]
    omega
  · intro j hj q
    obtain rfl := hj
    refine ⟨_, List.mem_map_of_mem (List.mem_finRange q), ?_⟩
    simp only [CacheLineSize, Nat.mul_comm]

theorem writes_initDataset {cache : Cache} (h : ∀ j, Produced (cache.programs j)) (items i : Nat) :
    ∃ ws, initDataset cache items (i * CacheLineSize) i = some ws ∧
      Writes cache ws {j | i ≤ j ∧ j < i + items} := by
  induction items generalizing i with
  | zero =>
    refine ⟨[], rfl, List.forall_mem_nil _, fun j hj => ?_⟩
    exact absurd hj.2 (Nat.not_lt.mpr hj.1)
  | succ items ih =>
    obtain ⟨ws, hws, hall⟩ := ih (i + 1)
    rw [Nat.succ_mul] at hws
    refine ⟨itemWrites (i * CacheLineSize) (fun q => word cache (64 * i + 8 * q.val)) ++ ws,
      by simp [initDataset, item_eq h, hws], ?_⟩
    have hset : {j | i ≤ j ∧ j < i + (items + 1)} = {i} ∪ {j | i + 1 ≤ j ∧ j < i + 1 + items} := by
      ext j
      simp only [Set.mem_ofPred_eq, Set.mem_union, Set.mem_singleton_iff]
      omega
    rw [hset]
    exact (writes_item cache i).append hall

theorem writes_calls {cache : Cache} (h : ∀ j, Produced (cache.programs j)) (calls : List Call) :
    ∃ ws, randomx_init_datasets cache calls = some ws ∧
      Writes cache ws {i | ∃ c ∈ calls, i ∈ c.items} := by
  induction calls with
  | nil =>
    refine ⟨[], rfl, List.forall_mem_nil _, fun i hi => ?_⟩
    obtain ⟨c, hc, -⟩ := hi
    cases hc
  | cons c calls ih =>
    obtain ⟨ws', hws', hall'⟩ := ih
    obtain ⟨ws, hws, hall⟩ := writes_initDataset h c.itemCount.toNat c.startItem.toNat
    refine ⟨ws ++ ws', by simp [randomx_init_datasets, randomx_init_dataset, hws, hws'], ?_⟩
    have hset : {i | ∃ d ∈ c :: calls, i ∈ d.items} =
        c.items ∪ {i | ∃ d ∈ calls, i ∈ d.items} := by
      ext i
      simp
    rw [hset]
    exact hall.append hall'

/-- **What the threads write** is each item that a machine can read. -/
theorem init_writes {cache : Cache} (h : ∀ j, Produced (cache.programs j)) (host : Host)
    (numThreads : UInt32) : ∃ ws, initWrites cache host numThreads = some ws ∧
      Writes cache ws {i | i < DatasetItemCount.toNat} := by
  obtain ⟨ws, hws, hall⟩ := writes_calls h (init host DatasetItemCount numThreads)
  refine ⟨ws, hws, hall.agree, fun i hi => hall.all i ?_⟩
  have hcount : DatasetItemCount.toNat < 2 ^ 32 := by decide
  exact (init_covers host hcount numThreads).2 i (Nat.zero_le i) hi

theorem Writes.perm {cache : Cache} {ws ws' : List Write} {s : Set Nat} (h : Writes cache ws s)
    (hp : ws'.Perm ws) : Writes cache ws' s := by
  constructor
  · exact fun w hw => h.agree w (hp.mem_iff.mp hw)
  · intro i hi q
    obtain ⟨w, hw, hq⟩ := h.all i hi q
    exact ⟨w, hp.mem_iff.mpr hw, hq⟩

theorem Writes.load64_eq {cache : Cache} {ws : List Write} {s : Set Nat} (h : Writes cache ws s)
    (m : Memory) {i : Nat} (hi : i ∈ s) (q : Reg) :
    load64 (ws.foldl Write.apply m) (64 * i + 8 * q.val) = word cache (64 * i + 8 * q.val) := by
  obtain ⟨w, hw, hq⟩ := h.all i hi q
  rw [← hq]
  exact load64_writes h.agree m hw

/-! ## Both machines -/

theorem iteration_full (dataset : Memory) (c : Configuration) (v : VectorOps V)
    (config : ProgramConfiguration) (datasetOffset : BitVec 64)
    (bytecode : List InstructionByteCode) (fuel : Nat) (st : State V) :
    InterpretedVm.iteration c v dataset config datasetOffset bytecode fuel st =
      iteration (fullRead dataset) c v config datasetOffset bytecode fuel st := by
  simp only [InterpretedVm.iteration, iteration, fullRead, bind_assoc, pure_bind]

/-- An iteration reads one item. -/
theorem iteration_congr {read read' : BitVec 64 → Native V → InterpretedVm.Run (Native V)}
    {datasetOffset : BitVec 64}
    (h : ∀ mem s, read (readPtr datasetOffset mem) s = read' (readPtr datasetOffset mem) s)
    (c : Configuration) (v : VectorOps V) (config : ProgramConfiguration)
    (bytecode : List InstructionByteCode) (fuel : Nat) (st : State V) :
    iteration read c v config datasetOffset bytecode fuel st =
      iteration read' c v config datasetOffset bytecode fuel st := by
  simp only [iteration, h]

theorem iterations_eq {dataset : Memory} {cache : Cache} {datasetOffset : BitVec 64}
    (h : ∀ mem (s : Native V), fullRead dataset (readPtr datasetOffset mem) s =
      lightRead cache (readPtr datasetOffset mem) s)
    (c : Configuration) (v : VectorOps V) (config : ProgramConfiguration)
    (bytecode : List InstructionByteCode) (fuel ic : Nat) (st : State V) :
    InterpretedVm.iterations c v dataset config datasetOffset bytecode fuel ic st =
      iterations (lightRead cache) c v config datasetOffset bytecode fuel ic st := by
  induction ic generalizing st with
  | zero => rfl
  | succ ic ih =>
    rw [InterpretedVm.iterations, iterations, iteration_full, iteration_congr h]
    exact congrArg _ (funext ih)

/-- The item at an address that the machine reads. -/
theorem read_eq {dataset : Memory} {cache : Cache} (hprograms : ∀ j, Produced (cache.programs j))
    (hholds : ∀ i < DatasetItemCount.toNat, ∀ q : Reg,
      load64 dataset (64 * i + 8 * q.val) = word cache (64 * i + 8 * q.val))
    {datasetOffset : BitVec 64} (ho : Offset datasetOffset) (mem : MemoryRegisters)
    (s : Native V) : fullRead dataset (readPtr datasetOffset mem) s =
      lightRead cache (readPtr datasetOffset mem) s := by
  obtain ⟨hmod, hle⟩ := readPtr_fits ho mem
  generalize readPtr datasetOffset mem = address at hmod hle ⊢
  have hcount : DatasetItemCount.toNat = 34078719 := by decide
  unfold RANDOMX_DATASET_ITEM_SIZE at hmod hle
  unfold DatasetBaseSize DatasetExtraSize at hle
  have hsize : (BitVec.ofNat 64 CacheLineSize).toNat = 64 := by decide
  have hnumber : ((address / BitVec.ofNat 64 CacheLineSize).setWidth 32).setWidth 64 =
      BitVec.ofNat 64 (address.toNat / 64) := by
    apply BitVec.eq_of_toNat_eq
    rw [BitVec.toNat_setWidth, BitVec.toNat_setWidth, BitVec.toNat_udiv, hsize, BitVec.toNat_ofNat]
    omega
  have hitem : InterpretedVm.item address.toNat = .ok () := if_pos ⟨hmod, hle⟩
  have haddr : 64 * (address.toNat / 64) = address.toNat := by omega
  have hread : datasetRead dataset s address.toNat =
      { s with r := fun q => s.r q ^^^ word cache (64 * (address.toNat / 64) + 8 * q.val) } := by
    unfold datasetRead
    congr 1
    funext q
    rw [← hholds (address.toNat / 64) (by omega) q, haddr]
  simp only [fullRead, lightRead, hitem, hnumber, item_eq hprograms, hread]
  rfl

theorem execute_eq {cache : Cache} (hprograms : ∀ j, Produced (cache.programs j))
    {ws order : List Write} (h : Writes cache ws {i | i < DatasetItemCount.toNat})
    (horder : order.Perm ws) (m : Memory) (c : Configuration) (v : VectorOps V)
    (program : List Instruction) (entropy : Fin 16 → BitVec 64) (nreg : Native V)
    (ProgramIterations fuel : Nat) :
    InterpretedVm.execute c v (order.foldl Write.apply m) program (initializeVm v entropy) nreg
        ProgramIterations fuel =
      execute c v cache program (initializeVm v entropy) nreg ProgramIterations fuel := by
  have hread := fun mem (s : Native V) => read_eq hprograms
    (fun i hi q => (h.perm horder).load64_eq m hi q) (initializeVm_offset v entropy) mem s
  unfold InterpretedVm.execute execute
  cases compileProgram c program with
  | none => rfl
  | some bytecode => exact iterations_eq hread c v _ bytecode fuel ProgramIterations _

/-- **Both machines agree**: whatever the number of threads that have written the dataset, the
order of their writes and what was in the memory before, the machine that computes each item
runs every program as the one that reads it. -/
theorem light_eq_full (cache : Cache) (hprograms : ∀ j, Produced (cache.programs j)) (host : Host)
    (numThreads : UInt32) : ∃ ws, initWrites cache host numThreads = some ws ∧
      ∀ order : List Write, order.Perm ws → ∀ m {V : Type} (c : Configuration) (v : VectorOps V)
        program entropy nreg ProgramIterations fuel,
        InterpretedVm.execute c v (order.foldl Write.apply m) program (initializeVm v entropy) nreg
            ProgramIterations fuel =
          execute c v cache program (initializeVm v entropy) nreg ProgramIterations fuel := by
  obtain ⟨ws, hws, hall⟩ := init_writes hprograms host numThreads
  exact ⟨ws, hws, fun order horder m V c v => execute_eq hprograms hall horder m c v⟩

theorem exists_produced : ∃ prog, Produced prog := by
  have hok : (Superscalar.generateSuperscalar 2 (fun data => data.map (· * 5 + 3)) 4
      ⟨(List.range 64).map fun i => UInt8.ofNat (i * 37 + 11), 64⟩).isOk = true := by
    decide +kernel
  cases h : Superscalar.generateSuperscalar 2 (fun data => data.map (· * 5 + 3)) 4
      ⟨(List.range 64).map fun i => UInt8.ofNat (i * 37 + 11), 64⟩ with
  | error e =>
    rw [h] at hok
    cases hok
  | ok r => exact ⟨r.1, 2, _, 4, _, r.2, by decide, h⟩

/-- A cache of zeros, 16 threads. -/
theorem light_eq_full_zeros : ∃ programs ws,
    initWrites ⟨fun _ => 0, 0, programs⟩ ⟨true, false⟩ 16 = some ws ∧
      ∀ m {V : Type} (v : VectorOps V) program entropy nreg ProgramIterations fuel,
        InterpretedVm.execute Configuration.base v (ws.reverse.foldl Write.apply m) program
            (initializeVm v entropy) nreg ProgramIterations fuel =
          execute Configuration.base v ⟨fun _ => 0, 0, programs⟩ program (initializeVm v entropy)
            nreg ProgramIterations fuel := by
  obtain ⟨prog, hprog⟩ := exists_produced
  obtain ⟨ws, hws, hall⟩ := light_eq_full ⟨fun _ => 0, 0, fun _ => prog⟩ (fun _ => hprog)
    ⟨true, false⟩ 16
  exact ⟨fun _ => prog, ws, hws, fun m _ v => hall ws.reverse (List.reverse_perm ws) m
    Configuration.base v⟩

end Rxs.L2.LightVm
