import Rxs.L2Machine.JitInteger

/-!
# The interpreted machine

`execute` runs a program some thousand times. Each time it mixes a block of the
scratchpad into the integer registers and another one into the floating-point ones, runs
the bytecode, mixes in an item of the dataset, and writes the registers back to the two
blocks. Every access is checked (`access`, `item`): an address that is not aligned or not
inside is a fault.

* `executeInstruction_reads`, `executeInstruction_writes`: an instruction has no other
  access.
* `compile_mask`: which masks the bytecode has.
* `run_safe`: no access of the bytecode is a fault.
* **`memory_safe`**: no access is.
-/
namespace Rxs.RandomX.InterpretedVm

open Rxs.RandomX.BytecodeMachine

/-! ## The dataset -/

def RANDOMX_DATASET_ITEM_SIZE : Nat := 64
def DatasetBaseSize : Nat := 2147483648
def DatasetExtraSize : Nat := 33554368

/-- mirrors src/crypto/randomx/randomx.h:77 -/
def CacheLineAlignMask : BitVec 64 := (BitVec.ofNat 64 DatasetBaseSize - 1) &&& ~~~63

/-- mirrors src/crypto/randomx/randomx.h:78 -/
def DatasetExtraItems : Nat := DatasetExtraSize / RANDOMX_DATASET_ITEM_SIZE

/-! ## Accesses -/

/-- Why a run ends: an access that must not be, an opcode that is no instruction, or
bytecode that has not come to its end. -/
inductive Fault where
  | scratchpad (addr length : Nat)
  | dataset (addr : Nat)
  | unreachable
  | unfinished
  deriving DecidableEq, Repr

abbrev Run := Except Fault

/-- A word or a block of the scratchpad. -/
def access (c : Configuration) (addr length : Nat) : Run Unit :=
  if addr % length = 0 ∧ addr + length ≤ c.ScratchpadL3_Size.toNat then .ok ()
  else .error (.scratchpad addr length)

/-- An item of the dataset. -/
def item (addr : Nat) : Run Unit :=
  if addr % RANDOMX_DATASET_ITEM_SIZE = 0 ∧
      addr + RANDOMX_DATASET_ITEM_SIZE ≤ DatasetBaseSize + DatasetExtraSize then .ok ()
  else .error (.dataset addr)

/-- The handlers that call `getScratchpadAddress`.
mirrors src/crypto/randomx/bytecode_machine.hpp:115-222 -/
def loads : InstructionType → Bool
  | .IADD_M | .ISUB_M | .IMUL_M | .IMULH_M | .ISMULH_M | .IXOR_M | .FADD_M | .FSUB_M
  | .FDIV_M => true
  | _ => false

variable {V : Type}

/-- mirrors src/crypto/randomx/bytecode_machine.hpp:234-236 -/
def storeAddress (ibc : InstructionByteCode) (s : Native V) : Nat :=
  ((s.r ibc.idst + ibc.imm) &&& ibc.memMask.setWidth 64).toNat

/-- One bytecode, with its access. -/
def executeInstruction (c : Configuration) (ops : FloatOps V) (ibc : InstructionByteCode)
    (pc : Int) (s : Native V) : Run (Int × Native V) := do
  if loads ibc.type then access c (getScratchpadAddress ibc s) 8
  if ibc.type = .ISTORE then access c (storeAddress ibc s) 8
  return BytecodeMachine.executeInstruction c ops ibc pc s

/-- mirrors src/crypto/randomx/bytecode_machine.hpp:92-97 -/
def executeBytecode (c : Configuration) (ops : FloatOps V) (bytecode : List InstructionByteCode) :
    Nat → Loop V → Run (Native V)
  | 0, l => if l.pc < bytecode.length then .error .unfinished else .ok l.s
  | fuel + 1, l =>
    match bytecode[l.pc]? with
    | none => .ok l.s
    | some ibc => do
      let r ← executeInstruction c ops ibc l.pc l.s
      executeBytecode c ops bytecode fuel ⟨(r.1 + 1).toNat, r.2⟩

/-! ## The machine -/

/-- mirrors src/crypto/randomx/program.hpp:38-41 -/
structure ProgramConfiguration where
  eMask : Fin 2 → BitVec 64
  readReg0 : Reg
  readReg1 : Reg
  readReg2 : Reg
  readReg3 : Reg

structure MemoryRegisters where
  mx : BitVec 32
  ma : BitVec 32

/-- What is done with floating-point registers outside the bytecode, and what inside, with
the mask of the exponents. -/
structure VectorOps (V : Type) where
  ops : (Fin 2 → BitVec 64) → FloatOps V
  load : BitVec 64 → BitVec 64 → V
  lo : V → BitVec 64
  hi : V → BitVec 64
  xor : V → V → V

/-- What `initializeVm` sets. -/
structure Vm (V : Type) where
  a : Fin 4 → V
  mem : MemoryRegisters
  config : ProgramConfiguration
  datasetOffset : BitVec 64

/-- mirrors src/crypto/randomx/virtual_machine.cpp:51-58 -/
def getSmallPositiveFloatBits (entropy : BitVec 64) : BitVec 64 :=
  let exponent := (((entropy >>> 59) + 1023) &&& 2047) <<< 52
  exponent ||| (entropy &&& ((1 <<< 52) - 1))

/-- mirrors src/crypto/randomx/virtual_machine.cpp:60-70 -/
def getFloatMask (entropy : BitVec 64) : BitVec 64 :=
  let exponent := (0x300 ||| ((entropy >>> 60) <<< 4)) <<< 52
  (entropy &&& ((1 <<< 22) - 1)) ||| exponent

/-- The lowest bit is added to the number of a register. -/
def readReg (base : Nat) (addressRegisters : BitVec 64) : Reg :=
  Fin.ofNat 8 (base + (addressRegisters &&& 1).toNat)

/-- mirrors src/crypto/randomx/virtual_machine.cpp:74-98 -/
def initializeVm (v : VectorOps V) (entropy : Fin 16 → BitVec 64) : Vm V where
  a i := v.load (getSmallPositiveFloatBits (entropy ⟨2 * i, by omega⟩))
    (getSmallPositiveFloatBits (entropy ⟨2 * i + 1, by omega⟩))
  mem := ⟨(entropy 10).setWidth 32, (entropy 8 &&& CacheLineAlignMask).setWidth 32⟩
  config :=
    { eMask := fun i => getFloatMask (entropy ⟨14 + i, by omega⟩)
      readReg0 := readReg 0 (entropy 12)
      readReg1 := readReg 2 (entropy 12 >>> 1)
      readReg2 := readReg 4 (entropy 12 >>> 2)
      readReg3 := readReg 6 (entropy 12 >>> 3) }
  datasetOffset := entropy 13 % BitVec.ofNat 64 (DatasetExtraItems + 1) * 64

/-- Between two iterations. -/
structure State (V : Type) where
  nreg : Native V
  mem : MemoryRegisters
  spAddr0 : BitVec 32
  spAddr1 : BitVec 32

/-- mirrors src/crypto/randomx/vm_interpreted.cpp:69-70 -/
def mixIntegers (s : Native V) (addr : Nat) : Native V :=
  { s with r := fun i => s.r i ^^^ load64 s.scratchpad (addr + 8 * i) }

/-- mirrors src/crypto/randomx/vm_interpreted.cpp:72-76 -/
def loadFloats (ops : FloatOps V) (s : Native V) (addr : Nat) : Native V :=
  { s with
    f := fun i => ops.cvt (load64 s.scratchpad (addr + 8 * i))
    e := fun i => ops.maskRegisterExponentMantissa
      (ops.cvt (load64 s.scratchpad (addr + 8 * (4 + i)))) }

/-- mirrors src/crypto/randomx/vm_interpreted.cpp:114-119 -/
def datasetRead (dataset : Memory) (s : Native V) (addr : Nat) : Native V :=
  { s with r := fun i => s.r i ^^^ load64 dataset (addr + 8 * i) }

/-- mirrors src/crypto/randomx/vm_interpreted.cpp:89-90 -/
def storeIntegers (s : Native V) (addr : Nat) : Native V :=
  { s with
    scratchpad := (List.finRange 8).foldl (fun m (i : Reg) => store64 m (addr + 8 * i.val) (s.r i))
      s.scratchpad }

/-- mirrors src/crypto/randomx/vm_interpreted.cpp:92-96 -/
def storeFloats (v : VectorOps V) (s : Native V) (addr : Nat) : Native V :=
  let f := fun i => v.xor (s.f i) (s.e i)
  { s with
    f := f
    scratchpad := (List.finRange 4).foldl (fun m (i : Fin 4) =>
      store64 (store64 m (addr + 16 * i.val) (v.lo (f i))) (addr + 16 * i.val + 8) (v.hi (f i)))
      s.scratchpad }

/-- mirrors src/crypto/randomx/vm_interpreted.cpp:80 -/
def readPtr (datasetOffset : BitVec 64) (mem : MemoryRegisters) : BitVec 64 :=
  datasetOffset + (mem.ma.setWidth 64 &&& CacheLineAlignMask)

/-- The item that is fetched for later is named by one of the two, which are swapped.
mirrors src/crypto/randomx/vm_interpreted.cpp:82-87 -/
def nextMem (c : Configuration) (mem : MemoryRegisters) (mix : BitVec 64) : MemoryRegisters :=
  if c.Tweak_V2_PREFETCH then ⟨mem.ma ^^^ mix.setWidth 32, mem.mx⟩
  else ⟨mem.ma, mem.mx ^^^ mix.setWidth 32⟩

/-- mirrors src/crypto/randomx/vm_interpreted.cpp:62-100 -/
def iteration (c : Configuration) (v : VectorOps V) (dataset : Memory)
    (config : ProgramConfiguration) (datasetOffset : BitVec 64)
    (bytecode : List InstructionByteCode) (fuel : Nat) (st : State V) : Run (State V) := do
  let ops := v.ops config.eMask
  let spMix := st.nreg.r config.readReg0 ^^^ st.nreg.r config.readReg1
  let spAddr0 := (st.spAddr0 ^^^ spMix.setWidth 32) &&& c.ScratchpadL3Mask64
  let spAddr1 := (st.spAddr1 ^^^ (spMix >>> 32).setWidth 32) &&& c.ScratchpadL3Mask64
  access c spAddr0.toNat 64
  let s := mixIntegers st.nreg spAddr0.toNat
  access c spAddr1.toNat 64
  let s ← executeBytecode c ops bytecode fuel ⟨0, loadFloats ops s spAddr1.toNat⟩
  let readPtr := readPtr datasetOffset st.mem
  let mem := nextMem c st.mem (s.r config.readReg2 ^^^ s.r config.readReg3)
  item readPtr.toNat
  let s := datasetRead dataset s readPtr.toNat
  access c spAddr1.toNat 64
  let s := storeIntegers s spAddr1.toNat
  access c spAddr0.toNat 64
  let s := storeFloats v s spAddr0.toNat
  return ⟨s, mem, 0, 0⟩

def iterations (c : Configuration) (v : VectorOps V) (dataset : Memory)
    (config : ProgramConfiguration) (datasetOffset : BitVec 64)
    (bytecode : List InstructionByteCode) (fuel : Nat) : Nat → State V → Run (State V)
  | 0, st => .ok st
  | ic + 1, st => do
    let st ← iteration c v dataset config datasetOffset bytecode fuel st
    iterations c v dataset config datasetOffset bytecode fuel ic st

/-- The registers `f` and `e` have no values at first.
mirrors src/crypto/randomx/vm_interpreted.cpp:49-100 -/
def execute (c : Configuration) (v : VectorOps V) (dataset : Memory) (program : List Instruction)
    (vm : Vm V) (nreg : Native V) (ProgramIterations fuel : Nat) : Run (State V) :=
  let nreg := { nreg with r := fun _ => 0, a := vm.a }
  match compileProgram c program with
  | none => .error .unreachable
  | some bytecode =>
    iterations c v dataset vm.config vm.datasetOffset bytecode fuel ProgramIterations
      ⟨nreg, vm.mem, vm.mem.mx, vm.mem.ma⟩

/-! ## An instruction has no other access -/

/-- It reads its word only. -/
theorem executeInstruction_reads (c : Configuration) (ops : FloatOps V) (ibc : InstructionByteCode)
    (pc : Int) (s : Native V) (m : Memory)
    (h : loads ibc.type → load64 m (getScratchpadAddress ibc s) =
      load64 s.scratchpad (getScratchpadAddress ibc s)) :
    ∃ m', BytecodeMachine.executeInstruction c ops ibc pc { s with scratchpad := m } =
      ((BytecodeMachine.executeInstruction c ops ibc pc s).1,
        { (BytecodeMachine.executeInstruction c ops ibc pc s).2 with scratchpad := m' }) := by
  have hsrc : src ibc { s with scratchpad := m } = src ibc s := rfl
  have haddr : getScratchpadAddress ibc { s with scratchpad := m } =
      getScratchpadAddress ibc s := rfl
  have hset (v : V) : Native.setF { s with scratchpad := m } ibc.fdst v =
      { s.setF ibc.fdst v with scratchpad := m } := by
    cases ibc.fdst <;> rfl
  have hget : Native.getF { s with scratchpad := m } ibc.fdst = s.getF ibc.fdst := by
    cases ibc.fdst <;> rfl
  unfold BytecodeMachine.executeInstruction
  simp only [hsrc, haddr, hset, hget]
  cases ht : ibc.type <;> dsimp only
  case ISWAP_R => cases ibc.isrc <;> exact ⟨m, rfl⟩
  case CFROUND => split <;> exact ⟨m, rfl⟩
  case IADD_M | ISUB_M | IMUL_M | IMULH_M | ISMULH_M | IXOR_M | FADD_M | FSUB_M | FDIV_M =>
    rw [h (by rw [ht]; rfl)]
    exact ⟨m, rfl⟩
  all_goals exact ⟨_, rfl⟩

/-- It writes its word only. -/
theorem executeInstruction_writes (c : Configuration) (ops : FloatOps V)
    (ibc : InstructionByteCode) (pc : Int) (s : Native V) (a : Nat)
    (h : ibc.type = .ISTORE → a < storeAddress ibc s ∨ storeAddress ibc s + 8 ≤ a) :
    (BytecodeMachine.executeInstruction c ops ibc pc s).2.scratchpad a = s.scratchpad a := by
  have hset (s : Native V) (i : FloatReg) (v : V) : (s.setF i v).scratchpad = s.scratchpad := by
    cases i <;> rfl
  obtain ⟨type, idst, fdst, isrc, fsrc, imm, target, shift, memMask⟩ := ibc
  unfold BytecodeMachine.executeInstruction
  cases type
  case ISWAP_R => cases isrc <;> rfl
  case CFROUND =>
    dsimp only
    split <;> rfl
  case ISTORE =>
    refine if_neg fun hin => ?_
    have hout : _ ∨ _ := h rfl
    unfold storeAddress at hout
    dsimp only at hin hout
    omega
  all_goals first
    | rfl
    | exact congrFun (hset _ _ _) a

/-! ## Masks -/

/-- No bit below the lowest one of the mask. -/
theorem and_mod (v mask k : Nat) (h : mask % 2 ^ k = 0) : (v &&& mask) % 2 ^ k = 0 := by
  rw [Nat.and_mod_two_pow, h, Nat.and_zero]

theorem and_fits {v mask size k : Nat} (h : mask % 2 ^ k = 0 ∧ mask + 2 ^ k ≤ size) :
    (v &&& mask) % 2 ^ k = 0 ∧ (v &&& mask) + 2 ^ k ≤ size :=
  ⟨and_mod v mask k h.1, by
    have := Nat.and_le_right (n := v) (m := mask)
    omega⟩

/-- A mask of words of the scratchpad. -/
def Words (c : Configuration) (mask : BitVec 32) : Prop :=
  mask.toNat % 2 ^ 3 = 0 ∧ mask.toNat + 2 ^ 3 ≤ c.ScratchpadL3_Size.toNat

/-- What the masks of a configuration are for. -/
structure Masked (c : Configuration) : Prop where
  words (k : Nat) : Words c (c.AddressMask k)
  words3 : Words c c.ScratchpadL3Mask
  blocks : c.ScratchpadL3Mask64.toNat % 2 ^ 6 = 0 ∧
    c.ScratchpadL3Mask64.toNat + 2 ^ 6 ≤ c.ScratchpadL3_Size.toNat

theorem masked_repository : ∀ c ∈ Configuration.repository, Masked c := by
  intro c hc
  simp only [Configuration.repository, List.mem_cons, List.not_mem_nil, or_false] at hc
  have hmem (c : Configuration) (k : Nat) :
      c.AddressMask k = Configuration.mask c.ScratchpadL2_Size ∨
        c.AddressMask k = Configuration.mask c.ScratchpadL1_Size := by
    unfold Configuration.AddressMask
    split
    · exact .inl rfl
    · exact .inr rfl
  rcases hc with rfl | rfl | rfl | rfl | rfl <;>
  · refine ⟨fun k => ?_, by unfold Words; decide, by decide⟩
    rcases hmem _ k with h | h <;> rw [h] <;> unfold Words <;> decide

/-- The bytecode of an access has one of the masks. -/
theorem compile_mask (c : Configuration) (type : InstructionType) (instr : Instruction) (i : Nat)
    (u : Usage) (h : loads (compile c type instr i u).1.type ∨
      (compile c type instr i u).1.type = .ISTORE) :
    (∃ k, (compile c type instr i u).1.memMask = c.AddressMask k) ∨
      (compile c type instr i u).1.memMask = c.ScratchpadL3Mask := by
  have hmemory (type : InstructionType) : (∃ k, (memory c type (reg instr.dst) (reg instr.src)
      instr).memMask = c.AddressMask k) ∨
      (memory c type (reg instr.dst) (reg instr.src) instr).memMask = c.ScratchpadL3Mask := by
    unfold memory
    dsimp only
    split
    · exact .inl ⟨_, rfl⟩
    · exact .inr rfl
  cases type
  case IADD_M | ISUB_M | IMUL_M | IMULH_M | ISMULH_M | IXOR_M => exact hmemory _
  case FADD_M | FSUB_M | FDIV_M => exact .inl ⟨_, rfl⟩
  case ISTORE =>
    simp only [compile]
    split
    · exact .inl ⟨_, rfl⟩
    · exact .inr rfl
  case ISUB_R | IMUL_R | IXOR_R | IROR_R | IROL_R =>
    simp only [compile, regOrImm] at h
    split at h <;> simp [loads] at h
  case IMUL_RCP | ISWAP_R =>
    simp only [compile] at h
    split at h <;> simp [loads] at h
  all_goals simp [compile, loads] at h

/-! ## Runs -/

/-- It ends with no fault of an access, but perhaps not at all. -/
def Safe {α : Type} (x : Run α) : Prop := ∀ f, x = .error f → f = .unfinished

theorem safe_ok {α : Type} (a : α) : Safe (.ok a : Run α) := nofun

theorem safe_unfinished {α : Type} : Safe (.error .unfinished : Run α) :=
  fun _ h => (Except.error.inj h).symm

theorem Safe.bind {α β : Type} {x : Run α} {f : α → Run β} (hx : Safe x)
    (hf : ∀ a, Safe (f a)) : Safe (x >>= f) := by
  cases x with
  | ok a => exact hf a
  | error e => exact fun g hg => hx g (congrArg Except.error (Except.error.inj hg))

theorem Safe.ite {α : Type} {p : Prop} [Decidable p] {x y : Run α} (hx : p → Safe x)
    (hy : ¬ p → Safe y) : Safe (if p then x else y) := by
  split
  · exact hx ‹_›
  · exact hy ‹_›

theorem safe_access {c : Configuration} {addr length : Nat}
    (h : addr % length = 0 ∧ addr + length ≤ c.ScratchpadL3_Size.toNat) :
    Safe (access c addr length) := by
  rw [access, if_pos h]
  exact safe_ok ()

/-- **The word of an instruction** is in the scratchpad. -/
theorem safe_word {c : Configuration} {mask : BitVec 32} (h : Words c mask) (v : BitVec 64) :
    Safe (access c (v &&& mask.setWidth 64).toNat 8) := by
  have hmask : (mask.setWidth 64).toNat = mask.toNat := by
    rw [BitVec.toNat_setWidth]
    omega
  rw [BitVec.toNat_and, hmask]
  exact safe_access (and_fits h)

theorem safe_block {c : Configuration} (h : Masked c) (v : BitVec 32) :
    Safe (access c (v &&& c.ScratchpadL3Mask64).toNat 64) := by
  rw [BitVec.toNat_and]
  exact safe_access (and_fits h.blocks)

/-- The bytecode that instructions are compiled to. -/
def Compiled (c : Configuration) (ibc : InstructionByteCode) : Prop :=
  ∃ type instr i u, ibc = (compile c type instr i u).1

theorem Compiled.words {c : Configuration} {ibc : InstructionByteCode} (hc : Masked c)
    (h : Compiled c ibc) (hm : loads ibc.type ∨ ibc.type = .ISTORE) : Words c ibc.memMask := by
  obtain ⟨type, instr, i, u, rfl⟩ := h
  obtain ⟨k, hk⟩ | hk := compile_mask c type instr i u hm
  · rw [hk]
    exact hc.words k
  · rw [hk]
    exact hc.words3

theorem safe_instruction {c : Configuration} {ibc : InstructionByteCode} (hc : Masked c)
    (h : Compiled c ibc) (ops : FloatOps V) (pc : Int) (s : Native V) :
    Safe (executeInstruction c ops ibc pc s) := by
  unfold executeInstruction
  refine Safe.ite (fun hl => Safe.bind (safe_word (h.words hc (.inl hl)) _) fun _ => ?_) fun _ => ?_
  all_goals
    exact Safe.ite (fun hi => Safe.bind (safe_word (h.words hc (.inr hi)) _) fun _ => safe_ok _)
      fun _ => safe_ok _

/-- **The bytecode**: every access of every turn. -/
theorem run_safe {c : Configuration} {bytecode : List InstructionByteCode} (hc : Masked c)
    (h : ∀ ibc ∈ bytecode, Compiled c ibc) (ops : FloatOps V) (fuel : Nat) (l : Loop V) :
    Safe (executeBytecode c ops bytecode fuel l) := by
  induction fuel generalizing l with
  | zero => exact Safe.ite (fun _ => safe_unfinished) fun _ => safe_ok _
  | succ fuel ih =>
    rw [executeBytecode]
    cases hb : bytecode[l.pc]? with
    | none => exact safe_ok _
    | some ibc =>
      have hmem := h ibc (List.mem_of_getElem? hb)
      exact Safe.bind (safe_instruction hc hmem ops l.pc l.s) fun r => ih _

/-! ## Items -/

/-- `DatasetExtraItems + 1` of them can be the first one. -/
def Offset (datasetOffset : BitVec 64) : Prop :=
  datasetOffset.toNat % RANDOMX_DATASET_ITEM_SIZE = 0 ∧ datasetOffset.toNat ≤ DatasetExtraSize

theorem readPtr_fits {datasetOffset : BitVec 64} (h : Offset datasetOffset)
    (mem : MemoryRegisters) :
    (readPtr datasetOffset mem).toNat % RANDOMX_DATASET_ITEM_SIZE = 0 ∧
      (readPtr datasetOffset mem).toNat + RANDOMX_DATASET_ITEM_SIZE ≤
        DatasetBaseSize + DatasetExtraSize := by
  obtain ⟨hmod, hle⟩ := h
  have hfits : CacheLineAlignMask.toNat % 2 ^ 6 = 0 ∧
      CacheLineAlignMask.toNat + 2 ^ 6 ≤ DatasetBaseSize := by decide
  obtain ⟨h₁, h₂⟩ := and_fits (v := (mem.ma.setWidth 64 : BitVec 64).toNat) hfits
  have hptr : (readPtr datasetOffset mem).toNat = datasetOffset.toNat +
      ((mem.ma.setWidth 64 : BitVec 64).toNat &&& CacheLineAlignMask.toNat) := by
    rw [readPtr, BitVec.toNat_add, BitVec.toNat_and]
    unfold DatasetExtraSize at hle
    unfold DatasetBaseSize at h₂
    exact Nat.mod_eq_of_lt (by omega)
  unfold RANDOMX_DATASET_ITEM_SIZE at hmod ⊢
  rw [hptr]
  omega

theorem safe_item {datasetOffset : BitVec 64} (h : Offset datasetOffset) (mem : MemoryRegisters) :
    Safe (item (readPtr datasetOffset mem).toNat) := by
  rw [item, if_pos (readPtr_fits h mem)]
  exact safe_ok ()

theorem initializeVm_offset (v : VectorOps V) (entropy : Fin 16 → BitVec 64) :
    Offset (initializeVm v entropy).datasetOffset := by
  show Offset (entropy 13 % BitVec.ofNat 64 (DatasetExtraItems + 1) * 64)
  have hn : (BitVec.ofNat 64 (DatasetExtraItems + 1)).toNat = 524288 := by decide
  have hlt : (entropy 13).toNat % 524288 < 524288 := Nat.mod_lt _ (by decide)
  have h64 : (64 : BitVec 64).toNat = 64 := rfl
  have heq : (entropy 13 % BitVec.ofNat 64 (DatasetExtraItems + 1) * 64).toNat =
      (entropy 13).toNat % 524288 * 64 := by
    rw [BitVec.toNat_mul, BitVec.toNat_umod, hn, h64, Nat.mod_eq_of_lt (by omega)]
  unfold Offset
  rw [heq]
  unfold RANDOMX_DATASET_ITEM_SIZE DatasetExtraSize
  omega

/-! ## The machine -/

theorem safe_iteration {c : Configuration} {bytecode : List InstructionByteCode} (hc : Masked c)
    (h : ∀ ibc ∈ bytecode, Compiled c ibc) {datasetOffset : BitVec 64} (ho : Offset datasetOffset)
    (v : VectorOps V) (dataset : Memory) (config : ProgramConfiguration) (fuel : Nat)
    (st : State V) : Safe (iteration c v dataset config datasetOffset bytecode fuel st) := by
  unfold iteration
  refine Safe.bind (safe_block hc _) fun _ => Safe.bind (safe_block hc _) fun _ =>
    Safe.bind (run_safe hc h _ _ _) fun s => Safe.bind (safe_item ho st.mem) fun _ =>
    Safe.bind (safe_block hc _) fun _ => Safe.bind (safe_block hc _) fun _ => safe_ok _

theorem safe_iterations {c : Configuration} {bytecode : List InstructionByteCode} (hc : Masked c)
    (h : ∀ ibc ∈ bytecode, Compiled c ibc) {datasetOffset : BitVec 64} (ho : Offset datasetOffset)
    (v : VectorOps V) (dataset : Memory) (config : ProgramConfiguration) (fuel n : Nat)
    (st : State V) : Safe (iterations c v dataset config datasetOffset bytecode fuel n st) := by
  induction n generalizing st with
  | zero => exact safe_ok st
  | succ n ih =>
    rw [iterations]
    exact Safe.bind (safe_iteration hc h ho v dataset config fuel st) ih

theorem compileFrom_compiled {c : Configuration} (hc : c.Complete) (program : List Instruction)
    (i : Nat) (u : Usage) : ∃ bytecode, compileFrom c program i u = some bytecode ∧
      ∀ ibc ∈ bytecode, Compiled c ibc := by
  induction program generalizing i u with
  | nil => exact ⟨[], rfl, List.forall_mem_nil _⟩
  | cons instr program ih =>
    obtain ⟨type, htype⟩ := Option.isSome_iff_exists.mp (Configuration.decode_isSome hc instr)
    obtain ⟨bytecode, hb, hall⟩ := ih (i + 1) (compile c type instr i u).2
    refine ⟨(compile c type instr i u).1 :: bytecode, ?_, ?_⟩
    · simp [compileFrom, compileInstruction, htype, hb]
    · exact List.forall_mem_cons.mpr ⟨⟨type, instr, i, u, rfl⟩, hall⟩

/-- A variant of the repository. -/
abbrev Supported := { c : Configuration // c ∈ Configuration.repository }

/-- **No access is a fault**: for any program and any entropy, from registers of any
values. -/
theorem memory_safe (c : Supported) (v : VectorOps V) (dataset : Memory)
    (program : List Instruction) (entropy : Fin 16 → BitVec 64) :
    ∃ bytecode, compileProgram c.1 program = some bytecode ∧
      (∀ fuel ProgramIterations st, Safe (iterations c.1 v dataset (initializeVm v entropy).config
        (initializeVm v entropy).datasetOffset bytecode fuel ProgramIterations st)) ∧
      ∀ nreg ProgramIterations fuel, Safe (execute c.1 v dataset program (initializeVm v entropy)
        nreg ProgramIterations fuel) := by
  have hm := masked_repository c.1 c.2
  have hcomplete := (Configuration.complete_repository c.1 c.2).1
  obtain ⟨bytecode, hb, hall⟩ := compileFrom_compiled hcomplete program 0 fun _ => -1
  have hrun := safe_iterations hm hall (initializeVm_offset v entropy) v dataset
    (initializeVm v entropy).config
  refine ⟨bytecode, hb, fun fuel n st => hrun fuel n st, fun nreg n fuel => ?_⟩
  unfold execute
  have hb' : compileProgram c.1 program = some bytecode := hb
  rw [hb']
  exact hrun fuel n _

end Rxs.RandomX.InterpretedVm
