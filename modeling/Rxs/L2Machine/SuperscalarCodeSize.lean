import Rxs.L2Machine.DatasetInit
import Rxs.L2Machine.SuperscalarSlots

/-!
# The code of a hash has room

`generateSuperscalarHash` writes without a look at where its buffer ends. Without AVX2 the
code of an instruction takes exactly what its macro-operations do, so a program has no more
than sixteen bytes for each cycle of its latency. With AVX2 it takes up to fourteen bytes
for a byte of macro-operations; what a multiplication takes beyond its slots is counted
separately, since there is hardly more than one of them a cycle.

* `codeLength_le_charge`: the tariffs are enough for the code of an instruction.
* `instructionsLength_le_limit`: a program.
* `generateSuperscalarHash_fits`: **the hash is in front of the epilogue or, with AVX2, in
  the allocation, wherever in it the code starts.**
-/
namespace Rxs.RandomX.JitCompilerX86

open Rxs.Core Rxs.Core.Bytes Rxs.RandomX.Superscalar Rxs.RandomX.JitStatic
open SuperscalarInstructionType DecoderBuffer

/-! ## Where the code is -/

/-- With what `.balign 64` puts behind it.
mirrors src/crypto/randomx/jit_compiler_x86_static.S:277-281 -/
def randomx_program_epilogue : Bytes :=
  [0x48, 0x81, 0xC4, 0xF8, 0x00, 0x00, 0x00, 0x59,
    0x4C, 0x89, 0x01,
    0x4C, 0x89, 0x49, 0x08,
    0x4C, 0x89, 0x51, 0x10,
    0x4C, 0x89, 0x59, 0x18,
    0x4C, 0x89, 0x61, 0x20,
    0x4C, 0x89, 0x69, 0x28,
    0x4C, 0x89, 0x71, 0x30,
    0x4C, 0x89, 0x79, 0x38,
    0x66, 0x0F, 0x7F, 0x41, 0x40,
    0x66, 0x0F, 0x7F, 0x49, 0x50,
    0x66, 0x0F, 0x7F, 0x51, 0x60,
    0x66, 0x0F, 0x7F, 0x59, 0x70,
    0x48, 0x8D, 0x49, 0x40,
    0x66, 0x0F, 0x7F, 0x61, 0x40,
    0x66, 0x0F, 0x7F, 0x69, 0x50,
    0x66, 0x0F, 0x7F, 0x71, 0x60,
    0x66, 0x0F, 0x7F, 0x79, 0x70,
    0x41, 0x5F, 0x41, 0x5E, 0x41, 0x5D, 0x41, 0x5C, 0x5D, 0x5B,
    0xC2, 0x00, 0x00] ++
    nop11 ++ nop11 ++ [0x66, 0x2E, 0x0F, 0x1F, 0x84, 0x00, 0x00, 0x00, 0x00, 0x00]

/-- mirrors src/crypto/randomx/jit_compiler_x86.cpp:156 -/
def epilogueSize : Nat := randomx_program_epilogue.length

/-- mirrors src/crypto/randomx/jit_compiler_x86.cpp:161 -/
def epilogueOffset : Nat := (CodeSize - epilogueSize) &&& (2 ^ 64 - 64)

/-- mirrors src/crypto/randomx/jit_compiler_x86.cpp:294 -/
def allocatedSize (initDatasetAVX2 : Bool) : Nat :=
  if initDatasetAVX2 then CodeSize * 4 else CodeSize * 2

/-! ## Tariffs -/

/-- What the macro-operations take themselves. -/
def macroOpSizes : Tariff where
  rate type k := ((info type).ops[k]?.map MacroOp.size).getD 0
  slot _ slotSize _ := slotSize
  created h := by
    have hall : ∀ p ∈ fits, ((info p.2).ops[0]?.map MacroOp.size).getD 0 ≤ p.1 := by decide
    exact hall _ (forSlot_fits h)
  product := by
    rintro type (rfl | rfl) k hk _
    · revert k
      decide
    · revert k
      decide
  reciprocal := fun _ _ => by decide

/-- What the macro-operations of an instruction are charged with AVX2. -/
def lanesCharge : SuperscalarInstructionType → List Nat
  | ISUB_R | IXOR_R => [7]
  | IADD_RS | IMUL_R | IROR_C => [19]
  | IADD_C7 | IXOR_C7 | IADD_C8 | IXOR_C8 | IADD_C9 | IXOR_C9 => [27]
  | IMULH_R | ISMULH_R => [7, 35, 35]
  | IMUL_RCP => [4, 19]
  | INVALID => []

/-- What there is for that in a slot. -/
def lanesSlot : Nat → Nat
  | 3 => 7
  | 4 => 19
  | 7 | 8 | 9 => 27
  | 10 => 4
  | _ => 0

def lanesSizes : Tariff where
  rate type k := (lanesCharge type)[k]?.getD 0
  -- the window of the second half of a product
  slot window slotSize _ := if window.index = 5 ∧ slotSize = 3 then 35 else lanesSlot slotSize
  created := by
    intro window slotSize _ type h
    have hall : ∀ p ∈ fits, (lanesCharge p.2)[0]?.getD 0 ≤ lanesSlot p.1 := by decide
    have hle := hall _ (forSlot_fits h)
    split
    · rename_i hslot
      simp only [hslot.2, lanesSlot] at hle
      exact hle.trans (by decide)
    · exact hle
  product := by
    rintro type (rfl | rfl) k hk _
    · revert k
      decide
    · revert k
      decide
  reciprocal window _ := by
    rw [if_neg (by simp)]
    decide

/-- What the code of instructions is charged by. -/
def codeTariff (AVX2 : Bool) : Tariff := if AVX2 then lanesSizes else macroOpSizes

/-- The most of a window. -/
def windowLimit (AVX2 : Bool) : Nat := if AVX2 then 76 else 16

/-- What a multiplication takes beyond its slots. -/
def multiplicationExcess (AVX2 : Bool) : Nat := if AVX2 then 45 else 0

theorem slots_le_windowLimit (AVX2 : Bool) : ∀ window ∈ windows,
    (codeTariff AVX2).slots window window.counts ≤ windowLimit AVX2 := by
  cases AVX2 <;> decide

/-- **The tariff is enough** for the code of an instruction. -/
theorem codeLength_le_charge (AVX2 : Bool) (type : SuperscalarInstructionType) :
    codeLength AVX2 type ≤ (codeTariff AVX2).whole type +
      multiplicationExcess AVX2 * multiplications.whole type := by
  cases AVX2 <;> cases type <;> decide

theorem instructionsLength_le_charge (AVX2 : Bool) (instrs : List Instruction) :
    instructionsLength AVX2 instrs ≤ (codeTariff AVX2).program instrs +
      multiplicationExcess AVX2 * multiplications.program instrs := by
  induction instrs with
  | nil => exact Nat.zero_le _
  | cons instr instrs ih =>
    have hone := codeLength_le_charge AVX2 (typeOf instr.opcode)
    simp only [instructionsLength, Tariff.program, List.map_cons, List.sum_cons, Nat.mul_add]
      at ih hone ⊢
    omega

/-! ## The code of a hash -/

section

variable {SuperscalarLatency fuel : Nat} {rx_blake2b : Bytes → Bytes} {gen : Blake2Generator}
  {prog : SuperscalarProgram} {portBusy : PortBusy}

/-- **A program.** -/
theorem instructionsLength_le_limit (AVX2 : Bool)
    (h : generateSuperscalar SuperscalarLatency rx_blake2b fuel gen = .ok (prog, portBusy)) :
    instructionsLength AVX2 prog.program ≤ windowLimit AVX2 * SuperscalarLatency +
      multiplicationExcess AVX2 * (SuperscalarLatency + 4) := by
  obtain ⟨hprogram, hmul⟩ := generateSuperscalar_paid (slots_le_windowLimit AVX2) h
  exact (instructionsLength_le_charge AVX2 prog.program).trans
    (Nat.add_le_add hprogram (Nat.mul_le_mul_left _ hmul))

end

/-- The code of all programs, of latencies that configurations use. -/
theorem programsCode_fits {SuperscalarLatency : Nat}
    (hL : SuperscalarLatency = 150 ∨ SuperscalarLatency = 170) (rx_blake2b : Bytes → Bytes)
    (programs : Fin CacheAccesses → SuperscalarProgram)
    (h : ∀ j, ∃ fuel gen portBusy,
      generateSuperscalar SuperscalarLatency rx_blake2b fuel gen = .ok (programs j, portBusy))
    (AVX2 : Bool) : ∃ hash, programsCode AVX2 (List.ofFn programs) = some hash ∧
      hash.length ≤ (windowLimit AVX2 * 170 + multiplicationExcess AVX2 * 174 + 1024) * 8 := by
  have hall : ∀ prog ∈ List.ofFn programs, SafeProgram prog ∧
      instructionsLength AVX2 prog.program ≤
        windowLimit AVX2 * 170 + multiplicationExcess AVX2 * 174 := by
    refine List.forall_mem_ofFn_iff.mpr fun j => ?_
    obtain ⟨fuel, gen, portBusy, hj⟩ := h j
    have hlatency : SuperscalarLatency ≤ 170 := by omega
    have hproduced : Rxs.L2.DatasetInit.Produced (programs j) :=
      ⟨_, _, _, _, _, hlatency.trans (by decide), hj⟩
    refine ⟨hproduced.spec.1, ?_⟩
    exact (instructionsLength_le_limit AVX2 hj).trans (Nat.add_le_add
      (Nat.mul_le_mul_left _ hlatency) (Nat.mul_le_mul_left _ (Nat.add_le_add_right hlatency 4)))
  obtain ⟨hash, hhash, hlen⟩ := programsCode_length hall
  rw [List.length_ofFn] at hlen
  exact ⟨hash, hhash, hlen⟩

/-- **The code has room.** Of eight programs that have been generated, whatever bytes were
drawn: what `generateSuperscalarHash` writes ends in front of the epilogue or, with AVX2, in
the allocation. -/
theorem generateSuperscalarHash_fits {SuperscalarLatency : Nat}
    (hL : SuperscalarLatency = 150 ∨ SuperscalarLatency = 170) (rx_blake2b : Bytes → Bytes)
    (programs : Fin CacheAccesses → SuperscalarProgram)
    (h : ∀ j, ∃ fuel gen portBusy,
      generateSuperscalar SuperscalarLatency rx_blake2b fuel gen = .ok (programs j, portBusy)) :
    (∃ written, (∀ code, generateSuperscalarHash false programs code =
        some (code.writeAt superScalarHashOffset written)) ∧
      superScalarHashOffset + written.length ≤ epilogueOffset) ∧
    ∃ written, (∀ code, generateSuperscalarHash true programs code =
        some (code.writeAt 0 written)) ∧
      ∀ shift < CodeSize, shift + written.length ≤ allocatedSize true := by
  constructor
  · obtain ⟨hash, hhash, hlen⟩ := programsCode_fits hL rx_blake2b programs h false
    refine ⟨_, fun code => by simp only [generateSuperscalarHash, hhash]; rfl, ?_⟩
    have hinit : randomx_sshash_init.length = 192 := by decide +kernel
    have hepilogue : epilogueOffset = 65408 := by decide +kernel
    simp only [List.length_append, List.length_singleton, hinit, hepilogue, superScalarHashOffset]
    simp only [windowLimit, multiplicationExcess, Bool.false_eq_true, if_false] at hlen
    omega
  · obtain ⟨hash, hhash, hlen⟩ := programsCode_fits hL rx_blake2b programs h true
    refine ⟨_, fun code => by simp only [generateSuperscalarHash, hhash]; rfl, ?_⟩
    have hends : randomx_dataset_init_avx2_loop_end.length = 191 ∧
        randomx_dataset_init_avx2_epilogue.length = 156 := by decide +kernel
    intro shift hshift
    simp only [CodeSize] at hshift
    rw [List.length_append, length_writeAt]
    · simp only [List.length_append, length_prologue, hends, allocatedSize, CodeSize, if_true]
      simp only [windowLimit, multiplicationExcess, if_true] at hlen
      omega
    · simp only [List.length_append, hends, length_le]
      omega

/-- The hash of one program eight times, from bytes that are all the same. -/
theorem generateSuperscalarHash_fits_constant :
    ∃ (programs : Fin CacheAccesses → SuperscalarProgram) (portBusy : PortBusy),
      (∀ j, generateSuperscalar 150 (fun _ => List.replicate 64 169) 4
        ⟨List.replicate 64 169, 64⟩ = .ok (programs j, portBusy)) ∧
      (∃ written, (∀ code, generateSuperscalarHash false programs code =
          some (code.writeAt superScalarHashOffset written)) ∧
        superScalarHashOffset + written.length ≤ epilogueOffset) ∧
      ∃ written, (∀ code, generateSuperscalarHash true programs code =
          some (code.writeAt 0 written)) ∧
        ∀ shift < CodeSize, shift + written.length ≤ allocatedSize true := by
  have hok : (generateSuperscalar 150 (fun _ => List.replicate 64 169) 4
      ⟨List.replicate 64 169, 64⟩).isOk = true := by
    decide +kernel
  cases hgen : generateSuperscalar 150 (fun _ => List.replicate 64 169) 4
      ⟨List.replicate 64 169, 64⟩ with
  | error e =>
    rw [hgen] at hok
    cases hok
  | ok r =>
    refine ⟨fun _ => r.1, r.2, fun _ => rfl, ?_⟩
    exact generateSuperscalarHash_fits (.inl rfl) (fun _ => List.replicate 64 169) (fun _ => r.1)
      fun _ => ⟨4, ⟨List.replicate 64 169, 64⟩, r.2, hgen⟩

end Rxs.RandomX.JitCompilerX86
