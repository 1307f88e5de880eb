import Mathlib.Data.Fin.VecNotation
import Rxs.Core.X86
import Rxs.L2Machine.SuperscalarSafety

/-!
# Items of the dataset

An item is eight words. They start from the item's number; eight times a superscalar
program is executed on them, and a line of the cache is mixed in. The first line is the
one of the item's number, every other one is selected by the register that the program
before it names.

* `executeSuperscalar`: a program; `executeSuperscalar_isSome`: one that was generated.
* `initDatasetItem`.
-/
namespace Rxs.RandomX.Superscalar

open Rxs.Core Rxs.RandomX.BytecodeMachine
open SuperscalarInstructionType

/-- The registers, `int_reg_t[8]`. -/
abbrev Words := Reg → BitVec 64

/-- The type that the number of an opcode stands for. -/
def typeOf (opcode : BitVec 8) : SuperscalarInstructionType :=
  match opcode.toNat with
  | 0 => ISUB_R
  | 1 => IXOR_R
  | 2 => IADD_RS
  | 3 => IMUL_R
  | 4 => IROR_C
  | 5 => IADD_C7
  | 6 => IXOR_C7
  | 7 => IADD_C8
  | 8 => IXOR_C8
  | 9 => IADD_C9
  | 10 => IXOR_C9
  | 11 => IMULH_R
  | 12 => ISMULH_R
  | 13 => IMUL_RCP
  | _ => INVALID

/-- What the destination becomes, of the values of the registers. -/
def result (type : SuperscalarInstructionType) (instr : Instruction) (dst src : BitVec 64) :
    BitVec 64 :=
  match type with
  | ISUB_R => dst - src
  | IXOR_R => dst ^^^ src
  | IADD_RS => dst + src <<< instr.getModShift
  | IMUL_R => dst * src
  | IROR_C => rotr64 dst instr.imm32.toNat
  | IADD_C7 | IADD_C8 | IADD_C9 => dst + signExtend2sCompl instr.imm32
  | IXOR_C7 | IXOR_C8 | IXOR_C9 => dst ^^^ signExtend2sCompl instr.imm32
  | IMULH_R => mulh dst src
  | ISMULH_R => smulh dst src
  | IMUL_RCP => dst * randomx_reciprocal (instr.imm32.setWidth 64)
  -- is not executed
  | INVALID => dst

/-- `none` where the source is not defined: another opcode, and a register that is not one
of the eight. -/
def executeInstr (r : Words) (instr : Instruction) : Option Words :=
  if h : typeOf instr.opcode ≠ INVALID ∧ instr.dst.toNat < 8 ∧ instr.src.toNat < 8 then
    let dst : Reg := ⟨instr.dst.toNat, h.2.1⟩
    let src : Reg := ⟨instr.src.toNat, h.2.2⟩
    some (Function.update r dst (result (typeOf instr.opcode) instr (r dst) (r src)))
  else none

/-- mirrors src/crypto/randomx/superscalar.cpp:850-893 -/
def executeSuperscalar (r : Words) (prog : SuperscalarProgram) : Option Words :=
  prog.program.foldlM executeInstr r

theorem typeOf_toInt {type : SuperscalarInstructionType} (h : type ≠ INVALID) :
    typeOf (BitVec.ofInt 8 type.toInt) = type := by
  cases type
  case INVALID => exact absurd rfl h
  all_goals rfl

theorem Safe.typeOf_eq {type : SuperscalarInstructionType} {instr : Instruction}
    (h : Safe type instr) : typeOf instr.opcode = type :=
  h.opcode ▸ typeOf_toInt h.valid

/-- Instructions that can be executed, are. -/
theorem Safe.executeInstr_eq {type : SuperscalarInstructionType} {instr : Instruction}
    (h : Safe type instr) (r : Words) : executeInstr r instr =
      some (Function.update r (reg instr.dst)
        (result type instr (r (reg instr.dst)) (r (reg instr.src)))) := by
  have hdst : (⟨instr.dst.toNat, h.dst_lt⟩ : Reg) = reg instr.dst :=
    Fin.ext (Nat.mod_eq_of_lt h.dst_lt).symm
  have hsrc : (⟨instr.src.toNat, h.src_lt⟩ : Reg) = reg instr.src :=
    Fin.ext (Nat.mod_eq_of_lt h.src_lt).symm
  obtain rfl := h.typeOf_eq
  rw [executeInstr, dif_pos ⟨h.valid, h.dst_lt, h.src_lt⟩, ← hdst, ← hsrc]

/-! ## Items -/

/-- mirrors src/crypto/randomx/dataset.cpp:120-127 -/
def superscalarMul0 : BitVec 64 := 6364136223846793005
def superscalarAdd1 : BitVec 64 := 9298411001130361340
def superscalarAdd2 : BitVec 64 := 12065312585734608966
def superscalarAdd3 : BitVec 64 := 9306329213124626780
def superscalarAdd4 : BitVec 64 := 5281919268842080866
def superscalarAdd5 : BitVec 64 := 10536153434571861004
def superscalarAdd6 : BitVec 64 := 3398623926847679864
def superscalarAdd7 : BitVec 64 := 9549104520008361294

/-- Parameters that all variants have in common.
mirrors src/crypto/randomx/randomx.h:68-72 -/
def ArgonMemory : Nat := 262144
def CacheAccesses : Nat := 8
def ArgonBlockSize : Nat := 1024
def CacheLineSize : Nat := 64

/-- How many lines the cache has. -/
def cacheLines : Nat := ArgonMemory * ArgonBlockSize / CacheLineSize

/-- The place of a line, `memory` being where the cache is. -/
def getMixBlock (memory registerValue : BitVec 64) : BitVec 64 :=
  memory + (registerValue &&& BitVec.ofNat 64 (cacheLines - 1)) * BitVec.ofNat 64 CacheLineSize

/-- The registers at the start. -/
def initial (itemNumber : BitVec 64) : Words :=
  let rl0 := (itemNumber + 1) * superscalarMul0
  ![rl0, rl0 ^^^ superscalarAdd1, rl0 ^^^ superscalarAdd2, rl0 ^^^ superscalarAdd3,
    rl0 ^^^ superscalarAdd4, rl0 ^^^ superscalarAdd5, rl0 ^^^ superscalarAdd6,
    rl0 ^^^ superscalarAdd7]

section

variable (mem : BitVec 64 → BitVec 8) (memory : BitVec 64)

/-- The line that a register selects is mixed in. -/
def mixLine (registerValue : BitVec 64) (rl : Words) : Words := fun q =>
  rl q ^^^ X86.load64 mem (getMixBlock memory registerValue + 8 * BitVec.ofNat 64 q)

/-- The turns of the loop from one program on. -/
def mixFrom : List SuperscalarProgram → BitVec 64 → Words → Option Words
  | [], _, rl => some rl
  | prog :: programs, registerValue, rl => do
    let rl ← executeSuperscalar rl prog
    let rl := mixLine mem memory registerValue rl
    mixFrom programs (rl prog.addrReg) rl

/-- mirrors src/crypto/randomx/dataset.cpp:129-159 -/
def initDatasetItem (programs : Fin CacheAccesses → SuperscalarProgram) (itemNumber : BitVec 64) :
    Option Words :=
  mixFrom mem memory (List.ofFn programs) itemNumber (initial itemNumber)

end

/-- The programs' instructions can be executed. -/
def SafeProgram (prog : SuperscalarProgram) : Prop :=
  ∀ instr ∈ prog.program, ∃ type, Safe type instr

theorem executeInstrs_isSome {instrs : List Instruction}
    (h : ∀ instr ∈ instrs, ∃ type, Safe type instr) (r : Words) :
    ∃ r', instrs.foldlM executeInstr r = some r' := by
  induction instrs generalizing r with
  | nil => exact ⟨r, rfl⟩
  | cons instr instrs ih =>
    obtain ⟨type, hsafe⟩ := h instr List.mem_cons_self
    obtain ⟨r', hr'⟩ := ih (fun i hi => h i (List.mem_cons_of_mem _ hi)) (Function.update r
      (reg instr.dst) (result type instr (r (reg instr.dst)) (r (reg instr.src))))
    refine ⟨r', ?_⟩
    rw [List.foldlM_cons, hsafe.executeInstr_eq]
    exact hr'

theorem mixFrom_isSome {programs : List SuperscalarProgram}
    (h : ∀ prog ∈ programs, SafeProgram prog) (mem : BitVec 64 → BitVec 8) (memory v : BitVec 64) (rl : Words) :
    ∃ rl', mixFrom mem memory programs v rl = some rl' := by
  induction programs generalizing v rl with
  | nil => exact ⟨rl, rfl⟩
  | cons prog programs ih =>
    obtain ⟨r, hr⟩ := executeInstrs_isSome (h prog List.mem_cons_self) rl
    obtain ⟨rl', hrl'⟩ := ih (fun p hp => h p (List.mem_cons_of_mem _ hp))
      (mixLine mem memory v r prog.addrReg) (mixLine mem memory v r)
    refine ⟨rl', ?_⟩
    rw [mixFrom, executeSuperscalar, hr]
    exact hrl'

end Rxs.RandomX.Superscalar
