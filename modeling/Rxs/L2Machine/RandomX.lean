import Mathlib.Algebra.GroupWithZero.Nat
import Mathlib.Data.List.Basic
import Mathlib.Logic.Function.Basic
import Rxs.Core.Bytes

/-!
# RandomX: configurations, instructions, words

What the interpreter and the compiler share: the parameters of a variant, the
instruction word, and which of the thirty instructions an opcode is. The first
`freq IADD_RS` opcodes are `IADD_RS`, the next `freq IADD_M` are `IADD_M`, and so on.

* `decode_isSome`: frequencies that add up to 256 leave no opcode out.
-/
namespace Rxs

/-- The instructions, in the order of their numbers. -/
inductive InstructionType where
  | IADD_RS | IADD_M | ISUB_R | ISUB_M | IMUL_R | IMUL_M | IMULH_R | IMULH_M | ISMULH_R
  | ISMULH_M | IMUL_RCP | INEG_R | IXOR_R | IXOR_M | IROR_R | IROL_R | ISWAP_R | FSWAP_R
  | FADD_R | FADD_M | FSUB_R | FSUB_M | FSCAL_R | FMUL_R | FDIV_M | FSQRT_R | CBRANCH
  | CFROUND | ISTORE | NOP
  deriving DecidableEq, Repr

namespace InstructionType

def all : List InstructionType :=
  [IADD_RS, IADD_M, ISUB_R, ISUB_M, IMUL_R, IMUL_M, IMULH_R, IMULH_M, ISMULH_R, ISMULH_M,
    IMUL_RCP, INEG_R, IXOR_R, IXOR_M, IROR_R, IROL_R, ISWAP_R, FSWAP_R, FADD_R, FADD_M, FSUB_R,
    FSUB_M, FSCAL_R, FMUL_R, FDIV_M, FSQRT_R, CBRANCH, CFROUND, ISTORE, NOP]

end InstructionType

/-- `mod` and `imm32` are read by `getModMem`, `getModShift`, `getModCond`, `getImm32`.
mirrors src/crypto/randomx/instruction.hpp:72-100 -/
structure Instruction where
  opcode : BitVec 8
  dst : BitVec 8
  src : BitVec 8
  mod : BitVec 8
  imm32 : BitVec 32
  deriving DecidableEq, Repr

namespace Instruction

def getModMem (instr : Instruction) : Nat := instr.mod.toNat % 4
def getModShift (instr : Instruction) : Nat := instr.mod.toNat / 4 % 4
def getModCond (instr : Instruction) : Nat := instr.mod.toNat / 16

end Instruction

namespace RandomX

def RegistersCount : Nat := 8
def StoreL3Condition : Nat := 14
def JumpOffset : Nat := 8
def JumpBits : Nat := 8
def RANDOMX_PROGRAM_MAX_SIZE : Nat := 384

/-- The instructions of a program; its buffer has room for so many.
mirrors src/crypto/randomx/program.hpp:44-58 -/
structure Program where
  instructions : List Instruction
  size_le : instructions.length ≤ RANDOMX_PROGRAM_MAX_SIZE

/-- The bits a branch looks at, before its shift. -/
def ConditionMask_Calculated : BitVec 32 := ((1#32 <<< JumpBits) - 1) <<< JumpOffset

/-- What a variant of RandomX sets of the virtual machine. -/
structure Configuration where
  ScratchpadL1_Size : BitVec 32 := 16384
  ScratchpadL2_Size : BitVec 32 := 262144
  ScratchpadL3_Size : BitVec 32 := 2097152
  ProgramSize : Nat := 256
  freq : InstructionType → Nat
  Tweak_V2_CFROUND : Bool := false
  Tweak_V2_AES : Bool := false
  Tweak_V2_PREFETCH : Bool := false

namespace Configuration

/-- mirrors src/crypto/randomx/randomx.cpp:221-232 -/
def mask (size : BitVec 32) : BitVec 32 := (size / 8 - 1) * 8

def AddressMask (c : Configuration) (mem : Nat) : BitVec 32 :=
  if mem = 0 then mask c.ScratchpadL2_Size else mask c.ScratchpadL1_Size

def ScratchpadL3Mask (c : Configuration) : BitVec 32 := mask c.ScratchpadL3_Size

def ScratchpadL3Mask64 (c : Configuration) : BitVec 32 := (c.ScratchpadL3_Size / 8 / 8 - 1) * 64

/-- mirrors src/crypto/randomx/randomx.cpp:123-170 -/
def baseFreq : InstructionType → Nat
  | .IADD_RS => 16 | .IADD_M => 7 | .ISUB_R => 16 | .ISUB_M => 7 | .IMUL_R => 16 | .IMUL_M => 4
  | .IMULH_R => 4 | .IMULH_M => 1 | .ISMULH_R => 4 | .ISMULH_M => 1 | .IMUL_RCP => 8
  | .INEG_R => 2 | .IXOR_R => 15 | .IXOR_M => 5 | .IROR_R => 8 | .IROL_R => 2 | .ISWAP_R => 4
  | .FSWAP_R => 4 | .FADD_R => 16 | .FADD_M => 5 | .FSUB_R => 16 | .FSUB_M => 5 | .FSCAL_R => 6
  | .FMUL_R => 32 | .FDIV_M => 4 | .FSQRT_R => 6 | .CBRANCH => 25 | .CFROUND => 1 | .ISTORE => 16
  | .NOP => 0

def base : Configuration := { freq := baseFreq }

def moneroV2 : Configuration where
  ProgramSize := 384
  freq := baseFreq
  Tweak_V2_CFROUND := true
  Tweak_V2_AES := true
  Tweak_V2_PREFETCH := true

def wownero : Configuration where
  ScratchpadL2_Size := 131072
  ScratchpadL3_Size := 1048576
  freq
    | .IADD_RS => 25 | .IROR_R => 10 | .IROL_R => 0 | .FSWAP_R => 8 | .FADD_R => 20
    | .FSUB_R => 20 | .FMUL_R => 20 | .CBRANCH => 16 | t => baseFreq t

def arqma : Configuration where
  ScratchpadL2_Size := 131072
  ScratchpadL3_Size := 262144
  freq := baseFreq

def graft : Configuration where
  ProgramSize := 280
  freq
    | .IROR_R => 7 | .IROL_R => 3 | t => baseFreq t

/-- Monero, Safex and Yada have the base's virtual machine.
mirrors src/crypto/randomx/randomx.cpp:55-121 and 384-390 -/
def repository : List Configuration := [base, moneroV2, wownero, arqma, graft]

/-- The frequencies add up to 256. -/
def Complete (c : Configuration) : Prop := (InstructionType.all.map c.freq).sum = 256

instance (c : Configuration) : Decidable c.Complete := inferInstanceAs (Decidable (_ = _))

theorem complete_repository :
    ∀ c ∈ repository, c.Complete ∧ c.ProgramSize ≤ RANDOMX_PROGRAM_MAX_SIZE := by
  decide

theorem base_complete : base.Complete := by decide

/-- The instruction that an opcode is, `ts` being those not tried yet.
mirrors src/crypto/randomx/bytecode_machine.cpp:81-507, its comparisons, and
src/crypto/randomx/randomx.cpp:306-381, the table they fill -/
def decodeFrom (freq : InstructionType → Nat) : List InstructionType → Nat → Option InstructionType
  | [], _ => none
  | t :: ts, opcode => if opcode < freq t then some t else decodeFrom freq ts (opcode - freq t)

def decode (c : Configuration) (instr : Instruction) : Option InstructionType :=
  decodeFrom c.freq InstructionType.all instr.opcode.toNat

theorem decodeFrom_isSome (freq : InstructionType → Nat) (ts : List InstructionType) {opcode : Nat}
    (h : opcode < (ts.map freq).sum) : (decodeFrom freq ts opcode).isSome := by
  induction ts generalizing opcode with
  | nil => simp at h
  | cons t ts ih =>
    rw [decodeFrom]
    split
    · rfl
    · rw [List.map_cons, List.sum_cons] at h
      exact ih (by omega)

/-- **Every opcode is an instruction.** -/
theorem decode_isSome {c : Configuration} (h : c.Complete) (instr : Instruction) :
    (c.decode instr).isSome :=
  decodeFrom_isSome c.freq _ (by rw [h]; exact instr.opcode.isLt)

end Configuration

/-! ## Words -/

def signExtend2sCompl (x : BitVec 32) : BitVec 64 := x.signExtend 64

def mulh (a b : BitVec 64) : BitVec 64 :=
  ((a.zeroExtend 128 * b.zeroExtend 128) >>> 64).setWidth 64

def smulh (a b : BitVec 64) : BitVec 64 :=
  ((a.signExtend 128 * b.signExtend 128) >>> 64).setWidth 64

def rotr64 (a : BitVec 64) (b : Nat) : BitVec 64 := a.rotateRight b

def rotl64 (a : BitVec 64) (b : Nat) : BitVec 64 := a.rotateLeft b

def isZeroOrPowerOf2 (x : BitVec 64) : Bool := x &&& (x - 1) = 0

/-- The second loop, for as many turns: quotient and remainder of the dividend doubled. -/
def reciprocalLoop (divisor : BitVec 64) : Nat → BitVec 64 → BitVec 64 → BitVec 64
  | 0, quotient, _ => quotient
  | shift + 1, quotient, remainder =>
    if remainder ≥ divisor - remainder then
      reciprocalLoop divisor shift (quotient * 2 + 1) (remainder * 2 - divisor)
    else reciprocalLoop divisor shift (quotient * 2) (remainder * 2)

/-- The first loop counts the bits of the divisor.
mirrors src/crypto/randomx/reciprocal.c:47-74 -/
def randomx_reciprocal (divisor : BitVec 64) : BitVec 64 :=
  let p2exp63 : BitVec 64 := 1 <<< 63
  let bsr := divisor.toNat.log2 + 1
  reciprocalLoop divisor bsr (p2exp63 / divisor) (p2exp63 % divisor)

end RandomX

end Rxs
