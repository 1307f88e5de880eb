import Mathlib.Order.Fin.Basic
import Rxs.Core.Bytes
import Rxs.L2Machine.BytecodeMachine

/-!
# The compiler for x86-64

Each instruction of a program has a handler that writes its code at `codePos` and moves
`codePos` behind it. A handler may store more bytes than its code has; what is behind
`codePos` is written over. `registerUsage` has, for each integer register, where the
code of the last instruction ends that changed it, which is where a branch goes back to.

A `CFROUND` that no rounding operation follows before the next `CFROUND` is overwritten
with code that does nothing.

* `Block`: the code of one instruction while it is written.
* `h_IADD_RS` to `h_NOP`: the handlers.
* `generate`: the handlers of a program, one after the other.
-/
namespace Rxs.RandomX

open Rxs.Core Rxs.Core.Bytes Rxs.RandomX.BytecodeMachine

/-- What the compiler asks of the processor, and the flag of its virtual machine. -/
structure Cpu where
  hasBMI2 : Bool
  hasXOP : Bool
  jccErratum : Bool
  amd : Bool
  deriving DecidableEq, Repr

/-- The code of one instruction while it is written; `pos` counts from where it starts. -/
structure Block where
  bytes : Bytes := []
  pos : Nat := 0
  deriving DecidableEq, Repr

namespace Block

def store (b : Block) (off : Nat) (d : Bytes) : Block :=
  { b with bytes := b.bytes.writeAt (b.pos + off) d }

def skip (b : Block) (n : Nat) : Block := { b with pos := b.pos + n }

def store32 (b : Block) (off v : Nat) : Block := b.store off (le 4 v)

def store64 (b : Block) (off v : Nat) : Block := b.store off (le 8 v)

/-- mirrors src/crypto/randomx/jit_compiler_x86.hpp:123-146 -/
def emit (b : Block) (d : Bytes) : Block := (b.store 0 d).skip d.length

def emitByte (b : Block) (v : Nat) : Block := b.emit (le 1 v)

def emit32 (b : Block) (v : Nat) : Block := b.emit (le 4 v)

def emit64 (b : Block) (v : Nat) : Block := b.emit (le 8 v)

/-- The code, without what was stored behind it. -/
def code (b : Block) : Bytes := b.bytes.take b.pos

end Block

namespace JitCompilerX86

/-- Code that does nothing, for each length up to nine.
mirrors src/crypto/randomx/jit_compiler_x86.cpp:165-175 -/
def NOPX : Nat → Bytes
  | 1 => [0x90]
  | 2 => [0x66, 0x90]
  | 3 => [0x66, 0x66, 0x90]
  | 4 => [0x0F, 0x1F, 0x40, 0x00]
  | 5 => [0x0F, 0x1F, 0x44, 0x00, 0x00]
  | 6 => [0x66, 0x0F, 0x1F, 0x44, 0x00, 0x00]
  | 7 => [0x0F, 0x1F, 0x80, 0x00, 0x00, 0x00, 0x00]
  | 8 => [0x0F, 0x1F, 0x84, 0x00, 0x00, 0x00, 0x00, 0x00]
  | 9 => [0x66, 0x0F, 0x1F, 0x84, 0x00, 0x00, 0x00, 0x00, 0x00]
  | _ => []

/-- mirrors src/crypto/randomx/jit_compiler_x86.cpp:177-180 -/
def NOP13 : Bytes := NOPX 8 ++ NOPX 5
def NOP14 : Bytes := NOPX 7 ++ NOPX 7
def NOP25 : Bytes := NOPX 9 ++ NOPX 8 ++ NOPX 8
def NOP26 : Bytes := NOPX 9 ++ NOPX 9 ++ NOPX 8

/-- Prefixes that a following instruction ignores, behind code that does nothing.
mirrors src/crypto/randomx/jit_compiler_x86.cpp:182-197 -/
def JMP_ALIGN_PREFIX (n : Nat) : Bytes :=
  if n ≤ 8 then List.replicate n 0x2E else NOPX (n - 8) ++ List.replicate 8 0x2E

/-- mirrors src/crypto/randomx/jit_compiler_x86.cpp:777-793 -/
def genAddressReg (c : Configuration) (rax : Bool) (instr : Instruction) (src : Nat) (b : Block) :
    Block :=
  let b := b.store32 0 ((if rax then 0x24808d41 else 0x24888d41) + src <<< 16)
  let b := b.skip (if src = 4 then 4 else 3)
  let b := b.emit32 instr.imm32.toNat
  let b := if rax then b.emitByte 0x25 else (b.store32 0 0xe181).skip 2
  b.emit32 (c.AddressMask instr.getModMem).toNat

/-- mirrors src/crypto/randomx/jit_compiler_x86.cpp:798-809 -/
def genAddressRegDst (c : Configuration) (instr : Instruction) (b : Block) : Block :=
  let dst := instr.dst.toNat
  let b := b.store32 0 (0x24808d41 + dst <<< 16)
  let b := b.skip (if dst = 4 then 4 else 3)
  let b := b.emit32 instr.imm32.toNat
  let b := b.emitByte 0x25
  b.emit32 (if instr.mod.toNat < StoreL3Condition <<< 4 then (c.AddressMask instr.getModMem).toNat
    else c.ScratchpadL3Mask.toNat)

/-- mirrors src/crypto/randomx/jit_compiler_x86.cpp:811-813 -/
def genAddressImm (c : Configuration) (instr : Instruction) (b : Block) : Block :=
  b.emit32 (instr.imm32 &&& c.ScratchpadL3Mask).toNat

end JitCompilerX86

/-- `code` is what has been written so far; `imul_rcp_storage` is a place in it. -/
structure JitCompilerX86 where
  code : Bytes
  codePos : Nat
  registerUsage : Usage
  prevCFROUND : Int := -1
  prevFPOperation : Int := -1
  imul_rcp_storage : Nat
  imul_rcp_storage_used : Nat := 0

namespace JitCompilerX86

variable (c : Configuration) (cpu : Cpu)

/-- The block is written, and `codePos` is behind its code. -/
def done (s : JitCompilerX86) (b : Block) : JitCompilerX86 :=
  { s with code := s.code.writeAt s.codePos b.bytes, codePos := s.codePos + b.pos }

/-- The register was changed by what is written last. -/
def used (s : JitCompilerX86) (r : Reg) : JitCompilerX86 :=
  { s with registerUsage := Function.update s.registerUsage r s.codePos }

/-- A rounding operation is written next. -/
def rounding (s : JitCompilerX86) : JitCompilerX86 := { s with prevFPOperation := s.codePos }

/-! ## Integer instructions -/

def block_IADD_RS (instr : Instruction) : Block :=
  let dst := instr.dst.toNat
  let sib := instr.getModShift <<< 6 ||| instr.src.toNat <<< 3 ||| dst
  let k := if dst = 5 then 0xac8d4f else 0x048d4f + dst <<< 19
  let b : Block := {}
  let b := b.store32 0 (k ||| sib <<< 24)
  let b := b.store32 4 instr.imm32.toNat
  b.skip (if dst = 5 then 8 else 4)

/-- mirrors src/crypto/randomx/jit_compiler_x86.cpp:815-833 -/
def h_IADD_RS (instr : Instruction) (s : JitCompilerX86) : JitCompilerX86 :=
  (s.done (block_IADD_RS instr)).used (reg instr.dst)

/-- An operand in memory, at a register or at the immediate: the two opcodes. -/
def blockMem (viaReg viaImm : Nat) (instr : Instruction) : Block :=
  let src := instr.src.toNat
  let dst := instr.dst.toNat
  if src ≠ dst then (genAddressReg c true instr src {}).emit32 (viaReg + dst <<< 19)
  else genAddressImm c instr (((({} : Block).store32 0 (viaImm + dst <<< 19))).skip 3)

def block_IADD_M : Instruction → Block := blockMem c 0x0604034c 0x86034c

/-- mirrors src/crypto/randomx/jit_compiler_x86.cpp:835-854 -/
def h_IADD_M (instr : Instruction) (s : JitCompilerX86) : JitCompilerX86 :=
  (s.done (block_IADD_M c instr)).used (reg instr.dst)

def block_ISUB_R (instr : Instruction) : Block :=
  let src := instr.src.toNat
  let dst := instr.dst.toNat
  let b : Block := {}
  if src ≠ dst then (b.store32 0 (0xc02b4d + dst <<< 19 + src <<< 16)).skip 3
  else ((b.store32 0 (0xe88149 + dst <<< 16)).skip 3).emit32 instr.imm32.toNat

/-- mirrors src/crypto/randomx/jit_compiler_x86.cpp:856-875 -/
def h_ISUB_R (instr : Instruction) (s : JitCompilerX86) : JitCompilerX86 :=
  (s.done (block_ISUB_R instr)).used (reg instr.dst)

def block_ISUB_M : Instruction → Block := blockMem c 0x06042b4c 0x862b4c

/-- mirrors src/crypto/randomx/jit_compiler_x86.cpp:877-896 -/
def h_ISUB_M (instr : Instruction) (s : JitCompilerX86) : JitCompilerX86 :=
  (s.done (block_ISUB_M c instr)).used (reg instr.dst)

def block_IMUL_R (instr : Instruction) : Block :=
  let src := instr.src.toNat
  let dst := instr.dst.toNat
  let b : Block := {}
  if src ≠ dst then b.emit32 (0xc0af0f4d + (dst * 8 + src) <<< 24)
  else ((b.store32 0 (0xc0694d + (dst <<< 3 + dst) <<< 16)).skip 3).emit32 instr.imm32.toNat

/-- mirrors src/crypto/randomx/jit_compiler_x86.cpp:898-916 -/
def h_IMUL_R (instr : Instruction) (s : JitCompilerX86) : JitCompilerX86 :=
  (s.done (block_IMUL_R instr)).used (reg instr.dst)

def block_IMUL_M (instr : Instruction) : Block :=
  let src := instr.src.toNat
  let dst := instr.dst.toNat
  if src ≠ dst then
    ((genAddressReg c true instr src {}).store64 0 (0x0604af0f4c + dst <<< 27)).skip 5
  else genAddressImm c instr (({} : Block).emit32 (0x86af0f4c + dst <<< 27))

/-- mirrors src/crypto/randomx/jit_compiler_x86.cpp:918-937 -/
def h_IMUL_M (instr : Instruction) (s : JitCompilerX86) : JitCompilerX86 :=
  (s.done (block_IMUL_M c instr)).used (reg instr.dst)

def block_IMULH_R (instr : Instruction) : Block :=
  let src := instr.src.toNat
  let dst := instr.dst.toNat
  let b : Block := {}
  let b := b.store32 0 (0xc08b49 + dst <<< 16)
  let b := b.store32 3 (0xe0f749 + src <<< 16)
  let b := b.store32 6 (0xc28b4c + dst <<< 19)
  b.skip 9

/-- mirrors src/crypto/randomx/jit_compiler_x86.cpp:939-953 -/
def h_IMULH_R (instr : Instruction) (s : JitCompilerX86) : JitCompilerX86 :=
  (s.done (block_IMULH_R instr)).used (reg instr.dst)

def block_IMULH_R_BMI2 (instr : Instruction) : Block :=
  let src := instr.src.toNat
  let dst := instr.dst.toNat
  let b : Block := {}
  let b := b.store32 0 (0xC4D08B49 + dst <<< 16)
  let b := b.store32 4 (0xC0F6FB42 + dst <<< 27 + src <<< 24)
  b.skip 8

/-- mirrors src/crypto/randomx/jit_compiler_x86.cpp:955-968 -/
def h_IMULH_R_BMI2 (instr : Instruction) (s : JitCompilerX86) : JitCompilerX86 :=
  (s.done (block_IMULH_R_BMI2 instr)).used (reg instr.dst)

/-- The high half of a product with memory: the two opcodes. -/
def blockMulMem (viaReg viaImm : Nat) (instr : Instruction) : Block :=
  let src := instr.src.toNat
  let dst := instr.dst.toNat
  let b :=
    if src ≠ dst then ((genAddressReg c false instr src {}).store64 0 (viaReg + dst <<< 16)).skip 7
    else genAddressImm c instr ((({} : Block).store64 0 (viaImm + dst <<< 16)).skip 6)
  (b.store32 0 (0xc28b4c + dst <<< 19)).skip 3

def block_IMULH_M : Instruction → Block := blockMulMem c 0x0e24f748c08b49 0xa6f748c08b49

/-- mirrors src/crypto/randomx/jit_compiler_x86.cpp:970-992 -/
def h_IMULH_M (instr : Instruction) (s : JitCompilerX86) : JitCompilerX86 :=
  (s.done (block_IMULH_M c instr)).used (reg instr.dst)

def block_IMULH_M_BMI2 (instr : Instruction) : Block :=
  let src := instr.src.toNat
  let dst := instr.dst.toNat
  if src ≠ dst then
    let b := genAddressReg c false instr src {}
    let b := b.store32 0 (0xC4D08B49 + dst <<< 16)
    let b := b.store64 4 (0x0E04F6FB62 + dst <<< 27)
    b.skip 9
  else
    let b : Block := {}
    let b := b.store64 0 (0x86F6FB62C4D08B49 + dst <<< 16 + dst <<< 59)
    let b := b.store32 8 (instr.imm32 &&& c.ScratchpadL3Mask).toNat
    b.skip 12

/-- mirrors src/crypto/randomx/jit_compiler_x86.cpp:994-1015 -/
def h_IMULH_M_BMI2 (instr : Instruction) (s : JitCompilerX86) : JitCompilerX86 :=
  (s.done (block_IMULH_M_BMI2 c instr)).used (reg instr.dst)

def block_ISMULH_R (instr : Instruction) : Block :=
  let src := instr.src.toNat
  let dst := instr.dst.toNat
  let b : Block := {}
  let b := (b.store64 0 (0x8b4ce8f749c08b49 + dst <<< 16 + src <<< 40)).skip 8
  b.emitByte (0xc2 + 8 * dst)

/-- mirrors src/crypto/randomx/jit_compiler_x86.cpp:1017-1030 -/
def h_ISMULH_R (instr : Instruction) (s : JitCompilerX86) : JitCompilerX86 :=
  (s.done (block_ISMULH_R instr)).used (reg instr.dst)

def block_ISMULH_M : Instruction → Block := blockMulMem c 0x0e2cf748c08b49 0xaef748c08b49

/-- mirrors src/crypto/randomx/jit_compiler_x86.cpp:1032-1054 -/
def h_ISMULH_M (instr : Instruction) (s : JitCompilerX86) : JitCompilerX86 :=
  (s.done (block_ISMULH_M c instr)).used (reg instr.dst)

/-- The quotient of the division of `2 ^ bsr` and 64 zeros.
mirrors src/crypto/randomx/asm/randomx_reciprocal.inc -/
def randomx_reciprocal_fast (divisor : BitVec 64) : BitVec 64 :=
  BitVec.ofNat 64 (2 ^ divisor.toNat.log2 * 2 ^ 64 / divisor.toNat)

/-- The first sixteen constants are on the stack, below the stack pointer. -/
def block_IMUL_RCP (reciprocal : BitVec 64) (used : Nat) (instr : Instruction) : Block :=
  let dst := instr.dst.toNat
  let b : Block := {}
  if used < 16 then (b.store64 0 (0x2444AF0F4C + dst <<< 27 + (248 - used * 8) <<< 40)).skip 6
  else
    let b := (b.store32 0 0xb848).skip 2
    let b := b.emit64 reciprocal.toNat
    b.emit32 (0xc0af0f4c + dst <<< 27)

/-- mirrors src/crypto/randomx/jit_compiler_x86.cpp:1056-1085 -/
def h_IMUL_RCP (instr : Instruction) (s : JitCompilerX86) : JitCompilerX86 :=
  let divisor := instr.imm32.setWidth 64
  if ¬ isZeroOrPowerOf2 divisor then
    let reciprocal := randomx_reciprocal_fast divisor
    let b := block_IMUL_RCP reciprocal s.imul_rcp_storage_used instr
    let s :=
      if s.imul_rcp_storage_used < 16 then
        { s with
          code := s.code.writeAt s.imul_rcp_storage (le 8 reciprocal.toNat)
          imul_rcp_storage_used := s.imul_rcp_storage_used + 1
          imul_rcp_storage := s.imul_rcp_storage + 11 }
      else s
    (s.done b).used (reg instr.dst)
  else s

def block_INEG_R (instr : Instruction) : Block :=
  (({} : Block).store32 0 (0xd8f749 + instr.dst.toNat <<< 16)).skip 3

/-- mirrors src/crypto/randomx/jit_compiler_x86.cpp:1087-1097 -/
def h_INEG_R (instr : Instruction) (s : JitCompilerX86) : JitCompilerX86 :=
  (s.done (block_INEG_R instr)).used (reg instr.dst)

def block_IXOR_R (instr : Instruction) : Block :=
  let src := instr.src.toNat
  let dst := instr.dst.toNat
  let b : Block := {}
  if src ≠ dst then (b.store32 0 (0xc0334d + (dst <<< 3 + src) <<< 16)).skip 3
  else (b.store64 0 (instr.imm32.toNat <<< 24 + 0xf08149 + dst <<< 16)).skip 7

/-- mirrors src/crypto/randomx/jit_compiler_x86.cpp:1099-1118 -/
def h_IXOR_R (instr : Instruction) (s : JitCompilerX86) : JitCompilerX86 :=
  (s.done (block_IXOR_R instr)).used (reg instr.dst)

def block_IXOR_M : Instruction → Block := blockMem c 0x0604334c 0x86334c

/-- mirrors src/crypto/randomx/jit_compiler_x86.cpp:1120-1139 -/
def h_IXOR_M (instr : Instruction) (s : JitCompilerX86) : JitCompilerX86 :=
  (s.done (block_IXOR_M c instr)).used (reg instr.dst)

/-- A rotation, by a register or by the immediate: the two opcodes. -/
def blockRot (viaReg viaImm : Nat) (instr : Instruction) : Block :=
  let src := instr.src.toNat
  let dst := instr.dst.toNat
  let b : Block := {}
  if src ≠ dst then (b.store64 0 (viaReg + src <<< 16 + dst <<< 40)).skip 6
  else ((b.store32 0 (viaImm + dst <<< 16)).skip 3).emitByte (instr.imm32.toNat % 64)

def block_IROR_R : Instruction → Block := blockRot 0xc8d349c88b41 0xc8c149

/-- mirrors src/crypto/randomx/jit_compiler_x86.cpp:1141-1160 -/
def h_IROR_R (instr : Instruction) (s : JitCompilerX86) : JitCompilerX86 :=
  (s.done (block_IROR_R instr)).used (reg instr.dst)

def block_IROL_R : Instruction → Block := blockRot 0xc0d349c88b41 0xc0c149

/-- mirrors src/crypto/randomx/jit_compiler_x86.cpp:1162-1181 -/
def h_IROL_R (instr : Instruction) (s : JitCompilerX86) : JitCompilerX86 :=
  (s.done (block_IROL_R instr)).used (reg instr.dst)

def block_ISWAP_R (instr : Instruction) : Block :=
  (({} : Block).store32 0
    (0xc0874d + (instr.dst.toNat <<< 3 + instr.src.toNat) <<< 16)).skip 3

/-- mirrors src/crypto/randomx/jit_compiler_x86.cpp:1183-1198 -/
def h_ISWAP_R (instr : Instruction) (s : JitCompilerX86) : JitCompilerX86 :=
  if instr.src.toNat ≠ instr.dst.toNat then
    ((s.done (block_ISWAP_R instr)).used (reg instr.dst)).used (reg instr.src)
  else s

/-! ## Floating-point instructions -/

def block_FSWAP_R (instr : Instruction) : Block :=
  let dst := instr.dst.toNat
  (({} : Block).store64 0 (0x01c0c60f66 + (dst <<< 3 + dst) <<< 24)).skip 5

/-- mirrors src/crypto/randomx/jit_compiler_x86.cpp:1200-1210 -/
def h_FSWAP_R (instr : Instruction) (s : JitCompilerX86) : JitCompilerX86 :=
  s.done (block_FSWAP_R instr)

/-- Two registers, and the opcode. -/
def blockFlt (k : Nat) (instr : Instruction) : Block :=
  let dst := instr.dst.toNat % 4
  let src := instr.src.toNat % 4
  (({} : Block).store64 0 (k + (dst <<< 3 + src) <<< 32)).skip 5

def block_FADD_R : Instruction → Block := blockFlt 0xc0580f4166

/-- mirrors src/crypto/randomx/jit_compiler_x86.cpp:1212-1225 -/
def h_FADD_R (instr : Instruction) (s : JitCompilerX86) : JitCompilerX86 :=
  s.rounding.done (block_FADD_R instr)

/-- A register and memory, and the opcode. -/
def blockFltMem (k : Nat) (instr : Instruction) : Block :=
  let b := genAddressReg c true instr instr.src.toNat {}
  let b := b.store64 0 0x41660624e60f44f3
  let b := b.store32 8 (k + (instr.dst.toNat % 4) <<< 19)
  b.skip 11

def block_FADD_M : Instruction → Block := blockFltMem c 0xc4580f

/-- mirrors src/crypto/randomx/jit_compiler_x86.cpp:1227-1242 -/
def h_FADD_M (instr : Instruction) (s : JitCompilerX86) : JitCompilerX86 :=
  s.rounding.done (block_FADD_M c instr)

def block_FSUB_R : Instruction → Block := blockFlt 0xc05c0f4166

/-- mirrors src/crypto/randomx/jit_compiler_x86.cpp:1244-1257 -/
def h_FSUB_R (instr : Instruction) (s : JitCompilerX86) : JitCompilerX86 :=
  s.rounding.done (block_FSUB_R instr)

def block_FSUB_M : Instruction → Block := blockFltMem c 0xc45c0f

/-- mirrors src/crypto/randomx/jit_compiler_x86.cpp:1259-1274 -/
def h_FSUB_M (instr : Instruction) (s : JitCompilerX86) : JitCompilerX86 :=
  s.rounding.done (block_FSUB_M c instr)

def block_FSCAL_R (instr : Instruction) : Block :=
  ({} : Block).emit32 (0xc7570f41 + (instr.dst.toNat % 4) <<< 27)

/-- mirrors src/crypto/randomx/jit_compiler_x86.cpp:1276-1285 -/
def h_FSCAL_R (instr : Instruction) (s : JitCompilerX86) : JitCompilerX86 :=
  s.done (block_FSCAL_R instr)

def block_FMUL_R : Instruction → Block := blockFlt 0xe0590f4166

/-- mirrors src/crypto/randomx/jit_compiler_x86.cpp:1287-1300 -/
def h_FMUL_R (instr : Instruction) (s : JitCompilerX86) : JitCompilerX86 :=
  s.rounding.done (block_FMUL_R instr)

def block_FDIV_M (instr : Instruction) : Block :=
  let b := genAddressReg c true instr instr.src.toNat {}
  let b := (b.store64 0 0x0624e60f44f3).skip 6
  let b :=
    if cpu.hasXOP then (b.store64 0 0xd0e6a218488f).skip 6
    else (b.store64 0 0xe6560f45e5540f45).skip 8
  (b.store64 0 (0xe45e0f4166 + (instr.dst.toNat % 4) <<< 35)).skip 5

/-- mirrors src/crypto/randomx/jit_compiler_x86.cpp:1302-1327 -/
def h_FDIV_M (instr : Instruction) (s : JitCompilerX86) : JitCompilerX86 :=
  s.rounding.done (block_FDIV_M c cpu instr)

def block_FSQRT_R (instr : Instruction) : Block :=
  let dst := instr.dst.toNat % 4
  ({} : Block).emit32 (0xe4510f66 + (dst <<< 3 + dst) <<< 24)

/-- mirrors src/crypto/randomx/jit_compiler_x86.cpp:1329-1340 -/
def h_FSQRT_R (instr : Instruction) (s : JitCompilerX86) : JitCompilerX86 :=
  s.rounding.done (block_FSQRT_R instr)

/-! ## Rounding mode, branches, stores -/

/-- The rotation that has the two bits of the mode at the place of the control word. -/
def rotate (instr : Instruction) : Nat := (instr.imm32.toNat % 64 + 62) % 64

/-- What follows the rotation: a test in the second version, and the control word. -/
def blockMode (start : Nat) (b : Block) : Block :=
  if cpu.amd then
    let b := if c.Tweak_V2_CFROUND then (b.store32 0 0x1375F0A8).skip 4 else b
    let b := b.store64 0 0x742024443B0CE083
    let b := b.store64 8 0x8900EB0414AE0F0A
    let b := b.store32 16 0x202444
    b.skip 19
  else
    let b :=
      if c.Tweak_V2_CFROUND then
        let branch_begin := (start + b.pos) % 32
        let b := if cpu.jccErratum ∧ branch_begin ≥ 28 then b.emit (NOPX (32 - branch_begin)) else b
        (b.store32 0 0x0775F0A8).skip 4
      else b
    (b.store64 0 0x0414AE0F0CE083).skip 7

/-- The code of a `CFROUND` that is written at `start`. -/
def block_CFROUND (start : Nat) (instr : Instruction) : Block :=
  let b : Block := {}
  let b := b.store32 0 (0x00C08B49 + instr.src.toNat <<< 16)
  let b := b.store32 3 (0x00C8C148 + rotate instr <<< 24)
  blockMode c cpu start (b.skip 7)

def block_CFROUND_BMI2 (start : Nat) (instr : Instruction) : Block :=
  let b : Block := {}
  let b := b.store64 0 (0xC0F0FBC3C4 ||| instr.src.toNat <<< 32 ||| rotate instr <<< 40)
  blockMode c cpu start (b.skip 6)

/-- The last `CFROUND` is overwritten if no rounding operation came behind it. -/
def overwrite (nops : Bytes) (s : JitCompilerX86) : JitCompilerX86 :=
  { s with
    code :=
      if s.prevCFROUND > s.prevFPOperation ∧ ¬ c.Tweak_V2_CFROUND then
        s.code.writeAt s.prevCFROUND.toNat nops
      else s.code }

/-- mirrors src/crypto/randomx/jit_compiler_x86.cpp:1342-1400 -/
def h_CFROUND (instr : Instruction) (s : JitCompilerX86) : JitCompilerX86 :=
  let s := overwrite c (if cpu.amd then NOP26 else NOP14) s
  { s with prevCFROUND := s.codePos }.done (block_CFROUND c cpu s.codePos instr)

/-- mirrors src/crypto/randomx/jit_compiler_x86.cpp:1402-1459 -/
def h_CFROUND_BMI2 (instr : Instruction) (s : JitCompilerX86) : JitCompilerX86 :=
  let s := overwrite c (if cpu.amd then NOP25 else NOP13) s
  { s with prevCFROUND := s.codePos }.done (block_CFROUND_BMI2 c cpu s.codePos instr)

/-- How many bytes come before a branch written at `pos` that has `jmp_offset` to go. -/
def alignment (pos : Nat) (jmp_offset : Int) : Nat :=
  let branch_begin := pos + 7
  let branch_end := branch_begin + if jmp_offset ≥ -128 then 9 else 13
  if cpu.jccErratum ∧ branch_begin ^^^ branch_end ≥ 32 then 32 - branch_begin % 32 else 0

/-- `target` is where the branch goes back to. -/
def block_CBRANCH (pos : Nat) (target : Int) (instr : Instruction) : Block :=
  let jmp_offset := target - (pos + 16)
  let alignment_size := alignment cpu pos jmp_offset
  let jmp_offset := jmp_offset - alignment_size
  let b := ({} : Block).emit (JMP_ALIGN_PREFIX alignment_size)
  let reg := instr.dst.toNat
  let shift := instr.getModCond
  let or_mask := (1#32 <<< JumpOffset) <<< shift
  let and_mask := (~~~(1#32 <<< (JumpOffset - 1))).rotateLeft shift
  let b := b.store32 0 (0x00c08149 + reg <<< 16)
  let b := b.store32 3 ((instr.imm32 ||| or_mask) &&& and_mask).toNat
  let b := b.store32 7 (0x00c0f749 + reg <<< 16)
  let b := b.store32 10 (ConditionMask_Calculated <<< shift).toNat
  let b := b.skip 14
  if jmp_offset ≥ -128 then
    (b.store32 0 (0x74 + (BitVec.ofInt 32 jmp_offset).toNat <<< 8)).skip 2
  else (b.store64 0 (0x840f + (BitVec.ofInt 64 (jmp_offset - 4)).toNat <<< 16)).skip 6

/-- A branch back over a rounding operation counts as one.
mirrors src/crypto/randomx/jit_compiler_x86.cpp:1461-1515 -/
def h_CBRANCH (instr : Instruction) (s : JitCompilerX86) : JitCompilerX86 :=
  let target := s.registerUsage (reg instr.dst)
  let s := { s with
    prevFPOperation := if target ≤ s.prevFPOperation then s.codePos else s.prevFPOperation }
  let s := s.done (block_CBRANCH cpu s.codePos target instr)
  { s with registerUsage := fun _ => s.codePos }

def block_ISTORE (instr : Instruction) : Block :=
  (genAddressRegDst c instr {}).emit32 (0x0604894c + instr.src.toNat <<< 19)

/-- mirrors src/crypto/randomx/jit_compiler_x86.cpp:1520-1528 -/
def h_ISTORE (instr : Instruction) (s : JitCompilerX86) : JitCompilerX86 :=
  s.done (block_ISTORE c instr)

def block_NOP : Block := ({} : Block).emitByte 0x90

/-- mirrors src/crypto/randomx/jit_compiler_x86.cpp:1530-1532 -/
def h_NOP (s : JitCompilerX86) : JitCompilerX86 := s.done block_NOP

/-! ## A program -/

/-- The handler of an instruction.
mirrors src/crypto/randomx/randomx.cpp:320-381 -/
def handler : InstructionType → Instruction → JitCompilerX86 → JitCompilerX86
  | .IADD_RS => h_IADD_RS
  | .IADD_M => h_IADD_M c
  | .ISUB_R => h_ISUB_R
  | .ISUB_M => h_ISUB_M c
  | .IMUL_R => h_IMUL_R
  | .IMUL_M => h_IMUL_M c
  | .IMULH_R => if cpu.hasBMI2 then h_IMULH_R_BMI2 else h_IMULH_R
  | .IMULH_M => if cpu.hasBMI2 then h_IMULH_M_BMI2 c else h_IMULH_M c
  | .ISMULH_R => h_ISMULH_R
  | .ISMULH_M => h_ISMULH_M c
  | .IMUL_RCP => h_IMUL_RCP
  | .INEG_R => h_INEG_R
  | .IXOR_R => h_IXOR_R
  | .IXOR_M => h_IXOR_M c
  | .IROR_R => h_IROR_R
  | .IROL_R => h_IROL_R
  | .ISWAP_R => h_ISWAP_R
  | .FSWAP_R => h_FSWAP_R
  | .FADD_R => h_FADD_R
  | .FADD_M => h_FADD_M c
  | .FSUB_R => h_FSUB_R
  | .FSUB_M => h_FSUB_M c
  | .FSCAL_R => h_FSCAL_R
  | .FMUL_R => h_FMUL_R
  | .FDIV_M => h_FDIV_M c cpu
  | .FSQRT_R => h_FSQRT_R
  | .CBRANCH => h_CBRANCH cpu
  | .CFROUND => if cpu.hasBMI2 then h_CFROUND_BMI2 c cpu else h_CFROUND c cpu
  | .ISTORE => h_ISTORE c
  | .NOP => fun _ => h_NOP

/-- The handler that the table has for the opcode. Frequencies that add up to 256 leave
no place of it empty. -/
def engine (instr : Instruction) (s : JitCompilerX86) : JitCompilerX86 :=
  match c.decode instr with
  | some type => handler c cpu type instr s
  | none => s

/-- The program's instructions in order; the source takes four of them at a time.
mirrors src/crypto/randomx/jit_compiler_x86.cpp:475-492 -/
def generate (program : List Instruction) (s : JitCompilerX86) : JitCompilerX86 :=
  program.foldl (fun s instr => engine c cpu instr s) s

/-- Before the first instruction: `code` has room for a program at `codePosFirst`, and
the sixteen constants stand before it, eleven bytes apart. -/
structure Prepared (s : JitCompilerX86) (codePosFirst : Nat) : Prop where
  codePos : s.codePos = codePosFirst
  registerUsage : s.registerUsage = fun _ => (codePosFirst : Int)
  prevCFROUND : s.prevCFROUND = -1
  prevFPOperation : s.prevFPOperation = -1
  imul_rcp_storage_used : s.imul_rcp_storage_used = 0
  storage : s.imul_rcp_storage + 16 * 11 ≤ codePosFirst
  room : codePosFirst + 16384 ≤ s.code.length

/-- The compiler is set up.
mirrors src/crypto/randomx/jit_compiler_x86.cpp:461-473 -/
def prepare (code : Bytes) (codePosFirst imul_rcp_storage : Nat) : JitCompilerX86 where
  code := code
  codePos := codePosFirst
  registerUsage := fun _ => codePosFirst
  imul_rcp_storage := imul_rcp_storage

theorem prepared_prepare {code : Bytes} {codePosFirst imul_rcp_storage : Nat}
    (hs : imul_rcp_storage + 16 * 11 ≤ codePosFirst) (hr : codePosFirst + 16384 ≤ code.length) :
    (prepare code codePosFirst imul_rcp_storage).Prepared codePosFirst :=
  ⟨rfl, rfl, rfl, rfl, rfl, hs, hr⟩

end JitCompilerX86

end Rxs.RandomX
