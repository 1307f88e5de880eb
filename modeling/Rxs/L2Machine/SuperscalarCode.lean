import Rxs.L2Machine.DatasetItem
import Rxs.L2Machine.JitCompilerX86

/-!
# The code of superscalar instructions

`generateSuperscalarCode`: an instruction's bytes, on the register and, with AVX2, on four
lanes behind it. The registers are patched into templates, by the functions `addAt` and
`subAt` where the source counts bytes.
-/
namespace Rxs.RandomX.JitCompilerX86

open Rxs.Core Rxs.Core.Bytes Rxs.RandomX.Superscalar
open SuperscalarInstructionType

/-- `p[i] += n`, and `p[i] -= n`. -/
def addAt (i n : Nat) (p : Bytes) : Bytes := p.modify i (· + UInt8.ofNat n)

def subAt (i n : Nat) (p : Bytes) : Bytes := p.modify i (· - UInt8.ofNat n)

def genSIB (scale index base : Nat) : Nat := scale <<< 6 ||| index <<< 3 ||| base

/-- An operation of two vectors, into the first. -/
def vectors (k dst src : Nat) : Bytes := le 4 (k + src <<< 24 + dst <<< 27 - dst <<< 11)

/-- A constant, for the register and for the lanes: the two opcodes. -/
def constant (op vop : UInt8) (dst : Nat) (v : BitVec 64) : Bytes :=
  let t : Bytes := [0x48, 0xB8, 0x00, 0x00, 0x00, 0x00, 0x00, 0x00, 0x00, 0x00, 0x4C, op, 0xC0,
    0xC4, 0x62, 0x7D, 0x19, 0x05, 0xEC, 0xFF, 0xFF, 0xFF, 0xC4, 0xC1, 0x7D, vop, 0xC0]
  (t.writeAt 2 (le 8 v.toNat)) |> addAt 12 (dst * 8) |> subAt 24 (dst * 8) |> addAt 26 (dst * 8)

/-- The high half of a product, for the register: the opcode of `mul` or `imul`. -/
def product (op dst src : Nat) : Bytes :=
  (le 4 (0x00C08B49 + dst <<< 16)).take 3 ++ (le 4 (op + src <<< 16)).take 3 ++
    (le 4 (0x00C28B4C + dst <<< 19)).take 3

/-- mirrors src/crypto/randomx/jit_compiler_x86.cpp:540-769 -/
def generateSuperscalarCode (AVX2 : Bool) (instr : Instruction) : Option Bytes :=
  let dst := instr.dst.toNat
  let src := instr.src.toNat
  let imm32 := instr.imm32.toNat
  match typeOf instr.opcode with
  | ISUB_R =>
    some ((le 4 (0x00C02B4D + dst <<< 19 + src <<< 16)).take 3 ++
      if AVX2 then vectors 0xC0FBFDC5 dst src else [])
  | IXOR_R =>
    some ((le 4 (0x00C0334D + dst <<< 19 + src <<< 16)).take 3 ++
      if AVX2 then vectors 0xC0EFFDC5 dst src else [])
  | IADD_RS =>
    let shift := instr.getModShift
    some (le 4 (0x00048D4F + dst <<< 19 + genSIB shift src dst <<< 24) ++
      if AVX2 then
        if shift ≠ 0 then
          (([0xC5, 0xBD, 0x73, 0xF0, 0x00, 0xC5, 0xBD, 0xD4, 0xC0] |> addAt 3 src).set 4
            (UInt8.ofNat shift)) |> addAt 8 (dst * 9)
        else vectors 0xC0D4FDC5 dst src
      else [])
  | IMUL_R =>
    some (le 4 (0xC0AF0F4D + dst <<< 27 + src <<< 24) ++
      if AVX2 then
        [0xC5, 0xBD, 0x73, 0xD0, 0x20,
          0xC5, 0xB5, 0x73, 0xD0, 0x20,
          0xC5, 0x7D, 0xF4, 0xD0,
          0xC5, 0x35, 0xF4, 0xD8,
          0xC5, 0xBD, 0xF4, 0xC0,
          0xC4, 0xC1, 0x25, 0x73, 0xF3, 0x20,
          0xC5, 0xFD, 0x73, 0xF0, 0x20,
          0xC4, 0x41, 0x2D, 0xD4, 0xD3,
          0xC5, 0xAD, 0xD4, 0xC0]
        |> addAt 3 dst |> addAt 8 src |> subAt 11 (dst * 8) |> addAt 13 src |> addAt 17 dst
        |> addAt 21 (dst * 8 + src) |> subAt 29 (dst * 8) |> addAt 31 dst |> addAt 41 (dst * 9)
      else [])
  | IROR_C =>
    let shift := imm32 % 64
    some (le 4 (0x00C8C149 + dst <<< 16 + shift <<< 24) ++
      if AVX2 then
        ((([0xC5, 0xBD, 0x73, 0xD0, 0x00, 0xC5, 0xB5, 0x73, 0xF0, 0x00, 0xC4, 0xC1, 0x3D, 0xEB, 0xC1]
          |> addAt 3 dst).set 4 (UInt8.ofNat shift) |> addAt 8 dst).set 9 (UInt8.ofNat (64 - shift)))
          |> addAt 14 (dst * 8)
      else [])
  | IADD_C7 | IADD_C8 | IADD_C9 =>
    some (if AVX2 then constant 0x03 0xD4 dst (signExtend2sCompl instr.imm32)
      else (le 4 (0x00C08149 + dst <<< 16)).take 3 ++ le 4 imm32)
  | IXOR_C7 | IXOR_C8 | IXOR_C9 =>
    some (if AVX2 then constant 0x33 0xEF dst (signExtend2sCompl instr.imm32)
      else (le 4 (0x00F08149 + dst <<< 16)).take 3 ++ le 4 imm32)
  | IMULH_R =>
    some (product 0x00E0F749 dst src ++
      if AVX2 then
        [0xC5, 0xBD, 0x73, 0xD0, 0x20,
          0xC5, 0xB5, 0x73, 0xD0, 0x20,
          0xC5, 0x7D, 0xF4, 0xD0,
          0xC5, 0x3D, 0xF4, 0xD8,
          0xC4, 0x41, 0x7D, 0xF4, 0xE1,
          0xC4, 0xC1, 0x3D, 0xF4, 0xC1,
          0xC4, 0xC1, 0x2D, 0x73, 0xD2, 0x20,
          0xC4, 0x41, 0x25, 0xEF, 0xC6,
          0xC4, 0x41, 0x25, 0xD4, 0xDC,
          0xC4, 0x41, 0x25, 0xD4, 0xDA,
          0xC4, 0x41, 0x25, 0xEF, 0xCE,
          0xC4, 0x42, 0x3D, 0x37, 0xC1,
          0xC4, 0x41, 0x3D, 0xDB, 0xC7,
          0xC5, 0xBD, 0xD4, 0xC0,
          0xC4, 0xC1, 0x25, 0x73, 0xD3, 0x20,
          0xC5, 0xA5, 0xD4, 0xC0]
        |> addAt 3 dst |> addAt 8 src |> subAt 11 (dst * 8) |> addAt 13 src |> addAt 17 src
        |> subAt 20 (dst * 8) |> addAt 27 (dst * 8) |> addAt 67 (dst * 9) |> addAt 77 (dst * 9)
      else [])
  | ISMULH_R =>
    some (product 0x00E8F749 dst src ++
      if AVX2 then
        [0xC5, 0xBD, 0x73, 0xD0, 0x20,
          0xC5, 0xB5, 0x73, 0xD0, 0x20,
          0xC5, 0x7D, 0xF4, 0xD0,
          0xC5, 0x3D, 0xF4, 0xD8,
          0xC4, 0x41, 0x7D, 0xF4, 0xE1,
          0xC4, 0x41, 0x3D, 0xF4, 0xE9,
          0xC4, 0xC1, 0x2D, 0x73, 0xD2, 0x20,
          0xC4, 0x41, 0x25, 0xEF, 0xC6,
          0xC4, 0x41, 0x25, 0xD4, 0xDC,
          0xC4, 0x41, 0x25, 0xD4, 0xDA,
          0xC4, 0x41, 0x25, 0xEF, 0xCE,
          0xC4, 0x42, 0x3D, 0x37, 0xC1,
          0xC4, 0x41, 0x3D, 0xDB, 0xC7,
          0xC4, 0x41, 0x15, 0xD4, 0xE8,
          0xC4, 0xC1, 0x25, 0x73, 0xD3, 0x20,
          0xC4, 0x41, 0x15, 0xD4, 0xC3,
          0xC4, 0x41, 0x35, 0xEF, 0xC9,
          0xC4, 0x62, 0x35, 0x37, 0xD0,
          0xC4, 0x62, 0x35, 0x37, 0xD8,
          0xC5, 0x2D, 0xDB, 0xD0,
          0xC5, 0x25, 0xDB, 0xD8,
          0xC4, 0x41, 0x3D, 0xFB, 0xC2,
          0xC4, 0xC1, 0x3D, 0xFB, 0xC3]
        |> addAt 3 dst |> addAt 8 src |> subAt 11 (dst * 8) |> addAt 13 src |> addAt 17 src
        |> subAt 20 (dst * 8) |> addAt 89 dst |> addAt 94 src |> addAt 98 src |> addAt 102 dst
        |> addAt 112 (dst * 8)
      else [])
  | IMUL_RCP =>
    some ((le 4 0x0000B848).take 2 ++
      le 8 (randomx_reciprocal_fast (instr.imm32.setWidth 64)).toNat ++
      le 4 (0xC0AF0F4C + dst <<< 27) ++
      if AVX2 then
        [0xC4, 0x62, 0x7D, 0x19, 0x25, 0xEB, 0xFF, 0xFF, 0xFF,
          0xC5, 0xBD, 0x73, 0xD0, 0x20,
          0xC4, 0xC1, 0x35, 0x73, 0xD4, 0x20,
          0xC4, 0x41, 0x7D, 0xF4, 0xD4,
          0xC5, 0x35, 0xF4, 0xD8,
          0xC4, 0xC1, 0x3D, 0xF4, 0xC4,
          0xC4, 0xC1, 0x25, 0x73, 0xF3, 0x20,
          0xC5, 0xFD, 0x73, 0xF0, 0x20,
          0xC4, 0x41, 0x2D, 0xD4, 0xD3,
          0xC5, 0xAD, 0xD4, 0xC0]
        |> addAt 12 dst |> subAt 22 (dst * 8) |> addAt 28 dst |> addAt 33 (dst * 8)
        |> subAt 41 (dst * 8) |> addAt 43 dst |> addAt 53 (dst * 9)
      else [])
  -- `UNREACHABLE`
  | INVALID => none

end Rxs.RandomX.JitCompilerX86
