import Rxs.Core.Avx2
import Rxs.L2Machine.JitAssembly
import Rxs.L2Machine.SuperscalarCode

/-!
# Superscalar instructions as assembly

`assembly` says what a superscalar instruction is compiled to: `ints` on lane 0, and with
AVX2 `lanes` on the others. `encodes_code`: its bytes are the code that is generated,
whichever registers are patched into it.
-/
namespace Rxs

open Rxs.Core Rxs.Core.Bytes Rxs.RandomX Rxs.RandomX.BytecodeMachine Rxs.RandomX.JitCompilerX86
open Rxs.RandomX.Superscalar Rxs.L2.JitControl Rxs.Core.Avx2
open SuperscalarInstructionType

namespace L2.SuperscalarAssembly

/-- The vector register that has the lanes of a register. -/
def lane (r : Reg) : X86.Reg := ⟨r.val, by omega⟩

/-- The instructions on lane 0. -/
def ints (AVX2 : Bool) (type : SuperscalarInstructionType) (instr : Instruction) :
    List X86.Instr :=
  let dst := native (reg instr.dst)
  let src := native (reg instr.src)
  match type with
  | ISUB_R => [.alu .sub dst (.reg src)]
  | IXOR_R => [.alu .xor dst (.reg src)]
  | IADD_RS => [.lea true dst ⟨some dst, some (src, instr.getModShift), 0⟩]
  | IMUL_R => [.imul dst (.reg src)]
  | IROR_C => [.rot false dst (.imm (instr.imm32.toNat % 64))]
  | IADD_C7 | IADD_C8 | IADD_C9 =>
    if AVX2 then [.movImm X86.rax (signExtend2sCompl instr.imm32), .alu .add dst (.reg X86.rax)]
    else [.aluImm .add true dst instr.imm32]
  | IXOR_C7 | IXOR_C8 | IXOR_C9 =>
    if AVX2 then [.movImm X86.rax (signExtend2sCompl instr.imm32), .alu .xor dst (.reg X86.rax)]
    else [.aluImm .xor true dst instr.imm32]
  | IMULH_R => [.mov true X86.rax (.reg dst), .mul false (.reg src), .mov true dst (.reg X86.rdx)]
  | ISMULH_R => [.mov true X86.rax (.reg dst), .mul true (.reg src), .mov true dst (.reg X86.rdx)]
  | IMUL_RCP =>
    [.movImm X86.rax (randomx_reciprocal_fast (instr.imm32.setWidth 64)), .imul dst (.reg X86.rax)]
  | INVALID => []

/-- The products of halves that the middle of a high product needs, and their sum; the
flipped sign bits are compared. -/
def middle (dst src : X86.Reg) (high : X86.Reg) : List LaneInstr :=
  [.shift false 8 dst 32, .shift false 9 src 32, .op .vpmuludq 10 dst src, .op .vpmuludq 11 8 src,
    .op .vpmuludq 12 dst 9, .op .vpmuludq high 8 9, .shift false 10 10 32, .op .vpxor 8 11 14,
    .op .vpaddq 11 11 12, .op .vpaddq 11 11 10, .op .vpxor 9 11 14, .op .vpcmpgtq 8 8 9,
    .op .vpand 8 8 15]

/-- The instructions on lanes 1 to 4. -/
def lanes (type : SuperscalarInstructionType) (instr : Instruction) : List LaneInstr :=
  let dst := lane (reg instr.dst)
  let src := lane (reg instr.src)
  match type with
  | ISUB_R => [.op .vpsubq dst dst src]
  | IXOR_R => [.op .vpxor dst dst src]
  | IADD_RS =>
    if instr.getModShift ≠ 0 then [.shift true 8 src instr.getModShift, .op .vpaddq dst 8 dst]
    else [.op .vpaddq dst dst src]
  | IMUL_R =>
    [.shift false 8 dst 32, .shift false 9 src 32, .op .vpmuludq 10 dst src,
      .op .vpmuludq 11 9 dst, .op .vpmuludq dst 8 src, .shift true 11 11 32,
      .shift true dst dst 32, .op .vpaddq 10 10 11, .op .vpaddq dst 10 dst]
  | IROR_C =>
    [.shift false 8 dst (instr.imm32.toNat % 64), .shift true 9 dst (64 - instr.imm32.toNat % 64),
      .op .vpor dst 8 9]
  | IADD_C7 | IADD_C8 | IADD_C9 =>
    [.broadcast 8 (signExtend2sCompl instr.imm32), .op .vpaddq dst dst 8]
  | IXOR_C7 | IXOR_C8 | IXOR_C9 =>
    [.broadcast 8 (signExtend2sCompl instr.imm32), .op .vpxor dst dst 8]
  | IMULH_R =>
    middle dst src dst ++
      [.op .vpaddq dst 8 dst, .shift false 11 11 32, .op .vpaddq dst 11 dst]
  | ISMULH_R =>
    middle dst src 13 ++
      [.op .vpaddq 13 13 8, .shift false 11 11 32, .op .vpaddq 8 13 11, .op .vpxor 9 9 9,
        .op .vpcmpgtq 10 9 dst, .op .vpcmpgtq 11 9 src, .op .vpand 10 10 src,
        .op .vpand 11 11 dst, .op .vpsubq 8 8 10, .op .vpsubq dst 8 11]
  | IMUL_RCP =>
    [.broadcast 12 (randomx_reciprocal_fast (instr.imm32.setWidth 64)), .shift false 8 dst 32,
      .shift false 9 12 32, .op .vpmuludq 10 dst 12, .op .vpmuludq 11 9 dst,
      .op .vpmuludq dst 8 12, .shift true 11 11 32, .shift true dst dst 32, .op .vpaddq 10 10 11,
      .op .vpaddq dst 10 dst]
  | INVALID => []

/-- The instructions that a superscalar instruction is compiled to. -/
def assembly (AVX2 : Bool) (type : SuperscalarInstructionType) (instr : Instruction) :
    List Avx2.Instr :=
  (ints AVX2 type instr).map .int ++ if AVX2 then (lanes type instr).map LaneInstr.instr else []

/-! ## One instruction -/

theorem encodes_one {b : Bytes} {i : LaneInstr} (hb : b ≠ [])
    (hi : ∀ rest, decode (b ++ rest) = some (i.instr, rest)) :
    EncodesLanes b [i] :=
  .one hb hi fun _ _ => by cases i <;> rfl

/-- Behind a VEX prefix of two bytes. -/
theorem encodes_vex2 {b : Bytes} {i : LaneInstr}
    (hi : ∀ rest, decodeMore (0xC5 :: (b ++ rest)) = some (i.instr, rest)) :
    EncodesLanes (0xC5 :: b) [i] :=
  encodes_one (List.cons_ne_nil _ _) fun rest => (decode_foreign (by decide) _).trans (hi rest)

section

variable {d s : Nat}

theorem encodes_shift (left nine : Bool) (hd : d < 8) {n : Nat} (hn : n < 256) :
    EncodesLanes [0xC5, if nine then 0xB5 else 0xBD, 0x73,
        (if left then 0xF0 else 0xD0) + UInt8.ofNat d, UInt8.ofNat n]
      [.shift left (if nine then 9 else 8) (lane (Fin.ofNat 8 d)) n] := by
  have hbyte : (BitVec.ofNat 8 (UInt8.ofNat n).toNat).toNat = n := by
    simp
    omega
  refine encodes_vex2 fun rest => ?_
  conv_rhs => rw [← hbyte]
  cases left <;> cases nine <;> interval_cases d <;> rfl

theorem encodes_shift_self (hd : d < 8) :
    EncodesLanes [0xC5, 0xFD - UInt8.ofNat (d * 8), 0x73, 0xF0 + UInt8.ofNat d, 0x20]
      [.shift true (lane (Fin.ofNat 8 d)) (lane (Fin.ofNat 8 d)) 32] :=
  encodes_vex2 fun rest => by interval_cases d <;> rfl

theorem encodes_vectors (hd : d < 8) (hs : s < 8) :
    EncodesLanes (vectors 0xC0FBFDC5 d s) [.op .vpsubq (lane (Fin.ofNat 8 d)) (lane (Fin.ofNat 8 d))
      (lane (Fin.ofNat 8 s))] ∧
    EncodesLanes (vectors 0xC0EFFDC5 d s) [.op .vpxor (lane (Fin.ofNat 8 d)) (lane (Fin.ofNat 8 d))
      (lane (Fin.ofNat 8 s))] ∧
    EncodesLanes (vectors 0xC0D4FDC5 d s) [.op .vpaddq (lane (Fin.ofNat 8 d)) (lane (Fin.ofNat 8 d))
      (lane (Fin.ofNat 8 s))] := by
  refine ⟨?_, ?_, ?_⟩
  all_goals
    refine encodes_one (by simp [vectors, le]) fun rest => ?_
    interval_cases d <;> interval_cases s <;> exact @decode_foreign 0xC5 (by decide) _

theorem encodes_vpmuludq (hd : d < 8) (hs : s < 8) :
    EncodesLanes [0xC5, 0x7D - UInt8.ofNat (d * 8), 0xF4, 0xD0 + UInt8.ofNat s]
      [.op .vpmuludq 10 (lane (Fin.ofNat 8 d)) (lane (Fin.ofNat 8 s))] ∧
    EncodesLanes [0xC5, 0xBD, 0xF4, 0xC0 + UInt8.ofNat (d * 8 + s)]
      [.op .vpmuludq (lane (Fin.ofNat 8 d)) 8 (lane (Fin.ofNat 8 s))] := by
  refine ⟨encodes_vex2 fun rest => ?_, encodes_vex2 fun rest => ?_⟩
  all_goals interval_cases d <;> interval_cases s <;> rfl

/-- With one register that is patched in. -/
theorem encodes_vpmuludq_one (hd : d < 8) :
    EncodesLanes [0xC5, 0x35, 0xF4, 0xD8 + UInt8.ofNat d]
      [.op .vpmuludq 11 9 (lane (Fin.ofNat 8 d))] ∧
    EncodesLanes [0xC5, 0x3D, 0xF4, 0xD8 + UInt8.ofNat d]
      [.op .vpmuludq 11 8 (lane (Fin.ofNat 8 d))] ∧
    EncodesLanes [0xC4, 0x41, 0x7D - UInt8.ofNat (d * 8), 0xF4, 0xE1]
      [.op .vpmuludq 12 (lane (Fin.ofNat 8 d)) 9] ∧
    EncodesLanes [0xC4, 0x41, 0x7D - UInt8.ofNat (d * 8), 0xF4, 0xD4]
      [.op .vpmuludq 10 (lane (Fin.ofNat 8 d)) 12] ∧
    EncodesLanes [0xC4, 0xC1, 0x3D, 0xF4, 0xC1 + UInt8.ofNat (d * 8)]
      [.op .vpmuludq (lane (Fin.ofNat 8 d)) 8 9] ∧
    EncodesLanes [0xC4, 0xC1, 0x3D, 0xF4, 0xC4 + UInt8.ofNat (d * 8)]
      [.op .vpmuludq (lane (Fin.ofNat 8 d)) 8 12] := by
  refine ⟨encodes_vex2 fun rest => ?_, encodes_vex2 fun rest => ?_,
    encodes_one (by simp) fun rest => ?_, encodes_one (by simp) fun rest => ?_,
    encodes_one (by simp) fun rest => ?_, encodes_one (by simp) fun rest => ?_⟩
  all_goals interval_cases d <;> rfl

theorem encodes_vpaddq_one (hd : d < 8) :
    EncodesLanes [0xC5, 0xAD, 0xD4, 0xC0 + UInt8.ofNat (d * 9)]
      [.op .vpaddq (lane (Fin.ofNat 8 d)) 10 (lane (Fin.ofNat 8 d))] ∧
    EncodesLanes [0xC5, 0xBD, 0xD4, 0xC0 + UInt8.ofNat (d * 9)]
      [.op .vpaddq (lane (Fin.ofNat 8 d)) 8 (lane (Fin.ofNat 8 d))] ∧
    EncodesLanes [0xC5, 0xA5, 0xD4, 0xC0 + UInt8.ofNat (d * 9)]
      [.op .vpaddq (lane (Fin.ofNat 8 d)) 11 (lane (Fin.ofNat 8 d))] ∧
    EncodesLanes [0xC4, 0xC1, 0x7D - UInt8.ofNat (d * 8), 0xD4, 0xC0 + UInt8.ofNat (d * 8)]
      [.op .vpaddq (lane (Fin.ofNat 8 d)) (lane (Fin.ofNat 8 d)) 8] ∧
    EncodesLanes [0xC4, 0xC1, 0x7D - UInt8.ofNat (d * 8), 0xEF, 0xC0 + UInt8.ofNat (d * 8)]
      [.op .vpxor (lane (Fin.ofNat 8 d)) (lane (Fin.ofNat 8 d)) 8] := by
  refine ⟨encodes_vex2 fun rest => ?_, encodes_vex2 fun rest => ?_, encodes_vex2 fun rest => ?_,
    encodes_one (by simp) fun rest => ?_, encodes_one (by simp) fun rest => ?_⟩
  all_goals interval_cases d <;> rfl

/-- The other operations with one register that is patched in. -/
theorem encodes_op_one (hd : d < 8) :
    EncodesLanes [0xC4, 0xC1, 0x3D, 0xEB, 0xC1 + UInt8.ofNat (d * 8)]
      [.op .vpor (lane (Fin.ofNat 8 d)) 8 9] ∧
    EncodesLanes [0xC4, 0xC1, 0x3D, 0xFB, 0xC3 + UInt8.ofNat (d * 8)]
      [.op .vpsubq (lane (Fin.ofNat 8 d)) 8 11] ∧
    EncodesLanes [0xC4, 0x62, 0x35, 0x37, 0xD0 + UInt8.ofNat d]
      [.op .vpcmpgtq 10 9 (lane (Fin.ofNat 8 d))] ∧
    EncodesLanes [0xC4, 0x62, 0x35, 0x37, 0xD8 + UInt8.ofNat d]
      [.op .vpcmpgtq 11 9 (lane (Fin.ofNat 8 d))] ∧
    EncodesLanes [0xC5, 0x2D, 0xDB, 0xD0 + UInt8.ofNat d]
      [.op .vpand 10 10 (lane (Fin.ofNat 8 d))] ∧
    EncodesLanes [0xC5, 0x25, 0xDB, 0xD8 + UInt8.ofNat d]
      [.op .vpand 11 11 (lane (Fin.ofNat 8 d))] := by
  refine ⟨encodes_one (by simp) fun rest => ?_, encodes_one (by simp) fun rest => ?_,
    encodes_one (by simp) fun rest => ?_, encodes_one (by simp) fun rest => ?_,
    encodes_vex2 fun rest => ?_, encodes_vex2 fun rest => ?_⟩
  all_goals interval_cases d <;> rfl

/-- Instructions with no register that is patched in. -/
theorem encodes_fixed :
    EncodesLanes [0xC4, 0xC1, 0x25, 0x73, 0xF3, 0x20] [.shift true 11 11 32] ∧
    EncodesLanes [0xC4, 0xC1, 0x25, 0x73, 0xD3, 0x20] [.shift false 11 11 32] ∧
    EncodesLanes [0xC4, 0xC1, 0x35, 0x73, 0xD4, 0x20] [.shift false 9 12 32] ∧
    EncodesLanes [0xC4, 0x41, 0x2D, 0xD4, 0xD3] [.op .vpaddq 10 10 11] := by
  refine ⟨encodes_one (by simp) fun _ => ?_, encodes_one (by simp) fun _ => ?_,
    encodes_one (by simp) fun _ => ?_, encodes_one (by simp) fun _ => ?_⟩ <;> rfl

/-- The product of two vectors, behind its first products. -/
theorem encodes_sum (hd : d < 8) :
    EncodesLanes ([0xC4, 0xC1, 0x25, 0x73, 0xF3, 0x20] ++
        ([0xC5, 0xFD - UInt8.ofNat (d * 8), 0x73, 0xF0 + UInt8.ofNat d, 0x20] ++
          ([0xC4, 0x41, 0x2D, 0xD4, 0xD3] ++ [0xC5, 0xAD, 0xD4, 0xC0 + UInt8.ofNat (d * 9)])))
      [.shift true 11 11 32, .shift true (lane (Fin.ofNat 8 d)) (lane (Fin.ofNat 8 d)) 32,
        .op .vpaddq 10 10 11, .op .vpaddq (lane (Fin.ofNat 8 d)) 10 (lane (Fin.ofNat 8 d))] :=
  encodes_fixed.1.append ((encodes_shift_self hd).append
    (encodes_fixed.2.2.2.append (encodes_vpaddq_one hd).1))

/-- The middle of a high product, the product of the upper halves going to `high`. -/
theorem encodes_middle (hd : d < 8) (hs : s < 8) {b : Bytes} {high : X86.Reg}
    (hb : EncodesLanes b [.op .vpmuludq high 8 9]) :
    EncodesLanes ([0xC5, 0xBD, 0x73, 0xD0 + UInt8.ofNat d, 0x20,
        0xC5, 0xB5, 0x73, 0xD0 + UInt8.ofNat s, 0x20,
        0xC5, 0x7D - UInt8.ofNat (d * 8), 0xF4, 0xD0 + UInt8.ofNat s,
        0xC5, 0x3D, 0xF4, 0xD8 + UInt8.ofNat s,
        0xC4, 0x41, 0x7D - UInt8.ofNat (d * 8), 0xF4, 0xE1] ++ (b ++
        [0xC4, 0xC1, 0x2D, 0x73, 0xD2, 0x20,
        0xC4, 0x41, 0x25, 0xEF, 0xC6,
        0xC4, 0x41, 0x25, 0xD4, 0xDC,
        0xC4, 0x41, 0x25, 0xD4, 0xDA,
        0xC4, 0x41, 0x25, 0xEF, 0xCE,
        0xC4, 0x42, 0x3D, 0x37, 0xC1,
        0xC4, 0x41, 0x3D, 0xDB, 0xC7]))
      (middle (lane (Fin.ofNat 8 d)) (lane (Fin.ofNat 8 s)) high) := by
  have hfront := (encodes_shift false false hd (n := 32) (by decide)).append
    ((encodes_shift false true hs (n := 32) (by decide)).append
      ((encodes_vpmuludq hd hs).1.append
        ((encodes_vpmuludq_one hs).2.1.append (encodes_vpmuludq_one hd).2.2.1)))
  have hback : EncodesLanes _ [.shift false 10 10 32, .op .vpxor 8 11 14, .op .vpaddq 11 11 12,
      .op .vpaddq 11 11 10, .op .vpxor 9 11 14, .op .vpcmpgtq 8 8 9, .op .vpand 8 8 15] :=
    Listing.encodes (l := [
      ([0xC4, 0xC1, 0x2D, 0x73, 0xD2, 0x20], .shift false 10 10 32),
      ([0xC4, 0x41, 0x25, 0xEF, 0xC6], .lane .vpxor 8 11 (.reg 14)),
      ([0xC4, 0x41, 0x25, 0xD4, 0xDC], .lane .vpaddq 11 11 (.reg 12)),
      ([0xC4, 0x41, 0x25, 0xD4, 0xDA], .lane .vpaddq 11 11 (.reg 10)),
      ([0xC4, 0x41, 0x25, 0xEF, 0xCE], .lane .vpxor 9 11 (.reg 14)),
      ([0xC4, 0x42, 0x3D, 0x37, 0xC1], .lane .vpcmpgtq 8 8 (.reg 9)),
      ([0xC4, 0x41, 0x3D, 0xDB, 0xC7], .lane .vpand 8 8 (.reg 15))])
      ⟨⟨by simp, fun _ => rfl⟩, ⟨by simp, fun _ => rfl⟩, ⟨by simp, fun _ => rfl⟩,
        ⟨by simp, fun _ => rfl⟩, ⟨by simp, fun _ => rfl⟩, ⟨by simp, fun _ => rfl⟩,
        ⟨by simp, fun _ => rfl⟩⟩ fun _ _ => rfl
  exact hfront.append (hb.append hback)

/-- A constant, for the register and for the lanes. -/
theorem encodes_constant {op vop : UInt8} {alu : X86.Alu} {o : LaneOp}
    (hop : X86.Encodes [0x4C, op, 0xC0 + UInt8.ofNat (d * 8)]
      [.alu alu (native (Fin.ofNat 8 d)) (.reg X86.rax)])
    (hvop : EncodesLanes [0xC4, 0xC1, 0x7D - UInt8.ofNat (d * 8), vop, 0xC0 + UInt8.ofNat (d * 8)]
      [.op o (lane (Fin.ofNat 8 d)) (lane (Fin.ofNat 8 d)) 8]) (v : BitVec 64) :
    Encodes (constant op vop d v)
      ([.int (.movImm X86.rax v), .int (.alu alu (native (Fin.ofNat 8 d)) (.reg X86.rax))] ++
        [.broadcast 8 v, .op o (lane (Fin.ofNat 8 d)) (lane (Fin.ofNat 8 d)) 8].map
          LaneInstr.instr) := by
  have hcast : ∀ rest, Avx2.decode ([0xC4, 0x62, 0x7D, 0x19, 0x05, 0xEC, 0xFF, 0xFF, 0xFF] ++ rest) =
      some (.vbroadcastsd 8 (.rip (-20)), rest) := fun _ => rfl
  have h := (Encodes.broadcast (.of_x86 hop) hcast (by simp) rfl v).append hvop
  have hbytes : constant op vop d v = [0x48, 0xB8] ++ le 8 v.toNat ++
      [0x4C, op, 0xC0 + UInt8.ofNat (d * 8)] ++
      [0xC4, 0x62, 0x7D, 0x19, 0x05, 0xEC, 0xFF, 0xFF, 0xFF] ++
      [0xC4, 0xC1, 0x7D - UInt8.ofNat (d * 8), vop, 0xC0 + UInt8.ofNat (d * 8)] := rfl
  rw [hbytes]
  exact h

/-- A product with a constant. -/
theorem encodes_reciprocal (hd : d < 8) (v : BitVec 64) :
    Encodes (([0x48, 0xB8] : Bytes) ++ le 8 v.toNat ++ le 4 (0xC0AF0F4C + d <<< 27) ++
        [0xC4, 0x62, 0x7D, 0x19, 0x25, 0xEB, 0xFF, 0xFF, 0xFF] ++
        ([0xC5, 0xBD, 0x73, 0xD0 + UInt8.ofNat d, 0x20,
          0xC4, 0xC1, 0x35, 0x73, 0xD4, 0x20,
          0xC4, 0x41, 0x7D - UInt8.ofNat (d * 8), 0xF4, 0xD4,
          0xC5, 0x35, 0xF4, 0xD8 + UInt8.ofNat d,
          0xC4, 0xC1, 0x3D, 0xF4, 0xC4 + UInt8.ofNat (d * 8)] ++
        ([0xC4, 0xC1, 0x25, 0x73, 0xF3, 0x20] ++
        ([0xC5, 0xFD - UInt8.ofNat (d * 8), 0x73, 0xF0 + UInt8.ofNat d, 0x20] ++
          ([0xC4, 0x41, 0x2D, 0xD4, 0xD3] ++ [0xC5, 0xAD, 0xD4, 0xC0 + UInt8.ofNat (d * 9)])))))
      ([.int (.movImm X86.rax v), .int (.imul (native (Fin.ofNat 8 d)) (.reg X86.rax))] ++
        [.broadcast 12 v, .shift false 8 (lane (Fin.ofNat 8 d)) 32, .shift false 9 12 32,
          .op .vpmuludq 10 (lane (Fin.ofNat 8 d)) 12, .op .vpmuludq 11 9 (lane (Fin.ofNat 8 d)),
          .op .vpmuludq (lane (Fin.ofNat 8 d)) 8 12, .shift true 11 11 32,
          .shift true (lane (Fin.ofNat 8 d)) (lane (Fin.ofNat 8 d)) 32, .op .vpaddq 10 10 11,
          .op .vpaddq (lane (Fin.ofNat 8 d)) 10 (lane (Fin.ofNat 8 d))].map LaneInstr.instr) := by
  have hcast : ∀ rest, Avx2.decode ([0xC4, 0x62, 0x7D, 0x19, 0x25, 0xEB, 0xFF, 0xFF, 0xFF] ++ rest) =
      some (.vbroadcastsd 12 (.rip (-21)), rest) := fun _ => rfl
  have himul : X86.Encodes (le 4 (0xC0AF0F4C + d <<< 27))
      [.imul (native (Fin.ofNat 8 d)) (.reg X86.rax)] :=
    .one (by simp [le]) fun rest => by interval_cases d <;> rfl
  have hfirst := (encodes_shift false false hd (n := 32) (by decide)).append
    (encodes_fixed.2.2.1.append ((encodes_vpmuludq_one hd).2.2.2.1.append
      ((encodes_vpmuludq_one hd).1.append (encodes_vpmuludq_one hd).2.2.2.2.2)))
  exact (Encodes.broadcast (.of_x86 himul) hcast (by simp) rfl v).append
    (hfirst.append (encodes_sum hd))

/-- On the register alone. -/
theorem encodes_alone (hd : d < 8) (hs : s < 8) :
    X86.Encodes ((le 4 (0x00C0334D + d <<< 19 + s <<< 16)).take 3)
      [.alu .xor (native (Fin.ofNat 8 d)) (.reg (native (Fin.ofNat 8 s)))] ∧
    X86.Encodes (le 4 (0xC0AF0F4D + d <<< 27 + s <<< 24))
      [.imul (native (Fin.ofNat 8 d)) (.reg (native (Fin.ofNat 8 s)))] := by
  constructor
  · have h := JitAssembly.encodes_IXOR_R hd hs
    have heq : 0xc0334d + (d <<< 3 + s) <<< 16 = 0x00C0334D + d <<< 19 + s <<< 16 := by
      simp only [Nat.shiftLeft_eq]
      omega
    rwa [heq] at h
  · have h := JitAssembly.encodes_IMUL_R hd hs
    have heq : 0xc0af0f4d + (d * 8 + s) <<< 24 = 0xC0AF0F4D + d <<< 27 + s <<< 24 := by
      simp only [Nat.shiftLeft_eq]
      omega
    rwa [heq] at h

theorem encodes_lea {t : Nat} (hd : d < 8) (hs : s < 8) (ht : t < 4) (hne : d ≠ 5) :
    X86.Encodes (le 4 (0x00048D4F + d <<< 19 + genSIB t s d <<< 24))
      [.lea true (native (Fin.ofNat 8 d))
        ⟨some (native (Fin.ofNat 8 d)), some (native (Fin.ofNat 8 s), t), 0⟩] := by
  have h := JitAssembly.encodes_IADD_RS hd hs ht hne
  have hlow : 0x048d4f + d <<< 19 < 2 ^ 24 := by
    simp only [Nat.shiftLeft_eq]
    omega
  rwa [Nat.or_comm, ← Nat.shiftLeft_add_eq_or_of_lt hlow, Nat.add_comm] at h

theorem encodes_ror (hd : d < 8) {n : Nat} (hn : n < 64) :
    X86.Encodes (le 4 (0x00C8C149 + d <<< 16 + n <<< 24))
      [.rot false (native (Fin.ofNat 8 d)) (.imm n)] := by
  have h := JitAssembly.encodes_rotImm false hd hn
  have hlow : 0xc8c149 + d <<< 16 < 2 ^ 24 := by
    simp only [Nat.shiftLeft_eq]
    omega
  have hbytes : le 4 (0x00C8C149 + d <<< 16 + n <<< 24) =
      (le 4 (0xc8c149 + d <<< 16)).take 3 ++ le 1 n := by
    have hshift : n <<< 24 = 256 ^ 3 * n := by
      rw [Nat.shiftLeft_eq]
      omega
    have hdiv : (0x00C8C149 + d <<< 16 + 256 ^ 3 * n) / 256 ^ 3 = n := by omega
    rw [hshift, le_add 3 1, le_add_mul, hdiv]
    rfl
  rwa [hbytes]

theorem encodes_addImm (hd : d < 8) (v : BitVec 32) :
    X86.Encodes ((le 4 (0x00C08149 + d <<< 16)).take 3 ++ le 4 v.toNat)
      [.aluImm .add true (native (Fin.ofNat 8 d)) v] := by
  refine .one (by simp [le]) fun rest => ?_
  conv_rhs => rw [← X86.ofNat_readLE v]
  interval_cases d <;> rfl

theorem encodes_product (signed : Bool) (hd : d < 8) (hs : s < 8) :
    X86.Encodes (product (if signed then 0x00E8F749 else 0x00E0F749) d s)
      [.mov true X86.rax (.reg (native (Fin.ofNat 8 d))),
        .mul signed (.reg (native (Fin.ofNat 8 s))),
        .mov true (native (Fin.ofNat 8 d)) (.reg X86.rdx)] := by
  rw [product, List.append_assoc]
  exact (JitAssembly.encodes_load true hd).append
    ((JitAssembly.encodes_mul signed hs).append (JitAssembly.encodes_result hd))

theorem encodes_rax (hd : d < 8) :
    X86.Encodes [0x4C, 0x03, 0xC0 + UInt8.ofNat (d * 8)]
      [.alu .add (native (Fin.ofNat 8 d)) (.reg X86.rax)] ∧
    X86.Encodes [0x4C, 0x33, 0xC0 + UInt8.ofNat (d * 8)]
      [.alu .xor (native (Fin.ofNat 8 d)) (.reg X86.rax)] := by
  refine ⟨.one (by simp) fun rest => ?_, .one (by simp) fun rest => ?_⟩ <;>
    interval_cases d <;> rfl

/-- What a high product of signed words has behind its middle. -/
theorem encodes_corrections (hd : d < 8) (hs : s < 8) :
    EncodesLanes [0xC4, 0x41, 0x15, 0xD4, 0xE8, 0xC4, 0xC1, 0x25, 0x73, 0xD3, 0x20,
        0xC4, 0x41, 0x15, 0xD4, 0xC3, 0xC4, 0x41, 0x35, 0xEF, 0xC9,
        0xC4, 0x62, 0x35, 0x37, 0xD0 + UInt8.ofNat d, 0xC4, 0x62, 0x35, 0x37, 0xD8 + UInt8.ofNat s,
        0xC5, 0x2D, 0xDB, 0xD0 + UInt8.ofNat s, 0xC5, 0x25, 0xDB, 0xD8 + UInt8.ofNat d,
        0xC4, 0x41, 0x3D, 0xFB, 0xC2, 0xC4, 0xC1, 0x3D, 0xFB, 0xC3 + UInt8.ofNat (d * 8)]
      [.op .vpaddq 13 13 8, .shift false 11 11 32, .op .vpaddq 8 13 11, .op .vpxor 9 9 9,
        .op .vpcmpgtq 10 9 (lane (Fin.ofNat 8 d)), .op .vpcmpgtq 11 9 (lane (Fin.ofNat 8 s)),
        .op .vpand 10 10 (lane (Fin.ofNat 8 s)), .op .vpand 11 11 (lane (Fin.ofNat 8 d)),
        .op .vpsubq 8 8 10, .op .vpsubq (lane (Fin.ofNat 8 d)) 8 11] := by
  have hsum : EncodesLanes [0xC4, 0x41, 0x15, 0xD4, 0xE8] [.op .vpaddq 13 13 8] :=
    encodes_one (by simp) fun _ => rfl
  have hhigh : EncodesLanes [0xC4, 0x41, 0x15, 0xD4, 0xC3] [.op .vpaddq 8 13 11] :=
    encodes_one (by simp) fun _ => rfl
  have hzero : EncodesLanes [0xC4, 0x41, 0x35, 0xEF, 0xC9] [.op .vpxor 9 9 9] :=
    encodes_one (by simp) fun _ => rfl
  have hsub : EncodesLanes [0xC4, 0x41, 0x3D, 0xFB, 0xC2] [.op .vpsubq 8 8 10] :=
    encodes_one (by simp) fun _ => rfl
  exact hsum.append (encodes_fixed.2.1.append (hhigh.append (hzero.append
    ((encodes_op_one hd).2.2.1.append ((encodes_op_one hs).2.2.2.1.append
      ((encodes_op_one hs).2.2.2.2.1.append ((encodes_op_one hd).2.2.2.2.2.append
        (hsub.append (encodes_op_one hd).2.1))))))))

end

/-! ## Instructions -/

/-- For the register, and where there are lanes for these too. -/
theorem encodes_both {b c : Bytes} {is : List X86.Instr} {ls : List LaneInstr} (AVX2 : Bool)
    (hb : X86.Encodes b is) (hc : EncodesLanes c ls) :
    Encodes (b ++ if AVX2 then c else [])
      (is.map .int ++ if AVX2 then ls.map LaneInstr.instr else []) := by
  cases AVX2 with
  | false => exact (Encodes.of_x86 hb).append .nil
  | true => exact (Encodes.of_x86 hb).append hc

/-- **The bytes of a superscalar instruction** are those of its assembly, for any two
registers. -/
theorem encodes_code {AVX2 : Bool} {type : SuperscalarInstructionType} {instr : Instruction}
    (h : Safe type instr) {code : Bytes} (hcode : generateSuperscalarCode AVX2 instr = some code) :
    Encodes code (assembly AVX2 type instr) := by
  have hd := h.dst_lt
  have hs := h.src_lt
  rw [generateSuperscalarCode, h.typeOf_eq] at hcode
  cases type with
  | ISUB_R =>
    cases hcode
    exact encodes_both AVX2 (JitAssembly.encodes_ISUB_R hd hs) (encodes_vectors hd hs).1
  | IXOR_R =>
    cases hcode
    exact encodes_both AVX2 (encodes_alone hd hs).1 (encodes_vectors hd hs).2.1
  | IADD_RS =>
    cases hcode
    have ht : instr.getModShift < 4 := Nat.mod_lt _ (by decide)
    refine encodes_both AVX2 (encodes_lea hd hs ht (h.displacement rfl)) ?_
    unfold lanes
    dsimp only
    split
    · exact (encodes_shift true false hs (by omega)).append (encodes_vpaddq_one hd).2.1
    · exact (encodes_vectors hd hs).2.2
  | IMUL_R =>
    cases hcode
    have hfirst := (encodes_shift false false hd (n := 32) (by decide)).append
      ((encodes_shift false true hs (n := 32) (by decide)).append ((encodes_vpmuludq hd hs).1.append
        ((encodes_vpmuludq_one hd).1.append (encodes_vpmuludq hd hs).2)))
    exact encodes_both AVX2 (encodes_alone hd hs).2 (hfirst.append (encodes_sum hd))
  | IROR_C =>
    cases hcode
    have hn : instr.imm32.toNat % 64 < 64 := Nat.mod_lt _ (by decide)
    exact encodes_both AVX2 (encodes_ror hd hn) ((encodes_shift false false hd (by omega)).append
      ((encodes_shift true true hd (by omega)).append (encodes_op_one hd).1))
  | IADD_C7 | IADD_C8 | IADD_C9 =>
    cases hcode
    cases AVX2 with
    | false => exact (Encodes.of_x86 (encodes_addImm hd instr.imm32)).append .nil
    | true => exact encodes_constant (encodes_rax hd).1 (encodes_vpaddq_one hd).2.2.2.1 _
  | IXOR_C7 | IXOR_C8 | IXOR_C9 =>
    cases hcode
    cases AVX2 with
    | false => exact (Encodes.of_x86 (JitAssembly.encodes_imm instr.imm32 hd).2.1).append .nil
    | true => exact encodes_constant (encodes_rax hd).2 (encodes_vpaddq_one hd).2.2.2.2 _
  | IMULH_R =>
    cases hcode
    have hmiddle := encodes_middle hd hs (encodes_vpmuludq_one hd).2.2.2.2.1
    exact encodes_both AVX2 (encodes_product false hd hs) (hmiddle.append
      ((encodes_vpaddq_one hd).2.1.append (encodes_fixed.2.1.append (encodes_vpaddq_one hd).2.2.1)))
  | ISMULH_R =>
    cases hcode
    have hhigh : EncodesLanes [0xC4, 0x41, 0x3D, 0xF4, 0xE9] [.op .vpmuludq 13 8 9] :=
      encodes_one (by simp) fun _ => rfl
    exact encodes_both AVX2 (encodes_product true hd hs)
      ((encodes_middle hd hs hhigh).append (encodes_corrections hd hs))
  | IMUL_RCP =>
    cases hcode
    cases AVX2 with
    | false => exact (Encodes.of_x86 (JitAssembly.encodes_IMUL_RCP _ hd)).append .nil
    | true => exact encodes_reciprocal hd _
  | INVALID => cases hcode

end L2.SuperscalarAssembly

end Rxs
