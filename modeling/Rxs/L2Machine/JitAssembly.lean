import Rxs.L2Machine.JitControl

/-!
# Integer instructions as the processor reads them

What the handlers write is a number shifted into another and stored, often over bytes of
the one before. `assembly` says which instructions of x86-64 these bytes are: for any two
registers, any immediate, with and without `mulx`.

* `assembly`: the instructions.
* `encodes_address`, `encodes_mem`, and so on: the bytes of each.
* `encodes_block`: the code of an integer instruction or a store.
* `encodes_blockFlt`: the front of a floating-point instruction on memory.
-/
namespace Rxs

open Rxs.Core Rxs.Core.Bytes Rxs.RandomX Rxs.RandomX.BytecodeMachine Rxs.RandomX.JitCompilerX86
open Rxs.L2.JitControl

namespace L2.JitAssembly

variable (c : Configuration) (cpu : Cpu)

/-- The registers of the instruction. -/
def dstReg (instr : Instruction) : X86.Reg := native (reg instr.dst)

def srcReg (instr : Instruction) : X86.Reg := native (reg instr.src)

/-- Memory at an offset in a register. -/
def atReg (t : X86.Reg) : X86.Rm := .mem ⟨some X86.rsi, some (t, 0), 0⟩

/-- The offset of an operand, into `t`. -/
def address (t r : X86.Reg) (imm mask : BitVec 32) : List X86.Instr :=
  [.lea false t ⟨some r, none, imm⟩, .aluImm .and false t mask]

/-- What has to be done before an operand in memory can be read. -/
def operandCode (t : X86.Reg) (instr : Instruction) : List X86.Instr :=
  if instr.src.toNat ≠ instr.dst.toNat then
    address t (srcReg instr) instr.imm32 (c.AddressMask instr.getModMem)
  else []

/-- An operand in memory, at the register or at the immediate. -/
def operand (t : X86.Reg) (instr : Instruction) : X86.Rm :=
  if instr.src.toNat ≠ instr.dst.toNat then atReg t
  else .mem ⟨some X86.rsi, none, instr.imm32 &&& c.ScratchpadL3Mask⟩

/-- The high half of a product. -/
def high (signed : Bool) (instr : Instruction) (rm : X86.Rm) : List X86.Instr :=
  [.mov true X86.rax (.reg (dstReg instr)), .mul signed rm, .mov true (dstReg instr) (.reg X86.rdx)]

def highBMI2 (instr : Instruction) (rm : X86.Rm) : List X86.Instr :=
  [.mov true X86.rdx (.reg (dstReg instr)), .mulx (dstReg instr) X86.rax rm]

def rotation (left : Bool) (instr : Instruction) : List X86.Instr :=
  if instr.src.toNat ≠ instr.dst.toNat then
    [.mov false X86.rcx (.reg (srcReg instr)), .rot left (dstReg instr) .cl]
  else [.rot left (dstReg instr) (.imm (instr.imm32.toNat % 64))]

/-- The slot of a constant on the stack. -/
def slot (used : Nat) : X86.Rm := .mem ⟨some X86.rsp, none, -8 - 8 * BitVec.ofNat 32 used⟩

/-- The instructions that an integer instruction or a store is compiled to; `used` is the
number of constants that are stored already. -/
def assembly (type : InstructionType) (instr : Instruction) (used : Nat) : List X86.Instr :=
  match type with
  | .IADD_RS =>
    [.lea true (dstReg instr) ⟨some (dstReg instr), some (srcReg instr, instr.getModShift),
      if instr.dst.toNat = 5 then instr.imm32 else 0⟩]
  | .IADD_M => operandCode c X86.rax instr ++ [.alu .add (dstReg instr) (operand c X86.rax instr)]
  | .ISUB_R =>
    if instr.src.toNat ≠ instr.dst.toNat then [.alu .sub (dstReg instr) (.reg (srcReg instr))]
    else [.aluImm .sub true (dstReg instr) instr.imm32]
  | .ISUB_M => operandCode c X86.rax instr ++ [.alu .sub (dstReg instr) (operand c X86.rax instr)]
  | .IMUL_R =>
    if instr.src.toNat ≠ instr.dst.toNat then [.imul (dstReg instr) (.reg (srcReg instr))]
    else [.imulImm (dstReg instr) (.reg (dstReg instr)) instr.imm32]
  | .IMUL_M => operandCode c X86.rax instr ++ [.imul (dstReg instr) (operand c X86.rax instr)]
  | .IMULH_R =>
    if cpu.hasBMI2 then highBMI2 instr (.reg (srcReg instr))
    else high false instr (.reg (srcReg instr))
  | .IMULH_M =>
    operandCode c X86.rcx instr ++ if cpu.hasBMI2 then highBMI2 instr (operand c X86.rcx instr)
      else high false instr (operand c X86.rcx instr)
  | .ISMULH_R => high true instr (.reg (srcReg instr))
  | .ISMULH_M => operandCode c X86.rcx instr ++ high true instr (operand c X86.rcx instr)
  | .IMUL_RCP =>
    let divisor := instr.imm32.setWidth 64
    if isZeroOrPowerOf2 divisor then []
    else if used < 16 then [.imul (dstReg instr) (slot used)]
    else [.movImm X86.rax (randomx_reciprocal_fast divisor), .imul (dstReg instr) (.reg X86.rax)]
  | .INEG_R => [.neg (dstReg instr)]
  | .IXOR_R =>
    if instr.src.toNat ≠ instr.dst.toNat then [.alu .xor (dstReg instr) (.reg (srcReg instr))]
    else [.aluImm .xor true (dstReg instr) instr.imm32]
  | .IXOR_M => operandCode c X86.rax instr ++ [.alu .xor (dstReg instr) (operand c X86.rax instr)]
  | .IROR_R => rotation false instr
  | .IROL_R => rotation true instr
  | .ISWAP_R =>
    if instr.src.toNat ≠ instr.dst.toNat then [.xchg (srcReg instr) (dstReg instr)] else []
  | .ISTORE =>
    address X86.rax (dstReg instr) instr.imm32
        (if instr.getModCond < StoreL3Condition then c.AddressMask instr.getModMem
          else c.ScratchpadL3Mask) ++ [.store (atReg X86.rax) (srcReg instr)]
  | _ => []

variable {c cpu}


/-! ## Bytes -/

/-- The bytes of `address`, for `rax` or for `rcx`. -/
def addressBytes (rax : Bool) (r : Nat) (imm mask : BitVec 32) : Bytes :=
  (((le 4 ((if rax then 0x24808d41 else 0x24888d41) + r <<< 16)).take (if r = 4 then 4 else 3) ++
    le 4 imm.toNat) ++ ((if rax then [0x25] else [0x81, 0xE1]) ++ le 4 mask.toNat))

theorem encodes_address (rax : Bool) {r : Nat} (hr : r < 8) (imm mask : BitVec 32) :
    X86.Encodes (addressBytes rax r imm mask)
      (address (if rax then X86.rax else X86.rcx) (native (Fin.ofNat 8 r)) imm mask) := by
  refine .cons (by simp [le]) (fun rest => ?_) (.one (by simp [le]) fun rest => ?_)
  · conv_rhs => rw [← X86.ofNat_readLE imm]
    cases rax <;> interval_cases r <;> rfl
  · conv_rhs => rw [← X86.ofNat_readLE mask]
    cases rax <;> rfl

theorem genAddressReg_eq (c : Configuration) (rax : Bool) (instr : Instruction) {r : Nat}
    (hr : r < 8) : genAddressReg c rax instr r {} =
      behind (addressBytes rax r instr.imm32 (c.AddressMask instr.getModMem)) {} := by
  cases rax <;> interval_cases r <;> rfl

theorem genAddressRegDst_eq (c : Configuration) (instr : Instruction) (hd : instr.dst.toNat < 8) :
    genAddressRegDst c instr {} = behind (addressBytes true instr.dst.toNat instr.imm32
      (if instr.getModCond < StoreL3Condition then c.AddressMask instr.getModMem
        else c.ScratchpadL3Mask)) {} := by
  have hcond : instr.mod.toNat < StoreL3Condition <<< 4 ↔ instr.getModCond < StoreL3Condition := by
    simp only [Instruction.getModCond, StoreL3Condition]
    omega
  unfold genAddressRegDst
  simp only [hcond, ← apply_ite BitVec.toNat]
  generalize (if instr.getModCond < StoreL3Condition then c.AddressMask instr.getModMem
    else c.ScratchpadL3Mask) = mask
  generalize instr.dst.toNat = d at hd
  interval_cases d <;> rfl

/-- A block behind the bytes of an address. -/
theorem code_address (c : Configuration) (rax : Bool) (instr : Instruction)
    (hs : instr.src.toNat < 8) (f : Block → Block)
    (hf : ∀ pre b, f (behind pre b) = behind pre (f b)) :
    (f (genAddressReg c rax instr instr.src.toNat {})).code =
      addressBytes rax instr.src.toNat instr.imm32 (c.AddressMask instr.getModMem) ++
        (f {}).code := by
  rw [genAddressReg_eq c rax instr hs, hf, behind_code]

section

variable {d s : Nat}

/-- Two instructions of a register each: the first with the destination. -/
theorem encodes_load (t : Bool) (hd : d < 8) :
    X86.Encodes ((le 4 ((if t then 0xc08b49 else 0xd08b49) + d <<< 16)).take 3)
      [.mov true (if t then X86.rax else X86.rdx) (.reg (native (Fin.ofNat 8 d)))] := by
  refine .one (by simp [le]) fun rest => ?_
  cases t <;> interval_cases d <;> rfl

theorem encodes_result (hd : d < 8) : X86.Encodes ((le 4 (0xc28b4c + d <<< 19)).take 3)
    [.mov true (native (Fin.ofNat 8 d)) (.reg X86.rdx)] := by
  refine .one (by simp [le]) fun rest => ?_
  interval_cases d <;> rfl

theorem encodes_mul (signed : Bool) (hs : s < 8) :
    X86.Encodes ((le 4 ((if signed then 0xe8f749 else 0xe0f749) + s <<< 16)).take 3)
      [.mul signed (.reg (native (Fin.ofNat 8 s)))] := by
  refine .one (by simp [le]) fun rest => ?_
  cases signed <;> interval_cases s <;> rfl

theorem encodes_mulx (hd : d < 8) (hs : s < 8) :
    X86.Encodes (0xC4 :: le 4 (0xC0F6FB42 + d <<< 27 + s <<< 24))
      [.mulx (native (Fin.ofNat 8 d)) X86.rax (.reg (native (Fin.ofNat 8 s)))] := by
  refine .one (by simp) fun rest => ?_
  interval_cases d <;> interval_cases s <;> rfl

theorem encodes_ISUB_R (hd : d < 8) (hs : s < 8) :
    X86.Encodes ((le 4 (0xc02b4d + d <<< 19 + s <<< 16)).take 3)
      [.alu .sub (native (Fin.ofNat 8 d)) (.reg (native (Fin.ofNat 8 s)))] := by
  refine .one (by simp [le]) fun rest => ?_
  interval_cases d <;> interval_cases s <;> rfl

theorem encodes_IXOR_R (hd : d < 8) (hs : s < 8) :
    X86.Encodes ((le 4 (0xc0334d + (d <<< 3 + s) <<< 16)).take 3)
      [.alu .xor (native (Fin.ofNat 8 d)) (.reg (native (Fin.ofNat 8 s)))] := by
  refine .one (by simp [le]) fun rest => ?_
  interval_cases d <;> interval_cases s <;> rfl

theorem encodes_IMUL_R (hd : d < 8) (hs : s < 8) :
    X86.Encodes (le 4 (0xc0af0f4d + (d * 8 + s) <<< 24))
      [.imul (native (Fin.ofNat 8 d)) (.reg (native (Fin.ofNat 8 s)))] := by
  refine .one (by simp [le]) fun rest => ?_
  interval_cases d <;> interval_cases s <;> rfl

theorem encodes_ISWAP_R (hd : d < 8) (hs : s < 8) :
    X86.Encodes ((le 4 (0xc0874d + (d <<< 3 + s) <<< 16)).take 3)
      [.xchg (native (Fin.ofNat 8 s)) (native (Fin.ofNat 8 d))] := by
  refine .one (by simp [le]) fun rest => ?_
  interval_cases d <;> interval_cases s <;> rfl

/-- The immediate in the place of a source that is the destination. -/
theorem encodes_imm (v : BitVec 32) (hd : d < 8) :
    X86.Encodes ((le 4 (0xe88149 + d <<< 16)).take 3 ++ le 4 v.toNat)
        [.aluImm .sub true (native (Fin.ofNat 8 d)) v] ∧
      X86.Encodes ((le 4 (0xf08149 + d <<< 16)).take 3 ++ le 4 v.toNat)
        [.aluImm .xor true (native (Fin.ofNat 8 d)) v] ∧
      X86.Encodes ((le 4 (0xc0694d + (d <<< 3 + d) <<< 16)).take 3 ++ le 4 v.toNat)
        [.imulImm (native (Fin.ofNat 8 d)) (.reg (native (Fin.ofNat 8 d))) v] := by
  refine ⟨.one (by simp [le]) fun rest => ?_, .one (by simp [le]) fun rest => ?_,
    .one (by simp [le]) fun rest => ?_⟩
  all_goals
    conv_rhs => rw [← X86.ofNat_readLE v]
    interval_cases d <;> rfl

/-- The operations on memory at `rax`. -/
theorem encodes_mem (hd : d < 8) :
    X86.Encodes (le 4 (0x0604034c + d <<< 19))
      [.alu .add (native (Fin.ofNat 8 d)) (atReg X86.rax)] ∧
    X86.Encodes (le 4 (0x06042b4c + d <<< 19))
      [.alu .sub (native (Fin.ofNat 8 d)) (atReg X86.rax)] ∧
    X86.Encodes (le 4 (0x0604334c + d <<< 19))
      [.alu .xor (native (Fin.ofNat 8 d)) (atReg X86.rax)] ∧
    X86.Encodes ((le 8 (0x0604af0f4c + d <<< 27)).take 5)
      [.imul (native (Fin.ofNat 8 d)) (atReg X86.rax)] ∧
    X86.Encodes (le 4 (0x0604894c + d <<< 19))
      [.store (atReg X86.rax) (native (Fin.ofNat 8 d))] := by
  refine ⟨.one (by simp [le]) fun rest => ?_, .one (by simp [le]) fun rest => ?_,
    .one (by simp [le]) fun rest => ?_, .one (by simp [le]) fun rest => ?_,
    .one (by simp [le]) fun rest => ?_⟩
  all_goals interval_cases d <;> rfl

/-- The operations on memory at an immediate. -/
theorem encodes_memImm (v : BitVec 32) (hd : d < 8) :
    X86.Encodes ((le 4 (0x86034c + d <<< 19)).take 3 ++ le 4 v.toNat)
      [.alu .add (native (Fin.ofNat 8 d)) (.mem ⟨some X86.rsi, none, v⟩)] ∧
    X86.Encodes ((le 4 (0x862b4c + d <<< 19)).take 3 ++ le 4 v.toNat)
      [.alu .sub (native (Fin.ofNat 8 d)) (.mem ⟨some X86.rsi, none, v⟩)] ∧
    X86.Encodes ((le 4 (0x86334c + d <<< 19)).take 3 ++ le 4 v.toNat)
      [.alu .xor (native (Fin.ofNat 8 d)) (.mem ⟨some X86.rsi, none, v⟩)] ∧
    X86.Encodes (le 4 (0x86af0f4c + d <<< 27) ++ le 4 v.toNat)
      [.imul (native (Fin.ofNat 8 d)) (.mem ⟨some X86.rsi, none, v⟩)] := by
  refine ⟨.one (by simp [le]) fun rest => ?_, .one (by simp [le]) fun rest => ?_,
    .one (by simp [le]) fun rest => ?_, .one (by simp [le]) fun rest => ?_⟩
  all_goals
    conv_rhs => rw [← X86.ofNat_readLE v]
    interval_cases d <;> rfl

theorem encodes_IADD_RS {t : Nat} (hd : d < 8) (hs : s < 8) (ht : t < 4) (hne : d ≠ 5) :
    X86.Encodes (le 4 ((0x048d4f + d <<< 19) ||| (t <<< 6 ||| s <<< 3 ||| d) <<< 24))
      [.lea true (native (Fin.ofNat 8 d))
        ⟨some (native (Fin.ofNat 8 d)), some (native (Fin.ofNat 8 s), t), 0⟩] := by
  refine .one (by simp [le]) fun rest => ?_
  interval_cases d <;> interval_cases s <;> interval_cases t <;> first | rfl | contradiction

theorem encodes_IADD_RS_displacement {t : Nat} (v : BitVec 32) (hs : s < 8) (ht : t < 4) :
    X86.Encodes (le 4 (0xac8d4f ||| (t <<< 6 ||| s <<< 3 ||| 5) <<< 24) ++ le 4 v.toNat)
      [.lea true (native 5) ⟨some (native 5), some (native (Fin.ofNat 8 s), t), v⟩] := by
  refine .one (by simp [le]) fun rest => ?_
  conv_rhs => rw [← X86.ofNat_readLE v]
  interval_cases s <;> interval_cases t <;> rfl

/-- Products with memory at `rcx`, and at an immediate. -/
def mulBytes (signed : Bool) : Bytes := [0x48, 0xF7, if signed then 0x2C else 0x24, 0x0E]

def mulImmBytes (signed : Bool) (v : BitVec 32) : Bytes :=
  [0x48, 0xF7, if signed then 0xAE else 0xA6] ++ le 4 v.toNat

def mulxBytes (d : Nat) : Bytes := 0xC4 :: (le 8 (0x0E04F6FB62 + d <<< 27)).take 5

def mulxImmBytes (d : Nat) (v : BitVec 32) : Bytes :=
  [0xC4, 0x62, 0xFB, 0xF6, UInt8.ofNat (0x86 + 8 * d)] ++ le 4 v.toNat

theorem encodes_mulMem (signed : Bool) :
    X86.Encodes (mulBytes signed) [.mul signed (atReg X86.rcx)] := by
  refine .one (by simp [mulBytes]) fun rest => ?_
  cases signed <;> rfl

theorem encodes_mulImm (signed : Bool) (v : BitVec 32) :
    X86.Encodes (mulImmBytes signed v) [.mul signed (.mem ⟨some X86.rsi, none, v⟩)] := by
  refine .one (by simp [mulImmBytes]) fun rest => ?_
  conv_rhs => rw [← X86.ofNat_readLE v]
  cases signed <;> rfl

theorem encodes_mulxMem (hd : d < 8) : X86.Encodes (mulxBytes d)
    [.mulx (native (Fin.ofNat 8 d)) X86.rax (atReg X86.rcx)] := by
  refine .one (by simp [mulxBytes]) fun rest => ?_
  interval_cases d <;> rfl

theorem encodes_mulxImm (v : BitVec 32) (hd : d < 8) : X86.Encodes (mulxImmBytes d v)
    [.mulx (native (Fin.ofNat 8 d)) X86.rax (.mem ⟨some X86.rsi, none, v⟩)] := by
  refine .one (by simp [mulxImmBytes]) fun rest => ?_
  conv_rhs => rw [← X86.ofNat_readLE v]
  interval_cases d <;> rfl

theorem encodes_INEG_R (hd : d < 8) : X86.Encodes ((le 4 (0xd8f749 + d <<< 16)).take 3)
    [.neg (native (Fin.ofNat 8 d))] := by
  refine .one (by simp [le]) fun rest => ?_
  interval_cases d <;> rfl

/-- A rotation by `rcx`, which has been loaded. -/
theorem encodes_rot (left : Bool) (hd : d < 8) (hs : s < 8) :
    X86.Encodes ((le 4 (0xc88b41 + s <<< 16)).take 3 ++
        (le 4 ((if left then 0xc0d349 else 0xc8d349) + d <<< 16)).take 3)
      [.mov false X86.rcx (.reg (native (Fin.ofNat 8 s))),
        .rot left (native (Fin.ofNat 8 d)) .cl] := by
  refine .cons (by simp [le]) (fun rest => ?_) (.one (by simp [le]) fun rest => ?_)
  · interval_cases s <;> rfl
  · cases left <;> interval_cases d <;> rfl

theorem encodes_rotImm (left : Bool) (hd : d < 8) {n : Nat} (hn : n < 64) :
    X86.Encodes ((le 4 ((if left then 0xc0c149 else 0xc8c149) + d <<< 16)).take 3 ++ le 1 n)
      [.rot left (native (Fin.ofNat 8 d)) (.imm n)] := by
  refine .one (by simp [le]) fun rest => ?_
  have hbyte : (BitVec.ofNat 8 (UInt8.ofNat n).toNat).toNat = n := by
    simp
    omega
  conv_rhs => rw [← hbyte]
  cases left <;> interval_cases d <;> rfl

theorem encodes_slot {used : Nat} (hd : d < 8) (hu : used < 16) :
    X86.Encodes ((le 8 (0x2444AF0F4C + d <<< 27 + (248 - used * 8) <<< 40)).take 6)
      [.imul (native (Fin.ofNat 8 d)) (slot used)] := by
  refine .one (by simp [le]) fun rest => ?_
  interval_cases d <;> interval_cases used <;> rfl

theorem encodes_IMUL_RCP (reciprocal : BitVec 64) (hd : d < 8) :
    X86.Encodes ((0x48 :: 0xB8 :: le 8 reciprocal.toNat) ++ le 4 (0xc0af0f4c + d <<< 27))
      [.movImm X86.rax reciprocal, .imul (native (Fin.ofNat 8 d)) (.reg X86.rax)] := by
  refine .cons (by simp) (fun rest => ?_) (.one (by simp [le]) fun rest => ?_)
  · have himm : BitVec.ofNat 64 (readLE (le 8 reciprocal.toNat)) = reciprocal := by
      have hpow : 256 ^ 8 = 2 ^ 64 := rfl
      rw [readLE_le, hpow, Nat.mod_eq_of_lt reciprocal.isLt, BitVec.ofNat_toNat, BitVec.setWidth_eq]
    conv_rhs => rw [← himm]
    rfl
  · interval_cases d <;> rfl

end

/-! ## Blocks -/

/-- The integer instructions, and the store. -/
def isInteger : InstructionType → Bool
  | .FSWAP_R | .FADD_R | .FADD_M | .FSUB_R | .FSUB_M | .FSCAL_R | .FMUL_R | .FDIV_M | .FSQRT_R
  | .CBRANCH | .CFROUND | .NOP => false
  | _ => true

/-- Memory, and one instruction that is encoded alike for a register and an immediate. -/
theorem encodes_blockMem {k k' : Nat} {instr : Instruction}
    (hm : instr.dst.toNat < 8 ∧ instr.src.toNat < 8) {op : X86.Rm → X86.Instr}
    (hreg : X86.Encodes (le 4 (k + instr.dst.toNat <<< 19)) [op (atReg X86.rax)])
    (himm : ∀ v : BitVec 32, X86.Encodes
      ((le 4 (k' + instr.dst.toNat <<< 19)).take 3 ++ le 4 v.toNat)
      [op (.mem ⟨some X86.rsi, none, v⟩)]) :
    X86.Encodes (blockMem c k k' instr).code
      (operandCode c X86.rax instr ++ [op (operand c X86.rax instr)]) := by
  unfold blockMem operandCode operand
  dsimp only
  split
  · rw [code_address c true instr hm.2 (·.emit32 _) fun pre b => by
      rw [Block.emit32, Block.emit, behind_store, behind_skip]; rfl]
    exact (encodes_address true hm.2 _ _).append hreg
  · exact himm _

/-- The two ways that the high half of a product is stored. -/
theorem code_mul {d : Nat} (hd : d < 8) (signed : Bool) (v : BitVec 32) :
    ((((({} : Block).store64 0 ((if signed then 0x0e2cf748c08b49 else 0x0e24f748c08b49) +
        d <<< 16)).skip 7).store32 0 (0xc28b4c + d <<< 19)).skip 3).code =
      (le 4 (0xc08b49 + d <<< 16)).take 3 ++
        (mulBytes signed ++ (le 4 (0xc28b4c + d <<< 19)).take 3) ∧
    (((((({} : Block).store64 0 ((if signed then 0xaef748c08b49 else 0xa6f748c08b49) +
        d <<< 16)).skip 6).emit32 v.toNat).store32 0 (0xc28b4c + d <<< 19)).skip 3).code =
      (le 4 (0xc08b49 + d <<< 16)).take 3 ++
        (mulImmBytes signed v ++ (le 4 (0xc28b4c + d <<< 19)).take 3) := by
  cases signed <;> interval_cases d <;> exact ⟨rfl, rfl⟩

theorem encodes_blockMul {instr : Instruction}
    (hm : instr.dst.toNat < 8 ∧ instr.src.toNat < 8) (signed : Bool) :
    X86.Encodes (blockMulMem c (if signed then 0x0e2cf748c08b49 else 0x0e24f748c08b49)
        (if signed then 0xaef748c08b49 else 0xa6f748c08b49) instr).code
      (operandCode c X86.rcx instr ++ high signed instr (operand c X86.rcx instr)) := by
  have hload := encodes_load true hm.1
  have hresult := encodes_result hm.1
  unfold blockMulMem operandCode operand high
  dsimp only
  split
  · rw [code_address c false instr hm.2 (fun b => (((b.store64 0 _).skip 7).store32 0 _).skip 3)
      fun pre b => by simp only [Block.store64, Block.store32, behind_store, behind_skip],
      (code_mul hm.1 signed 0).1]
    exact (encodes_address false hm.2 _ _).append
      (hload.append ((encodes_mulMem signed).append hresult))
  · rw [genAddressImm, (code_mul hm.1 signed _).2]
    exact hload.append ((encodes_mulImm signed _).append hresult)

theorem code_mulx {d : Nat} (hd : d < 8) (v : BitVec 32) :
    (((({} : Block).store32 0 (0xC4D08B49 + d <<< 16)).store64 4
        (0x0E04F6FB62 + d <<< 27)).skip 9).code =
      (le 4 (0xd08b49 + d <<< 16)).take 3 ++ mulxBytes d ∧
    (((({} : Block).store64 0 (0x86F6FB62C4D08B49 + d <<< 16 + d <<< 59)).store32 8
        v.toNat).skip 12).code =
      (le 4 (0xd08b49 + d <<< 16)).take 3 ++ mulxImmBytes d v := by
  interval_cases d <;> exact ⟨rfl, rfl⟩

theorem encodes_blockMulx {instr : Instruction}
    (hm : instr.dst.toNat < 8 ∧ instr.src.toNat < 8) :
    X86.Encodes (block_IMULH_M_BMI2 c instr).code
      (operandCode c X86.rcx instr ++ highBMI2 instr (operand c X86.rcx instr)) := by
  have hload := encodes_load false hm.1
  unfold block_IMULH_M_BMI2 operandCode operand highBMI2
  dsimp only
  split
  · rw [code_address c false instr hm.2 (fun b => ((b.store32 0 _).store64 4 _).skip 9)
      fun pre b => by simp only [Block.store64, Block.store32, behind_store, behind_skip],
      (code_mulx hm.1 0).1]
    exact (encodes_address false hm.2 _ _).append (hload.append (encodes_mulxMem hm.1))
  · rw [(code_mulx hm.1 _).2]
    exact hload.append (encodes_mulxImm _ hm.1)

/-- Two registers in one number. -/
theorem code_pair {d s : Nat} (hd : d < 8) (hs : s < 8) :
    (le 8 (0x8b4ce8f749c08b49 + d <<< 16 + s <<< 40)) ++ le 1 (0xc2 + 8 * d) =
        (le 4 (0xc08b49 + d <<< 16)).take 3 ++
          ((le 4 (0xe8f749 + s <<< 16)).take 3 ++ (le 4 (0xc28b4c + d <<< 19)).take 3) ∧
      (le 8 (0xc8d349c88b41 + s <<< 16 + d <<< 40)).take 6 =
        (le 4 (0xc88b41 + s <<< 16)).take 3 ++ (le 4 (0xc8d349 + d <<< 16)).take 3 ∧
      (le 8 (0xc0d349c88b41 + s <<< 16 + d <<< 40)).take 6 =
        (le 4 (0xc88b41 + s <<< 16)).take 3 ++ (le 4 (0xc0d349 + d <<< 16)).take 3 := by
  interval_cases d <;> interval_cases s <;> exact ⟨rfl, rfl, rfl⟩

theorem code_mulxReg {d : Nat} (hd : d < 8) : le 4 (0xC4D08B49 + d <<< 16) =
    (le 4 (0xd08b49 + d <<< 16)).take 3 ++ [0xC4] := by
  interval_cases d <;> rfl

/-- An immediate behind the opcode, in one number. -/
theorem code_xorImm {d : Nat} (hd : d < 8) (v : BitVec 32) :
    (le 8 (v.toNat <<< 24 + 0xf08149 + d <<< 16)).take 7 =
      (le 4 (0xf08149 + d <<< 16)).take 3 ++ le 4 v.toNat := by
  have hn : v.toNat <<< 24 + 0xf08149 + d <<< 16 =
      (0xf08149 + d <<< 16) + 256 ^ 3 * v.toNat := by
    rw [Nat.shiftLeft_eq]
    omega
  have hlt : 0xf08149 + d <<< 16 < 256 ^ 3 := by
    rw [Nat.shiftLeft_eq]
    omega
  rw [hn, le_add 3 5, Nat.add_mul_div_left _ _ (by decide), Nat.div_eq_of_lt hlt, Nat.zero_add,
    le_add_mul]
  rfl

/-- **The code of an integer instruction or a store** is what `assembly` says. -/
theorem encodes_block {type : InstructionType} (h : isInteger type) {instr : Instruction}
    (hm : instr.dst.toNat < 8 ∧ instr.src.toNat < 8) (s : JitCompilerX86) :
    X86.Encodes (block c cpu type instr s).code
      (assembly c cpu type instr s.imul_rcp_storage_used) := by
  obtain ⟨hd, hs⟩ := hm
  have ht : instr.getModShift < 4 := by
    rw [Instruction.getModShift]
    omega
  cases type <;> simp only [block, assembly]
  case IADD_RS =>
    unfold block_IADD_RS
    dsimp only
    by_cases h5 : instr.dst.toNat = 5
    · rw [if_pos h5, if_pos h5, if_pos h5, dstReg, reg, h5]
      exact encodes_IADD_RS_displacement instr.imm32 hs ht
    · rw [if_neg h5, if_neg h5, if_neg h5]
      exact encodes_IADD_RS hd hs ht h5
  case IADD_M => exact encodes_blockMem ⟨hd, hs⟩ (encodes_mem hd).1 fun v => (encodes_memImm v hd).1
  case ISUB_M =>
    exact encodes_blockMem ⟨hd, hs⟩ (encodes_mem hd).2.1 fun v => (encodes_memImm v hd).2.1
  case IXOR_M =>
    exact encodes_blockMem ⟨hd, hs⟩ (encodes_mem hd).2.2.1 fun v => (encodes_memImm v hd).2.2.1
  case ISUB_R =>
    unfold block_ISUB_R
    dsimp only
    split
    · exact encodes_ISUB_R hd hs
    · exact (encodes_imm instr.imm32 hd).1
  case IXOR_R =>
    unfold block_IXOR_R
    dsimp only
    split
    · exact encodes_IXOR_R hd hs
    · have hcode : (((({} : Block).store64 0
          (instr.imm32.toNat <<< 24 + 0xf08149 + instr.dst.toNat <<< 16)).skip 7).code) =
          (le 8 (instr.imm32.toNat <<< 24 + 0xf08149 + instr.dst.toNat <<< 16)).take 7 := rfl
      rw [hcode, code_xorImm hd]
      exact (encodes_imm instr.imm32 hd).2.1
  case IMUL_R =>
    unfold block_IMUL_R
    dsimp only
    split
    · exact encodes_IMUL_R hd hs
    · exact (encodes_imm instr.imm32 hd).2.2
  case IMUL_M =>
    unfold block_IMUL_M operandCode operand
    dsimp only
    split
    · rw [code_address c true instr hs (fun b => (b.store64 0 _).skip 5) fun pre b => by
        simp only [Block.store64, behind_store, behind_skip]]
      exact (encodes_address true hs _ _).append (encodes_mem hd).2.2.2.1
    · exact (encodes_memImm _ hd).2.2.2
  case IMULH_R =>
    split
    · have hcode : (block_IMULH_R_BMI2 instr).code = le 4 (0xC4D08B49 + instr.dst.toNat <<< 16) ++
          le 4 (0xC0F6FB42 + instr.dst.toNat <<< 27 + instr.src.toNat <<< 24) := rfl
      rw [hcode, code_mulxReg hd, List.append_assoc]
      exact (encodes_load false hd).append (encodes_mulx hd hs)
    · exact (encodes_load true hd).append ((encodes_mul false hs).append (encodes_result hd))
  case IMULH_M =>
    split
    · exact encodes_blockMulx ⟨hd, hs⟩
    · exact encodes_blockMul ⟨hd, hs⟩ false
  case ISMULH_R =>
    have hcode : (block_ISMULH_R instr).code = le 8 (0x8b4ce8f749c08b49 + instr.dst.toNat <<< 16 +
        instr.src.toNat <<< 40) ++ le 1 (0xc2 + 8 * instr.dst.toNat) := rfl
    rw [hcode, (code_pair hd hs).1]
    exact (encodes_load true hd).append ((encodes_mul true hs).append (encodes_result hd))
  case ISMULH_M => exact encodes_blockMul ⟨hd, hs⟩ true
  case IMUL_RCP =>
    split
    · unfold block_IMUL_RCP
      dsimp only
      split
      · exact encodes_slot hd ‹_›
      · exact encodes_IMUL_RCP _ hd
    · rename_i hz
      rw [if_pos (not_not.mp hz)]
      exact .nil
  case INEG_R => exact encodes_INEG_R hd
  case IROR_R =>
    unfold block_IROR_R blockRot rotation
    dsimp only
    split
    · have hcode : ((({} : Block).store64 0 (0xc8d349c88b41 + instr.src.toNat <<< 16 +
          instr.dst.toNat <<< 40)).skip 6).code = (le 8 (0xc8d349c88b41 + instr.src.toNat <<< 16 +
          instr.dst.toNat <<< 40)).take 6 := rfl
      rw [hcode, (code_pair hd hs).2.1]
      exact encodes_rot false hd hs
    · exact encodes_rotImm false hd (Nat.mod_lt _ (by decide))
  case IROL_R =>
    unfold block_IROL_R blockRot rotation
    dsimp only
    split
    · have hcode : ((({} : Block).store64 0 (0xc0d349c88b41 + instr.src.toNat <<< 16 +
          instr.dst.toNat <<< 40)).skip 6).code = (le 8 (0xc0d349c88b41 + instr.src.toNat <<< 16 +
          instr.dst.toNat <<< 40)).take 6 := rfl
      rw [hcode, (code_pair hd hs).2.2]
      exact encodes_rot true hd hs
    · exact encodes_rotImm true hd (Nat.mod_lt _ (by decide))
  case ISWAP_R =>
    split
    · exact encodes_ISWAP_R hd hs
    · exact .nil
  case ISTORE =>
    rw [block_ISTORE, genAddressRegDst_eq c instr hd, Block.emit32, Block.emit, behind_store,
      behind_skip, behind_code]
    exact (encodes_address true hd _ _).append (encodes_mem hs).2.2.2.2
  all_goals cases h

/-- The conversion of the operand that a floating-point instruction starts with. -/
def cvt : X86.Mem := ⟨some X86.rsi, some (X86.rax, 0), 0⟩

theorem encodes_cvt : X86.Encodes [0xF3, 0x44, 0x0F, 0xE6, 0x24, 0x06] [.cvtdq2pd 12 cvt] :=
  .one (by simp) fun _ => rfl

/-- **The code of a floating-point instruction on memory** starts with the offset and the
conversion. -/
theorem encodes_blockFlt {type : InstructionType}
    (h : type = .FADD_M ∨ type = .FSUB_M ∨ type = .FDIV_M) {instr : Instruction}
    (hs : instr.src.toNat < 8) (s : JitCompilerX86) :
    ∃ pre post, (block c cpu type instr s).code =
        pre ++ ([0xF3, 0x44, 0x0F, 0xE6, 0x24, 0x06] ++ post) ∧
      X86.Encodes pre
        (address X86.rax (srcReg instr) instr.imm32 (c.AddressMask instr.getModMem)) := by
  have haddr := encodes_address true hs instr.imm32 (c.AddressMask instr.getModMem)
  have hflt (k : Nat) : ∃ post, (blockFltMem c k instr).code =
      addressBytes true instr.src.toNat instr.imm32 (c.AddressMask instr.getModMem) ++
        ([0xF3, 0x44, 0x0F, 0xE6, 0x24, 0x06] ++ post) := by
    unfold blockFltMem
    dsimp only
    rw [code_address c true instr hs (fun b => ((b.store64 0 _).store32 8 _).skip 11)
      fun pre b => by simp only [Block.store64, Block.store32, behind_store, behind_skip]]
    exact ⟨_, rfl⟩
  rcases h with rfl | rfl | rfl
  · obtain ⟨post, hpost⟩ := hflt 0xc4580f
    exact ⟨_, post, hpost, haddr⟩
  · obtain ⟨post, hpost⟩ := hflt 0xc45c0f
    exact ⟨_, post, hpost, haddr⟩
  · simp only [block, block_FDIV_M]
    split
    · rw [code_address c true instr hs
        (fun b => ((((b.store64 0 _).skip 6).store64 0 _).skip 6 |>.store64 0 _).skip 5)
        fun pre b => by simp only [Block.store64, behind_store, behind_skip]]
      exact ⟨_, _, rfl, haddr⟩
    · rw [code_address c true instr hs
        (fun b => ((((b.store64 0 _).skip 6).store64 0 _).skip 8 |>.store64 0 _).skip 5)
        fun pre b => by simp only [Block.store64, behind_store, behind_skip]]
      exact ⟨_, _, rfl, haddr⟩

end L2.JitAssembly
end Rxs
