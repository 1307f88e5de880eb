import Rxs.L2Machine.RandomX

/-!
# The bytecode machine

`compileInstruction` turns an instruction into its bytecode and keeps, for each integer
register, the last instruction that changed it; a branch counts as one that changes
them all. `executeInstruction` runs one bytecode, which for a taken branch goes back
behind the instruction that its register was changed by.

Floating point is what `FloatOps` says, over any type of values, with the rounding mode
as an argument. Memory is a function; addresses are masked.

* `changes`: the integer registers that a bytecode may change.
* `used_of_changes`: the compiler marks them all.
-/
namespace Rxs.RandomX

/-- The floating-point operations: `f128` operands, conversion of eight bytes of the
scratchpad, and the mask of a divisor. The mode is that of the rounding. -/
structure FloatOps (V : Type) where
  add : BitVec 2 → V → V → V
  sub : BitVec 2 → V → V → V
  mul : BitVec 2 → V → V → V
  div : BitVec 2 → V → V → V
  sqrt : BitVec 2 → V → V
  swap : V → V
  scal : V → V
  cvt : BitVec 64 → V
  maskRegisterExponentMantissa : V → V

abbrev Reg := Fin 8

/-- A register of the two groups that floating-point instructions write. -/
inductive FloatReg where
  | f (i : Fin 4)
  | e (i : Fin 4)
  deriving DecidableEq, Repr

abbrev Memory := Nat → BitVec 8

def load64 (m : Memory) (addr : Nat) : BitVec 64 :=
  m (addr + 7) ++ m (addr + 6) ++ m (addr + 5) ++ m (addr + 4) ++ m (addr + 3) ++ m (addr + 2) ++
    m (addr + 1) ++ m addr

def store64 (m : Memory) (addr : Nat) (v : BitVec 64) : Memory := fun a =>
  if addr ≤ a ∧ a < addr + 8 then v.extractLsb' (8 * (a - addr)) 8 else m a

/-- `NativeRegisterFile`, with the scratchpad and the rounding mode. -/
structure Native (V : Type) where
  r : Reg → BitVec 64
  f : Fin 4 → V
  e : Fin 4 → V
  a : Fin 4 → V
  scratchpad : Memory
  mode : BitVec 2

namespace Native

variable {V : Type}

def setR (s : Native V) (i : Reg) (v : BitVec 64) : Native V :=
  { s with r := Function.update s.r i v }

def getF (s : Native V) : FloatReg → V
  | .f i => s.f i
  | .e i => s.e i

def setF (s : Native V) (i : FloatReg) (v : V) : Native V :=
  match i with
  | .f i => { s with f := Function.update s.f i v }
  | .e i => { s with e := Function.update s.e i v }

@[simp] theorem setR_r (s : Native V) (i : Reg) (v : BitVec 64) :
    (s.setR i v).r = Function.update s.r i v := rfl

@[simp] theorem setF_r (s : Native V) (i : FloatReg) (v : V) : (s.setF i v).r = s.r := by
  cases i <;> rfl

end Native

/-- What `isrc` points to: a register, the bytecode's own immediate, or zero. -/
inductive IntSrc where
  | reg (i : Reg)
  | imm
  | zero
  deriving DecidableEq, Repr

structure InstructionByteCode where
  type : InstructionType
  idst : Reg := 0
  fdst : FloatReg := .f 0
  isrc : IntSrc := .zero
  fsrc : Fin 4 := 0
  imm : BitVec 64 := 0
  target : Int := 0
  shift : Nat := 0
  memMask : BitVec 32 := 0
  deriving DecidableEq, Repr

namespace BytecodeMachine

def reg (x : BitVec 8) : Reg := Fin.ofNat 8 x.toNat

/-- What stands in the second half of the registers. -/
theorem sub_four_lt {r : Reg} (h : ¬ r.val < 4) : r.val - 4 < 4 := by omega

def regFlt (x : BitVec 8) : Fin 4 := Fin.ofNat 4 x.toNat

def RegisterNeedsDisplacement : Reg := 5

/-- `int` to `int16_t`. -/
def toInt16 (x : Int) : Int := (BitVec.ofInt 16 x).toInt

/-- A register as operand, or the immediate where it is the destination. -/
def regOrImm (type : InstructionType) (dst src : Reg) (imm : BitVec 64) : InstructionByteCode :=
  if src ≠ dst then { type := type, idst := dst, isrc := .reg src }
  else { type := type, idst := dst, isrc := .imm, imm := imm }

/-- Memory at a register, or at the immediate in all of the scratchpad. -/
def memory (c : Configuration) (type : InstructionType) (dst src : Reg) (instr : Instruction) :
    InstructionByteCode :=
  let imm := signExtend2sCompl instr.imm32
  if src ≠ dst then
    { type := type, idst := dst, isrc := .reg src, imm := imm
      memMask := c.AddressMask instr.getModMem }
  else { type := type, idst := dst, isrc := .zero, imm := imm, memMask := c.ScratchpadL3Mask }

/-- Memory as operand of a floating-point instruction. -/
def memoryFlt (c : Configuration) (type : InstructionType) (dst : FloatReg) (src : Reg)
    (instr : Instruction) : InstructionByteCode :=
  { type := type, fdst := dst, isrc := .reg src, imm := signExtend2sCompl instr.imm32
    memMask := c.AddressMask instr.getModMem }

/-- What a branch adds: the bit below those it looks at is cleared, the lowest of them
is set.
mirrors src/crypto/randomx/bytecode_machine.cpp:467-469 -/
def branchImm (instr : Instruction) : BitVec 64 :=
  let shift := instr.getModCond
  (signExtend2sCompl instr.imm32 ||| (1#64 <<< JumpOffset) <<< shift) &&&
    ~~~((1#64 <<< (JumpOffset - 1)) <<< shift)

abbrev Usage := Reg → Int

/-- The bytecode of the instruction, and the table behind it; `i` is its number.
mirrors src/crypto/randomx/bytecode_machine.cpp:81-508 -/
def compile (c : Configuration) (type : InstructionType) (instr : Instruction) (i : Nat)
    (registerUsage : Usage) : InstructionByteCode × Usage :=
  let dst := reg instr.dst
  let src := reg instr.src
  let used := Function.update registerUsage dst (i : Int)
  match type with
  | .IADD_RS =>
    ({ type := .IADD_RS, idst := dst, isrc := .reg src, shift := instr.getModShift
       imm := if dst ≠ RegisterNeedsDisplacement then 0 else signExtend2sCompl instr.imm32 }, used)
  | .IADD_M => (memory c .IADD_M dst src instr, used)
  | .ISUB_R => (regOrImm .ISUB_R dst src (signExtend2sCompl instr.imm32), used)
  | .ISUB_M => (memory c .ISUB_M dst src instr, used)
  | .IMUL_R => (regOrImm .IMUL_R dst src (signExtend2sCompl instr.imm32), used)
  | .IMUL_M => (memory c .IMUL_M dst src instr, used)
  | .IMULH_R => ({ type := .IMULH_R, idst := dst, isrc := .reg src }, used)
  | .IMULH_M => (memory c .IMULH_M dst src instr, used)
  | .ISMULH_R => ({ type := .ISMULH_R, idst := dst, isrc := .reg src }, used)
  | .ISMULH_M => (memory c .ISMULH_M dst src instr, used)
  | .IMUL_RCP =>
    let divisor := instr.imm32.setWidth 64
    if ¬ isZeroOrPowerOf2 divisor then
      ({ type := .IMUL_R, idst := dst, isrc := .imm, imm := randomx_reciprocal divisor }, used)
    else ({ type := .NOP }, registerUsage)
  | .INEG_R => ({ type := .INEG_R, idst := dst }, used)
  | .IXOR_R => (regOrImm .IXOR_R dst src (signExtend2sCompl instr.imm32), used)
  | .IXOR_M => (memory c .IXOR_M dst src instr, used)
  | .IROR_R => (regOrImm .IROR_R dst src (instr.imm32.setWidth 64), used)
  | .IROL_R => (regOrImm .IROL_R dst src (instr.imm32.setWidth 64), used)
  | .ISWAP_R =>
    if src ≠ dst then
      ({ type := .ISWAP_R, idst := dst, isrc := .reg src }, Function.update used src (i : Int))
    else ({ type := .NOP }, registerUsage)
  | .FSWAP_R =>
    ({ type := .FSWAP_R,
       fdst := if h : dst.val < 4 then .f ⟨dst, h⟩ else .e ⟨dst - 4, sub_four_lt h⟩ },
      registerUsage)
  | .FADD_R =>
    ({ type := .FADD_R, fdst := .f (regFlt instr.dst), fsrc := regFlt instr.src }, registerUsage)
  | .FADD_M => (memoryFlt c .FADD_M (.f (regFlt instr.dst)) src instr, registerUsage)
  | .FSUB_R =>
    ({ type := .FSUB_R, fdst := .f (regFlt instr.dst), fsrc := regFlt instr.src }, registerUsage)
  | .FSUB_M => (memoryFlt c .FSUB_M (.f (regFlt instr.dst)) src instr, registerUsage)
  | .FSCAL_R => ({ type := .FSCAL_R, fdst := .f (regFlt instr.dst) }, registerUsage)
  | .FMUL_R =>
    ({ type := .FMUL_R, fdst := .e (regFlt instr.dst), fsrc := regFlt instr.src }, registerUsage)
  | .FDIV_M => (memoryFlt c .FDIV_M (.e (regFlt instr.dst)) src instr, registerUsage)
  | .FSQRT_R => ({ type := .FSQRT_R, fdst := .e (regFlt instr.dst) }, registerUsage)
  | .CBRANCH =>
    ({ type := .CBRANCH, idst := dst, target := toInt16 (registerUsage dst)
       imm := branchImm instr, memMask := ConditionMask_Calculated <<< instr.getModCond },
      fun _ => i)
  | .CFROUND =>
    ({ type := .CFROUND, isrc := .reg src, imm := instr.imm32.setWidth 64 &&& 63 }, registerUsage)
  | .ISTORE =>
    ({ type := .ISTORE, idst := dst, isrc := .reg src, imm := signExtend2sCompl instr.imm32
       memMask := if instr.getModCond < StoreL3Condition then c.AddressMask instr.getModMem
         else c.ScratchpadL3Mask }, registerUsage)
  | .NOP => ({ type := .NOP }, registerUsage)

/-- `none` where the code is not to be reached. -/
def compileInstruction (c : Configuration) (instr : Instruction) (i : Nat)
    (registerUsage : Usage) : Option (InstructionByteCode × Usage) :=
  (c.decode instr).map fun type => compile c type instr i registerUsage

/-- The instructions from `i` on. -/
def compileFrom (c : Configuration) : List Instruction → Nat → Usage →
    Option (List InstructionByteCode)
  | [], _, _ => some []
  | instr :: program, i, registerUsage => do
    let (ibc, registerUsage) ← compileInstruction c instr i registerUsage
    let bytecode ← compileFrom c program (i + 1) registerUsage
    return ibc :: bytecode

/-- mirrors src/crypto/randomx/bytecode_machine.hpp:76-90 -/
def compileProgram (c : Configuration) (program : List Instruction) :
    Option (List InstructionByteCode) :=
  compileFrom c program 0 fun _ => -1

variable {V : Type}

/-- What `isrc` points to. -/
def src (ibc : InstructionByteCode) (s : Native V) : BitVec 64 :=
  match ibc.isrc with
  | .reg i => s.r i
  | .imm => ibc.imm
  | .zero => 0

/-- mirrors src/crypto/randomx/bytecode_machine.hpp:258-261 -/
def getScratchpadAddress (ibc : InstructionByteCode) (s : Native V) : Nat :=
  ((src ibc s + ibc.imm) &&& ibc.memMask.setWidth 64).toNat

/-- One bytecode; the new `pc` is that before the loop counts it on.
mirrors src/crypto/randomx/bytecode_machine.cpp:40-79 and
src/crypto/randomx/bytecode_machine.hpp:111-236 -/
def executeInstruction (c : Configuration) (ops : FloatOps V) (ibc : InstructionByteCode)
    (pc : Int) (s : Native V) : Int × Native V :=
  let dst := s.r ibc.idst
  let isrc := src ibc s
  let mem := load64 s.scratchpad (getScratchpadAddress ibc s)
  let fdst := s.getF ibc.fdst
  match ibc.type with
  | .IADD_RS => (pc, s.setR ibc.idst (dst + (isrc <<< ibc.shift + ibc.imm)))
  | .IADD_M => (pc, s.setR ibc.idst (dst + mem))
  | .ISUB_R => (pc, s.setR ibc.idst (dst - isrc))
  | .ISUB_M => (pc, s.setR ibc.idst (dst - mem))
  | .IMUL_R => (pc, s.setR ibc.idst (dst * isrc))
  | .IMUL_M => (pc, s.setR ibc.idst (dst * mem))
  | .IMULH_R => (pc, s.setR ibc.idst (mulh dst isrc))
  | .IMULH_M => (pc, s.setR ibc.idst (mulh dst mem))
  | .ISMULH_R => (pc, s.setR ibc.idst (smulh dst isrc))
  | .ISMULH_M => (pc, s.setR ibc.idst (smulh dst mem))
  | .INEG_R => (pc, s.setR ibc.idst (~~~dst + 1))
  | .IXOR_R => (pc, s.setR ibc.idst (dst ^^^ isrc))
  | .IXOR_M => (pc, s.setR ibc.idst (dst ^^^ mem))
  | .IROR_R => (pc, s.setR ibc.idst (rotr64 dst (isrc &&& 63).toNat))
  | .IROL_R => (pc, s.setR ibc.idst (rotl64 dst (isrc &&& 63).toNat))
  | .ISWAP_R =>
    match ibc.isrc with
    | .reg i => (pc, (s.setR i dst).setR ibc.idst isrc)
    | _ => (pc, s)
  | .FSWAP_R => (pc, s.setF ibc.fdst (ops.swap fdst))
  | .FADD_R => (pc, s.setF ibc.fdst (ops.add s.mode fdst (s.a ibc.fsrc)))
  | .FADD_M => (pc, s.setF ibc.fdst (ops.add s.mode fdst (ops.cvt mem)))
  | .FSUB_R => (pc, s.setF ibc.fdst (ops.sub s.mode fdst (s.a ibc.fsrc)))
  | .FSUB_M => (pc, s.setF ibc.fdst (ops.sub s.mode fdst (ops.cvt mem)))
  | .FSCAL_R => (pc, s.setF ibc.fdst (ops.scal fdst))
  | .FMUL_R => (pc, s.setF ibc.fdst (ops.mul s.mode fdst (s.a ibc.fsrc)))
  | .FDIV_M =>
    (pc, s.setF ibc.fdst (ops.div s.mode fdst (ops.maskRegisterExponentMantissa (ops.cvt mem))))
  | .FSQRT_R => (pc, s.setF ibc.fdst (ops.sqrt s.mode fdst))
  | .CBRANCH =>
    let v := dst + ibc.imm
    (if v &&& ibc.memMask.setWidth 64 = 0 then ibc.target else pc, s.setR ibc.idst v)
  | .CFROUND =>
    let isrc := rotr64 isrc ibc.imm.toNat
    (pc, if ¬ c.Tweak_V2_CFROUND ∨ isrc &&& 60 = 0 then { s with mode := isrc.setWidth 2 } else s)
  | .ISTORE =>
    let addr := ((dst + ibc.imm) &&& ibc.memMask.setWidth 64).toNat
    (pc, { s with scratchpad := store64 s.scratchpad addr isrc })
  | .NOP => (pc, s)
  -- compiled to `IMUL_R`
  | .IMUL_RCP => (pc, s)

/-- The loop over the bytecode, between two turns. -/
structure Loop (V : Type) where
  pc : Nat
  s : Native V

/-- One turn. -/
def turn (c : Configuration) (ops : FloatOps V) (bytecode : List InstructionByteCode)
    (l : Loop V) : Loop V :=
  match bytecode[l.pc]? with
  | some ibc =>
    let r := executeInstruction c ops ibc l.pc l.s
    ⟨(r.1 + 1).toNat, r.2⟩
  | none => l

/-- At most `fuel` turns; `none` if they do not bring it to the end.
mirrors src/crypto/randomx/bytecode_machine.hpp:92-97 -/
def executeBytecode (c : Configuration) (ops : FloatOps V) (bytecode : List InstructionByteCode) :
    Nat → Loop V → Option (Native V)
  | 0, l => if l.pc < bytecode.length then none else some l.s
  | fuel + 1, l =>
    if l.pc < bytecode.length then executeBytecode c ops bytecode fuel (turn c ops bytecode l)
    else some l.s

/-! ## What changes a register -/

/-- The integer registers that the bytecode may change. -/
def changes (ibc : InstructionByteCode) : List Reg :=
  match ibc.type with
  | .ISWAP_R =>
    match ibc.isrc with
    | .reg i => [i, ibc.idst]
    | _ => []
  | .FSWAP_R | .FADD_R | .FADD_M | .FSUB_R | .FSUB_M | .FSCAL_R | .FMUL_R | .FDIV_M | .FSQRT_R
  | .CFROUND | .ISTORE | .NOP | .IMUL_RCP => []
  | _ => [ibc.idst]

/-- **All others are kept.** -/
theorem executeInstruction_r (c : Configuration) (ops : FloatOps V) {ibc : InstructionByteCode}
    {r : Reg} (h : r ∉ changes ibc) (pc : Int) (s : Native V) :
    (executeInstruction c ops ibc pc s).2.r r = s.r r := by
  obtain ⟨type, idst, fdst, isrc, fsrc, imm, target, shift, memMask⟩ := ibc
  unfold executeInstruction
  cases type <;> simp only [changes] at h ⊢
  case ISWAP_R =>
    cases isrc with
    | reg i =>
      simp only [List.mem_cons, List.not_mem_nil, or_false, not_or] at h
      simp [h.1, h.2]
    | _ => rfl
  case CFROUND => split <;> rfl
  all_goals first
    | rfl
    | exact congrFun (Native.setF_r _ _ _) r
    | exact Function.update_of_ne (List.ne_of_not_mem_cons h) _ _

/-- Only a branch leaves the order of the instructions. -/
theorem executeInstruction_pc (c : Configuration) (ops : FloatOps V) {ibc : InstructionByteCode}
    (h : ibc.type ≠ .CBRANCH) (pc : Int) (s : Native V) :
    (executeInstruction c ops ibc pc s).1 = pc := by
  obtain ⟨type, idst, fdst, isrc, fsrc, imm, target, shift, memMask⟩ := ibc
  unfold executeInstruction
  cases type <;> try rfl
  case ISWAP_R => cases isrc <;> rfl
  case CBRANCH => exact absurd rfl h

/-- The compiler's bytecode is a branch exactly for a branch. -/
theorem compile_type (c : Configuration) (type : InstructionType) (instr : Instruction) (i : Nat)
    (u : Usage) : (compile c type instr i u).1.type = .CBRANCH ↔ type = .CBRANCH := by
  cases type <;> simp only [compile, memory, memoryFlt, regOrImm] <;> (try split) <;> simp

/-- **Every register that may change is marked**; the others keep their mark. -/
theorem used_of_changes (c : Configuration) {type : InstructionType} (h : type ≠ .CBRANCH)
    (instr : Instruction) (i : Nat) (u : Usage) (r : Reg) :
    (compile c type instr i u).2 r = i ∨
      ((compile c type instr i u).2 r = u r ∧ r ∉ changes (compile c type instr i u).1) := by
  have hdst (ibc : InstructionByteCode) (hc : changes ibc = [reg instr.dst]) :
      Function.update u (reg instr.dst) (i : Int) r = i ∨
        (Function.update u (reg instr.dst) (i : Int) r = u r ∧ r ∉ changes ibc) := by
    by_cases hr : r = reg instr.dst
    · exact .inl (by rw [hr, Function.update_self])
    · exact .inr ⟨Function.update_of_ne hr _ _, by rw [hc]; simpa using hr⟩
  cases type
  case CBRANCH => exact absurd rfl h
  case IMUL_RCP =>
    simp only [compile]
    split
    · exact hdst _ rfl
    · exact .inr ⟨rfl, by simp [changes]⟩
  case ISWAP_R =>
    simp only [compile]
    split <;> dsimp only
    · by_cases hs : r = reg instr.src
      · exact .inl (by rw [hs, Function.update_self])
      · rw [Function.update_of_ne hs]
        by_cases hr : r = reg instr.dst
        · exact .inl (by rw [hr, Function.update_self])
        · exact .inr ⟨Function.update_of_ne hr _ _, by simp [changes, hs, hr]⟩
    · exact .inr ⟨rfl, by simp [changes]⟩
  all_goals first
    | exact .inr ⟨rfl, List.not_mem_nil⟩
    | exact hdst _ rfl
    | (refine hdst _ ?_
       simp only [compile, memory, regOrImm]
       split <;> rfl)

end BytecodeMachine

end Rxs.RandomX
