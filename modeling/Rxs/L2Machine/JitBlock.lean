import Mathlib.Tactic.IntervalCases
import Rxs.L2Machine.JitCompilerX86

/-!
# What the handlers write and record

The code of an instruction is a block of no more than 33 bytes. Its handler stores at
most seven bytes behind it, which are written over later. Two other writes are made: the
constants of `IMUL_RCP` stand before the program, and a `CFROUND` may be overwritten,
with as many bytes as it has.

* `block`, `block_ok`: the code of an instruction, and its size.
* `codePos_handler`, `code_handler`: where and what a handler writes.
* `registerUsage_handler`, `compile_usage`: the tables of last changes, of this compiler
  and of the bytecode's.
* `prevFPOperation_handler`: what is recorded of rounding operations.
* `compile_of_empty`: an instruction without code does nothing.
-/
namespace Rxs.RandomX

open Rxs.Core Rxs.Core.Bytes Rxs.RandomX.BytecodeMachine

/-! ## Blocks -/

namespace Block

@[simp] theorem store_pos (b : Block) (off : Nat) (d : Bytes) : (b.store off d).pos = b.pos := rfl
@[simp] theorem store32_pos (b : Block) (off v : Nat) : (b.store32 off v).pos = b.pos := rfl
@[simp] theorem store64_pos (b : Block) (off v : Nat) : (b.store64 off v).pos = b.pos := rfl
@[simp] theorem skip_pos (b : Block) (n : Nat) : (b.skip n).pos = b.pos + n := rfl
@[simp] theorem emit_pos (b : Block) (d : Bytes) : (b.emit d).pos = b.pos + d.length := rfl
@[simp] theorem emitByte_pos (b : Block) (v : Nat) : (b.emitByte v).pos = b.pos + 1 := rfl
@[simp] theorem emit32_pos (b : Block) (v : Nat) : (b.emit32 v).pos = b.pos + 4 := rfl
@[simp] theorem emit64_pos (b : Block) (v : Nat) : (b.emit64 v).pos = b.pos + 8 := rfl

/-- The length after a write that may go over the end. -/
def extent (length off size : Nat) : Nat :=
  min off length + size + (length - (off + size))

theorem length_writeAt (b : Bytes) (off : Nat) (d : Bytes) :
    (b.writeAt off d).length = extent b.length off d.length := by
  simp [writeAt, extent, Nat.add_assoc]

@[simp] theorem skip_bytes (b : Block) (n : Nat) : (b.skip n).bytes = b.bytes := rfl
@[simp] theorem length_store (b : Block) (off : Nat) (d : Bytes) :
    (b.store off d).bytes.length = extent b.bytes.length (b.pos + off) d.length :=
  length_writeAt _ _ _
@[simp] theorem length_store32 (b : Block) (off v : Nat) :
    (b.store32 off v).bytes.length = extent b.bytes.length (b.pos + off) 4 := by
  rw [store32, length_store, length_le]
@[simp] theorem length_store64 (b : Block) (off v : Nat) :
    (b.store64 off v).bytes.length = extent b.bytes.length (b.pos + off) 8 := by
  rw [store64, length_store, length_le]
@[simp] theorem length_emit (b : Block) (d : Bytes) :
    (b.emit d).bytes.length = extent b.bytes.length b.pos d.length :=
  length_writeAt _ _ _
@[simp] theorem length_emitByte (b : Block) (v : Nat) :
    (b.emitByte v).bytes.length = extent b.bytes.length b.pos 1 := by
  rw [emitByte, length_emit, length_le]
@[simp] theorem length_emit32 (b : Block) (v : Nat) :
    (b.emit32 v).bytes.length = extent b.bytes.length b.pos 4 := by
  rw [emit32, length_emit, length_le]
@[simp] theorem length_emit64 (b : Block) (v : Nat) :
    (b.emit64 v).bytes.length = extent b.bytes.length b.pos 8 := by
  rw [emit64, length_emit, length_le]

/-- All of the code has been stored, and not much behind it. -/
structure Ok (b : Block) : Prop where
  pos_le : b.pos ≤ b.bytes.length
  length_le : b.bytes.length ≤ b.pos + 7
  size : b.pos ≤ 33

theorem Ok.length_code {b : Block} (h : b.Ok) : b.code.length = b.pos := by
  rw [code, List.length_take, Nat.min_eq_left h.pos_le]

end Block

namespace JitCompilerX86

variable (c : Configuration) (cpu : Cpu)

/-- The code that the handler of an instruction writes at `codePos`. -/
def block (type : InstructionType) (instr : Instruction) (s : JitCompilerX86) : Block :=
  match type with
  | .IADD_RS => block_IADD_RS instr
  | .IADD_M => block_IADD_M c instr
  | .ISUB_R => block_ISUB_R instr
  | .ISUB_M => block_ISUB_M c instr
  | .IMUL_R => block_IMUL_R instr
  | .IMUL_M => block_IMUL_M c instr
  | .IMULH_R => if cpu.hasBMI2 then block_IMULH_R_BMI2 instr else block_IMULH_R instr
  | .IMULH_M => if cpu.hasBMI2 then block_IMULH_M_BMI2 c instr else block_IMULH_M c instr
  | .ISMULH_R => block_ISMULH_R instr
  | .ISMULH_M => block_ISMULH_M c instr
  | .IMUL_RCP =>
    let divisor := instr.imm32.setWidth 64
    if ¬ isZeroOrPowerOf2 divisor then
      block_IMUL_RCP (randomx_reciprocal_fast divisor) s.imul_rcp_storage_used instr
    else {}
  | .INEG_R => block_INEG_R instr
  | .IXOR_R => block_IXOR_R instr
  | .IXOR_M => block_IXOR_M c instr
  | .IROR_R => block_IROR_R instr
  | .IROL_R => block_IROL_R instr
  | .ISWAP_R => if instr.src.toNat ≠ instr.dst.toNat then block_ISWAP_R instr else {}
  | .FSWAP_R => block_FSWAP_R instr
  | .FADD_R => block_FADD_R instr
  | .FADD_M => block_FADD_M c instr
  | .FSUB_R => block_FSUB_R instr
  | .FSUB_M => block_FSUB_M c instr
  | .FSCAL_R => block_FSCAL_R instr
  | .FMUL_R => block_FMUL_R instr
  | .FDIV_M => block_FDIV_M c cpu instr
  | .FSQRT_R => block_FSQRT_R instr
  | .CBRANCH => block_CBRANCH cpu s.codePos (s.registerUsage (reg instr.dst)) instr
  | .CFROUND =>
    if cpu.hasBMI2 then block_CFROUND_BMI2 c cpu s.codePos instr
    else block_CFROUND c cpu s.codePos instr
  | .ISTORE => block_ISTORE c instr
  | .NOP => block_NOP

theorem length_NOPX {n : Nat} (h : 1 ≤ n ∧ n ≤ 9) : (NOPX n).length = n := by
  obtain ⟨h₁, h₂⟩ := h
  interval_cases n <;> rfl

theorem length_JMP_ALIGN_PREFIX {n : Nat} (h : n ≤ 13) : (JMP_ALIGN_PREFIX n).length = n := by
  unfold JMP_ALIGN_PREFIX
  split
  · rw [List.length_replicate]
  · rw [List.length_append, length_NOPX (by omega), List.length_replicate]
    omega

/-- A jump that touches a boundary of 32 bytes ends no more than thirteen behind its start. -/
theorem alignment_le (pos : Nat) (jmp_offset : Int) : alignment cpu pos jmp_offset ≤ 13 := by
  have key {a d : Nat} (hd : d ≤ 13) (h : a ^^^ (a + d) ≥ 32) : 32 - a % 32 ≤ 13 := by
    by_contra hlt
    have hdiv : (a + d) / 32 = a / 32 := by omega
    have hxor : (a ^^^ (a + d)) / 2 ^ 5 = 0 := by
      rw [Nat.xor_div_two_pow]
      simp [hdiv]
    omega
  unfold alignment
  dsimp only
  by_cases hshort : jmp_offset ≥ -128
  · rw [if_pos hshort]
    split
    · rename_i h
      exact key (by decide) h.2
    · omega
  · rw [if_neg hshort]
    split
    · rename_i h
      exact key (by decide) h.2
    · omega

theorem blockMode_ok {b : Block} (start : Nat) (hb : b.pos ≤ b.bytes.length)
    (hlen : b.bytes.length ≤ b.pos + 7) (hsize : b.pos ≤ 7) : (blockMode c cpu start b).Ok := by
  unfold blockMode
  split
  · split <;> constructor <;>
      simp only [Block.length_store64, Block.length_store32, Block.store64_pos, Block.store32_pos,
        Block.skip_pos, Block.skip_bytes, Block.extent] <;> omega
  · split
    · dsimp only
      split
      · have hn := length_NOPX (n := 32 - (start + b.pos) % 32) (by omega)
        constructor <;>
          simp only [Block.length_store64, Block.length_store32, Block.store64_pos,
            Block.store32_pos, Block.skip_pos, Block.skip_bytes, Block.length_emit, Block.emit_pos,
            hn, Block.extent] <;> omega
      · constructor <;>
          simp only [Block.length_store64, Block.length_store32, Block.store64_pos,
            Block.store32_pos, Block.skip_pos, Block.skip_bytes, Block.extent] <;> omega
    · constructor <;>
        simp only [Block.length_store64, Block.store64_pos, Block.skip_pos, Block.skip_bytes,
          Block.extent] <;> omega

/-- The address of an operand: its code ends with what is stored. -/
theorem genAddressReg_extent (rax : Bool) (instr : Instruction) (src : Nat) :
    (genAddressReg c rax instr src {}).bytes.length = (genAddressReg c rax instr src {}).pos ∧
      (genAddressReg c rax instr src {}).pos ≤ 14 := by
  by_cases hsrc : src = 4 <;> cases rax <;> simp [genAddressReg, Block.extent, hsrc]

theorem genAddressRegDst_extent (instr : Instruction) :
    (genAddressRegDst c instr {}).bytes.length = (genAddressRegDst c instr {}).pos ∧
      (genAddressRegDst c instr {}).pos ≤ 14 := by
  by_cases hdst : instr.dst.toNat = 4 <;> simp [genAddressRegDst, Block.extent, hdst]

theorem block_ok (type : InstructionType) (instr : Instruction) (s : JitCompilerX86) :
    (block c cpu type instr s).Ok := by
  have hreg := fun rax => (genAddressReg_extent c rax instr instr.src.toNat).1
  have hrax := (genAddressReg_extent c true instr instr.src.toNat).2
  have hrcx := (genAddressReg_extent c false instr instr.src.toNat).2
  cases type <;> simp only [block]
  case CBRANCH =>
    have hn := length_JMP_ALIGN_PREFIX (alignment_le cpu s.codePos
      (s.registerUsage (reg instr.dst) - (s.codePos + 16)))
    have hle := alignment_le cpu s.codePos (s.registerUsage (reg instr.dst) - (s.codePos + 16))
    unfold block_CBRANCH
    dsimp only
    split <;> constructor <;> simp [Block.extent, hn] <;> omega
  case CFROUND =>
    split
    · exact blockMode_ok c cpu _ (by simp [Block.extent]) (by simp [Block.extent]) (by simp)
    · exact blockMode_ok c cpu _ (by simp [Block.extent]) (by simp [Block.extent]) (by simp)
  case IMUL_RCP =>
    split
    · unfold block_IMUL_RCP
      dsimp only
      split <;> constructor <;> simp [Block.extent]
    · constructor <;> simp
  case NOP | INEG_R | FSCAL_R | FSQRT_R | FSWAP_R =>
    constructor <;> simp [block_NOP, block_INEG_R, block_FSCAL_R, block_FSQRT_R, block_FSWAP_R,
      Block.extent]
  case ISTORE =>
    obtain ⟨hdst, hle⟩ := genAddressRegDst_extent c instr
    constructor <;> simp [block_ISTORE, Block.extent, hdst]
    omega
  case IADD_RS =>
    simp only [block_IADD_RS]
    split <;> constructor <;> simp [Block.extent]
  case ISWAP_R =>
    split <;> constructor <;> simp [block_ISWAP_R, Block.extent]
  case IMULH_R =>
    split <;> constructor <;> simp [block_IMULH_R, block_IMULH_R_BMI2, Block.extent]
  case ISMULH_R => constructor <;> simp [block_ISMULH_R, Block.extent]
  case IMULH_M =>
    split
    · simp only [block_IMULH_M_BMI2]
      split
      · constructor <;> simp [Block.extent, hreg]
        omega
      · constructor <;> simp [Block.extent]
    · simp only [block_IMULH_M, blockMulMem, genAddressImm]
      split
      · constructor <;> simp [Block.extent, hreg]
        omega
      · constructor <;> simp [Block.extent]
  case ISMULH_M =>
    simp only [block_ISMULH_M, blockMulMem, genAddressImm]
    split
    · constructor <;> simp [Block.extent, hreg]
      omega
    · constructor <;> simp [Block.extent]
  case IMUL_M =>
    simp only [block_IMUL_M, genAddressImm]
    split
    · constructor <;> simp [Block.extent, hreg]
      omega
    · constructor <;> simp [Block.extent]
  case IADD_M | ISUB_M | IXOR_M =>
    simp only [block_IADD_M, block_ISUB_M, block_IXOR_M, blockMem, genAddressImm]
    split
    · constructor <;> simp [Block.extent, hreg]
      omega
    · constructor <;> simp [Block.extent]
  case ISUB_R | IMUL_R | IXOR_R =>
    simp only [block_ISUB_R, block_IMUL_R, block_IXOR_R]
    split <;> constructor <;> simp [Block.extent]
  case IROR_R | IROL_R =>
    simp only [block_IROR_R, block_IROL_R, blockRot]
    split <;> constructor <;> simp [Block.extent]
  case FADD_R | FSUB_R | FMUL_R =>
    constructor <;> simp [block_FADD_R, block_FSUB_R, block_FMUL_R, blockFlt, Block.extent]
  case FADD_M | FSUB_M =>
    simp only [block_FADD_M, block_FSUB_M, blockFltMem]
    constructor <;> simp [Block.extent, hreg]
    omega
  case FDIV_M =>
    simp only [block_FDIV_M]
    split <;> constructor <;> simp [Block.extent, hreg] <;> omega

/-! ## Handlers -/

/-- What a `CFROUND` is overwritten with. -/
def nops : Bytes :=
  if cpu.hasBMI2 then if cpu.amd then NOP25 else NOP13
  else if cpu.amd then NOP26 else NOP14

/-- The code before the block is written: a constant is stored, or a `CFROUND` is
overwritten. -/
def patched (type : InstructionType) (instr : Instruction) (s : JitCompilerX86) : Bytes :=
  match type with
  | .IMUL_RCP =>
    let divisor := instr.imm32.setWidth 64
    if ¬ isZeroOrPowerOf2 divisor ∧ s.imul_rcp_storage_used < 16 then
      s.code.writeAt s.imul_rcp_storage (le 8 (randomx_reciprocal_fast divisor).toNat)
    else s.code
  | .CFROUND => (overwrite c (nops cpu) s).code
  | _ => s.code

/-- The integer registers that an instruction is recorded to change. -/
def modified (type : InstructionType) (instr : Instruction) : List Reg :=
  match type with
  | .IMUL_RCP => if ¬ isZeroOrPowerOf2 (instr.imm32.setWidth 64) then [reg instr.dst] else []
  | .ISWAP_R => if reg instr.src ≠ reg instr.dst then [reg instr.dst, reg instr.src] else []
  | .CBRANCH => [0, 1, 2, 3, 4, 5, 6, 7]
  | .FSWAP_R | .FADD_R | .FADD_M | .FSUB_R | .FSUB_M | .FSCAL_R | .FMUL_R | .FDIV_M | .FSQRT_R
  | .CFROUND | .ISTORE | .NOP => []
  | _ => [reg instr.dst]

theorem mem_modified_branch (instr : Instruction) (r : Reg) : r ∈ modified .CBRANCH instr := by
  change r ∈ [0, 1, 2, 3, 4, 5, 6, 7]
  revert r
  decide

/-- The operations that depend on the rounding mode. -/
def rounds : InstructionType → Bool
  | .FADD_R | .FADD_M | .FSUB_R | .FSUB_M | .FMUL_R | .FDIV_M | .FSQRT_R => true
  | _ => false

theorem writeAt_nil {b : Bytes} (off : Nat) : b.writeAt off [] = b := by
  simp [writeAt]

theorem codePos_handler (type : InstructionType) (instr : Instruction) (s : JitCompilerX86) :
    (handler c cpu type instr s).codePos = s.codePos + (block c cpu type instr s).pos := by
  cases type <;> simp only [handler, block]
  case IMUL_RCP =>
    unfold h_IMUL_RCP
    dsimp only
    split
    · split <;> rfl
    · rfl
  case ISWAP_R =>
    unfold h_ISWAP_R
    split <;> rfl
  case IMULH_R | IMULH_M | CFROUND => split <;> rfl
  all_goals rfl

theorem code_handler (type : InstructionType) (instr : Instruction) (s : JitCompilerX86) :
    (handler c cpu type instr s).code =
      (patched c cpu type instr s).writeAt s.codePos (block c cpu type instr s).bytes := by
  cases type <;> simp only [handler, block, patched]
  case IMUL_RCP =>
    unfold h_IMUL_RCP
    dsimp only
    split
    · split
      · rw [if_pos ⟨‹_›, ‹_›⟩]
        rfl
      · rw [if_neg (fun h => ‹¬ s.imul_rcp_storage_used < 16› h.2)]
        rfl
    · rw [if_neg (fun h => absurd h.1 ‹_›)]
      exact (writeAt_nil _).symm
  case ISWAP_R =>
    unfold h_ISWAP_R
    split
    · rfl
    · exact (writeAt_nil _).symm
  case IMULH_R | IMULH_M => split <;> rfl
  case CFROUND =>
    split <;> rename_i h <;> simp only [nops, h] <;> rfl
  all_goals rfl

/-- The register whose change is recorded. -/
theorem used_registerUsage (s : JitCompilerX86) (d r : Reg) : (s.used d).registerUsage r =
    if r ∈ [d] then ((s.used d).codePos : Int) else s.registerUsage r := by
  simp [used, Function.update_apply]

theorem reg_ne_iff {instr : Instruction} (hm : instr.dst.toNat < 8 ∧ instr.src.toNat < 8) :
    reg instr.src ≠ reg instr.dst ↔ instr.src.toNat ≠ instr.dst.toNat := by
  simp only [reg, ne_eq, Fin.ext_iff, Fin.val_ofNat]
  omega

/-- **The compiler's table**: where the code ends that changed a register last. -/
theorem registerUsage_handler (type : InstructionType) {instr : Instruction}
    (hm : instr.dst.toNat < 8 ∧ instr.src.toNat < 8) (s : JitCompilerX86) (r : Reg) :
    (handler c cpu type instr s).registerUsage r =
      if r ∈ modified type instr then ((handler c cpu type instr s).codePos : Int)
      else s.registerUsage r := by
  cases type
  case CBRANCH =>
    rw [if_pos (mem_modified_branch instr r)]
    rfl
  all_goals simp only [handler, modified]
  case IMUL_RCP =>
    unfold h_IMUL_RCP
    dsimp only
    split
    · split <;> exact used_registerUsage _ _ r
    · rfl
  case ISWAP_R =>
    simp only [reg_ne_iff hm]
    unfold h_ISWAP_R
    split
    · simp only [used, done, Function.update_apply, List.mem_cons, List.not_mem_nil, or_false]
      split
      · rw [if_pos (.inr ‹_›)]
      · simp [‹¬ r = reg instr.src›]
    · rfl
  case IMULH_R | IMULH_M => split <;> exact used_registerUsage _ _ r
  case CFROUND => split <;> rfl
  all_goals first
    | exact used_registerUsage _ _ r
    | rfl

/-- **The bytecode compiler's table**: it is the same. -/
theorem compile_usage (type : InstructionType) (instr : Instruction) (i : Nat) (u : Usage)
    (r : Reg) : (compile c type instr i u).2 r =
      if r ∈ modified type instr then (i : Int) else u r := by
  have hused : Function.update u (reg instr.dst) (i : Int) r =
      if r ∈ [reg instr.dst] then (i : Int) else u r := by
    simp [Function.update_apply]
  cases type
  case CBRANCH => rw [if_pos (mem_modified_branch instr r)]; rfl
  all_goals simp only [compile, modified]
  case IMUL_RCP =>
    split
    · exact hused
    · rfl
  case ISWAP_R =>
    split
    · simp only [Function.update_apply, List.mem_cons, List.not_mem_nil, or_false]
      split
      · rw [if_pos (.inr ‹_›)]
      · simp [‹¬ r = reg instr.src›]
    · rfl
  all_goals first
    | exact hused
    | rfl

/-- The constants that are stored are counted. -/
theorem storage_handler (type : InstructionType) (instr : Instruction) (s : JitCompilerX86) :
    ((handler c cpu type instr s).imul_rcp_storage = s.imul_rcp_storage ∧
      (handler c cpu type instr s).imul_rcp_storage_used = s.imul_rcp_storage_used) ∨
    (s.imul_rcp_storage_used < 16 ∧
      (handler c cpu type instr s).imul_rcp_storage = s.imul_rcp_storage + 11 ∧
      (handler c cpu type instr s).imul_rcp_storage_used = s.imul_rcp_storage_used + 1) := by
  cases type <;> simp only [handler]
  case IMUL_RCP =>
    unfold h_IMUL_RCP
    dsimp only
    split
    · split
      · exact .inr ⟨‹_›, rfl, rfl⟩
      · exact .inl ⟨rfl, rfl⟩
    · exact .inl ⟨rfl, rfl⟩
  case ISWAP_R =>
    unfold h_ISWAP_R
    split <;> exact .inl ⟨rfl, rfl⟩
  case IMULH_R | IMULH_M | CFROUND => split <;> exact .inl ⟨rfl, rfl⟩
  all_goals exact .inl ⟨rfl, rfl⟩

theorem prevCFROUND_handler (type : InstructionType) (instr : Instruction) (s : JitCompilerX86) :
    (handler c cpu type instr s).prevCFROUND =
      if type = .CFROUND then (s.codePos : Int) else s.prevCFROUND := by
  cases type <;> simp only [handler, reduceCtorEq, if_false, if_true]
  case IMUL_RCP =>
    unfold h_IMUL_RCP
    dsimp only
    split
    · split <;> rfl
    · rfl
  case ISWAP_R =>
    unfold h_ISWAP_R
    split <;> rfl
  case IMULH_R | IMULH_M | CFROUND => split <;> rfl
  all_goals rfl

/-- **The last rounding operation**; a branch back over it counts as one. -/
theorem prevFPOperation_handler (type : InstructionType) (instr : Instruction)
    (s : JitCompilerX86) : (handler c cpu type instr s).prevFPOperation =
      if rounds type ∨ (type = .CBRANCH ∧ s.registerUsage (reg instr.dst) ≤ s.prevFPOperation) then
        (s.codePos : Int)
      else s.prevFPOperation := by
  cases type <;> simp only [handler, rounds, reduceCtorEq, false_and, true_and, or_false,
    false_or, if_false, if_true, Bool.false_eq_true, or_self]
  case IMUL_RCP =>
    unfold h_IMUL_RCP
    dsimp only
    split
    · split <;> rfl
    · rfl
  case ISWAP_R =>
    unfold h_ISWAP_R
    split <;> rfl
  case IMULH_R | IMULH_M | CFROUND => split <;> rfl
  all_goals rfl

/-- **An instruction without code** does nothing: a reciprocal that is none, or an
exchange of a register with itself. -/
theorem compile_of_empty {type : InstructionType} {instr : Instruction} {s : JitCompilerX86}
    (hm : instr.dst.toNat < 8 ∧ instr.src.toNat < 8) (h : (block c cpu type instr s).pos = 0)
    (i : Nat) (u : Usage) : (compile c type instr i u).1 = { type := .NOP } := by
  cases type <;> simp only [block] at h
  case IMUL_RCP =>
    simp only [compile]
    split at h
    · unfold block_IMUL_RCP at h
      dsimp only at h
      split at h <;> simp at h
    · rw [if_neg ‹_›]
  case ISWAP_R =>
    simp only [compile, reg_ne_iff hm]
    split at h
    · simp [block_ISWAP_R] at h
    · rw [if_neg ‹_›]
  case CFROUND =>
    exfalso
    simp only [block_CFROUND_BMI2, block_CFROUND, blockMode] at h
    split at h <;> split at h <;> simp at h
  case CBRANCH =>
    exfalso
    simp only [block_CBRANCH] at h
    split at h <;> simp at h
  case IADD_RS =>
    exfalso
    simp only [block_IADD_RS] at h
    split at h <;> simp at h
  case IMULH_R | IMULH_M =>
    exfalso
    simp only [block_IMULH_R_BMI2, block_IMULH_R, block_IMULH_M_BMI2, block_IMULH_M,
      blockMulMem] at h
    split at h <;> (try split at h) <;> simp at h
  case FDIV_M =>
    exfalso
    simp [block_FDIV_M] at h
  case NOP | INEG_R | FSCAL_R | FSQRT_R | FSWAP_R | ISTORE | ISMULH_R =>
    exfalso
    simp [block_NOP, block_INEG_R, block_FSCAL_R, block_FSQRT_R, block_FSWAP_R, block_ISTORE,
      block_ISMULH_R] at h
  case ISMULH_M | IMUL_M | IADD_M | ISUB_M | IXOR_M =>
    exfalso
    simp only [block_ISMULH_M, block_IMUL_M, block_IADD_M, block_ISUB_M, block_IXOR_M, blockMem,
      blockMulMem, genAddressImm] at h
    split at h <;> simp at h
  case ISUB_R | IMUL_R | IXOR_R | IROR_R | IROL_R =>
    exfalso
    simp only [block_ISUB_R, block_IMUL_R, block_IXOR_R, block_IROR_R, block_IROL_R, blockRot] at h
    split at h <;> simp at h
  case FADD_R | FSUB_R | FMUL_R | FADD_M | FSUB_M =>
    exfalso
    simp [block_FADD_R, block_FSUB_R, block_FMUL_R, block_FADD_M, block_FSUB_M, blockFlt,
      blockFltMem] at h

/-- A `CFROUND` has as many bytes as it is overwritten with. -/
theorem overwrites_length {start : Nat} (h : ¬ c.Tweak_V2_CFROUND) (instr : Instruction) :
    (if cpu.hasBMI2 then block_CFROUND_BMI2 c cpu start instr
      else block_CFROUND c cpu start instr).pos = (nops cpu).length := by
  unfold block_CFROUND_BMI2 block_CFROUND blockMode nops
  dsimp only
  simp only [if_neg h]
  split <;> split <;> rfl

end JitCompilerX86

end Rxs.RandomX
