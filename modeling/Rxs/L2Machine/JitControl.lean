import Mathlib.Tactic.IntervalCases
import Rxs.Core.X86
import Rxs.L2Machine.Cbranch
import Rxs.L2Machine.JitLayout

/-!
# The compiled program takes the same way

The compiler and the bytecode machine look for the target of a branch in tables of their
own. A compiled branch is an addition, a test and a jump, which may be short or near and
may have code before it that does nothing. Executed by the processor it adds the constant
of the bytecode, looks at the same bits, and goes to the code of the instruction behind
the bytecode's target.

The code of any other instruction is taken to do what the bytecode does.

* `code_CBRANCH`, `Branch`: the bytes, the instructions they are, and what these do.
* `branch_agrees`: a branch of a program.
* `turn_agrees`, `run_agrees`: one instruction, and any number of them.
* **`jit_control_flow`**: every program, on every processor.
-/
namespace Rxs

open Rxs.Core Rxs.Core.Bytes Rxs.RandomX Rxs.RandomX.BytecodeMachine Rxs.RandomX.JitCompilerX86

namespace L2.JitControl

/-! ## The code of a branch -/

/-- What is added and what is looked at, of 32 bits. -/
def addImm (instr : Instruction) : BitVec 32 :=
  (instr.imm32 ||| (1#32 <<< JumpOffset) <<< instr.getModCond) &&&
    (~~~(1#32 <<< (JumpOffset - 1))).rotateLeft instr.getModCond

def testImm (instr : Instruction) : BitVec 32 := ConditionMask_Calculated <<< instr.getModCond

/-- The jump: what is behind `74`, or behind `0F 84`. -/
def jumpCode (off : Int) : Bytes :=
  if off ≥ -128 then [0x74, UInt8.ofNat (BitVec.ofInt 32 off).toNat]
  else 0x0F :: 0x84 :: le 4 (BitVec.ofInt 64 (off - 4)).toNat

/-- A block behind other code. -/
def behind (pre : Bytes) (b : Block) : Block := ⟨pre ++ b.bytes, pre.length + b.pos⟩

theorem behind_emit (pre : Bytes) : ({} : Block).emit pre = behind pre {} := by
  simp [behind, Block.emit, Block.store, Block.skip, writeAt]

theorem behind_store (pre : Bytes) (b : Block) (off : Nat) (d : Bytes) :
    (behind pre b).store off d = behind pre (b.store off d) := by
  simp [behind, Block.store, writeAt, List.take_append, List.drop_append, Nat.add_assoc,
    List.take_of_length_le]

theorem behind_skip (pre : Bytes) (b : Block) (n : Nat) :
    (behind pre b).skip n = behind pre (b.skip n) := by
  simp [behind, Block.skip, Nat.add_assoc]

theorem behind_code (pre : Bytes) (b : Block) : (behind pre b).code = pre ++ b.code := by
  simp [behind, Block.code, List.take_append, List.take_of_length_le]

theorem opcode_le {d : Nat} (hd : d < 8) :
    le 4 (0x00c08149 + d <<< 16) = [0x49, 0x81, UInt8.ofNat (0xC0 + d), 0] ∧
      le 4 (0x00c0f749 + d <<< 16) = [0x49, 0xF7, UInt8.ofNat (0xC0 + d), 0] := by
  interval_cases d <;> exact ⟨rfl, rfl⟩

theorem jump_le (v : Nat) : (le 4 (0x74 + v <<< 8)).take 2 = [0x74, UInt8.ofNat v] ∧
    (le 8 (0x840f + v <<< 16)).take 6 = 0x0F :: 0x84 :: le 4 v := by
  have hb (a : Nat) : UInt8.ofNat a = UInt8.ofNat (a % 256) := by
    apply UInt8.toNat_inj.mp
    simp
  have h1 : (0x74 + v <<< 8) % 256 = 0x74 := by rw [Nat.shiftLeft_eq]; omega
  have h2 : (0x74 + v <<< 8) / 256 = v := by rw [Nat.shiftLeft_eq]; omega
  have h3 : (0x840f + v <<< 16) % 256 = 0x0F := by rw [Nat.shiftLeft_eq]; omega
  have h4 : (0x840f + v <<< 16) / 256 % 256 = 0x84 := by rw [Nat.shiftLeft_eq]; omega
  have h5 : (0x840f + v <<< 16) / 256 / 256 = v := by rw [Nat.shiftLeft_eq]; omega
  simp only [le, List.take_succ_cons, List.take_zero, h2, h5]
  rw [hb (0x74 + v <<< 8), h1, hb (0x840f + v <<< 16), h3, hb ((0x840f + v <<< 16) / 256), h4]
  exact ⟨rfl, rfl⟩

theorem le_four (v : Nat) : ∃ a b c d, le 4 v = [a, b, c, d] := ⟨_, _, _, _, rfl⟩

theorem code_CBRANCH (cpu : Cpu) (pos : Nat) (target : Int) {instr : Instruction}
    (hd : instr.dst.toNat < 8) (n : Nat) (off : Int)
    (hn : n = alignment cpu pos (target - (pos + 16))) (hoff : off = target - (pos + 16) - n) :
    (block_CBRANCH cpu pos target instr).code = JMP_ALIGN_PREFIX n ++
      (([0x49, 0x81, UInt8.ofNat (0xC0 + instr.dst.toNat)] ++ le 4 (addImm instr).toNat) ++
      (([0x49, 0xF7, UInt8.ofNat (0xC0 + instr.dst.toNat)] ++ le 4 (testImm instr).toNat) ++
      jumpCode off)) := by
  subst hoff
  obtain ⟨hadd, htest⟩ := opcode_le hd
  unfold block_CBRANCH jumpCode
  dsimp only
  rw [← hn]
  obtain ⟨a, b, c, d, haddImm⟩ := le_four (addImm instr).toNat
  obtain ⟨e, f, g, h, htestImm⟩ := le_four (testImm instr).toNat
  simp only [addImm] at haddImm
  simp only [testImm] at htestImm
  simp only [addImm, testImm, behind_emit, Block.store32, Block.store64, hadd, htest, haddImm,
    htestImm, behind_store, behind_skip]
  split
  · rw [behind_code, ← (jump_le _).1]
    congr 1
  · rw [behind_code, ← (jump_le _).2]
    congr 1

/-- **The added constant** is that of the bytecode. -/
theorem addImm_signExtend (instr : Instruction) :
    (addImm instr).signExtend 64 = branchImm instr := by
  have hs := L2.Cbranch.getModCond_lt instr
  unfold addImm branchImm signExtend2sCompl
  generalize instr.getModCond = s at hs
  rw [BitVec.signExtend_and, BitVec.signExtend_or]
  interval_cases s <;> rfl

/-- **The mask** is that of the bytecode. -/
theorem testImm_signExtend (instr : Instruction) :
    (testImm instr).signExtend 64 =
      (ConditionMask_Calculated <<< instr.getModCond).setWidth 64 := by
  have hs := L2.Cbranch.getModCond_lt instr
  unfold testImm
  generalize instr.getModCond = s at hs
  interval_cases s <;> rfl

/-! ## What it does -/

/-- The register of the processor that is an integer register. -/
def native (r : Reg) : X86.Reg := ⟨8 + r.val, by omega⟩

theorem decode_add {d : Nat} (hd : d < 8) (v : BitVec 32) (rest : Bytes) :
    X86.decode (([0x49, 0x81, UInt8.ofNat (0xC0 + d)] ++ le 4 v.toNat) ++ rest) =
      some (.aluImm .add true (native (Fin.ofNat 8 d)) v, rest) := by
  conv_rhs => rw [← X86.ofNat_readLE v]
  interval_cases d <;> rfl

theorem decode_test {d : Nat} (hd : d < 8) (v : BitVec 32) (rest : Bytes) :
    X86.decode (([0x49, 0xF7, UInt8.ofNat (0xC0 + d)] ++ le 4 v.toNat) ++ rest) =
      some (.testImm (native (Fin.ofNat 8 d)) v, rest) := by
  conv_rhs => rw [← X86.ofNat_readLE v]
  interval_cases d <;> rfl

theorem short_toInt {off : Int} (h : -128 ≤ off ∧ off ≤ 0) :
    ((BitVec.ofNat 8 (UInt8.ofNat (BitVec.ofInt 32 off).toNat).toNat).signExtend 32).toInt =
      off := by
  have h8 : BitVec.ofNat 8 (UInt8.ofNat (BitVec.ofInt 32 off).toNat).toNat =
      BitVec.ofInt 8 off := by
    apply BitVec.eq_of_toNat_eq
    simp [BitVec.toNat_ofInt]
    omega
  rw [h8, BitVec.toInt_signExtend_of_le (by decide), BitVec.toInt_ofInt, Int.bmod_def]
  split <;> omega
theorem near_toInt {off : Int} (h : -2147483648 ≤ off ∧ off ≤ 0) :
    (BitVec.ofNat 32 (readLE (le 4 (BitVec.ofInt 64 off).toNat))).toInt = off := by
  have h32 : BitVec.ofNat 32 (readLE (le 4 (BitVec.ofInt 64 off).toNat)) = BitVec.ofInt 32 off := by
    apply BitVec.eq_of_toNat_eq
    rw [readLE_le]
    simp [BitVec.toNat_ofInt]
    omega
  rw [h32, BitVec.toInt_ofInt, Int.bmod_def]
  split <;> omega

/-- How far a jump goes that is not longer than a program. -/
theorem decode_jump {off : Int} (h : -2147483600 ≤ off ∧ off ≤ 0) (rest : Bytes) :
    ∃ rel : BitVec 32, X86.decode (jumpCode off ++ rest) = some (.jz rel, rest) ∧
      rel.toInt = off + 2 - (jumpCode off).length := by
  unfold jumpCode
  split
  · refine ⟨_, rfl, ?_⟩
    rw [short_toInt (by omega)]
    simp
  · refine ⟨_, rfl, ?_⟩
    change (BitVec.ofNat 32 (readLE (le 4 (BitVec.ofInt 64 (off - 4)).toNat))).toInt = _
    rw [near_toInt (by omega)]
    simp
    omega

theorem decode_nop {n : Nat} (h : 1 ≤ n ∧ n ≤ 9) (rest : Bytes) :
    X86.decode (NOPX n ++ rest) = some (.nop, rest) := by
  obtain ⟨h₁, h₂⟩ := h
  interval_cases n <;> rfl

/-- What stands before the branch: an instruction that does nothing, or none, and
prefixes of the next. -/
theorem prefix_eq {n : Nat} (h : n ≤ 13) :
    ∃ pad ps, JMP_ALIGN_PREFIX n = pad ++ List.replicate ps 0x2E ∧
      (pad = [] ∨ pad ≠ [] ∧ ∀ rest, X86.decode (pad ++ rest) = some (.nop, rest)) := by
  unfold JMP_ALIGN_PREFIX
  split
  · exact ⟨[], n, rfl, .inl rfl⟩
  · refine ⟨NOPX (n - 8), 8, rfl, .inr ⟨?_, decode_nop (by omega)⟩⟩
    rw [← List.length_pos_iff, length_NOPX (by omega)]
    omega

/-- The addition, the test and the jump. -/
structure Branch where
  dst : Nat
  add : BitVec 32
  test : BitVec 32
  off : Int
  overrides : Nat
  dst_lt : dst < 8
  off_le : -2147483600 ≤ off ∧ off ≤ 0

namespace Branch

variable (b : Branch)

def addCode : Bytes :=
  List.replicate b.overrides 0x2E ++ ([0x49, 0x81, UInt8.ofNat (0xC0 + b.dst)] ++ le 4 b.add.toNat)

def testCode : Bytes := [0x49, 0xF7, UInt8.ofNat (0xC0 + b.dst)] ++ le 4 b.test.toNat

def code : Bytes := b.addCode ++ (b.testCode ++ jumpCode b.off)

def reg : X86.Reg := native (Fin.ofNat 8 b.dst)

theorem decode_addCode (rest : Bytes) :
    X86.decode (b.addCode ++ rest) = some (.aluImm .add true b.reg b.add, rest) := by
  rw [addCode, List.append_assoc, X86.decode_override]
  exact decode_add b.dst_lt b.add rest

theorem decode_testCode (rest : Bytes) :
    X86.decode (b.testCode ++ rest) = some (.testImm b.reg b.test, rest) :=
  decode_test b.dst_lt b.test rest

theorem jumpCode_ne (off : Int) : jumpCode off ≠ [] := by
  unfold jumpCode
  split <;> simp

theorem disassemble_code : ∃ rel : BitVec 32, rel.toInt = b.off + 2 - (jumpCode b.off).length ∧
    ∀ fuel, X86.disassemble (fuel + 3) b.code =
      some [.aluImm .add true b.reg b.add, .testImm b.reg b.test, .jz rel] := by
  obtain ⟨rel, hrel, hoff⟩ := decode_jump b.off_le []
  refine ⟨rel, hoff, fun fuel => ?_⟩
  rw [code, X86.disassemble_cons (by simp [addCode]) (b.decode_addCode _),
    X86.disassemble_cons (by simp [testCode]) (b.decode_testCode _)]
  rw [← List.append_nil (jumpCode b.off), X86.disassemble_cons (jumpCode_ne _) hrel,
    X86.disassemble]
  rfl

/-- **What it does**: the constant is added, and the jump is taken if the bits of the sum
under the mask are zero. -/
theorem toJump_code {code rest : Bytes} {s : X86.State} (fuel : Nat)
    (hcode : code.drop s.rip = b.code ++ rest) :
    ∃ t, X86.toJump code (fuel + 3) s = some t ∧ t.mem = s.mem ∧
      t.regs = Function.update s.regs b.reg (s.regs b.reg + b.add.signExtend 64) ∧
      t.rip = if (s.regs b.reg + b.add.signExtend 64) &&& b.test.signExtend 64 = 0 then
          (s.rip + b.code.length + (b.off + 2 - (jumpCode b.off).length)).toNat
        else s.rip + b.code.length := by
  obtain ⟨rel, hrel, hoff⟩ := decode_jump b.off_le rest
  rw [Branch.code, List.append_assoc, List.append_assoc] at hcode
  have hcode₁ := X86.drop_add hcode
  have hcode₂ := X86.drop_add hcode₁
  let v := s.regs b.reg + b.add.signExtend 64
  let regs := Function.update s.regs b.reg v
  let zf := decide (v &&& b.test.signExtend 64 = 0)
  have hadd : X86.toJump code (fuel + 3) s = X86.toJump code (fuel + 2)
      ⟨s.rip + b.addCode.length, regs, s.mem, some (v = 0)⟩ :=
    X86.toJump_step hcode (by simp [addCode]) (b.decode_addCode _) (by simp) rfl (fuel + 2)
  have htest : X86.toJump code (fuel + 2) ⟨s.rip + b.addCode.length, regs, s.mem, some (v = 0)⟩ =
      X86.toJump code (fuel + 1)
        ⟨s.rip + b.addCode.length + b.testCode.length, regs, s.mem, some zf⟩ := by
    refine X86.toJump_step hcode₁ (by simp [testCode]) (b.decode_testCode _) (by simp) ?_ (fuel + 1)
    simp [X86.exec, X86.State.setFlag, regs, zf]
  have hjz := X86.toJump_jz (s := ⟨s.rip + b.addCode.length + b.testCode.length, regs, s.mem,
    some zf⟩) hcode₂ (jumpCode_ne _) hrel fuel
  rw [hadd, htest, hjz]
  have hlen : s.rip + b.addCode.length + b.testCode.length + (jumpCode b.off).length =
      s.rip + b.code.length := by
    rw [Branch.code, List.length_append, List.length_append]
    omega
  refine ⟨_, rfl, ?_, ?_, ?_⟩
  · dsimp only
    split <;> rfl
  · dsimp only
    split <;> rfl
  · dsimp only
    rw [hlen, hoff]
    by_cases hz : v &&& b.test.signExtend 64 = 0
    · rw [if_pos hz, if_pos (decide_eq_true hz)]
      push_cast
      rfl
    · rw [if_neg hz, if_neg (ne_true_of_eq_false (decide_eq_false hz))]

end Branch

/-! ## The branches of a program -/

variable {P : Compilation} {k : Nat} {instr : Instruction}

/-- **The code of a branch**: behind what does nothing, the addition, the test, and a jump
to the code of the instruction behind the bytecode's target. -/
theorem branch_block (h : P.At k .CBRANCH instr) : ∃ (pad : Bytes) (b : Branch),
    h.block.code = pad ++ b.code ∧
    (pad = [] ∨ pad ≠ [] ∧ ∀ rest, X86.decode (pad ++ rest) = some (.nop, rest)) ∧
    b.reg = native (reg instr.dst) ∧ b.add = addImm instr ∧ b.test = testImm instr ∧
    P.pos (k + 1) = P.pos k + pad.length + b.code.length ∧
    (P.pos (k + 1) : Int) + (b.off + 2 - (jumpCode b.off).length) =
      P.pos (P.usage k (reg instr.dst) + 1).toNat := by
  obtain ⟨hlow, hlt, htarget⟩ := Compilation.registerUsage_eq (P := P) h.lt.le (reg instr.dst)
  have hle := Compilation.pos_mono (P := P) (j := (P.usage k (reg instr.dst) + 1).toNat) (k := k)
    (by omega)
  have hfirst := (Compilation.pos_range (P := P) (P.usage k (reg instr.dst) + 1).toNat).1
  have hlast := (Compilation.pos_range (P := P) k).2
  have hsize := P.size_le
  unfold RANDOMX_PROGRAM_MAX_SIZE at hsize
  let target := (P.state k).registerUsage (reg instr.dst)
  let n := alignment P.cpu (P.pos k) (target - (P.pos k + 16))
  have hn : n ≤ 13 := alignment_le P.cpu _ _
  obtain ⟨pad, overrides, hpre, hpad⟩ := prefix_eq hn
  have hoff : -2147483600 ≤ target - (P.pos k + 16) - n ∧ target - (P.pos k + 16) - n ≤ 0 := by
    omega
  let b : Branch := ⟨instr.dst.toNat, addImm instr, testImm instr,
    target - (P.pos k + 16) - n, overrides, h.masked.1, hoff⟩
  have hcode : h.block.code = pad ++ b.code := by
    refine (code_CBRANCH P.cpu (P.pos k) target h.masked.1 n _ rfl rfl).trans ?_
    rw [hpre, Branch.code, Branch.addCode, Branch.testCode]
    simp only [List.append_assoc]
    rfl
  have hlen : P.pos (k + 1) = P.pos k + pad.length + b.code.length := by
    rw [Compilation.pos_succ h, ← h.length_code, hcode, List.length_append, Nat.add_assoc]
  refine ⟨pad, b, hcode, hpad, rfl, rfl, rfl, hlen, ?_⟩
  have hsum : pad.length + overrides = n := by
    rw [← length_JMP_ALIGN_PREFIX hn, hpre, List.length_append, List.length_replicate]
  have hb : b.code.length = overrides + 14 + (jumpCode b.off).length := by
    simp [Branch.code, Branch.addCode, Branch.testCode, b]
    omega
  have hboff : b.off = target - (P.pos k + 16) - n := rfl
  rw [← htarget]
  omega

/-- A branch of the compiled program is that of the bytecode: the same register, constant
and mask, and a jump to the code of the instruction behind its target. -/
structure BranchAgrees (P : Compilation) (k : Nat) (ibc : InstructionByteCode) : Prop where
  code : ∃ pad add test rel, (pad = [] ∨ pad = [X86.Instr.nop]) ∧
    X86.disassemble 4 (slice P.code (P.pos k) (P.pos (k + 1) - P.pos k)) =
      some (pad ++ [.aluImm .add true (native ibc.idst) add, .testImm (native ibc.idst) test,
        .jz rel]) ∧
    add.signExtend 64 = ibc.imm ∧ test.signExtend 64 = ibc.memMask.setWidth 64 ∧
    (P.pos (k + 1) : Int) + rel.toInt = P.pos (ibc.target + 1).toNat

theorem branch_agrees (h : P.At k .CBRANCH instr) :
    BranchAgrees P k (compile P.c .CBRANCH instr k (P.usage k)).1 := by
  obtain ⟨pad, b, hcode, hpad, hreg, hadd, htest, hlen, htarget⟩ := branch_block h
  obtain ⟨rel, hrel, hdis⟩ := b.disassemble_code
  have hslice : slice P.code (P.pos k) (P.pos (k + 1) - P.pos k) = pad ++ b.code := by
    have hdrop := Compilation.drop_code h (by decide)
    rw [slice, hdrop, hcode, List.take_left']
    rw [List.length_append]
    omega
  have himm := addImm_signExtend instr
  have hmask := testImm_signExtend instr
  simp only [compile]
  rw [← hadd] at himm
  rw [← htest] at hmask
  rw [hreg] at hdis
  rcases hpad with rfl | ⟨hne, hnop⟩
  · refine ⟨⟨[], b.add, b.test, rel, .inl rfl, ?_, himm, hmask, ?_⟩⟩
    · rw [hslice, List.nil_append]
      exact hdis 1
    · rw [Compilation.usage_toInt16 h.lt.le, hrel]
      exact htarget
  · refine ⟨⟨[.nop], b.add, b.test, rel, .inr rfl, ?_, himm, hmask, ?_⟩⟩
    · rw [hslice, X86.disassemble_cons hne (hnop _), hdis 0]
      rfl
    · rw [Compilation.usage_toInt16 h.lt.le, hrel]
      exact htarget

/-! ## The compiled program -/

variable {V : Type}

/-- The instruction whose code starts at an address; none behind the last. -/
def at? (P : Compilation) (a : Nat) : Option Nat :=
  (List.range P.program.length).find? fun k => P.pos k = a ∧ a < P.pos (k + 1)

/-- The processor: `env` has its other registers, and memory. -/
def machine (env : X86.State) (l : Loop V) : X86.State :=
  { env with
    rip := l.pc
    regs := fun i => if h : 8 ≤ i.val then l.s.r ⟨i.val - 8, by omega⟩ else env.regs i }

/-- One instruction of the compiled program, the program counter being an address. A
branch is executed by the processor; the code of any other instruction does what its
bytecode does, and ends behind itself. -/
def compiledTurn (P : Compilation) (ops : FloatOps V) (env : X86.State)
    (bytecode : List InstructionByteCode) (k : Nat) (l : Loop V) : Option (Loop V) :=
  bytecode[k]?.bind fun ibc =>
    if ibc.type = .CBRANCH then
      (X86.toJump P.code 4 (machine env l)).map fun t =>
        ⟨t.rip, { l.s with r := fun r => t.regs (native r) }⟩
    else some ⟨P.pos (k + 1), (executeInstruction P.c ops ibc k l.s).2⟩

/-- The instructions that `n` turns execute, and where they lead. -/
def compiledRun (P : Compilation) (ops : FloatOps V) (env : X86.State)
    (bytecode : List InstructionByteCode) : Nat → Loop V → Option (List Nat × Loop V)
  | 0, l => some ([], l)
  | n + 1, l =>
    match at? P l.pc with
    | none => some ([], l)
    | some k =>
      (compiledTurn P ops env bytecode k l).bind fun l' =>
        (compiledRun P ops env bytecode n l').map fun r => (k :: r.1, r.2)

theorem at?_pos (hk : k < P.program.length) (hpos : P.pos k < P.pos (k + 1)) :
    at? P (P.pos k) = some k := by
  refine List.find?_range_eq_some.mpr ⟨by simpa using hpos, List.mem_range.mpr hk, fun j hj => ?_⟩
  have := Compilation.pos_mono (P := P) (j := j + 1) (k := k) hj
  simp
  omega

theorem machine_native (env : X86.State) (l : Loop V) (r : Reg) :
    (machine env l).regs (native r) = l.s.r r := by
  simp [machine, native]

/-- The processor, from the start of a branch to behind its jump. -/
theorem branch_run (h : P.At k .CBRANCH instr) {m : X86.State} (hrip : m.rip = P.pos k) :
    ∃ t, X86.toJump P.code 4 m = some t ∧
      t.regs = Function.update m.regs (native (reg instr.dst))
        (m.regs (native (reg instr.dst)) + branchImm instr) ∧
      t.rip = if (m.regs (native (reg instr.dst)) + branchImm instr) &&&
            (ConditionMask_Calculated <<< instr.getModCond).setWidth 64 = 0 then
          P.pos (P.usage k (reg instr.dst) + 1).toNat
        else P.pos (k + 1) := by
  obtain ⟨pad, b, hcode, hpad, hreg, hadd, htest, hlen, htarget⟩ := branch_block h
  have hdrop := Compilation.drop_code h (by decide)
  rw [hcode, List.append_assoc, ← hrip] at hdrop
  rw [← addImm_signExtend, ← testImm_signExtend, ← hadd, ← htest, ← hreg]
  -- behind the instruction that does nothing
  have hrun : ∃ m' fuel, X86.toJump P.code 4 m = X86.toJump P.code (fuel + 3) m' ∧
      m'.regs = m.regs ∧ m'.rip = P.pos k + pad.length := by
    rcases hpad with rfl | ⟨hne, hnop⟩
    · exact ⟨m, 1, rfl, rfl, hrip⟩
    · exact ⟨{ m with rip := m.rip + pad.length }, 0,
        X86.toJump_step hdrop hne (hnop _) (by simp) rfl 3, rfl, by rw [hrip]⟩
  obtain ⟨m', fuel, hto, hregs, hrip'⟩ := hrun
  have hdrop' : P.code.drop m'.rip = b.code ++ P.code.drop (P.pos (k + 1)) := by
    rw [hrip', ← hrip]
    exact X86.drop_add hdrop
  obtain ⟨t, ht, -, htregs, htrip⟩ := b.toJump_code fuel hdrop'
  refine ⟨t, hto.trans ht, by rw [htregs, hregs], ?_⟩
  have hend : m'.rip + b.code.length = P.pos (k + 1) := by
    rw [hrip', hlen]
  have hgoes : ((m'.rip : Int) + b.code.length + (b.off + 2 - (jumpCode b.off).length)).toNat =
      P.pos (P.usage k (reg instr.dst) + 1).toNat := by
    omega
  rw [htrip, hregs, hend, hgoes]

theorem native_injective : Function.Injective native := by
  intro a b h
  simp only [native, Fin.mk.injEq] at h
  exact Fin.ext (by omega)

/-- **A branch** of the compiled program does what that of the bytecode does. -/
theorem compiledTurn_branch (ops : FloatOps V) (env : X86.State)
    {bytecode : List InstructionByteCode} (h : P.At k .CBRANCH instr)
    (hb : bytecode[k]? = some (compile P.c .CBRANCH instr k (P.usage k)).1) (s : Native V) :
    compiledTurn P ops env bytecode k ⟨P.pos k, s⟩ =
      some ⟨P.pos (turn P.c ops bytecode ⟨k, s⟩).pc, (turn P.c ops bytecode ⟨k, s⟩).s⟩ := by
  obtain ⟨t, ht, hregs, hrip⟩ := branch_run h (m := machine env ⟨P.pos k, s⟩) rfl
  rw [machine_native] at hregs hrip
  have hr : (fun r => t.regs (native r)) = Function.update s.r (reg instr.dst)
      (s.r (reg instr.dst) + branchImm instr) := by
    funext r
    rw [hregs, Function.update_apply_of_injective _ native_injective]
    simp only [Function.update_apply, machine_native]
  rw [compiledTurn, hb, Option.bind_some, if_pos ((compile_type P.c .CBRANCH instr k _).mpr rfl),
    ht, L2.Cbranch.turn_branch P.c ops hb rfl]
  simp only [Option.map_some, compile, Compilation.usage_toInt16 h.lt.le]
  rw [hr, hrip]
  split <;> rfl

/-- The end of the program is not the start of an instruction. -/
theorem pos_end (P : Compilation) {k : Nat} (hk : P.program.length ≤ k) :
    P.pos k = P.pos (k + 1) := by
  rw [Compilation.pos, Compilation.pos, Compilation.state, Compilation.state,
    List.take_of_length_le hk, List.take_of_length_le (by omega)]

/-- The bytecode of a compilation. -/
def BytecodeOf (P : Compilation) (bytecode : List InstructionByteCode) : Prop :=
  bytecode.length = P.program.length ∧ ∀ {k type instr}, P.At k type instr →
    bytecode[k]? = some (compile P.c type instr k (P.usage k)).1

/-- **One turn**: an instruction without code does nothing; any other is executed, and
leads to the code of the instruction that is next in the bytecode. -/
theorem turn_agrees (ops : FloatOps V) (env : X86.State) {bytecode : List InstructionByteCode}
    (hb : BytecodeOf P bytecode) (l : Loop V) :
    (P.pos l.pc = P.pos (l.pc + 1) ∧ P.pos (turn P.c ops bytecode l).pc = P.pos l.pc ∧
      (turn P.c ops bytecode l).s = l.s) ∨
    (P.pos l.pc < P.pos (l.pc + 1) ∧ at? P (P.pos l.pc) = some l.pc ∧
      compiledTurn P ops env bytecode l.pc ⟨P.pos l.pc, l.s⟩ =
        some ⟨P.pos (turn P.c ops bytecode l).pc, (turn P.c ops bytecode l).s⟩) := by
  obtain ⟨k, s⟩ := l
  obtain ⟨hlen, hcomp⟩ := hb
  dsimp only
  by_cases hk : k < P.program.length
  · obtain ⟨type, instr, h⟩ := Compilation.exists_at hk
    have hbk := hcomp h
    rcases Nat.eq_or_lt_of_le (Compilation.pos_le_succ (P := P) k).1 with hpos | hpos
    · have hempty : h.block.pos = 0 := by
        have := Compilation.pos_succ h
        omega
      have hnop := compile_of_empty P.c P.cpu h.masked hempty k (P.usage k)
      rw [L2.Cbranch.turn_eq P.c ops (l := ⟨k, s⟩) hbk, hnop]
      exact .inl ⟨hpos, hpos.symm, rfl⟩
    · refine .inr ⟨hpos, at?_pos hk hpos, ?_⟩
      by_cases ht : type = .CBRANCH
      · subst ht
        exact compiledTurn_branch ops env h hbk s
      · have htype := (not_congr (compile_type P.c type instr k (P.usage k))).mpr ht
        rw [compiledTurn, hbk, Option.bind_some, if_neg htype,
          L2.Cbranch.turn_eq P.c ops (l := ⟨k, s⟩) hbk, executeInstruction_pc P.c ops htype]
        rfl
  · have hnone : bytecode[k]? = none := List.getElem?_eq_none (by omega)
    have hturn : turn P.c ops bytecode ⟨k, s⟩ = ⟨k, s⟩ := by
      unfold turn
      rw [hnone]
    rw [hturn]
    exact .inl ⟨pos_end P (by omega), rfl, rfl⟩

/-- The instructions that `m` turns of the interpreter execute and that have code. -/
def executed (P : Compilation) (ops : FloatOps V) (bytecode : List InstructionByteCode) (m : Nat)
    (l : Loop V) : List Nat :=
  ((trace (turn P.c ops bytecode) m l).map Loop.pc).filter fun k => P.pos k < P.pos (k + 1)

/-- **The same instructions**, however many turns. -/
theorem run_agrees (ops : FloatOps V) (env : X86.State) {bytecode : List InstructionByteCode}
    (hb : BytecodeOf P bytecode) (m : Nat) (l : Loop V) :
    compiledRun P ops env bytecode (executed P ops bytecode m l).length ⟨P.pos l.pc, l.s⟩ =
      some (executed P ops bytecode m l, ⟨P.pos ((turn P.c ops bytecode)^[m] l).pc,
        ((turn P.c ops bytecode)^[m] l).s⟩) := by
  induction m generalizing l with
  | zero => rfl
  | succ m ih =>
    have ih := ih (turn P.c ops bytecode l)
    rcases turn_agrees ops env hb l with ⟨hpos, hpc, hs⟩ | ⟨hpos, hat, hturn⟩
    · have hexec : executed P ops bytecode (m + 1) l =
          executed P ops bytecode m (turn P.c ops bytecode l) := by
        simp [executed, trace, hpos]
      rw [hpc, hs] at ih
      rw [hexec, Function.iterate_succ_apply]
      exact ih
    · have hexec : executed P ops bytecode (m + 1) l =
          l.pc :: executed P ops bytecode m (turn P.c ops bytecode l) := by
        simp [executed, trace, hpos]
      rw [hexec, Function.iterate_succ_apply, List.length_cons, compiledRun, hat]
      simp only [hturn, Option.bind_some, ih, Option.map_some]

theorem at?_end (P : Compilation) : at? P (P.pos P.program.length) = none := by
  refine List.find?_range_eq_none.mpr fun k hk => ?_
  have := Compilation.pos_mono (P := P) (j := k + 1) (k := P.program.length) hk
  simp
  omega

/-- The two compilers agree on a program. -/
structure Agree (P : Compilation) (bytecode : List InstructionByteCode) : Prop where
  /-- The last changes of the registers, after each instruction. -/
  registerUsage : ∀ k ≤ P.program.length, ∀ r,
    (P.state k).registerUsage r = P.pos (P.usage k r + 1).toNat
  branch : ∀ {k : Nat} {ibc : InstructionByteCode}, bytecode[k]? = some ibc →
    ibc.type = .CBRANCH → BranchAgrees P k ibc
  /-- Behind the last instruction both are at the end. -/
  finish : at? P (P.pos P.program.length) = none
  /-- What has no code does nothing. -/
  empty : ∀ {k : Nat} {ibc : InstructionByteCode}, bytecode[k]? = some ibc →
    P.pos k = P.pos (k + 1) → ibc.type = .NOP
  /-- From equal registers both execute the same instructions, and have equal registers. -/
  run : ∀ {V : Type} (ops : FloatOps V) (env : X86.State) (s : Native V) (m : Nat),
    compiledRun P ops env bytecode (executed P ops bytecode m ⟨0, s⟩).length
        ⟨P.codePosFirst, s⟩ =
      some (executed P ops bytecode m ⟨0, s⟩,
        ⟨P.pos ((turn P.c ops bytecode)^[m] ⟨0, s⟩).pc, ((turn P.c ops bytecode)^[m] ⟨0, s⟩).s⟩)

/-- **Control flow is the same**: for every program, compiled for any processor. -/
theorem jit_control_flow (P : Compilation) : ∃ bytecode,
    compileProgram P.c P.program = some bytecode ∧ Agree P bytecode := by
  obtain ⟨bytecode, hcompile, hlen, hcomp⟩ := P.bytecode_eq
  have hat {k : Nat} {ibc : InstructionByteCode} (hk : bytecode[k]? = some ibc) :
      ∃ type instr, P.At k type instr ∧ ibc = (compile P.c type instr k (P.usage k)).1 := by
    have hlt := (List.getElem?_eq_some_iff.mp hk).1
    obtain ⟨type, instr, h⟩ := Compilation.exists_at (P := P) (k := k) (by omega)
    rw [hcomp h] at hk
    exact ⟨type, instr, h, (Option.some.inj hk).symm⟩
  refine ⟨bytecode, hcompile, ?_, ?_, at?_end P, ?_, ?_⟩
  · exact fun k hk r => (Compilation.registerUsage_eq hk r).2.2
  · intro k ibc hk ht
    obtain ⟨type, instr, h, rfl⟩ := hat hk
    obtain rfl := (compile_type P.c type instr k _).mp ht
    exact branch_agrees h
  · intro k ibc hk hpos
    obtain ⟨type, instr, h, rfl⟩ := hat hk
    have hempty : h.block.pos = 0 := by
      have := Compilation.pos_succ h
      omega
    rw [compile_of_empty P.c P.cpu h.masked hempty]
  · intro V ops env s m
    rw [← Compilation.pos_zero]
    exact run_agrees ops env ⟨hlen, hcomp⟩ m ⟨0, s⟩

/-- A program of one branch. -/
example : ∃ P : Compilation, P.program = [Cbranch.branch] :=
  ⟨{  c := .base
      cpu := ⟨true, false, true, true⟩
      program := [Cbranch.branch]
      start := prepare (List.replicate 65536 0) 1024 512
      codePosFirst := 1024
      complete := by decide
      size_le := by decide
      masked := by simp [Cbranch.branch]
      prepared := prepared_prepare (by omega) (by rw [List.length_replicate]; omega) }, rfl⟩

end L2.JitControl

end Rxs
