import Mathlib.Logic.Function.Basic
import Mathlib.Logic.Relation
import Rxs.Core.Bytes

/-!
# A part of x86-64

The integer instructions that generated code is made of: their encodings, with REX and
VEX prefixes, ModRM and SIB bytes and displacements, and what they do to the registers,
to memory and to the zero flag. A flag that an instruction leaves undefined is `none`,
and a jump on it is not defined.

The code is apart from memory: it does not change while it runs.

* `decode`: one instruction from the front of the code, and the code behind it;
  `disassemble`: all of them.
* `step`: it is executed; `step_eq` is what a decoded front means for a step.
* `Runs`: any number of steps.
* `Encodes`, `Encodes.runs`: code without jumps, instruction by instruction.
-/
namespace Rxs.Core.X86

abbrev Reg := Fin 16

def rax : Reg := 0
def rcx : Reg := 1
def rdx : Reg := 2
def rsp : Reg := 4
def rsi : Reg := 6

/-- `[base + index * 2 ^ scale + disp]` -/
structure Mem where
  base : Option Reg
  index : Option (Reg × Nat)
  disp : BitVec 32
  deriving DecidableEq, Repr

inductive Rm where
  | reg (r : Reg)
  | mem (m : Mem)
  deriving DecidableEq, Repr

/-- The operations that are encoded alike. -/
inductive Alu where
  | add
  | and
  | sub
  | xor
  deriving DecidableEq, Repr

inductive Count where
  | cl
  | imm (n : Nat)
  deriving DecidableEq, Repr

/-- `w` is for 64 bits; without it the instruction is on 32, and clears the others. -/
inductive Instr where
  | nop
  | lea (w : Bool) (dst : Reg) (m : Mem)
  | mov (w : Bool) (dst : Reg) (src : Rm)
  | store (dst : Rm) (src : Reg)
  | movImm (dst : Reg) (imm : BitVec 64)
  | alu (op : Alu) (dst : Reg) (src : Rm)
  | aluImm (op : Alu) (w : Bool) (dst : Reg) (imm : BitVec 32)
  | imul (dst : Reg) (src : Rm)
  | imulImm (dst : Reg) (src : Rm) (imm : BitVec 32)
  | mul (signed : Bool) (src : Rm)
  | mulx (hi lo : Reg) (src : Rm)
  | neg (dst : Reg)
  | testImm (dst : Reg) (imm : BitVec 32)
  | rot (left : Bool) (dst : Reg) (count : Count)
  | xchg (a b : Reg)
  | jz (rel : BitVec 32)
  /-- Two 32-bit integers in memory to floating point. -/
  | cvtdq2pd (dst : Reg) (m : Mem)
  deriving DecidableEq, Repr

/-! ## Encodings -/

/-- The bits of a REX prefix, or of a VEX prefix. -/
structure Rex where
  w : Bool := false
  r : Bool := false
  x : Bool := false
  b : Bool := false

def extend (bit : Bool) (n : Nat) : Reg := Fin.ofNat 16 (if bit then n % 8 + 8 else n % 8)

def imm8 : Bytes → Option (BitVec 8 × Bytes)
  | a :: rest => some (BitVec.ofNat 8 a.toNat, rest)
  | [] => none

def imm32 : Bytes → Option (BitVec 32 × Bytes)
  | a :: b :: c :: d :: rest => some (BitVec.ofNat 32 (Bytes.readLE [a, b, c, d]), rest)
  | _ => none

def imm64 : Bytes → Option (BitVec 64 × Bytes)
  | a :: b :: c :: d :: e :: f :: g :: h :: rest =>
    some (BitVec.ofNat 64 (Bytes.readLE [a, b, c, d, e, f, g, h]), rest)
  | _ => none

/-- The displacement, by the two bits of `mod`. -/
def disp (mod : Nat) (code : Bytes) : Option (BitVec 32 × Bytes) :=
  match mod with
  | 0 => some (0, code)
  | 1 => (imm8 code).map fun d => (d.1.signExtend 32, d.2)
  | _ => imm32 code

/-- A SIB byte, and the displacement behind it. -/
def sib (rex : Rex) (mod : Nat) : Bytes → Option (Mem × Bytes)
  | [] => none
  | s :: code =>
    let index := extend rex.x (s.toNat / 8)
    let index := if index = rsp then none else some (index, s.toNat / 64)
    if s.toNat % 8 = 5 ∧ mod = 0 then
      (imm32 code).map fun d => (⟨none, index, d.1⟩, d.2)
    else (disp mod code).map fun d => (⟨some (extend rex.b s.toNat), index, d.1⟩, d.2)

/-- A ModRM byte, and what belongs to it: the register or extension of the opcode, and
the operand. An operand at the instruction pointer is left out. -/
def modRM (rex : Rex) : Bytes → Option (Nat × Rm × Bytes)
  | [] => none
  | m :: code =>
    let mod := m.toNat / 64
    let reg := m.toNat / 8 % 8
    if mod = 3 then some (reg, .reg (extend rex.b m.toNat), code)
    else if m.toNat % 8 = 4 then (sib rex mod code).map fun a => (reg, .mem a.1, a.2)
    else if m.toNat % 8 = 5 ∧ mod = 0 then none
    else (disp mod code).map fun d => (reg, .mem ⟨some (extend rex.b m.toNat), none, d.1⟩, d.2)

/-- Only a register. -/
def Rm.reg? : Rm → Option Reg
  | .reg r => some r
  | .mem _ => none

/-- Only memory. -/
def Rm.mem? : Rm → Option Mem
  | .reg _ => none
  | .mem m => some m

/-- The operation whose opcodes start at `8 * n`, which is also its extension. -/
def aluOf : Nat → Option Alu
  | 0 => some .add
  | 4 => some .and
  | 5 => some .sub
  | 6 => some .xor
  | _ => none

/-- Behind the byte `0F`. -/
def decode0F (rep : Bool) (rex : Rex) : Bytes → Option (Instr × Bytes)
  | [] => none
  | op :: code =>
    if op = 0x1F then (modRM rex code).map fun m => (.nop, m.2.2)
    else if op = 0x84 then (imm32 code).map fun d => (.jz d.1, d.2)
    else if op = 0xAF ∧ rex.w then
      (modRM rex code).map fun m => (.imul (extend rex.r m.1) m.2.1, m.2.2)
    else if op = 0xE6 ∧ rep then do
      let (reg, rm, code) ← modRM rex code
      return (.cvtdq2pd (extend rex.r reg) (← rm.mem?), code)
    else none

/-- Behind the prefixes. -/
def decodeOp (rep : Bool) (rex : Rex) : Bytes → Option (Instr × Bytes)
  | [] => none
  | op :: code =>
    if op = 0x0F then decode0F rep rex code
    else if op = 0x90 ∧ ¬ rex.b then some (.nop, code)
    else if op = 0x74 then (imm8 code).map fun d => (.jz (d.1.signExtend 32), d.2)
    else if op = 0xB8 ∧ rex.w then
      (imm64 code).map fun d => (.movImm (extend rex.b 0) d.1, d.2)
    else if op = 0x25 then (imm32 code).map fun d => (.aluImm .and rex.w rax d.1, d.2)
    else do
      let (reg, rm, code) ← modRM rex code
      let r := extend rex.r reg
      if op = 0x8D then return (.lea rex.w r (← rm.mem?), code)
      else if op = 0x8B then
        if rex.w then return (.mov true r rm, code)
        else return (.mov false r (.reg (← rm.reg?)), code)
      else if op = 0x89 ∧ rex.w then return (.store rm r, code)
      else if op = 0x87 ∧ rex.w then return (.xchg (← rm.reg?) r, code)
      else if op = 0x81 then
        let (d, code) ← imm32 code
        return (.aluImm (← aluOf reg) rex.w (← rm.reg?) d, code)
      else if op = 0x69 ∧ rex.w then
        let (d, code) ← imm32 code
        return (.imulImm r rm d, code)
      else if op = 0xF7 ∧ rex.w then
        if reg = 0 then
          let (d, code) ← imm32 code
          return (.testImm (← rm.reg?) d, code)
        else if reg = 3 then return (.neg (← rm.reg?), code)
        else if reg = 4 then return (.mul false rm, code)
        else if reg = 5 then return (.mul true rm, code)
        else none
      else if op = 0xD3 ∧ rex.w ∧ reg < 2 then return (.rot (reg = 0) (← rm.reg?) .cl, code)
      else if op = 0xC1 ∧ rex.w ∧ reg < 2 then
        let (d, code) ← imm8 code
        return (.rot (reg = 0) (← rm.reg?) (.imm d.toNat), code)
      else if op.toNat % 8 = 3 ∧ rex.w then return (.alu (← aluOf (op.toNat / 8)) r rm, code)
      else none

/-- Behind the byte `C4`: `mulx`, of 64 bits. -/
def decodeVex : Bytes → Option (Instr × Bytes)
  | p :: q :: op :: code =>
    -- the bits of the registers are inverted
    let rex : Rex := ⟨128 ≤ q.toNat, p.toNat < 128, p.toNat / 64 % 2 = 0, p.toNat / 32 % 2 = 0⟩
    if p.toNat % 32 = 2 ∧ q.toNat % 8 = 3 ∧ op = 0xF6 ∧ rex.w then
      (modRM rex code).map fun m =>
        (.mulx (extend rex.r m.1) (Fin.ofNat 16 (15 - q.toNat / 8 % 16)) m.2.1, m.2.2)
    else none
  | _ => none

/-- A segment override does nothing; `66` is taken before a `nop` only, where it does
nothing either. -/
def decodeFrom (opsize rep : Bool) : Bytes → Option (Instr × Bytes)
  | [] => none
  | b :: code =>
    if b = 0x2E then decodeFrom opsize rep code
    else if b = 0x66 then decodeFrom true rep code
    else if b = 0xF3 then decodeFrom opsize true code
    else
      let i :=
        if b = 0xC4 then decodeVex code
        else if b.toNat / 16 = 4 then
          decodeOp rep ⟨b.toNat / 8 % 2 = 1, b.toNat / 4 % 2 = 1, b.toNat / 2 % 2 = 1,
            b.toNat % 2 = 1⟩ code
        else decodeOp rep {} (b :: code)
      if opsize then i.filter fun i => i.1 = .nop else i

/-- One instruction, and the code behind it. -/
def decode (code : Bytes) : Option (Instr × Bytes) := decodeFrom false false code

/-- All of the code, of no more than `fuel` instructions. -/
def disassemble : Nat → Bytes → Option (List Instr)
  | _, [] => some []
  | 0, _ :: _ => none
  | fuel + 1, b :: code =>
    (decode (b :: code)).bind fun i => (disassemble fuel i.2).map (i.1 :: ·)

theorem disassemble_cons {b rest : Bytes} {i : Instr} (hb : b ≠ [])
    (hi : decode (b ++ rest) = some (i, rest)) (fuel : Nat) :
    disassemble (fuel + 1) (b ++ rest) = (disassemble fuel rest).map (i :: ·) := by
  cases b with
  | nil => exact absurd rfl hb
  | cons a b =>
    rw [List.cons_append] at hi ⊢
    rw [disassemble, hi, Option.bind_some]

/-! ## Execution -/

structure State where
  rip : Nat
  regs : Reg → BitVec 64
  mem : BitVec 64 → BitVec 8
  zf : Option Bool := none

def load64 (m : BitVec 64 → BitVec 8) (a : BitVec 64) : BitVec 64 :=
  m (a + 7) ++ m (a + 6) ++ m (a + 5) ++ m (a + 4) ++ m (a + 3) ++ m (a + 2) ++ m (a + 1) ++ m a

def store64 (m : BitVec 64 → BitVec 8) (a : BitVec 64) (v : BitVec 64) : BitVec 64 → BitVec 8 :=
  fun b => if (b - a).toNat < 8 then v.extractLsb' (8 * (b - a).toNat) 8 else m b

/-- The result on 64 or on 32 bits. -/
def trunc (w : Bool) (v : BitVec 64) : BitVec 64 := if w then v else (v.setWidth 32).setWidth 64

def Alu.apply : Alu → BitVec 64 → BitVec 64 → BitVec 64
  | .add => (· + ·)
  | .and => (· &&& ·)
  | .sub => (· - ·)
  | .xor => (· ^^^ ·)

/-- The product, of 128 bits. -/
def product (signed : Bool) (a b : BitVec 64) : BitVec 128 :=
  if signed then a.signExtend 128 * b.signExtend 128 else a.zeroExtend 128 * b.zeroExtend 128

def high (p : BitVec 128) : BitVec 64 := (p >>> 64).setWidth 64

namespace State

def setReg (s : State) (r : Reg) (v : BitVec 64) : State :=
  { s with regs := Function.update s.regs r v }

def setFlag (s : State) (zf : Option Bool) : State := { s with zf := zf }

def addr (s : State) (m : Mem) : BitVec 64 :=
  (m.base.elim 0 s.regs + m.index.elim 0 fun i => s.regs i.1 <<< i.2) + m.disp.signExtend 64

def read (s : State) : Rm → BitVec 64
  | .reg r => s.regs r
  | .mem m => load64 s.mem (s.addr m)

def write (s : State) (rm : Rm) (v : BitVec 64) : State :=
  match rm with
  | .reg r => s.setReg r v
  | .mem m => { s with mem := store64 s.mem (s.addr m) v }

@[simp] theorem setReg_regs (s : State) (r : Reg) (v : BitVec 64) :
    (s.setReg r v).regs = Function.update s.regs r v := rfl
@[simp] theorem setReg_mem (s : State) (r : Reg) (v : BitVec 64) : (s.setReg r v).mem = s.mem := rfl
@[simp] theorem setReg_rip (s : State) (r : Reg) (v : BitVec 64) : (s.setReg r v).rip = s.rip := rfl
@[simp] theorem setFlag_regs (s : State) (z : Option Bool) : (s.setFlag z).regs = s.regs := rfl
@[simp] theorem setFlag_mem (s : State) (z : Option Bool) : (s.setFlag z).mem = s.mem := rfl
@[simp] theorem setFlag_rip (s : State) (z : Option Bool) : (s.setFlag z).rip = s.rip := rfl

end State

/-- The instruction pointer is behind the instruction already. `none` where the part of
the state that is modelled does not say what comes of it. -/
def exec (i : Instr) (s : State) : Option State :=
  match i with
  | .nop => some s
  | .lea w dst m => some (s.setReg dst (trunc w (s.addr m)))
  | .mov w dst src => some (s.setReg dst (trunc w (s.read src)))
  | .store dst src => some (s.write dst (s.regs src))
  | .movImm dst imm => some (s.setReg dst imm)
  | .alu op dst src =>
    let v := op.apply (s.regs dst) (s.read src)
    some ((s.setReg dst v).setFlag (some (v = 0)))
  | .aluImm op w dst imm =>
    let v := trunc w (op.apply (s.regs dst) (imm.signExtend 64))
    some ((s.setReg dst v).setFlag (some (v = 0)))
  | .imul dst src => some ((s.setReg dst (s.regs dst * s.read src)).setFlag none)
  | .imulImm dst src imm => some ((s.setReg dst (s.read src * imm.signExtend 64)).setFlag none)
  | .mul signed src =>
    let p := product signed (s.regs rax) (s.read src)
    some (((s.setReg rax (p.setWidth 64)).setReg rdx (high p)).setFlag none)
  | .mulx hi lo src =>
    let p := product false (s.regs rdx) (s.read src)
    some ((s.setReg lo (p.setWidth 64)).setReg hi (high p))
  | .neg dst =>
    let v := -s.regs dst
    some ((s.setReg dst v).setFlag (some (v = 0)))
  | .testImm dst imm => some (s.setFlag (some (s.regs dst &&& imm.signExtend 64 = 0)))
  | .rot left dst count =>
    let n := match count with
      | .cl => (s.regs rcx).toNat % 64
      | .imm n => n % 64
    some (s.setReg dst (if left then (s.regs dst).rotateLeft n else (s.regs dst).rotateRight n))
  | .xchg a b => some ((s.setReg a (s.regs b)).setReg b (s.regs a))
  | .jz rel => s.zf.map fun z => if z then { s with rip := (s.rip + rel.toInt).toNat } else s
  | .cvtdq2pd _ _ => none

def step (code : Bytes) (s : State) : Option State :=
  (decode (code.drop s.rip)).bind fun i =>
    exec i.1 { s with rip := code.length - i.2.length }

/-- **A step**, where the code's next bytes are those of an instruction. -/
theorem step_eq {code : Bytes} {s : State} {b rest : Bytes} {i : Instr}
    (hcode : code.drop s.rip = b ++ rest) (hb : b ≠ [])
    (hi : decode (b ++ rest) = some (i, rest)) :
    step code s = exec i { s with rip := s.rip + b.length } := by
  have hlen := congrArg List.length hcode
  rw [List.length_drop, List.length_append] at hlen
  have hpos := List.length_pos_iff.mpr hb
  have hrip : code.length - rest.length = s.rip + b.length := by omega
  rw [step, hcode, hi, Option.bind_some, hrip]

/-- The code behind the front. -/
theorem drop_add {code : Bytes} {p : Nat} {b rest : Bytes} (h : code.drop p = b ++ rest) :
    code.drop (p + b.length) = rest := by
  rw [← List.drop_drop, h, List.drop_left]

abbrev Runs (code : Bytes) : State → State → Prop :=
  Relation.ReflTransGen fun s t => step code s = some t

/-- Up to the first jump that is reached, in no more than `fuel` instructions. -/
def toJump (code : Bytes) : Nat → State → Option State
  | 0, _ => none
  | fuel + 1, s =>
    (decode (code.drop s.rip)).bind fun i =>
      match i.1 with
      | .jz _ => step code s
      | _ => (step code s).bind (toJump code fuel)

theorem toJump_step {code : Bytes} {s t : State} {b rest : Bytes} {i : Instr}
    (hcode : code.drop s.rip = b ++ rest) (hb : b ≠ [])
    (hi : decode (b ++ rest) = some (i, rest)) (hjz : ∀ rel, i ≠ .jz rel)
    (hexec : exec i { s with rip := s.rip + b.length } = some t) (fuel : Nat) :
    toJump code (fuel + 1) s = toJump code fuel t := by
  rw [toJump, hcode, hi, Option.bind_some, step_eq hcode hb hi, hexec]
  cases i
  case jz rel => exact absurd rfl (hjz rel)
  all_goals rfl

theorem toJump_jz {code : Bytes} {s : State} {b rest : Bytes} {rel : BitVec 32}
    (hcode : code.drop s.rip = b ++ rest) (hb : b ≠ [])
    (hi : decode (b ++ rest) = some (.jz rel, rest)) (fuel : Nat) :
    toJump code (fuel + 1) s = exec (.jz rel) { s with rip := s.rip + b.length } := by
  rw [toJump, hcode, hi, Option.bind_some]
  exact step_eq hcode hb hi

/-- Segment overrides do nothing. -/
theorem decode_override (n : Nat) (code : Bytes) :
    decode (List.replicate n 0x2E ++ code) = decode code := by
  induction n with
  | zero => rfl
  | succ n ih => exact ih

/-- An immediate that was written as four bytes. -/
theorem ofNat_readLE (v : BitVec 32) :
    BitVec.ofNat 32 (Bytes.readLE (Bytes.le 4 v.toNat)) = v := by
  have hpow : 256 ^ 4 = 2 ^ 32 := rfl
  rw [Bytes.readLE_le, hpow, Nat.mod_eq_of_lt v.isLt, BitVec.ofNat_toNat, BitVec.setWidth_eq]

/-! ## Code without jumps -/

/-- The bytes are those of the instructions, whatever stands behind them. -/
inductive Encodes : Bytes → List Instr → Prop where
  | nil : Encodes [] []
  | cons {b bs : Bytes} {i : Instr} {is : List Instr} (hb : b ≠ [])
      (hi : ∀ rest, decode (b ++ rest) = some (i, rest)) (his : Encodes bs is) :
      Encodes (b ++ bs) (i :: is)

theorem Encodes.append {b b' : Bytes} {is is' : List Instr} (h : Encodes b is)
    (h' : Encodes b' is') : Encodes (b ++ b') (is ++ is') := by
  induction h with
  | nil => exact h'
  | cons hb hi _ ih =>
    rw [List.append_assoc]
    exact .cons hb hi ih

theorem Encodes.one {b : Bytes} {i : Instr} (hb : b ≠ [])
    (hi : ∀ rest, decode (b ++ rest) = some (i, rest)) : Encodes b [i] :=
  List.append_nil b ▸ .cons hb hi .nil

/-- One instruction after the other, wherever the instruction pointer is. -/
def execAll : List Instr → State → Option State
  | [], s => some s
  | i :: is, s => (exec i s).bind (execAll is)

def Instr.jumps : Instr → Bool
  | .jz _ => true
  | _ => false

theorem exec_rip {i : Instr} (h : i.jumps = false) (s : State) (p : Nat) :
    exec i { s with rip := p } = (exec i s).map fun t => { t with rip := p } := by
  cases i with
  | jz rel => cases h
  | store dst src => cases dst <;> rfl
  | mov w dst src => cases src <;> rfl
  | alu op dst src => cases src <;> rfl
  | imul dst src => cases src <;> rfl
  | imulImm dst src imm => cases src <;> rfl
  | mul signed src => cases src <;> rfl
  | mulx hi lo src => cases src <;> rfl
  | _ => rfl

theorem execAll_rip {is : List Instr} (h : ∀ i ∈ is, i.jumps = false) (s : State) (p : Nat) :
    execAll is { s with rip := p } = (execAll is s).map fun t => { t with rip := p } := by
  induction is generalizing s with
  | nil => rfl
  | cons i is ih =>
    rw [execAll, execAll, exec_rip (h i List.mem_cons_self)]
    cases exec i s with
    | none => rfl
    | some t => exact ih (fun j hj => h j (List.mem_cons_of_mem _ hj)) t

/-- **Code without jumps** runs to its end. -/
theorem Encodes.runs {code b rest : Bytes} {is : List Instr} (hb : Encodes b is)
    (hj : ∀ i ∈ is, i.jumps = false) {s t : State} (hcode : code.drop s.rip = b ++ rest)
    (ht : execAll is s = some t) : Runs code s { t with rip := s.rip + b.length } := by
  induction hb generalizing s t with
  | nil =>
    cases ht
    exact .refl
  | @cons b bs i is hb hi _ ih =>
    rw [List.append_assoc] at hcode
    rw [execAll] at ht
    obtain ⟨u, hu, hut⟩ := Option.bind_eq_some_iff.mp ht
    have hstep : step code s = some { u with rip := s.rip + b.length } := by
      rw [step_eq hcode hb (hi _), exec_rip (hj i List.mem_cons_self), hu, Option.map_some]
    have htail : execAll is { u with rip := s.rip + b.length } =
        some { t with rip := s.rip + b.length } := by
      rw [execAll_rip (fun j hj' => hj j (List.mem_cons_of_mem _ hj')), hut, Option.map_some]
    have hruns := ih (fun j hj' => hj j (List.mem_cons_of_mem _ hj')) (drop_add hcode) htail
    rw [List.length_append, ← Nat.add_assoc]
    exact Relation.ReflTransGen.head hstep hruns

theorem execAll_append (is is' : List Instr) (s : State) :
    execAll (is ++ is') s = (execAll is s).bind (execAll is') := by
  induction is generalizing s with
  | nil => rfl
  | cons i is ih =>
    rw [List.cons_append, execAll, execAll]
    cases exec i s with
    | none => rfl
    | some t => exact ih t

end Rxs.Core.X86
