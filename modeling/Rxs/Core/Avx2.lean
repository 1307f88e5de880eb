import Mathlib.Data.Fin.VecNotation
import Rxs.Core.X86

/-!
# A part of AVX2

The instructions of `X86`, the forms of them that it leaves out, calls and jumps, and
vectors of four lanes of 64 bits. An operand at the instruction pointer is a constant
in the code: `link` reads it.

The code is apart from memory, and starts at `base` where a return address is pushed.

* `decode`, `link`, `fetch`: the instruction at a place of the code.
* `step`, `Runs`: it is executed; any number of steps.
* `Disassembles`: code without jumps, instruction by instruction, and `Disassembles.runs`.
* `Encodes`: the same of bytes, wherever they stand.
* `Listing`: an assembler's listing, and what it says of the code.
* `LaneInstr.exec_instr`: instructions that are the same on every lane.
-/
namespace Rxs.Core.Avx2

open X86 (Reg Mem Rm Rex rsp extend imm8 imm32 imm64 load64 store64)

/-- The lanes, the lowest first. -/
abbrev Vec := Fin 4 → BitVec 64

/-- A register, memory, or a constant of the code: where it is, and what, once it is read. -/
inductive Operand (α : Type) where
  | reg (r : Reg)
  | mem (m : Mem)
  | rip (disp : BitVec 32)
  | const (v : α)

/-- On each lane. -/
inductive LaneOp where
  | vpaddq | vpsubq | vpxor | vpand | vpor | vpmuludq | vpcmpgtq
  deriving DecidableEq, Repr

/-- Across lanes. -/
inductive Shuffle where
  | vpunpcklqdq
  | vpunpckhqdq
  | vperm2i128 (imm : Nat)
  deriving DecidableEq, Repr

inductive Instr where
  | int (i : X86.Instr)
  | mov (dst : Reg) (src : Operand (BitVec 64))
  | imul (dst : Reg) (src : Operand (BitVec 64))
  | shl (dst : Reg) (n : Nat)
  | cmp (a : Reg) (b : Rm)
  | push (src : Reg)
  | pop (dst : Reg)
  /-- The low half of a vector. -/
  | movdquLoad (dst : Reg) (m : Mem)
  | movdquStore (m : Mem) (src : Reg)
  | vmovdquLoad (dst : Reg) (m : Mem)
  | vmovdquStore (m : Mem) (src : Reg)
  | lane (op : LaneOp) (dst a : Reg) (b : Operand Vec)
  | shift (left : Bool) (dst src : Reg) (n : Nat)
  | shuffle (op : Shuffle) (dst a b : Reg)
  | vbroadcastsd (dst : Reg) (src : Operand (BitVec 64))
  | vzeroupper
  | jmp (rel : BitVec 32)
  | jb (rel : BitVec 32)
  | call (rel : BitVec 32)
  | ret

/-! ## Encodings -/

def Operand.ofRm {α : Type} : Rm → Operand α
  | .reg r => .reg r
  | .mem m => .mem m

def Operand.mem? {α : Type} : Operand α → Option Mem
  | .mem m => some m
  | _ => none

def Operand.reg? {α : Type} : Operand α → Option Reg
  | .reg r => some r
  | _ => none

/-- As `X86.modRM`, with operands at the instruction pointer. -/
def modRM {α : Type} (rex : Rex) : Bytes → Option (Nat × Operand α × Bytes)
  | [] => none
  | m :: code =>
    if m.toNat % 8 = 5 ∧ m.toNat / 64 = 0 then
      (imm32 code).map fun d => (m.toNat / 8 % 8, .rip d.1, d.2)
    else (X86.modRM rex (m :: code)).map fun a => (a.1, .ofRm a.2.1, a.2.2)

/-- The fields of a VEX prefix; `v` is the first source, or the destination of a shift. -/
structure Vex where
  rex : Rex
  map : Nat
  v : Reg
  wide : Bool
  pp : Nat

/-- The bits of the registers are inverted. -/
def vex2 (p : UInt8) : Vex where
  rex := ⟨false, p.toNat < 128, false, false⟩
  map := 1
  v := Fin.ofNat 16 (15 - p.toNat / 8 % 16)
  wide := p.toNat / 4 % 2 = 1
  pp := p.toNat % 4

def vex3 (p q : UInt8) : Vex where
  rex := ⟨128 ≤ q.toNat, p.toNat < 128, p.toNat / 64 % 2 = 0, p.toNat / 32 % 2 = 0⟩
  map := p.toNat % 32
  v := Fin.ofNat 16 (15 - q.toNat / 8 % 16)
  wide := q.toNat / 4 % 2 = 1
  pp := q.toNat % 4

def laneOf (map op : Nat) : Option LaneOp :=
  match map, op with
  | 1, 0xD4 => some .vpaddq
  | 1, 0xFB => some .vpsubq
  | 1, 0xEF => some .vpxor
  | 1, 0xDB => some .vpand
  | 1, 0xEB => some .vpor
  | 1, 0xF4 => some .vpmuludq
  | 2, 0x37 => some .vpcmpgtq
  | _, _ => none

/-- Behind a VEX prefix. -/
def decodeVex (x : Vex) : Bytes → Option (Instr × Bytes)
  | [] => none
  | op :: code =>
    if op = 0x77 ∧ x.map = 1 ∧ x.pp = 0 ∧ x.wide = false ∧ x.v = 0 then some (.vzeroupper, code)
    else if x.wide = false ∨ x.rex.w then none
    else if x.pp = 2 ∧ x.map = 1 ∧ x.v = 0 then do
      let (reg, rm, code) ← modRM (α := Vec) x.rex code
      if op = 0x6F then return (.vmovdquLoad (extend x.rex.r reg) (← rm.mem?), code)
      else if op = 0x7F then return (.vmovdquStore (← rm.mem?) (extend x.rex.r reg), code)
      else none
    else if x.pp ≠ 1 then none
    else if x.map = 2 ∧ op = 0x19 ∧ x.v = 0 then
      (modRM x.rex code).map fun a => (.vbroadcastsd (extend x.rex.r a.1) a.2.1, a.2.2)
    else do
      let (reg, rm, code) ← modRM (α := Vec) x.rex code
      let r := extend x.rex.r reg
      if x.map = 1 ∧ op = 0x73 then
        let (n, code) ← imm8 code
        if reg = 2 then return (.shift false x.v (← rm.reg?) n.toNat, code)
        else if reg = 6 then return (.shift true x.v (← rm.reg?) n.toNat, code)
        else none
      else if x.map = 1 ∧ op = 0x6C then return (.shuffle .vpunpcklqdq r x.v (← rm.reg?), code)
      else if x.map = 1 ∧ op = 0x6D then return (.shuffle .vpunpckhqdq r x.v (← rm.reg?), code)
      else if x.map = 3 ∧ op = 0x46 then
        let (n, code) ← imm8 code
        return (.shuffle (.vperm2i128 n.toNat) r x.v (← rm.reg?), code)
      else return (.lane (← laneOf x.map op.toNat) r x.v rm, code)

/-- Behind the byte `0F`: prefetches, which do nothing, and the rest. -/
def decode0F (rex : Rex) : Bytes → Option (Instr × Bytes)
  | [] => none
  | op :: code =>
    if op = 0x18 ∨ op = 0x0D then
      (X86.modRM rex code).bind fun m => if m.2.1.mem?.isSome then some (.int .nop, m.2.2) else none
    else if op = 0x82 then (imm32 code).map fun d => (.jb d.1, d.2)
    else if op = 0xAF ∧ rex.w then
      (modRM rex code).map fun a => (.imul (extend rex.r a.1) a.2.1, a.2.2)
    else none

/-- Behind a REX prefix, or without one. -/
def decodeOp (rex : Rex) : Bytes → Option (Instr × Bytes)
  | [] => none
  | op :: code =>
    if op = 0x0F then decode0F rex code
    else if op.toNat / 8 = 10 then some (.push (extend rex.b op.toNat), code)
    else if op.toNat / 8 = 11 then some (.pop (extend rex.b op.toNat), code)
    else if op = 0x72 then (imm8 code).map fun d => (.jb (d.1.signExtend 32), d.2)
    else if op = 0xE8 then (imm32 code).map fun d => (.call d.1, d.2)
    else if op = 0xE9 then (imm32 code).map fun d => (.jmp d.1, d.2)
    else if op = 0xEB then (imm8 code).map fun d => (.jmp (d.1.signExtend 32), d.2)
    else if op = 0xC3 then some (.ret, code)
    else if rex.w = false then none
    else if op = 0x8B then
      (modRM rex code).map fun a => (.mov (extend rex.r a.1) a.2.1, a.2.2)
    else do
      let (reg, rm, code) ← X86.modRM rex code
      if op = 0x3B then return (.cmp (extend rex.r reg) rm, code)
      else if op = 0x83 then
        let (d, code) ← imm8 code
        return (.int (.aluImm (← X86.aluOf reg) true (← rm.reg?) (d.signExtend 32)), code)
      else if op = 0xC1 ∧ reg = 4 then
        let (n, code) ← imm8 code
        return (.shl (← rm.reg?) n.toNat, code)
      -- the operand is the destination
      else if op.toNat % 8 = 1 then
        return (.int (.alu (← X86.aluOf (op.toNat / 8)) (← rm.reg?) (.reg (extend rex.r reg))), code)
      else none

def decodeRex : Bytes → Option (Instr × Bytes)
  | [] => none
  | b :: code =>
    if b.toNat / 16 = 4 then
      decodeOp ⟨b.toNat / 8 % 2 = 1, b.toNat / 4 % 2 = 1, b.toNat / 2 % 2 = 1, b.toNat % 2 = 1⟩ code
    else decodeOp {} (b :: code)

/-- Behind the prefix `F3`. -/
def decodeRep : Bytes → Option (Instr × Bytes)
  | [] => none
  | b :: code =>
    let rex : Rex :=
      if b.toNat / 16 = 4 then
        ⟨b.toNat / 8 % 2 = 1, b.toNat / 4 % 2 = 1, b.toNat / 2 % 2 = 1, b.toNat % 2 = 1⟩
      else {}
    match if b.toNat / 16 = 4 then code else b :: code with
    | 0x0F :: op :: code => do
      let (reg, rm, code) ← X86.modRM rex code
      if op = 0x6F then return (.movdquLoad (extend rex.r reg) (← rm.mem?), code)
      else if op = 0x7F then return (.movdquStore (← rm.mem?) (extend rex.r reg), code)
      else none
    | _ => none

/-- What `X86` leaves out. -/
def decodeMore : Bytes → Option (Instr × Bytes)
  | 0xC5 :: p :: code => decodeVex (vex2 p) code
  | 0xC4 :: p :: q :: code => decodeVex (vex3 p q) code
  | 0xF3 :: code => decodeRep code
  | code => decodeRex code

/-- One instruction, and the code behind it. -/
def decode (code : Bytes) : Option (Instr × Bytes) :=
  match X86.decode code with
  | some i => some (.int i.1, i.2)
  | none => decodeMore code

/-- What `X86` reads as an opcode that it does not have, whatever comes behind. -/
def foreign : List UInt8 :=
  [0x50, 0x51, 0x52, 0x53, 0x54, 0x55, 0x56, 0x57, 0x58, 0x59, 0x5A, 0x5B, 0x5C, 0x5D, 0x5E, 0x5F,
    0xC3, 0xC5, 0xE9, 0xEB]

theorem decodeOp_foreign {op : UInt8} (h : op ∈ foreign) (rex : X86.Rex) (rest : Bytes) :
    X86.decodeOp false rex (op :: rest) = none := by
  obtain ⟨w, r, x, b⟩ := rex
  -- whatever a ModRM byte would be, no form has the opcode
  have hop : X86.decodeOp false ⟨w, r, x, b⟩ (op :: rest) =
      (X86.modRM ⟨w, r, x, b⟩ rest).bind fun _ => none := by
    revert op
    simp only [foreign, List.forall_mem_cons, List.not_mem_nil, false_imp_iff, implies_true, and_true]
    cases w <;> exact ⟨rfl, rfl, rfl, rfl, rfl, rfl, rfl, rfl, rfl, rfl, rfl, rfl, rfl, rfl, rfl,
      rfl, rfl, rfl, rfl, rfl⟩
  rw [hop, Option.bind_fun_none]

theorem decode_foreign {op : UInt8} (h : op ∈ foreign) (rest : Bytes) :
    decode (op :: rest) = decodeMore (op :: rest) := by
  have hnone : X86.decode (op :: rest) = none := by
    have hop := decodeOp_foreign h {} rest
    revert op
    simp only [foreign, List.forall_mem_cons, List.not_mem_nil, false_imp_iff, implies_true, and_true]
    exact ⟨id, id, id, id, id, id, id, id, id, id, id, id, id, id, id, id, id, id, id, id⟩
  rw [decode, hnone]

theorem decode_rex_foreign {op : UInt8} (h : op ∈ foreign) (rest : Bytes) :
    decode (0x41 :: op :: rest) = decodeMore (0x41 :: op :: rest) := by
  have hnone : X86.decode (0x41 :: op :: rest) = none := decodeOp_foreign h _ rest
  rw [decode, hnone]

/-! ## Constants of the code -/

/-- The code at the distance `disp` from `next`. -/
def target (code : Bytes) (next : Nat) (disp : BitVec 32) : Option Bytes :=
  if 0 ≤ (next : Int) + disp.toInt then some (code.drop ((next : Int) + disp.toInt).toNat) else none

def word (b : Bytes) : Option (BitVec 64) := (imm64 b).map Prod.fst

def vec (b : Bytes) : Option Vec := do
  let (a₀, b) ← imm64 b
  let (a₁, b) ← imm64 b
  let (a₂, b) ← imm64 b
  let (a₃, _) ← imm64 b
  return ![a₀, a₁, a₂, a₃]

def Operand.link {α : Type} (value : Bytes → Option α) (code : Bytes) (next : Nat) :
    Operand α → Option (Operand α)
  | .rip disp => ((target code next disp).bind value).map .const
  | o => some o

/-- The instruction with the constant that it reads, the next one being at `next`. -/
def Instr.link (code : Bytes) (next : Nat) : Instr → Option Instr
  | .mov dst src => (src.link word code next).map (.mov dst)
  | .imul dst src => (src.link word code next).map (.imul dst)
  | .lane op dst a b => (b.link vec code next).map (.lane op dst a)
  | .vbroadcastsd dst src => (src.link word code next).map (.vbroadcastsd dst)
  | i => some i

/-- The instruction at a place, and where the next one is. -/
def fetch (code : Bytes) (p : Nat) : Option (Instr × Nat) :=
  (decode (code.drop p)).bind fun i =>
    (i.1.link code (code.length - i.2.length)).map (·, code.length - i.2.length)

theorem fetch_eq {code b rest : Bytes} {p : Nat} {i j : Instr} (hcode : code.drop p = b ++ rest)
    (hb : b ≠ []) (hi : decode (b ++ rest) = some (i, rest))
    (hj : i.link code (p + b.length) = some j) : fetch code p = some (j, p + b.length) := by
  have hlen := congrArg List.length hcode
  rw [List.length_drop, List.length_append] at hlen
  have hpos := List.length_pos_iff.mpr hb
  have hnext : code.length - rest.length = p + b.length := by omega
  rw [fetch, hcode, hi, Option.bind_some, hnext, hj, Option.map_some]

/-! ## Execution -/

structure State extends X86.State where
  ymm : Reg → Vec
  cf : Option Bool := none
  base : BitVec 64

/-- The low halves of the operands are multiplied. -/
def LaneOp.apply : LaneOp → BitVec 64 → BitVec 64 → BitVec 64
  | .vpaddq, a, b => a + b
  | .vpsubq, a, b => a - b
  | .vpxor, a, b => a ^^^ b
  | .vpand, a, b => a &&& b
  | .vpor, a, b => a ||| b
  | .vpmuludq, a, b => (a.setWidth 32).setWidth 64 * (b.setWidth 32).setWidth 64
  | .vpcmpgtq, a, b => if b.slt a then BitVec.allOnes 64 else 0

/-- A half, by two bits: of the first operand or of the second. -/
def half (n : Nat) (a b : Vec) : BitVec 64 × BitVec 64 :=
  match n % 4 with
  | 0 => (a 0, a 1)
  | 1 => (a 2, a 3)
  | 2 => (b 0, b 1)
  | _ => (b 2, b 3)

def Shuffle.apply : Shuffle → Vec → Vec → Vec
  | .vpunpcklqdq, a, b => ![a 0, b 0, a 2, b 2]
  | .vpunpckhqdq, a, b => ![a 1, b 1, a 3, b 3]
  | .vperm2i128 imm, a, b =>
    let lo := if imm / 8 % 2 = 1 then (0, 0) else half imm a b
    let hi := if imm / 128 % 2 = 1 then (0, 0) else half (imm / 16) a b
    ![lo.1, lo.2, hi.1, hi.2]

/-- A shift by the width or more leaves nothing. -/
def shiftBy (left : Bool) (n : Nat) (a : BitVec 64) : BitVec 64 := if left then a <<< n else a >>> n

def load256 (m : BitVec 64 → BitVec 8) (a : BitVec 64) : Vec :=
  ![load64 m a, load64 m (a + 8), load64 m (a + 16), load64 m (a + 24)]

def store128 (m : BitVec 64 → BitVec 8) (a : BitVec 64) (v : Vec) : BitVec 64 → BitVec 8 :=
  store64 (store64 m a (v 0)) (a + 8) (v 1)

def store256 (m : BitVec 64 → BitVec 8) (a : BitVec 64) (v : Vec) : BitVec 64 → BitVec 8 :=
  store64 (store64 (store128 m a v) (a + 16) (v 2)) (a + 24) (v 3)

namespace State

def setReg (s : State) (r : Reg) (v : BitVec 64) : State :=
  { s with regs := Function.update s.regs r v }

def setYmm (s : State) (r : Reg) (v : Vec) : State := { s with ymm := Function.update s.ymm r v }

def setMem (s : State) (m : BitVec 64 → BitVec 8) : State := { s with mem := m }

def setFlags (s : State) (zf cf : Option Bool) : State := { s with zf := zf, cf := cf }

def word (s : State) : Operand (BitVec 64) → Option (BitVec 64)
  | .reg r => some (s.regs r)
  | .mem m => some (load64 s.mem (s.addr m))
  | .rip _ => none
  | .const v => some v

def vec (s : State) : Operand Vec → Option Vec
  | .reg r => some (s.ymm r)
  | .mem m => some (load256 s.mem (s.addr m))
  | .rip _ => none
  | .const v => some v

end State

/-- The instruction pointer is behind the instruction already. An operand that has not
been linked has no value. -/
def exec (i : Instr) (s : State) : Option State :=
  match i with
  | .int i => (X86.exec i s.toState).map fun t => { s with toState := t, cf := none }
  | .mov dst src => (s.word src).map (s.setReg dst)
  | .imul dst src => (s.word src).map fun v =>
    (s.setReg dst (s.regs dst * v)).setFlags none none
  | .shl dst n => some ((s.setReg dst (s.regs dst <<< (n % 64))).setFlags none none)
  | .cmp a b => some (s.setFlags (some (s.regs a = s.read b)) (some (s.regs a < s.read b)))
  | .push src =>
    let a := s.regs rsp - 8
    some ((s.setMem (store64 s.mem a (s.regs src))).setReg rsp a)
  | .pop dst =>
    let a := s.regs rsp
    some ((s.setReg rsp (a + 8)).setReg dst (load64 s.mem a))
  | .movdquLoad dst m =>
    let v := load256 s.mem (s.addr m)
    some (s.setYmm dst ![v 0, v 1, s.ymm dst 2, s.ymm dst 3])
  | .movdquStore m src => some (s.setMem (store128 s.mem (s.addr m) (s.ymm src)))
  | .vmovdquLoad dst m => some (s.setYmm dst (load256 s.mem (s.addr m)))
  | .vmovdquStore m src => some (s.setMem (store256 s.mem (s.addr m) (s.ymm src)))
  | .lane op dst a b => (s.vec b).map fun v => s.setYmm dst fun l => op.apply (s.ymm a l) (v l)
  | .shift left dst src n => some (s.setYmm dst fun l => shiftBy left n (s.ymm src l))
  | .shuffle op dst a b => some (s.setYmm dst (op.apply (s.ymm a) (s.ymm b)))
  | .vbroadcastsd dst src => (s.word src).map fun v => s.setYmm dst fun _ => v
  | .vzeroupper => some { s with ymm := fun r => ![s.ymm r 0, s.ymm r 1, 0, 0] }
  | .jmp rel => some { s with rip := (s.rip + rel.toInt).toNat }
  | .jb rel => s.cf.map fun c => if c then { s with rip := (s.rip + rel.toInt).toNat } else s
  | .call rel =>
    let a := s.regs rsp - 8
    some { (s.setMem (store64 s.mem a (s.base + BitVec.ofNat 64 s.rip))).setReg rsp a with
      rip := (s.rip + rel.toInt).toNat }
  | .ret => some { s.setReg rsp (s.regs rsp + 8) with
      rip := (load64 s.mem (s.regs rsp) - s.base).toNat }

def step (code : Bytes) (s : State) : Option State :=
  (fetch code s.rip).bind fun i => exec i.1 { s with rip := i.2 }

abbrev Runs (code : Bytes) : State → State → Prop :=
  Relation.ReflTransGen fun s t => step code s = some t

theorem step_eq {code : Bytes} {s : State} {i : Instr} {q : Nat} (h : fetch code s.rip = some (i, q)) :
    step code s = exec i { s with rip := q } := by
  rw [step, h, Option.bind_some]

theorem Runs.step {code : Bytes} {s t : State} {i : Instr} {q : Nat}
    (h : fetch code s.rip = some (i, q)) (ht : exec i { s with rip := q } = some t) :
    Runs code s t :=
  .single ((step_eq h).trans ht)

/-! ## Code without jumps -/

def Instr.jumps : Instr → Bool
  | .int i => i.jumps
  | .jmp _ | .jb _ | .call _ | .ret => true
  | _ => false

def execAll : List Instr → State → Option State
  | [], s => some s
  | i :: is, s => (exec i s).bind (execAll is)

theorem execAll_append (is js : List Instr) (s : State) :
    execAll (is ++ js) s = (execAll is s).bind (execAll js) := by
  induction is generalizing s with
  | nil => rfl
  | cons i is ih =>
    rw [List.cons_append, execAll, execAll]
    cases exec i s with
    | none => rfl
    | some t => exact ih t

theorem exec_rip {i : Instr} (h : i.jumps = false) (s : State) (p : Nat) :
    exec i { s with rip := p } = (exec i s).map fun t => { t with rip := p } := by
  cases i with
  | int i =>
    have hi := X86.exec_rip (i := i) h s.toState p
    simp only [exec, hi]
    cases X86.exec i s.toState <;> rfl
  | mov dst src => cases src <;> rfl
  | imul dst src => cases src <;> rfl
  | cmp a b => cases b <;> rfl
  | lane op dst a b => cases b <;> rfl
  | vbroadcastsd dst src => cases src <;> rfl
  | jmp rel => cases h
  | jb rel => cases h
  | call rel => cases h
  | ret => cases h
  | _ => rfl

theorem execAll_rip {is : List Instr} (h : ∀ i ∈ is, i.jumps = false) (s : State) (p : Nat) :
    execAll is { s with rip := p } = (execAll is s).map fun t => { t with rip := p } := by
  induction is generalizing s with
  | nil => rfl
  | cons i is ih =>
    rw [execAll, execAll, exec_rip (h i List.mem_cons_self)]
    cases exec i s with
    | none => rfl
    | some t => exact ih (fun j hj => h j (List.mem_cons_of_mem _ hj)) t

/-- The code from `p` to `q`, instruction by instruction. -/
inductive Disassembles (code : Bytes) : Nat → List Instr → Nat → Prop where
  | nil {p : Nat} : Disassembles code p [] p
  | cons {p q r : Nat} {i : Instr} {is : List Instr} (h : fetch code p = some (i, q))
      (his : Disassembles code q is r) : Disassembles code p (i :: is) r

theorem Disassembles.append {code : Bytes} {p q r : Nat} {is js : List Instr}
    (h : Disassembles code p is q) (h' : Disassembles code q js r) :
    Disassembles code p (is ++ js) r := by
  induction h with
  | nil => exact h'
  | cons hf _ ih => exact .cons hf (ih h')

/-- **Code without jumps** runs to its end. -/
theorem Disassembles.runs {code : Bytes} {p q : Nat} {is : List Instr}
    (h : Disassembles code p is q) (hj : ∀ i ∈ is, i.jumps = false) {s t : State} (hp : s.rip = p)
    (ht : execAll is s = some t) : Runs code s { t with rip := q } := by
  induction h generalizing s t with
  | nil =>
    cases ht
    rw [← hp]
  | @cons p q r i is hf _ ih =>
    obtain ⟨u, hu, hut⟩ := Option.bind_eq_some_iff.mp ht
    have hexec : exec i { s with rip := q } = some { u with rip := q } := by
      rw [exec_rip (hj i List.mem_cons_self), hu, Option.map_some]
    have hall : execAll is { u with rip := q } = some { t with rip := q } := by
      rw [execAll_rip (fun j hj' => hj j (List.mem_cons_of_mem _ hj')), hut, Option.map_some]
    have hrun := ih (fun j hj' => hj j (List.mem_cons_of_mem _ hj')) rfl hall
    exact .head ((step_eq (hp ▸ hf)).trans hexec) hrun

/-- The bytes are those of the instructions, wherever they stand. -/
def Encodes (b : Bytes) (is : List Instr) : Prop :=
  ∀ pre rest, Disassembles (pre ++ (b ++ rest)) pre.length is (pre.length + b.length)

theorem Encodes.nil : Encodes [] [] := fun _ _ => .nil

theorem Encodes.append {b c : Bytes} {is js : List Instr} (h : Encodes b is) (h' : Encodes c js) :
    Encodes (b ++ c) (is ++ js) := by
  intro pre rest
  have hb := h pre (c ++ rest)
  have hc := h' (pre ++ b) rest
  rw [List.append_assoc pre b, List.length_append] at hc
  rw [List.append_assoc b c, List.length_append, ← Nat.add_assoc]
  exact hb.append hc

/-- An instruction that reads no constant of the code. -/
theorem Encodes.one {b : Bytes} {i : Instr} (hb : b ≠ [])
    (hi : ∀ rest, decode (b ++ rest) = some (i, rest))
    (hl : ∀ code next, i.link code next = some i) : Encodes b [i] := by
  intro pre rest
  exact .cons (fetch_eq List.drop_left hb (hi rest) (hl _ _)) .nil

theorem Encodes.of_x86 {b : Bytes} {is : List X86.Instr} (h : X86.Encodes b is) :
    Encodes b (is.map .int) := by
  induction h with
  | nil => exact .nil
  | cons hb hi _ ih =>
    have hone : ∀ rest, decode (_ ++ rest) = some (Instr.int _, rest) := fun rest => by
      rw [decode, hi rest]
    exact (Encodes.one hb hone fun _ _ => rfl).append ih

theorem Encodes.at {code b rest : Bytes} {is : List Instr} (h : Encodes b is) {p : Nat}
    (hp : p ≤ code.length) (hcode : code.drop p = b ++ rest) :
    Disassembles code p is (p + b.length) := by
  have hpre := h (code.take p) rest
  rwa [← hcode, List.take_append_drop, List.length_take, Nat.min_eq_left hp] at hpre

/-- An immediate that was written as eight bytes. -/
theorem imm64_le (v : BitVec 64) (rest : Bytes) :
    imm64 (Bytes.le 8 v.toNat ++ rest) = some (v, rest) := by
  have himm : BitVec.ofNat 64 (Bytes.readLE (Bytes.le 8 v.toNat)) = v := by
    have hpow : 256 ^ 8 = 2 ^ 64 := rfl
    rw [Bytes.readLE_le, hpow, Nat.mod_eq_of_lt v.isLt, BitVec.ofNat_toNat, BitVec.setWidth_eq]
  conv_rhs => rw [← himm]
  rfl

/-- A constant that is loaded into `rax`, and from the bytes of this load into the lanes. -/
theorem Encodes.broadcast {mid b : Bytes} {is : List Instr} (hmid : Encodes mid is) {r : Reg}
    {disp : BitVec 32} (hb : ∀ rest, decode (b ++ rest) = some (.vbroadcastsd r (.rip disp), rest))
    (hne : b ≠ []) (hdisp : disp.toInt = -(8 + mid.length + b.length)) (v : BitVec 64) :
    Encodes ([0x48, 0xB8] ++ Bytes.le 8 v.toNat ++ mid ++ b)
      (.int (.movImm X86.rax v) :: is ++ [.vbroadcastsd r (.const v)]) := by
  have hmov : Encodes ([0x48, 0xB8] ++ Bytes.le 8 v.toNat) [.int (.movImm X86.rax v)] := by
    have hone : X86.Encodes ([0x48, 0xB8] ++ Bytes.le 8 v.toNat) [.movImm X86.rax v] := by
      refine .one (by simp) fun rest => ?_
      have h := congrArg (Option.map fun d => (X86.Instr.movImm X86.rax d.1, d.2)) (imm64_le v rest)
      rw [List.append_assoc]
      exact h
    exact .of_x86 hone
  intro pre rest
  have hfront := (hmov.append hmid) pre (b ++ rest)
  have hlen : ([0x48, 0xB8] ++ Bytes.le 8 v.toNat ++ mid).length = 10 + mid.length := by
    simp
    omega
  have hcode : pre ++ ([0x48, 0xB8] ++ Bytes.le 8 v.toNat ++ mid ++ b ++ rest) =
      pre ++ ([0x48, 0xB8] ++ Bytes.le 8 v.toNat ++ mid ++ (b ++ rest)) := by
    simp only [List.append_assoc]
  have hdrop : (pre ++ ([0x48, 0xB8] ++ Bytes.le 8 v.toNat ++ mid ++ (b ++ rest))).drop
      (pre.length + (10 + mid.length)) = b ++ rest := by
    rw [← hlen, ← List.drop_drop, List.drop_left, List.drop_left]
  have himm : (pre ++ ([0x48, 0xB8] ++ Bytes.le 8 v.toNat ++ mid ++ (b ++ rest))).drop
      (pre.length + 2) = Bytes.le 8 v.toNat ++ (mid ++ (b ++ rest)) := by
    rw [← List.drop_drop, List.drop_left]
    simp
  have hat : ((pre.length + (10 + mid.length) + b.length : Nat) : Int) + disp.toInt =
      (pre.length + 2 : Nat) := by
    omega
  have hlink : (Instr.vbroadcastsd r (.rip disp)).link
      (pre ++ ([0x48, 0xB8] ++ Bytes.le 8 v.toNat ++ mid ++ (b ++ rest)))
      (pre.length + (10 + mid.length) + b.length) = some (.vbroadcastsd r (.const v)) := by
    simp only [Instr.link, Operand.link, target, hat, Int.natCast_nonneg, if_true, Int.toNat_natCast,
      himm, Option.bind_some, word, imm64_le, Option.map_some]
  rw [hcode, List.length_append, hlen, ← Nat.add_assoc]
  rw [hlen] at hfront
  exact hfront.append (.cons (fetch_eq hdrop hne (hb rest) hlink) .nil)

/-! ## Listings -/

/-- Bytes, and the instruction that they are. -/
abbrev Listing := List (Bytes × Instr)

namespace Listing

def bytes (l : Listing) : Bytes := l.flatMap Prod.fst

def instrs (l : Listing) : List Instr := l.map Prod.snd

/-- Each line is right. -/
def Valid (l : Listing) : Prop :=
  l.Forall fun a => a.1 ≠ [] ∧ ∀ rest, decode (a.1 ++ rest) = some (a.2, rest)

/-- The instructions with their constants, where the listing is at `p`. -/
def linked (code : Bytes) : Nat → Listing → Option (List Instr)
  | _, [] => some []
  | p, a :: l => do
    let i ← a.2.link code (p + a.1.length)
    return i :: (← linked code (p + a.1.length) l)

theorem disassembles {code : Bytes} {l : Listing} (hv : l.Valid) {p : Nat} {rest : Bytes}
    (hcode : code.drop p = l.bytes ++ rest) {is : List Instr} (hl : linked code p l = some is) :
    Disassembles code p is (p + l.bytes.length) := by
  induction l generalizing p is with
  | nil =>
    cases hl
    exact .nil
  | cons a l ih =>
    obtain ⟨⟨hne, hdec⟩, hvl⟩ := List.forall_cons .. |>.mp hv
    obtain ⟨i, hi, js, hjs, rfl⟩ : ∃ i, a.2.link code (p + a.1.length) = some i ∧
        ∃ js, linked code (p + a.1.length) l = some js ∧ is = i :: js := by
      simp only [linked, Option.bind_eq_bind, Option.bind_eq_some_iff, Option.pure_def,
        Option.some.injEq] at hl
      obtain ⟨i, hi, js, hjs, h⟩ := hl
      exact ⟨i, hi, js, hjs, h.symm⟩
    have hbytes : bytes (a :: l) = a.1 ++ bytes l := rfl
    rw [hbytes, List.append_assoc] at hcode
    have htail := ih hvl (X86.drop_add hcode) hjs
    rw [hbytes, List.length_append, ← Nat.add_assoc]
    exact .cons (fetch_eq hcode hne (hdec _) hi) htail

/-- A listing that reads no constant of the code. -/
theorem encodes {l : Listing} (hv : l.Valid) (hl : ∀ code p, linked code p l = some l.instrs) :
    Encodes l.bytes l.instrs := fun _ _ => disassembles hv List.drop_left (hl _ _)

end Listing

/-! ## Lanes -/

/-- An instruction that does the same on every lane. -/
inductive LaneInstr where
  | op (o : LaneOp) (dst a b : Reg)
  | shift (left : Bool) (dst src : Reg) (n : Nat)
  | broadcast (dst : Reg) (v : BitVec 64)

namespace LaneInstr

def instr : LaneInstr → Instr
  | op o dst a b => .lane o dst a (.reg b)
  | shift left dst src n => .shift left dst src n
  | broadcast dst v => .vbroadcastsd dst (.const v)

/-- On the registers of one lane. -/
def exec (r : Reg → BitVec 64) : LaneInstr → Reg → BitVec 64
  | op o dst a b => Function.update r dst (o.apply (r a) (r b))
  | shift left dst src n => Function.update r dst (shiftBy left n (r src))
  | broadcast dst v => Function.update r dst v

def dst : LaneInstr → Reg
  | op _ dst _ _ => dst
  | shift _ dst _ _ => dst
  | broadcast dst _ => dst

/-- Only the destinations change. -/
theorem foldl_exec_of_ne {q : Reg} (is : List LaneInstr) (h : ∀ i ∈ is, q ≠ i.dst)
    (r : Reg → BitVec 64) : is.foldl exec r q = r q := by
  induction is generalizing r with
  | nil => rfl
  | cons i is ih =>
    have hi := h i List.mem_cons_self
    rw [List.foldl_cons, ih fun j hj => h j (List.mem_cons_of_mem _ hj)]
    cases i <;> exact Function.update_of_ne hi _ _

theorem exec_instr (i : LaneInstr) (s : State) :
    Avx2.exec i.instr s = some { s with ymm := fun r l => exec (s.ymm · l) i r } := by
  have update (dst : Reg) (v : Vec) : Function.update s.ymm dst v =
      fun r l => Function.update (s.ymm · l) dst (v l) r := by
    funext r l
    by_cases h : r = dst
    · subst h
      simp
    · simp [h]
  cases i <;> simp only [instr, Avx2.exec, State.vec, State.word, Option.map_some, State.setYmm,
    exec, update]

end LaneInstr

/-- The bytes are those of instructions that are the same on every lane. -/
def EncodesLanes (b : Bytes) (is : List LaneInstr) : Prop := Encodes b (is.map LaneInstr.instr)

theorem EncodesLanes.append {b c : Bytes} {is js : List LaneInstr} (h : EncodesLanes b is)
    (h' : EncodesLanes c js) : EncodesLanes (b ++ c) (is ++ js) := by
  rw [EncodesLanes, List.map_append]
  exact Encodes.append h h'

/-- Integer instructions, which leave vectors alone. -/
theorem execAll_int {is : List X86.Instr} {s : State} {t : X86.State}
    (h : X86.execAll is s.toState = some t) :
    ∃ cf, execAll (is.map .int) s = some { s with toState := t, cf := cf } := by
  induction is generalizing s with
  | nil =>
    cases h
    exact ⟨s.cf, rfl⟩
  | cons i is ih =>
    obtain ⟨u, hu, hut⟩ := Option.bind_eq_some_iff.mp h
    obtain ⟨cf, hcf⟩ := ih (s := { s with toState := u, cf := none }) hut
    refine ⟨cf, ?_⟩
    rw [List.map_cons, execAll, exec, hu]
    exact hcf

end Rxs.Core.Avx2
