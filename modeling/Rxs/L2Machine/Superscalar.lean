import Mathlib.Data.List.Basic
import Rxs.Core.Bytes
import Rxs.L2Machine.BytecodeMachine

/-!
# The superscalar generator

`generateSuperscalar` writes a program for a processor that it simulates: windows of
sixteen bytes are decoded into macro-operations, these go to one of three ports in the
first cycle that has one free, and registers are chosen among those whose value is ready.
What it chooses it draws from a generator of random bytes.

Two of its loops draw until a value is good; `fuel` is how often. What must not happen is
an error: an index outside of a table, a loop without an end, a case that is not there.

* `createForSlot`, `selectSource`, `selectDestination`: an instruction.
* `scheduleUop`, `scheduleMop`: the table of ports.
* `turn`: one macro-operation.
* `generateSuperscalar`.
-/
namespace Rxs.RandomX.Superscalar

open Rxs.Core Rxs.RandomX.BytecodeMachine

/-- What keeps the generator from a program. -/
inductive Stuck where
  /-- A value is drawn, and not good, more than `fuel` times. -/
  | rejecting
  /-- An index is outside of its table. -/
  | outside
  | endless
  | unreachable
  deriving DecidableEq, Repr

inductive SuperscalarInstructionType where
  | ISUB_R | IXOR_R | IADD_RS | IMUL_R | IROR_C | IADD_C7 | IXOR_C7 | IADD_C8 | IXOR_C8 | IADD_C9
  | IXOR_C9 | IMULH_R | ISMULH_R | IMUL_RCP | INVALID
  deriving DecidableEq, Repr

open SuperscalarInstructionType

namespace SuperscalarInstructionType

/-- The number that the source gives it. -/
def toInt : SuperscalarInstructionType → Int
  | ISUB_R => 0 | IXOR_R => 1 | IADD_RS => 2 | IMUL_R => 3 | IROR_C => 4 | IADD_C7 => 5
  | IXOR_C7 => 6 | IADD_C8 => 7 | IXOR_C8 => 8 | IADD_C9 => 9 | IXOR_C9 => 10 | IMULH_R => 11
  | ISMULH_R => 12 | IMUL_RCP => 13 | INVALID => -1

end SuperscalarInstructionType

/-- mirrors src/crypto/randomx/superscalar.cpp:38-40 -/
def isMultiplication (type : SuperscalarInstructionType) : Bool :=
  type = IMUL_R || type = IMULH_R || type = ISMULH_R || type = IMUL_RCP

/-- A micro-operation is the set of ports that it can go to. -/
structure Uop where
  p0 : Bool := false
  p1 : Bool := false
  p5 : Bool := false
  deriving DecidableEq, Repr

namespace Uop

def Null : Uop := {}
def P1 : Uop := { p1 := true }
def P5 : Uop := { p5 := true }
def P01 : Uop := { p0 := true, p1 := true }
def P05 : Uop := { p0 := true, p5 := true }
def P015 : Uop := { p0 := true, p1 := true, p5 := true }

end Uop

structure MacroOp where
  size : Nat
  latency : Nat := 0
  uop1 : Uop := .Null
  uop2 : Uop := .Null
  dependent : Bool := false
  deriving DecidableEq, Repr

namespace MacroOp

def isSimple (mop : MacroOp) : Bool := mop.uop2 = .Null

def isEliminated (mop : MacroOp) : Bool := mop.uop1 = .Null

/-- mirrors src/crypto/randomx/superscalar.cpp:120-141 -/
def Add_rr : MacroOp := ⟨3, 1, .P015, .Null, false⟩
def Sub_rr : MacroOp := ⟨3, 1, .P015, .Null, false⟩
def Xor_rr : MacroOp := ⟨3, 1, .P015, .Null, false⟩
def Imul_r : MacroOp := ⟨3, 4, .P1, .P5, false⟩
def Mul_r : MacroOp := ⟨3, 4, .P1, .P5, false⟩
def Mov_rr : MacroOp := ⟨3, 0, .Null, .Null, false⟩
def Lea_sib : MacroOp := ⟨4, 1, .P01, .Null, false⟩
def Imul_rr : MacroOp := ⟨4, 3, .P1, .Null, false⟩
def Ror_ri : MacroOp := ⟨4, 1, .P05, .Null, false⟩
def Add_ri : MacroOp := ⟨7, 1, .P015, .Null, false⟩
def Xor_ri : MacroOp := ⟨7, 1, .P015, .Null, false⟩
def Mov_ri64 : MacroOp := ⟨10, 1, .P015, .Null, false⟩

end MacroOp

/-- The macro-operations of an instruction, and at which of them its result is written
and its registers are chosen; `-1` where it has no source. -/
structure SuperscalarInstructionInfo where
  type : SuperscalarInstructionType
  ops : List MacroOp
  resultOp : Nat := 0
  dstOp : Nat := 0
  srcOp : Int := 0
  deriving DecidableEq, Repr

/-- mirrors src/crypto/randomx/superscalar.cpp:150-152 and 225-243 -/
def info : SuperscalarInstructionType → SuperscalarInstructionInfo
  | ISUB_R => ⟨ISUB_R, [.Sub_rr], 0, 0, 0⟩
  | IXOR_R => ⟨IXOR_R, [.Xor_rr], 0, 0, 0⟩
  | IADD_RS => ⟨IADD_RS, [.Lea_sib], 0, 0, 0⟩
  | IMUL_R => ⟨IMUL_R, [.Imul_rr], 0, 0, 0⟩
  | IROR_C => ⟨IROR_C, [.Ror_ri], 0, 0, -1⟩
  | IADD_C7 => ⟨IADD_C7, [.Add_ri], 0, 0, -1⟩
  | IXOR_C7 => ⟨IXOR_C7, [.Xor_ri], 0, 0, -1⟩
  | IADD_C8 => ⟨IADD_C8, [.Add_ri], 0, 0, -1⟩
  | IXOR_C8 => ⟨IXOR_C8, [.Xor_ri], 0, 0, -1⟩
  | IADD_C9 => ⟨IADD_C9, [.Add_ri], 0, 0, -1⟩
  | IXOR_C9 => ⟨IXOR_C9, [.Xor_ri], 0, 0, -1⟩
  | IMULH_R => ⟨IMULH_R, [.Mov_rr, .Mul_r, .Mov_rr], 1, 0, 1⟩
  | ISMULH_R => ⟨ISMULH_R, [.Mov_rr, .Imul_r, .Mov_rr], 1, 0, 1⟩
  | IMUL_RCP => ⟨IMUL_RCP, [.Mov_ri64, { MacroOp.Imul_rr with dependent := true }], 1, 1, -1⟩
  -- `NOP`
  | INVALID => ⟨INVALID, [], 0, 0, 0⟩

/-! ## The random bytes -/

structure Blake2Generator where
  data : Bytes
  dataIndex : Nat
  deriving DecidableEq, Repr

namespace Blake2Generator

variable (rx_blake2b : Bytes → Bytes)

def checkData (bytesNeeded : Nat) (gen : Blake2Generator) : Blake2Generator :=
  if gen.dataIndex + bytesNeeded > 64 then ⟨rx_blake2b gen.data, 0⟩ else gen

def getByte (gen : Blake2Generator) : Nat × Blake2Generator :=
  let gen := gen.checkData rx_blake2b 1
  (Bytes.readLE (gen.data.slice gen.dataIndex 1), { gen with dataIndex := gen.dataIndex + 1 })

/-- mirrors src/crypto/randomx/blake2_generator.cpp:45-62 -/
def getUInt32 (gen : Blake2Generator) : Nat × Blake2Generator :=
  let gen := gen.checkData rx_blake2b 4
  (Bytes.readLE (gen.data.slice gen.dataIndex 4), { gen with dataIndex := gen.dataIndex + 4 })

/-- Draws until a value is not bad. -/
def drawUntil (draw : Blake2Generator → Nat × Blake2Generator) (bad : Nat → Bool) :
    Nat → Blake2Generator → Except Stuck (Nat × Blake2Generator)
  | 0, _ => throw .rejecting
  | fuel + 1, gen =>
    let (v, gen) := draw gen
    if bad v then drawUntil draw bad fuel gen else pure (v, gen)

end Blake2Generator

/-! ## Decoding -/

/-- How a window of sixteen bytes is split. -/
structure DecoderBuffer where
  index : Int
  counts : List Nat
  deriving DecidableEq, Repr

namespace DecoderBuffer

/-- mirrors src/crypto/randomx/superscalar.cpp:249-254 and 306-320 -/
def decodeBuffer484 : DecoderBuffer := ⟨0, [4, 8, 4]⟩
def decodeBuffer7333 : DecoderBuffer := ⟨1, [7, 3, 3, 3]⟩
def decodeBuffer3733 : DecoderBuffer := ⟨2, [3, 7, 3, 3]⟩
def decodeBuffer493 : DecoderBuffer := ⟨3, [4, 9, 3]⟩
def decodeBuffer4444 : DecoderBuffer := ⟨4, [4, 4, 4, 4]⟩
def decodeBuffer3310 : DecoderBuffer := ⟨5, [3, 3, 10]⟩

def fetchNextDefault (rx_blake2b : Bytes → Bytes) (gen : Blake2Generator) :
    DecoderBuffer × Blake2Generator :=
  let (v, gen) := gen.getByte rx_blake2b
  (match v % 4 with
    | 0 => decodeBuffer484
    | 1 => decodeBuffer7333
    | 2 => decodeBuffer3733
    | _ => decodeBuffer493, gen)

/-- mirrors src/crypto/randomx/superscalar.cpp:274-292 -/
def fetchNext (rx_blake2b : Bytes → Bytes) (instrType : SuperscalarInstructionType)
    (cycle mulCount : Nat) (gen : Blake2Generator) : DecoderBuffer × Blake2Generator :=
  if instrType = IMULH_R ∨ instrType = ISMULH_R then (decodeBuffer3310, gen)
  else if mulCount < cycle + 1 then (decodeBuffer4444, gen)
  else if instrType = IMUL_RCP then
    let (v, gen) := gen.getByte rx_blake2b
    (if v % 2 = 1 then decodeBuffer484 else decodeBuffer493, gen)
  else fetchNextDefault rx_blake2b gen

end DecoderBuffer

/-! ## Instructions -/

structure RegisterInfo where
  latency : Nat := 0
  lastOpGroup : SuperscalarInstructionType := INVALID
  lastOpPar : Int := -1
  deriving DecidableEq, Repr

structure SuperscalarInstruction where
  info : SuperscalarInstructionInfo
  src : Int := -1
  dst : Int := -1
  mod : Nat := 0
  imm32 : Nat := 0
  opGroup : SuperscalarInstructionType := INVALID
  opGroupPar : Int := 0
  canReuse : Bool := false
  groupParIsSource : Bool := false
  deriving DecidableEq, Repr

namespace SuperscalarInstruction

def Null : SuperscalarInstruction := { info := Superscalar.info INVALID }

/-- `uint32_t` to `int`. -/
def toInt32 (v : Nat) : Int := (BitVec.ofNat 32 v).toInt

/-- mirrors src/crypto/randomx/superscalar.cpp:352-358 -/
def toInstr (i : SuperscalarInstruction) : Instruction where
  opcode := BitVec.ofInt 8 i.info.type.toInt
  dst := BitVec.ofInt 8 i.dst
  src := BitVec.ofInt 8 (if i.src ≥ 0 then i.src else i.dst)
  mod := BitVec.ofNat 8 i.mod
  imm32 := BitVec.ofNat 32 i.imm32

def reset (i : SuperscalarInstruction) : SuperscalarInstruction :=
  { i with src := -1, dst := -1, canReuse := false, groupParIsSource := false }

variable (rx_blake2b : Bytes → Bytes) (fuel : Nat)

/-- mirrors src/crypto/randomx/superscalar.cpp:398-483 -/
def create (type : SuperscalarInstructionType) (i : SuperscalarInstruction)
    (gen : Blake2Generator) : Except Stuck (SuperscalarInstruction × Blake2Generator) :=
  let i := { i with info := Superscalar.info type }.reset
  match type with
  | ISUB_R =>
    pure ({ i with mod := 0, imm32 := 0, opGroup := IADD_RS, groupParIsSource := true }, gen)
  | IXOR_R =>
    pure ({ i with mod := 0, imm32 := 0, opGroup := IXOR_R, groupParIsSource := true }, gen)
  | IADD_RS =>
    let (v, gen) := gen.getByte rx_blake2b
    pure ({ i with mod := v, imm32 := 0, opGroup := IADD_RS, groupParIsSource := true }, gen)
  | IMUL_R =>
    pure ({ i with mod := 0, imm32 := 0, opGroup := IMUL_R, groupParIsSource := true }, gen)
  | IROR_C => do
    let (v, gen) ← Blake2Generator.drawUntil (·.getByte rx_blake2b) (· % 64 = 0) fuel gen
    return ({ i with mod := 0, imm32 := v % 64, opGroup := IROR_C, opGroupPar := -1 }, gen)
  | IADD_C7 | IADD_C8 | IADD_C9 =>
    let (v, gen) := gen.getUInt32 rx_blake2b
    pure ({ i with mod := 0, imm32 := v, opGroup := IADD_C7, opGroupPar := -1 }, gen)
  | IXOR_C7 | IXOR_C8 | IXOR_C9 =>
    let (v, gen) := gen.getUInt32 rx_blake2b
    pure ({ i with mod := 0, imm32 := v, opGroup := IXOR_C7, opGroupPar := -1 }, gen)
  | IMULH_R =>
    let (v, gen) := gen.getUInt32 rx_blake2b
    pure ({ i with canReuse := true, mod := 0, imm32 := 0, opGroup := IMULH_R,
                   opGroupPar := toInt32 v }, gen)
  | ISMULH_R =>
    let (v, gen) := gen.getUInt32 rx_blake2b
    pure ({ i with canReuse := true, mod := 0, imm32 := 0, opGroup := ISMULH_R,
                   opGroupPar := toInt32 v }, gen)
  | IMUL_RCP => do
    let (v, gen) ← Blake2Generator.drawUntil (·.getUInt32 rx_blake2b)
      (fun v => isZeroOrPowerOf2 (BitVec.ofNat 64 v)) fuel gen
    return ({ i with mod := 0, imm32 := v, opGroup := IMUL_RCP, opGroupPar := -1 }, gen)
  | INVALID => pure (i, gen)

/-- What fits a slot.
mirrors src/crypto/randomx/superscalar.cpp:322-328 and 361-396 -/
def createForSlot (slotSize : Nat) (fetchType : Int) (isLast : Bool) (i : SuperscalarInstruction)
    (gen : Blake2Generator) : Except Stuck (SuperscalarInstruction × Blake2Generator) :=
  let byte := gen.getByte rx_blake2b
  let one (a b : SuperscalarInstructionType) :=
    create rx_blake2b fuel (if byte.1 % 2 = 0 then a else b) i byte.2
  match slotSize with
  | 3 =>
    if isLast then
      let type := match byte.1 % 4 with
        | 0 => ISUB_R
        | 1 => IXOR_R
        | 2 => IMULH_R
        | _ => ISMULH_R
      create rx_blake2b fuel type i byte.2
    else one ISUB_R IXOR_R
  | 4 =>
    if fetchType = 4 ∧ ¬ isLast then create rx_blake2b fuel IMUL_R i gen
    else one IROR_C IADD_RS
  | 7 => one IXOR_C7 IADD_C7
  | 8 => one IXOR_C8 IADD_C8
  | 9 => one IXOR_C9 IADD_C9
  | 10 => create rx_blake2b fuel IMUL_RCP i gen
  | _ => throw .unreachable

/-- mirrors src/crypto/randomx/superscalar.cpp:330-343 -/
def selectRegister (availableRegisters : List Reg) (gen : Blake2Generator) :
    Option Reg × Blake2Generator :=
  if availableRegisters.length = 0 then (none, gen)
  else if availableRegisters.length > 1 then
    let (v, gen) := gen.getUInt32 rx_blake2b
    (availableRegisters[v % availableRegisters.length]?, gen)
  else (availableRegisters[0]?, gen)

/-- Whether the register can be the destination.
mirrors src/crypto/randomx/superscalar.cpp:489-502 -/
def isAvailable (cycle : Nat) (allowChainedMul : Bool) (registers : Reg → RegisterInfo)
    (s : SuperscalarInstruction) (i : Reg) : Bool :=
  (registers i).latency ≤ cycle && (s.canReuse || (i.val : Int) ≠ s.src) &&
    (allowChainedMul || s.opGroup ≠ IMUL_R || (registers i).lastOpGroup ≠ IMUL_R) &&
    ((registers i).lastOpGroup ≠ s.opGroup || (registers i).lastOpPar ≠ s.opGroupPar) &&
    (s.info.type ≠ IADD_RS || i ≠ RegisterNeedsDisplacement)

/-- mirrors src/crypto/randomx/superscalar.cpp:485-505 -/
def selectDestination (allowChainedMul : Bool) (registers : Reg → RegisterInfo) (cycle : Nat)
    (s : SuperscalarInstruction) (gen : Blake2Generator) :
    Bool × SuperscalarInstruction × Blake2Generator :=
  let availableRegisters :=
    (List.finRange 8).filter (s.isAvailable cycle allowChainedMul registers)
  match selectRegister rx_blake2b availableRegisters gen with
  | (some r, gen) => (true, { s with dst := r.val }, gen)
  | (none, gen) => (false, s, gen)

/-- mirrors src/crypto/randomx/superscalar.cpp:507-528 -/
def selectSource (registers : Reg → RegisterInfo) (cycle : Nat) (s : SuperscalarInstruction)
    (gen : Blake2Generator) : Bool × SuperscalarInstruction × Blake2Generator :=
  let availableRegisters := (List.finRange 8).filter fun i => (registers i).latency ≤ cycle
  if availableRegisters.length = 2 ∧ s.info.type = IADD_RS ∧
      RegisterNeedsDisplacement ∈ availableRegisters then
    (true, { s with src := RegisterNeedsDisplacement.val
                    opGroupPar := RegisterNeedsDisplacement.val }, gen)
  else
    match selectRegister rx_blake2b availableRegisters gen with
    | (some r, gen) =>
      (true, { s with src := r.val
                      opGroupPar := if s.groupParIsSource then r.val else s.opGroupPar }, gen)
    | (none, gen) => (false, s, gen)

end SuperscalarInstruction

/-! ## Ports -/

def RANDOMX_SUPERSCALAR_MAX_LATENCY : Nat := 256
def CYCLE_MAP_SIZE : Nat := RANDOMX_SUPERSCALAR_MAX_LATENCY + 4
def LOOK_FORWARD_CYCLES : Nat := 4
def MAX_THROWAWAY_COUNT : Nat := 256
def SuperscalarMaxSize : Nat := 3 * RANDOMX_SUPERSCALAR_MAX_LATENCY + 2

inductive Port where
  | p0 | p1 | p5
  deriving DecidableEq, Repr

/-- The table of ports, as the list of what has been written to it. -/
abbrev PortBusy := List ((Nat × Port) × Uop)

namespace PortBusy

/-- Whether nothing has been written there. -/
def free (portBusy : PortBusy) (cycle : Nat) (port : Port) : Bool :=
  portBusy.lookup (cycle, port) = none

end PortBusy

variable (SuperscalarLatency : Nat)

/-- The first port that is free: P5, then P0, then P1. -/
def freePort (uop : Uop) (portBusy : PortBusy) (cycle : Nat) : Option Port :=
  if uop.p5 ∧ portBusy.free cycle .p5 then some .p5
  else if uop.p0 ∧ portBusy.free cycle .p0 then some .p0
  else if uop.p1 ∧ portBusy.free cycle .p1 then some .p1
  else none

/-- From `cycle` on, `n` cycles. -/
def scheduleUopFrom (uop : Uop) (portBusy : PortBusy) :
    Nat → Nat → Except Stuck (Option (Nat × Port))
  | 0, _ => pure none
  | n + 1, cycle =>
    if cycle ≥ CYCLE_MAP_SIZE then throw .outside
    else
      match freePort uop portBusy cycle with
      | some port => pure (some (cycle, port))
      | none => scheduleUopFrom uop portBusy n (cycle + 1)

/-- The cycle, and the table if it is to be changed.
mirrors src/crypto/randomx/superscalar.cpp:580-608 -/
def scheduleUop (commit : Bool) (uop : Uop) (portBusy : PortBusy) (cycle : Nat) :
    Except Stuck (Option Nat × PortBusy) := do
  match ← scheduleUopFrom uop portBusy (SuperscalarLatency + 4 - cycle) cycle with
  | some (cycle, port) =>
    return (some cycle, if commit then ((cycle, port), uop) :: portBusy else portBusy)
  | none => return (none, portBusy)

/-- Two micro-operations in the same cycle, from `cycle` on. -/
def scheduleBothFrom (commit : Bool) (mop : MacroOp) (portBusy : PortBusy) :
    Nat → Nat → Except Stuck (Option Nat × PortBusy)
  | 0, _ => pure (none, portBusy)
  | n + 1, cycle => do
    let (cycle1, _) ← scheduleUop SuperscalarLatency false mop.uop1 portBusy cycle
    let (cycle2, _) ← scheduleUop SuperscalarLatency false mop.uop2 portBusy cycle
    match cycle1 with
    | some cycle1 =>
      if some cycle1 = cycle2 then
        if commit then
          let (_, portBusy) ← scheduleUop SuperscalarLatency true mop.uop1 portBusy cycle1
          let (_, portBusy) ← scheduleUop SuperscalarLatency true mop.uop2 portBusy cycle1
          return (some cycle1, portBusy)
        else return (some cycle1, portBusy)
      else scheduleBothFrom commit mop portBusy n (cycle + 1)
    | none => scheduleBothFrom commit mop portBusy n (cycle + 1)

/-- mirrors src/crypto/randomx/superscalar.cpp:610-647 -/
def scheduleMop (commit : Bool) (mop : MacroOp) (portBusy : PortBusy) (cycle depCycle : Nat) :
    Except Stuck (Option Nat × PortBusy) :=
  let cycle := if mop.dependent then max cycle depCycle else cycle
  if mop.isEliminated then pure (some cycle, portBusy)
  else if mop.isSimple then scheduleUop SuperscalarLatency commit mop.uop1 portBusy cycle
  else
    scheduleBothFrom SuperscalarLatency commit mop portBusy (SuperscalarLatency + 4 - cycle) cycle

/-! ## The program -/

/-- What the generator knows between two macro-operations; `program` is `prog`, up to
`programSize`. -/
structure State where
  gen : Blake2Generator
  portBusy : PortBusy := []
  registers : Reg → RegisterInfo := fun _ => {}
  currentInstruction : SuperscalarInstruction := .Null
  macroOpIndex : Nat := 0
  codeSize : Nat := 0
  macroOpCount : Nat := 0
  cycle : Nat := 0
  depCycle : Nat := 0
  retireCycle : Nat := 0
  portsSaturated : Bool := false
  program : List Instruction := []
  mulCount : Nat := 0
  throwAwayCount : Nat := 0

/-- How a macro-operation ends: it is issued, its instruction is thrown away, or the
window is left. -/
inductive Turn where
  | issued (s : State)
  | thrown (s : State)
  | left (s : State)

variable (rx_blake2b : Bytes → Bytes) (fuel : Nat)

/-- A new instruction if the last has been issued; none if the program is to end.
mirrors src/crypto/randomx/superscalar.cpp:690-698 -/
def nextInstruction (decodeBuffer : DecoderBuffer) (slotSize : Nat) (isLast : Bool) (s : State) :
    Except Stuck (Option State) :=
  if s.macroOpIndex ≥ s.currentInstruction.info.ops.length then
    if s.portsSaturated ∨ s.program.length ≥ 3 * SuperscalarLatency + 2 then pure none
    else do
      let (i, gen) ← s.currentInstruction.createForSlot rx_blake2b fuel slotSize
        decodeBuffer.index isLast s.gen
      return some { s with currentInstruction := i, macroOpIndex := 0, gen := gen }
  else pure (some s)

/-- A register that is ready in the cycle, or up to `n` cycles later. What is tried takes
time also where it is of no use: `cycle` goes on with `scheduleCycle`. -/
def lookForward (select : Nat → SuperscalarInstruction → Blake2Generator →
    Bool × SuperscalarInstruction × Blake2Generator) : Nat → Nat → State → Option Nat × State
  | 0, _, s => (none, s)
  | n + 1, scheduleCycle, s =>
    match select scheduleCycle s.currentInstruction s.gen with
    | (true, i, gen) => (some scheduleCycle, { s with currentInstruction := i, gen := gen })
    | (false, i, gen) => lookForward select n (scheduleCycle + 1)
        { s with cycle := s.cycle + 1, currentInstruction := i, gen := gen }

/-- mirrors src/crypto/randomx/superscalar.cpp:713-735 -/
def findSource (scheduleCycle : Nat) (s : State) : Option Nat × State :=
  if (s.macroOpIndex : Int) = s.currentInstruction.info.srcOp then
    lookForward (SuperscalarInstruction.selectSource rx_blake2b s.registers) LOOK_FORWARD_CYCLES
      scheduleCycle s
  else (some scheduleCycle, s)

/-- mirrors src/crypto/randomx/superscalar.cpp:737-758 -/
def findDestination (scheduleCycle : Nat) (s : State) : Option Nat × State :=
  if s.macroOpIndex = s.currentInstruction.info.dstOp then
    lookForward (SuperscalarInstruction.selectDestination rx_blake2b (s.throwAwayCount > 0)
      s.registers) LOOK_FORWARD_CYCLES scheduleCycle s
  else (some scheduleCycle, s)

/-- Another instruction is tried, so often; then the window is left. -/
def throwAway (s : State) : Turn :=
  if s.throwAwayCount < MAX_THROWAWAY_COUNT then
    .thrown { s with throwAwayCount := s.throwAwayCount + 1,
                     macroOpIndex := s.currentInstruction.info.ops.length }
  else .left { s with currentInstruction := .Null }

/-- The register is ready when the result is.
mirrors src/crypto/randomx/superscalar.cpp:771-782 -/
def retire (s : State) : Except Stuck State :=
  if s.macroOpIndex = s.currentInstruction.info.resultOp then
    if h : 0 ≤ s.currentInstruction.dst ∧ s.currentInstruction.dst < 8 then
      pure { s with retireCycle := s.depCycle
                    registers := Function.update s.registers
                      ⟨s.currentInstruction.dst.toNat, by omega⟩
                      ⟨s.depCycle, s.currentInstruction.opGroup, s.currentInstruction.opGroupPar⟩ }
    else throw .outside
  else pure s

/-- mirrors src/crypto/randomx/superscalar.cpp:783-802 -/
def advance (mop : MacroOp) (topCycle scheduleCycle : Nat) (s : State) : State :=
  { s with codeSize := s.codeSize + mop.size
           macroOpIndex := s.macroOpIndex + 1
           macroOpCount := s.macroOpCount + 1
           portsSaturated := s.portsSaturated || SuperscalarLatency ≤ scheduleCycle
           cycle := topCycle }

/-- The instruction goes into the program with its last macro-operation. -/
def finish (s : State) : Except Stuck State :=
  if s.macroOpIndex ≥ s.currentInstruction.info.ops.length then
    if s.program.length < SuperscalarMaxSize then
      pure { s with program := s.program ++ [s.currentInstruction.toInstr]
                    mulCount := s.mulCount +
                      if isMultiplication s.currentInstruction.info.type then 1 else 0 }
    else throw .outside
  else pure s

/-- mirrors src/crypto/randomx/superscalar.cpp:759-803 -/
def issue (mop : MacroOp) (topCycle scheduleCycle : Nat) (s : State) : Except Stuck Turn := do
  match ← scheduleMop SuperscalarLatency true mop s.portBusy scheduleCycle scheduleCycle with
  | (none, portBusy) => return .left { s with portBusy := portBusy, portsSaturated := true }
  | (some scheduleCycle, portBusy) =>
    let s ← retire { s with portBusy := portBusy, depCycle := scheduleCycle + mop.latency }
    let s ← finish (advance SuperscalarLatency mop topCycle scheduleCycle s)
    return .issued s

/-- One macro-operation.
mirrors src/crypto/randomx/superscalar.cpp:686-803 -/
def turn (decodeBuffer : DecoderBuffer) (slotSize : Nat) (isLast : Bool) (s : State) :
    Except Stuck Turn := do
  match ← nextInstruction SuperscalarLatency rx_blake2b fuel decodeBuffer slotSize isLast s with
  | none => return .left s
  | some s =>
    let topCycle := s.cycle
    match s.currentInstruction.info.ops[s.macroOpIndex]? with
    | none => throw .outside
    | some mop =>
      match ← scheduleMop SuperscalarLatency false mop s.portBusy s.cycle s.depCycle with
      | (none, _) => return .left { s with portsSaturated := true }
      | (some scheduleCycle, _) =>
        match findSource rx_blake2b scheduleCycle s with
        | (none, s) => return throwAway s
        | (some scheduleCycle, s) =>
          match findDestination rx_blake2b scheduleCycle s with
          | (none, s) => return throwAway s
          | (some scheduleCycle, s) =>
            issue SuperscalarLatency mop topCycle scheduleCycle { s with throwAwayCount := 0 }

/-- Turns until one is not thrown away; `true` if the slot has been filled. -/
def fillSlot (decodeBuffer : DecoderBuffer) (slotSize : Nat) (isLast : Bool) :
    Nat → State → Except Stuck (Bool × State)
  | 0, _ => throw .endless
  | n + 1, s => do
    match ← turn SuperscalarLatency rx_blake2b fuel decodeBuffer slotSize isLast s with
    | .issued s => return (true, s)
    | .thrown s => fillSlot decodeBuffer slotSize isLast n s
    | .left s => return (false, s)

/-- The slots of the window, from the first of `counts` on. -/
def fillBuffer (decodeBuffer : DecoderBuffer) : List Nat → State → Except Stuck State
  | [], s => pure s
  | slotSize :: counts, s => do
    let (filled, s) ← fillSlot SuperscalarLatency rx_blake2b fuel decodeBuffer slotSize
      counts.isEmpty (MAX_THROWAWAY_COUNT + 1) s
    if filled then fillBuffer decodeBuffer counts s else return s

/-- Windows, for at most `n` cycles from `decodeCycle` on.
mirrors src/crypto/randomx/superscalar.cpp:672-806 -/
def decode : Nat → Nat → State → Except Stuck (Nat × State)
  | 0, decodeCycle, s => pure (decodeCycle, s)
  | n + 1, decodeCycle, s =>
    if s.portsSaturated ∨ s.program.length ≥ 3 * SuperscalarLatency + 2 then pure (decodeCycle, s)
    else do
      let (decodeBuffer, gen) := DecoderBuffer.fetchNext rx_blake2b s.currentInstruction.info.type
        decodeCycle s.mulCount s.gen
      let s ← fillBuffer SuperscalarLatency rx_blake2b fuel decodeBuffer decodeBuffer.counts
        { s with gen := gen }
      decode n (decodeCycle + 1) { s with cycle := s.cycle + 1 }

/-- One cycle for an operation, on as many ports as it takes.
mirrors src/crypto/randomx/superscalar.cpp:813-819 -/
def asicLatency (asicLatencies : Reg → Nat) (instr : Instruction) : Except Stuck (Reg → Nat) :=
  if h : instr.dst.toNat < 8 ∧ instr.src.toNat < 8 then
    let latDst := asicLatencies ⟨instr.dst.toNat, h.1⟩ + 1
    let latSrc := if instr.dst ≠ instr.src then asicLatencies ⟨instr.src.toNat, h.2⟩ + 1 else 0
    pure (Function.update asicLatencies ⟨instr.dst.toNat, h.1⟩ (max latDst latSrc))
  else throw .outside

structure SuperscalarProgram where
  program : List Instruction
  addrReg : Reg
  codeSize : Nat
  macroOps : Nat
  decodeCycles : Nat
  cpuLatency : Nat
  asicLatency : Nat
  mulCount : Nat
  cpuLatencies : Reg → Nat
  asicLatencies : Reg → Nat

/-- The register with the highest latency, and this.
mirrors src/crypto/randomx/superscalar.cpp:822-830 -/
def addressRegister (asicLatencies : Reg → Nat) : Reg × Nat :=
  (List.finRange 8).foldl
    (fun best i => if asicLatencies i > best.2 then (i, asicLatencies i) else best) (0, 0)

/-- mirrors src/crypto/randomx/superscalar.cpp:809-846 -/
def summary (decodeCycles : Nat) (s : State) : Except Stuck SuperscalarProgram := do
  let asicLatencies ← s.program.foldlM asicLatency fun _ => 0
  let (addrReg, asicLatencyMax) := addressRegister asicLatencies
  return { program := s.program
           addrReg := addrReg
           codeSize := s.codeSize
           macroOps := s.macroOpCount
           decodeCycles := decodeCycles
           cpuLatency := s.retireCycle
           asicLatency := asicLatencyMax
           mulCount := s.mulCount
           cpuLatencies := fun i => (s.registers i).latency
           asicLatencies := asicLatencies }

/-- The program, and the table of ports that it leaves. -/
def generateSuperscalar (gen : Blake2Generator) : Except Stuck (SuperscalarProgram × PortBusy) := do
  let (decodeCycles, s) ← decode SuperscalarLatency rx_blake2b fuel SuperscalarLatency 0
    { gen := gen }
  let prog ← summary decodeCycles s
  return (prog, s.portBusy)

end Rxs.RandomX.Superscalar
