import Rxs.L2Machine.AesHash

/-!
# Hashes in a pipeline

`randomx_calculate_hash` fills the scratchpad from the input's hash, runs the programs and
hashes the scratchpad. A worker does not call it: `randomx_calculate_hash_first` fills the
scratchpad, and each `randomx_calculate_hash_next` runs the programs, hashes the scratchpad and
fills it for the next input in one pass. The state of the next program's seed waits in
`tempHash` between the calls.

A program's engine sets the registers before it reads them: what a program does depends on its
seed, the rounding mode and the scratchpad.

* `next_eq`: a call on a machine that is ready for an input gives that input's hash, and the
  machine is ready for the next one.
* **`pipelined_eq_plain`**: all calls, and the pass that does both.
-/
namespace Rxs.L2.Pipeline

open Rxs.L2.AesHash

abbrev Bytes : Type := List (BitVec 8)

/-- mirrors src/crypto/randomx/common.hpp:163-168 -/
structure RegisterFile where
  r : Lanes
  f : Lanes
  e : Lanes
  a : Lanes

def bytes (v : V) : Bytes := (List.range 16).map fun i => v.extractLsb' (8 * i) 8

/-- The 256 bytes, as `blake2b` reads them. -/
def RegisterFile.bytes (reg : RegisterFile) : Bytes :=
  [reg.r, reg.f, reg.e, reg.a].flatMap fun l => [l.s0, l.s1, l.s2, l.s3].flatMap Pipeline.bytes

/-- What is not modelled further: `Prog` is a program, `Flt` a state of the float unit.
`initialize_a` gives the group `a` of the registers; the engine gives `r`, `f`, `e`, the state
of the float unit and the scratchpad. -/
structure Primitives (Prog Flt : Type) (n : Nat) where
  aes : Aes
  blake2b_64 : Bytes → Lanes
  blake2b_32 : Bytes → Bytes
  rx_reset_float_state : Flt
  generateProgram : Lanes → Prog
  initialize_a : Prog → Lanes
  execute : Prog → Lanes → Flt → Vector V n → Lanes × Lanes × Lanes × Flt × Vector V n

/-- What a build, a processor and a coin give the machine. `softAESImpl` is the version of the
template that the start of the program chose. -/
structure Configuration where
  ARCH_ZEN5 : Bool
  softAes : Bool
  softAESImpl : Int × Int
  ProgramCount : BitVec 32

variable {Prog Flt : Type} {n : Nat}

/-- The machine, with a scratchpad of `n` vectors. -/
structure Machine (Flt : Type) (n : Nat) where
  scratchpad : Vector V n
  reg : RegisterFile
  flt : Flt

/-- `ScratchpadSize`, in bytes. -/
def ScratchpadSize (n : Nat) : Nat := 16 * n

variable (p : Primitives Prog Flt n) (c : Configuration)

/-- mirrors src/crypto/randomx/virtual_machine.cpp:127-129; the seed is written back -/
def initScratchpad (m : Machine Flt n) (seed : Lanes) : Machine Flt n × Lanes :=
  let s := fillAes1Rx4 p.aes seed (ScratchpadSize n) m.scratchpad
  ({ m with scratchpad := s.2 }, s.1)

def resetRoundingMode (m : Machine Flt n) : Machine Flt n :=
  { m with flt := p.rx_reset_float_state }

/-- mirrors src/crypto/randomx/vm_interpreted.cpp:43-119 and vm_compiled.cpp:45-82 -/
def run (m : Machine Flt n) (seed : Lanes) : Machine Flt n :=
  let program := p.generateProgram seed
  let a := p.initialize_a program
  let x := p.execute program a m.flt m.scratchpad
  { scratchpad := x.2.2.2.2
    reg := { r := x.1, f := x.2.1, e := x.2.2.1, a := a }
    flt := x.2.2.2.1 }

/-- mirrors src/crypto/randomx/virtual_machine.cpp:110-113 -/
def getFinalResult (m : Machine Flt n) : Machine Flt n × Bytes :=
  let reg := { m.reg with a := hashAes1Rx4 p.aes m.scratchpad (ScratchpadSize n) }
  ({ m with reg := reg }, p.blake2b_32 reg.bytes)

/-- The version of the template that the machine calls. -/
def version : Int × Int := if c.softAes then c.softAESImpl else (0, 2)

/-- The machine, `fill_state` and the output after.
mirrors src/crypto/randomx/virtual_machine.cpp:115-124 -/
def hashAndFill (m : Machine Flt n) (fill_state : Lanes) : Machine Flt n × Lanes × Bytes :=
  let s := hashAndFillAes1Rx4 p.aes c.ARCH_ZEN5 (version c).1 (version c).2 m.scratchpad
    (ScratchpadSize n) fill_state
  let reg := { m.reg with a := s.1 }
  ({ m with reg := reg, scratchpad := s.2.2 }, s.2.1, p.blake2b_32 reg.bytes)

/-- `for (chain = 0; chain < ProgramCount - 1; ++chain)`, so many times. -/
def chains : Nat → Machine Flt n × Lanes → Machine Flt n × Lanes
  | 0, s => s
  | k + 1, s =>
    let m := run p s.1 s.2
    chains k (m, p.blake2b_64 m.reg.bytes)

/-- The programs of a hash; the last one's registers are not hashed to a seed. -/
def programs (m : Machine Flt n) (tempHash : Lanes) : Machine Flt n :=
  let s := chains p (c.ProgramCount - 1).toNat (m, tempHash)
  run p s.1 s.2

/-- mirrors src/crypto/randomx/randomx.cpp:597-611 -/
def randomx_calculate_hash (m : Machine Flt n) (input : Bytes) : Machine Flt n × Bytes :=
  let s := initScratchpad p m (p.blake2b_64 input)
  let m := resetRoundingMode p s.1
  getFinalResult p (programs p c m s.2)

/-- The machine and `tempHash` after.
mirrors src/crypto/randomx/randomx.cpp:613-616 -/
def randomx_calculate_hash_first (m : Machine Flt n) (input : Bytes) : Machine Flt n × Lanes :=
  initScratchpad p m (p.blake2b_64 input)

/-- The machine, `tempHash` and the output after.
mirrors src/crypto/randomx/randomx.cpp:618-632 -/
def randomx_calculate_hash_next (m : Machine Flt n) (tempHash : Lanes) (nextInput : Bytes) :
    Machine Flt n × Lanes × Bytes :=
  let m := programs p c (resetRoundingMode p m) tempHash
  hashAndFill p c m (p.blake2b_64 nextInput)

/-- The outputs of the calls of `randomx_calculate_hash_next` on these inputs. -/
def nexts : Machine Flt n → Lanes → List Bytes → List Bytes
  | _, _, [] => []
  | m, tempHash, x :: xs =>
    let s := randomx_calculate_hash_next p c m tempHash x
    s.2.2 :: nexts s.1 s.2.1 xs

/-- What the calls on a list of inputs give out: the first call nothing. -/
def pipelined (m : Machine Flt n) : List Bytes → List Bytes
  | [] => []
  | x :: xs =>
    let s := randomx_calculate_hash_first p m x
    nexts p c s.1 s.2 xs

/-! ## One call -/

/-- The scratchpad is filled for the input, and `tempHash` is the state after. -/
def Ready (m : Machine Flt n) (tempHash : Lanes) (input : Bytes) : Prop :=
  ∀ pad, fillAes1Rx4 p.aes (p.blake2b_64 input) (ScratchpadSize n) pad = (tempHash, m.scratchpad)

theorem ready_first (h : 64 ∣ ScratchpadSize n) (m : Machine Flt n) (input : Bytes) :
    Ready p (randomx_calculate_hash_first p m input).1 (randomx_calculate_hash_first p m input).2
      input :=
  fun pad => fill_eq_fill p.aes (p.blake2b_64 input) h pad m.scratchpad

/-- A program's effect does not depend on the registers before. -/
theorem programs_congr {m m' : Machine Flt n} (hpad : m.scratchpad = m'.scratchpad)
    (hflt : m.flt = m'.flt) (tempHash : Lanes) :
    programs p c m tempHash = programs p c m' tempHash := by
  have hrun : ∀ seed, run p m seed = run p m' seed := by
    intro seed
    simp only [run, hpad, hflt]
  unfold programs
  cases (c.ProgramCount - 1).toNat with
  | zero => simp only [chains, hrun]
  | succ k => simp only [chains, hrun]

theorem next_eq (h : blockSize c.ARCH_ZEN5 (version c).1 (version c).2 ∣ ScratchpadSize n)
    (h64 : 64 ∣ ScratchpadSize n) {m : Machine Flt n} {tempHash : Lanes} {input : Bytes}
    (hm : Ready p m tempHash input) (m' : Machine Flt n) (nextInput : Bytes) :
    (randomx_calculate_hash_next p c m tempHash nextInput).2.2 =
        (randomx_calculate_hash p c m' input).2 ∧
      Ready p (randomx_calculate_hash_next p c m tempHash nextInput).1
        (randomx_calculate_hash_next p c m tempHash nextInput).2.1 nextInput := by
  have hplain := hm m'.scratchpad
  have hprograms : programs p c (resetRoundingMode p (initScratchpad p m'
      (p.blake2b_64 input)).1) (initScratchpad p m' (p.blake2b_64 input)).2 =
      programs p c (resetRoundingMode p m) tempHash := by
    simp only [initScratchpad, hplain]
    apply programs_congr
    · rfl
    · rfl
  constructor
  · simp only [randomx_calculate_hash_next, randomx_calculate_hash, hashAndFill, getFinalResult,
      hprograms, hashAndFillAes1Rx4_eq p.aes _ h]
  · intro pad
    simp only [randomx_calculate_hash_next, hashAndFill, hashAndFillAes1Rx4_eq p.aes _ h]
    exact fill_eq_fill p.aes _ h64 pad _

/-! ## All calls -/

theorem nexts_eq (h : blockSize c.ARCH_ZEN5 (version c).1 (version c).2 ∣ ScratchpadSize n)
    (h64 : 64 ∣ ScratchpadSize n) {m : Machine Flt n} {tempHash : Lanes} {input : Bytes}
    (hm : Ready p m tempHash input) (fresh : Bytes → Machine Flt n) (xs : List Bytes) :
    nexts p c m tempHash xs =
      (input :: xs).dropLast.map fun x => (randomx_calculate_hash p c (fresh x) x).2 := by
  induction xs generalizing m tempHash input with
  | nil => rfl
  | cons x xs ih =>
    obtain ⟨hout, hready⟩ := next_eq p c h h64 hm (fresh input) x
    simp only [nexts, List.dropLast_cons_cons, List.map_cons, hout, ih hready]

theorem blockSize_dvd {z : Bool} {softAes unroll : Int} {size : Nat}
    (h : blockSize z softAes unroll ∣ size) : 64 ∣ size := by
  refine Nat.dvd_trans ?_ h
  cases z with
  | true => exact Nat.dvd_refl 64
  | false => exact Nat.dvd_mul_right 64 _

/-- **The pipeline gives the plain hashes.** `fresh` is any machine of this configuration for
each of the plain calls. -/
theorem pipelined_eq_plain
    (h : blockSize c.ARCH_ZEN5 (version c).1 (version c).2 ∣ ScratchpadSize n) :
    (∀ (m : Machine Flt n) (fresh : Bytes → Machine Flt n) (xs : List Bytes),
      pipelined p c m xs =
        xs.dropLast.map fun x => (randomx_calculate_hash p c (fresh x) x).2) ∧
    ∀ (zen5 : Bool) (softAes unroll : Int) {k : Nat} (pad : Vector V k) (size : Nat)
      (fill_state : Lanes), blockSize zen5 softAes unroll ∣ size →
      hashAndFillAes1Rx4 p.aes zen5 softAes unroll pad size fill_state =
        (hashAes1Rx4 p.aes pad size, fillAes1Rx4 p.aes fill_state size pad) := by
  have h64 := blockSize_dvd h
  refine ⟨?_, ?_⟩
  · intro m fresh xs
    cases xs with
    | nil => rfl
    | cons x xs => exact nexts_eq p c h h64 (ready_first p h64 m x) fresh xs
  · intro zen5 softAes unroll k pad size fill_state hsize
    exact hashAndFillAes1Rx4_eq p.aes pad hsize fill_state

/-- A machine with two megabytes; the rounds are `xor`, a program is its seed. -/
def xored : Primitives Lanes Unit 131072 where
  aes := ⟨fun a b => a ^^^ b, fun a b => a ^^^ b⟩
  blake2b_64 input := ⟨(input.length : V), 1, 2, 3⟩
  blake2b_32 := id
  rx_reset_float_state := ()
  generateProgram := id
  initialize_a := id
  execute program a _ pad := (program, a, program, (), pad.setIfInBounds 5 a.s0)

theorem pipelined_xored :
    pipelined xored ⟨false, false, (1, 1), 8⟩
        ⟨Vector.replicate 131072 0, ⟨⟨0, 0, 0, 0⟩, ⟨0, 0, 0, 0⟩, ⟨0, 0, 0, 0⟩, ⟨0, 0, 0, 0⟩⟩, ()⟩
        [[], [1]] =
      [(randomx_calculate_hash xored ⟨false, false, (1, 1), 8⟩
        ⟨Vector.replicate 131072 7, ⟨⟨0, 0, 0, 0⟩, ⟨0, 0, 0, 0⟩, ⟨0, 0, 0, 0⟩, ⟨0, 0, 0, 0⟩⟩, ()⟩
        []).2] :=
  (pipelined_eq_plain xored ⟨false, false, (1, 1), 8⟩ (by decide)).1 _ (fun _ => _) [[], [1]]

end Rxs.L2.Pipeline
