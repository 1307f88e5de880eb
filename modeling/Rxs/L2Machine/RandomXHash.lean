import Rxs.L1Encoding.Blake2bAvx2
import Rxs.L2Machine.LightVm
import Rxs.L2Machine.SoftAes

/-!
# The hash of RandomX

The whole of `randomx_calculate_hash` with the interpreted machine: the rounds of AES in hardware
or in software, three hashes for BLAKE2b, a dataset that threads have written or a cache from
which each item is computed, and the calls that a worker makes instead, which hash a scratchpad
and fill it for the next input in one pass.

* `calculate_hash_eq`: a hash depends on the input only.
* `next_eq`: a worker's call, and what it leaves for the next one.
* **`builds_agree`**: every build and every mode gives the same hashes.
-/
namespace Rxs.L2.RandomXHash

open Rxs.Core Rxs.Core.Bytes
open Rxs.RandomX Rxs.RandomX.InterpretedVm
open Rxs.L2.AesHash (Aes Lanes fillAes1Rx4 hashAes1Rx4 hashAndFillAes1Rx4 rx_set_int_vec_i128
  hashAndFillAes1Rx4_eq fill_eq_fill blockSize unrolled)
open Rxs.L2.SoftAes (Tables SAESInitializer hardAes)
open Rxs.L2.LightVm (Cache Write initWrites init_writes execute_eq)
open Rxs.L2.DatasetInit (Produced)
open Rxs.L2.DatasetSlices (Host)
open Rxs.L1.Blake2b (rx_blake2b rx_blake2b_compress_eq default_digest avx2_digest)

/-! ## What a build and a coin set -/

/-- What a build, the processor and the start of the program choose. -/
structure Build where
  sse41 : Bool
  avx2 : Bool
  ARCH_ZEN5 : Bool
  softAes : Bool
  softAESImpl : Fin 4
  tables : Tables
  initialized : SAESInitializer 255 = some tables

/-- mirrors src/crypto/randomx/aes_hash.cpp:463-468 -/
def impl : Fin 4 → Nat × Nat := ![(1, 1), (2, 1), (2, 2), (2, 4)]

namespace Build

/-- `aesenc<softAes>` and `aesdec<softAes>`.
mirrors src/crypto/randomx/soft_aes.h:45-138 -/
def aes (b : Build) (softAes : Nat) : Aes :=
  if softAes = 0 then hardAes else SoftAes.softAes b.tables softAes

/-- The machine is `VmBase<softAes>`. -/
def vm (b : Build) : Aes := b.aes (if b.softAes then 1 else 0)

/-- The template of the pass that does both: its rounds and the lines of its loop.
mirrors src/crypto/randomx/virtual_machine.cpp:116-121 -/
def version (b : Build) : Nat × Nat := if b.softAes then impl b.softAESImpl else (0, 2)

end Build

/-- `RandomX_CurrentConfig`, and what the float unit does. -/
structure Coin (V : Type) where
  config : Supported
  ProgramIterations : Nat
  ProgramCount : BitVec 32
  fillAes4Rx4_Key : Fin 8 → AesHash.V
  v : VectorOps V

variable {V : Type}

namespace Coin

/-- The vectors of a scratchpad. -/
def vectors (coin : Coin V) : Nat := coin.config.1.ScratchpadL3_Size.toNat / 16

def ScratchpadSize (coin : Coin V) : Nat := 16 * coin.vectors

/-- Each coin's scratchpad has whole blocks of four lines. -/
theorem blocks_dvd (coin : Coin V) : 256 ∣ coin.ScratchpadSize := by
  have hall : ∀ c ∈ Configuration.repository, 256 ∣ 16 * (c.ScratchpadL3_Size.toNat / 16) := by
    decide
  exact hall coin.config.1 coin.config.2

end Coin

/-- Where the items of the dataset come from: `InterpretedVm` reads them, `InterpretedLightVm`
computes them. -/
inductive Mode where
  | full (dataset : Memory)
  | light (cache : Cache)

/-! ## Words of registers -/

/-- The words of the four groups; a float register has two.
mirrors src/crypto/randomx/common.hpp:160-166 -/
structure RegisterFile where
  r : Fin 8 → BitVec 64
  f : Fin 8 → BitVec 64
  e : Fin 8 → BitVec 64
  a : Fin 8 → BitVec 64

def wordsOf (l : Lanes) : Fin 8 → BitVec 64 :=
  ![l.s0.extractLsb' 0 64, l.s0.extractLsb' 64 64, l.s1.extractLsb' 0 64, l.s1.extractLsb' 64 64,
    l.s2.extractLsb' 0 64, l.s2.extractLsb' 64 64, l.s3.extractLsb' 0 64, l.s3.extractLsb' 64 64]

def lanesOf (w : Fin 8 → BitVec 64) : Lanes :=
  ⟨w 1 ++ w 0, w 3 ++ w 2, w 5 ++ w 4, w 7 ++ w 6⟩

/-- The 256 bytes. -/
def RegisterFile.bytes (reg : RegisterFile) : Bytes :=
  [reg.r, reg.f, reg.e, reg.a].flatMap fun g =>
    (List.finRange 8).flatMap fun i => le 8 (g i).toNat

/-- `tempHash`, as the passes of AES read it. -/
def seedOf (digest : Bytes) : Lanes :=
  lanesOf fun i => BitVec.ofNat 64 (readLE (slice digest (8 * i.val) 8))

/-- The values of four float registers. -/
def floatWords (v : VectorOps V) (x : Fin 4 → V) : Fin 8 → BitVec 64 :=
  ![v.lo (x 0), v.hi (x 0), v.lo (x 1), v.hi (x 1), v.lo (x 2), v.hi (x 2), v.lo (x 3), v.hi (x 3)]

/-- The scratchpad's bytes, and its vectors. -/
def memoryOf {n : Nat} (pad : Vector AesHash.V n) : Memory := fun a =>
  (pad[a / 16]?.getD 0).extractLsb' (8 * (a % 16)) 8

def vectorsOf (n : Nat) (m : Memory) : Vector AesHash.V n :=
  Vector.ofFn fun i => load64 m (16 * i.val + 8) ++ load64 m (16 * i.val)

/-! ## The program -/

/-- A round for each lane. -/
def round (aes : Aes) (key key' : AesHash.V) (s : Lanes) : Lanes :=
  ⟨aes.aesdec s.s0 key, aes.aesenc s.s1 key, aes.aesdec s.s2 key', aes.aesenc s.s3 key'⟩

/-- mirrors src/crypto/randomx/aes_hash.cpp:241-258 -/
def TRANSFORM (aes : Aes) (key : Fin 8 → AesHash.V) (s : Lanes) : Lanes :=
  let s := round aes (key 0) (key 4) s
  let s := round aes (key 1) (key 5) s
  let s := round aes (key 2) (key 6) s
  round aes (key 3) (key 7) s

/-- The state and the lines of so many turns of a loop; `mask` is what is stored of the state. -/
def transforms (transform mask : Lanes → Lanes) : Nat → Lanes → Lanes × List Lanes
  | 0, s => (s, [])
  | k + 1, s =>
    let s := transform s
    let p := transforms transform mask k s
    (p.1, mask s :: p.2)

/-- Registers have three bits. -/
def inst_mask : AesHash.V := rx_set_int_vec_i128 0xffffffff 0xff0707ff 0xffffffff 0xff0707ff

/-- The lines of the buffer.
mirrors src/crypto/randomx/aes_hash.cpp:207-283 -/
def fillAes4Rx4 (aes : Aes) (key : Fin 8 → AesHash.V) (state : Lanes) (outputSize : Nat) :
    List Lanes :=
  let entropy := transforms (TRANSFORM aes key) id 2 state
  let masked := fun s : Lanes => ⟨s.s0 &&& inst_mask, s.s1 &&& inst_mask, s.s2 &&& inst_mask,
    s.s3 &&& inst_mask⟩
  entropy.2 ++
    (transforms (TRANSFORM aes key) masked ((outputSize - 128 + 63) / 64) entropy.1).2

/-- An instruction has eight bytes.
mirrors src/crypto/randomx/instruction.hpp:94-100 -/
def instruction (w : BitVec 64) : Instruction where
  opcode := w.extractLsb' 0 8
  dst := w.extractLsb' 8 8
  src := w.extractLsb' 16 8
  mod := w.extractLsb' 24 8
  imm32 := w.extractLsb' 32 32

/-- The entropy and the instructions.
mirrors src/crypto/randomx/virtual_machine.cpp:136-140 -/
def generateProgram (coin : Coin V) (b : Build) (seed : Lanes) :
    (Fin 16 → BitVec 64) × List Instruction :=
  let ws := (fillAes4Rx4 b.vm coin.fillAes4Rx4_Key seed (128 + coin.config.1.ProgramSize * 8)).flatMap
    fun l => List.ofFn (wordsOf l)
  (fun i => ws.getD i.val 0, ((ws.drop 16).take coin.config.1.ProgramSize).map instruction)

/-! ## The machine -/

structure Machine (coin : Coin V) where
  scratchpad : Vector AesHash.V coin.vectors
  reg : RegisterFile
  mode : BitVec 2

section

variable (coin : Coin V) (b : Build) (mode : Mode) (fuel : Nat)

def execute (program : List Instruction) (vm : InterpretedVm.Vm V) (nreg : Native V) :
    InterpretedVm.Run (State V) :=
  match mode with
  | .full dataset => InterpretedVm.execute coin.config.1 coin.v dataset program vm nreg
      coin.ProgramIterations fuel
  | .light cache => LightVm.execute coin.config.1 coin.v cache program vm nreg
      coin.ProgramIterations fuel

/-- The digest's bytes; the code that it returns is not looked at. -/
def blake2b (outlen : Nat) (m : Bytes) : Bytes := (rx_blake2b b.sse41 b.avx2 outlen m).getD []

/-- `f` and `e` have no values before the first iteration writes them.
mirrors src/crypto/randomx/vm_interpreted.cpp:43-111 -/
def run (m : Machine coin) (seed : Lanes) : InterpretedVm.Run (Machine coin) := do
  let program := generateProgram coin b seed
  let vm := initializeVm coin.v program.1
  let none := fun _ => coin.v.load 0 0
  let st ← execute coin mode fuel program.2 vm
    ⟨fun _ => 0, none, none, vm.a, memoryOf m.scratchpad, m.mode⟩
  return {
    scratchpad := vectorsOf coin.vectors st.nreg.scratchpad
    reg :=
      { r := st.nreg.r
        f := floatWords coin.v st.nreg.f
        e := floatWords coin.v st.nreg.e
        a := fun i => getSmallPositiveFloatBits (program.1 (Fin.castAdd 8 i)) }
    mode := st.nreg.mode }

/-- The machine, and the state after, which is written back to `tempHash`.
mirrors src/crypto/randomx/virtual_machine.cpp:127-129 -/
def initScratchpad (m : Machine coin) (seed : Lanes) : Machine coin × Lanes :=
  let s := fillAes1Rx4 b.vm seed coin.ScratchpadSize m.scratchpad
  ({ m with scratchpad := s.2 }, s.1)

/-- `rx_reset_float_state` -/
def resetRoundingMode (m : Machine coin) : Machine coin := { m with mode := 0 }

/-- mirrors src/crypto/randomx/virtual_machine.cpp:110-113 -/
def getFinalResult (m : Machine coin) : Machine coin × Bytes :=
  let reg := { m.reg with a := wordsOf (hashAes1Rx4 b.vm m.scratchpad coin.ScratchpadSize) }
  ({ m with reg := reg }, blake2b b 32 reg.bytes)

/-- The machine, `fill_state` and the output after.
mirrors src/crypto/randomx/virtual_machine.cpp:115-124 -/
def hashAndFill (m : Machine coin) (fill_state : Lanes) : Machine coin × Lanes × Bytes :=
  let s := hashAndFillAes1Rx4 (b.aes b.version.1) b.ARCH_ZEN5 b.version.1 b.version.2 m.scratchpad
    coin.ScratchpadSize fill_state
  let reg := { m.reg with a := wordsOf s.1 }
  ({ m with reg := reg, scratchpad := s.2.2 }, s.2.1, blake2b b 32 reg.bytes)

/-- `for (chain = 0; chain < ProgramCount - 1; ++chain)`, so many times. -/
def chains : Nat → Machine coin → Lanes → InterpretedVm.Run (Machine coin × Lanes)
  | 0, m, tempHash => .ok (m, tempHash)
  | k + 1, m, tempHash => do
    let m ← run coin b mode fuel m tempHash
    chains k m (seedOf (blake2b b 64 m.reg.bytes))

/-- The programs of a hash. -/
def programs (m : Machine coin) (tempHash : Lanes) : InterpretedVm.Run (Machine coin) := do
  let s ← chains coin b mode fuel (coin.ProgramCount - 1).toNat m tempHash
  run coin b mode fuel s.1 s.2

/-- mirrors src/crypto/randomx/randomx.cpp:597-611 -/
def randomx_calculate_hash (m : Machine coin) (input : Bytes) :
    InterpretedVm.Run (Machine coin × Bytes) := do
  let s := initScratchpad coin b m (seedOf (blake2b b 64 input))
  let m ← programs coin b mode fuel (resetRoundingMode coin s.1) s.2
  return getFinalResult coin b m

/-- The machine and `tempHash` after.
mirrors src/crypto/randomx/randomx.cpp:613-616 -/
def randomx_calculate_hash_first (m : Machine coin) (input : Bytes) : Machine coin × Lanes :=
  initScratchpad coin b m (seedOf (blake2b b 64 input))

/-- The machine, `tempHash` and the output after.
mirrors src/crypto/randomx/randomx.cpp:618-632 -/
def randomx_calculate_hash_next (m : Machine coin) (tempHash : Lanes) (nextInput : Bytes) :
    InterpretedVm.Run (Machine coin × Lanes × Bytes) := do
  let m ← programs coin b mode fuel (resetRoundingMode coin m) tempHash
  return hashAndFill coin b m (seedOf (blake2b b 64 nextInput))

/-- The outputs of the calls of `randomx_calculate_hash_next` on these inputs. -/
def nexts : Machine coin → Lanes → List Bytes → InterpretedVm.Run (List Bytes)
  | _, _, [] => .ok []
  | m, tempHash, x :: xs => do
    let s ← randomx_calculate_hash_next coin b mode fuel m tempHash x
    let outs ← nexts s.1 s.2.1 xs
    return s.2.2 :: outs

/-- What a worker's calls on a list of inputs give out: the first call nothing. -/
def pipelined (m : Machine coin) : List Bytes → InterpretedVm.Run (List Bytes)
  | [] => .ok []
  | x :: xs =>
    let s := randomx_calculate_hash_first coin b m x
    nexts coin b mode fuel s.1 s.2 xs

end

/-! ## The parts that a build chooses -/

theorem aes_eq (b : Build) (softAes : Nat) : b.aes softAes = hardAes := by
  rw [Build.aes]
  split
  · rfl
  · exact SoftAes.softAes_eq b.initialized (Nat.le_refl 255) softAes

theorem vm_eq (b : Build) : b.vm = hardAes := aes_eq b _

theorem blake2b_eq (b : Build) {nn : Nat} (hnn : 0 < nn ∧ nn ≤ 64) {m : Bytes}
    (hm : m.length < 2 ^ 64) : blake2b b nn m = Blake2b.blake2b nn m := by
  rw [blake2b, rx_blake2b]
  split
  · exact avx2_digest hnn.2 hm
  · rw [default_digest (rx_blake2b_compress_eq b.sse41) hnn]
    rfl

theorem length_bytes (reg : RegisterFile) : reg.bytes.length = 256 := by
  simp [RegisterFile.bytes, List.finRange_succ]

theorem blake2b_bytes (b : Build) {nn : Nat} (hnn : 0 < nn ∧ nn ≤ 64) (reg : RegisterFile) :
    blake2b b nn reg.bytes = Blake2b.blake2b nn reg.bytes :=
  blake2b_eq b hnn (by rw [length_bytes]; decide)

theorem blockSize_dvd (coin : Coin V) (b : Build) :
    blockSize b.ARCH_ZEN5 b.version.1 b.version.2 ∣ coin.ScratchpadSize := by
  have hunrolled (x y : Int) : 64 * unrolled x y ∣ 256 := by
    unfold unrolled
    split
    · decide
    · split
      · decide
      · split <;> decide
  refine Nat.dvd_trans ?_ coin.blocks_dvd
  unfold blockSize
  split
  · decide
  · exact hunrolled _ _

section

variable (coin : Coin V) (b b' : Build) {mode mode' : Mode} {fuel : Nat}

theorem generateProgram_eq (seed : Lanes) :
    generateProgram coin b seed = generateProgram coin b' seed := by
  simp only [generateProgram, vm_eq]

/-- Both modes run every program in the same way. -/
def Same (mode mode' : Mode) (fuel : Nat) : Prop := ∀ program entropy nreg,
  execute coin mode fuel program (initializeVm coin.v entropy) nreg =
    execute coin mode' fuel program (initializeVm coin.v entropy) nreg

variable {coin}

/-- A program reads the scratchpad and the rounding mode. -/
theorem run_eq (h : Same coin mode mode' fuel) {m m' : Machine coin}
    (hpad : m.scratchpad = m'.scratchpad) (hmode : m.mode = m'.mode) (seed : Lanes) :
    run coin b mode fuel m seed = run coin b' mode' fuel m' seed := by
  simp only [run, generateProgram_eq coin b b', hpad, hmode]
  rw [h]

theorem chains_eq (h : Same coin mode mode' fuel) (k : Nat) (m : Machine coin) (tempHash : Lanes) :
    chains coin b mode fuel k m tempHash = chains coin b' mode' fuel k m tempHash := by
  induction k generalizing m tempHash with
  | zero => rfl
  | succ k ih =>
    rw [chains, chains, run_eq b b' h rfl rfl]
    simp only [blake2b_bytes _ (show 0 < 64 ∧ 64 ≤ 64 by decide), ih]

theorem programs_eq (h : Same coin mode mode' fuel) {m m' : Machine coin}
    (hpad : m.scratchpad = m'.scratchpad) (tempHash : Lanes) :
    programs coin b mode fuel (resetRoundingMode coin m) tempHash =
      programs coin b' mode' fuel (resetRoundingMode coin m') tempHash := by
  have hpad' : (resetRoundingMode coin m).scratchpad = (resetRoundingMode coin m').scratchpad :=
    hpad
  have hmode : (resetRoundingMode coin m).mode = (resetRoundingMode coin m').mode := rfl
  have hrun := run_eq b b' h hpad' hmode
  unfold programs
  cases (coin.ProgramCount - 1).toNat with
  | zero => simp only [chains]; exact hrun tempHash
  | succ k =>
    simp only [chains, hrun, blake2b_bytes _ (show 0 < 64 ∧ 64 ≤ 64 by decide),
      chains_eq b b' h, run_eq b b' h rfl rfl]

theorem getFinalResult_eq (m : Machine coin) :
    getFinalResult coin b m = getFinalResult coin b' m := by
  simp only [getFinalResult, vm_eq, blake2b_bytes _ (show 0 < 32 ∧ 32 ≤ 64 by decide)]

/-! ## One hash -/

/-- The scratchpad is filled for the input, and `tempHash` is the state after. -/
def Ready (m : Machine coin) (tempHash : Lanes) (input : Bytes) : Prop :=
  ∀ pad, fillAes1Rx4 hardAes (seedOf (Blake2b.blake2b 64 input)) coin.ScratchpadSize pad =
    (tempHash, m.scratchpad)

theorem ready_init (m : Machine coin) {input : Bytes} (hinput : input.length < 2 ^ 64) :
    Ready (initScratchpad coin b m (seedOf (blake2b b 64 input))).1
      (initScratchpad coin b m (seedOf (blake2b b 64 input))).2 input := by
  intro pad
  simp only [initScratchpad, vm_eq, blake2b_eq b (show 0 < 64 ∧ 64 ≤ 64 by decide) hinput]
  exact fill_eq_fill hardAes _ (Nat.dvd_trans (by decide) coin.blocks_dvd) _ _

/-- What a hash is of a machine that is ready for the input. -/
theorem calculate_hash_ready (h : Same coin mode mode' fuel) {m : Machine coin} {tempHash : Lanes}
    {input : Bytes} (hm : Ready m tempHash input) (m' : Machine coin)
    (hinput : input.length < 2 ^ 64) :
    randomx_calculate_hash coin b' mode' fuel m' input = (do
      let m ← programs coin b mode fuel (resetRoundingMode coin m) tempHash
      return getFinalResult coin b m) := by
  have hplain := hm m'.scratchpad
  have hready := ready_init b' m' hinput m'.scratchpad
  rw [hplain] at hready
  obtain ⟨hstate, hpad⟩ := Prod.mk.inj hready
  have hprograms := programs_eq b b' h hpad tempHash
  rw [randomx_calculate_hash, ← hstate]
  simp only [← hprograms, getFinalResult_eq b b']

/-- **A hash depends on the input**, not on the machine, the build or the mode. -/
theorem calculate_hash_eq (h : Same coin mode mode' fuel) (m m' : Machine coin) {input : Bytes}
    (hinput : input.length < 2 ^ 64) :
    randomx_calculate_hash coin b mode fuel m input =
      randomx_calculate_hash coin b' mode' fuel m' input := by
  rw [calculate_hash_ready b b' h (ready_init b m hinput) m' hinput]
  rfl

/-! ## A worker's calls -/

theorem hashAndFill_eq (m : Machine coin) {nextInput : Bytes}
    (hnext : nextInput.length < 2 ^ 64) :
    let s := hashAndFill coin b m (seedOf (blake2b b 64 nextInput))
    s.2.2 = (getFinalResult coin b m).2 ∧ Ready s.1 s.2.1 nextInput := by
  have hpass := hashAndFillAes1Rx4_eq hardAes m.scratchpad (blockSize_dvd coin b)
    (seedOf (Blake2b.blake2b 64 nextInput))
  constructor
  · simp only [hashAndFill, getFinalResult, aes_eq, vm_eq, hpass,
      blake2b_eq b (show 0 < 64 ∧ 64 ≤ 64 by decide) hnext]
  · intro pad
    simp only [hashAndFill, aes_eq, hpass, blake2b_eq b (show 0 < 64 ∧ 64 ≤ 64 by decide) hnext]
    exact fill_eq_fill hardAes _ (Nat.dvd_trans (by decide) coin.blocks_dvd) _ _

/-- A call on a machine that is ready gives that input's hash, and then the machine is ready for
the next input. -/
theorem next_eq (h : Same coin mode mode' fuel) {m : Machine coin} {tempHash : Lanes}
    {input nextInput : Bytes} (hm : Ready m tempHash input) (hinput : input.length < 2 ^ 64)
    (hnext : nextInput.length < 2 ^ 64) (m' : Machine coin) :
    (∃ e, randomx_calculate_hash_next coin b mode fuel m tempHash nextInput = .error e ∧
      randomx_calculate_hash coin b' mode' fuel m' input = .error e) ∨
    ∃ s m'', randomx_calculate_hash_next coin b mode fuel m tempHash nextInput = .ok s ∧
      randomx_calculate_hash coin b' mode' fuel m' input = .ok (m'', s.2.2) ∧
      Ready s.1 s.2.1 nextInput := by
  rw [calculate_hash_ready b b' h hm m' hinput, randomx_calculate_hash_next]
  cases programs coin b mode fuel (resetRoundingMode coin m) tempHash with
  | error e => exact .inl ⟨e, rfl, rfl⟩
  | ok m₁ =>
    obtain ⟨hout, hready⟩ := hashAndFill_eq b m₁ hnext
    refine .inr ⟨_, (getFinalResult coin b m₁).1, rfl, ?_, hready⟩
    rw [hout]
    rfl

theorem nexts_eq (h : Same coin mode mode' fuel) {m : Machine coin} {tempHash : Lanes}
    {input : Bytes} (hm : Ready m tempHash input) (fresh : Bytes → Machine coin) (xs : List Bytes)
    (hxs : ∀ x ∈ input :: xs, x.length < 2 ^ 64) :
    nexts coin b mode fuel m tempHash xs =
      (input :: xs).dropLast.mapM fun x =>
        Prod.snd <$> randomx_calculate_hash coin b' mode' fuel (fresh x) x := by
  induction xs generalizing m tempHash input with
  | nil => rfl
  | cons x xs ih =>
    have hrest : ∀ y ∈ x :: xs, y.length < 2 ^ 64 := fun y hy => hxs y (List.mem_cons_of_mem _ hy)
    have hone := next_eq b b' h hm (hxs input List.mem_cons_self)
      (hrest x List.mem_cons_self) (fresh input)
    rw [nexts, List.dropLast_cons_cons, List.mapM_cons]
    rcases hone with ⟨e, hnext, hhash⟩ | ⟨s, m'', hnext, hhash, hready⟩
    · rw [hnext, hhash]
      rfl
    · rw [hnext, hhash, ← ih hready hrest]
      rfl

end

/-- **Every build and every mode gives the same hashes**: with the dataset that any number of
threads have written in any order, or with the cache only; and a worker's calls give the hashes
of its inputs. -/
theorem builds_agree (coin : Coin V) (cache : Cache) (hprograms : ∀ j, Produced (cache.programs j))
    (host : Host) (numThreads : UInt32) : ∃ ws, initWrites cache host numThreads = some ws ∧
      ∀ order : List Write, order.Perm ws → ∀ (memory : Memory) (fuel : Nat) (b b' : Build),
        ∀ mode ∈ [Mode.light cache, .full (order.foldl Write.apply memory)],
        ∀ mode' ∈ [Mode.light cache, .full (order.foldl Write.apply memory)],
          (∀ m m' (input : Bytes), input.length < 2 ^ 64 →
            randomx_calculate_hash coin b mode fuel m input =
              randomx_calculate_hash coin b' mode' fuel m' input) ∧
          ∀ m (fresh : Bytes → Machine coin) (inputs : List Bytes),
            (∀ x ∈ inputs, x.length < 2 ^ 64) →
            pipelined coin b mode fuel m inputs = inputs.dropLast.mapM fun x =>
              Prod.snd <$> randomx_calculate_hash coin b' mode' fuel (fresh x) x := by
  obtain ⟨ws, hws, hall⟩ := init_writes hprograms host numThreads
  refine ⟨ws, hws, fun order horder memory fuel b b' mode hmode mode' hmode' => ?_⟩
  have hlight : ∀ mode ∈ [Mode.light cache, .full (order.foldl Write.apply memory)],
      Same coin mode (.light cache) fuel := by
    intro mode hmode program entropy nreg
    rcases List.mem_cons.mp hmode with rfl | hmode
    · rfl
    · obtain rfl := List.mem_singleton.mp hmode
      exact execute_eq hprograms hall horder memory coin.config.1 coin.v program entropy nreg _ fuel
  have hsame : Same coin mode mode' fuel := fun program entropy nreg =>
    (hlight mode hmode program entropy nreg).trans (hlight mode' hmode' program entropy nreg).symm
  refine ⟨fun m m' input hinput => calculate_hash_eq b b' hsame m m' hinput, ?_⟩
  intro m fresh inputs hinputs
  cases inputs with
  | nil => rfl
  | cons x xs =>
    exact nexts_eq b b' hsame (ready_init b m (hinputs x List.mem_cons_self)) fresh xs hinputs

/-- One program of one iteration, with float registers that have one value. -/
def unitCoin : Coin Unit where
  config := ⟨Configuration.base, List.mem_cons_self⟩
  ProgramIterations := 1
  ProgramCount := 1
  fillAes4Rx4_Key _ := 0
  v :=
    { ops := fun _ => ⟨fun _ _ _ => (), fun _ _ _ => (), fun _ _ _ => (), fun _ _ _ => (),
        fun _ _ => (), id, id, fun _ => (), id⟩
      load := fun _ _ => ()
      lo := fun _ => 0
      hi := fun _ => 0
      xor := fun _ _ => () }

theorem builds_agree_unit : ∃ programs tables initialized ws,
    initWrites ⟨fun _ => 0, 0, programs⟩ ⟨true, false⟩ 16 = some ws ∧
      ∀ memory fuel m m',
        randomx_calculate_hash unitCoin ⟨true, true, true, false, 0, tables, initialized⟩
            (.light ⟨fun _ => 0, 0, programs⟩) fuel m [1, 2, 3] =
          randomx_calculate_hash unitCoin ⟨false, false, false, true, 3, tables, initialized⟩
            (.full (ws.reverse.foldl Write.apply memory)) fuel m' [1, 2, 3] := by
  obtain ⟨prog, hprog⟩ := LightVm.exists_produced
  obtain ⟨t, ht, -⟩ := SoftAes.initializer_correct (Nat.le_refl 255)
  obtain ⟨ws, hws, hall⟩ := builds_agree unitCoin ⟨fun _ => 0, 0, fun _ => prog⟩ (fun _ => hprog)
    ⟨true, false⟩ 16
  refine ⟨fun _ => prog, t, ht, ws, hws, fun memory fuel m m' => ?_⟩
  exact (hall ws.reverse (List.reverse_perm ws) memory fuel _ _ _ List.mem_cons_self _
    (List.mem_cons_of_mem _ List.mem_cons_self)).1 m m' [1, 2, 3] (by decide)

end Rxs.L2.RandomXHash
