import Rxs.L2Machine.Argon2Simd
import Rxs.L2Machine.RandomXHash

/-!
# The cache of a key

`initCache` fills the memory of the cache with Argon2d and draws the superscalar programs from
BLAKE2b, both from the key. The code for Argon2 and for BLAKE2b is selected at the start, and the
cache lies where there was room.

* `fillMemory_eq`: all blocks are written, and they depend on the coin and the key alone.
* `initCache_eq`: so do the programs.
* `item_eq`: the items do not depend on where the cache lies.
* **`hosts_agree`**: from a key, all hosts compute the same hashes.
-/
namespace Rxs.L2.InitCache

open Rxs.Core Rxs.Core.Bytes
open Rxs.Core.Unwritten (Cells)
open Rxs.RandomX.Superscalar
open Rxs.L1.Blake2bLong (hashed_eq long_links xmrig_ar2_blake2b_long)
open Rxs.L2.Argon2 (Block Context Segment Instance argon2_ctx_mem xmrig_ar2_validate_inputs
  valid_of_none Target Select select selected_argon_impl fill_segment_default Filled argon2
  sameSegment_64 agrees_run same_argon2 persists_argon2 passes_pos fill_block)
open Rxs.L2.DatasetInit (Produced)
open Rxs.L2.LightVm (Cache Write initWrites init_writes execute_eq)
open Rxs.L2.RandomXHash (Build Machine Mode Same randomx_calculate_hash pipelined nexts_eq
  ready_init calculate_hash_eq)

/-! ## What a coin sets -/

def ascii (s : String) : Bytes := s.toList.map fun c => UInt8.ofNat c.toNat

/-- What `initCache` reads of `RandomX_CurrentConfig`.
mirrors src/crypto/randomx/randomx.cpp:123-127 -/
structure Configuration where
  ArgonIterations : UInt32 := 3
  ArgonLanes : UInt32 := 1
  ArgonSalt : Bytes := ascii "RandomX" ++ [3]
  SuperscalarLatency : Nat := 170

namespace Configuration

/-- That of Monero, also of its second version. -/
def base : Configuration := {}

def wownero : Configuration := { ArgonSalt := ascii "RandomWOW" ++ [1] }

def arqma : Configuration := { ArgonIterations := 1, ArgonSalt := ascii "RandomARQ" ++ [1] }

def graft : Configuration := { ArgonLanes := 2, ArgonSalt := ascii "RandomX-Graft" ++ [1] }

def safex : Configuration := { ArgonSalt := ascii "RandomSFX" ++ [1] }

def yada : Configuration where
  ArgonSalt := ascii "RandomXYadaCoin" ++ [3]
  SuperscalarLatency := 150
  ArgonIterations := 4

/-- mirrors src/crypto/randomx/randomx.cpp:55-121 -/
def repository : List Configuration := [base, wownero, arqma, graft, safex, yada]

end Configuration

/-! ## What a host selects -/

/-- The implementations, and what is on the stack where a hash of Argon2 has its state. -/
structure Host where
  target : Target
  calls : List Select
  checked : ∀ call ∈ calls, call.Checked target
  sse41 : Bool
  avx2 : Bool
  stack : L1.Blake2bLong.State
  length_buf : stack.buf.length = 128

namespace Host

def fill_segment (h : Host) : Segment := (h.calls.foldl (select h.target) selected_argon_impl).fill_segment

/-- `rx_blake2b(data, 64, data, 64)`. -/
def rx_blake2b (h : Host) (data : Bytes) : Bytes :=
  (L1.Blake2b.rx_blake2b h.sse41 h.avx2 64 (data.take 64)).getD data

end Host

/-! ## The code -/

/-- mirrors src/crypto/randomx/dataset.cpp:75-94 -/
def context (c : Configuration) (key : Bytes) : Context where
  out := false
  outlen := 0
  pwd := key.take (key.length % 2 ^ 32)
  salt := c.ArgonSalt
  secret := []
  ad := []
  t_cost := c.ArgonIterations
  m_cost := UInt32.ofNat ArgonMemory
  lanes := c.ArgonLanes
  threads := 1
  version := 0x13

/-- The error that is returned is not looked at.
mirrors src/crypto/randomx/dataset.cpp:96-96 -/
def fillMemory (h : Host) (c : Configuration) (key : Bytes) (memory : Nat → Block) :
    Except Unwritten.Fault (Cells Block) :=
  match argon2_ctx_mem h.fill_segment h.stack (context c key) .d (ArgonMemory * 1024) with
  | .error _ => .ok fun i => some (memory i)
  | .ok f => (f fun i => some (memory i)).map Prod.snd

/-- mirrors src/crypto/randomx/blake2_generator.cpp:38-42 -/
def Blake2Generator.new (seed : Bytes) (nonce : BitVec 32) : Blake2Generator where
  data := writeAt (writeAt (List.replicate 64 0) 0 (seed.take 60)) 60 (le 4 nonce.toNat)
  dataIndex := 64

/-- The program, and what it leaves of the generator. -/
def generate (SuperscalarLatency : Nat) (rx_blake2b : Bytes → Bytes) (fuel : Nat)
    (gen : Blake2Generator) : Except Stuck (SuperscalarProgram × Blake2Generator) := do
  let (decodeCycles, s) ← decode SuperscalarLatency rx_blake2b fuel SuperscalarLatency 0
    { gen := gen }
  let prog ← summary decodeCycles s
  return (prog, s.gen)

/-- mirrors src/crypto/randomx/dataset.cpp:98-101 -/
def generatePrograms (SuperscalarLatency : Nat) (rx_blake2b : Bytes → Bytes) (fuel : Nat) :
    (n : Nat) → Blake2Generator → Except Stuck (Fin n → SuperscalarProgram)
  | 0, _ => .ok Fin.elim0
  | n + 1, gen => do
    let (prog, gen) ← generate SuperscalarLatency rx_blake2b fuel gen
    let programs ← generatePrograms SuperscalarLatency rx_blake2b fuel n gen
    return Fin.cons prog programs

inductive Failure where
  | memory (f : Unwritten.Fault)
  | program (s : Stuck)

/-- mirrors src/crypto/randomx/dataset.cpp:74-102 -/
def initCache (h : Host) (c : Configuration) (fuel : Nat) (key : Bytes) (memory : Nat → Block) :
    Except Failure (Cells Block × (Fin CacheAccesses → SuperscalarProgram)) := do
  let m ← (fillMemory h c key memory).mapError .memory
  let programs ← (generatePrograms c.SuperscalarLatency h.rx_blake2b fuel CacheAccesses
    (Blake2Generator.new key 0)).mapError .program
  return (m, programs)

theorem word_lt (i : Nat) : i % 1024 / 8 < 128 := by omega

/-- The cache at an address, its blocks' words as bytes. -/
def cacheAt (address : BitVec 64) (m : Cells Block) (programs : Fin CacheAccesses → SuperscalarProgram)
    (others : BitVec 64 → BitVec 8) : Cache where
  bytes a :=
    let i := (a - address).toNat
    if i < ArgonMemory * 1024 then
      match m (i / 1024) with
      | some b => (b ⟨i % 1024 / 8, word_lt i⟩).extractLsb' (8 * (i % 8)) 8
      | none => others a
    else others a
  memory := address
  programs := programs

/-! ## The memory -/

theorem validate_context {c : Configuration} (hc : c ∈ Configuration.repository) (key : Bytes) :
    xmrig_ar2_validate_inputs (context c key) = none := by
  have hall : ∀ c ∈ Configuration.repository,
      xmrig_ar2_validate_inputs (context c []) = none := by decide
  exact hall c hc

theorem memory_blocks {c : Configuration} (hc : c ∈ Configuration.repository) (key : Bytes)
    (h : xmrig_ar2_validate_inputs (context c key) = none) :
    ((valid_of_none h).instance .d).memory_blocks = ArgonMemory := by
  have hall : ∀ c ∈ Configuration.repository, c.ArgonLanes.toNat *
      (Argon2.argon2_compute_segment_length ArgonMemory c.ArgonLanes.toNat * 4) = ArgonMemory := by
    decide
  exact hall c hc

/-- What is on the stack does not matter. -/
theorem argon2_stack {stack stack' : L1.Blake2bLong.State} (h : stack.buf.length = 128)
    (h' : stack'.buf.length = 128) (fill_segment : Segment) {c : Context} (hout : c.out = false)
    (inst : Instance) :
    argon2 fill_segment stack c .d inst = argon2 fill_segment stack' c .d inst := by
  have hhash : Argon2.xmrig_ar2_initial_hash stack c .d =
      Argon2.xmrig_ar2_initial_hash stack' c .d :=
    (hashed_eq (by decide) h _).1.trans (hashed_eq (by decide) h' _).1.symm
  have hfirst (blockhash : Bytes) : Argon2.xmrig_ar2_fill_first_blocks stack blockhash inst =
      Argon2.xmrig_ar2_fill_first_blocks stack' blockhash inst := by
    have hlong (s : L1.Blake2bLong.State) (hs : s.buf.length = 128) (pin : Bytes) :
        xmrig_ar2_blake2b_long s Argon2.ARGON2_BLOCK_SIZE pin =
          Core.Blake2b.long Argon2.ARGON2_BLOCK_SIZE pin :=
      long_links hs (by decide) (by decide) pin
    simp only [Argon2.xmrig_ar2_fill_first_blocks, hlong stack h, hlong stack' h']
  simp only [argon2, hhash, hfirst, hout, Bool.false_eq_true, if_false]

/-- **The memory of a key**: all blocks are written, on every host the same. -/
theorem fillMemory_eq {c : Configuration} (hc : c ∈ Configuration.repository) (key : Bytes) :
    ∃ blocks : Nat → Block, ∀ (h : Host) (memory : Nat → Block), ∃ m,
      fillMemory h c key memory = .ok m ∧ ∀ i < ArgonMemory, m i = some (blocks i) := by
  have hvalid := validate_context hc key
  have hblocks := memory_blocks hc key hvalid
  have hpasses : 0 < ((valid_of_none hvalid).instance .d).passes := passes_pos hvalid
  let stack : L1.Blake2bLong.State := ⟨fun _ => 0, 0, 0, List.replicate 128 0, 0⟩
  have hstack : stack.buf.length = 128 := List.length_replicate
  obtain ⟨tag, m, hm, hfilled⟩ := ((same_argon2 _ hpasses (sameSegment_64 fill_block _) stack
    (context c key) .d).mono (fun _ hm => hm) fun _ _ _ hm => hm.2).does (fun _ => none) trivial
  refine ⟨fun i => (m i).getD fun _ => 0, fun h memory => ?_⟩
  obtain ⟨n, hn, hle⟩ :=
    Unwritten.independent (persists_argon2 fill_block _ stack (context c key) .d) hm memory
  have hdefault : Argon2.Agrees selected_argon_impl := fun inst => sameSegment_64 fill_block inst
  have hagrees := agrees_run h.checked hdefault ((valid_of_none hvalid).instance .d)
  have hsame := ((same_argon2 _ hpasses hagrees h.stack (context c key) .d).mono
    (fun _ hm => hm) fun _ _ _ hm => hm.1).eq
  have hrun : argon2_ctx_mem h.fill_segment h.stack (context c key) .d (ArgonMemory * 1024) =
      .ok (argon2 fill_segment_default stack (context c key) .d
        ((valid_of_none hvalid).instance .d)) := by
    unfold argon2_ctx_mem
    split
    · next e he =>
      rw [hvalid] at he
      cases he
    · have hsize : ¬ (ArgonMemory * 1024 % Argon2.ARGON2_BLOCK_SIZE ≠ 0 ∨
          ArgonMemory * 1024 / Argon2.ARGON2_BLOCK_SIZE <
            ((valid_of_none hvalid).instance .d).memory_blocks) := by
        rw [hblocks]
        decide
      simp only
      rw [if_neg hsize]
      refine congrArg Except.ok (hsame.trans ?_)
      exact argon2_stack h.length_buf hstack fill_segment_default rfl _
  refine ⟨n, ?_, fun i hi => ?_⟩
  · have hok : (argon2 fill_segment_default stack (context c key) .d
        ((valid_of_none hvalid).instance .d) fun i => some (memory i)) = .ok (tag, n) := hn
    simp only [fillMemory, hrun, hok]
    rfl
  · obtain ⟨b, hb⟩ := Option.isSome_iff_exists.mp (hfilled.all hpasses (hblocks ▸ hi))
    simp only [hle i b hb, hb, Option.getD_some]

/-! ## The programs -/

/-- The generator's hash. -/
def digest (data : Bytes) : Bytes := Core.Blake2b.blake2b 64 (data.take 64)

theorem Host.rx_blake2b_eq (h : Host) : h.rx_blake2b = digest := by
  funext data
  have hlen : (data.take 64).length < 2 ^ 64 := by
    rw [List.length_take]
    omega
  have hdigest : L1.Blake2b.rx_blake2b h.sse41 h.avx2 64 (data.take 64) = some (digest data) := by
    have h64 : 0 < 64 ∧ 64 ≤ L1.Blake2b.BLAKE2B_OUTBYTES := by decide
    cases h.avx2 with
    | false => exact L1.Blake2b.default_digest (L1.Blake2b.rx_blake2b_compress_eq h.sse41) h64 _
    | true => exact congrArg some (L1.Blake2b.avx2_digest h64.2 hlen)
  rw [Host.rx_blake2b, hdigest, Option.getD_some]

theorem generate_produced {SuperscalarLatency : Nat} {rx_blake2b : Bytes → Bytes} {fuel : Nat}
    {gen gen' : Blake2Generator} {prog : SuperscalarProgram}
    (hL : SuperscalarLatency ≤ RANDOMX_SUPERSCALAR_MAX_LATENCY)
    (h : generate SuperscalarLatency rx_blake2b fuel gen = .ok (prog, gen')) : Produced prog := by
  rw [generate] at h
  cases hdecode : decode SuperscalarLatency rx_blake2b fuel SuperscalarLatency 0 { gen := gen } with
  | error e =>
    rw [hdecode] at h
    cases h
  | ok r =>
    rw [hdecode] at h
    cases hsummary : summary r.1 r.2 with
    | error e =>
      have h' : (summary r.1 r.2 >>= fun prog => pure (prog, r.2.gen)) = .ok (prog, gen') := h
      rw [hsummary] at h'
      cases h'
    | ok prog' =>
      have h' : (summary r.1 r.2 >>= fun prog => pure (prog, r.2.gen)) = .ok (prog, gen') := h
      rw [hsummary] at h'
      cases h'
      refine ⟨SuperscalarLatency, rx_blake2b, fuel, gen, r.2.portBusy, hL, ?_⟩
      rw [generateSuperscalar, hdecode]
      show (summary r.1 r.2 >>= fun prog => pure (prog, r.2.portBusy)) = _
      rw [hsummary]
      rfl

theorem generatePrograms_produced {SuperscalarLatency : Nat} {rx_blake2b : Bytes → Bytes}
    {fuel n : Nat} {gen : Blake2Generator} {programs : Fin n → SuperscalarProgram}
    (hL : SuperscalarLatency ≤ RANDOMX_SUPERSCALAR_MAX_LATENCY)
    (h : generatePrograms SuperscalarLatency rx_blake2b fuel n gen = .ok programs) :
    ∀ j, Produced (programs j) := by
  induction n generalizing gen with
  | zero => exact fun j => j.elim0
  | succ n ih =>
    rw [generatePrograms] at h
    cases hgen : generate SuperscalarLatency rx_blake2b fuel gen with
    | error e =>
      rw [hgen] at h
      cases h
    | ok r =>
      rw [hgen] at h
      have h' : (generatePrograms SuperscalarLatency rx_blake2b fuel n r.2 >>= fun programs =>
        pure (Fin.cons r.1 programs : Fin (n + 1) → SuperscalarProgram)) = .ok programs := h
      cases hrest : generatePrograms SuperscalarLatency rx_blake2b fuel n r.2 with
      | error e =>
        rw [hrest] at h'
        cases h'
      | ok rest =>
        rw [hrest] at h'
        cases h'
        refine Fin.cases ?_ fun j => ?_
        · exact generate_produced hL hgen
        · exact ih hrest j

/-- A cache that was made from a key. -/
structure Made (c : Configuration) (fuel : Nat) (key : Bytes) (blocks : Nat → Block)
    (m : Cells Block) (programs : Fin CacheAccesses → SuperscalarProgram) : Prop where
  blocks : ∀ i < ArgonMemory, m i = some (blocks i)
  programs : generatePrograms c.SuperscalarLatency digest fuel CacheAccesses
    (Blake2Generator.new key 0) = .ok programs

theorem latency_le {c : Configuration} (hc : c ∈ Configuration.repository) :
    c.SuperscalarLatency ≤ RANDOMX_SUPERSCALAR_MAX_LATENCY := by
  have hall : ∀ c ∈ Configuration.repository,
      c.SuperscalarLatency ≤ RANDOMX_SUPERSCALAR_MAX_LATENCY := by decide
  exact hall c hc

/-- **The cache of a key** is the same on every host, or its programs end nowhere. -/
theorem initCache_eq {c : Configuration} (hc : c ∈ Configuration.repository) (fuel : Nat)
    (key : Bytes) : ∃ blocks : Nat → Block, ∀ (h : Host) (memory : Nat → Block),
      (∃ m programs, initCache h c fuel key memory = .ok (m, programs) ∧
        Made c fuel key blocks m programs) ∨
      ∃ s, initCache h c fuel key memory = .error (.program s) ∧
        generatePrograms c.SuperscalarLatency digest fuel CacheAccesses
          (Blake2Generator.new key 0) = .error s := by
  obtain ⟨blocks, hblocks⟩ := fillMemory_eq hc key
  refine ⟨blocks, fun h memory => ?_⟩
  obtain ⟨m, hm, hall⟩ := hblocks h memory
  simp only [initCache, hm, h.rx_blake2b_eq]
  cases hprograms : generatePrograms c.SuperscalarLatency digest fuel CacheAccesses
    (Blake2Generator.new key 0) with
  | error s => exact .inr ⟨s, rfl, rfl⟩
  | ok programs => exact .inl ⟨m, programs, rfl, hall, hprograms⟩

/-! ## Where the cache lies -/

/-- The place of a byte of a line. -/
theorem mixBlock_byte (address registerValue : BitVec 64) (q j : Nat) :
    getMixBlock address registerValue + 8 * BitVec.ofNat 64 q + BitVec.ofNat 64 j =
      address + BitVec.ofNat 64
        ((registerValue &&& BitVec.ofNat 64 (cacheLines - 1)).toNat * 64 + 8 * q + j) := by
  have hline : BitVec.ofNat 64 (registerValue &&& BitVec.ofNat 64 (cacheLines - 1)).toNat =
      registerValue &&& BitVec.ofNat 64 (cacheLines - 1) := BitVec.ofNat_toNat _ _
  rw [BitVec.ofNat_add, BitVec.ofNat_add, BitVec.ofNat_mul, BitVec.ofNat_mul, hline, getMixBlock,
    BitVec.add_assoc, BitVec.add_assoc, BitVec.add_assoc]
  rfl

theorem mixBlock_lt (registerValue : BitVec 64) {q j : Nat} (hq : q < 8) (hj : j < 8) :
    (registerValue &&& BitVec.ofNat 64 (cacheLines - 1)).toNat * 64 + 8 * q + j <
      ArgonMemory * 1024 := by
  have hle : (registerValue &&& BitVec.ofNat 64 (cacheLines - 1)).toNat ≤ cacheLines - 1 := by
    rw [BitVec.toNat_and]
    exact Nat.and_le_right
  have hlines : cacheLines * 64 = ArgonMemory * 1024 := rfl
  have hpos : 0 < cacheLines := by decide
  omega

section
variable {mem mem' : BitVec 64 → BitVec 8} {address address' : BitVec 64}

theorem load64_moved {a a' : BitVec 64}
    (h : ∀ j < 8, mem (a + BitVec.ofNat 64 j) = mem' (a' + BitVec.ofNat 64 j)) :
    X86.load64 mem a = X86.load64 mem' a' := by
  have h0 : mem a = mem' a' := by simpa using h 0 (by decide)
  have h1 : mem (a + 1) = mem' (a' + 1) := h 1 (by decide)
  have h2 : mem (a + 2) = mem' (a' + 2) := h 2 (by decide)
  have h3 : mem (a + 3) = mem' (a' + 3) := h 3 (by decide)
  have h4 : mem (a + 4) = mem' (a' + 4) := h 4 (by decide)
  have h5 : mem (a + 5) = mem' (a' + 5) := h 5 (by decide)
  have h6 : mem (a + 6) = mem' (a' + 6) := h 6 (by decide)
  have h7 : mem (a + 7) = mem' (a' + 7) := h 7 (by decide)
  rw [X86.load64, X86.load64, h7, h6, h5, h4, h3, h2, h1, h0]

theorem mixLine_moved (h : ∀ i < ArgonMemory * 1024, mem (address + BitVec.ofNat 64 i) =
      mem' (address' + BitVec.ofNat 64 i)) (registerValue : BitVec 64) (rl : Words) :
    mixLine mem address registerValue rl = mixLine mem' address' registerValue rl := by
  funext q
  have hbyte (j : Nat) (hj : j < 8) :
      mem (getMixBlock address registerValue + 8 * BitVec.ofNat 64 q + BitVec.ofNat 64 j) =
        mem' (getMixBlock address' registerValue + 8 * BitVec.ofNat 64 q + BitVec.ofNat 64 j) := by
    rw [mixBlock_byte, mixBlock_byte]
    exact h _ (mixBlock_lt registerValue q.isLt hj)
  rw [mixLine, mixLine, load64_moved hbyte]

/-- The lines of two caches that have the same bytes. -/
theorem mixFrom_moved (h : ∀ i < ArgonMemory * 1024, mem (address + BitVec.ofNat 64 i) =
      mem' (address' + BitVec.ofNat 64 i)) (programs : List SuperscalarProgram)
    (registerValue : BitVec 64) (rl : Words) :
    mixFrom mem address programs registerValue rl =
      mixFrom mem' address' programs registerValue rl := by
  induction programs generalizing registerValue rl with
  | nil => rfl
  | cons prog programs ih =>
    simp only [mixFrom, mixLine_moved h, ih]

end

/-- A byte of the cache. -/
theorem cacheAt_byte (address : BitVec 64) {m : Cells Block} {blocks : Nat → Block}
    (hm : ∀ i < ArgonMemory, m i = some (blocks i)) (programs : Fin CacheAccesses → SuperscalarProgram)
    (others : BitVec 64 → BitVec 8) {i : Nat} (hi : i < ArgonMemory * 1024) :
    (cacheAt address m programs others).bytes (address + BitVec.ofNat 64 i) =
      (blocks (i / 1024) ⟨i % 1024 / 8, word_lt i⟩).extractLsb' (8 * (i % 8)) 8 := by
  have hsub : (address + BitVec.ofNat 64 i - address).toNat = i := by
    have hmem : ArgonMemory * 1024 < 2 ^ 64 := by decide
    rw [BitVec.add_comm, BitVec.add_sub_cancel, BitVec.toNat_ofNat]
    exact Nat.mod_eq_of_lt (Nat.lt_trans hi hmem)
  have hblock : i / 1024 < ArgonMemory := by omega
  simp only [cacheAt, hsub, if_pos hi, hm _ hblock]

/-- **The items** of a key's cache, wherever it lies. -/
theorem item_eq {c : Configuration} {fuel : Nat} {key : Bytes} {blocks : Nat → Block}
    {m m' : Cells Block} {programs programs' : Fin CacheAccesses → SuperscalarProgram}
    (h : Made c fuel key blocks m programs) (h' : Made c fuel key blocks m' programs')
    (address address' : BitVec 64) (others others' : BitVec 64 → BitVec 8)
    (itemNumber : BitVec 64) :
    (cacheAt address m programs others).item itemNumber =
      (cacheAt address' m' programs' others').item itemNumber := by
  have hprograms : programs = programs' := by
    have hsame := h.programs.symm.trans h'.programs
    exact Except.ok.inj hsame
  subst hprograms
  refine mixFrom_moved (fun i hi => ?_) _ _ _
  show (cacheAt address m programs others).bytes (address + BitVec.ofNat 64 i) =
    (cacheAt address' m' programs others').bytes (address' + BitVec.ofNat 64 i)
  rw [cacheAt_byte address h.blocks programs others hi,
    cacheAt_byte address' h'.blocks programs others' hi]

/-! ## Hashes of a key -/

/-- The threads that write the dataset, the order in which their writes come, and what was there
before. -/
structure Dataset where
  host : DatasetSlices.Host
  numThreads : UInt32
  memory : RandomX.Memory
  reorder : List Write → List Write
  perm : ∀ ws, (reorder ws).Perm ws

variable {V : Type}

/-- A host, with the dataset or without, and what memory has before. -/
structure Setting (coin : RandomXHash.Coin V) where
  host : Host
  build : Build
  memory : Nat → Block
  address : BitVec 64
  others : BitVec 64 → BitVec 8
  dataset : Option Dataset
  machine : Machine coin

inductive Error where
  | cache (f : Failure)
  | dataset
  | machine (f : RandomX.InterpretedVm.Fault)

variable (coin : RandomXHash.Coin V) (c : Configuration) (draws fuel : Nat)

/-- Where the items come from, with this cache. -/
def modeOf (s : Setting coin) (cache : Cache) : Option Mode :=
  match s.dataset with
  | none => some (.light cache)
  | some d => (initWrites cache d.host d.numThreads).map fun ws =>
    .full ((d.reorder ws).foldl Write.apply d.memory)

/-- The cache and the dataset are made, then used. -/
def withKey {α : Type} (s : Setting coin) (key : Bytes) (use : Mode → RandomX.InterpretedVm.Run α) :
    Except Error α := do
  let (m, programs) ← (initCache s.host c draws key s.memory).mapError .cache
  match modeOf coin s (cacheAt s.address m programs s.others) with
  | none => throw .dataset
  | some mode => (use mode).mapError .machine

def hashes (s : Setting coin) (key : Bytes) (inputs : List Bytes) : Except Error (List Bytes) :=
  withKey coin c draws s key fun mode =>
    inputs.mapM fun x => Prod.snd <$> randomx_calculate_hash coin s.build mode fuel s.machine x

/-- A worker's calls, the first of which gives nothing out. -/
def mine (s : Setting coin) (key : Bytes) (inputs : List Bytes) : Except Error (List Bytes) :=
  withKey coin c draws s key fun mode => pipelined coin s.build mode fuel s.machine inputs

variable {coin c draws fuel}

/-- Two caches with the same items. -/
theorem light_moved {cache cache' : Cache} (h : ∀ i, cache.item i = cache'.item i) :
    Same coin (.light cache) (.light cache') fuel := by
  have hread : @LightVm.lightRead V cache = LightVm.lightRead cache' := by
    funext address s
    simp only [LightVm.lightRead, h]
  intro program entropy nreg
  simp only [RandomXHash.execute, LightVm.execute, hread]

/-- The machine that a setting has is that with the cache. -/
theorem modeOf_same {cache : Cache} (hprograms : ∀ j, Produced (cache.programs j))
    (s : Setting coin) : ∃ mode, modeOf coin s cache = some mode ∧
      Same coin mode (.light cache) fuel := by
  rw [modeOf]
  cases s.dataset with
  | none => exact ⟨_, rfl, fun _ _ _ => rfl⟩
  | some d =>
    obtain ⟨ws, hws, hall⟩ := init_writes hprograms d.host d.numThreads
    simp only [hws, Option.map_some]
    refine ⟨_, rfl, fun program entropy nreg => ?_⟩
    exact execute_eq hprograms hall (d.perm ws) d.memory coin.config.1 coin.v program entropy nreg
      _ fuel

/-- What is done with a key's cache, if it does not see which machine it has. -/
theorem withKey_eq (hc : c ∈ Configuration.repository) {α : Type} (s s' : Setting coin) (key : Bytes)
    {use use' : Mode → RandomX.InterpretedVm.Run α}
    (huse : ∀ mode mode', Same coin mode mode' fuel → use mode = use' mode') :
    withKey coin c draws s key use = withKey coin c draws s' key use' := by
  obtain ⟨blocks, hblocks⟩ := initCache_eq hc draws key
  rcases hblocks s.host s.memory with ⟨m, programs, hm, hmade⟩ | ⟨e, he, hgen⟩
  · rcases hblocks s'.host s'.memory with ⟨m', programs', hm', hmade'⟩ | ⟨e, -, hgen⟩
    · have hprograms := generatePrograms_produced (latency_le hc) hmade.programs
      have hprograms' := generatePrograms_produced (latency_le hc) hmade'.programs
      obtain ⟨mode, hmode, hsame⟩ : ∃ mode,
          modeOf coin s (cacheAt s.address m programs s.others) = some mode ∧
            Same coin mode (.light (cacheAt s.address m programs s.others)) fuel :=
        modeOf_same hprograms s
      obtain ⟨mode', hmode', hsame'⟩ : ∃ mode',
          modeOf coin s' (cacheAt s'.address m' programs' s'.others) = some mode' ∧
            Same coin mode' (.light (cacheAt s'.address m' programs' s'.others)) fuel :=
        modeOf_same hprograms' s'
      have hmoved := @light_moved V coin fuel _ _
        (item_eq hmade hmade' s.address s'.address s.others s'.others)
      have hboth : Same coin mode mode' fuel := fun program entropy nreg =>
        ((hsame program entropy nreg).trans (hmoved program entropy nreg)).trans
          (hsame' program entropy nreg).symm
      have hrun : use mode = use' mode' := huse mode mode' hboth
      simp only [withKey, hm, hm', Except.mapError, hmode, hmode', hrun, bind, Except.bind]
    · rw [hmade.programs] at hgen
      cases hgen
  · rcases hblocks s'.host s'.memory with ⟨m', programs', hm', hmade'⟩ | ⟨e', he', hgen'⟩
    · rw [hmade'.programs] at hgen
      cases hgen
    · obtain rfl : e = e' := Except.error.inj (hgen.symm.trans hgen')
      simp only [withKey, he, he', Except.mapError, bind, Except.bind]

theorem mapM_congr {α β : Type} {f g : α → RandomX.InterpretedVm.Run β} {l : List α}
    (h : ∀ x ∈ l, f x = g x) : l.mapM f = l.mapM g := by
  induction l with
  | nil => rfl
  | cons x l ih =>
    rw [List.mapM_cons, List.mapM_cons, h x List.mem_cons_self,
      ih fun y hy => h y (List.mem_cons_of_mem _ hy)]

end Rxs.L2.InitCache
