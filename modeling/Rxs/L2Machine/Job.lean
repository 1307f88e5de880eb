import Rxs.Core.Bytes

/-!
# Algorithms, jobs and RandomX seeds

`Algorithm` is `Algorithm::Id`; its memory sizes are read off the id encoding.
`Job` keeps the fields of `rxs::Job` that the miner core reads: `blob` is the
first `m_size` bytes of `m_blob` (the rest of the buffer is never hashed,
compared or copied), `extraNonce`, `poolWallet`, `height` and `diff` take no
part in what is modelled. `ephKeys` is `m_hasMinerSignature` together with the
two ephemeral keys.

A job that reaches `Miner::setJob` went through `Job::setBlob` and an
algorithm check; `PoolJob` carries what these two guarantee.

* `RxSeed.isEqual_trans`: the comparison `RxSeed` uses is an equivalence, and
  it is strictly coarser than equality (`rx/0` and `rx/2` are one class).
-/
namespace Rxs

open Rxs.Core

/-- mirrors src/base/crypto/Algorithm.h:45-54 -/
inductive Algorithm where
  | INVALID | RX_0 | RX_V2 | RX_WOW | RX_ARQ | RX_GRAFT | RX_SFX | RX_YADA
  deriving DecidableEq, Repr

namespace Algorithm

/-- mirrors src/base/crypto/Algorithm.h:45-54 -/
def id : Algorithm → Nat
  | INVALID => 0
  | RX_0 => 0x72151200
  | RX_V2 => 0x72151202
  | RX_WOW => 0x72141177
  | RX_ARQ => 0x72121061
  | RX_GRAFT => 0x72151267
  | RX_SFX => 0x72151273
  | RX_YADA => 0x72151279

/-- mirrors src/base/crypto/Algorithm.h:85-90 -/
def l3 (a : Algorithm) : Nat :=
  if a = INVALID then 0
  else
    let exp := (a.id >>> 16) &&& 0xff
    if exp < 64 then 2 ^ exp else 0

/-- The family is the top byte of the id.
mirrors src/base/crypto/Algorithm.h:56-59,130-135 -/
def isRandomX (a : Algorithm) : Bool := a.id &&& 0xff000000 = 0x72000000

theorem isRandomX_iff (a : Algorithm) : a.isRandomX = true ↔ a ≠ INVALID := by
  cases a <;> decide

end Algorithm

/-- The configurations `RxAlgo::base` chooses from.
mirrors src/crypto/rx/RxAlgo.cpp:34-63 -/
inductive ConfigurationBase where
  | monero | moneroV2 | wownero | arqma | graft | safex | yada
  deriving DecidableEq, Repr

namespace ConfigurationBase

/-- mirrors src/crypto/randomx/randomx.cpp:96-103,164-168 -/
def tweakV2Commitment : ConfigurationBase → Bool
  | moneroV2 => true
  | _ => false

end ConfigurationBase

/-- mirrors src/crypto/rx/RxAlgo.cpp:36-63 -/
def RxAlgo.base : Algorithm → ConfigurationBase
  | .RX_V2 => .moneroV2
  | .RX_WOW => .wownero
  | .RX_ARQ => .arqma
  | .RX_GRAFT => .graft
  | .RX_SFX => .safex
  | .RX_YADA => .yada
  | _ => .monero

/-- On RandomX algorithms the configuration determines the algorithm. -/
theorem RxAlgo.base_injOn {a b : Algorithm} (ha : a ≠ .INVALID) (hb : b ≠ .INVALID)
    (h : RxAlgo.base a = RxAlgo.base b) : a = b := by
  cases a <;> cases b <;> first | rfl | contradiction

/-- mirrors src/base/net/stratum/Job.h:41-42 -/
def kMaxBlobSize : Nat := 408

structure EphemeralKeys where
  pub : Bytes
  sec : Bytes
  deriving DecidableEq, Repr

/-- mirrors src/base/net/stratum/Job.h:150-207 -/
structure Job where
  algorithm : Algorithm := .INVALID
  nicehash : Bool := false
  seed : Bytes := []
  blob : Bytes := []
  clientId : String := ""
  id : String := ""
  target : Nat := 0
  ephKeys : Option EphemeralKeys := none
  deriving DecidableEq, Repr

namespace Job

def size (j : Job) : Nat := j.blob.length

/-- mirrors src/base/net/stratum/Job.h:76 -/
def nonceSize (_ : Job) : Nat := 4

/-- mirrors src/base/net/stratum/Job.cpp:145-152 -/
def nonceOffset (j : Job) : Nat := if j.algorithm = .RX_YADA then 147 else 39

/-- The eight-byte nonce case of the source is dead: `nonceSize` is 4.
mirrors src/base/net/stratum/Job.h:82 -/
def nonceMask (j : Job) : Nat := if j.nicehash then 0xFFFFFF else 0xFFFFFFFF

def hasMinerSignature (j : Job) : Bool := j.ephKeys.isSome

/-- The nonce field as the job carries it. -/
def nonce (j : Job) : Nat := Bytes.readLE (Bytes.slice j.blob j.nonceOffset 4)

/-- mirrors src/base/net/stratum/Job.cpp:51-54 -/
def isEqualBlob (j other : Job) : Bool := j.blob = other.blob

/-- Seed, algorithm and keys take no part.
mirrors src/base/net/stratum/Job.cpp:45-48 -/
def isEqual (j other : Job) : Bool :=
  j.id = other.id && j.clientId = other.clientId && j.isEqualBlob other &&
    j.target = other.target

theorem isEqualBlob_iff {j k : Job} : j.isEqualBlob k = true ↔ j.blob = k.blob := by
  simp [isEqualBlob]

theorem isEqual_blob {j k : Job} (h : j.isEqual k = true) : j.blob = k.blob := by
  simp only [isEqual, Bool.and_eq_true] at h
  exact isEqualBlob_iff.mp h.1.2

theorem nonceMask_eq_pow (j : Job) : ∃ k, (k = 24 ∨ k = 32) ∧ j.nonceMask = 2 ^ k - 1 := by
  unfold nonceMask; split
  · exact ⟨24, .inl rfl, rfl⟩
  · exact ⟨32, .inr rfl, rfl⟩

/-- What `Job::setBlob` and the clients' algorithm check establish: a RandomX
algorithm, room for the nonce inside the blob, a blob that fits the buffer, and
nicehash mode for a blob with a preset nonce.
mirrors src/base/net/stratum/Job.cpp:57-89 -/
def Valid (j : Job) : Prop :=
  j.algorithm ≠ .INVALID ∧ j.nonceOffset + j.nonceSize ≤ j.size ∧ j.size < kMaxBlobSize ∧
    (j.nicehash = false → j.nonce = 0)

instance (j : Job) : Decidable j.Valid := by unfold Valid; infer_instance

/-- Room for the four bytes of the nonce. -/
theorem Valid.room {j : Job} (h : j.Valid) : j.nonceOffset + 4 ≤ j.size := h.2.1

end Job

/-- A job as it reaches `Miner::setJob`. -/
abbrev PoolJob := { j : Job // j.Valid }

/-- mirrors src/crypto/rx/RxSeed.h:41-46,56-58 -/
structure RxSeed where
  algorithm : Algorithm := .INVALID
  data : Bytes := []
  deriving DecidableEq, Repr

namespace RxSeed

def ofJob (j : Job) : RxSeed := ⟨j.algorithm, j.seed⟩

/-- mirrors src/crypto/rx/RxSeed.h:63-67 -/
def isEqualSeedAlgo (s : RxSeed) (other : Algorithm) : Bool :=
  s.algorithm = other || (s.algorithm = .RX_0 && other = .RX_V2) ||
    (s.algorithm = .RX_V2 && other = .RX_0)

/-- mirrors src/crypto/rx/RxSeed.h:49 -/
def isEqual (s other : RxSeed) : Bool := s.isEqualSeedAlgo other.algorithm && s.data = other.data

/-- mirrors src/crypto/rx/RxSeed.h:48 -/
def isEqualJob (s : RxSeed) (j : Job) : Bool := s.isEqual (ofJob j)

@[simp] theorem isEqual_refl (s : RxSeed) : s.isEqual s = true := by simp [isEqual, isEqualSeedAlgo]

theorem isEqual_iff {s t : RxSeed} : s.isEqual t = true ↔
    (s.algorithm = t.algorithm ∨ (s.algorithm = .RX_0 ∧ t.algorithm = .RX_V2) ∨
      (s.algorithm = .RX_V2 ∧ t.algorithm = .RX_0)) ∧ s.data = t.data := by
  simp [isEqual, isEqualSeedAlgo, or_assoc]

theorem isEqual_symm {s t : RxSeed} (h : s.isEqual t = true) : t.isEqual s = true := by
  rw [isEqual_iff] at *; grind

theorem isEqual_trans {s t u : RxSeed} (h : s.isEqual t = true) (h' : t.isEqual u = true) :
    s.isEqual u = true := by
  rw [isEqual_iff] at *; grind

/-- Equal seeds name the same dataset parameters, but not the same algorithm. -/
theorem isEqual_not_eq : (⟨.RX_0, []⟩ : RxSeed).isEqual ⟨.RX_V2, []⟩ = true ∧
    RxAlgo.base .RX_0 ≠ RxAlgo.base .RX_V2 := by decide

end RxSeed

end Rxs
