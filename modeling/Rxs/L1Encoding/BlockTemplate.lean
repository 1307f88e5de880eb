import Rxs.L1Encoding.BlobReader
import Mathlib.Logic.Function.Basic

/-!
# `BlockTemplate`

The members of a `BlockTemplate` are the `Member`s, an object gives each its
value. `parse` is the source's, in the order of its reads, and runs on an object
that may have parsed before: what it does not assign stays. `Parse` adds to the
object the list of members assigned in this call, which nothing reads.

Of the platform it takes the memory for `m_hashes` and the hash function. An
access outside `m_blob` or `m_hashes` and a negative length for `keccak` are
`undefined`; the store into `m_hashes` and the length are in the log as
`Access.use`. `fuel` bounds the rounds of every loop.

* `calculateMerkleTreeHash`, `calculateRootHash`: with their loops.
* `parse`: what a call returns, and the object after it.
-/
namespace Rxs

open Rxs.Core

/-- mirrors src/base/crypto/Coin.h:38-48 -/
inductive Coin where
  | INVALID | MONERO | ARQMA | GRAFT | WOWNERO | ZEPHYR | TOWNFORGE | YADA
  deriving DecidableEq, Repr

namespace BlockTemplate

def kHashSize : UInt64 := 32
def kKeySize : UInt64 := 32
def kNonceSize : UInt64 := 4
def kSignatureSize : UInt64 := 64
def kMinSize : Nat := 76

/-- mirrors src/base/tools/cryptonote/BlockTemplate.h:48-58 -/
inductive Offset where
  | NONCE_OFFSET | MINER_TX_PREFIX_OFFSET | MINER_TX_PREFIX_END_OFFSET | EPH_PUBLIC_KEY_OFFSET
  | TX_EXTRA_OFFSET | TX_PUBKEY_OFFSET | TX_EXTRA_NONCE_OFFSET | TX_EXTRA_MERGE_MINING_TAG_OFFSET
  deriving DecidableEq, Repr

/-- mirrors src/base/tools/cryptonote/BlockTemplate.h:119-152 -/
inductive Member where
  | blob | coin | offset (o : Offset) | versionFirst | versionSecond | timestamp | prevId
  | minerSignature | vote | txVersion | unlockTime | numInputs | inputType | height | numOutputs
  | amount | outputType | ephPublicKey | viewTag | extraSize | txExtraNonce | txMergeMiningTag
  | numHashes | hashes | minerTxMerkleTreeBranch | minerTxMerkleTreePath | rootHash
  | carrotViewTag | janusAnchor | FCMPTreeLayers | FCMPTreeRoot
  deriving DecidableEq, Repr

@[reducible] def Member.Val : Member → Type
  | .blob | .vote | .hashes | .minerTxMerkleTreeBranch | .rootHash | .carrotViewTag | .janusAnchor
  | .FCMPTreeRoot => Bytes
  | .coin => Coin
  | .offset _ | .minerTxMerkleTreePath => UInt32
  | .versionFirst | .versionSecond | .inputType | .outputType | .viewTag | .FCMPTreeLayers => UInt8
  | .prevId | .minerSignature | .ephPublicKey | .txExtraNonce | .txMergeMiningTag => Span
  | .timestamp | .txVersion | .unlockTime | .numInputs | .height | .numOutputs | .amount
  | .extraSize | .numHashes => UInt64

end BlockTemplate

abbrev BlockTemplate := (m : BlockTemplate.Member) → m.Val

namespace BlockTemplate

/-- A new object. -/
def fresh : BlockTemplate
  | .blob | .hashes | .minerTxMerkleTreeBranch => []
  | .vote => List.replicate 2 0
  | .carrotViewTag => List.replicate 3 0
  | .janusAnchor => List.replicate 16 0
  | .rootHash | .FCMPTreeRoot => List.replicate 32 0
  | .coin => .INVALID
  | .offset _ | .minerTxMerkleTreePath => 0
  | .versionFirst | .versionSecond | .inputType | .outputType | .viewTag | .FCMPTreeLayers => 0
  | .prevId | .minerSignature | .ephPublicKey | .txExtraNonce | .txMergeMiningTag => {}
  | .timestamp | .txVersion | .unlockTime | .numInputs | .height | .numOutputs | .amount
  | .extraSize | .numHashes => 0

def hasMinerSignature (t : BlockTemplate) : Bool := !(t .minerSignature).empty

/-! ## The Merkle tree -/

/-- mirrors src/base/tools/cryptonote/BlockTemplate.cpp:38-41 -/
def knownSecondHash : Bytes :=
  [188, 54, 120, 158, 122, 30, 40, 20, 54, 70, 66, 41, 130, 143, 129, 125, 102, 18, 247, 180, 119,
    214, 101, 145, 255, 150, 169, 224, 100, 188, 201, 138]

/-- mirrors src/base/tools/cryptonote/BlockTemplate.cpp:28-48 -/
def minerTxHash (keccak : Bytes → Bytes) (pre : Bytes) : Bytes :=
  keccak (keccak pre ++ knownSecondHash ++ List.replicate 32 0)

def hashAt (h : Bytes) (i : Nat) : Bytes := Bytes.slice h (32 * i) 32

/-- `branch`, `path` and the locals of `calculateMerkleTreeHash`. -/
structure Merkle where
  h2 : Bytes
  branch : Bytes := []
  path : UInt32 := 0
  ints : List Bytes := []
  deriving DecidableEq, Repr

/-- The smallest `cnt * 2 ^ i` above `count`, for `i` from 1.
mirrors src/base/tools/cryptonote/BlockTemplate.cpp:92-96 -/
def doubleUntil (count cnt : Nat) : Nat :=
  if 0 < cnt ∧ cnt * 2 ≤ count then doubleUntil count (cnt * 2) else cnt * 2
termination_by count - cnt

/-- The pairs of the uneven first level.
mirrors src/base/tools/cryptonote/BlockTemplate.cpp:106-118 -/
def firstStep (keccak : Bytes → Bytes) (h : Bytes) (k : Nat) (m : Merkle) (j : Nat) : Merkle :=
  let i := k + 2 * (j - k)
  let tmp := keccak (hashAt h i ++ hashAt h (i + 1))
  let ints := m.ints.set j tmp
  if hashAt h i = m.h2 then
    { m with ints := ints, branch := m.branch ++ hashAt h (i + 1), h2 := tmp }
  else if hashAt h (i + 1) = m.h2 then
    { m with ints := ints, branch := m.branch ++ hashAt h i, h2 := tmp, path := 1 }
  else { m with ints := ints }

/-- The pairs of a level above.
mirrors src/base/tools/cryptonote/BlockTemplate.cpp:122-138 -/
def levelStep (keccak : Bytes → Bytes) (m : Merkle) (j : Nat) : Merkle :=
  let a := m.ints.getD (2 * j) []
  let b := m.ints.getD (2 * j + 1) []
  let tmp := keccak (a ++ b)
  let ints := m.ints.set j tmp
  if a = m.h2 then
    { m with ints := ints, branch := m.branch ++ b, h2 := tmp, path := m.path <<< 1 }
  else if b = m.h2 then
    { m with ints := ints, branch := m.branch ++ a, h2 := tmp, path := m.path <<< 1 ||| 1 }
  else { m with ints := ints }

/-- mirrors src/base/tools/cryptonote/BlockTemplate.cpp:120-139 -/
def levels (keccak : Bytes → Bytes) (cnt : Nat) (m : Merkle) : Merkle :=
  if 2 ≤ cnt then
    levels keccak (cnt / 2) ((List.range (cnt / 2)).foldl (levelStep keccak) m)
  else m
termination_by cnt

/-- Branch, path and root.
mirrors src/base/tools/cryptonote/BlockTemplate.cpp:70-143 -/
def calculateMerkleTreeHash (keccak : Bytes → Bytes) (hashes : Bytes) (index : Nat) :
    Bytes × UInt32 × Bytes :=
  let count := hashes.length / 32
  if count = 1 then ([], 0, hashAt hashes 0)
  else if count = 2 then
    (hashAt hashes (index ^^^ 1), UInt32.ofNat index, keccak (hashAt hashes 0 ++ hashAt hashes 1))
  else
    let cnt := doubleUntil count 1 / 2
    let k := cnt * 2 - count
    let ints := (List.range k).map (hashAt hashes) ++ List.replicate (cnt - k) (List.replicate 32 0)
    let m : Merkle := { h2 := hashAt hashes index, ints := ints }
    let m := (List.range' k (cnt - k)).foldl (firstStep keccak hashes k) m
    let m := levels keccak cnt m
    (m.branch, m.path, m.ints.getD 0 [])

/-- The fold of `calculateRootHash` from the leaf up; `none` is a shift of the
32-bit path by 32 or more.
mirrors src/base/tools/cryptonote/BlockTemplate.cpp:55-66 -/
def foldBranch (keccak : Bytes → Bytes) (branch : Bytes) (path : UInt32) (leaf : Bytes) :
    Option Bytes :=
  let depth := branch.length / 32
  (List.range depth).foldlM (fun root d =>
    let shift := depth - d - 1
    if shift < 32 then
      let t := path >>> UInt32.ofNat shift &&& 1
      let b := hashAt branch d
      some (keccak (if t = 0 then root ++ b else b ++ root))
    else none) leaf

/-- mirrors src/base/tools/cryptonote/BlockTemplate.cpp:51-67 -/
def calculateRootHash (keccak : Bytes → Bytes) (pre branch : Bytes) (path : UInt32) :
    Option Bytes :=
  foldBranch keccak branch path (minerTxHash keccak pre)

/-! ## The parser -/

/-- The object, and the members assigned in this call. -/
structure Parse where
  t : BlockTemplate
  written : List Member := []

abbrev Parser := Scanner Bool Parse

open Scanner (index loop within peek demand halt onlyIf)
open BlobReader

def assign (m : Member) (v : m.Val) : Parser Unit :=
  Scanner.update fun s => { t := Function.update s.t m v, written := m :: s.written }

def member (m : Member) : Parser m.Val := fun s => .ok (s.data.t m) s

/-- `return false` unless `c`. -/
def ensure (c : Prop) [Decidable c] : Parser Unit := onlyIf (¬ c) (halt (.ret false))

def setOffset (o : Offset) (value : Nat) : Parser Unit := assign (.offset o) (UInt32.ofNat value)

def offset (o : Offset) : Parser Nat := do
  let v ← member (.offset o)
  pure v.toNat

section
variable (add : Nat → UInt64 → Nat) (p : Platform) (fuel : Nat)

/-- mirrors src/base/tools/cryptonote/BlockTemplate.cpp:214-232 -/
def parseHeader : Parser Unit := do
  assign .versionFirst (← getByte)
  assign .versionSecond (← getByte)
  assign .timestamp (← getVarint p fuel)
  assign .prevId (← getSpan add kHashSize)
  setOffset .NONCE_OFFSET (← index)
  let _ ← skip add kNonceSize
  let coin ← member .coin
  let majorVersion ← member .versionFirst
  onlyIf (coin = .WOWNERO ∧ majorVersion ≥ 18) (do
    assign .minerSignature (← getSpan add kSignatureSize)
    assign .vote (← getArray add 2))
  onlyIf (coin = .ZEPHYR) (do
    let _ ← getArray add 120
    pure ())

/-- mirrors src/base/tools/cryptonote/BlockTemplate.cpp:238-271 -/
def parseInput : Parser Unit := do
  assign .txVersion (← getVarint p fuel)
  let coin ← member .coin
  onlyIf (coin ≠ .TOWNFORGE) (do assign .unlockTime (← getVarint p fuel))
  assign .numInputs (← getVarint p fuel)
  let numInputs ← member .numInputs
  ensure (numInputs = 1)
  assign .inputType (← getByte)
  let inputType ← member .inputType
  ensure (inputType = 0xFF)
  assign .height (← getVarint p fuel)
  assign .numOutputs (← getVarint p fuel)
  let numOutputs ← member .numOutputs
  ensure (if coin = .ZEPHYR then ¬ numOutputs < 2 else numOutputs = 1)
  assign .amount (← getVarint p fuel)
  assign .outputType (← getByte)

/-- mirrors src/base/tools/cryptonote/BlockTemplate.cpp:273 -/
def isFcmpPp : Parser Bool := do
  let coin ← member .coin
  let majorVersion ← member .versionFirst
  pure (coin = .MONERO ∧ majorVersion ≥ 17)

/-- A further output of a Zephyr transaction.
mirrors src/base/tools/cryptonote/BlockTemplate.cpp:302-320 -/
def parseZephyrOutput (k : UInt64) : Parser UInt64 := do
  let _ ← getVarint p fuel
  let output_type2 ← getByte
  ensure (output_type2 = 2)
  let _ ← getSpan add kKeySize
  let asset_type_len ← getVarint p fuel
  let _ ← skip add asset_type_len
  let _ ← getByte
  pure (k + 1)

/-- mirrors src/base/tools/cryptonote/BlockTemplate.cpp:275-328 -/
def parseOutput (is_fcmp_pp : Bool) : Parser Unit := do
  let outputType ← member .outputType
  ensure ((is_fcmp_pp = true ∧ outputType = 0) ∨ outputType = 2 ∨ outputType = 3)
  setOffset .EPH_PUBLIC_KEY_OFFSET (← index)
  assign .ephPublicKey (← getSpan add kKeySize)
  onlyIf (is_fcmp_pp = true) (do
    assign .carrotViewTag (← getArray add 3)
    assign .janusAnchor (← getArray add 16))
  let coin ← member .coin
  onlyIf (coin = .ZEPHYR) (do
    ensure (outputType = 2)
    let asset_type_len ← getVarint p fuel
    let _ ← skip add asset_type_len
    assign .viewTag (← getByte)
    let numOutputs ← member .numOutputs
    let _ ← loop (fun k => pure (k < numOutputs)) (parseZephyrOutput add p fuel) fuel 1
    pure ())
  onlyIf (coin ≠ .ZEPHYR ∧ outputType = 3) (do assign .viewTag (← getByte))
  onlyIf (coin = .TOWNFORGE) (do assign .unlockTime (← getVarint p fuel))

/-- One field of tx_extra; the result is `pubkey_offset_first`.
mirrors src/base/tools/cryptonote/BlockTemplate.cpp:340-368 -/
def parseExtraField (pubkey_offset_first : Bool) : Parser Bool := do
  let extra_tag ← getVarint p fuel
  if extra_tag = 1 then do
    onlyIf (pubkey_offset_first = true) (do
      let off ← offset .TX_EXTRA_OFFSET
      setOffset .TX_PUBKEY_OFFSET (off + (← index)))
    let _ ← skip add kKeySize
    pure false
  else if extra_tag = 2 then do
    let size ← getVarint p fuel
    let off ← offset .TX_EXTRA_OFFSET
    setOffset .TX_EXTRA_NONCE_OFFSET (off + (← index))
    assign .txExtraNonce (← getSpan add size)
    pure pubkey_offset_first
  else if extra_tag = 3 then do
    let size ← getVarint p fuel
    let off ← offset .TX_EXTRA_OFFSET
    setOffset .TX_EXTRA_MERGE_MINING_TAG_OFFSET (off + (← index))
    assign .txMergeMiningTag (← getSpan add size)
    pure pubkey_offset_first
  else halt (.ret false)

/-- mirrors src/base/tools/cryptonote/BlockTemplate.cpp:339 -/
def inExtra (_ : Bool) : Parser Bool := do
  let i ← index
  let extraSize ← member .extraSize
  pure (i < extraSize.toNat)

/-- mirrors src/base/tools/cryptonote/BlockTemplate.cpp:330-369 -/
def parseExtra : Parser Unit := do
  assign .extraSize (← getVarint p fuel)
  setOffset .TX_EXTRA_OFFSET (← index)
  let extraSize ← member .extraSize
  let off ← offset .TX_EXTRA_OFFSET
  let _ ← skip add extraSize
  let _ ← within off extraSize.toNat (loop inExtra (parseExtraField add p fuel) fuel true)
  pure ()

/-- mirrors src/base/tools/cryptonote/BlockTemplate.cpp:371-376 -/
def parseZephyrAmounts : Parser Unit := do
  let coin ← member .coin
  onlyIf (coin = .ZEPHYR) (do
    let _ ← getVarint p fuel
    let _ ← getVarint p fuel
    let _ ← getVarint p fuel
    pure ())

/-- mirrors src/base/tools/cryptonote/BlockTemplate.cpp:395-401 -/
def checkPrefixEnd : Parser Unit := do
  let miner_tx_end ← index
  let off ← offset .MINER_TX_PREFIX_END_OFFSET
  ensure (miner_tx_end = off + 1)
  let b ← peek off 1
  ensure (b = [0])

/-- mirrors src/base/tools/cryptonote/BlockTemplate.cpp:378-401 -/
def parseRct : Parser Unit := do
  setOffset .MINER_TX_PREFIX_END_OFFSET (← index)
  let vin_rct_type ← getByte
  let coin ← member .coin
  let height ← member .height
  onlyIf (coin = .TOWNFORGE ∧ height % 720 = 0) (halt (.ret true))
  ensure (vin_rct_type = 0)
  checkPrefixEnd

/-- The length is cast to `int`: a negative one is undefined.
mirrors src/base/tools/cryptonote/BlockTemplate.cpp:28-48,426 -/
def calculateMinerTxHash : Parser Bytes := do
  let prefix_begin ← offset .MINER_TX_PREFIX_OFFSET
  let prefix_end ← offset .MINER_TX_PREFIX_END_OFFSET
  let len := (2 ^ 32 + prefix_end - prefix_begin) % 2 ^ 32
  demand len (2 ^ 31 - 1)
  let pre ← peek prefix_begin len
  pure (minerTxHash p.keccak pre)

/-- `memcpy(m_hashes.data() + start, d, |d|)`. -/
def store (start : Nat) (d : Bytes) : Parser Unit := do
  let hashes ← member .hashes
  demand (start + d.length) hashes.length
  assign .hashes (Bytes.writeAt hashes start d)

/-- mirrors src/base/tools/cryptonote/BlockTemplate.cpp:428-432 -/
def parseHash (coinbase_tx_index : UInt64) (i : UInt64) : Parser UInt64 := do
  let h ← getArray add kHashSize
  store (32 * (coinbase_tx_index.toNat + i.toNat)) h
  pure (i + 1)

/-- mirrors src/base/tools/cryptonote/BlockTemplate.cpp:419-442 -/
def parseHashes (is_fcmp_pp : Bool) : Parser Unit := do
  let coinbase_tx_index : UInt64 := if is_fcmp_pp then 2 else 0
  let numHashes ← member .numHashes
  assign .hashes []
  let size := (coinbase_tx_index + numHashes + 1) * kHashSize
  onlyIf (p.alloc size = false) (halt .thrown)
  assign .hashes (List.replicate size.toNat 0)
  store (32 * coinbase_tx_index.toNat) (← calculateMinerTxHash p)
  let _ ← loop (fun i => pure (i ≤ numHashes)) (parseHash add coinbase_tx_index) fuel 1
  onlyIf (is_fcmp_pp = true) (do
    assign .FCMPTreeLayers (← getByte)
    assign .FCMPTreeRoot (← getArray add 32)
    let layers ← member .FCMPTreeLayers
    store 0 [layers]
    let root ← member .FCMPTreeRoot
    store 32 root)
  let hashes ← member .hashes
  let r := calculateMerkleTreeHash p.keccak hashes coinbase_tx_index.toNat
  assign .minerTxMerkleTreeBranch r.1
  assign .minerTxMerkleTreePath r.2.1
  assign .rootHash r.2.2

/-- mirrors src/base/tools/cryptonote/BlockTemplate.cpp:210-446 -/
def parseBody (hashes : Bool) : Parser Bool := do
  parseHeader add p fuel
  setOffset .MINER_TX_PREFIX_OFFSET (← index)
  parseInput p fuel
  let is_fcmp_pp ← isFcmpPp
  parseOutput add p fuel is_fcmp_pp
  parseExtra add p fuel
  parseZephyrAmounts p fuel
  parseRct
  assign .numHashes (← getVarint p fuel)
  onlyIf (hashes = true) (parseHashes add p fuel is_fcmp_pp)
  pure true

/-- The blob and the coin in the object, the reader at the start of the blob. -/
def start (t : BlockTemplate) (blob : Bytes) (coin : Coin) : Scan Parse where
  mem := blob
  cur := { size := blob.length }
  data := { t := Function.update (Function.update t .blob blob) .coin coin }

/-- What the caller of `parse` sees: every exception is caught.
mirrors src/base/tools/cryptonote/BlockTemplate.cpp:154-160 -/
inductive Outcome where
  | returned (rc : Bool)
  | undefined
  | fuel
  deriving DecidableEq, Repr

def outcome : EStateM.Result (Halt Bool) (Scan Parse) Bool → Outcome
  | .ok rc _ | .error (.ret rc) _ => .returned rc
  | .error .thrown _ => .returned false
  | .error .undefined _ => .undefined
  | .error .fuel _ => .fuel

/-- The object after a call, what the call returned, its accesses and the
members it assigned. -/
structure Parsed where
  rc : Outcome
  t : BlockTemplate
  log : List Access := []
  written : List Member := []

def parsed (r : EStateM.Result (Halt Bool) (Scan Parse) Bool) : Parsed where
  rc := outcome r
  t := (EStateM.Result.scan r).data.t
  log := (EStateM.Result.scan r).log
  written := (EStateM.Result.scan r).data.written

/-- `parse` of a `Buffer`.
mirrors src/base/tools/cryptonote/BlockTemplate.cpp:146-161 -/
def parse (t : BlockTemplate) (blob : Bytes) (coin : Coin) (hashes : Bool) : Parsed :=
  if blob.length < kMinSize then { rc := .returned false, t := t }
  else parsed (parseBody add p fuel hashes (start t blob coin))

end

end BlockTemplate

end Rxs
