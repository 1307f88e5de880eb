import Rxs.L1Encoding.WalletAddress
import Rxs.L2Machine.JobText
import Rxs.L3Protocol.Client
import Rxs.L3Protocol.SelfSelect

/-!
# The daemon client

`DaemonClient` mines on block templates of its daemon. `parseJob` takes the template
of an answer and makes a job of it, `submit` writes a result into the text of the
template and sends that back.

The string of a JSON value has a 32-bit length, and text is what precedes its first
zero byte; `none` is a null pointer. The functions on keys are parameters. A read
outside the template, a write outside its text and a missing signature are
`undefined`. `fuel` bounds the loops of the parser.

* `parseJob`: the client after an answer, and what the call returned.
* `submit`: the client after a result, and what was sent.
-/
namespace Rxs

open Rxs.Core

/-- A text as a JSON value holds it. -/
abbrev JsonText := { text : Bytes // text.length < 2 ^ 32 }

namespace BlockTemplate

/-- `std::vector::resize`. -/
def resize (b : Bytes) (n : Nat) : Bytes := b.take n ++ List.replicate (n - b.length) 0

/-- `parse` of a text: a text that stops being hexadecimal has overwritten a part of
the blob.
mirrors src/base/tools/cryptonote/BlockTemplate.cpp:164-179 and
src/base/tools/Cvt.cpp:147-157 -/
def parseText (p : Platform) (fuel : Nat) (t : BlockTemplate) (text : Bytes) (coin : Coin)
    (hashes : Bool) : Parsed :=
  if text.length < kMinSize * 2 then { rc := .returned false, t := t }
  else
    let blob := resize (t .blob) (text.length / 2)
    match Cvt.fromHex (text.length / 2) text with
    | (w, false) =>
      { rc := .returned false, t := Function.update t .blob (w ++ blob.drop w.length) }
    | (w, true) => parsed (parseBody Scanner.wrap p fuel hashes (start t w coin))

/-- The key at an offset of the blob.
mirrors src/base/tools/cryptonote/BlockTemplate.h:63 -/
def keyAt (t : BlockTemplate) (o : Offset) : Option Bytes :=
  if (t (.offset o)).toNat + 32 ≤ (t .blob).length then
    some (Bytes.slice (t .blob) (t (.offset o)).toNat 32)
  else none

end BlockTemplate

namespace Job

/-- mirrors src/base/net/stratum/Job.h:108 -/
def toDiff (target : Nat) : Nat := if target = 0 then 0 else (2 ^ 64 - 1) / target

end Job

namespace DaemonClient

/-- mirrors src/base/tools/cryptonote/Signatures.h:28-37 -/
structure Keys where
  secret_key_to_public_key : Bytes → Option Bytes
  derive_view_secret_key : Bytes → Bytes
  generate_key_derivation : Bytes → Bytes → Option Bytes
  derive_secret_key : Bytes → Nat → Bytes → Bytes

/-- The result object of a daemon's answer, as the typed getters see it. -/
structure Params where
  blocktemplate_blob : Option JsonText := none
  blockhashing_blob : Option Bytes := none
  seed_hash : Option Bytes := none
  height : Nat := 0
  difficulty : Nat := 0
  prev_hash : Option Bytes := none
  deriving DecidableEq

/-- What `parseJob` returned, with the code it set. -/
inductive JobOutcome where
  | accepted
  | rejected (code : Nat)
  | undefined
  | fuel
  deriving DecidableEq, Repr

/-- Why there are no keys: `jobError`, or a read outside the template. -/
inductive KeyError where
  | jobError
  | undefined
  deriving DecidableEq, Repr

/-- The members of a result that `submit` reads; `minerSignature` is 64 bytes or
null. -/
structure JobResult where
  jobId : String
  nonce : UInt64
  minerSignature : Option { sig : Bytes // sig.length = 64 }
  deriving DecidableEq

inductive Submission where
  | refused
  | undefined
  | sent (block : Bytes)
  deriving DecidableEq, Repr

end DaemonClient

/-- `algorithm`, `spendSecretKey` and `user` are those of the pool.
mirrors src/base/net/stratum/DaemonClient.h:99-113 -/
structure DaemonClient where
  algorithm : Algorithm := .INVALID
  spendSecretKey : Bytes := []
  user : Bytes := []
  coin : Coin := .INVALID
  blocktemplate : BlockTemplate := BlockTemplate.fresh
  blockhashingblob : Option Bytes := none
  blocktemplateStr : Bytes := []
  currentJobId : String := ""
  job : TemplateJob := {}
  prevHash : Option Bytes := none
  jobSteadyMs : Nat := 0
  walletAddress : WalletAddress := {}
  state : SocketState := .UnconnectedState

namespace DaemonClient

section
variable (keys : Keys) (p : Platform) (outside : UInt8 → Option UInt64)

/-- The keys a miner signature is made with; the address is decoded on the way.
mirrors src/base/net/stratum/DaemonClient.cpp:421-474 -/
def ephemeralKeys (c : DaemonClient) : EStateM KeyError WalletAddress EphemeralKeys := do
  if c.spendSecretKey = [] then throw .jobError
  if c.spendSecretKey.length ≠ 64 then throw .jobError
  let (secret_spendkey, true) := Cvt.fromHex 32 c.spendSecretKey | throw .jobError
  let some public_spendkey := keys.secret_key_to_public_key secret_spendkey
    | throw .jobError
  let secret_viewkey := keys.derive_view_secret_key secret_spendkey
  let some public_viewkey := keys.secret_key_to_public_key secret_viewkey
    | throw .jobError
  let some tx_pubkey := c.blocktemplate.keyAt .TX_PUBKEY_OFFSET | throw .undefined
  let some derivation := keys.generate_key_derivation tx_pubkey secret_viewkey
    | throw .jobError
  let (walletAddress, decoded) := (← get).decode outside p c.user
  set walletAddress
  if decoded = false then throw .jobError
  if walletAddress.publicSpendKey ≠ public_spendkey then throw .jobError
  if walletAddress.publicViewKey ≠ public_viewkey then throw .jobError
  let some eph_public_key := c.blocktemplate.keyAt .EPH_PUBLIC_KEY_OFFSET | throw .undefined
  pure ⟨eph_public_key, keys.derive_secret_key derivation 0 secret_spendkey⟩

/-- The keys, if the template asks for a signature. -/
def signatureKeys (c : DaemonClient) : EStateM KeyError WalletAddress (Option EphemeralKeys) := do
  if c.blocktemplate.hasMinerSignature then
    let k ← ephemeralKeys keys p outside c
    pure (some k)
  else pure none

/-- Once the template is parsed and the keys are known: `jobId` is four random
bytes, `now` is the clock.
mirrors src/base/net/stratum/DaemonClient.cpp:476-500 -/
def takeJob (c : DaemonClient) (params : Params) (text : Bytes) (ephKeys : Option EphemeralKeys)
    (jobId : String) (now : Nat) : DaemonClient × JobOutcome :=
  let job : Job :=
    { algorithm := if c.coin.isValid then c.coin.algorithm else c.algorithm, ephKeys := ephKeys }
  match job.setBlob c.blockhashingblob with
  | (_, false) => (c, .rejected 3)
  | (job, true) =>
    let job := (job.setSeedHash params.seed_hash).1
    let job := { job with target := Job.toDiff params.difficulty, id := jobId }
    ({ c with
      currentJobId := jobId
      job := { toJob := job, height := params.height }
      blocktemplateStr := text
      prevHash := params.prev_hash
      jobSteadyMs := now
      state := if c.state = .ConnectingState then .ConnectedState else c.state }, .accepted)

/-- mirrors src/base/net/stratum/DaemonClient.cpp:379-501 -/
def parseJob (fuel : Nat) (c : DaemonClient) (params : Params) (jobId : String) (now : Nat) :
    DaemonClient × JobOutcome :=
  match params.blocktemplate_blob with
  | none => (c, .rejected 1)
  | some text =>
    let r := c.blocktemplate.parseText p fuel text c.coin false
    let c := { c with blocktemplate := r.t }
    match r.rc with
    | .undefined => (c, .undefined)
    | .fuel => (c, .fuel)
    | .returned false => (c, .rejected 1)
    | .returned true =>
      let c := { c with blockhashingblob := params.blockhashing_blob }
      match signatureKeys keys p outside c c.walletAddress with
      | .error .jobError w => ({ c with walletAddress := w }, .rejected 1)
      | .error .undefined w => ({ c with walletAddress := w }, .undefined)
      | .ok ephKeys w => takeJob { c with walletAddress := w } params text ephKeys jobId now

end

/-- `Cvt::toHex(data + 2 * off, 2 * |bin|, bin, |bin|)`. -/
def overwrite (data : Bytes) (off : Nat) (bin : Bytes) : Option Bytes :=
  if 2 * off + 2 * bin.length ≤ data.length then
    some (Bytes.writeAt data (2 * off) (Cvt.bin2hex bin))
  else none

/-- The text of the template with a result in it.
mirrors src/base/net/stratum/DaemonClient.cpp:139-169 -/
def patch (c : DaemonClient) (result : JobResult) : Option Bytes := do
  let sig_offset := c.job.nonceOffset + c.job.nonceSize
  let data ← overwrite c.blocktemplateStr c.job.nonceOffset (Bytes.le 4 result.nonce.toNat)
  if c.blocktemplate.hasMinerSignature then
    let sig ← result.minerSignature
    overwrite data sig_offset sig
  else some data

/-- mirrors src/base/net/stratum/DaemonClient.cpp:133-190 -/
def submit (c : DaemonClient) (result : JobResult) : DaemonClient × Submission :=
  if result.jobId ≠ c.currentJobId then (c, .refused)
  else
    match c.patch result with
    | none => (c, .undefined)
    | some data => ({ c with blocktemplateStr := data }, .sent data)

end DaemonClient

end Rxs
