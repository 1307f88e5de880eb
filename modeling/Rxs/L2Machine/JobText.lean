import Rxs.L1Encoding.BlockTemplate
import Rxs.L1Encoding.Cvt
import Rxs.L2Machine.Job

/-!
# Jobs from text

`Job::setBlob` and `Job::setSeedHash` read hexadecimal text from a pool or a
daemon; `none` is a null pointer. Both report failure, and both may have changed
the job when they do: a blob that stops being hexadecimal has overwritten what
came before, a seed hash that is not hexadecimal has cleared the seed. `setTarget`
divides by a number of the text; `none` is a division by zero.

* `setBlob_cases`: what the job holds afterwards.
* `setSeedHash_eq`: the seed is that of the text, unless the text has another
  length and the job had a seed before.
-/
namespace Rxs

open Rxs.Core

/-- The algorithm column of `coinInfo`; the blob version takes no part.
mirrors src/base/crypto/Coin.cpp:47-56,81-84 -/
def Coin.algorithm : Coin → Algorithm
  | .INVALID => .INVALID
  | .MONERO => .RX_0
  | .ARQMA => .RX_ARQ
  | .GRAFT => .RX_GRAFT
  | .WOWNERO => .RX_WOW
  | .ZEPHYR => .RX_0
  | .TOWNFORGE => .RX_0
  | .YADA => .RX_YADA

def Coin.isValid (c : Coin) : Bool := c ≠ .INVALID

namespace Job

/-- The text of a C string. -/
def text (s : Bytes) : String := String.ofList (s.map fun c => Char.ofNat c.toNat)

/-- mirrors src/base/net/stratum/Job.h:49-49 -/
def kMaxSeedSize : Nat := 32

/-- mirrors src/base/net/stratum/Job.cpp:59-92 -/
def setBlob (j : Job) (blob : Option Bytes) : Job × Bool :=
  match blob with
  | none => (j, false)
  | some blob =>
    if blob.length % 2 ≠ 0 then (j, false)
    else
      let size := blob.length / 2
      if size < j.nonceOffset + j.nonceSize ∨ kMaxBlobSize ≤ size then (j, false)
      else
        match Cvt.fromHex kMaxBlobSize blob with
        | (w, false) => ({ j with blob := (w ++ j.blob.drop w.length).take j.blob.length }, false)
        | (w, true) =>
          let j := { j with blob := w }
          ({ j with nicehash := j.nicehash || j.nonce ≠ 0 }, true)

/-- mirrors src/base/net/stratum/Job.cpp:95-108 -/
def setSeedHash (j : Job) (hash : Option Bytes) : Job × Bool :=
  match hash with
  | none => (j, false)
  | some hash =>
    if hash.length ≠ kMaxSeedSize * 2 then (j, false)
    else
      match Cvt.fromHex kMaxSeedSize hash with
      | (_, false) => ({ j with seed := [] }, false)
      | (w, true) => ({ j with seed := w }, true)

/-- mirrors src/base/net/stratum/Job.h:70 and src/base/tools/String.h:77 -/
def setId (j : Job) (id : Option Bytes) : Job × Bool :=
  match id with
  | none => ({ j with id := "" }, false)
  | some id => ({ j with id := text id }, true)

def isspace (c : UInt8) : Bool := c = 32 || (9 ≤ c && c ≤ 13)

/-- A digit of base 16 behind `0x`. -/
def marked (s : Bytes) : Bool :=
  s.head? = some 48 ∧ (s[1]? = some 120 ∨ s[1]? = some 88) ∧ ((s[2]?).bind Cvt.value).isSome

/-- `strtoull(s, nullptr, 16)`. -/
def strtoull16 (s : Bytes) : Nat :=
  let s := s.dropWhile isspace
  let neg : Bool := s.head? = some 45
  let s := if s.head? = some 45 ∨ s.head? = some 43 then s.tail else s
  let digits := ((if marked s then s.drop 2 else s).map Cvt.value).takeWhile Option.isSome
  let n := digits.foldl (fun n d => n * 16 + (d.getD 0).toNat) 0
  if 2 ^ 64 ≤ n then 2 ^ 64 - 1 else if neg then (2 ^ 64 - n) % 2 ^ 64 else n

/-- mirrors src/base/net/stratum/Job.cpp:113-132 -/
def parseTarget (algorithm : Algorithm) (target : Bytes) : Option Nat :=
  if algorithm = .RX_YADA then some (strtoull16 target)
  else
    match Cvt.fromHex (target.length / 2) target with
    | (_, false) => some 0
    | (raw, true) =>
      if raw.length = 4 then
        if Bytes.readLE raw = 0 then none
        else some ((2 ^ 64 - 1) / ((2 ^ 32 - 1) / Bytes.readLE raw))
      else if raw.length = 8 then some (Bytes.readLE raw)
      else some 0

/-- mirrors src/base/net/stratum/Job.cpp:111-152 -/
def setTarget (j : Job) (target : Option Bytes) : Option (Job × Bool) :=
  match target with
  | none => some (j, false)
  | some target =>
    if target.length < 4 then some (j, false)
    else (parseTarget j.algorithm target).map fun t => ({ j with target := t }, t ≠ 0)

/-- mirrors src/base/net/stratum/Job.cpp:176-192 -/
def setSigKey (j : Job) (sig_key : Option Bytes) : Job :=
  match sig_key with
  | none => j
  | some key =>
    if key.length ≠ 128 then j
    else
      match Cvt.fromHex 64 key with
      | (_, false) => j
      | (w, true) => { j with ephKeys := some ⟨w.take 32, w.drop 32⟩ }

/-- A refused blob changes at most the blob; a blob that is taken is the bytes of
its text. -/
theorem setBlob_cases (j : Job) (blob : Option Bytes) :
    (∃ b, j.setBlob blob = ({ j with blob := b }, false)) ∨
      ∃ hex w n, blob = some hex ∧ Cvt.pairs hex = some w ∧
        j.setBlob blob = ({ j with blob := w, nicehash := n }, true) := by
  cases blob with
  | none => exact .inl ⟨j.blob, rfl⟩
  | some hex =>
    simp only [setBlob]
    by_cases h₁ : hex.length % 2 ≠ 0
    · exact .inl ⟨j.blob, if_pos h₁⟩
    · simp only [if_neg h₁]
      by_cases h₂ : hex.length / 2 < j.nonceOffset + j.nonceSize ∨ kMaxBlobSize ≤ hex.length / 2
      · exact .inl ⟨j.blob, if_pos h₂⟩
      · simp only [if_neg h₂]
        rcases hw : Cvt.fromHex kMaxBlobSize hex with ⟨w, _ | _⟩
        · exact .inl ⟨_, rfl⟩
        · exact .inr ⟨hex, w, _, rfl, (Cvt.fromHex_eq.mp hw).2.1, rfl⟩

/-- The bytes of a seed hash, none if it is refused. -/
def seedOf (hash : Option Bytes) : Bytes := (({} : Job).setSeedHash hash).1.seed

/-- A seed hash of another length leaves the seed of the job as it was. -/
theorem setSeedHash_eq {j : Job} {hash : Option Bytes}
    (h : j.seed = [] ∨ ∃ s, hash = some s ∧ s.length = kMaxSeedSize * 2) :
    (j.setSeedHash hash).1 = { j with seed := seedOf hash } := by
  cases hash with
  | none =>
    rcases h with h | ⟨s, h, -⟩
    · show j = { j with seed := [] }
      rw [← h]
    · cases h
  | some s =>
    unfold seedOf setSeedHash
    by_cases hl : s.length ≠ kMaxSeedSize * 2
    · rcases h with h | ⟨s', h, hl'⟩
      · simp only [if_pos hl]
        show j = { j with seed := [] }
        rw [← h]
      · cases h; exact absurd hl' hl
    · simp only [if_neg hl]
      rcases Cvt.fromHex kMaxSeedSize s with ⟨w, _ | _⟩
      · rfl
      · rfl

theorem setSeedHash_frame (j : Job) (hash : Option Bytes) :
    ∃ seed, (j.setSeedHash hash).1 = { j with seed := seed } := by
  unfold setSeedHash
  repeat' split
  all_goals exact ⟨_, rfl⟩

end Job

end Rxs
