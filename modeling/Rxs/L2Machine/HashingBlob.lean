import Rxs.L1Encoding.HashTable
import Rxs.L1Encoding.Varint
import Rxs.L2Machine.JobText

/-!
# The hashing blob and its count

`generateHashingBlob` puts the root of the tree of hashes behind the header of the
template, and then the number of transactions as a varint. `Job::getNumTransactions`
reads at most four bytes at a place that depends on the algorithm only.

* `readTransactions_varintBytes`: what was written is read.
* **`hashing_blob`**: a job that takes the blob of an accepted template has its count,
  and the root before it, unless the template is a game update: its hashes are not read.
* `hashing_blob_fails`: a game update.
-/
namespace Rxs

open Rxs.Core

namespace BlockTemplate

/-- mirrors src/base/tools/cryptonote/BlockTemplate.cpp:193-207 -/
def generateHashingBlob (t : BlockTemplate) : Bytes :=
  (t .blob).take (t (.offset .MINER_TX_PREFIX_OFFSET)).toNat ++ t .rootHash ++
    L1.Varint.varintBytes (t .numHashes + 1)

end BlockTemplate

namespace Job

/-- mirrors src/base/net/stratum/Job.cpp:207-213 -/
def readTransactions : Bytes → Nat → UInt32 → UInt32
  | [], _, num_transactions => num_transactions
  | b :: blob, k, num_transactions =>
    let num_transactions := num_transactions ||| (b &&& 0x7F).toUInt32 <<< UInt32.ofNat k
    if b &&& 0x80 = 0 then num_transactions else readTransactions blob (k + 7) num_transactions

/-- mirrors src/base/net/stratum/Job.cpp:195-217 -/
def getNumTransactions (j : Job) : UInt32 :=
  if j.algorithm.isRandomX = false then 0
  else
    let expected_tx_offset := if j.algorithm = .RX_WOW then 141 else 75
    if j.size > expected_tx_offset ∧ j.size ≤ expected_tx_offset + 4 then
      readTransactions (j.blob.drop expected_tx_offset) 0 0
    else 0

end Job

namespace L2.HashingBlob

open BlockTemplate L1.ParseForward L1.HashTable L1.MerkleTree
open L1.Varint (varintBytes varintBytes_eq length_varintBytes shr7)
open Core.HashTree (root)

/-! ## The varint -/

/-- Seven bits are put above those that are there. -/
theorem or_shift {num x : UInt32} {k : Nat} (hk : k < 32) (hnum : num.toNat < 2 ^ k)
    (hfits : num.toNat + 2 ^ k * x.toNat < 2 ^ 32) :
    (num ||| x <<< UInt32.ofNat k).toNat = num.toNat + 2 ^ k * x.toNat := by
  have hk32 : (UInt32.ofNat k).toNat % 32 = k := by
    rw [UInt32.toNat_ofNat']
    omega
  rw [UInt32.toNat_or, UInt32.toNat_shiftLeft, hk32, Masks.or_shift (by omega) hnum,
    Nat.mod_eq_of_lt hfits]

theorem readTransactions_cons (b : UInt8) (blob : Bytes) (k : Nat) (num : UInt32) :
    Job.readTransactions (b :: blob) k num =
      if b < 0x80 then num ||| (b &&& 0x7F).toUInt32 <<< UInt32.ofNat k
      else Job.readTransactions blob (k + 7) (num ||| (b &&& 0x7F).toUInt32 <<< UInt32.ofNat k) := by
  rw [Job.readTransactions]
  have h := BlobReader.and_0x80 b
  by_cases hb : b < 0x80
  · rw [if_pos hb, if_pos (by simpa [hb] using h)]
  · rw [if_neg hb, if_neg (by simpa [hb] using h)]

theorem payload (n : Nat) (b : UInt8) (h : b.toNat % 128 = n % 128) :
    (b &&& 0x7F).toUInt32.toNat = n % 128 := by
  have h7F : (0x7F : UInt8).toNat = 2 ^ 7 - 1 := rfl
  rw [UInt8.toNat_toUInt32, UInt8.toNat_and, h7F, Nat.and_two_pow_sub_one_eq_mod]
  exact h

/-- **The count is read back**: the bits of `num` are below `k`, those of the rest above. -/
theorem readTransactions_varintBytes {n : UInt64} {k : Nat} {num : UInt32} (hk : k < 28)
    (hnum : num.toNat < 2 ^ k) (hn : 2 ^ k * n.toNat < 2 ^ 28) :
    (Job.readTransactions (varintBytes n) k num).toNat = num.toNat + 2 ^ k * n.toNat := by
  induction h : n.toNat using Nat.strongRecOn generalizing n k num with
  | ind m ih =>
    subst h
    have hpow : 2 ^ k ≤ 2 ^ 27 := Nat.pow_le_pow_right (by decide) (by omega)
    have h80 : (0x80 : UInt8).toNat = 128 := rfl
    have hmod : 2 ^ k * (n.toNat % 128) ≤ 2 ^ k * n.toNat :=
      Nat.mul_le_mul_left _ (Nat.mod_le _ _)
    rw [varintBytes_eq]
    by_cases hlast : n.toNat < 128
    · have hbyte : (UInt8.ofNat n.toNat).toNat = n.toNat := by
        rw [UInt8.toNat_ofNat']
        omega
      have hpay := payload n.toNat (UInt8.ofNat n.toNat) (by rw [hbyte])
      rw [if_pos hlast, readTransactions_cons,
        if_pos (by rw [UInt8.lt_iff_toNat_lt, hbyte]; exact hlast),
        or_shift (by omega) hnum (by rw [hpay]; omega), hpay, Nat.mod_eq_of_lt hlast]
    · have hbyte : (UInt8.ofNat (n.toNat % 128 + 128)).toNat = n.toNat % 128 + 128 := by
        rw [UInt8.toNat_ofNat']
        omega
      have hpay := payload n.toNat (UInt8.ofNat (n.toNat % 128 + 128)) (by rw [hbyte]; omega)
      have hnext := or_shift (x := (UInt8.ofNat (n.toNat % 128 + 128) &&& 0x7F).toUInt32)
        (show k < 32 by omega) hnum (by rw [hpay]; omega)
      rw [hpay] at hnext
      have hpow7 : 2 ^ (k + 7) = 2 ^ k * 128 := Nat.pow_add 2 k 7
      have hsplit : 2 ^ k * n.toNat = 2 ^ k * (n.toNat % 128) + 2 ^ (k + 7) * (n.toNat / 128) := by
        rw [hpow7, Nat.mul_assoc, ← Nat.mul_add, Nat.mod_add_div]
      have hle : 2 ^ k * (n.toNat % 128) ≤ 2 ^ k * 127 := Nat.mul_le_mul_left _ (by omega)
      have hone : 2 ^ (k + 7) * 1 ≤ 2 ^ (k + 7) * (n.toNat / 128) :=
        Nat.mul_le_mul_left _ (by omega)
      have hk7 : k + 7 < 28 := (Nat.pow_lt_pow_iff_right (a := 2) (by decide)).mp (by omega)
      rw [if_neg hlast, readTransactions_cons,
        if_neg (by rw [UInt8.lt_iff_toNat_lt, hbyte, h80]; omega),
        ih (n.toNat / 128) (by omega) hk7 (by rw [hnext]; omega) (by rw [shr7]; omega) (shr7 n),
        hnext]
      omega

/-! ## The law -/

/-- The header up to the miner transaction, with the signature of Wownero. -/
def headerSize (coin : Coin) : Nat := if coin = .WOWNERO then 109 else 43

/-- An algorithm of RandomX, Wownero's for its coin only. -/
def Matches (coin : Coin) (algorithm : Algorithm) : Prop :=
  algorithm ≠ .INVALID ∧ (algorithm = .RX_WOW ↔ coin = .WOWNERO)

theorem matches_algorithm {coin : Coin} (h : coin.isValid = true) : Matches coin coin.algorithm := by
  cases coin <;> first | cases h; done | simp [Matches, Coin.algorithm]

/-- A game update: `parse` stops before the count. -/
def isUpdate (t : BlockTemplate) : Prop := t .coin = .TOWNFORGE ∧ t .height % 720 = 0

/-- The job has the count of the template, and before it the root of the tree of its hashes. -/
structure Agrees (p : Platform) (t : BlockTemplate) (j : Job) : Prop where
  count : (t .numHashes).toNat + 1 < 2 ^ 28 →
    j.getNumTransactions.toNat = (t .numHashes).toNat + 1
  root : ∃ hs : List Bytes, (∀ x ∈ hs, x.length = 32) ∧ t .hashes = hs.flatten ∧
    hs.length = coinbaseIndex t + (t .numHashes).toNat + 1 ∧
    Bytes.slice j.blob (headerSize (t .coin)) 32 = root (node p.keccak) hs
  behind : j.blob.drop (headerSize (t .coin) + 32) = varintBytes (t .numHashes + 1)

/-- The hashes of a table. -/
theorem exists_hashes (n : Nat) {h : Bytes} (hn : h.length = 32 * n) :
    ∃ hs : List Bytes, (∀ x ∈ hs, x.length = 32) ∧ h = hs.flatten ∧ hs.length = n := by
  induction n generalizing h with
  | zero => exact ⟨[], nofun, List.eq_nil_of_length_eq_zero hn, rfl⟩
  | succ n ih =>
    obtain ⟨hs, h32, hflat, hlen⟩ := ih (h := h.drop 32) (by rw [List.length_drop]; omega)
    refine ⟨h.take 32 :: hs, List.forall_mem_cons.mpr ⟨?_, h32⟩, ?_, by rw [List.length_cons, hlen]⟩
    · rw [List.length_take]
      omega
    · rw [List.flatten_cons, ← hflat, List.take_append_drop]

/-- **Blob and count agree**: a job that takes the hashing blob of a template that was parsed with
hashes, and has the header that the algorithm expects. -/
theorem hashing_blob (p : Platform) (fuel : Nat) (t₀ t : BlockTemplate) (blob : Buffer)
    (coin : Coin) (hparse : (parse Scanner.wrap p fuel t₀ blob coin true).rc = .returned true)
    (ht : (parse Scanner.wrap p fuel t₀ blob coin true).t = t) (hupdate : ¬ isUpdate t)
    (hheader : (t (.offset .MINER_TX_PREFIX_OFFSET)).toNat = headerSize coin)
    (j j' : Job) (hj : Matches coin j.algorithm) (text : Bytes)
    (htext : Cvt.pairs text = some (generateHashingBlob t))
    (hset : j.setBlob (some text) = (j', true)) : Agrees p t j' := by
  obtain ⟨hblob, hcoin, hparsed⟩ := accepted_parse hparse
  rw [ht] at hblob hcoin hparsed
  obtain ⟨hle, hsmall, htable, htree⟩ := hparsed.resolve_left hupdate
  obtain ⟨hs, h32, hflat, hlen⟩ := exists_hashes _ htable
  have hroot : t .rootHash = root (node p.keccak) hs := by
    rw [htree.root, hflat, calculate_root p.keccak h32 _ (by omega)]
  have hroot32 : (t .rootHash).length = 32 := by
    rw [hroot]
    exact length_root p.keccak p.keccak_length h32 (by omega)
  have hfront : ((t .blob).take (headerSize coin)).length = headerSize coin := by
    rw [List.length_take, hblob, ← hheader]
    omega
  obtain ⟨b, hb⟩ | ⟨hex, w, n, hhex, hpairs, hjob⟩ := Job.setBlob_cases j (some text)
  · rw [hb] at hset
    cases congrArg Prod.snd hset
  · cases hhex
    rw [htext] at hpairs
    have hw : w = (t .blob).take (headerSize coin) ++ t .rootHash ++
        varintBytes (t .numHashes + 1) := by
      rw [← hheader]
      exact (Option.some.inj hpairs).symm
    rw [hjob] at hset
    cases hset
    have hone : (t .numHashes + 1).toNat = (t .numHashes).toNat + 1 := by
      have h1 : (1 : UInt64).toNat = 1 := rfl
      unfold L1.HashTable.Small at hsmall
      rw [UInt64.toNat_add, h1]
      omega
    have hdrop : w.drop (headerSize coin + 32) = varintBytes (t .numHashes + 1) := by
      rw [hw, List.drop_left' (by rw [List.length_append, hfront, hroot32])]
    refine ⟨fun hlt => ?_, ⟨hs, h32, hflat, hlen, ?_⟩, by rw [hcoin]; exact hdrop⟩
    · have hoff : (if j.algorithm = .RX_WOW then 141 else 75) = headerSize coin + 32 := by
        unfold headerSize
        by_cases hwow : coin = .WOWNERO
        · rw [if_pos (hj.2.mpr hwow), if_pos hwow]
        · rw [if_neg (mt hj.2.mp hwow), if_neg hwow]
      have hsize : w.length = headerSize coin + 32 + (varintBytes (t .numHashes + 1)).length := by
        rw [hw, List.length_append, List.length_append, hfront, hroot32]
      have hbytes := length_varintBytes (n := 3) (k := t .numHashes + 1) (by rw [hone]; exact hlt)
      have hread := @readTransactions_varintBytes (t .numHashes + 1) 0 0 (by decide) (by decide)
        (by rw [hone]; omega)
      unfold Job.getNumTransactions Job.size
      simp only [hoff]
      rw [if_neg (by rw [(Algorithm.isRandomX_iff _).mpr hj.1]; decide), if_pos (by omega), hdrop,
        hread, hone]
      have h0 : (0 : UInt32).toNat = 0 := rfl
      rw [h0, Nat.pow_zero, Nat.one_mul, Nat.zero_add]
    · rw [hcoin, ← hroot]
      show (w.drop (headerSize coin)).take 32 = _
      rw [hw, List.append_assoc, List.drop_left' hfront, List.take_left' hroot32]

/-- A Monero template with two transactions, and the text of its hashing blob. -/
def template : BlockTemplate := (parse Scanner.wrap Platform.sample 16 fresh fcmpBlob .MONERO true).t

def templateText : Bytes :=
  Cvt.bin2hex ((template .blob).take 43 ++ template .rootHash ++ [3])

theorem pairs_templateText : Cvt.pairs templateText = some (generateHashingBlob template) := by
  have hoffset : (template (.offset .MINER_TX_PREFIX_OFFSET)).toNat = 43 := by decide +kernel
  have hcount : template .numHashes + 1 = 3 := by decide +kernel
  have hbytes : varintBytes 3 = [3] := varintBytes_eq 3
  rw [templateText, Cvt.pairs_bin2hex, generateHashingBlob, hoffset, hcount, hbytes]

theorem taken_templateText : ({ algorithm := .RX_0 } : Job).setBlob (some templateText) =
    ((({ algorithm := .RX_0 } : Job).setBlob (some templateText)).1, true) := by
  have h : (({ algorithm := .RX_0 } : Job).setBlob (some templateText)).2 = true := by
    decide +kernel
  rw [← h]

/-- `hashing_blob` at that template. -/
theorem hashing_blob_template : Agrees Platform.sample template
    (({ algorithm := .RX_0 } : Job).setBlob (some templateText)).1 :=
  hashing_blob Platform.sample 16 fresh template fcmpBlob .MONERO (by decide +kernel)
    (by rw [template]) (fun h => absurd h.1 (by decide +kernel)) (by decide +kernel)
    { algorithm := .RX_0 } (({ algorithm := .RX_0 } : Job).setBlob (some templateText)).1
    (by simp [Matches]) templateText pairs_templateText taken_templateText

/-- A Townforge template of height 720, with two transactions behind the miner transaction. -/
def updateBlob : Buffer :=
  ⟨[16, 16, 0x80, 0x80, 0x80, 0x80, 0x06] ++ List.replicate 36 0 ++
    [2, 1, 0xFF, 0xD0, 0x05, 1, 0, 2] ++ List.replicate 32 0 ++ [60, 33, 1] ++
    List.replicate 32 0 ++ [0, 2] ++ List.replicate 64 7, by decide +kernel⟩

def update : BlockTemplate := (parse Scanner.wrap Platform.sample 16 fresh updateBlob .TOWNFORGE true).t

def updateText : Bytes := Cvt.bin2hex ((update .blob).take 43 ++ update .rootHash ++ [1])

theorem pairs_updateText : Cvt.pairs updateText = some (generateHashingBlob update) := by
  have hoffset : (update (.offset .MINER_TX_PREFIX_OFFSET)).toNat = 43 := by decide +kernel
  have hcount : update .numHashes + 1 = 1 := by decide +kernel
  have hbytes : varintBytes 1 = [1] := varintBytes_eq 1
  rw [updateText, Cvt.pairs_bin2hex, generateHashingBlob, hoffset, hcount, hbytes]

/-- A game update is accepted before its hashes are read: the root is that of no tree. -/
theorem hashing_blob_fails :
    (parse Scanner.wrap Platform.sample 16 fresh updateBlob .TOWNFORGE true).rc = .returned true ∧
      (update (.offset .MINER_TX_PREFIX_OFFSET)).toNat = headerSize .TOWNFORGE ∧
      Matches .TOWNFORGE .RX_0 ∧ Cvt.pairs updateText = some (generateHashingBlob update) ∧
      (({ algorithm := .RX_0 } : Job).setBlob (some updateText)).2 = true ∧
      ¬ Agrees Platform.sample update
        (({ algorithm := .RX_0 } : Job).setBlob (some updateText)).1 := by
  refine ⟨by decide +kernel, by decide +kernel, by simp [Matches], pairs_updateText,
    by decide +kernel, fun h => ?_⟩
  obtain ⟨hs, h32, hflat, hlen, -⟩ := h.root
  have hnone : update .hashes = [] := by decide +kernel
  rw [hnone] at hflat
  cases hs with
  | nil => exact absurd hlen (by simp)
  | cons x hs =>
    have hx := h32 x (List.mem_cons_self ..)
    have := congrArg List.length hflat
    rw [List.flatten_cons, List.length_append, List.length_nil] at this
    omega

end L2.HashingBlob

end Rxs
