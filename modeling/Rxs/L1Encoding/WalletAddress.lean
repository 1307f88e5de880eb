import Rxs.L1Encoding.Header

/-!
# `WalletAddress`

An address is text in blocks of eleven characters, each eight bytes in base 58; the
last block is shorter. `decode` takes the blocks apart in 64-bit words and reads the
bytes with a `BlobReader`. A Townforge address has four characters before it.

The table of digits is indexed with a `char`. Where that is signed, a character from
`0x80` on is an index before the table; `outside` is the entry that is read there.
An entry `none` is a negative one.

* `decodeBlock_eq`: a block that is taken is the number its digits give.
* `readFields_ends`: the reader does not run out of fuel.
-/
namespace Rxs

open Rxs.Core

/-- mirrors src/base/tools/cryptonote/WalletAddress.h:93-97 -/
structure WalletAddress where
  data : Bytes := []
  tag : UInt64 := 0
  checksum : Bytes := List.replicate 4 0
  publicSpendKey : Bytes := List.replicate 32 0
  publicViewKey : Bytes := List.replicate 32 0
  deriving DecidableEq, Repr

namespace WalletAddress

/-- mirrors src/base/tools/cryptonote/WalletAddress.h:47-50 -/
def kKeySize : UInt64 := 32
def kMaxSize : Nat := 256
def kMinDataSize : Nat := 69
def kMinSize : Nat := 95

/-- mirrors src/base/tools/cryptonote/WalletAddress.h:60 -/
def isValid (w : WalletAddress) : Bool := w.tag > 0 && w.data.length ≥ kMinSize

/-- mirrors src/base/tools/cryptonote/WalletAddress.cpp:38-50 -/
def townforgeTag (c₂ c₃ : UInt8) : Option UInt64 :=
  let number : Option UInt64 := if c₂ = 0x31 then some 0 else if c₂ = 0x32 then some 1 else none
  let net : Option UInt64 :=
    if c₃ = 0x4D then some 0 else if c₃ = 0x54 then some 0x10 else if c₃ = 0x53 then some 0x20
    else none
  number.bind fun number => net.map fun net => 0x424200 ||| number ||| net

/-- `tf_tag`, and the address after the characters `TF` and two more.
mirrors src/base/tools/cryptonote/WalletAddress.cpp:36-53 -/
def strip (address : Bytes) : Option (UInt64 × Bytes) :=
  if address.length ≥ 4 ∧ address.take 2 = [0x54, 0x46] then
    (townforgeTag (address.getD 2 0) (address.getD 3 0)).map fun tag => (tag, address.drop 4)
  else some (0, address)

/-- mirrors src/base/tools/cryptonote/WalletAddress.cpp:55-55 -/
def block_sizes : List Nat := [0, 2, 3, 5, 6, 7, 9, 10, 11]

/-- mirrors src/base/tools/cryptonote/WalletAddress.cpp:56-57 -/
def alphabet : Bytes :=
  ['1', '2', '3', '4', '5', '6', '7', '8', '9', 'A', 'B', 'C', 'D', 'E', 'F', 'G', 'H', 'J', 'K',
    'L', 'M', 'N', 'P', 'Q', 'R', 'S', 'T', 'U', 'V', 'W', 'X', 'Y', 'Z', 'a', 'b', 'c', 'd', 'e',
    'f', 'g', 'h', 'i', 'j', 'k', 'm', 'n', 'o', 'p', 'q', 'r', 's', 't', 'u', 'v', 'w', 'x', 'y',
    'z'].map fun c => UInt8.ofNat c.toNat

def alphabet_size : UInt64 := 58

/-- The low and the high word of a product. -/
def umul128 (a b : UInt64) : UInt64 × UInt64 := (a * b, UInt64.ofNat (a.toNat * b.toNat / 2 ^ 64))

/-- `num` with `k` bytes, the highest first.
mirrors src/base/tools/cryptonote/WalletAddress.cpp:119-122 -/
def blockBytes (num : UInt64) (k : Nat) : Bytes := ((Bytes.le 8 num.toNat).take k).reverse

section
variable (outside : UInt8 → Option UInt64)

/-- mirrors src/base/tools/cryptonote/WalletAddress.cpp:63-68 -/
def reverse_alphabet (c : UInt8) : Option UInt64 :=
  if c < 0x80 then (alphabet.findIdx? (· = c)).map UInt64.ofNat else outside c

/-- The characters of a block, the last one first.
mirrors src/base/tools/cryptonote/WalletAddress.cpp:98-115 -/
def decodeBlock : Bytes → UInt64 → UInt64 → Option UInt64
  | [], num, _ => some num
  | c :: address_data, num, order => do
    let digit ← reverse_alphabet outside c
    let (lo, hi) := umul128 order digit
    let tmp := num + lo
    if tmp < num ∨ hi ≠ 0 then none
    else decodeBlock address_data tmp (order * alphabet_size)

/-- `num_full_blocks` blocks, and the last one.
mirrors src/base/tools/cryptonote/WalletAddress.cpp:97-123 -/
def decodeBlocks (last_block_size last_block_size_index : Nat) :
    (num_full_blocks : Nat) → (address_data data : Bytes) → Option Bytes
  | 0, address_data, data => do
    let num ← decodeBlock outside (address_data.take last_block_size).reverse 0 1
    some (data ++ blockBytes num last_block_size_index)
  | n + 1, address_data, data => do
    let num ← decodeBlock outside (address_data.take 11).reverse 0 1
    decodeBlocks last_block_size last_block_size_index n (address_data.drop 11)
      (data ++ blockBytes num 8)

/-- The decoded bytes.
mirrors src/base/tools/cryptonote/WalletAddress.cpp:59-125 -/
def decodeData (address : Bytes) : Option Bytes :=
  if address.length < kMinSize ∨ address.length > kMaxSize then none
  else
    let num_full_blocks := address.length / 11
    let last_block_size := address.length % 11
    match block_sizes.findIdx? (· = last_block_size) with
    | none => none
    | some last_block_size_index =>
      if num_full_blocks * 8 + last_block_size_index < kMinDataSize then none
      else decodeBlocks outside last_block_size last_block_size_index num_full_blocks address []

/-- mirrors src/base/tools/cryptonote/BlobReader.h:45 -/
def remaining {ρ σ : Type} : Scanner ρ σ UInt64 := fun s =>
  .ok (UInt64.ofNat (s.cur.size - s.cur.index)) s

/-- mirrors src/base/tools/cryptonote/WalletAddress.cpp:127-129 -/
def readFields (p : Platform) (fuel : Nat) : Scanner Unit WalletAddress Unit := do
  let tag ← BlobReader.getVarint p fuel
  Scanner.update fun w => { w with tag := tag }
  let publicSpendKey ← BlobReader.getArray Scanner.wrap kKeySize
  Scanner.update fun w => { w with publicSpendKey := publicSpendKey }
  let publicViewKey ← BlobReader.getArray Scanner.wrap kKeySize
  Scanner.update fun w => { w with publicViewKey := publicViewKey }
  let n ← remaining
  let _ ← BlobReader.skip Scanner.wrap (n - 4)
  let checksum ← BlobReader.getArray Scanner.wrap 4
  Scanner.update fun w => { w with checksum := checksum }

/-- The reader at the start of `data`. -/
def reader (w : WalletAddress) (data : Bytes) : Scan WalletAddress where
  mem := data
  cur := { size := data.length }
  data := w

/-- The object after a call, and what the call returned.
mirrors src/base/tools/cryptonote/WalletAddress.cpp:34-147 -/
def decode (p : Platform) (w : WalletAddress) (address : Bytes) : WalletAddress × Bool :=
  match strip address with
  | none => (w, false)
  | some (tf_tag, address) =>
    match decodeData outside address with
    | none => (w, false)
    | some data =>
      match readFields p (data.length + 1) (reader w data) with
      | .error _ s => ({ s.data with tag := 0 }, false)
      | .ok _ s =>
        let md := p.keccak (data.take (data.length - 4))
        if s.data.checksum = md.take 4 then
          ({ s.data with data := address, tag := if tf_tag ≠ 0 then tf_tag else s.data.tag }, true)
        else ({ s.data with tag := 0 }, false)

end

/-! ## The reader of the bytes ends -/

/-- The scanner does not run out of fuel. -/
def Ends {ρ σ α : Type} (x : Scanner ρ σ α) (s : Scan σ) : Prop := ∀ t, x s ≠ .error .fuel t

theorem Ends.bind {ρ σ α β : Type} {x : Scanner ρ σ α} {f : α → Scanner ρ σ β} {s : Scan σ}
    (hx : Ends x s) (hf : ∀ a t, Ends (f a) t) : Ends (x >>= f) s := by
  intro u h
  change EStateM.bind x f s = _ at h
  unfold EStateM.bind at h
  cases hr : x s with
  | ok a t =>
    rw [hr] at h
    exact hf a t u h
  | error e t =>
    rw [hr] at h
    cases h
    exact hx u hr

theorem ends_take {ρ σ : Type} (add : Nat → UInt64 → Nat) (n : UInt64) (s : Scan σ) :
    Ends (Scanner.take add n : Scanner ρ σ Nat) s := by
  intro t h
  unfold Scanner.take at h
  split at h <;> cases h

theorem ends_getArray {ρ σ : Type} (add : Nat → UInt64 → Nat) (n : UInt64) (s : Scan σ) :
    Ends (BlobReader.getArray add n : Scanner ρ σ Bytes) s := by
  refine (ends_take add n s).bind fun i u t h => ?_
  unfold Scanner.peek at h
  split at h <;> cases h

theorem ends_update {ρ σ : Type} (f : σ → σ) (s : Scan σ) :
    Ends (Scanner.update f : Scanner ρ σ Unit) s := nofun

/-- Fuel for every byte is enough. -/
theorem readFields_ends (p : Platform) (w : WalletAddress) {data : Bytes}
    (h : data.length < 2 ^ 63) : Ends (readFields p (data.length + 1)) (reader w data) := by
  unfold readFields
  refine Ends.bind (fun t ht => ?_) fun _ _ => ?_
  · rcases BlobReader.getVarint_ran (ρ := Unit) (p := p) (s := reader w data) ⟨rfl, rfl, h⟩
        (data.length + 1) with ⟨n, -, -, hr⟩ | ⟨e, u, hr, -, he⟩
    · exact absurd (hr.symm.trans ht) nofun
    · have hlen : (BlobReader.rest (reader w data)).length = data.length := rfl
      rcases he with ⟨-, he, -⟩ | ⟨rfl, -⟩
      · omega
      · exact absurd (hr.symm.trans ht) nofun
  · refine (ends_update _ _).bind fun _ _ => (ends_getArray _ _ _).bind fun _ _ => ?_
    refine (ends_update _ _).bind fun _ _ => (ends_getArray _ _ _).bind fun _ _ => ?_
    refine (ends_update _ _).bind fun _ _ => ?_
    refine Ends.bind (x := remaining) nofun fun _ _ => (ends_take _ _ _).bind fun _ _ => ?_
    exact (ends_getArray _ _ _).bind fun _ _ => ends_update _ _

end WalletAddress

end Rxs
