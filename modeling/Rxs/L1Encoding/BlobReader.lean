import Rxs.Core.Scanner

/-!
# `BlobReader`

The reader of block templates and addresses as a `Scanner`: `m_data` and
`m_size` are the window, `m_index` the position. `thrown` is `outOfRange()`: the
exception where the template argument asks for one, else the result false, at
which every caller gives up.

The index addition is a parameter. The code's is `Scanner.wrap`, that of
`size_t`; `Scanner.exact` is what the bound tests are written for. A shift by 64
or more, which the language leaves open, is the platform's `shlBeyond`.

* `Tracks.getVarint` and the other `Tracks` rules: either addition gives the
  same run, or the wrapped one goes back.
-/
namespace Rxs

open Rxs.Core

/-- What is not decided by the source: the shift of a 64-bit word by 64 or more,
whether memory is there for a vector, and the hash function. -/
structure Platform where
  shlBeyond : UInt64 → Nat → UInt64
  alloc : UInt64 → Bool
  keccak : Bytes → Bytes
  keccak_length : ∀ b, (keccak b).length = 32

/-- A null span, or one into the blob.
mirrors src/3rdparty/epee/span.h:107-149 -/
structure Span where
  data : Option Nat := none
  size : Nat := 0
  deriving DecidableEq, Repr

def Span.empty (s : Span) : Bool := s.size = 0

namespace BlobReader

variable {ρ σ : Type}

/-- mirrors src/base/tools/cryptonote/BlobReader.h:85-94 -/
def getByte : Scanner ρ σ UInt8 := Scanner.byte

/-- mirrors src/base/tools/cryptonote/BlobReader.h:47-56 -/
def skip (add : Nat → UInt64 → Nat) (n : UInt64) : Scanner ρ σ Nat := Scanner.take add n

/-- mirrors src/base/tools/cryptonote/BlobReader.h:58-69 -/
def getArray (add : Nat → UInt64 → Nat) (n : UInt64) : Scanner ρ σ Bytes := do
  let i ← Scanner.take add n
  Scanner.peek i n.toNat

/-- mirrors src/base/tools/cryptonote/BlobReader.h:71-82 -/
def getSpan (add : Nat → UInt64 → Nat) (n : UInt64) : Scanner ρ σ Span := do
  let i ← Scanner.take add n
  pure ⟨some i, n.toNat⟩

/-- The last byte read, and the locals of `getVarint`. -/
structure Varint where
  t : UInt8 := 0
  result : UInt64 := 0
  shift : Nat := 0
  deriving DecidableEq, Repr

def shl (p : Platform) (x : UInt64) (shift : Nat) : UInt64 :=
  if shift < 64 then x <<< UInt64.ofNat shift else p.shlBeyond x shift

/-- The body of the loop.
mirrors src/base/tools/cryptonote/BlobReader.h:102-108 -/
def varintByte (p : Platform) (v : Varint) : Scanner ρ σ Varint := do
  let t ← getByte
  pure ⟨t, v.result ||| shl p (t &&& 0x7F).toUInt64 v.shift, v.shift + 7⟩

def more (v : Varint) : Scanner ρ σ Bool := pure (v.t &&& 0x80 ≠ 0)

/-- mirrors src/base/tools/cryptonote/BlobReader.h:96-114 -/
def getVarint (p : Platform) (fuel : Nat) : Scanner ρ σ UInt64 := do
  let v ← varintByte p {}
  let v ← Scanner.loop more (varintByte p) fuel v
  pure v.result

end BlobReader

namespace Core.Scanner.Tracks

open BlobReader

variable {ρ σ κ : Type} {L : Nat} {k : σ → κ} {I : κ → Nat → Prop} {p : Platform} {fuel : Nat}

theorem getByte : Tracks (ρ := ρ) L k I 1 BlobReader.getByte BlobReader.getByte := byte

theorem skip (n : UInt64) :
    Tracks (ρ := ρ) L k I 0 (BlobReader.skip exact n) (BlobReader.skip wrap n) :=
  (take n).mono (Nat.zero_le _)

/-- An array moves by its length. -/
theorem getArray (n : UInt64) :
    Tracks (ρ := ρ) L k I n.toNat (BlobReader.getArray exact n) (BlobReader.getArray wrap n) where
  grows := (take (ρ := ρ) (L := L) (k := k) (I := I) n).grows.bind fun _ => grows_peek _ _
  at_ s hs hI := by
    unfold BlobReader.getArray
    refine ((take n).at_ s hs hI).bind (e := 0) (fun _ => grows_peek _ _) fun i t hr ht hm => ?_
    have hi := take_eq hr
    have hmi := hm.index
    have hmb := hm.base
    have hti := ht.index
    have hw := ht.window
    exact peekAt ht (by omega)

theorem getSpan (n : UInt64) :
    Tracks (ρ := ρ) L k I n.toNat (BlobReader.getSpan exact n) (BlobReader.getSpan wrap n) :=
  (take n).bind fun _ => .pure _

theorem varintByte (v : Varint) :
    Tracks (ρ := ρ) L k I 1 (BlobReader.varintByte p v) (BlobReader.varintByte p v) :=
  getByte.bind fun _ => .pure _

theorem getVarint (hL : L ≤ fuel) :
    Tracks (ρ := ρ) L k I 1 (BlobReader.getVarint p fuel) (BlobReader.getVarint p fuel) :=
  (varintByte _).bind fun _ => (loop (fun _ => .pure _) varintByte hL _).bind fun _ => .pure _

end Core.Scanner.Tracks

end Rxs
