import Rxs.Core.Steady
import Rxs.Core.Yields
import Rxs.L1Encoding.Header
import Rxs.L1Encoding.MerkleTree

/-!
# The table of hashes

`parse` sizes `m_hashes` by a count that is read from the blob, in 64-bit words, and
stores a hash for each of the count before it can know that the blob has as many.

Here `parse` goes on after a store outside the table, with the access in the log, and
`calculateMerkleTreeHash` logs what it reads and writes, of the table and of its own
`ints`. If the blob is accepted it had a hash for each of the count, so that the count
is small and the size of the table exact.

* `merkleTraced_fits`: the tree stays in the table.
* **`table_bounds`**: in a call that is accepted every access is inside.
* `parse_accepted`: the parser that stops at an access outside accepts the same.
-/
namespace Rxs.Core.Scanner.Steady

variable {ρ σ κ : Type} {R : ρ → Prop} {k : σ → κ}

theorem getByte : Steady R k (BlobReader.getByte : Scanner ρ σ UInt8) := byte

theorem skip (add : Nat → UInt64 → Nat) (n : UInt64) :
    Steady R k (BlobReader.skip add n : Scanner ρ σ Nat) := take add n

theorem getArray (add : Nat → UInt64 → Nat) (n : UInt64) :
    Steady R k (BlobReader.getArray add n : Scanner ρ σ Bytes) := (take add n).bind fun _ => peek _ _

theorem getSpan (add : Nat → UInt64 → Nat) (n : UInt64) :
    Steady R k (BlobReader.getSpan add n : Scanner ρ σ Span) := (take add n).bind fun _ => .pure _

theorem getVarint (p : Platform) (fuel : Nat) :
    Steady R k (BlobReader.getVarint p fuel : Scanner ρ σ UInt64) := by
  have hb : ∀ v, Steady R k (BlobReader.varintByte p v : Scanner ρ σ _) := fun v =>
    getByte.bind fun _ => .pure _
  exact (hb _).bind fun v => (loop (fun _ => .pure _) hb fuel v).bind fun _ => .pure _

end Rxs.Core.Scanner.Steady

namespace Rxs.L1.HashTable

open Rxs.Core Rxs.BlockTemplate Rxs.L1.Header Rxs.L1.MerkleTree Rxs.L1.ParseForward
open BlobReader (getByte getVarint getArray getSpan skip Whole rest getVarint_ran afterBytes_spec)
open Scanner (index loop within peek demand halt onlyIf Kept Steady Yields)
open Access (isUse)
open L1.ParseHistory (put put_self)

/-! ## Accesses of the tree -/

section
variable {α β : Type}

/-- A step of a fold, and its accesses. -/
def traced (f : α → β → α) (u : α → β → List Access) (t : α × List Access) (b : β) :
    α × List Access := (f t.1 b, t.2 ++ u t.1 b)

theorem traced_fst (f : α → β → α) (u : α → β → List Access) (l : List β) (t : α × List Access) :
    (l.foldl (traced f u) t).1 = l.foldl f t.1 := by
  induction l generalizing t with
  | nil => rfl
  | cons b l ih => exact ih _

theorem traced_fits {f : α → β → α} {u : α → β → List Access} {l : List β} {t : α × List Access}
    (ht : ∀ x ∈ t.2, x.Fits) (hu : ∀ a, ∀ b ∈ l, ∀ x ∈ u a b, x.Fits) :
    ∀ x ∈ (l.foldl (traced f u) t).2, x.Fits := by
  induction l generalizing t with
  | nil => exact ht
  | cons b l ih =>
    refine ih ?_ fun a b hb => hu a b (List.mem_cons_of_mem _ hb)
    intro x hx
    rcases List.mem_append.mp hx with hx | hx
    · exact ht x hx
    · exact hu t.1 b List.mem_cons_self x hx

end

/-- The hash of a pair, the comparisons with `h2` and the copies.
mirrors src/base/tools/cryptonote/BlockTemplate.cpp:106-118 -/
def firstUses (h : Bytes) (k cnt : Nat) (m : Merkle) (j : Nat) : List Access :=
  let i := k + 2 * (j - k)
  [.use (32 * i + 64) h.length, .use (32 * j + 32) (32 * cnt), .use (32 * i + 32) h.length] ++
    if hashAt h i = m.h2 then [.use (32 * (i + 2)) h.length, .use (32 * j + 32) (32 * cnt)]
    else .use (32 * (i + 1) + 32) h.length ::
      if hashAt h (i + 1) = m.h2 then [.use (32 * (i + 1)) h.length, .use (32 * j + 32) (32 * cnt)]
      else []

/-- mirrors src/base/tools/cryptonote/BlockTemplate.cpp:122-138 -/
def levelUses (size : Nat) (m : Merkle) (j : Nat) : List Access :=
  let i := 2 * j
  [.use (32 * i + 64) size, .use (32 * i + 32) size] ++
    (if m.ints.getD i [] = m.h2 then [.use (32 * (i + 2)) size]
      else .use (32 * (i + 1) + 32) size ::
        if m.ints.getD (i + 1) [] = m.h2 then [.use (32 * (i + 1)) size] else []) ++
    [.use (32 * j + 32) size]

section
variable (keccak : Bytes → Bytes)

/-- mirrors src/base/tools/cryptonote/BlockTemplate.cpp:120-139 -/
def levelsTraced (size cnt : Nat) (t : Merkle × List Access) : Merkle × List Access :=
  if 2 ≤ cnt then
    levelsTraced size (cnt / 2)
      ((List.range (cnt / 2)).foldl (traced (levelStep keccak) (levelUses size)) t)
  else t
termination_by cnt

/-- `calculateMerkleTreeHash`, and its accesses.
mirrors src/base/tools/cryptonote/BlockTemplate.cpp:70-143 -/
def merkleTraced (hashes : Bytes) (index : Nat) : (Bytes × UInt32 × Bytes) × List Access :=
  let count := hashes.length / 32
  if count = 1 then (([], 0, hashAt hashes 0), [.use 32 hashes.length])
  else if count = 2 then
    ((hashAt hashes (index ^^^ 1), UInt32.ofNat index, keccak (hashAt hashes 0 ++ hashAt hashes 1)),
      [.use 64 hashes.length, .use (32 * ((index ^^^ 1) + 1)) hashes.length])
  else
    let cnt := doubleUntil count 1 / 2
    let k := cnt * 2 - count
    let ints := (List.range k).map (hashAt hashes) ++ List.replicate (cnt - k) (List.replicate 32 0)
    let m : Merkle := { h2 := hashAt hashes index, ints := ints }
    let t := (m, [.use (32 * index + 32) hashes.length, .use (32 * k) hashes.length,
      .use (32 * k) (32 * cnt)])
    let t := (List.range' k (cnt - k)).foldl
      (traced (firstStep keccak hashes k) (firstUses hashes k cnt)) t
    let t := levelsTraced keccak (32 * cnt) cnt t
    ((t.1.branch, t.1.path, t.1.ints.getD 0 []), t.2 ++ [.use 32 (32 * cnt)])

theorem levelsTraced_fst (size cnt : Nat) (t : Merkle × List Access) :
    (levelsTraced keccak size cnt t).1 = levels keccak cnt t.1 := by
  induction cnt using Nat.strongRecOn generalizing t with
  | ind cnt ih =>
    rw [levelsTraced, levels]
    by_cases h : 2 ≤ cnt
    · rw [if_pos h, if_pos h, ih (cnt / 2) (by omega), traced_fst]
    · rw [if_neg h, if_neg h]

/-- The accesses aside this is the function. -/
theorem merkleTraced_fst (hashes : Bytes) (index : Nat) :
    (merkleTraced keccak hashes index).1 = calculateMerkleTreeHash keccak hashes index := by
  unfold merkleTraced calculateMerkleTreeHash
  dsimp only
  split_ifs with h₁ h₂
  · rfl
  · rfl
  · simp only [levelsTraced_fst, traced_fst]

theorem forall_uses (amount bound : Nat) (l : List Access) :
    (∀ x ∈ .use amount bound :: l, x.Fits) ↔ amount ≤ bound ∧ ∀ x ∈ l, x.Fits :=
  List.forall_mem_cons

theorem no_uses : (∀ x ∈ ([] : List Access), x.Fits) ↔ True := iff_true_intro nofun

theorem levelUses_fits {size cnt : Nat} (hs : 32 * cnt ≤ size) (m : Merkle) {j : Nat}
    (hj : j < cnt / 2) : ∀ x ∈ levelUses size m j, x.Fits := by
  dsimp only [levelUses]
  split_ifs <;>
    simp only [List.cons_append, List.nil_append, forall_uses, no_uses, and_true] <;> omega

theorem firstUses_fits {h : Bytes} {k cnt : Nat} (hh : 32 * (2 * cnt - k) ≤ h.length) (m : Merkle)
    {j : Nat} (hk : k ≤ j) (hj : j < cnt) : ∀ x ∈ firstUses h k cnt m j, x.Fits := by
  dsimp only [firstUses]
  split_ifs <;>
    simp only [List.cons_append, List.nil_append, forall_uses, no_uses, and_true] <;> omega

theorem levelsTraced_fits {size cnt : Nat} (hs : 32 * cnt ≤ size) {t : Merkle × List Access}
    (ht : ∀ x ∈ t.2, x.Fits) : ∀ x ∈ (levelsTraced keccak size cnt t).2, x.Fits := by
  induction cnt using Nat.strongRecOn generalizing t with
  | ind cnt ih =>
    rw [levelsTraced]
    by_cases h : 2 ≤ cnt
    · rw [if_pos h]
      refine ih (cnt / 2) (by omega) (by omega) (traced_fits ht fun m j hj => ?_)
      exact levelUses_fits hs m (List.mem_range.mp hj)
    · rw [if_neg h]
      exact ht

/-- **The tree stays in the table**, and in its own buffer. -/
theorem merkleTraced_fits {hashes : Bytes} {index : Nat} (hi : index < hashes.length / 32)
    (h₂ : hashes.length / 32 = 2 → index < 2) :
    ∀ x ∈ (merkleTraced keccak hashes index).2, x.Fits := by
  have hlen := Nat.div_mul_le_self hashes.length 32
  have hlog := log2_le (n := hashes.length / 32) (by omega)
  have hcnt := doubleUntil_one (hashes.length / 32) (by omega)
  unfold merkleTraced
  dsimp only
  rw [hcnt]
  generalize 2 ^ Nat.log2 (hashes.length / 32) = cnt at *
  split_ifs with hone htwo
  · simp only [forall_uses, no_uses, and_true]
    omega
  · have hx : index ^^^ 1 < 2 := by
      have hall : ∀ i < 2, i ^^^ 1 < 2 := by decide
      exact hall index (h₂ htwo)
    simp only [forall_uses, no_uses, and_true]
    omega
  · rw [List.forall_mem_append]
    refine ⟨levelsTraced_fits keccak (Nat.le_refl _) (traced_fits ?_ fun m j hj => ?_), ?_⟩
    · simp only [forall_uses, no_uses, and_true]
      omega
    · obtain ⟨hj₁, hj₂⟩ := List.mem_range'_1.mp hj
      exact firstUses_fits (by omega) m hj₁ (by omega)
    · simp only [forall_uses, no_uses, and_true]
      omega

end

/-! ## The parser that goes on -/

/-- A use in the log. -/
def touch (amount bound : Nat) : Parser Unit := fun s =>
  .ok () { s with log := .use amount bound :: s.log }

/-- A store outside the table is not in it. -/
def storeUnchecked (start : Nat) (d : Bytes) : Parser Unit := do
  let hashes ← member .hashes
  touch (start + d.length) hashes.length
  onlyIf (start + d.length ≤ hashes.length) (assign .hashes (Bytes.writeAt hashes start d))

section
variable (add : Nat → UInt64 → Nat) (p : Platform) (fuel : Nat)

/-- A hash, with `put` for the store.
mirrors src/base/tools/cryptonote/BlockTemplate.cpp:428-432 -/
def fillHash (put : Nat → Bytes → Parser Unit) (coinbase_tx_index i : UInt64) : Parser UInt64 := do
  let h ← getArray add kHashSize
  put (32 * (coinbase_tx_index.toNat + i.toNat)) h
  pure (i + 1)

/-- mirrors src/base/tools/cryptonote/BlockTemplate.cpp:419-439 -/
def fill (put : Nat → Bytes → Parser Unit) (coinbase_tx_index : UInt64) (is_fcmp_pp : Bool) :
    Parser Unit := do
  let numHashes ← member .numHashes
  assign .hashes []
  let size := (coinbase_tx_index + numHashes + 1) * kHashSize
  onlyIf (p.alloc size = false) (halt .thrown)
  assign .hashes (List.replicate size.toNat 0)
  put (32 * coinbase_tx_index.toNat) (← calculateMinerTxHash p)
  let _ ← loop (fun i => pure (i ≤ numHashes)) (fillHash add put coinbase_tx_index) fuel 1
  onlyIf (is_fcmp_pp = true) (do
    assign .FCMPTreeLayers (← getByte)
    assign .FCMPTreeRoot (← getArray add 32)
    let layers ← member .FCMPTreeLayers
    put 0 [layers]
    let root ← member .FCMPTreeRoot
    put 32 root)

/-- mirrors src/base/tools/cryptonote/BlockTemplate.cpp:70-143 -/
def calculateUnchecked (hashes : Bytes) (index : Nat) : Parser (Bytes × UInt32 × Bytes) := fun s =>
  let r := merkleTraced p.keccak hashes index
  .ok r.1 { s with log := r.2.reverse ++ s.log }

def finish (r : Bytes × UInt32 × Bytes) : Parser Unit := do
  assign .minerTxMerkleTreeBranch r.1
  assign .minerTxMerkleTreePath r.2.1
  assign .rootHash r.2.2

/-- mirrors src/base/tools/cryptonote/BlockTemplate.cpp:417-442 -/
def parseHashesUnchecked (is_fcmp_pp : Bool) : Parser Unit := do
  let coinbase_tx_index : UInt64 := if is_fcmp_pp then 2 else 0
  fill add p fuel storeUnchecked coinbase_tx_index is_fcmp_pp
  let hashes ← member .hashes
  finish (← calculateUnchecked p hashes coinbase_tx_index.toNat)

/-- mirrors src/base/tools/cryptonote/BlockTemplate.cpp:210-403 -/
def parseFields : Parser Bool := do
  parseHeader add p fuel
  setOffset .MINER_TX_PREFIX_OFFSET (← index)
  parseInput p fuel
  let is_fcmp_pp ← isFcmpPp
  parseOutput add p fuel is_fcmp_pp
  parseExtra add p fuel
  parseZephyrAmounts p fuel
  parseRct
  assign .numHashes (← getVarint p fuel)
  pure is_fcmp_pp

/-- mirrors src/base/tools/cryptonote/BlockTemplate.cpp:210-446 -/
def parseBodyUnchecked (hashes : Bool) : Parser Bool := do
  let is_fcmp_pp ← parseFields add p fuel
  onlyIf (hashes = true) (parseHashesUnchecked add p fuel is_fcmp_pp)
  pure true

/-- mirrors src/base/tools/cryptonote/BlockTemplate.cpp:146-161 -/
def parseUnchecked (t : BlockTemplate) (blob : Bytes) (coin : Coin) (hashes : Bool) : Parsed :=
  if blob.length < kMinSize then { rc := .returned false, t := t }
  else parsed (parseBodyUnchecked add p fuel hashes (start t blob coin))

theorem parseBody_eq (hashes : Bool) : parseBody add p fuel hashes = (do
    let is_fcmp_pp ← parseFields add p fuel
    onlyIf (hashes = true) (parseHashes add p fuel is_fcmp_pp)
    pure true) := by
  unfold parseBody parseFields
  simp only [bind_assoc, pure_bind]

theorem parseHashes_eq (is_fcmp_pp : Bool) : parseHashes add p fuel is_fcmp_pp = (do
    let coinbase_tx_index : UInt64 := if is_fcmp_pp then 2 else 0
    fill add p fuel store coinbase_tx_index is_fcmp_pp
    let hashes ← member .hashes
    finish (calculateMerkleTreeHash p.keccak hashes coinbase_tx_index.toNat)) := by
  unfold parseHashes fill finish
  simp only [bind_assoc]
  rfl

end

/-! ## Up to the count -/

section
variable {κ : Type} {R : Bool → Prop} {k : Parse → κ} (add : Nat → UInt64 → Nat) (p : Platform)
  (fuel : Nat)

/-- Early results say that the blob is refused. -/
abbrev refused : Bool → Prop := (· = false)

theorem steady_member (m : Member) : Steady R k (member m) := fun s => ⟨.refl s, nofun⟩

theorem steady_ensure (c : Prop) [Decidable c] : Steady refused k (ensure c) :=
  .onlyIf (.halt fun r hr => by cases hr; rfl)

theorem steady_assign {m : Member} (v : m.Val)
    (h : ∀ s, k { t := Function.update s.t m v, written := m :: s.written } = k s) :
    Steady R k (assign m v) := .update h

theorem steady_offset (o : Offset) : Steady R k (offset o) :=
  (steady_member _).bind fun _ => .pure _

/-- What the parser does not change behind the header. -/
structure Layout where
  blob : Bytes
  coin : Coin
  version : UInt8
  minerTx : UInt32

def layout (d : Parse) : Layout :=
  ⟨d.t .blob, d.t .coin, d.t .versionFirst, d.t (.offset .MINER_TX_PREFIX_OFFSET)⟩

def call (d : Parse) : Bytes × Coin := (d.t .blob, d.t .coin)

theorem steady_parseHeader : Steady refused call (parseHeader add p fuel) := by
  unfold parseHeader
  refine Steady.getByte.bind fun _ => (steady_assign _ fun _ => rfl).bind fun _ => ?_
  refine Steady.getByte.bind fun _ => (steady_assign _ fun _ => rfl).bind fun _ => ?_
  refine (Steady.getVarint p fuel).bind fun _ => (steady_assign _ fun _ => rfl).bind fun _ => ?_
  refine (Steady.getSpan add _).bind fun _ => (steady_assign _ fun _ => rfl).bind fun _ => ?_
  refine Steady.index.bind fun _ => (steady_assign _ fun _ => rfl).bind fun _ => ?_
  refine (Steady.skip add _).bind fun _ => (steady_member _).bind fun _ => ?_
  refine (steady_member _).bind fun _ => (Steady.onlyIf ?_).bind fun _ => .onlyIf ?_
  · refine (Steady.getSpan add _).bind fun _ => (steady_assign _ fun _ => rfl).bind fun _ => ?_
    exact (Steady.getArray add _).bind fun _ => steady_assign _ fun _ => rfl
  · exact (Steady.getArray add _).bind fun _ => .pure _

theorem steady_parseInput : Steady refused layout (parseInput p fuel) := by
  have hv : Steady refused layout (getVarint p fuel : Parser UInt64) := .getVarint p fuel
  unfold parseInput
  refine hv.bind fun _ => (steady_assign _ fun _ => rfl).bind fun _ => ?_
  refine (steady_member _).bind fun _ => ?_
  refine (Steady.onlyIf (hv.bind fun _ => steady_assign _ fun _ => rfl)).bind fun _ => ?_
  refine hv.bind fun _ => (steady_assign _ fun _ => rfl).bind fun _ => ?_
  refine (steady_member _).bind fun _ => (steady_ensure _).bind fun _ => ?_
  refine Steady.getByte.bind fun _ => (steady_assign _ fun _ => rfl).bind fun _ => ?_
  refine (steady_member _).bind fun _ => (steady_ensure _).bind fun _ => ?_
  refine hv.bind fun _ => (steady_assign _ fun _ => rfl).bind fun _ => ?_
  refine hv.bind fun _ => (steady_assign _ fun _ => rfl).bind fun _ => ?_
  refine (steady_member _).bind fun _ => (steady_ensure _).bind fun _ => ?_
  refine hv.bind fun _ => (steady_assign _ fun _ => rfl).bind fun _ => ?_
  exact Steady.getByte.bind fun _ => steady_assign _ fun _ => rfl

theorem steady_parseZephyrOutput (n : UInt64) : Steady refused layout (parseZephyrOutput add p fuel n) := by
  have hv : Steady refused layout (getVarint p fuel : Parser UInt64) := .getVarint p fuel
  refine hv.bind fun _ => Steady.getByte.bind fun _ => (steady_ensure _).bind fun _ => ?_
  refine (Steady.getSpan add _).bind fun _ => hv.bind fun _ => ?_
  exact (Steady.skip add _).bind fun _ => Steady.getByte.bind fun _ => .pure _

theorem steady_parseOutput (is_fcmp_pp : Bool) :
    Steady refused layout (parseOutput add p fuel is_fcmp_pp) := by
  have hv : Steady refused layout (getVarint p fuel : Parser UInt64) := .getVarint p fuel
  unfold parseOutput
  refine (steady_member _).bind fun _ => (steady_ensure _).bind fun _ => ?_
  refine Steady.index.bind fun _ => (steady_assign _ fun _ => rfl).bind fun _ => ?_
  refine (Steady.getSpan add _).bind fun _ => (steady_assign _ fun _ => rfl).bind fun _ => ?_
  refine (Steady.onlyIf ?_).bind fun _ => (steady_member _).bind fun _ => ?_
  · refine (Steady.getArray add _).bind fun _ => (steady_assign _ fun _ => rfl).bind fun _ => ?_
    exact (Steady.getArray add _).bind fun _ => steady_assign _ fun _ => rfl
  refine (Steady.onlyIf ?_).bind fun _ => (Steady.onlyIf ?_).bind fun _ => .onlyIf ?_
  · refine (steady_ensure _).bind fun _ => hv.bind fun _ => (Steady.skip add _).bind fun _ => ?_
    refine Steady.getByte.bind fun _ => (steady_assign _ fun _ => rfl).bind fun _ => ?_
    refine (steady_member _).bind fun _ => ?_
    exact (Steady.loop (fun _ => .pure _) (steady_parseZephyrOutput add p fuel) _ _).bind fun _ =>
      .pure _
  · exact Steady.getByte.bind fun _ => steady_assign _ fun _ => rfl
  · exact hv.bind fun _ => steady_assign _ fun _ => rfl

theorem steady_parseExtraField (first : Bool) :
    Steady refused layout (parseExtraField add p fuel first) := by
  have hv : Steady refused layout (getVarint p fuel : Parser UInt64) := .getVarint p fuel
  unfold parseExtraField
  refine hv.bind fun _ => .ite ?_ (.ite ?_ (.ite ?_ (.halt fun r hr => by cases hr; rfl)))
  · refine (Steady.onlyIf ?_).bind fun _ => (Steady.skip add _).bind fun _ => .pure _
    exact (steady_offset _).bind fun _ => Steady.index.bind fun _ => steady_assign _ fun _ => rfl
  · refine hv.bind fun _ => (steady_offset _).bind fun _ => Steady.index.bind fun _ => ?_
    refine (steady_assign _ fun _ => rfl).bind fun _ => (Steady.getSpan add _).bind fun _ => ?_
    exact (steady_assign _ fun _ => rfl).bind fun _ => .pure _
  · refine hv.bind fun _ => (steady_offset _).bind fun _ => Steady.index.bind fun _ => ?_
    refine (steady_assign _ fun _ => rfl).bind fun _ => (Steady.getSpan add _).bind fun _ => ?_
    exact (steady_assign _ fun _ => rfl).bind fun _ => .pure _

theorem steady_parseExtra : Steady refused layout (parseExtra add p fuel) := by
  have hin : ∀ b, Steady refused layout (inExtra b) := fun _ =>
    Steady.index.bind fun _ => (steady_member _).bind fun _ => .pure _
  refine (Steady.getVarint p fuel).bind fun _ => (steady_assign _ fun _ => rfl).bind fun _ => ?_
  refine Steady.index.bind fun _ => (steady_assign _ fun _ => rfl).bind fun _ => ?_
  refine (steady_member _).bind fun _ => (steady_offset _).bind fun _ => ?_
  refine (Steady.skip add _).bind fun _ => (Steady.within ?_ _ _).bind fun _ => .pure _
  exact .loop hin (steady_parseExtraField add p fuel) _ _

theorem steady_parseZephyrAmounts : Steady refused layout (parseZephyrAmounts p fuel) := by
  have hv : Steady refused layout (getVarint p fuel : Parser UInt64) := .getVarint p fuel
  refine (steady_member _).bind fun _ => .onlyIf ?_
  exact hv.bind fun _ => hv.bind fun _ => hv.bind fun _ => .pure _

theorem steady_parseRct : Steady (fun _ => True) layout parseRct := by
  have hensure : ∀ (c : Prop) [Decidable c], Steady (fun _ : Bool => True) layout (ensure c) :=
    fun _ => .onlyIf (.halt fun _ _ => trivial)
  refine Steady.index.bind fun _ => (steady_assign _ fun _ => rfl).bind fun _ => ?_
  refine Steady.getByte.bind fun _ => (steady_member _).bind fun _ => ?_
  refine (steady_member _).bind fun _ => (Steady.onlyIf (.halt fun _ _ => trivial)).bind fun _ => ?_
  refine (hensure _).bind fun _ => Steady.index.bind fun _ => (steady_offset _).bind fun _ => ?_
  exact (hensure _).bind fun _ => (Steady.peek _ _).bind fun _ => hensure _

/-- A game update is not parsed. -/
def Update (d : Parse) : Prop := d.t .coin = .TOWNFORGE ∧ d.t .height % 720 = 0

/-- The result true is that of a game update. -/
theorem parseRct_true {s t : Scan Parse} (h : parseRct s = .error (.ret true) t) :
    Update t.data := by
  have hcheck : Steady refused layout checkPrefixEnd := by
    refine Steady.index.bind fun _ => (steady_offset _).bind fun _ => ?_
    exact (steady_ensure _).bind fun _ => (Steady.peek _ _).bind fun _ => steady_ensure _
  unfold parseRct at h
  rcases Scanner.bind_error h with h₁ | ⟨i, s₁, -, h₁⟩
  · cases h₁
  rcases Scanner.bind_error h₁ with h₂ | ⟨_, s₂, -, h₂⟩
  · cases h₂
  rcases Scanner.bind_error h₂ with h₃ | ⟨_, s₃, -, h₃⟩
  · exact absurd ((Steady.getByte (R := refused) (k := layout) s₂).2 true t h₃) nofun
  rcases Scanner.bind_error h₃ with h₄ | ⟨coin, s₄, h₄', h₄⟩
  · cases h₄
  rcases Scanner.bind_error h₄ with h₅ | ⟨height, s₅, h₅', h₅⟩
  · cases h₅
  cases h₄'
  cases h₅'
  rcases Scanner.bind_error h₅ with h₆ | ⟨_, s₆, -, h₆⟩
  · unfold Scanner.onlyIf at h₆
    split at h₆
    · rename_i hc
      cases h₆
      exact hc
    · cases h₆
  · have hlate : ∀ v : UInt8, Steady refused layout (ensure (v = 0) >>= fun _ => checkPrefixEnd) :=
      fun v => (steady_ensure _).bind fun _ => hcheck
    exact absurd ((hlate _ s₆).2 true t h₆) nofun

end

/-! ## The table -/

/-- The count fits the memory. -/
def Small (n : UInt64) : Prop := 32 * n.toNat < 2 ^ 63

/-- While there is a table: the reader is inside, the count and the layout are `n` and `l`, and
unless the count is too large the uses fit. -/
structure Inv (n : UInt64) (l : Layout) (s : Scan Parse) : Prop where
  whole : Whole s
  index : s.cur.index ≤ s.mem.length
  count : s.data.t .numHashes = n
  layout : layout s.data = l
  uses : Small n → ∀ a ∈ s.log, isUse a = true → a.Fits

/-- With a table of the size for `n` hashes behind index `c`. -/
structure Tabled (n : UInt64) (l : Layout) (c : Nat) (s : Scan Parse) : Prop
    extends Inv n l s where
  table : Small n → (s.data.t .hashes).length = 32 * (c + n.toNat + 1)

section
variable {n : UInt64} {l : Layout} {c : Nat} {p : Platform}

theorem Inv.set {s : Scan Parse} (h : Inv n l s) {m : Member} (v : m.Val)
    (hn : ∀ d, (put d m v).t .numHashes = d.t .numHashes)
    (hl : ∀ d, HashTable.layout (put d m v) = HashTable.layout d) : Inv n l (set m v s) where
  whole := whole_set h.whole m v
  index := h.index
  count := (hn s.data).trans h.count
  layout := (hl s.data).trans h.layout
  uses := h.uses

theorem Tabled.set {s : Scan Parse} (h : Tabled n l c s) {m : Member} (v : m.Val)
    (hn : ∀ d, (put d m v).t .numHashes = d.t .numHashes)
    (hl : ∀ d, HashTable.layout (put d m v) = HashTable.layout d)
    (hh : ∀ d, (put d m v).t .hashes = d.t .hashes) : Tabled n l c (Header.set m v s) where
  toInv := h.toInv.set v hn hl
  table hs := (congrArg List.length (hh s.data)).trans (h.table hs)

theorem Inv.moved {s : Scan Parse} (h : Inv n l s) {k : UInt64} {i : Nat} (hi : i ≤ s.mem.length) :
    Inv n l (Scanner.moved s k i) where
  whole := h.whole.moved k i
  index := hi
  count := h.count
  layout := h.layout
  uses hs a ha hu := by
    rcases List.mem_cons.mp ha with rfl | ha
    · cases hu
    · exact h.uses hs a ha hu

theorem Tabled.moved {s : Scan Parse} (h : Tabled n l c s) {k : UInt64} {i : Nat}
    (hi : i ≤ s.mem.length) : Tabled n l c (Scanner.moved s k i) :=
  ⟨h.toInv.moved hi, h.table⟩

/-- A use that is in the log from here on. -/
theorem Tabled.touched {s : Scan Parse} (h : Tabled n l c s) {amount bound : Nat}
    (hf : Small n → amount ≤ bound) :
    Tabled n l c { s with log := .use amount bound :: s.log } where
  whole := ⟨h.whole.base, h.whole.size, h.whole.length⟩
  index := h.index
  count := h.count
  layout := h.layout
  table := h.table
  uses hs a ha hu := by
    rcases List.mem_cons.mp ha with rfl | ha
    · exact hf hs
    · exact h.uses hs a ha hu

/-- From `P` the run ends in `Q`, or early and without an accepted blob; `y` does the same
unless the count is too large. -/
abbrev Fills {α : Type} (n : UInt64) (P : Scan Parse → Prop) (x y : Parser α)
    (Q : α → Scan Parse → Prop) : Prop :=
  Yields (fun e => e ≠ .ret true) (Small n) P x y Q

theorem fills_member (m : Member) (P : Scan Parse → Prop) :
    Fills n P (member m) (member m) fun v s => v = s.data.t m ∧ P s :=
  fun _ hs => ⟨fun _ => rfl, rfl, hs⟩

theorem fills_assign {P Q : Scan Parse → Prop} (m : Member) (v : m.Val)
    (h : ∀ s, P s → Q (set m v s)) : Fills n P (assign m v) (assign m v) fun _ => Q :=
  Yields.update _ h

/-- A member that is not one of the table. -/
theorem fills_set (m : Member) (v : m.Val) (hn : ∀ d, (put d m v).t .numHashes = d.t .numHashes)
    (hl : ∀ d, layout (put d m v) = layout d) (hh : ∀ d, (put d m v).t .hashes = d.t .hashes) :
    Fills n (Tabled n l c) (assign m v) (assign m v) fun _ => Tabled n l c :=
  fills_assign m v fun _ hs => hs.set v hn hl hh

/-- An array, and how far the reader is. -/
theorem fills_getArray {add : Nat → UInt64 → Nat} (hadd : Adds add) {k : UInt64}
    (hk : k.toNat < 2 ^ 62) (b : Nat) :
    Fills n (fun s => Tabled n l c s ∧ b ≤ s.cur.index) (getArray add k) (getArray add k)
      fun a s => a.length = k.toNat ∧ Tabled n l c s ∧ b + k.toNat ≤ s.cur.index := by
  rintro s ⟨hs, hb⟩
  refine ⟨fun _ => rfl, ?_⟩
  rcases getArray_ran (ρ := Bool) hadd hs.whole hk hs.index with ⟨hl, hr⟩ | ⟨hl, hr⟩
  · rw [hr]
    exact ⟨Bytes.length_slice hl, hs.moved hl, Nat.add_le_add_right hb _⟩
  · rw [hr]
    nofun

theorem fills_getByte :
    Fills n (Tabled n l c) (getByte : Parser UInt8) getByte fun _ => Tabled n l c := by
  intro s hs
  refine ⟨fun _ => rfl, ?_⟩
  cases hr : rest s with
  | nil =>
    rw [BlobReader.byte_nil hs.whole hr]
    nofun
  | cons a b =>
    rw [(BlobReader.byte_cons hs.whole hr).1]
    refine hs.moved ?_
    by_contra hge
    rw [rest, List.drop_eq_nil_iff.mpr (by omega)] at hr
    cases hr

/-- A store into the table, and what else holds of the state. -/
theorem fills_store {K : Scan Parse → Prop} (start : Nat) {d : Bytes}
    (hlog : ∀ s log, K s → K { s with log := log }) (hset : ∀ s v, K s → K (set .hashes v s))
    (hd : Small n → start + d.length ≤ 32 * (c + n.toNat + 1)) :
    Fills n (fun s => Tabled n l c s ∧ K s) (storeUnchecked start d) (store start d)
      fun _ s => Tabled n l c s ∧ K s := by
  unfold storeUnchecked store
  refine (fills_member _ _).bind fun hashes => ?_
  have htouch : Fills n (fun s => hashes = s.data.t .hashes ∧ Tabled n l c s ∧ K s)
      (touch (start + d.length) hashes.length) (demand (start + d.length) hashes.length)
      fun _ s => (Small n → start + d.length ≤ hashes.length) ∧ hashes = s.data.t .hashes ∧
        Tabled n l c s ∧ K s := by
    rintro s ⟨rfl, hs, hk⟩
    have hfit : Small n → start + d.length ≤ (s.data.t .hashes).length := by
      intro h
      rw [hs.table h]
      exact hd h
    exact ⟨fun h => if_pos (hfit h), hfit, rfl, hs.touched hfit, hlog s _ hk⟩
  refine htouch.bind fun _ => Yields.assume fun hfit => ?_
  rintro s ⟨rfl, hs, hk⟩
  unfold Scanner.onlyIf
  by_cases h : start + d.length ≤ (s.data.t .hashes).length
  · rw [if_pos h]
    refine ⟨fun _ => rfl, ⟨hs.toInv.set _ (fun _ => rfl) fun _ => rfl, fun hn => ?_⟩, hset s _ hk⟩
    refine Eq.trans ?_ (hs.table hn)
    exact (congrArg List.length (put_self _ _ _)).trans (Bytes.length_writeAt h)
  · rw [if_neg h]
    exact ⟨fun hn => absurd (hfit hn) h, hs, hk⟩

theorem fills_demand (amount bound : Nat) :
    Fills n (Tabled n l c) (demand amount bound) (demand amount bound) fun _ => Tabled n l c := by
  intro s hs
  refine ⟨fun _ => rfl, ?_⟩
  unfold Scanner.demand
  by_cases h : amount ≤ bound
  · rw [if_pos h]
    exact hs.touched fun _ => h
  · rw [if_neg h]
    nofun

theorem length_minerTxHash (p : Platform) (pre : Bytes) :
    (minerTxHash p.keccak pre).length = 32 := p.keccak_length _

theorem fills_minerTxHash : Fills n (Tabled n l c) (calculateMinerTxHash p) (calculateMinerTxHash p)
    fun d s => d.length = 32 ∧ Tabled n l c s := by
  unfold calculateMinerTxHash
  have hoff : ∀ o, Fills n (Tabled n l c) (offset o) (offset o) fun _ => Tabled n l c :=
    fun o s hs => ⟨fun _ => rfl, hs⟩
  refine (hoff _).bind fun _ => (hoff _).bind fun _ => (fills_demand _ _).bind fun _ => ?_
  refine (Yields.peek _ _ nofun).bind fun pre => (Yields.pure _).conseq (fun _ h => h) ?_
  rintro _ s ⟨rfl, hs⟩
  exact ⟨length_minerTxHash p pre, hs⟩

/-- **The loop over the hashes**: behind it the reader has passed as many as the count says,
so that the count is small. -/
theorem fills_loop {add : Nat → UInt64 → Nat} (hadd : Adds add) (fuel : Nat) (idx : UInt64) :
    Fills n (Tabled n l idx.toNat)
      (loop (fun i => pure (i ≤ n)) (fillHash add storeUnchecked idx) fuel 1)
      (loop (fun i => pure (i ≤ n)) (fillHash add store idx) fuel 1)
      fun _ s => Small n ∧ Tabled n l idx.toNat s := by
  have hloop := @Yields.loop Bool Parse UInt64 (fun e => e ≠ .ret true) (Small n)
    (fun i s => Tabled n l idx.toNat s ∧ 32 * (i.toNat - 1) ≤ s.cur.index)
    (fun i s => i ≤ n ∧ Tabled n l idx.toNat s ∧ 32 * (i.toNat - 1) ≤ s.cur.index)
    (fun _ s => Small n ∧ Tabled n l idx.toNat s) (fun i => pure (i ≤ n))
    (fillHash add storeUnchecked idx) (fillHash add store idx) nofun ?_ ?_ fuel 1
  · exact hloop.conseq (fun s hs => ⟨hs, Nat.zero_le _⟩) fun _ _ h => h
  · rintro i s ⟨hs, hb⟩
    refine ⟨fun _ => rfl, ?_⟩
    show if decide (i ≤ n) = true then _ else _
    by_cases hi : i ≤ n
    · rw [if_pos (decide_eq_true hi)]
      exact ⟨hi, hs, hb⟩
    · rw [if_neg (by simpa using hi)]
      refine ⟨?_, hs⟩
      rw [UInt64.le_iff_toNat_le] at hi
      have hidx := hs.index
      have hlen := hs.whole.length
      unfold Small
      omega
  · refine fun i => Yields.assume fun hi => ?_
    rw [UInt64.le_iff_toNat_le] at hi
    refine (fills_getArray hadd (by decide) _).bind fun a => Yields.assume fun ha => ?_
    have h32 : kHashSize.toNat = 32 := rfl
    rw [h32] at ha ⊢
    refine (fills_store _ (fun _ _ h => h) (fun _ _ h => h) fun _ => by omega).bind fun _ =>
      (Yields.pure _).conseq (fun _ h => h) ?_
    rintro _ s ⟨rfl, hs, hb⟩
    refine ⟨hs, ?_⟩
    have hlt := i.toNat_lt
    have h1 : (1 : UInt64).toNat = 1 := rfl
    rw [UInt64.toNat_add, h1]
    omega

/-- The table of the size that the code computes. -/
theorem length_table (idx : UInt64) (hi : idx.toNat ≤ 2) (h : Small n) :
    (List.replicate ((idx + n + 1) * kHashSize).toNat (0 : UInt8)).length =
      32 * (idx.toNat + n.toNat + 1) := by
  unfold Small at h
  have h1 : (1 : UInt64).toNat = 1 := rfl
  have h32 : kHashSize.toNat = 32 := rfl
  rw [List.length_replicate, UInt64.toNat_mul, UInt64.toNat_add, UInt64.toNat_add, h1, h32]
  omega

/-- The two nodes before the coinbase transaction. -/
theorem fills_fcmp {add : Nat → UInt64 → Nat} (hadd : Adds add) :
    Fills n (Tabled n l 2)
      (do
        assign .FCMPTreeLayers (← getByte)
        assign .FCMPTreeRoot (← getArray add 32)
        let layers ← member .FCMPTreeLayers
        storeUnchecked 0 [layers]
        let root ← member .FCMPTreeRoot
        storeUnchecked 32 root)
      (do
        assign .FCMPTreeLayers (← getByte)
        assign .FCMPTreeRoot (← getArray add 32)
        let layers ← member .FCMPTreeLayers
        store 0 [layers]
        let root ← member .FCMPTreeRoot
        store 32 root)
      fun _ => Tabled n l 2 := by
  refine fills_getByte.bind fun layers => ?_
  refine (fills_set .FCMPTreeLayers _ (fun _ => rfl) (fun _ => rfl) fun _ => rfl).bind fun _ => ?_
  refine ((fills_getArray hadd (by decide) 0).conseq (fun s hs => ⟨hs, Nat.zero_le _⟩)
    fun _ _ h => ⟨h.1, h.2.1⟩).bind fun root => Yields.assume fun hroot => ?_
  have hassign : Fills n (Tabled n l 2) (assign .FCMPTreeRoot root) (assign .FCMPTreeRoot root)
      fun _ s => Tabled n l 2 s ∧ (s.data.t .FCMPTreeRoot).length = 32 := by
    refine fills_assign _ _ fun s hs => ⟨hs.set _ (fun _ => rfl) (fun _ => rfl) fun _ => rfl, ?_⟩
    exact (congrArg List.length (put_self _ _ _)).trans hroot
  refine hassign.bind fun _ => (fills_member _ _).bind fun v => ?_
  have hfirst := @fills_store n l 2 (fun s => (s.data.t .FCMPTreeRoot).length = 32) 0 [v]
    (fun _ _ h => h) (fun _ _ h => h) fun _ => by
      rw [List.length_singleton]
      omega
  refine (hfirst.conseq (fun _ hs => hs.2) fun _ _ h => h).bind fun _ => ?_
  refine (fills_member _ _).bind fun w => ?_
  have hsecond : w.length = 32 → Fills n (fun s => Tabled n l 2 s ∧ True) (storeUnchecked 32 w)
      (store 32 w) fun _ s => Tabled n l 2 s ∧ True := fun hw =>
    fills_store 32 (fun _ _ h => h) (fun _ _ h => h) fun _ => by omega
  refine (Yields.assume hsecond).conseq ?_ fun _ _ h => h.1
  rintro s ⟨rfl, hs, hlen⟩
  exact ⟨hlen, hs, trivial⟩

/-- **The table is filled**, and then the count is small. -/
theorem fills_fill {add : Nat → UInt64 → Nat} (hadd : Adds add) (fuel : Nat) {idx : UInt64}
    {b : Bool} (hidx : idx.toNat = if b then 2 else 0) :
    Fills n (Inv n l) (fill add p fuel storeUnchecked idx b) (fill add p fuel store idx b)
      fun _ s => Small n ∧ Tabled n l idx.toNat s := by
  have hle : idx.toNat ≤ 2 := by
    rw [hidx]
    split <;> decide
  unfold fill
  refine (fills_member _ _).bind fun count => Yields.conseq (P := fun s => count = n ∧ Inv n l s)
    (Yields.assume fun hcount => ?_) (fun s hs => ⟨hs.1.trans hs.2.count, hs.2⟩) fun _ _ h => h
  subst hcount
  refine (fills_assign .hashes _ fun s hs => hs.set _ (fun _ => rfl) fun _ => rfl).bind fun _ => ?_
  refine (Yields.onlyIf (fun _ => .halt (e := .thrown) nofun) fun _ _ hs => hs).bind fun _ => ?_
  have htable : ∀ s : Scan Parse, Inv count l s → Tabled count l idx.toNat
      (set .hashes (List.replicate ((idx + count + 1) * kHashSize).toNat 0) s) := by
    intro s hs
    refine ⟨hs.set _ (fun _ => rfl) fun _ => rfl, fun h => ?_⟩
    exact (congrArg List.length (put_self _ _ _)).trans (length_table idx hle h)
  refine (fills_assign .hashes _ htable).bind fun _ => ?_
  refine fills_minerTxHash.bind fun d => Yields.assume fun hd => ?_
  have hfirst := @fills_store count l idx.toNat (fun _ => True) (32 * idx.toNat) d
    (fun _ _ h => h) (fun _ _ h => h) fun _ => by omega
  refine (hfirst.conseq (fun s hs => ⟨hs, trivial⟩) fun _ _ h => h.1).bind fun _ => ?_
  refine (fills_loop hadd fuel idx).bind fun _ => Yields.assume fun hsmall => ?_
  refine Yields.conseq (Q := fun _ => Tabled count l idx.toNat) ?_ (fun _ h => h)
    fun _ _ h => ⟨hsmall, h⟩
  refine Yields.onlyIf (fun hb => ?_) fun _ _ hs => hs
  rw [hidx, if_pos hb]
  exact fills_fcmp hadd

end

/-! ## A call -/

/-- The layout with two nodes before the hash of the coinbase transaction. -/
def isFcmp (coin : Coin) (majorVersion : UInt8) : Bool := coin = .MONERO ∧ majorVersion ≥ 17

/-- mirrors src/base/tools/cryptonote/BlockTemplate.cpp:417 -/
def coinbaseIndex (t : BlockTemplate) : Nat := if isFcmp (t .coin) (t .versionFirst) then 2 else 0

section
variable {add : Nat → UInt64 → Nat} {p : Platform} {fuel : Nat}

theorem whole_kept {σ κ : Type} {k : σ → κ} {s t : Scan σ} (h : Kept k s t) (hs : Whole s) :
    Whole t :=
  ⟨h.base.trans hs.base, by rw [h.size, h.mem, hs.size], by rw [h.mem]; exact hs.length⟩

theorem parseFields_eq (add : Nat → UInt64 → Nat) (p : Platform) (fuel : Nat) :
    parseFields add p fuel = (do
      (do
        parseHeader add p fuel
        setOffset .MINER_TX_PREFIX_OFFSET (← index)
        parseInput p fuel)
      let is_fcmp_pp ← isFcmpPp
      (do
        parseOutput add p fuel is_fcmp_pp
        parseExtra add p fuel
        parseZephyrAmounts p fuel)
      parseRct
      let numHashes ← getVarint p fuel
      assign .numHashes numHashes
      pure is_fcmp_pp) := by
  unfold parseFields
  simp only [bind_assoc]

theorem steady_front : Steady refused call (do
    parseHeader add p fuel
    setOffset .MINER_TX_PREFIX_OFFSET (← index)
    parseInput p fuel) := by
  refine (steady_parseHeader add p fuel).bind fun _ => Steady.index.bind fun _ => ?_
  exact (steady_assign _ fun _ => rfl).bind fun _ => (steady_parseInput p fuel).mono
    (fun l => (l.blob, l.coin)) fun _ h => h

/-- Behind the layout, up to what is not signed. -/
theorem steady_fields (b : Bool) : Steady refused layout (do
    parseOutput add p fuel b
    parseExtra add p fuel
    parseZephyrAmounts p fuel) := by
  refine (steady_parseOutput add p fuel b).bind fun _ => ?_
  exact (steady_parseExtra add p fuel).bind fun _ => steady_parseZephyrAmounts p fuel

theorem steady_parseFields : Steady (fun _ => True) call (parseFields add p fuel) := by
  rw [parseFields_eq]
  refine (steady_front.mono id fun _ _ => trivial).bind fun _ =>
    Steady.bind (fun s => ⟨.refl s, nofun⟩) fun b => ?_
  refine ((steady_fields b).mono (fun l => (l.blob, l.coin)) fun _ _ => trivial).bind fun _ => ?_
  refine (steady_parseRct.mono (fun l => (l.blob, l.coin)) fun _ _ => trivial).bind fun _ => ?_
  refine (Steady.getVarint p fuel).bind fun _ => (steady_assign _ fun _ => rfl).bind fun _ => ?_
  exact .pure _

theorem parseFields_true {s t : Scan Parse} (h : parseFields add p fuel s = .error (.ret true) t) :
    Update t.data := by
  rw [parseFields_eq] at h
  rcases Scanner.bind_error h with h₁ | ⟨_, s₁, -, h₁⟩
  · exact absurd ((steady_front s).2 true t h₁) nofun
  rcases Scanner.bind_error h₁ with h₂ | ⟨b, s₂, -, h₂⟩
  · cases h₂
  rcases Scanner.bind_error h₂ with h₃ | ⟨_, s₃, -, h₃⟩
  · exact absurd ((steady_fields b s₂).2 true t h₃) nofun
  rcases Scanner.bind_error h₃ with h₄ | ⟨_, s₄, -, h₄⟩
  · exact parseRct_true h₄
  rcases Scanner.bind_error h₄ with h₅ | ⟨_, s₅, -, h₅⟩
  · exact absurd ((Steady.getVarint (R := refused) (k := layout) p fuel s₄).2 true t h₅) nofun
  · cases h₅

/-- The miner transaction starts inside the blob. -/
theorem front_ok {s t : Scan Parse} (hi : s.cur.index ≤ s.cur.size)
    (h : (do
      parseHeader add p fuel
      setOffset .MINER_TX_PREFIX_OFFSET (← index)
      parseInput p fuel) s = .ok () t) :
    (t.data.t (.offset .MINER_TX_PREFIX_OFFSET)).toNat ≤ s.cur.size := by
  obtain ⟨_, s₁, h₁, hr₁⟩ := Scanner.bind_ok h
  obtain ⟨i, s₂, h₂, hr₂⟩ := Scanner.bind_ok hr₁
  obtain ⟨_, s₃, h₃, hr₃⟩ := Scanner.bind_ok hr₂
  cases h₂
  have hs₃ : s₃ = set (.offset .MINER_TX_PREFIX_OFFSET) (UInt32.ofNat s₁.cur.index) s₁ := by
    cases h₃
    rfl
  have hk := (steady_parseHeader add p fuel s).1
  rw [h₁] at hk
  have hin : s₁.cur.index ≤ s₁.cur.size := hk.inside hi
  have hsize : s₁.cur.size = s.cur.size := hk.size
  have hl := (steady_parseInput p fuel s₃).1
  rw [hr₃] at hl
  have hoff : t.data.t (.offset .MINER_TX_PREFIX_OFFSET) = UInt32.ofNat s₁.cur.index := by
    rw [hs₃] at hl
    exact congrArg Layout.minerTx hl.data
  rw [hoff, UInt32.toNat_ofNat']
  omega

/-- What is known where the table starts. -/
structure Ready (s t : Scan Parse) (b : Bool) : Prop where
  inv : Inv (t.data.t .numHashes) (layout t.data) t
  call : call t.data = call s.data
  fcmp : b = isFcmp (t.data.t .coin) (t.data.t .versionFirst)
  minerTx : (t.data.t (.offset .MINER_TX_PREFIX_OFFSET)).toNat ≤ s.mem.length

theorem parseFields_ok {s t : Scan Parse} {b : Bool} (hs : Whole s)
    (hi : s.cur.index ≤ s.cur.size) (hu : ∀ a ∈ s.log, isUse a = false)
    (h : parseFields add p fuel s = .ok b t) : Ready s t b := by
  have hkept := (@steady_parseFields add p fuel s).1
  rw [h] at hkept
  have huses : ∀ a ∈ t.log, isUse a = false := by
    have hnil : s.log.filter isUse = [] :=
      List.filter_eq_nil_iff.mpr fun a ha => by rw [hu a ha]; decide
    intro a ha
    have := List.filter_eq_nil_iff.mp (hkept.uses.trans hnil) a ha
    simpa using this
  rw [parseFields_eq] at h
  obtain ⟨_, s₁, h₁, hr₁⟩ := Scanner.bind_ok h
  obtain ⟨is_fcmp_pp, s₂, h₂, hr₂⟩ := Scanner.bind_ok hr₁
  obtain ⟨_, s₃, h₃, hr₃⟩ := Scanner.bind_ok hr₂
  obtain ⟨_, s₄, h₄, hr₄⟩ := Scanner.bind_ok hr₃
  obtain ⟨v, s₅, h₅, hr₅⟩ := Scanner.bind_ok hr₄
  clear h hr₁ hr₂ hr₃ hr₄
  have hk₃ := (@steady_fields add p fuel is_fcmp_pp s₂).1
  rw [h₃] at hk₃
  have hk₄ := (steady_parseRct s₃).1
  rw [h₄] at hk₄
  have hk₅ := (Steady.getVarint (R := refused) (k := layout) p fuel s₄).1
  rw [h₅] at hk₅
  have hoff := front_ok hi h₁
  cases hr₅
  cases h₂
  have hlayout : layout s₅.data = layout s₁.data := hk₅.data.trans (hk₄.data.trans hk₃.data)
  have hw := whole_kept hkept hs
  have hin := hkept.inside hi
  refine ⟨⟨hw, le_of_le_of_eq hin hw.size, rfl, rfl, fun _ a ha hu => ?_⟩, hkept.data, ?_, ?_⟩
  · rw [huses a ha] at hu
    cases hu
  · exact (congrArg (fun l : Layout => isFcmp l.coin l.version) hlayout).symm
  · rw [← hs.size]
    exact (congrArg (fun l : Layout => l.minerTx.toNat) hlayout).trans_le hoff

theorem outcome_error {e : Halt Bool} {s : Scan Parse} (h : e ≠ .ret true) :
    (parsed (.error e s)).rc ≠ .returned true := by
  cases e with
  | ret rc =>
    cases rc with
    | true => exact absurd rfl h
    | false => nofun
  | thrown => nofun
  | undefined => nofun
  | fuel => nofun

/-- Root, branch and path are those of the table. -/
structure Tree (p : Platform) (t : BlockTemplate) : Prop where
  branch : t .minerTxMerkleTreeBranch =
    (calculateMerkleTreeHash p.keccak (t .hashes) (coinbaseIndex t)).1
  path : t .minerTxMerkleTreePath =
    (calculateMerkleTreeHash p.keccak (t .hashes) (coinbaseIndex t)).2.1
  root : t .rootHash = (calculateMerkleTreeHash p.keccak (t .hashes) (coinbaseIndex t)).2.2

/-- Branch, path and root of the table. -/
theorem tree_ran {n : UInt64} {l : Layout} {c : Nat} {s : Scan Parse} (hs : Tabled n l c s)
    (hn : Small n) (hc : c = if isFcmp l.coin l.version then 2 else 0) :
    ∃ t u, (do
        let hashes ← member .hashes
        finish (← calculateUnchecked p hashes c)) s = .ok () t ∧
      (do
        let hashes ← member .hashes
        finish (calculateMerkleTreeHash p.keccak hashes c)) s = .ok () u ∧
      u.data = t.data ∧ Tabled n l c t ∧ Tree p t.data.t := by
  have hlen := hs.table hn
  have hle : c ≤ 2 := by
    rw [hc]
    split <;> decide
  have hidx : coinbaseIndex s.data.t = c := by
    rw [hc, ← hs.layout]
    rfl
  subst hidx
  let r := merkleTraced p.keccak (s.data.t .hashes) (coinbaseIndex s.data.t)
  have hlog : Tabled n l (coinbaseIndex s.data.t) { s with log := r.2.reverse ++ s.log } := by
    refine ⟨⟨⟨hs.whole.base, hs.whole.size, hs.whole.length⟩, hs.index, hs.count, hs.layout,
      fun _ a ha hu => ?_⟩, hs.table⟩
    rcases List.mem_append.mp ha with ha | ha
    · exact merkleTraced_fits p.keccak (by omega) (by omega) a (List.mem_reverse.mp ha)
    · exact hs.uses hn a ha hu
  have hbranch := hlog.set (m := .minerTxMerkleTreeBranch) r.1.1 (fun _ => rfl) (fun _ => rfl)
    fun _ => rfl
  have hpath := hbranch.set (m := .minerTxMerkleTreePath) r.1.2.1 (fun _ => rfl) (fun _ => rfl)
    fun _ => rfl
  have hset := hpath.set (m := .rootHash) r.1.2.2 (fun _ => rfl) (fun _ => rfl) fun _ => rfl
  have hr := merkleTraced_fst p.keccak (s.data.t .hashes) (coinbaseIndex s.data.t)
  refine ⟨_, set .rootHash r.1.2.2 (set .minerTxMerkleTreePath r.1.2.1
    (set .minerTxMerkleTreeBranch r.1.1 s)), rfl, ?_, rfl, hset, ?_⟩
  · show finish (calculateMerkleTreeHash p.keccak (s.data.t .hashes) _) s = _
    rw [← hr]
    rfl
  · exact ⟨congrArg Prod.fst hr, congrArg (fun x => x.2.1) hr, congrArg (fun x => x.2.2) hr⟩

/-- The hashes of an accepted blob, read by both parsers. -/
theorem parseHashes_ran {n : UInt64} {l : Layout} {s : Scan Parse} (hadd : Adds add)
    (hs : Inv n l s) {b : Bool} (hb : b = isFcmp l.coin l.version) :
    (∃ e t, parseHashesUnchecked add p fuel b s = .error e t ∧ e ≠ .ret true) ∨
      ∃ t u, parseHashesUnchecked add p fuel b s = .ok () t ∧
        parseHashes add p fuel b s = .ok () u ∧ u.data = t.data ∧ Small n ∧
        Tabled n l (if b then 2 else 0) t ∧ Tree p t.data.t := by
  have hidx : (if b then (2 : UInt64) else 0).toNat = if b then 2 else 0 := by cases b <;> rfl
  rw [parseHashes_eq]
  unfold parseHashesUnchecked
  obtain ⟨heq, hf⟩ := fills_fill (p := p) hadd fuel hidx s hs
  cases hr : fill add p fuel storeUnchecked (if b then 2 else 0) b s with
  | error e t =>
    rw [hr] at hf
    exact .inl ⟨e, t, run_error hr, hf⟩
  | ok a v =>
    rw [hr] at hf heq
    obtain ⟨hsmall, hv⟩ := hf
    obtain ⟨t, u, ht, hu, hd, htab, htree⟩ := tree_ran (p := p) hv hsmall (hidx.trans (by rw [hb]))
    rw [hidx] at htab
    exact .inr ⟨t, u, (run_ok hr).trans ht, (run_ok (heq hsmall)).trans hu, hd, hsmall, htab, htree⟩

/-- The parser that stops at a store outside the table. -/
theorem stops_store (start : Nat) (d : Bytes) :
    Scanner.Stops (storeUnchecked start d) (store start d) := by
  unfold storeUnchecked store
  refine (Scanner.Stops.refl _).bind fun hashes s => ?_
  by_cases h : start + d.length ≤ hashes.length
  · left
    refine (run_ok (if_pos h)).trans (Eq.trans ?_ (run_ok rfl).symm)
    unfold Scanner.onlyIf
    rw [if_pos h]
  · exact .inr ⟨_, run_error (if_neg h)⟩

theorem stops_fill (idx : UInt64) (b : Bool) :
    Scanner.Stops (fill add p fuel storeUnchecked idx b) (fill add p fuel store idx b) := by
  unfold fill
  refine (Scanner.Stops.refl _).bind fun n => (Scanner.Stops.refl _).bind fun _ => ?_
  refine (Scanner.Stops.refl _).bind fun _ => (Scanner.Stops.refl _).bind fun _ => ?_
  refine (Scanner.Stops.refl _).bind fun d => (stops_store _ d).bind fun _ => ?_
  refine (Scanner.Stops.loop (fun i => ?_) _ _).bind fun _ => .onlyIf ?_
  · exact (Scanner.Stops.refl _).bind fun h => (stops_store _ h).bind fun _ => .refl _
  · refine (Scanner.Stops.refl _).bind fun _ => (Scanner.Stops.refl _).bind fun _ => ?_
    refine (Scanner.Stops.refl _).bind fun _ => (Scanner.Stops.refl _).bind fun _ => ?_
    refine (Scanner.Stops.refl _).bind fun _ => (stops_store _ _).bind fun _ => ?_
    exact (Scanner.Stops.refl _).bind fun _ => stops_store _ _

/-! ## The law -/

/-- What the parser that stops accepts is accepted. -/
theorem parse_accepts {t : BlockTemplate} {blob : Bytes} {coin : Coin}
    (h : (parse add p fuel t blob coin true).rc = .returned true) :
    (parseUnchecked add p fuel t blob coin true).rc = .returned true := by
  unfold parse at h
  unfold parseUnchecked
  by_cases hmin : blob.length < kMinSize
  · rw [if_pos hmin] at h
    cases h
  · rw [if_neg hmin, parseBody_eq] at h
    rw [if_neg hmin]
    unfold parseBodyUnchecked
    cases hf : parseFields add p fuel (start t blob coin) with
    | error e u =>
      rw [run_error hf] at h ⊢
      exact h
    | ok b u =>
      rw [run_ok hf] at h ⊢
      have hif : ∀ x : Parser Unit, onlyIf (true = true) x = x := fun x => if_pos rfl
      rw [hif, parseHashes_eq] at h
      rw [hif, parseHashesUnchecked]
      rcases @stops_fill add p fuel (if b then 2 else 0) b u with
        hr | ⟨v, hr⟩
      · cases hx : fill add p fuel storeUnchecked (if b then 2 else 0) b u with
        | error e v =>
          rw [run_error (run_error (hr.trans hx))] at h
          rw [run_error (run_error hx)]
          exact h
        | ok a v =>
          rw [bind_assoc, run_ok hx]
          rfl
      · rw [run_error (run_error hr)] at h
        cases h

/-- The accesses of the table are inside, and the table has a place for each hash. -/
structure InTable (r : Parsed) : Prop where
  inside : ∀ a ∈ r.log, isUse a = true → a.Fits
  size : (∃ a ∈ r.log, isUse a = true) →
    (r.t .hashes).length = (coinbaseIndex r.t + (r.t .numHashes).toNat + 1) * 32

/-- An accepted object: its blob, where the miner transaction starts, and the tree of its table,
unless the blob is a game update. -/
structure Accepted (p : Platform) (blob : Bytes) (coin : Coin) (t : BlockTemplate) : Prop where
  blob_eq : t .blob = blob
  coin_eq : t .coin = coin
  parsed : (t .coin = .TOWNFORGE ∧ t .height % 720 = 0) ∨
    (t (.offset .MINER_TX_PREFIX_OFFSET)).toNat ≤ blob.length ∧ Small (t .numHashes) ∧
      (t .hashes).length = 32 * (coinbaseIndex t + (t .numHashes).toNat + 1) ∧ Tree p t

/-- The calls of both parsers, where the one that goes on is accepted. -/
theorem parse_ran (hadd : Adds add) (p : Platform) (fuel : Nat) (t : BlockTemplate)
    (blob : Bytes) (coin : Coin) (hlen : blob.length < 2 ^ 63)
    (h : (parseUnchecked add p fuel t blob coin true).rc = .returned true) :
    InTable (parseUnchecked add p fuel t blob coin true) ∧
      (parse add p fuel t blob coin true).rc = .returned true ∧
      (parse add p fuel t blob coin true).t = (parseUnchecked add p fuel t blob coin true).t ∧
      Accepted p blob coin (parseUnchecked add p fuel t blob coin true).t := by
  unfold parseUnchecked at h ⊢
  unfold parse
  by_cases hmin : blob.length < kMinSize
  · rw [if_pos hmin] at h
    cases h
  · rw [if_neg hmin] at h ⊢
    rw [if_neg hmin, parseBody_eq]
    have hs : Whole (start t blob coin) := ⟨rfl, rfl, hlen⟩
    have hnone : ∀ a ∈ (start t blob coin).log, isUse a = false := nofun
    unfold parseBodyUnchecked at h ⊢
    cases hf : parseFields add p fuel (start t blob coin) with
    | error e u =>
      rw [run_error hf] at h ⊢
      rw [run_error hf]
      have hk := (@steady_parseFields add p fuel (start t blob coin)).1
      rw [hf] at hk
      have huses : ∀ a ∈ u.log, ¬ isUse a = true := List.filter_eq_nil_iff.mp hk.uses
      have he : e = .ret true := by
        by_contra hne
        exact absurd h (outcome_error hne)
      refine ⟨⟨fun a ha hu => absurd hu (huses a ha), fun ⟨a, ha, hu⟩ => absurd hu (huses a ha)⟩,
        h, rfl, congrArg Prod.fst hk.data, congrArg Prod.snd hk.data, .inl ?_⟩
      rw [he] at hf
      exact parseFields_true hf
    | ok b u =>
      rw [run_ok hf] at h ⊢
      rw [run_ok hf]
      have hready := parseFields_ok hs (Nat.zero_le _) hnone hf
      have hif : ∀ x : Parser Unit, onlyIf (true = true) x = x := fun x => if_pos rfl
      rw [hif] at h ⊢
      rw [hif]
      rcases @parseHashes_ran add p fuel _ _ _ hadd hready.inv _ hready.fcmp with
        ⟨e, v, hr, he⟩ | ⟨v, w, hr, hw, hd, hsmall, hv, htree⟩
      · rw [run_error hr] at h
        exact absurd h (outcome_error he)
      · rw [run_ok hr, run_ok hw]
        have hcoin : v.data.t .coin = u.data.t .coin := congrArg Layout.coin hv.layout
        have hversion : v.data.t .versionFirst = u.data.t .versionFirst :=
          congrArg Layout.version hv.layout
        have hblob : v.data.t .blob = u.data.t .blob := congrArg Layout.blob hv.layout
        have hidx : coinbaseIndex v.data.t = if b = true then 2 else 0 := by
          rw [hready.fcmp, ← hcoin, ← hversion]
          rfl
        have htable := hv.table hsmall
        rw [← hidx, ← hv.count] at htable
        refine ⟨⟨hv.uses hsmall, fun _ => htable.trans (Nat.mul_comm _ _)⟩, rfl,
          congrArg Parse.t hd, hblob.trans (congrArg Prod.fst hready.call),
          hcoin.trans (congrArg Prod.snd hready.call), .inr ⟨?_, ?_, htable, htree⟩⟩
        · exact (congrArg (fun l : Layout => l.minerTx.toNat) hv.layout).trans_le hready.minerTx
        · show Small (v.data.t .numHashes)
          rw [hv.count]
          exact hsmall

/-- **The table of hashes**: in a call that is accepted every access is inside, and the size is
that of the integers. -/
theorem table_bounds (p : Platform) (fuel : Nat) (t : BlockTemplate) (blob : Buffer) (coin : Coin)
    (h : (parseUnchecked Scanner.wrap p fuel t blob coin true).rc = .returned true) :
    InTable (parseUnchecked Scanner.wrap p fuel t blob coin true) :=
  (parse_ran adds_wrap p fuel t blob coin blob.2 h).1

/-- The parser that stops at an access outside accepts the same blobs, with the same object. -/
theorem parse_accepted (p : Platform) (fuel : Nat) (t : BlockTemplate) (blob : Buffer)
    (coin : Coin) :
    ((parse Scanner.wrap p fuel t blob coin true).rc = .returned true ↔
      (parseUnchecked Scanner.wrap p fuel t blob coin true).rc = .returned true) ∧
    ((parse Scanner.wrap p fuel t blob coin true).rc = .returned true →
      (parse Scanner.wrap p fuel t blob coin true).t =
        (parseUnchecked Scanner.wrap p fuel t blob coin true).t) := by
  refine ⟨⟨parse_accepts, fun h => (parse_ran adds_wrap p fuel t blob coin blob.2 h).2.1⟩,
    fun h => ?_⟩
  exact (parse_ran adds_wrap p fuel t blob coin blob.2 (parse_accepts h)).2.2.1

/-- The object of an accepted call. -/
theorem accepted_parse {p : Platform} {fuel : Nat} {t : BlockTemplate} {blob : Buffer} {coin : Coin}
    (h : (parse Scanner.wrap p fuel t blob coin true).rc = .returned true) :
    Accepted p blob coin (parse Scanner.wrap p fuel t blob coin true).t := by
  obtain ⟨-, -, ht, ha⟩ := parse_ran adds_wrap p fuel t blob coin blob.2 (parse_accepts h)
  rw [ht]
  exact ha

end

/-- A Monero template of version 17 with two hashes. -/
def fcmpBlob : Buffer :=
  ⟨[17, 16, 0x80, 0x80, 0x80, 0x80, 0x06] ++ List.replicate 36 0 ++ [2, 60, 1, 0xFF, 1, 1, 0, 0] ++
    List.replicate 51 0 ++ [0, 0, 2] ++ List.replicate 64 7 ++ 3 :: List.replicate 32 9,
    by decide +kernel⟩

theorem table_bounds_fcmp :
    InTable (parseUnchecked Scanner.wrap Platform.sample 16 fresh fcmpBlob .MONERO true) :=
  table_bounds Platform.sample 16 fresh fcmpBlob .MONERO (by decide +kernel)

end Rxs.L1.HashTable
