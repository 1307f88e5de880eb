import Mathlib.Data.Fin.VecNotation
import Rxs.Core.BlockStream
import Rxs.Core.Bytes

/-!
# BLAKE2b

The compression works on four rows of four words. A round mixes the columns, then the
diagonals: those are the columns once row `i` has moved by `i` lanes. `blake2b` is the hash with
no key: all blocks but the last, then the last with its flag.

* `hold_chain`: the blocks as a stream that holds the last one back.
-/
namespace Rxs.Core.Blake2b

open Bytes BlockStream

@[elab_as_elim]
theorem sixteen_cases {P : Fin 16 → Prop} (i : Fin 16) (zero : P 0) (one : P 1) (two : P 2)
    (three : P 3) (four : P 4) (five : P 5) (six : P 6) (seven : P 7) (eight : P 8) (nine : P 9)
    (ten : P 10) (eleven : P 11) (twelve : P 12) (thirteen : P 13) (fourteen : P 14)
    (fifteen : P 15) : P i := by
  have hlow (j : Fin 8) : P (Fin.castAdd 8 j) :=
    @eight_cases (fun j => P (Fin.castAdd 8 j)) j zero one two three four five six seven
  have hhigh (j : Fin 8) : P (Fin.natAdd 8 j) :=
    @eight_cases (fun j => P (Fin.natAdd 8 j)) j eight nine ten eleven twelve thirteen fourteen
      fifteen
  exact @Fin.addCases 8 8 P hlow hhigh i

abbrev W := BitVec 64

/-- A word for each lane. -/
abbrev Row := Fin 4 → W

structure Rows where
  a : Row
  b : Row
  c : Row
  d : Row

def IV : Fin 8 → W :=
  ![0x6a09e667f3bcc908, 0xbb67ae8584caa73b, 0x3c6ef372fe94f82b, 0xa54ff53a5f1d36f1,
    0x510e527fade682d1, 0x9b05688c2b3e6c1f, 0x1f83d9abfb41bd6b, 0x5be0cd19137e2179]

/-- Which word of the message a place of a round has. -/
def SIGMA (r : Nat) : Fin 16 → Fin 16 :=
  match r % 10 with
  | 0 => ![0, 1, 2, 3, 4, 5, 6, 7, 8, 9, 10, 11, 12, 13, 14, 15]
  | 1 => ![14, 10, 4, 8, 9, 15, 13, 6, 1, 12, 0, 2, 11, 7, 5, 3]
  | 2 => ![11, 8, 12, 0, 5, 2, 15, 13, 10, 14, 3, 6, 7, 1, 9, 4]
  | 3 => ![7, 9, 3, 1, 13, 12, 11, 14, 2, 6, 5, 10, 4, 0, 15, 8]
  | 4 => ![9, 0, 5, 7, 2, 4, 10, 15, 14, 1, 11, 12, 6, 8, 3, 13]
  | 5 => ![2, 12, 6, 10, 0, 11, 8, 3, 4, 13, 7, 5, 15, 14, 1, 9]
  | 6 => ![12, 5, 1, 15, 14, 13, 4, 10, 0, 7, 6, 3, 9, 2, 8, 11]
  | 7 => ![13, 11, 7, 14, 12, 1, 3, 9, 5, 0, 15, 4, 8, 6, 2, 10]
  | 8 => ![6, 15, 14, 9, 11, 3, 0, 8, 12, 2, 13, 7, 1, 4, 10, 5]
  | _ => ![10, 2, 8, 4, 7, 6, 1, 5, 15, 11, 9, 14, 3, 12, 13, 0]

namespace Rows

/-- A half of the mixing of each lane. -/
def half (r₁ r₂ : Nat) (x : Row) (s : Rows) : Rows :=
  let a := fun i => s.a i + s.b i + x i
  let d := fun i => (s.d i ^^^ a i).rotateRight r₁
  let c := fun i => s.c i + d i
  let b := fun i => (s.b i ^^^ c i).rotateRight r₂
  ⟨a, b, c, d⟩

def mix (x y : Row) (s : Rows) : Rows := (s.half 32 24 x).half 16 63 y

def diagonalize (s : Rows) : Rows :=
  ⟨s.a, fun i => s.b (i + 1), fun i => s.c (i + 2), fun i => s.d (i + 3)⟩

def undiagonalize (s : Rows) : Rows :=
  ⟨s.a, fun i => s.b (i - 1), fun i => s.c (i - 2), fun i => s.d (i - 3)⟩

end Rows

theorem place_lt (k i : Fin 4) : 8 * (k.val / 2) + 2 * i.val + k.val % 2 < 16 := by omega

/-- The words for the halves of a round: two for the columns, two for the diagonals. -/
def message (m : Fin 16 → W) (r : Nat) (k : Fin 4) : Row := fun i =>
  m (SIGMA r ⟨8 * (k.val / 2) + 2 * i.val + k.val % 2, place_lt k i⟩)

def round (m : Fin 16 → W) (s : Rows) (r : Nat) : Rows :=
  let s := s.mix (message m r 0) (message m r 1)
  (s.diagonalize.mix (message m r 2) (message m r 3)).undiagonalize

/-- The words of the first half, and of the second. -/
def low (h : Fin 8 → W) : Row := ![h 0, h 1, h 2, h 3]

def high (h : Fin 8 → W) : Row := ![h 4, h 5, h 6, h 7]

/-- The compression of a block; `x` is the offset, of two words, and two flags. -/
def F (h : Fin 8 → W) (m : Fin 16 → W) (x : Row) : Fin 8 → W :=
  let s : Rows := ⟨low h, high h, low IV, fun i => high IV i ^^^ x i⟩
  let s := (List.range 12).foldl (round m) s
  ![h 0 ^^^ s.a 0 ^^^ s.c 0, h 1 ^^^ s.a 1 ^^^ s.c 1, h 2 ^^^ s.a 2 ^^^ s.c 2,
    h 3 ^^^ s.a 3 ^^^ s.c 3, h 4 ^^^ s.b 0 ^^^ s.d 0, h 5 ^^^ s.b 1 ^^^ s.d 1,
    h 6 ^^^ s.b 2 ^^^ s.d 2, h 7 ^^^ s.b 3 ^^^ s.d 3]

/-! ## The hash -/

def BLOCKBYTES : Nat := 128

/-- The words of a block. -/
def words (b : Bytes) : Fin 16 → W := fun i => BitVec.ofNat 64 (readLE (slice b (8 * i.val) 8))

/-- With zeros behind it. -/
def padded (b : Bytes) : Bytes := b ++ List.replicate (BLOCKBYTES - b.length) 0

/-- The offset behind a block and whether it is the last. -/
def offset (t : Nat) (last : Bool) : Row :=
  ![BitVec.ofNat 64 t, BitVec.ofNat 64 (t / 2 ^ 64), if last then BitVec.allOnes 64 else 0, 0]

/-- No key, and digests of `nn` bytes. -/
def start (nn : Nat) : Fin 8 → W := fun i =>
  IV i ^^^ if i = 0 then 0x01010000 ^^^ BitVec.ofNat 64 nn else 0

/-- After so many full blocks. -/
def chain (nn : Nat) (m : Bytes) : Nat → Fin 8 → W
  | 0 => start nn
  | i + 1 => F (chain nn m i) (words (slice m (BLOCKBYTES * i) BLOCKBYTES))
    (offset (BLOCKBYTES * (i + 1)) false)

/-- The blocks that are not the last. -/
def full (m : Bytes) : Nat := (m.length - 1) / BLOCKBYTES

def digest (h : Fin 8 → W) : Bytes := (List.finRange 8).flatMap fun i => le 8 (h i).toNat

def blake2b (nn : Nat) (m : Bytes) : Bytes :=
  let h := F (chain nn m (full m)) (words (padded (m.drop (BLOCKBYTES * full m))))
    (offset m.length true)
  (digest h).take nn

theorem length_digest (h : Fin 8 → W) : (digest h).length = 64 := by
  simp [digest, List.finRange_succ]

/-! ## As a stream -/

/-- A full block, behind `s.2` bytes. -/
def absorb (s : (Fin 8 → W) × Nat) (b : Bytes) : (Fin 8 → W) × Nat :=
  (F s.1 (words b) (offset (s.2 + BLOCKBYTES) false), s.2 + BLOCKBYTES)

theorem hold_chain_from (nn : Nat) (m : Bytes) (i : Nat) (hi : i ≤ full m) :
    hold BLOCKBYTES absorb (chain nn m i, BLOCKBYTES * i) (m.drop (BLOCKBYTES * i)) =
      ((chain nn m (full m), BLOCKBYTES * full m), m.drop (BLOCKBYTES * full m)) := by
  obtain ⟨n, hn⟩ := Nat.exists_eq_add_of_le hi
  induction n generalizing i with
  | zero =>
    rw [hn, Nat.add_zero, hold_short]
    rw [List.length_drop]
    unfold full BLOCKBYTES at *
    omega
  | succ n ih =>
    have hlong : BLOCKBYTES < (m.drop (BLOCKBYTES * i)).length := by
      rw [List.length_drop]
      unfold full BLOCKBYTES at *
      omega
    rw [hold_step (by decide) _ hlong, List.drop_drop, ← Nat.mul_succ]
    exact ih (i + 1) (by omega) (by omega)

/-- **The stream's state** after a message, with the last block held back. -/
theorem hold_chain (nn : Nat) (m : Bytes) :
    hold BLOCKBYTES absorb (start nn, 0) m =
      ((chain nn m (full m), BLOCKBYTES * full m), m.drop (BLOCKBYTES * full m)) :=
  hold_chain_from nn m 0 (Nat.zero_le _)

/-! ## Digests of any length -/

theorem length_blake2b {nn : Nat} (h : nn ≤ 64) (m : Bytes) : (blake2b nn m).length = nn := by
  simp only [blake2b, List.length_take, length_digest]
  omega

/-- The digests of which the first halves are taken. -/
def link (n : Nat) (m : Bytes) : Nat → Bytes
  | 0 => blake2b 64 (le 4 n ++ m)
  | i + 1 => blake2b 64 (link n m i)

theorem length_link (n : Nat) (m : Bytes) (i : Nat) : (link n m i).length = 64 := by
  cases i <;> exact length_blake2b (Nat.le_refl 64) _

def firstHalves (n : Nat) (m : Bytes) (r : Nat) : Bytes :=
  (List.range r).flatMap fun i => (link n m i).take 32

theorem firstHalves_succ (n : Nat) (m : Bytes) (r : Nat) :
    firstHalves n m (r + 1) = firstHalves n m r ++ (link n m r).take 32 := by
  simp [firstHalves, List.range_succ]

theorem length_firstHalves (n : Nat) (m : Bytes) (r : Nat) :
    (firstHalves n m r).length = 32 * r := by
  induction r with
  | zero => rfl
  | succ r ih =>
    rw [firstHalves_succ, List.length_append, ih, List.length_take, length_link]
    omega

/-- How many of them there are. -/
def links (n : Nat) : Nat := (n + 31) / 32 - 2

/-- With more than 64 bytes: halves of digests, each of the one before, and all of the last. -/
def long (n : Nat) (m : Bytes) : Bytes :=
  if n ≤ 64 then blake2b n (le 4 n ++ m)
  else firstHalves n m (links n) ++ blake2b (n - 32 * links n) (link n m (links n - 1))

theorem links_spec {n : Nat} (h : 64 < n) :
    0 < links n ∧ 32 * links n + 32 < n ∧ n ≤ 32 * links n + 64 := by
  unfold links
  omega

theorem length_long (n : Nat) (m : Bytes) : (long n m).length = n := by
  unfold long
  split
  · next h => exact length_blake2b h _
  · next h =>
    obtain ⟨-, hlow, hhigh⟩ := links_spec (Nat.lt_of_not_le h)
    rw [List.length_append, length_firstHalves, length_blake2b (by omega)]
    omega

end Rxs.Core.Blake2b
