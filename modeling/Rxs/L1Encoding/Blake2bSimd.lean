import Mathlib.Tactic.IntervalCases
import Rxs.L1Encoding.Blake2b

/-!
# BLAKE2b in registers of 128 bits

`rx_blake2b_compress_sse41` has a row in two registers of two words. It rotates a word by moving
its bytes where it can.

* `rotated`: what the shuffles of bytes are for.
* **`compress_sse41_eq`**: it is the compression.
-/
namespace Rxs.L1.Blake2b

open Rxs.Core Rxs.Core.Bytes
open Rxs.Core.Blake2b (W Row Rows IV SIGMA F place_lt BLOCKBYTES words padded offset start chain full
  digest blake2b low high message round)

/-! ## Registers of 128 bits -/

/-- `__m128i`, as its two words. -/
structure M128 where
  lo : W
  hi : W

/-- Eight bytes, the first the lowest. -/
def cat (b : Nat → BitVec 8) : W := b 7 ++ b 6 ++ b 5 ++ b 4 ++ b 3 ++ b 2 ++ b 1 ++ b 0

namespace M128

def byte (x : M128) (i : Nat) : BitVec 8 :=
  if i < 8 then x.lo.extractLsb' (8 * i) 8 else x.hi.extractLsb' (8 * (i - 8)) 8

def dword (x : M128) (i : Nat) : BitVec 32 :=
  if i < 2 then x.lo.extractLsb' (32 * i) 32 else x.hi.extractLsb' (32 * (i - 2)) 32

def ofBytes (b : Nat → BitVec 8) : M128 := ⟨cat b, cat fun i => b (i + 8)⟩

def map₂ (f : W → W → W) (x y : M128) : M128 := ⟨f x.lo y.lo, f x.hi y.hi⟩

end M128

def _mm_add_epi64 : M128 → M128 → M128 := M128.map₂ (· + ·)

def _mm_xor_si128 : M128 → M128 → M128 := M128.map₂ (· ^^^ ·)

def _mm_srli_epi64 (x : M128) (n : Nat) : M128 := ⟨x.lo >>> n, x.hi >>> n⟩

def _mm_slli_epi64 (x : M128) (n : Nat) : M128 := ⟨x.lo <<< n, x.hi <<< n⟩

/-- A byte of the mask with its highest bit set gives zero. -/
def _mm_shuffle_epi8 (x : M128) (mask : List Nat) : M128 := .ofBytes fun i =>
  if mask.getD i 0 ≥ 128 then 0 else x.byte (mask.getD i 0 % 16)

def _MM_SHUFFLE (z y x w : Nat) : Nat := (z <<< 6) ||| (y <<< 4) ||| (x <<< 2) ||| w

def _mm_shuffle_epi32 (x : M128) (imm : Nat) : M128 where
  lo := x.dword ((imm >>> 2) % 4) ++ x.dword (imm % 4)
  hi := x.dword ((imm >>> 6) % 4) ++ x.dword ((imm >>> 4) % 4)

/-- Sixteen bytes of both, from byte `n` of the second. -/
def _mm_alignr_epi8 (x y : M128) (n : Nat) : M128 := .ofBytes fun i =>
  if i + n < 16 then y.byte (i + n) else if i + n < 32 then x.byte (i + n - 16) else 0

def r16 : List Nat := [2, 3, 4, 5, 6, 7, 0, 1, 10, 11, 12, 13, 14, 15, 8, 9]

def r24 : List Nat := [3, 4, 5, 6, 7, 0, 1, 2, 11, 12, 13, 14, 15, 8, 9, 10]

/-- `c` is `-(c)` of the macro.
mirrors src/crypto/randomx/blake2/blake2b-round.h:29-34 -/
def _mm_roti_epi64 (x : M128) (c : Nat) : M128 :=
  if c = 32 then _mm_shuffle_epi32 x (_MM_SHUFFLE 2 3 0 1)
  else if c = 24 then _mm_shuffle_epi8 x r24
  else if c = 16 then _mm_shuffle_epi8 x r16
  else if c = 63 then _mm_xor_si128 (_mm_srli_epi64 x c) (_mm_add_epi64 x x)
  else _mm_xor_si128 (_mm_srli_epi64 x c) (_mm_slli_epi64 x (64 - c))

/-! ## The compression of SSE4.1 -/

/-- The registers of the rows. -/
structure Halves where
  row1l : M128
  row1h : M128
  row2l : M128
  row2h : M128
  row3l : M128
  row3h : M128
  row4l : M128
  row4h : M128

/-- `G1` and `G2` differ in the two numbers.
mirrors src/crypto/randomx/blake2/blake2b-round.h:38-74 -/
def Halves.mixHalf (r₁ r₂ : Nat) (b0 b1 : M128) (s : Halves) : Halves :=
  let row1l := _mm_add_epi64 (_mm_add_epi64 s.row1l b0) s.row2l
  let row1h := _mm_add_epi64 (_mm_add_epi64 s.row1h b1) s.row2h
  let row4l := _mm_roti_epi64 (_mm_xor_si128 s.row4l row1l) r₁
  let row4h := _mm_roti_epi64 (_mm_xor_si128 s.row4h row1h) r₁
  let row3l := _mm_add_epi64 s.row3l row4l
  let row3h := _mm_add_epi64 s.row3h row4h
  let row2l := _mm_roti_epi64 (_mm_xor_si128 s.row2l row3l) r₂
  let row2h := _mm_roti_epi64 (_mm_xor_si128 s.row2h row3h) r₂
  ⟨row1l, row1h, row2l, row2h, row3l, row3h, row4l, row4h⟩

def G1 : M128 → M128 → Halves → Halves := Halves.mixHalf 32 24

def G2 : M128 → M128 → Halves → Halves := Halves.mixHalf 16 63

/-- mirrors src/crypto/randomx/blake2/blake2b-round.h:76-89 -/
def DIAGONALIZE (s : Halves) : Halves :=
  { s with
    row2l := _mm_alignr_epi8 s.row2h s.row2l 8
    row2h := _mm_alignr_epi8 s.row2l s.row2h 8
    row3l := s.row3h
    row3h := s.row3l
    row4l := _mm_alignr_epi8 s.row4l s.row4h 8
    row4h := _mm_alignr_epi8 s.row4h s.row4l 8 }

/-- mirrors src/crypto/randomx/blake2/blake2b-round.h:91-104 -/
def UNDIAGONALIZE (s : Halves) : Halves :=
  { s with
    row2l := _mm_alignr_epi8 s.row2l s.row2h 8
    row2h := _mm_alignr_epi8 s.row2h s.row2l 8
    row3l := s.row3h
    row3h := s.row3l
    row4l := _mm_alignr_epi8 s.row4h s.row4l 8
    row4h := _mm_alignr_epi8 s.row4l s.row4h 8 }

/-- mirrors src/crypto/randomx/blake2/blake2b_sse41.c:56-69 -/
def blake2b_sigma_sse41 : Fin 12 → Fin 16 → Fin 16 :=
  ![![0, 2, 4, 6, 1, 3, 5, 7, 8, 10, 12, 14, 9, 11, 13, 15],
    ![14, 4, 9, 13, 10, 8, 15, 6, 1, 0, 11, 5, 12, 2, 7, 3],
    ![11, 12, 5, 15, 8, 0, 2, 13, 10, 3, 7, 9, 14, 6, 1, 4],
    ![7, 3, 13, 11, 9, 1, 12, 14, 2, 5, 4, 15, 6, 10, 0, 8],
    ![9, 5, 2, 10, 0, 7, 4, 15, 14, 11, 6, 3, 1, 12, 8, 13],
    ![2, 6, 0, 8, 12, 10, 11, 3, 4, 7, 15, 1, 13, 5, 14, 9],
    ![12, 1, 14, 4, 5, 15, 13, 10, 0, 6, 9, 8, 7, 3, 2, 11],
    ![13, 7, 12, 3, 11, 14, 1, 9, 5, 15, 8, 2, 0, 4, 6, 10],
    ![6, 14, 11, 0, 15, 9, 3, 8, 12, 13, 1, 10, 2, 7, 4, 5],
    ![10, 8, 7, 1, 2, 4, 6, 5, 15, 9, 3, 13, 11, 14, 12, 0],
    ![0, 2, 4, 6, 1, 3, 5, 7, 8, 10, 12, 14, 9, 11, 13, 15],
    ![14, 4, 9, 13, 10, 8, 15, 6, 1, 0, 11, 5, 12, 2, 7, 3]]

/-- `b0` and `b1`; `i` are the four words of a load. -/
def LOAD_MSG (m : Fin 16 → W) (σ : Fin 4 → Fin 16) : M128 × M128 :=
  (⟨m (σ 0), m (σ 1)⟩, ⟨m (σ 2), m (σ 3)⟩)

theorem four_lt (k j : Fin 4) : 4 * k.val + j.val < 16 := by omega

/-- mirrors src/crypto/randomx/blake2/blake2b-round.h:106-121 -/
def ROUND_sse41 (m : Fin 16 → W) (s : Halves) (r : Fin 12) : Halves :=
  let load := fun k : Fin 4 => LOAD_MSG m fun j => blake2b_sigma_sse41 r ⟨4 * k.val + j.val, four_lt k j⟩
  let s := G1 (load 0).1 (load 0).2 s
  let s := G2 (load 1).1 (load 1).2 s
  let s := DIAGONALIZE s
  let s := G1 (load 2).1 (load 2).2 s
  let s := G2 (load 3).1 (load 3).2 s
  UNDIAGONALIZE s

/-- mirrors src/crypto/randomx/blake2/blake2b_sse41.c:72-107 -/
def rx_blake2b_compress_sse41 (S : State) (block : Bytes) : State :=
  let s : Halves :=
    { row1l := ⟨S.h 0, S.h 1⟩
      row1h := ⟨S.h 2, S.h 3⟩
      row2l := ⟨S.h 4, S.h 5⟩
      row2h := ⟨S.h 6, S.h 7⟩
      row3l := ⟨blake2b_IV 0, blake2b_IV 1⟩
      row3h := ⟨blake2b_IV 2, blake2b_IV 3⟩
      row4l := _mm_xor_si128 ⟨blake2b_IV 4, blake2b_IV 5⟩ ⟨S.t0, S.t1⟩
      row4h := _mm_xor_si128 ⟨blake2b_IV 6, blake2b_IV 7⟩ ⟨S.f0, S.f1⟩ }
  let m : Fin 16 → W := fun i => load64 block (8 * i.val)
  let s := (List.finRange 12).foldl (ROUND_sse41 m) s
  let row1l := _mm_xor_si128 s.row3l s.row1l
  let row1h := _mm_xor_si128 s.row3h s.row1h
  let h01 := _mm_xor_si128 ⟨S.h 0, S.h 1⟩ row1l
  let h23 := _mm_xor_si128 ⟨S.h 2, S.h 3⟩ row1h
  let row2l := _mm_xor_si128 s.row4l s.row2l
  let row2h := _mm_xor_si128 s.row4h s.row2h
  let h45 := _mm_xor_si128 ⟨S.h 4, S.h 5⟩ row2l
  let h67 := _mm_xor_si128 ⟨S.h 6, S.h 7⟩ row2h
  { S with h := ![h01.lo, h01.hi, h23.lo, h23.hi, h45.lo, h45.hi, h67.lo, h67.hi] }

/-! ## Bytes that move -/

theorem getLsbD_append_ge {w : Nat} (x : BitVec w) (y : BitVec 8) (t k : Nat) :
    (x ++ y).getLsbD (t + 8 * (k + 1)) = x.getLsbD (t + 8 * k) := by
  rw [BitVec.getLsbD_append, if_neg (by omega), show t + 8 * (k + 1) - 8 = t + 8 * k by omega]

theorem getLsbD_append_lt {w : Nat} (x : BitVec w) (y : BitVec 8) {t : Nat} (ht : t < 8) :
    (x ++ y).getLsbD (t + 8 * 0) = y.getLsbD t := by
  rw [BitVec.getLsbD_append, if_pos (by omega), Nat.mul_zero, Nat.add_zero]

theorem getLsbD_cat (b : Nat → BitVec 8) {i : Nat} (hi : i < 64) :
    (cat b).getLsbD i = (b (i / 8)).getLsbD (i % 8) := by
  obtain ⟨t, q, ht, hq, rfl⟩ : ∃ t q, t < 8 ∧ q < 8 ∧ i = t + 8 * q :=
    ⟨i % 8, i / 8, by omega, by omega, by omega⟩
  rw [show (t + 8 * q) / 8 = q by omega, show (t + 8 * q) % 8 = t by omega]
  unfold cat
  interval_cases q
  all_goals
    repeat rw [getLsbD_append_ge]
    first | exact getLsbD_append_lt _ _ ht | rfl

/-- The bytes from the `k`-th on, and then the first. -/
theorem cat_rotate (x : W) {k : Nat} (hk : k < 8) :
    (cat fun i => x.extractLsb' (8 * ((i + k) % 8)) 8) = x.rotateRight (8 * k) := by
  apply BitVec.eq_of_getLsbD_eq
  intro i hi
  have hplace : 8 * ((i / 8 + k) % 8) + i % 8 = if i < 64 - 8 * k then 8 * k + i
      else i - (64 - 8 * k) := by
    split <;> omega
  rw [getLsbD_cat _ hi, BitVec.getLsbD_extractLsb', hplace, BitVec.getLsbD_rotateRight,
    Nat.mod_eq_of_lt (show 8 * k < 64 by omega), decide_eq_true (Nat.mod_lt i (by decide)),
    Bool.true_and]
  by_cases hlow : i < 64 - 8 * k
  · simp [hlow]
  · simp [hlow, hi]

theorem cat_congr {b c : Nat → BitVec 8} (h : ∀ i < 8, b i = c i) : cat b = cat c := by
  simp only [cat, h _ (show 0 < 8 by decide), h _ (show 1 < 8 by decide),
    h _ (show 2 < 8 by decide), h _ (show 3 < 8 by decide), h _ (show 4 < 8 by decide),
    h _ (show 5 < 8 by decide), h _ (show 6 < 8 by decide), h _ (show 7 < 8 by decide)]

theorem cat_bytes (x : W) : (cat fun i => x.extractLsb' (8 * i) 8) = x := by
  have h := cat_rotate x (show 0 < 8 by decide)
  rw [Nat.mul_zero, BitVec.rotateRight_def, Nat.zero_mod, BitVec.ushiftRight_zero, Nat.sub_zero,
    BitVec.shiftLeft_eq_zero (Nat.le_refl 64), BitVec.or_zero] at h
  rw [← h]
  apply cat_congr
  intro i hi
  rw [Nat.add_zero, Nat.mod_eq_of_lt hi, h]

/-- Bytes that go round within each word. -/
theorem rotated (x : M128) {mask : List Nat} {k : Nat} (hk : k < 8)
    (hlo : ∀ i < 8, mask.getD i 0 = (i + k) % 8)
    (hhi : ∀ i < 8, mask.getD (i + 8) 0 = 8 + (i + k) % 8) :
    _mm_shuffle_epi8 x mask = ⟨x.lo.rotateRight (8 * k), x.hi.rotateRight (8 * k)⟩ := by
  rw [← cat_rotate _ hk, ← cat_rotate _ hk]
  refine congrArg₂ M128.mk (cat_congr fun i hi => ?_) (cat_congr fun i hi => ?_)
  · have hlt : (i + k) % 8 < 8 := Nat.mod_lt _ (by decide)
    simp only [hlo i hi]
    rw [if_neg (by omega), Nat.mod_eq_of_lt (show (i + k) % 8 < 16 by omega), M128.byte,
      if_pos hlt]
  · have hlt : (i + k) % 8 < 8 := Nat.mod_lt _ (by decide)
    simp only [hhi i hi]
    rw [if_neg (by omega), Nat.mod_eq_of_lt (show 8 + (i + k) % 8 < 16 by omega), M128.byte,
      if_neg (by omega), Nat.add_sub_cancel_left]

theorem shuffle_r16 (x : M128) :
    _mm_shuffle_epi8 x r16 = ⟨x.lo.rotateRight 16, x.hi.rotateRight 16⟩ :=
  rotated x (show 2 < 8 by decide) (by decide) (by decide)

theorem shuffle_r24 (x : M128) :
    _mm_shuffle_epi8 x r24 = ⟨x.lo.rotateRight 24, x.hi.rotateRight 24⟩ :=
  rotated x (show 3 < 8 by decide) (by decide) (by decide)

theorem halves_rotate (x : W) :
    x.extractLsb' 0 32 ++ x.extractLsb' 32 32 = x.rotateRight 32 := by
  apply BitVec.eq_of_getLsbD_eq
  intro i hi
  rw [BitVec.getLsbD_append, BitVec.getLsbD_rotateRight, BitVec.getLsbD_extractLsb',
    BitVec.getLsbD_extractLsb']
  by_cases h : i < 32
  · simp [h]
  · simp [h, hi, show i - 32 < 32 by omega]

theorem shuffle_dwords (x : M128) :
    _mm_shuffle_epi32 x (_MM_SHUFFLE 2 3 0 1) = ⟨x.lo.rotateRight 32, x.hi.rotateRight 32⟩ := by
  rw [← halves_rotate, ← halves_rotate]
  rfl

theorem twice (x : W) : x + x = x <<< 1 := by
  apply BitVec.eq_of_toNat_eq
  rw [BitVec.toNat_add, BitVec.toNat_shiftLeft, Nat.shiftLeft_eq, Nat.pow_one, Nat.mul_two]

/-- Twice the word, and its highest bit. -/
theorem twice_xor (x : W) : (x >>> 63) ^^^ (x + x) = x.rotateRight 63 := by
  apply BitVec.eq_of_getLsbD_eq
  intro i hi
  rw [twice, BitVec.getLsbD_xor, BitVec.getLsbD_ushiftRight, BitVec.getLsbD_shiftLeft,
    BitVec.getLsbD_rotateRight]
  by_cases h : i = 0
  · simp [h]
  · simp [h, hi, BitVec.getLsbD_of_ge x (63 + i) (by omega)]

/-- The words of both halves of a row, rotated. -/
theorem roti_eq (x : M128) {c : Nat} (hc : c = 32 ∨ c = 24 ∨ c = 16 ∨ c = 63) :
    _mm_roti_epi64 x c = ⟨x.lo.rotateRight c, x.hi.rotateRight c⟩ := by
  rcases hc with rfl | rfl | rfl | rfl
  · exact shuffle_dwords x
  · exact shuffle_r24 x
  · exact shuffle_r16 x
  · exact congrArg₂ M128.mk (twice_xor x.lo) (twice_xor x.hi)

theorem alignr_8 (x y : M128) : _mm_alignr_epi8 x y 8 = ⟨y.hi, x.lo⟩ := by
  conv_rhs => rw [← cat_bytes y.hi, ← cat_bytes x.lo]
  refine congrArg₂ M128.mk (cat_congr fun i hi => ?_) (cat_congr fun i hi => ?_)
  · rw [if_pos (by omega), M128.byte, if_neg (by omega), Nat.add_sub_cancel]
  · simp only
    rw [if_neg (by omega), if_pos (by omega), M128.byte, if_pos (by omega),
      show i + 8 + 8 - 16 = i by omega]

/-! ## Rows of two registers -/

def joined (l h : M128) : Row := ![l.lo, l.hi, h.lo, h.hi]

def Halves.rows (s : Halves) : Rows :=
  ⟨joined s.row1l s.row1h, joined s.row2l s.row2h, joined s.row3l s.row3h,
    joined s.row4l s.row4h⟩

theorem joined_map₂ (f : W → W → W) (x x' y y' : M128) :
    joined (.map₂ f x y) (.map₂ f x' y') = fun i => f (joined x x' i) (joined y y' i) := by
  funext i
  cases i using four_cases <;> rfl

theorem joined_roti (x x' : M128) {c : Nat} (hc : c = 32 ∨ c = 24 ∨ c = 16 ∨ c = 63) :
    joined (_mm_roti_epi64 x c) (_mm_roti_epi64 x' c) = fun i => (joined x x' i).rotateRight c := by
  rw [roti_eq x hc, roti_eq x' hc]
  funext i
  cases i using four_cases <;> rfl

theorem Halves.rows_mixHalf {r₁ r₂ : Nat} (h₁ : r₁ = 32 ∨ r₁ = 24 ∨ r₁ = 16 ∨ r₁ = 63)
    (h₂ : r₂ = 32 ∨ r₂ = 24 ∨ r₂ = 16 ∨ r₂ = 63) (b0 b1 : M128) (s : Halves) :
    (s.mixHalf r₁ r₂ b0 b1).rows = s.rows.half r₁ r₂ (joined b0 b1) := by
  have hadd (x y z : W) : x + y + z = x + z + y := by
    rw [BitVec.add_assoc, BitVec.add_comm y, BitVec.add_assoc]
  simp only [Halves.mixHalf, Halves.rows, Rows.half, _mm_add_epi64, _mm_xor_si128, joined_map₂,
    joined_roti _ _ h₁, joined_roti _ _ h₂, hadd _ (joined b0 b1 _)]

theorem Halves.rows_mix (b0 b1 b0' b1' : M128) (s : Halves) :
    (G2 b0' b1' (G1 b0 b1 s)).rows = s.rows.mix (joined b0 b1) (joined b0' b1') := by
  rw [G2, G1, rows_mixHalf (by decide) (by decide), rows_mixHalf (by decide) (by decide)]
  rfl

theorem Halves.rows_diagonalize (s : Halves) : (DIAGONALIZE s).rows = s.rows.diagonalize := by
  simp only [DIAGONALIZE, alignr_8, Halves.rows, Rows.diagonalize]
  congr 1 <;> funext i <;> cases i using four_cases <;> rfl

theorem Halves.rows_undiagonalize (s : Halves) :
    (UNDIAGONALIZE s).rows = s.rows.undiagonalize := by
  simp only [UNDIAGONALIZE, alignr_8, Halves.rows, Rows.undiagonalize]
  congr 1 <;> funext i <;> cases i using four_cases <;> rfl

/-- The words of a load in the order of the table. -/
theorem sigma_sse41_eq : ∀ (r : Fin 12) (k j : Fin 4),
    blake2b_sigma_sse41 r ⟨4 * k.val + j.val, four_lt k j⟩ =
      SIGMA r.val ⟨8 * (k.val / 2) + 2 * j.val + k.val % 2, place_lt k j⟩ := by
  decide

theorem load_eq (m : Fin 16 → W) (r : Fin 12) (k : Fin 4) :
    let b := LOAD_MSG m fun j => blake2b_sigma_sse41 r ⟨4 * k.val + j.val, four_lt k j⟩
    joined b.1 b.2 = message m r.val k := by
  funext j
  simp only [LOAD_MSG, sigma_sse41_eq]
  cases j using four_cases <;> rfl

theorem ROUND_sse41_eq (m : Fin 16 → W) (s : Halves) (r : Fin 12) :
    (ROUND_sse41 m s r).rows = round m s.rows r.val := by
  simp only [ROUND_sse41, Halves.rows_undiagonalize, Halves.rows_mix, Halves.rows_diagonalize,
    load_eq]
  rfl

theorem rounds_sse41_eq (m : Fin 16 → W) (s : Halves) (rs : List (Fin 12)) :
    (rs.foldl (ROUND_sse41 m) s).rows = (rs.map Fin.val).foldl (round m) s.rows := by
  induction rs generalizing s with
  | nil => rfl
  | cons r rs ih => rw [List.foldl_cons, ih, ROUND_sse41_eq, List.map_cons, List.foldl_cons]

theorem xor_swap (h a c : W) : h ^^^ (c ^^^ a) = h ^^^ a ^^^ c := by
  rw [BitVec.xor_comm c, BitVec.xor_assoc]

/-- What the registers hold before the rounds. -/
theorem rows_start (h : Fin 8 → W) (t0 t1 f0 f1 : W) :
    Halves.rows
      { row1l := ⟨h 0, h 1⟩
        row1h := ⟨h 2, h 3⟩
        row2l := ⟨h 4, h 5⟩
        row2h := ⟨h 6, h 7⟩
        row3l := ⟨blake2b_IV 0, blake2b_IV 1⟩
        row3h := ⟨blake2b_IV 2, blake2b_IV 3⟩
        row4l := _mm_xor_si128 ⟨blake2b_IV 4, blake2b_IV 5⟩ ⟨t0, t1⟩
        row4h := _mm_xor_si128 ⟨blake2b_IV 6, blake2b_IV 7⟩ ⟨f0, f1⟩ } =
      ⟨low h, high h, low IV, fun i => high IV i ^^^ ![t0, t1, f0, f1] i⟩ := by
  simp only [Halves.rows]
  congr 1
  funext i
  cases i using four_cases <;> rfl

/-- **The registers' compression** is the compression. -/
theorem compress_sse41_eq : Compresses rx_blake2b_compress_sse41 := by
  intro S block
  have hrange : (List.finRange 12).map Fin.val = List.range 12 := by decide
  have hwords : (fun i : Fin 16 => load64 block (8 * i.val)) = words block := rfl
  have hh : (rx_blake2b_compress_sse41 S block).h =
      F S.h (words block) ![S.t0, S.t1, S.f0, S.f1] := by
    unfold rx_blake2b_compress_sse41 F
    simp only [hwords]
    rw [← rows_start, ← hrange, ← rounds_sse41_eq]
    generalize (List.finRange 12).foldl (ROUND_sse41 (words block)) _ = s
    funext i
    cases i using eight_cases <;> exact xor_swap _ _ _
  rw [← hh]
  rfl

end Rxs.L1.Blake2b
