import Rxs.L1Encoding.Blake2bSimd

/-!
# The whole BLAKE2b with AVX2

`blake2b_avx2` has a row in one register of four words, and no state: it goes over the blocks of
an input it has at once. Its diagonals keep the second row still and move the other three, so
each stands one lane further than in the specification, and so do the words that it loads for
them. The loads unpack, align and blend registers that have two words of the message twice.

* `LOAD_MSG_eq`: the words that the loads select.
* `rows_DIAG`: the lanes are the specification's, turned by one.
* `COMPRESS_V1_eq`: it is the compression.
* **`avx2_digest`**: the digest of any input.
-/
namespace Rxs.L1.Blake2b

open Rxs.Core Rxs.Core.Bytes
open Rxs.Core.Blake2b (W Row Rows IV SIGMA F BLOCKBYTES place_lt words padded offset start chain
  full digest blake2b low high message round length_digest)

/-! ## Registers of 256 bits -/

/-- `__m256i`, as its two halves. -/
structure M256 where
  lo : M128
  hi : M128

def M256.row (x : M256) : Row := joined x.lo x.hi

def _mm256_add_epi64 (x y : M256) : M256 := ⟨_mm_add_epi64 x.lo y.lo, _mm_add_epi64 x.hi y.hi⟩

def _mm256_xor_si256 (x y : M256) : M256 := ⟨_mm_xor_si128 x.lo y.lo, _mm_xor_si128 x.hi y.hi⟩

def _mm256_or_si256 (x y : M256) : M256 :=
  ⟨.map₂ (· ||| ·) x.lo y.lo, .map₂ (· ||| ·) x.hi y.hi⟩

def _mm256_srli_epi64 (x : M256) (n : Nat) : M256 :=
  ⟨_mm_srli_epi64 x.lo n, _mm_srli_epi64 x.hi n⟩

def _mm256_shuffle_epi8 (x : M256) (mask : List Nat) : M256 :=
  ⟨_mm_shuffle_epi8 x.lo (mask.take 16), _mm_shuffle_epi8 x.hi (mask.drop 16)⟩

def _mm256_shuffle_epi32 (x : M256) (imm : Nat) : M256 :=
  ⟨_mm_shuffle_epi32 x.lo imm, _mm_shuffle_epi32 x.hi imm⟩

def _mm256_alignr_epi8 (x y : M256) (n : Nat) : M256 :=
  ⟨_mm_alignr_epi8 x.lo y.lo n, _mm_alignr_epi8 x.hi y.hi n⟩

def _mm256_unpacklo_epi64 (x y : M256) : M256 := ⟨⟨x.lo.lo, y.lo.lo⟩, ⟨x.hi.lo, y.hi.lo⟩⟩

def _mm256_unpackhi_epi64 (x y : M256) : M256 := ⟨⟨x.lo.hi, y.lo.hi⟩, ⟨x.hi.hi, y.hi.hi⟩⟩

def M128.blend (x y : M128) (imm : Nat) : M128 :=
  let dword := fun i => if imm.testBit i then y.dword i else x.dword i
  ⟨dword 1 ++ dword 0, dword 3 ++ dword 2⟩

/-- The second's where the bit of a doubleword is set. -/
def _mm256_blend_epi32 (x y : M256) (imm : Nat) : M256 :=
  ⟨x.lo.blend y.lo (imm % 16), x.hi.blend y.hi (imm / 16)⟩

def M256.word (x : M256) (i : Nat) : W :=
  match i with
  | 0 => x.lo.lo
  | 1 => x.lo.hi
  | 2 => x.hi.lo
  | _ => x.hi.hi

def _mm256_permute4x64_epi64 (x : M256) (imm : Nat) : M256 :=
  ⟨⟨x.word (imm % 4), x.word ((imm >>> 2) % 4)⟩,
    ⟨x.word ((imm >>> 4) % 4), x.word ((imm >>> 6) % 4)⟩⟩

def _mm256_broadcastsi128_si256 (x : M128) : M256 := ⟨x, x⟩

def _mm256_set_epi64x (e3 e2 e1 e0 : W) : M256 := ⟨⟨e0, e1⟩, ⟨e2, e3⟩⟩

def ROTATE16 : List Nat :=
  [2, 3, 4, 5, 6, 7, 0, 1, 10, 11, 12, 13, 14, 15, 8, 9,
    2, 3, 4, 5, 6, 7, 0, 1, 10, 11, 12, 13, 14, 15, 8, 9]

def ROTATE24 : List Nat :=
  [3, 4, 5, 6, 7, 0, 1, 2, 11, 12, 13, 14, 15, 8, 9, 10,
    3, 4, 5, 6, 7, 0, 1, 2, 11, 12, 13, 14, 15, 8, 9, 10]

/-! mirrors src/crypto/randomx/blake2/avx2/blake2b-common.h:43-46 -/

def ROT32 (x : M256) : M256 := _mm256_shuffle_epi32 x (_MM_SHUFFLE 2 3 0 1)

def ROT24 (x : M256) : M256 := _mm256_shuffle_epi8 x ROTATE24

def ROT16 (x : M256) : M256 := _mm256_shuffle_epi8 x ROTATE16

def ROT63 (x : M256) : M256 := _mm256_or_si256 (_mm256_srli_epi64 x 63) (_mm256_add_epi64 x x)

/-! ## The compression -/

structure Registers where
  a : M256
  b : M256
  c : M256
  d : M256

/-- `BLAKE2B_G1_V1` and `BLAKE2B_G2_V1` differ in the two rotations. -/
def Registers.mixHalf (rot₁ rot₂ : M256 → M256) (m : M256) (s : Registers) : Registers :=
  let a := _mm256_add_epi64 s.a m
  let a := _mm256_add_epi64 a s.b
  let d := rot₁ (_mm256_xor_si256 s.d a)
  let c := _mm256_add_epi64 s.c d
  let b := rot₂ (_mm256_xor_si256 s.b c)
  ⟨a, b, c, d⟩

/-- mirrors src/crypto/randomx/blake2/avx2/blake2b_avx2.c:17-21 -/
def BLAKE2B_G1_V1 : M256 → Registers → Registers := Registers.mixHalf ROT32 ROT24

/-- mirrors src/crypto/randomx/blake2/avx2/blake2b_avx2.c:23-27 -/
def BLAKE2B_G2_V1 : M256 → Registers → Registers := Registers.mixHalf ROT16 ROT63

/-- mirrors src/crypto/randomx/blake2/avx2/blake2b_avx2.c:29-33 -/
def BLAKE2B_DIAG_V1 (s : Registers) : Registers :=
  { s with
    a := _mm256_permute4x64_epi64 s.a (_MM_SHUFFLE 2 1 0 3)
    d := _mm256_permute4x64_epi64 s.d (_MM_SHUFFLE 1 0 3 2)
    c := _mm256_permute4x64_epi64 s.c (_MM_SHUFFLE 0 3 2 1) }

/-- mirrors src/crypto/randomx/blake2/avx2/blake2b_avx2.c:35-39 -/
def BLAKE2B_UNDIAG_V1 (s : Registers) : Registers :=
  { s with
    a := _mm256_permute4x64_epi64 s.a (_MM_SHUFFLE 0 3 2 1)
    d := _mm256_permute4x64_epi64 s.d (_MM_SHUFFLE 1 0 3 2)
    c := _mm256_permute4x64_epi64 s.c (_MM_SHUFFLE 2 1 0 3) }

/-- What a half of a load is taken from; `i` stands for the register `mi`. -/
inductive Load where
  | unpacklo (i j : Fin 8)
  | unpackhi (i j : Fin 8)
  | alignr (i j : Fin 8)
  | blend (i j : Fin 8)
  | swap (i : Fin 8)

def Load.eval (m : Fin 8 → M256) : Load → M256
  | .unpacklo i j => _mm256_unpacklo_epi64 (m i) (m j)
  | .unpackhi i j => _mm256_unpackhi_epi64 (m i) (m j)
  | .alignr i j => _mm256_alignr_epi8 (m i) (m j) 8
  | .blend i j => _mm256_blend_epi32 (m i) (m j) 0x33
  | .swap i => _mm256_shuffle_epi32 (m i) (_MM_SHUFFLE 1 0 3 2)

/-- `t0` and `t1` of each round's four loads.
mirrors src/crypto/randomx/blake2/avx2/blake2b-load-avx2.h:4-338 -/
def loads : Fin 12 → Fin 4 → Load × Load :=
  ![![(.unpacklo 0 1, .unpacklo 2 3), (.unpackhi 0 1, .unpackhi 2 3),
      (.unpacklo 7 4, .unpacklo 5 6), (.unpackhi 7 4, .unpackhi 5 6)],
    ![(.unpacklo 7 2, .unpackhi 4 6), (.unpacklo 5 4, .alignr 3 7),
      (.unpackhi 2 0, .blend 5 0), (.alignr 6 1, .blend 3 1)],
    ![(.alignr 6 5, .unpackhi 2 7), (.unpacklo 4 0, .blend 6 1),
      (.alignr 5 4, .unpackhi 1 3), (.unpacklo 2 7, .blend 0 3)],
    ![(.unpackhi 3 1, .unpackhi 6 5), (.unpackhi 4 0, .unpacklo 6 7),
      (.alignr 1 7, .swap 2), (.unpacklo 4 3, .unpacklo 5 0)],
    ![(.unpackhi 4 2, .unpacklo 1 5), (.blend 3 0, .blend 7 2),
      (.alignr 7 1, .alignr 3 5), (.unpackhi 6 0, .unpacklo 6 4)],
    ![(.unpacklo 1 3, .unpacklo 0 4), (.unpacklo 6 5, .unpackhi 5 1),
      (.alignr 2 0, .unpackhi 3 7), (.unpackhi 4 6, .alignr 7 2)],
    ![(.blend 0 6, .unpacklo 7 2), (.unpackhi 2 7, .alignr 5 6),
      (.unpacklo 4 0, .blend 4 3), (.unpackhi 5 3, .swap 1)],
    ![(.unpackhi 6 3, .blend 1 6), (.alignr 7 5, .unpackhi 0 4),
      (.blend 2 1, .alignr 4 7), (.unpacklo 5 0, .unpacklo 2 3)],
    ![(.unpacklo 3 7, .alignr 0 5), (.unpackhi 7 4, .alignr 4 1),
      (.unpacklo 5 6, .unpackhi 6 0), (.alignr 1 2, .alignr 2 3)],
    ![(.unpacklo 5 4, .unpackhi 3 0), (.unpacklo 1 2, .blend 2 3),
      (.unpackhi 6 7, .unpackhi 4 1), (.blend 5 0, .unpacklo 7 6)],
    ![(.unpacklo 0 1, .unpacklo 2 3), (.unpackhi 0 1, .unpackhi 2 3),
      (.unpacklo 7 4, .unpacklo 5 6), (.unpackhi 7 4, .unpackhi 5 6)],
    ![(.unpacklo 7 2, .unpackhi 4 6), (.unpacklo 5 4, .alignr 3 7),
      (.unpackhi 2 0, .blend 5 0), (.alignr 6 1, .blend 3 1)]]

/-- `b0`. -/
def BLAKE2B_LOAD_MSG (m : Fin 8 → M256) (r : Fin 12) (k : Fin 4) : M256 :=
  _mm256_blend_epi32 ((loads r k).1.eval m) ((loads r k).2.eval m) 0xF0

/-- mirrors src/crypto/randomx/blake2/avx2/blake2b_avx2.c:43-55 -/
def BLAKE2B_ROUND_V1 (m : Fin 8 → M256) (s : Registers) (r : Fin 12) : Registers :=
  let s := BLAKE2B_G1_V1 (BLAKE2B_LOAD_MSG m r 0) s
  let s := BLAKE2B_G2_V1 (BLAKE2B_LOAD_MSG m r 1) s
  let s := BLAKE2B_DIAG_V1 s
  let s := BLAKE2B_G1_V1 (BLAKE2B_LOAD_MSG m r 2) s
  let s := BLAKE2B_G2_V1 (BLAKE2B_LOAD_MSG m r 3) s
  BLAKE2B_UNDIAG_V1 s

/-- mirrors src/crypto/randomx/blake2/avx2/blake2b_avx2.c:72-81 -/
def DECLARE_MESSAGE_WORDS (m : Bytes) (i : Fin 8) : M256 :=
  _mm256_broadcastsi128_si256 ⟨load64 m (16 * i.val), load64 m (16 * i.val + 8)⟩

/-- `LOAD`, of words. -/
def LOAD (h : Fin 4 → W) : M256 := ⟨⟨h 0, h 1⟩, ⟨h 2, h 3⟩⟩

/-- `a` and `b` after it.
mirrors src/crypto/randomx/blake2/avx2/blake2b_avx2.c:83-97 -/
def BLAKE2B_COMPRESS_V1 (a b : M256) (m : Bytes) (t0 t1 f0 f1 : W) : M256 × M256 :=
  let c := LOAD ![blake2b_IV 0, blake2b_IV 1, blake2b_IV 2, blake2b_IV 3]
  let d := _mm256_xor_si256
    (LOAD ![blake2b_IV 4, blake2b_IV 5, blake2b_IV 6, blake2b_IV 7])
    (_mm256_set_epi64x f1 f0 t1 t0)
  let s := (List.finRange 12).foldl (BLAKE2B_ROUND_V1 (DECLARE_MESSAGE_WORDS m)) ⟨a, b, c, d⟩
  (_mm256_xor_si256 (_mm256_xor_si256 s.a s.c) a, _mm256_xor_si256 (_mm256_xor_si256 s.b s.d) b)

/-! ## The hash -/

/-- The loop; `in` is what is left of the input.
mirrors src/crypto/randomx/blake2/avx2/blake2b_avx2.c:106-119 -/
def blocks_avx2 (a b : M256) (counter : W) (pin : Bytes) : M256 × M256 :=
  let flag : W := if pin.length ≤ BLAKE2B_BLOCKBYTES then BitVec.allOnes 64 else 0
  let buffer := if pin.length < BLAKE2B_BLOCKBYTES
    then pin ++ List.replicate (BLAKE2B_BLOCKBYTES - pin.length) 0
    else pin.take BLAKE2B_BLOCKBYTES
  let block_size := if pin.length < BLAKE2B_BLOCKBYTES then pin.length else BLAKE2B_BLOCKBYTES
  let counter := counter + BitVec.ofNat 64 block_size
  let p := BLAKE2B_COMPRESS_V1 a b buffer counter 0 flag 0
  if pin.length - block_size > 0 then blocks_avx2 p.1 p.2 counter (pin.drop block_size) else p
termination_by pin.length
decreasing_by
  rename_i h
  rw [List.length_drop]
  have hpos : 0 < block_size := by
    unfold block_size BLAKE2B_BLOCKBYTES at *
    split at h <;> split <;> omega
  omega

def STOREU (x : M256) : Bytes := (List.finRange 4).flatMap fun i => le 8 (x.row i).toNat

/-- The bytes at `out`; `outlen` is at most 64, which is what the buffer of the last case has.
mirrors src/crypto/randomx/blake2/avx2/blake2b_avx2.c:99-141 -/
def blake2b_avx2 (outlen : Nat) (pin : Bytes) : Bytes :=
  let parameter_block := _mm256_set_epi64x 0 0 0 (0x01010000 ||| BitVec.ofNat 64 (outlen % 2 ^ 32))
  let a := _mm256_xor_si256 (LOAD ![blake2b_IV 0, blake2b_IV 1, blake2b_IV 2, blake2b_IV 3])
    parameter_block
  let b := LOAD ![blake2b_IV 4, blake2b_IV 5, blake2b_IV 6, blake2b_IV 7]
  let p := blocks_avx2 a b 0 pin
  match outlen with
  | 64 => STOREU p.1 ++ STOREU p.2
  | 32 => STOREU p.1
  | _ => (STOREU p.1 ++ STOREU p.2).take outlen

/-! ## The words that the loads select -/

theorem dwords_cat (x : W) : x.extractLsb' 32 32 ++ x.extractLsb' 0 32 = x :=
  BitVec.extractLsb'_append_extractLsb'

theorem blend_none (x y : M128) : x.blend y 0 = x :=
  congrArg₂ M128.mk (dwords_cat x.lo) (dwords_cat x.hi)

theorem blend_low (x y : M128) : x.blend y 3 = ⟨y.lo, x.hi⟩ :=
  congrArg₂ M128.mk (dwords_cat y.lo) (dwords_cat x.hi)

theorem blend_all (x y : M128) : x.blend y 15 = y :=
  congrArg₂ M128.mk (dwords_cat y.lo) (dwords_cat y.hi)

theorem even_lt (i : Fin 8) : 2 * i.val < 16 := by omega

theorem odd_lt (i : Fin 8) : 2 * i.val + 1 < 16 := by omega

def even (i : Fin 8) : Fin 16 := ⟨2 * i.val, even_lt i⟩

def odd (i : Fin 8) : Fin 16 := ⟨2 * i.val + 1, odd_lt i⟩

/-- The two words, in each half of the register. -/
def Load.words : Load → Fin 16 × Fin 16
  | .unpacklo i j => (even i, even j)
  | .unpackhi i j => (odd i, odd j)
  | .alignr i j => (odd j, even i)
  | .blend i j => (even j, odd i)
  | .swap i => (odd i, even i)

theorem message_words (b : Bytes) (i : Fin 8) :
    DECLARE_MESSAGE_WORDS b i =
      ⟨⟨words b (even i), words b (odd i)⟩, ⟨words b (even i), words b (odd i)⟩⟩ := by
  have heven : 8 * (2 * i.val) = 16 * i.val := by omega
  have hodd : 8 * (2 * i.val + 1) = 16 * i.val + 8 := by omega
  simp only [words, even, odd, heven, hodd]
  rfl

theorem Load.eval_eq (b : Bytes) (l : Load) :
    l.eval (DECLARE_MESSAGE_WORDS b) =
      ⟨⟨Core.Blake2b.words b l.words.1, Core.Blake2b.words b l.words.2⟩,
        ⟨Core.Blake2b.words b l.words.1, Core.Blake2b.words b l.words.2⟩⟩ := by
  cases l with
  | unpacklo i j => simp only [eval, message_words]; rfl
  | unpackhi i j => simp only [eval, message_words]; rfl
  | alignr i j => simp only [eval, message_words, _mm256_alignr_epi8, alignr_8]; rfl
  | blend i j =>
    simp only [eval, message_words, _mm256_blend_epi32]
    exact congrArg₂ M256.mk (blend_low _ _) (blend_low _ _)
  | swap i =>
    simp only [eval, message_words]
    refine congrArg₂ M256.mk ?_ ?_ <;> exact congrArg₂ M128.mk (dwords_cat _) (dwords_cat _)

/-- The lanes of a load. -/
def selected (r : Fin 12) (k : Fin 4) : Fin 4 → Fin 16 :=
  ![(loads r k).1.words.1, (loads r k).1.words.2, (loads r k).2.words.1, (loads r k).2.words.2]

theorem row_LOAD_MSG (b : Bytes) (r : Fin 12) (k : Fin 4) :
    (BLAKE2B_LOAD_MSG (DECLARE_MESSAGE_WORDS b) r k).row = fun j => words b (selected r k j) := by
  rw [BLAKE2B_LOAD_MSG, Load.eval_eq, Load.eval_eq, _mm256_blend_epi32]
  funext j
  refine Eq.trans (congrFun (congrArg₂ joined (blend_none _ _) (blend_all _ _)) j) ?_
  cases j using four_cases <;> rfl

theorem selected_columns : ∀ (r : Fin 12) (k j : Fin 4), k < 2 →
    selected r k j = SIGMA r.val ⟨8 * (k.val / 2) + 2 * j.val + k.val % 2, place_lt k j⟩ := by
  decide

/-- One lane further. -/
theorem selected_diagonals : ∀ (r : Fin 12) (k j : Fin 4), 2 ≤ k →
    selected r k j =
      SIGMA r.val ⟨8 * (k.val / 2) + 2 * (j + 3).val + k.val % 2, place_lt k (j + 3)⟩ := by
  decide

/-! ## The rows -/

/-- A macro that rotates every word. -/
def Rotates (rot : M256 → M256) (r : Nat) : Prop :=
  ∀ x, (rot x).row = fun i => (x.row i).rotateRight r

theorem rotates_of_halves {rot : M256 → M256} {r : Nat} (h : ∀ x, rot x =
    ⟨⟨x.lo.lo.rotateRight r, x.lo.hi.rotateRight r⟩, ⟨x.hi.lo.rotateRight r, x.hi.hi.rotateRight r⟩⟩) :
    Rotates rot r := by
  intro x
  rw [h]
  funext i
  cases i using four_cases <;> rfl

theorem rotates_32 : Rotates ROT32 32 :=
  rotates_of_halves fun x => congrArg₂ M256.mk (shuffle_dwords x.lo) (shuffle_dwords x.hi)

theorem rotates_24 : Rotates ROT24 24 :=
  rotates_of_halves fun x => congrArg₂ M256.mk (shuffle_r24 x.lo) (shuffle_r24 x.hi)

theorem rotates_16 : Rotates ROT16 16 :=
  rotates_of_halves fun x => congrArg₂ M256.mk (shuffle_r16 x.lo) (shuffle_r16 x.hi)

theorem twice_or (x : W) : (x >>> 63) ||| (x + x) = x.rotateRight 63 := by
  rw [twice, BitVec.rotateRight_def]

theorem rotates_63 : Rotates ROT63 63 := by
  intro x
  funext i
  cases i using four_cases <;> exact twice_or _

def Registers.rows (s : Registers) : Rows := ⟨s.a.row, s.b.row, s.c.row, s.d.row⟩

theorem row_add (x y : M256) : (_mm256_add_epi64 x y).row = fun i => x.row i + y.row i :=
  joined_map₂ ..

theorem row_xor (x y : M256) : (_mm256_xor_si256 x y).row = fun i => x.row i ^^^ y.row i :=
  joined_map₂ ..

theorem Registers.rows_mixHalf {rot₁ rot₂ : M256 → M256} {r₁ r₂ : Nat} (h₁ : Rotates rot₁ r₁)
    (h₂ : Rotates rot₂ r₂) (m : M256) (s : Registers) :
    (s.mixHalf rot₁ rot₂ m).rows = s.rows.half r₁ r₂ m.row := by
  have hadd (x y z : W) : x + y + z = x + z + y := by
    rw [BitVec.add_assoc, BitVec.add_comm y, BitVec.add_assoc]
  simp only [mixHalf, rows, Rows.half, row_add, row_xor, h₁ _, h₂ _, hadd _ (m.row _)]

theorem Registers.rows_mix (m m' : M256) (s : Registers) :
    (BLAKE2B_G2_V1 m' (BLAKE2B_G1_V1 m s)).rows = s.rows.mix m.row m'.row := by
  rw [BLAKE2B_G2_V1, BLAKE2B_G1_V1, rows_mixHalf rotates_16 rotates_63,
    rows_mixHalf rotates_32 rotates_24]
  rfl

/-- Every row, one lane further. -/
def turn (s : Rows) : Rows :=
  ⟨fun j => s.a (j + 3), fun j => s.b (j + 3), fun j => s.c (j + 3), fun j => s.d (j + 3)⟩

theorem mix_turn (s : Rows) (x y : Row) :
    (turn s).mix (fun j => x (j + 3)) (fun j => y (j + 3)) = turn (s.mix x y) := rfl

theorem Registers.rows_DIAG (s : Registers) :
    (BLAKE2B_DIAG_V1 s).rows = turn s.rows.diagonalize := by
  unfold rows turn Rows.diagonalize
  congr 1 <;> funext i <;> cases i using four_cases <;> rfl

theorem Registers.rows_UNDIAG (s : Registers) {t : Rows} (h : s.rows = turn t) :
    (BLAKE2B_UNDIAG_V1 s).rows = t.undiagonalize := by
  have ha (i : Fin 4) : s.a.row i = t.a (i + 3) := congrFun (congrArg Rows.a h) i
  have hb (i : Fin 4) : s.b.row i = t.b (i + 3) := congrFun (congrArg Rows.b h) i
  have hc (i : Fin 4) : s.c.row i = t.c (i + 3) := congrFun (congrArg Rows.c h) i
  have hd (i : Fin 4) : s.d.row i = t.d (i + 3) := congrFun (congrArg Rows.d h) i
  unfold rows Rows.undiagonalize
  congr 1 <;> funext i <;> cases i using four_cases
  -- the lanes of the first row, of the second, of the third and of the fourth
  · exact ha 1
  · exact ha 2
  · exact ha 3
  · exact ha 0
  · exact hb 0
  · exact hb 1
  · exact hb 2
  · exact hb 3
  · exact hc 3
  · exact hc 0
  · exact hc 1
  · exact hc 2
  · exact hd 2
  · exact hd 3
  · exact hd 0
  · exact hd 1

theorem ROUND_V1_eq (b : Bytes) (s : Registers) (r : Fin 12) :
    (BLAKE2B_ROUND_V1 (DECLARE_MESSAGE_WORDS b) s r).rows = round (words b) s.rows r.val := by
  have hcol (k : Fin 4) (hk : k < 2) : (BLAKE2B_LOAD_MSG (DECLARE_MESSAGE_WORDS b) r k).row =
      message (words b) r.val k := by
    rw [row_LOAD_MSG]
    funext j
    rw [selected_columns r k j hk]
    rfl
  have hdiag (k : Fin 4) (hk : 2 ≤ k) : (BLAKE2B_LOAD_MSG (DECLARE_MESSAGE_WORDS b) r k).row =
      fun j => message (words b) r.val k (j + 3) := by
    rw [row_LOAD_MSG]
    funext j
    rw [selected_diagonals r k j hk]
    rfl
  simp only [BLAKE2B_ROUND_V1]
  refine Registers.rows_UNDIAG _ ?_
  rw [Registers.rows_mix, Registers.rows_DIAG, Registers.rows_mix, hcol 0 (by decide),
    hcol 1 (by decide), hdiag 2 (by decide), hdiag 3 (by decide), mix_turn]

theorem rounds_V1_eq (b : Bytes) (s : Registers) (rs : List (Fin 12)) :
    (rs.foldl (BLAKE2B_ROUND_V1 (DECLARE_MESSAGE_WORDS b)) s).rows =
      (rs.map Fin.val).foldl (round (words b)) s.rows := by
  induction rs generalizing s with
  | nil => rfl
  | cons r rs ih => rw [List.foldl_cons, ih, ROUND_V1_eq, List.map_cons, List.foldl_cons]

/-! ## The compression -/

/-- The words of `a` and `b`. -/
def state (p : M256 × M256) : Fin 8 → W :=
  ![p.1.lo.lo, p.1.lo.hi, p.1.hi.lo, p.1.hi.hi, p.2.lo.lo, p.2.lo.hi, p.2.hi.lo, p.2.hi.hi]

/-- **The registers' compression** of four words. -/
theorem COMPRESS_V1_eq (a b : M256) (m : Bytes) (t0 t1 f0 f1 : W) :
    state (BLAKE2B_COMPRESS_V1 a b m t0 t1 f0 f1) =
      F (state (a, b)) (words m) ![t0, t1, f0, f1] := by
  have hrange : (List.finRange 12).map Fin.val = List.range 12 := by decide
  have hstart : Registers.rows ⟨a, b, LOAD ![blake2b_IV 0, blake2b_IV 1, blake2b_IV 2, blake2b_IV 3],
      _mm256_xor_si256 (LOAD ![blake2b_IV 4, blake2b_IV 5, blake2b_IV 6, blake2b_IV 7])
        (_mm256_set_epi64x f1 f0 t1 t0)⟩ =
      ⟨low (state (a, b)), high (state (a, b)), low IV,
        fun i => high IV i ^^^ ![t0, t1, f0, f1] i⟩ := by
    unfold Registers.rows
    congr 1
    funext i
    cases i using four_cases <;> rfl
  unfold BLAKE2B_COMPRESS_V1 F
  simp only
  rw [← hstart, ← hrange, ← rounds_V1_eq]
  generalize (List.finRange 12).foldl (BLAKE2B_ROUND_V1 _) _ = s
  have hxor (x y z : W) : x ^^^ y ^^^ z = z ^^^ x ^^^ y := by
    rw [BitVec.xor_comm, BitVec.xor_assoc]
  funext i
  cases i using eight_cases <;> exact hxor _ _ _

/-! ## The hash -/

theorem padded_long {b : Bytes} (h : BLOCKBYTES ≤ b.length) : padded b = b := by
  rw [padded, Nat.sub_eq_zero_of_le h, List.replicate_zero, List.append_nil]

theorem blocks_avx2_last (a b : M256) (counter : W) {pin : Bytes}
    (h : pin.length ≤ BLAKE2B_BLOCKBYTES) :
    blocks_avx2 a b counter pin = BLAKE2B_COMPRESS_V1 a b (padded pin)
      (counter + BitVec.ofNat 64 pin.length) 0 (BitVec.allOnes 64) 0 := by
  rw [blocks_avx2, if_pos h]
  by_cases hlt : pin.length < BLAKE2B_BLOCKBYTES
  · simp only [if_pos hlt, Nat.sub_self, Nat.lt_irrefl, gt_iff_lt, if_false]
    rfl
  · have hlen : pin.length = BLAKE2B_BLOCKBYTES := Nat.le_antisymm h (Nat.le_of_not_lt hlt)
    have hpad : padded pin = pin := padded_long (Nat.le_of_eq hlen.symm)
    simp only [← hlen, Nat.sub_self, Nat.lt_irrefl, gt_iff_lt, if_false, hpad, List.take_length]

theorem blocks_avx2_full (a b : M256) (counter : W) {pin : Bytes}
    (h : BLAKE2B_BLOCKBYTES < pin.length) :
    blocks_avx2 a b counter pin =
      let counter := counter + BitVec.ofNat 64 BLAKE2B_BLOCKBYTES
      let p := BLAKE2B_COMPRESS_V1 a b (pin.take BLAKE2B_BLOCKBYTES) counter 0 0 0
      blocks_avx2 p.1 p.2 counter (pin.drop BLAKE2B_BLOCKBYTES) := by
  have hle : ¬ pin.length ≤ BLAKE2B_BLOCKBYTES := Nat.not_le.mpr h
  have hlt : ¬ pin.length < BLAKE2B_BLOCKBYTES := Nat.not_lt.mpr (Nat.le_of_lt h)
  have hmore : pin.length - BLAKE2B_BLOCKBYTES > 0 := Nat.sub_pos_of_lt h
  rw [blocks_avx2]
  simp only [if_neg hle, if_neg hlt, if_pos hmore]

theorem loop_offset (n k : Nat) (last : Bool) (h : n + k < 2 ^ 64) :
    ![BitVec.ofNat 64 n + BitVec.ofNat 64 k, 0, if last then BitVec.allOnes 64 else 0, 0] =
      offset (n + k) last := by
  rw [offset, ← BitVec.ofNat_add_ofNat, Nat.div_eq_of_lt h]
  rfl

/-- **The loop** goes through the full blocks and ends with the last. -/
theorem blocks_avx2_eq (nn : Nat) (m : Bytes) (hm : m.length < 2 ^ 64) (i : Nat) (hi : i ≤ full m)
    (a b : M256) (hab : state (a, b) = chain nn m i) :
    state (blocks_avx2 a b (BitVec.ofNat 64 (BLOCKBYTES * i)) (m.drop (BLOCKBYTES * i))) =
      F (chain nn m (full m)) (words (padded (m.drop (BLOCKBYTES * full m))))
        (offset m.length true) := by
  have hlen (i : Nat) : (m.drop (BLOCKBYTES * i)).length = m.length - BLOCKBYTES * i :=
    List.length_drop
  obtain ⟨n, hn⟩ := Nat.exists_eq_add_of_le hi
  induction n generalizing i a b with
  | zero =>
    obtain rfl : full m = i := hn
    have hlast : (m.drop (BLOCKBYTES * full m)).length ≤ BLAKE2B_BLOCKBYTES := by
      rw [hlen]
      unfold full BLOCKBYTES BLAKE2B_BLOCKBYTES
      omega
    have hall : BLOCKBYTES * full m + (m.drop (BLOCKBYTES * full m)).length = m.length := by
      rw [hlen]
      unfold full BLOCKBYTES
      omega
    rw [blocks_avx2_last a b _ hlast, COMPRESS_V1_eq, hab]
    refine congrArg (F _ _) ((loop_offset _ _ true (by rwa [hall])).trans ?_)
    rw [hall]
  | succ n ih =>
    have hmore : BLAKE2B_BLOCKBYTES < (m.drop (BLOCKBYTES * i)).length := by
      rw [hlen]
      unfold full BLOCKBYTES BLAKE2B_BLOCKBYTES at *
      omega
    have hcount : BLOCKBYTES * i + BLAKE2B_BLOCKBYTES = BLOCKBYTES * (i + 1) := rfl
    have hroom : BLOCKBYTES * i + BLAKE2B_BLOCKBYTES < 2 ^ 64 := by
      rw [hlen] at hmore
      omega
    have hstep : state (BLAKE2B_COMPRESS_V1 a b ((m.drop (BLOCKBYTES * i)).take BLAKE2B_BLOCKBYTES)
        (BitVec.ofNat 64 (BLOCKBYTES * i) + BitVec.ofNat 64 BLAKE2B_BLOCKBYTES) 0 0 0) =
        chain nn m (i + 1) := by
      rw [COMPRESS_V1_eq, hab]
      exact congrArg (F _ _) (loop_offset _ _ false hroom)
    rw [blocks_avx2_full a b _ hmore]
    simp only
    rw [BitVec.ofNat_add_ofNat, hcount] at hstep ⊢
    rw [List.drop_drop]
    exact ih (i + 1) (by omega) _ _ hstep (by omega)

theorem length_STOREU (x : M256) : (STOREU x).length = 32 := by
  simp [STOREU, List.finRange_succ]

theorem STOREU_state (p : M256 × M256) : STOREU p.1 ++ STOREU p.2 = digest (state p) := by
  simp only [STOREU, digest, List.finRange_succ, List.finRange_zero, List.map_cons, List.map_nil,
    List.flatMap_cons, List.flatMap_nil, List.append_assoc, List.nil_append]
  rfl

/-- Or, for exclusive or. -/
theorem parameter_or {nn : Nat} (h : nn < 65) :
    0x01010000 ||| BitVec.ofNat 64 (nn % 2 ^ 32) = 0x01010000 ^^^ BitVec.ofNat 64 nn := by
  have hall : ∀ n < 65, 0x01010000 ||| BitVec.ofNat 64 (n % 2 ^ 32) =
    0x01010000 ^^^ BitVec.ofNat 64 n := by decide
  exact hall nn h

theorem state_start {nn : Nat} (h : nn < 65) :
    state (_mm256_xor_si256 (LOAD ![blake2b_IV 0, blake2b_IV 1, blake2b_IV 2, blake2b_IV 3])
        (_mm256_set_epi64x 0 0 0 (0x01010000 ||| BitVec.ofNat 64 (nn % 2 ^ 32))),
      LOAD ![blake2b_IV 4, blake2b_IV 5, blake2b_IV 6, blake2b_IV 7]) = start nn := by
  rw [parameter_or h]
  funext i
  cases i using eight_cases <;> first | rfl | exact BitVec.xor_zero.symm

/-- The digest of any input. -/
theorem avx2_digest {nn : Nat} (hnn : nn ≤ BLAKE2B_OUTBYTES) {m : Bytes} (hm : m.length < 2 ^ 64) :
    blake2b_avx2 nn m = blake2b nn m := by
  have hloop := blocks_avx2_eq nn m hm 0 (Nat.zero_le _) _ _
    (state_start (Nat.lt_succ_of_le hnn))
  rw [Nat.mul_zero, List.drop_zero] at hloop
  unfold blake2b_avx2 blake2b
  simp only
  rw [← hloop, ← STOREU_state]
  split
  · rw [List.take_of_length_le]
    · rfl
    · rw [List.length_append, length_STOREU, length_STOREU]
  · exact (List.take_left' (length_STOREU _)).symm
  · rfl

/-! ## The choice of the code -/

/-- mirrors src/crypto/rx/Rx.cpp:94, 129-133 -/
def rx_blake2b_compress (sse41 : Bool) : Compress :=
  if sse41 then rx_blake2b_compress_sse41 else rx_blake2b_compress_integer

/-- The digest, when the code is zero.
mirrors src/crypto/rx/Rx.cpp:95, 135-139 -/
def rx_blake2b (sse41 avx2 : Bool) (outlen : Nat) (pin : Bytes) : Option Bytes :=
  if avx2 then some (blake2b_avx2 outlen pin)
  else rx_blake2b_default (rx_blake2b_compress sse41) outlen pin

theorem rx_blake2b_compress_eq (sse41 : Bool) : Compresses (rx_blake2b_compress sse41) := by
  cases sse41 with
  | false => exact compress_integer_eq
  | true => exact compress_sse41_eq

/-- **Every machine's digest** is the specification's, whichever instructions it has. -/
theorem rx_blake2b_digest (sse41 avx2 : Bool) {nn : Nat} (hnn : 0 < nn ∧ nn ≤ BLAKE2B_OUTBYTES)
    {m : Bytes} (hm : m.length < 2 ^ 64) :
    rx_blake2b sse41 avx2 nn m = some (blake2b nn m) := by
  cases avx2 with
  | false => exact default_digest (rx_blake2b_compress_eq sse41) hnn m
  | true => exact congrArg some (avx2_digest hnn.2 hm)

theorem rx_blake2b_digest_abc : rx_blake2b true true 64 [0x61, 0x62, 0x63] =
    some (blake2b 64 [0x61, 0x62, 0x63]) :=
  rx_blake2b_digest true true (by decide) (by decide)

end Rxs.L1.Blake2b
