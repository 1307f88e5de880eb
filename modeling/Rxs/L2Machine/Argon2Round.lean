import Mathlib.Tactic.Ring
import Mathlib.Data.BitVec
import Rxs.Core.Blamka
import Rxs.L1Encoding.Blake2bAvx2

/-!
# The rounds of Argon2 in registers

`G1` and `G2` mix what eight registers have, a row in two of them; a round also moves the words
of a diagonal under each other and back. The macros are the same for all processors but for the
instructions: how a word is rotated, how words move, and how many rounds the eight registers are
of.

* `Simd`: a processor's registers, with what its instructions for words do.
* `lines_mix`, `lines_round`: the rounds that eight registers have.
* **`BLAKE2_ROUND_sse2_eq`** and those of the other processors: each is all of its rounds.
-/
namespace Rxs.L2.Argon2

open Rxs.Core Rxs.Core.Bytes
open Rxs.Core.Blake2b (W Row Rows)
open Rxs.Core.Blamka (low32 P half mix permute array rows_array)
open Rxs.L1.Blake2b (M128 M256 joined _mm_add_epi64 _mm_xor_si128 _mm_srli_epi64 _mm_slli_epi64
  _mm_shuffle_epi8 _mm_shuffle_epi32 _MM_SHUFFLE _mm_alignr_epi8 _mm256_add_epi64 _mm256_xor_si256
  _mm256_srli_epi64 _mm256_shuffle_epi8 _mm256_shuffle_epi32 _mm256_permute4x64_epi64
  _mm256_blend_epi32)

/-! ## Registers -/

/-- Registers of `w` words, and what the macros use of them. -/
structure Simd (R : Type) (w : Nat) where
  word : R → Fin w → W
  loadu : (Fin w → W) → R
  add_epi64 : R → R → R
  xor : R → R → R
  mul_epu32 : R → R → R
  ror64_32 : R → R
  ror64_24 : R → R
  ror64_16 : R → R
  ror64_63 : R → R
  word_loadu (v : Fin w → W) : word (loadu v) = v
  word_add (x y : R) (i : Fin w) : word (add_epi64 x y) i = word x i + word y i
  word_xor (x y : R) (i : Fin w) : word (xor x y) i = word x i ^^^ word y i
  word_mul (x y : R) (i : Fin w) : word (mul_epu32 x y) i = low32 (word x i) * low32 (word y i)
  word_32 (x : R) (i : Fin w) : word (ror64_32 x) i = (word x i).rotateRight 32
  word_24 (x : R) (i : Fin w) : word (ror64_24 x) i = (word x i).rotateRight 24
  word_16 (x : R) (i : Fin w) : word (ror64_16 x) i = (word x i).rotateRight 16
  word_63 (x : R) (i : Fin w) : word (ror64_63 x) i = (word x i).rotateRight 63

/-- The registers of a round. -/
structure Octet (R : Type) where
  A0 : R
  B0 : R
  C0 : R
  D0 : R
  A1 : R
  B1 : R
  C1 : R
  D1 : R

section

variable {R : Type} {w : Nat} (S : Simd R w)

/-- mirrors src/3rdparty/argon2/arch/x86_64/lib/argon2-sse2.c:20-24 -/
def f (x y : R) : R :=
  let z := S.mul_epu32 x y
  S.add_epi64 (S.add_epi64 x y) (S.add_epi64 z z)

/-- `G1` and `G2` differ in the two rotations. -/
def mixHalf (rot₁ rot₂ : R → R) (s : Octet R) : Octet R :=
  let A0 := f S s.A0 s.B0
  let A1 := f S s.A1 s.B1
  let D0 := rot₁ (S.xor s.D0 A0)
  let D1 := rot₁ (S.xor s.D1 A1)
  let C0 := f S s.C0 D0
  let C1 := f S s.C1 D1
  let B0 := rot₂ (S.xor s.B0 C0)
  let B1 := rot₂ (S.xor s.B1 C1)
  ⟨A0, B0, C0, D0, A1, B1, C1, D1⟩

/-- mirrors src/3rdparty/argon2/arch/x86_64/lib/argon2-sse2.c:26-46 -/
def G1 : Octet R → Octet R := mixHalf S S.ror64_32 S.ror64_24

/-- mirrors src/3rdparty/argon2/arch/x86_64/lib/argon2-sse2.c:48-68 -/
def G2 : Octet R → Octet R := mixHalf S S.ror64_16 S.ror64_63

/-- The shape that all rounds have. -/
def round (diagonalize undiagonalize : Octet R → Octet R) (s : Octet R) : Octet R :=
  let s := G2 S (G1 S s)
  let s := diagonalize s
  let s := G2 S (G1 S s)
  undiagonalize s

/-! ## The rounds that they have -/

theorem F_eq (x y : W) : x + y + (low32 x * low32 y + low32 x * low32 y) = Blamka.F x y := by
  unfold Blamka.F
  ring

theorem word_f (x y : R) (i : Fin w) : S.word (f S x y) i = Blamka.F (S.word x i) (S.word y i) := by
  simp only [f, S.word_add, S.word_mul, F_eq]

/-- Which of two registers has a word of a line's row, and where. -/
abbrev Place (κ : Type) (w : Nat) := κ → Fin 4 → Bool × Fin w

variable {κ : Type} (place : Place κ w)

def row (x0 x1 : R) (k : κ) : Row := fun i =>
  S.word (if (place k i).1 then x1 else x0) (place k i).2

def lines (s : Octet R) (k : κ) : Rows :=
  ⟨row S place s.A0 s.A1 k, row S place s.B0 s.B1 k, row S place s.C0 s.C1 k,
    row S place s.D0 s.D1 k⟩

theorem row_map {g : R → R} (g' : W → W) (h : ∀ x i, S.word (g x) i = g' (S.word x i)) (x0 x1 : R)
    (k : κ) : row S place (g x0) (g x1) k = fun i => g' (row S place x0 x1 k i) := by
  funext i
  unfold row
  cases (place k i).1 <;> exact h _ _

theorem row_map₂ {g : R → R → R} (g' : W → W → W)
    (h : ∀ x y i, S.word (g x y) i = g' (S.word x i) (S.word y i)) (x0 x1 y0 y1 : R) (k : κ) :
    row S place (g x0 y0) (g x1 y1) k =
      fun i => g' (row S place x0 x1 k i) (row S place y0 y1 k i) := by
  funext i
  unfold row
  cases (place k i).1 <;> exact h _ _ _

theorem lines_mixHalf {rot₁ rot₂ : R → R} {r₁ r₂ : Nat}
    (h₁ : ∀ x i, S.word (rot₁ x) i = (S.word x i).rotateRight r₁)
    (h₂ : ∀ x i, S.word (rot₂ x) i = (S.word x i).rotateRight r₂) (s : Octet R) (k : κ) :
    lines S place (mixHalf S rot₁ rot₂ s) k = half r₁ r₂ (lines S place s k) := by
  simp only [lines, mixHalf, half, row_map₂ S place Blamka.F (word_f S),
    row_map₂ S place (· ^^^ ·) S.word_xor, row_map S place (·.rotateRight r₁) h₁,
    row_map S place (·.rotateRight r₂) h₂]

/-- **Each line** is mixed. -/
theorem lines_mix (s : Octet R) (k : κ) :
    lines S place (G2 S (G1 S s)) k = mix (lines S place s k) := by
  rw [G2, G1, lines_mixHalf S place S.word_16 S.word_63, lines_mixHalf S place S.word_32 S.word_24]
  rfl

theorem lines_round {diagonalize undiagonalize : Octet R → Octet R}
    (hdiag : ∀ s k, lines S place (diagonalize s) k = (lines S place s k).diagonalize)
    (hundiag : ∀ s k, lines S place (undiagonalize s) k = (lines S place s k).undiagonalize)
    (s : Octet R) (k : κ) :
    lines S place (round S diagonalize undiagonalize s) k = permute (lines S place s k) := by
  simp only [round, permute, hundiag, hdiag, lines_mix]

end

/-- **A round's words**, when its registers are loaded and stored with some order or exchange of
words: line `k` has the word `lane k n` of the register `reg k n`. -/
theorem round_words {R : Type} {w : Nat} (S : Simd R w) {κ : Type} (place : Place κ w)
    {round : Octet R → Octet R} {load : (Fin 8 → R) → Octet R} {store : Octet R → Fin 8 → R}
    {reg : κ → Fin 16 → Fin 8} {lane : κ → Fin 16 → Fin w}
    (hround : ∀ s k, lines S place (round s) k = permute (lines S place s k))
    (hload : ∀ x, store (load x) = x)
    (hword : ∀ s k n, S.word (store s (reg k n)) (lane k n) = array (lines S place s k) n)
    (x : Fin 8 → R) (k : κ) (n : Fin 16) :
    S.word (store (round (load x)) (reg k n)) (lane k n) =
      P (fun m => S.word (x (reg k m)) (lane k m)) n := by
  have hbefore : (fun m => S.word (x (reg k m)) (lane k m)) = array (lines S place (load x) k) := by
    funext m
    rw [← hword, hload]
  rw [hword, hround, hbefore, P, rows_array]

/-! ## Two words -/

/-- The low halves' products. -/
def epu32 (x y : W) : W := (x.setWidth 32).setWidth 64 * (y.setWidth 32).setWidth 64

theorem epu32_eq (x y : W) : epu32 x y = low32 x * low32 y := by
  have h (x : W) : (x.setWidth 32).setWidth 64 = low32 x := by
    apply BitVec.eq_of_toNat_eq
    have hmask : (0xffffffff : W).toNat = 2 ^ 32 - 1 := rfl
    rw [low32, BitVec.toNat_and, hmask, Nat.and_two_pow_sub_one_eq_mod, BitVec.toNat_setWidth,
      BitVec.toNat_setWidth]
    omega
  rw [epu32, h, h]

def _mm_mul_epu32 : M128 → M128 → M128 := M128.map₂ epu32

def _mm_unpacklo_epi64 (x y : M128) : M128 := ⟨x.lo, y.lo⟩

def _mm_unpackhi_epi64 (x y : M128) : M128 := ⟨x.hi, y.hi⟩

def shuffle16 (x : W) (imm : Nat) : W :=
  x.extractLsb' (16 * ((imm >>> 6) % 4)) 16 ++ x.extractLsb' (16 * ((imm >>> 4) % 4)) 16 ++
    x.extractLsb' (16 * ((imm >>> 2) % 4)) 16 ++ x.extractLsb' (16 * (imm % 4)) 16

def _mm_shufflelo_epi16 (x : M128) (imm : Nat) : M128 := ⟨shuffle16 x.lo imm, x.hi⟩

def _mm_shufflehi_epi16 (x : M128) (imm : Nat) : M128 := ⟨x.lo, shuffle16 x.hi imm⟩

theorem shuffle16_rotate (x : W) : shuffle16 x (_MM_SHUFFLE 0 3 2 1) = x.rotateRight 16 := by
  have himm : _MM_SHUFFLE 0 3 2 1 = 57 := by decide
  apply BitVec.eq_of_getLsbD_eq
  intro i hi
  rw [shuffle16, himm, BitVec.getLsbD_rotateRight]
  simp only [BitVec.getLsbD_append, BitVec.getLsbD_extractLsb']
  obtain ⟨t, q, ht, hq, rfl⟩ : ∃ t q, t < 16 ∧ q < 4 ∧ i = t + 16 * q :=
    ⟨i % 16, i / 16, by omega, by omega, by omega⟩
  interval_cases q
  · simp [ht, show t < 48 by omega, Nat.add_comm]
  · simp [ht, show t + 16 < 48 by omega, show 16 + (t + 16) = 32 + t by omega]
  · simp [ht, show t + 32 < 48 by omega, show 16 + (t + 32) = 48 + t by omega]
  · simp [ht, show ¬ t + 48 < 16 by omega, show ¬ t + 32 < 16 by omega, show t + 48 < 64 by omega]

/-- `_mm_srli_epi64` and `_mm_slli_epi64` of a word, together. -/
theorem shifts_rotate (x : W) {k : Nat} (hk : 0 < k ∧ k < 64) :
    (x >>> k) ^^^ (x <<< (64 - k)) = x.rotateRight k := by
  apply BitVec.eq_of_getLsbD_eq
  intro i hi
  rw [BitVec.getLsbD_xor, BitVec.getLsbD_ushiftRight, BitVec.getLsbD_shiftLeft,
    BitVec.getLsbD_rotateRight, Nat.mod_eq_of_lt hk.2]
  by_cases h : i < 64 - k
  · simp [h]
  · simp [h, hi, BitVec.getLsbD_of_ge x (k + i) (by omega)]

def word128 (x : M128) : Fin 2 → W := ![x.lo, x.hi]

@[elab_as_elim]
theorem two_cases {P : Fin 2 → Prop} (i : Fin 2) (zero : P 0) (one : P 1) : P i := by
  match i with
  | 0 => exact zero
  | 1 => exact one

/-- The registers of 128 bits; the processors differ in the rotations. -/
def simd128 (ror64_32 ror64_24 ror64_16 ror64_63 : M128 → M128)
    (h32 : ∀ x, ror64_32 x = ⟨x.lo.rotateRight 32, x.hi.rotateRight 32⟩)
    (h24 : ∀ x, ror64_24 x = ⟨x.lo.rotateRight 24, x.hi.rotateRight 24⟩)
    (h16 : ∀ x, ror64_16 x = ⟨x.lo.rotateRight 16, x.hi.rotateRight 16⟩)
    (h63 : ∀ x, ror64_63 x = ⟨x.lo.rotateRight 63, x.hi.rotateRight 63⟩) : Simd M128 2 where
  word := word128
  loadu v := ⟨v 0, v 1⟩
  add_epi64 := _mm_add_epi64
  xor := _mm_xor_si128
  mul_epu32 := _mm_mul_epu32
  ror64_32 := ror64_32
  ror64_24 := ror64_24
  ror64_16 := ror64_16
  ror64_63 := ror64_63
  word_loadu v := by
    funext i
    cases i using two_cases <;> rfl
  word_add x y i := by cases i using two_cases <;> rfl
  word_xor x y i := by cases i using two_cases <;> rfl
  word_mul x y i := by cases i using two_cases <;> exact epu32_eq _ _
  word_32 x i := by
    rw [h32]
    cases i using two_cases <;> rfl
  word_24 x i := by
    rw [h24]
    cases i using two_cases <;> rfl
  word_16 x i := by
    rw [h16]
    cases i using two_cases <;> rfl
  word_63 x i := by
    rw [h63]
    cases i using two_cases <;> rfl

/-! mirrors src/3rdparty/argon2/arch/x86_64/lib/argon2-sse2.c:10-18 -/

def ror64_16_sse2 (x : M128) : M128 :=
  _mm_shufflehi_epi16 (_mm_shufflelo_epi16 x (_MM_SHUFFLE 0 3 2 1)) (_MM_SHUFFLE 0 3 2 1)

def ror64_24_sse2 (x : M128) : M128 := _mm_xor_si128 (_mm_srli_epi64 x 24) (_mm_slli_epi64 x 40)

def ror64_32 (x : M128) : M128 := _mm_shuffle_epi32 x (_MM_SHUFFLE 2 3 0 1)

def ror64_63 (x : M128) : M128 := _mm_xor_si128 (_mm_srli_epi64 x 63) (_mm_add_epi64 x x)

theorem ror64_63_eq (x : M128) : ror64_63 x = ⟨x.lo.rotateRight 63, x.hi.rotateRight 63⟩ :=
  congrArg₂ M128.mk (L1.Blake2b.twice_xor x.lo) (L1.Blake2b.twice_xor x.hi)

def sse2 : Simd M128 2 :=
  simd128 ror64_32 ror64_24_sse2 ror64_16_sse2 ror64_63 L1.Blake2b.shuffle_dwords
    (fun x => congrArg₂ M128.mk (shifts_rotate x.lo (by decide)) (shifts_rotate x.hi (by decide)))
    (fun x => congrArg₂ M128.mk (shuffle16_rotate x.lo) (shuffle16_rotate x.hi)) ror64_63_eq

/-! mirrors src/3rdparty/argon2/arch/x86_64/lib/argon2-ssse3.c:12-24 -/

def ror64_16_ssse3 (x : M128) : M128 := _mm_shuffle_epi8 x L1.Blake2b.r16

def ror64_24_ssse3 (x : M128) : M128 := _mm_shuffle_epi8 x L1.Blake2b.r24

def ssse3 : Simd M128 2 :=
  simd128 ror64_32 ror64_24_ssse3 ror64_16_ssse3 ror64_63 L1.Blake2b.shuffle_dwords
    L1.Blake2b.shuffle_r24 L1.Blake2b.shuffle_r16 ror64_63_eq

/-- To the left, or by a negative number to the right. -/
def _mm_roti_epi64 (x : M128) (count : Int) : M128 :=
  if count < 0 then ⟨x.lo.rotateRight count.natAbs, x.hi.rotateRight count.natAbs⟩
  else ⟨x.lo.rotateLeft count.natAbs, x.hi.rotateLeft count.natAbs⟩

/-- mirrors src/3rdparty/argon2/arch/x86_64/lib/argon2-xop.c:12 -/
def ror64_xop (c : Int) (x : M128) : M128 := _mm_roti_epi64 x (-c)

def xop : Simd M128 2 :=
  simd128 (ror64_xop 32) (ror64_xop 24) (ror64_xop 16) (ror64_xop 63) (fun _ => rfl) (fun _ => rfl)
    (fun _ => rfl) (fun _ => rfl)

/-- mirrors src/3rdparty/argon2/arch/x86_64/lib/argon2-sse2.c:68-76 -/
def DIAGONALIZE_sse2 (s : Octet M128) : Octet M128 :=
  { s with
    D0 := _mm_unpackhi_epi64 s.D1 (_mm_unpacklo_epi64 s.D0 s.D0)
    D1 := _mm_unpackhi_epi64 s.D0 (_mm_unpacklo_epi64 s.D1 s.D1)
    B0 := _mm_unpackhi_epi64 s.B0 (_mm_unpacklo_epi64 s.B1 s.B1)
    B1 := _mm_unpackhi_epi64 s.B1 (_mm_unpacklo_epi64 s.B0 s.B0) }

/-- mirrors src/3rdparty/argon2/arch/x86_64/lib/argon2-sse2.c:78-86 -/
def UNDIAGONALIZE_sse2 (s : Octet M128) : Octet M128 :=
  { s with
    B0 := _mm_unpackhi_epi64 s.B1 (_mm_unpacklo_epi64 s.B0 s.B0)
    B1 := _mm_unpackhi_epi64 s.B0 (_mm_unpacklo_epi64 s.B1 s.B1)
    D0 := _mm_unpackhi_epi64 s.D0 (_mm_unpacklo_epi64 s.D1 s.D1)
    D1 := _mm_unpackhi_epi64 s.D1 (_mm_unpacklo_epi64 s.D0 s.D0) }

/-- Of SSSE3 and XOP.
mirrors src/3rdparty/argon2/arch/x86_64/lib/argon2-ssse3.c:74-85 -/
def DIAGONALIZE_ssse3 (s : Octet M128) : Octet M128 :=
  { s with
    B0 := _mm_alignr_epi8 s.B1 s.B0 8
    B1 := _mm_alignr_epi8 s.B0 s.B1 8
    D0 := _mm_alignr_epi8 s.D0 s.D1 8
    D1 := _mm_alignr_epi8 s.D1 s.D0 8 }

/-- mirrors src/3rdparty/argon2/arch/x86_64/lib/argon2-ssse3.c:87-98 -/
def UNDIAGONALIZE_ssse3 (s : Octet M128) : Octet M128 :=
  { s with
    B0 := _mm_alignr_epi8 s.B0 s.B1 8
    B1 := _mm_alignr_epi8 s.B1 s.B0 8
    D0 := _mm_alignr_epi8 s.D1 s.D0 8
    D1 := _mm_alignr_epi8 s.D0 s.D1 8 }

/-- With the arguments `A0, A1, B0, B1, C0, C1, D0, D1`. -/
def Octet.ofPairs {R : Type} (x : Fin 8 → R) : Octet R := ⟨x 0, x 2, x 4, x 6, x 1, x 3, x 5, x 7⟩

def Octet.toPairs {R : Type} (s : Octet R) : Fin 8 → R :=
  ![s.A0, s.A1, s.B0, s.B1, s.C0, s.C1, s.D0, s.D1]

theorem Octet.toPairs_ofPairs {R : Type} (x : Fin 8 → R) : (Octet.ofPairs x).toPairs = x := by
  funext i
  cases i using eight_cases <;> rfl

/-- The second half of a round is called with `C1` and `C0` exchanged. -/
def Octet.swapC {R : Type} (s : Octet R) : Octet R := { s with C0 := s.C1, C1 := s.C0 }

/-- mirrors src/3rdparty/argon2/arch/x86_64/lib/argon2-sse2.c:88-99 -/
def BLAKE2_ROUND_sse2 (x : Fin 8 → M128) : Fin 8 → M128 :=
  (round sse2 (fun s => (DIAGONALIZE_sse2 s).swapC) (fun s => UNDIAGONALIZE_sse2 s.swapC)
    (Octet.ofPairs x)).toPairs

/-- mirrors src/3rdparty/argon2/arch/x86_64/lib/argon2-ssse3.c:100-111 -/
def BLAKE2_ROUND_ssse3 (x : Fin 8 → M128) : Fin 8 → M128 :=
  (round ssse3 (fun s => (DIAGONALIZE_ssse3 s).swapC) (fun s => UNDIAGONALIZE_ssse3 s.swapC)
    (Octet.ofPairs x)).toPairs

/-- mirrors src/3rdparty/argon2/arch/x86_64/lib/argon2-xop.c:88-99 -/
def BLAKE2_ROUND_xop (x : Fin 8 → M128) : Fin 8 → M128 :=
  (round xop (fun s => (DIAGONALIZE_ssse3 s).swapC) (fun s => UNDIAGONALIZE_ssse3 s.swapC)
    (Octet.ofPairs x)).toPairs

/-- One line, half of each row in a register. -/
def halves : Place (Fin 1) 2 := fun _ => ![(false, 0), (false, 1), (true, 0), (true, 1)]

theorem half_lt (n : Fin 16) : n.val / 2 < 8 := by omega

theorem odd_lt (n : Fin 16) : n.val % 2 < 2 := by omega

def reg128 (_ : Fin 1) (n : Fin 16) : Fin 8 := ⟨n.val / 2, half_lt n⟩

def lane128 (_ : Fin 1) (n : Fin 16) : Fin 2 := ⟨n.val % 2, odd_lt n⟩

section

variable {S : Simd M128 2} (hS : S.word = word128)

include hS

theorem lines_halves (s : Octet M128) (k : Fin 1) : lines S halves s k =
    ⟨joined s.A0 s.A1, joined s.B0 s.B1, joined s.C0 s.C1, joined s.D0 s.D1⟩ := by
  have hrow (x0 x1 : M128) : row S halves x0 x1 k = joined x0 x1 := by
    unfold row
    rw [hS]
    funext i
    cases i using four_cases <;> rfl
  simp only [lines, hrow]

theorem diagonalize_sse2 (s : Octet M128) (k : Fin 1) :
    lines S halves (DIAGONALIZE_sse2 s).swapC k = (lines S halves s k).diagonalize := by
  simp only [lines_halves hS, Rows.diagonalize]
  congr 1 <;> funext i <;> cases i using four_cases <;> rfl

theorem undiagonalize_sse2 (s : Octet M128) (k : Fin 1) :
    lines S halves (UNDIAGONALIZE_sse2 s.swapC) k = (lines S halves s k).undiagonalize := by
  simp only [lines_halves hS, Rows.undiagonalize]
  congr 1 <;> funext i <;> cases i using four_cases <;> rfl

theorem diagonalize_ssse3 (s : Octet M128) (k : Fin 1) :
    lines S halves (DIAGONALIZE_ssse3 s).swapC k = (lines S halves s k).diagonalize := by
  simp only [lines_halves hS, DIAGONALIZE_ssse3, L1.Blake2b.alignr_8, Rows.diagonalize]
  congr 1 <;> funext i <;> cases i using four_cases <;> rfl

theorem undiagonalize_ssse3 (s : Octet M128) (k : Fin 1) :
    lines S halves (UNDIAGONALIZE_ssse3 s.swapC) k = (lines S halves s k).undiagonalize := by
  simp only [lines_halves hS, UNDIAGONALIZE_ssse3, L1.Blake2b.alignr_8, Rows.undiagonalize]
  congr 1 <;> funext i <;> cases i using four_cases <;> rfl

theorem word_pairs (s : Octet M128) (k : Fin 1) (n : Fin 16) :
    S.word (s.toPairs (reg128 k n)) (lane128 k n) = array (lines S halves s k) n := by
  rw [hS, lines_halves hS]
  cases n using Blake2b.sixteen_cases <;> rfl

end

section

variable (x : Fin 8 → M128) (k : Fin 1) (n : Fin 16)

theorem BLAKE2_ROUND_sse2_eq : sse2.word (BLAKE2_ROUND_sse2 x (reg128 k n)) (lane128 k n) =
    P (fun m => sse2.word (x (reg128 k m)) (lane128 k m)) n :=
  round_words sse2 halves (lines_round sse2 halves (diagonalize_sse2 rfl) (undiagonalize_sse2 rfl))
    Octet.toPairs_ofPairs (word_pairs rfl) x k n

theorem BLAKE2_ROUND_ssse3_eq : ssse3.word (BLAKE2_ROUND_ssse3 x (reg128 k n)) (lane128 k n) =
    P (fun m => ssse3.word (x (reg128 k m)) (lane128 k m)) n :=
  round_words ssse3 halves
    (lines_round ssse3 halves (diagonalize_ssse3 rfl) (undiagonalize_ssse3 rfl))
    Octet.toPairs_ofPairs (word_pairs rfl) x k n

theorem BLAKE2_ROUND_xop_eq : xop.word (BLAKE2_ROUND_xop x (reg128 k n)) (lane128 k n) =
    P (fun m => xop.word (x (reg128 k m)) (lane128 k m)) n :=
  round_words xop halves (lines_round xop halves (diagonalize_ssse3 rfl) (undiagonalize_ssse3 rfl))
    Octet.toPairs_ofPairs (word_pairs rfl) x k n

end

/-! ## Four words -/

def _mm256_mul_epu32 (x y : M256) : M256 := ⟨_mm_mul_epu32 x.lo y.lo, _mm_mul_epu32 x.hi y.hi⟩

/-! mirrors src/3rdparty/argon2/arch/x86_64/lib/argon2-avx2.c:12-28 -/

def r16_avx2 : List Nat :=
  [2, 3, 4, 5, 6, 7, 0, 1, 10, 11, 12, 13, 14, 15, 8, 9,
    18, 19, 20, 21, 22, 23, 16, 17, 26, 27, 28, 29, 30, 31, 24, 25]

def r24_avx2 : List Nat :=
  [3, 4, 5, 6, 7, 0, 1, 2, 11, 12, 13, 14, 15, 8, 9, 10,
    19, 20, 21, 22, 23, 16, 17, 18, 27, 28, 29, 30, 31, 24, 25, 26]

def ror64_16_avx2 (x : M256) : M256 := _mm256_shuffle_epi8 x r16_avx2

def ror64_24_avx2 (x : M256) : M256 := _mm256_shuffle_epi8 x r24_avx2

def ror64_32_avx2 (x : M256) : M256 := _mm256_shuffle_epi32 x (_MM_SHUFFLE 2 3 0 1)

def ror64_63_avx2 (x : M256) : M256 :=
  _mm256_xor_si256 (_mm256_srli_epi64 x 63) (_mm256_add_epi64 x x)

/-- Only the four low bits of an index count. -/
theorem shuffle_index (x : M128) {mask mask' : List Nat}
    (h : ∀ i < 16, mask.getD i 0 < 128 ∧ mask'.getD i 0 < 128 ∧
      mask.getD i 0 % 16 = mask'.getD i 0 % 16) :
    _mm_shuffle_epi8 x mask = _mm_shuffle_epi8 x mask' := by
  have hbyte (i : Nat) (hi : i < 16) :
      (if mask.getD i 0 ≥ 128 then 0 else x.byte (mask.getD i 0 % 16)) =
        if mask'.getD i 0 ≥ 128 then 0 else x.byte (mask'.getD i 0 % 16) := by
    obtain ⟨hlt, hlt', hmod⟩ := h i hi
    rw [if_neg (Nat.not_le.mpr hlt), if_neg (Nat.not_le.mpr hlt'), hmod]
  exact congrArg₂ M128.mk (L1.Blake2b.cat_congr fun i hi => hbyte i (by omega))
    (L1.Blake2b.cat_congr fun i hi => hbyte (i + 8) (by omega))

def M256.rotated (x : M256) (r : Nat) : M256 :=
  ⟨⟨x.lo.lo.rotateRight r, x.lo.hi.rotateRight r⟩, ⟨x.hi.lo.rotateRight r, x.hi.hi.rotateRight r⟩⟩

theorem ror64_16_avx2_eq (x : M256) : ror64_16_avx2 x = M256.rotated x 16 :=
  congrArg₂ M256.mk (L1.Blake2b.shuffle_r16 x.lo)
    ((shuffle_index x.hi (by decide)).trans (L1.Blake2b.shuffle_r16 x.hi))

theorem ror64_24_avx2_eq (x : M256) : ror64_24_avx2 x = M256.rotated x 24 :=
  congrArg₂ M256.mk (L1.Blake2b.shuffle_r24 x.lo)
    ((shuffle_index x.hi (by decide)).trans (L1.Blake2b.shuffle_r24 x.hi))

theorem ror64_32_avx2_eq (x : M256) : ror64_32_avx2 x = M256.rotated x 32 :=
  congrArg₂ M256.mk (L1.Blake2b.shuffle_dwords x.lo) (L1.Blake2b.shuffle_dwords x.hi)

theorem ror64_63_avx2_eq (x : M256) : ror64_63_avx2 x = M256.rotated x 63 :=
  congrArg₂ M256.mk (ror64_63_eq x.lo) (ror64_63_eq x.hi)

theorem row_rotated (x : M256) (r : Nat) (i : Fin 4) :
    (M256.rotated x r).row i = (x.row i).rotateRight r := by
  cases i using four_cases <;> rfl

def avx2 : Simd M256 4 where
  word := L1.Blake2b.M256.row
  loadu v := ⟨⟨v 0, v 1⟩, ⟨v 2, v 3⟩⟩
  add_epi64 := _mm256_add_epi64
  xor := _mm256_xor_si256
  mul_epu32 := _mm256_mul_epu32
  ror64_32 := ror64_32_avx2
  ror64_24 := ror64_24_avx2
  ror64_16 := ror64_16_avx2
  ror64_63 := ror64_63_avx2
  word_loadu v := by
    funext i
    cases i using four_cases <;> rfl
  word_add x y i := by cases i using four_cases <;> rfl
  word_xor x y i := by cases i using four_cases <;> rfl
  word_mul x y i := by cases i using four_cases <;> exact epu32_eq _ _
  word_32 x i := by rw [ror64_32_avx2_eq, row_rotated]
  word_24 x i := by rw [ror64_24_avx2_eq, row_rotated]
  word_16 x i := by rw [ror64_16_avx2_eq, row_rotated]
  word_63 x i := by rw [ror64_63_avx2_eq, row_rotated]

/-- mirrors src/3rdparty/argon2/arch/x86_64/lib/argon2-avx2.c:78-88 -/
def DIAGONALIZE1 (s : Octet M256) : Octet M256 :=
  { s with
    B0 := _mm256_permute4x64_epi64 s.B0 (_MM_SHUFFLE 0 3 2 1)
    B1 := _mm256_permute4x64_epi64 s.B1 (_MM_SHUFFLE 0 3 2 1)
    C0 := _mm256_permute4x64_epi64 s.C0 (_MM_SHUFFLE 1 0 3 2)
    C1 := _mm256_permute4x64_epi64 s.C1 (_MM_SHUFFLE 1 0 3 2)
    D0 := _mm256_permute4x64_epi64 s.D0 (_MM_SHUFFLE 2 1 0 3)
    D1 := _mm256_permute4x64_epi64 s.D1 (_MM_SHUFFLE 2 1 0 3) }

/-- mirrors src/3rdparty/argon2/arch/x86_64/lib/argon2-avx2.c:90-100 -/
def UNDIAGONALIZE1 (s : Octet M256) : Octet M256 :=
  { s with
    B0 := _mm256_permute4x64_epi64 s.B0 (_MM_SHUFFLE 2 1 0 3)
    B1 := _mm256_permute4x64_epi64 s.B1 (_MM_SHUFFLE 2 1 0 3)
    C0 := _mm256_permute4x64_epi64 s.C0 (_MM_SHUFFLE 1 0 3 2)
    C1 := _mm256_permute4x64_epi64 s.C1 (_MM_SHUFFLE 1 0 3 2)
    D0 := _mm256_permute4x64_epi64 s.D0 (_MM_SHUFFLE 0 3 2 1)
    D1 := _mm256_permute4x64_epi64 s.D1 (_MM_SHUFFLE 0 3 2 1) }

/-- mirrors src/3rdparty/argon2/arch/x86_64/lib/argon2-avx2.c:102-118 -/
def DIAGONALIZE2 (s : Octet M256) : Octet M256 :=
  { s with
    B1 := _mm256_permute4x64_epi64 (_mm256_blend_epi32 s.B0 s.B1 0xCC) (_MM_SHUFFLE 2 3 0 1)
    B0 := _mm256_permute4x64_epi64 (_mm256_blend_epi32 s.B0 s.B1 0x33) (_MM_SHUFFLE 2 3 0 1)
    C0 := s.C1
    C1 := s.C0
    D0 := _mm256_permute4x64_epi64 (_mm256_blend_epi32 s.D0 s.D1 0xCC) (_MM_SHUFFLE 2 3 0 1)
    D1 := _mm256_permute4x64_epi64 (_mm256_blend_epi32 s.D0 s.D1 0x33) (_MM_SHUFFLE 2 3 0 1) }

/-- mirrors src/3rdparty/argon2/arch/x86_64/lib/argon2-avx2.c:120-136 -/
def UNDIAGONALIZE2 (s : Octet M256) : Octet M256 :=
  { s with
    B0 := _mm256_permute4x64_epi64 (_mm256_blend_epi32 s.B0 s.B1 0xCC) (_MM_SHUFFLE 2 3 0 1)
    B1 := _mm256_permute4x64_epi64 (_mm256_blend_epi32 s.B0 s.B1 0x33) (_MM_SHUFFLE 2 3 0 1)
    C0 := s.C1
    C1 := s.C0
    D1 := _mm256_permute4x64_epi64 (_mm256_blend_epi32 s.D0 s.D1 0xCC) (_MM_SHUFFLE 2 3 0 1)
    D0 := _mm256_permute4x64_epi64 (_mm256_blend_epi32 s.D0 s.D1 0x33) (_MM_SHUFFLE 2 3 0 1) }

/-- With the arguments `A0, B0, C0, D0, A1, B1, C1, D1`. -/
def Octet.ofRows {R : Type} (x : Fin 8 → R) : Octet R := ⟨x 0, x 1, x 2, x 3, x 4, x 5, x 6, x 7⟩

def Octet.toRows {R : Type} (s : Octet R) : Fin 8 → R :=
  ![s.A0, s.B0, s.C0, s.D0, s.A1, s.B1, s.C1, s.D1]

theorem Octet.toRows_ofRows {R : Type} (x : Fin 8 → R) : (Octet.ofRows x).toRows = x := by
  funext i
  cases i using eight_cases <;> rfl

/-- mirrors src/3rdparty/argon2/arch/x86_64/lib/argon2-avx2.c:138-149 -/
def BLAKE2_ROUND1_avx2 (x : Fin 8 → M256) : Fin 8 → M256 :=
  (round avx2 DIAGONALIZE1 UNDIAGONALIZE1 (Octet.ofRows x)).toRows

/-- mirrors src/3rdparty/argon2/arch/x86_64/lib/argon2-avx2.c:151-162 -/
def BLAKE2_ROUND2_avx2 (x : Fin 8 → M256) : Fin 8 → M256 :=
  (round avx2 DIAGONALIZE2 UNDIAGONALIZE2 (Octet.ofPairs x)).toPairs

/-- A line in each of the two registers. -/
def wholes : Place (Fin 2) 4 := fun k i => (k = 1, i)

theorem reg_lt (k : Fin 2) (n : Fin 16) : 4 * k.val + n.val / 4 < 8 := by omega

theorem lane_lt (n : Fin 16) : n.val % 4 < 4 := by omega

def reg256₁ (k : Fin 2) (n : Fin 16) : Fin 8 := ⟨4 * k.val + n.val / 4, reg_lt k n⟩

def lane256₁ (_ : Fin 2) (n : Fin 16) : Fin 4 := ⟨n.val % 4, lane_lt n⟩

/-- The halves of both registers. -/
def quarters : Place (Fin 2) 4 := fun k =>
  if k = 0 then ![(false, 0), (false, 1), (true, 0), (true, 1)]
  else ![(false, 2), (false, 3), (true, 2), (true, 3)]

theorem pair_lt (k : Fin 2) (n : Fin 16) : 2 * k.val + n.val % 2 < 4 := by omega

def reg256₂ (_ : Fin 2) (n : Fin 16) : Fin 8 := ⟨n.val / 2, half_lt n⟩

def lane256₂ (k : Fin 2) (n : Fin 16) : Fin 4 := ⟨2 * k.val + n.val % 2, pair_lt k n⟩

theorem BLAKE2_ROUND1_avx2_eq (x : Fin 8 → M256) (k : Fin 2) (n : Fin 16) :
    avx2.word (BLAKE2_ROUND1_avx2 x (reg256₁ k n)) (lane256₁ k n) =
      P (fun m => avx2.word (x (reg256₁ k m)) (lane256₁ k m)) n := by
  refine round_words avx2 wholes (lines_round avx2 wholes (fun s k => ?_) fun s k => ?_)
    Octet.toRows_ofRows (fun s k n => ?_) x k n
  · simp only [lines, Rows.diagonalize]
    congr 1 <;> funext i <;> cases k using two_cases <;> cases i using four_cases <;> rfl
  · simp only [lines, Rows.undiagonalize]
    congr 1 <;> funext i <;> cases k using two_cases <;> cases i using four_cases <;> rfl
  · cases k using two_cases <;> cases n using Blake2b.sixteen_cases <;> rfl

theorem blend_CC (x y : M256) :
    _mm256_blend_epi32 x y 0xCC = ⟨⟨x.lo.lo, y.lo.hi⟩, ⟨x.hi.lo, y.hi.hi⟩⟩ := by
  have h (x y : M128) : x.blend y 12 = ⟨x.lo, y.hi⟩ :=
    congrArg₂ M128.mk (L1.Blake2b.dwords_cat x.lo) (L1.Blake2b.dwords_cat y.hi)
  exact congrArg₂ M256.mk (h x.lo y.lo) (h x.hi y.hi)

theorem blend_33 (x y : M256) :
    _mm256_blend_epi32 x y 0x33 = ⟨⟨y.lo.lo, x.lo.hi⟩, ⟨y.hi.lo, x.hi.hi⟩⟩ :=
  congrArg₂ M256.mk (L1.Blake2b.blend_low x.lo y.lo) (L1.Blake2b.blend_low x.hi y.hi)

theorem BLAKE2_ROUND2_avx2_eq (x : Fin 8 → M256) (k : Fin 2) (n : Fin 16) :
    avx2.word (BLAKE2_ROUND2_avx2 x (reg256₂ k n)) (lane256₂ k n) =
      P (fun m => avx2.word (x (reg256₂ k m)) (lane256₂ k m)) n := by
  refine round_words avx2 quarters (lines_round avx2 quarters (fun s k => ?_) fun s k => ?_)
    Octet.toPairs_ofPairs (fun s k n => ?_) x k n
  · simp only [lines, DIAGONALIZE2, blend_CC, blend_33, Rows.diagonalize]
    congr 1 <;> funext i <;> cases k using two_cases <;> cases i using four_cases <;> rfl
  · simp only [lines, UNDIAGONALIZE2, blend_CC, blend_33, Rows.undiagonalize]
    congr 1 <;> funext i <;> cases k using two_cases <;> cases i using four_cases <;> rfl
  · cases k using two_cases <;> cases n using Blake2b.sixteen_cases <;> rfl

/-! ## Eight words -/

/-- `__m512i`, as its two halves. -/
structure M512 where
  lo : M256
  hi : M256

def M512.word (x : M512) : Fin 8 → W :=
  ![x.lo.lo.lo, x.lo.lo.hi, x.lo.hi.lo, x.lo.hi.hi, x.hi.lo.lo, x.hi.lo.hi, x.hi.hi.lo, x.hi.hi.hi]

def M512.ofWords (v : Fin 8 → W) : M512 :=
  ⟨⟨⟨v 0, v 1⟩, ⟨v 2, v 3⟩⟩, ⟨⟨v 4, v 5⟩, ⟨v 6, v 7⟩⟩⟩

theorem M512.word_ofWords (v : Fin 8 → W) : (ofWords v).word = v := by
  funext i
  cases i using eight_cases <;> rfl

/-- The four parts of 128 bits. -/
def M512.part (x : M512) (i : Nat) : M128 :=
  match i with
  | 0 => x.lo.lo
  | 1 => x.lo.hi
  | 2 => x.hi.lo
  | _ => x.hi.hi

def _mm512_add_epi64 (x y : M512) : M512 :=
  ⟨_mm256_add_epi64 x.lo y.lo, _mm256_add_epi64 x.hi y.hi⟩

def _mm512_xor_si512 (x y : M512) : M512 :=
  ⟨_mm256_xor_si256 x.lo y.lo, _mm256_xor_si256 x.hi y.hi⟩

def _mm512_mul_epu32 (x y : M512) : M512 :=
  ⟨_mm256_mul_epu32 x.lo y.lo, _mm256_mul_epu32 x.hi y.hi⟩

def _mm512_ror_epi64 (x : M512) (n : Nat) : M512 :=
  .ofWords fun i => (x.word i).rotateRight n

def _mm512_permutex_epi64 (x : M512) (imm : Nat) : M512 :=
  ⟨_mm256_permute4x64_epi64 x.lo imm, _mm256_permute4x64_epi64 x.hi imm⟩

def _mm512_permutexvar_epi64 (idx : Fin 8 → Fin 8) (x : M512) : M512 :=
  .ofWords fun i => x.word (idx i)

/-- Two parts of the first, and two of the second. -/
def _mm512_shuffle_i64x2 (x y : M512) (imm : Nat) : M512 :=
  ⟨⟨x.part (imm % 4), x.part ((imm >>> 2) % 4)⟩,
    ⟨y.part ((imm >>> 4) % 4), y.part ((imm >>> 6) % 4)⟩⟩

/-- mirrors src/3rdparty/argon2/arch/x86_64/lib/argon2-avx512f.c:13 -/
def ror64 (n : Nat) (x : M512) : M512 := _mm512_ror_epi64 x n

def avx512f : Simd M512 8 where
  word := M512.word
  loadu := M512.ofWords
  add_epi64 := _mm512_add_epi64
  xor := _mm512_xor_si512
  mul_epu32 := _mm512_mul_epu32
  ror64_32 := ror64 32
  ror64_24 := ror64 24
  ror64_16 := ror64 16
  ror64_63 := ror64 63
  word_loadu := M512.word_ofWords
  word_add x y i := by cases i using eight_cases <;> rfl
  word_xor x y i := by cases i using eight_cases <;> rfl
  word_mul x y i := by cases i using eight_cases <;> exact epu32_eq _ _
  word_32 _ _ := congrFun (M512.word_ofWords _) _
  word_24 _ _ := congrFun (M512.word_ofWords _) _
  word_16 _ _ := congrFun (M512.word_ofWords _) _
  word_63 _ _ := congrFun (M512.word_ofWords _) _

/-- mirrors src/3rdparty/argon2/arch/x86_64/lib/argon2-avx512f.c:63-73 -/
def DIAGONALIZE_avx512f (s : Octet M512) : Octet M512 :=
  { s with
    B0 := _mm512_permutex_epi64 s.B0 (_MM_SHUFFLE 0 3 2 1)
    B1 := _mm512_permutex_epi64 s.B1 (_MM_SHUFFLE 0 3 2 1)
    C0 := _mm512_permutex_epi64 s.C0 (_MM_SHUFFLE 1 0 3 2)
    C1 := _mm512_permutex_epi64 s.C1 (_MM_SHUFFLE 1 0 3 2)
    D0 := _mm512_permutex_epi64 s.D0 (_MM_SHUFFLE 2 1 0 3)
    D1 := _mm512_permutex_epi64 s.D1 (_MM_SHUFFLE 2 1 0 3) }

/-- mirrors src/3rdparty/argon2/arch/x86_64/lib/argon2-avx512f.c:75-85 -/
def UNDIAGONALIZE_avx512f (s : Octet M512) : Octet M512 :=
  { s with
    B0 := _mm512_permutex_epi64 s.B0 (_MM_SHUFFLE 2 1 0 3)
    B1 := _mm512_permutex_epi64 s.B1 (_MM_SHUFFLE 2 1 0 3)
    C0 := _mm512_permutex_epi64 s.C0 (_MM_SHUFFLE 1 0 3 2)
    C1 := _mm512_permutex_epi64 s.C1 (_MM_SHUFFLE 1 0 3 2)
    D0 := _mm512_permutex_epi64 s.D0 (_MM_SHUFFLE 0 3 2 1)
    D1 := _mm512_permutex_epi64 s.D1 (_MM_SHUFFLE 0 3 2 1) }

/-- mirrors src/3rdparty/argon2/arch/x86_64/lib/argon2-avx512f.c:87-98 -/
def BLAKE2_ROUND_avx512f : Octet M512 → Octet M512 :=
  round avx512f DIAGONALIZE_avx512f UNDIAGONALIZE_avx512f

/-- mirrors src/3rdparty/argon2/arch/x86_64/lib/argon2-avx512f.c:100-107 -/
def SWAP_HALVES (p : M512 × M512) : M512 × M512 :=
  (_mm512_shuffle_i64x2 p.1 p.2 (_MM_SHUFFLE 1 0 1 0),
    _mm512_shuffle_i64x2 p.1 p.2 (_MM_SHUFFLE 3 2 3 2))

def quartersIdx : Fin 8 → Fin 8 := ![0, 1, 4, 5, 2, 3, 6, 7]

/-- mirrors src/3rdparty/argon2/arch/x86_64/lib/argon2-avx512f.c:109-114 -/
def SWAP_QUARTERS (p : M512 × M512) : M512 × M512 :=
  let p := SWAP_HALVES p
  (_mm512_permutexvar_epi64 quartersIdx p.1, _mm512_permutexvar_epi64 quartersIdx p.2)

/-- mirrors src/3rdparty/argon2/arch/x86_64/lib/argon2-avx512f.c:116-121 -/
def UNSWAP_QUARTERS (p : M512 × M512) : M512 × M512 :=
  SWAP_HALVES
    (_mm512_permutexvar_epi64 quartersIdx p.1, _mm512_permutexvar_epi64 quartersIdx p.2)

/-- With the arguments `A0, C0, B0, D0, A1, C1, B1, D1`. -/
def load1 (x : Fin 8 → M512) : Octet M512 :=
  let ab0 := SWAP_HALVES (x 0, x 2)
  let cd0 := SWAP_HALVES (x 1, x 3)
  let ab1 := SWAP_HALVES (x 4, x 6)
  let cd1 := SWAP_HALVES (x 5, x 7)
  ⟨ab0.1, ab0.2, cd0.1, cd0.2, ab1.1, ab1.2, cd1.1, cd1.2⟩

def store1 (s : Octet M512) : Fin 8 → M512 :=
  let ab0 := SWAP_HALVES (s.A0, s.B0)
  let cd0 := SWAP_HALVES (s.C0, s.D0)
  let ab1 := SWAP_HALVES (s.A1, s.B1)
  let cd1 := SWAP_HALVES (s.C1, s.D1)
  ![ab0.1, cd0.1, ab0.2, cd0.2, ab1.1, cd1.1, ab1.2, cd1.2]

/-- With the arguments `A0, A1, B0, B1, C0, C1, D0, D1`. -/
def load2 (x : Fin 8 → M512) : Octet M512 :=
  let a := SWAP_QUARTERS (x 0, x 1)
  let b := SWAP_QUARTERS (x 2, x 3)
  let c := SWAP_QUARTERS (x 4, x 5)
  let d := SWAP_QUARTERS (x 6, x 7)
  ⟨a.1, b.1, c.1, d.1, a.2, b.2, c.2, d.2⟩

def store2 (s : Octet M512) : Fin 8 → M512 :=
  let a := UNSWAP_QUARTERS (s.A0, s.A1)
  let b := UNSWAP_QUARTERS (s.B0, s.B1)
  let c := UNSWAP_QUARTERS (s.C0, s.C1)
  let d := UNSWAP_QUARTERS (s.D0, s.D1)
  ![a.1, a.2, b.1, b.2, c.1, c.2, d.1, d.2]

/-- mirrors src/3rdparty/argon2/arch/x86_64/lib/argon2-avx512f.c:123-134 -/
def BLAKE2_ROUND1_avx512f (x : Fin 8 → M512) : Fin 8 → M512 :=
  store1 (BLAKE2_ROUND_avx512f (load1 x))

/-- mirrors src/3rdparty/argon2/arch/x86_64/lib/argon2-avx512f.c:136-147 -/
def BLAKE2_ROUND2_avx512f (x : Fin 8 → M512) : Fin 8 → M512 :=
  store2 (BLAKE2_ROUND_avx512f (load2 x))

theorem eighth_lt (k i : Fin 4) : 4 * (k.val % 2) + i.val < 8 := by omega

/-- Two lines in each of the two registers. -/
def eighths : Place (Fin 4) 8 := fun k i => (2 ≤ k, ⟨4 * (k.val % 2) + i.val, eighth_lt k i⟩)

theorem reg512_lt (k : Fin 4) (n : Fin 16) : 2 * k.val + n.val / 8 < 8 := by omega

theorem lane512_lt (n : Fin 16) : n.val % 8 < 8 := by omega

theorem pair512_lt (k : Fin 4) (n : Fin 16) : 2 * k.val + n.val % 2 < 8 := by omega

def reg512₁ (k : Fin 4) (n : Fin 16) : Fin 8 := ⟨2 * k.val + n.val / 8, reg512_lt k n⟩

def lane512₁ (_ : Fin 4) (n : Fin 16) : Fin 8 := ⟨n.val % 8, lane512_lt n⟩

def reg512₂ (_ : Fin 4) (n : Fin 16) : Fin 8 := ⟨n.val / 2, half_lt n⟩

def lane512₂ (k : Fin 4) (n : Fin 16) : Fin 8 := ⟨2 * k.val + n.val % 2, pair512_lt k n⟩

theorem lines_avx512f (s : Octet M512) (k : Fin 4) :
    lines avx512f eighths (BLAKE2_ROUND_avx512f s) k = permute (lines avx512f eighths s k) := by
  refine lines_round avx512f eighths (fun s k => ?_) (fun s k => ?_) s k
  · simp only [lines, Rows.diagonalize]
    congr 1 <;> funext i <;> cases k using four_cases <;> cases i using four_cases <;> rfl
  · simp only [lines, Rows.undiagonalize]
    congr 1 <;> funext i <;> cases k using four_cases <;> cases i using four_cases <;> rfl

theorem BLAKE2_ROUND1_avx512f_eq (x : Fin 8 → M512) (k : Fin 4) (n : Fin 16) :
    avx512f.word (BLAKE2_ROUND1_avx512f x (reg512₁ k n)) (lane512₁ k n) =
      P (fun m => avx512f.word (x (reg512₁ k m)) (lane512₁ k m)) n := by
  refine round_words avx512f eighths lines_avx512f (fun x => ?_) (fun s k n => ?_) x k n
  · funext i
    cases i using eight_cases <;> rfl
  · cases k using four_cases <;> cases n using Blake2b.sixteen_cases <;> rfl

theorem BLAKE2_ROUND2_avx512f_eq (x : Fin 8 → M512) (k : Fin 4) (n : Fin 16) :
    avx512f.word (BLAKE2_ROUND2_avx512f x (reg512₂ k n)) (lane512₂ k n) =
      P (fun m => avx512f.word (x (reg512₂ k m)) (lane512₂ k m)) n := by
  refine round_words avx512f eighths lines_avx512f (fun x => ?_) (fun s k n => ?_) x k n
  · funext i
    cases i using eight_cases <;> rfl
  · cases k using four_cases <;> cases n using Blake2b.sixteen_cases <;> rfl

end Rxs.L2.Argon2
