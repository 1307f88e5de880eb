import Mathlib.Data.Int.Bitwise
import Rxs.Core.Limbs
import Rxs.L2Machine.Signatures

/-!
# Scalars modulo the order of the base point

Numbers of 32 bytes in limbs of 21 bits. A product has 24 limbs; those from the twelfth on are
folded onto the lower ones, for `2 ^ 252` is the order but for a number of six limbs, with
carries between. `none` is a sum, a product or a shift that overflows.

The programs have certificates, which say that nothing overflows and what the limbs are in the
end: digits, and a sign that counts the order.

* `narrow_eq`, `wide_eq`: the limbs that are loaded are digits.
* `store_eq`: the bytes of digits.
* `finish_run`: twelve limbs come to the bytes of their number modulo the order.
* `sum_columns`: the columns of a product.
* `signs_eq`: the comparison with the order, by signs.
* **`scalars`**: the functions return the bytes of the exact number modulo the order.
* **`implements_withScalars`**: what signatures ask of the scalars.
-/
namespace Rxs.L2.Scalars

open Rxs.Core Limbs

/-! ## The code -/

/-- mirrors src/base/tools/cryptonote/crypto-ops.c:52-58 -/
def load_3 (s : Bytes) (i : Nat) : Nat := Bytes.readLE (Bytes.slice s i 3)

/-- mirrors src/base/tools/cryptonote/crypto-ops.c:60-68 -/
def load_4 (s : Bytes) (i : Nat) : Nat := Bytes.readLE (Bytes.slice s i 4)

/-- The limbs of 32 bytes.
mirrors src/base/tools/cryptonote/crypto-ops.c:2435-2446 -/
def narrow (s : Bytes) : List Nat :=
  [2097151 &&& load_3 s 0, 2097151 &&& load_4 s 2 >>> 5, 2097151 &&& load_3 s 5 >>> 2,
    2097151 &&& load_4 s 7 >>> 7, 2097151 &&& load_4 s 10 >>> 4, 2097151 &&& load_3 s 13 >>> 1,
    2097151 &&& load_4 s 15 >>> 6, 2097151 &&& load_3 s 18 >>> 3, 2097151 &&& load_3 s 21,
    2097151 &&& load_4 s 23 >>> 5, 2097151 &&& load_3 s 26 >>> 2, load_4 s 28 >>> 7]

/-- The limbs of 64 bytes.
mirrors src/base/tools/cryptonote/crypto-ops.c:1730-1753 -/
def wide (s : Bytes) : List Nat :=
  [2097151 &&& load_3 s 0, 2097151 &&& load_4 s 2 >>> 5, 2097151 &&& load_3 s 5 >>> 2,
    2097151 &&& load_4 s 7 >>> 7, 2097151 &&& load_4 s 10 >>> 4, 2097151 &&& load_3 s 13 >>> 1,
    2097151 &&& load_4 s 15 >>> 6, 2097151 &&& load_3 s 18 >>> 3, 2097151 &&& load_3 s 21,
    2097151 &&& load_4 s 23 >>> 5, 2097151 &&& load_3 s 26 >>> 2, 2097151 &&& load_4 s 28 >>> 7,
    2097151 &&& load_4 s 31 >>> 4, 2097151 &&& load_3 s 34 >>> 1, 2097151 &&& load_4 s 36 >>> 6,
    2097151 &&& load_3 s 39 >>> 3, 2097151 &&& load_3 s 42, 2097151 &&& load_4 s 44 >>> 5,
    2097151 &&& load_3 s 47 >>> 2, 2097151 &&& load_4 s 49 >>> 7, 2097151 &&& load_4 s 52 >>> 4,
    2097151 &&& load_3 s 55 >>> 1, 2097151 &&& load_4 s 57 >>> 6, load_4 s 60 >>> 3]

/-- Limb `i` of 32 bytes; the limbs above are zero. -/
def limb (s : Bytes) (i : Nat) : Int := (narrow s).getD i 0

def round (i : Nat) : Op := .carry i (2 ^ 20) 21 (i + 1) 1

def floor (i : Nat) : Op := .carry i 0 21 (i + 1) 1

/-- mirrors src/base/tools/cryptonote/crypto-ops.c:2475-2480 -/
def fold (k : Nat) : List Op :=
  [.add (k - 12) k 666643, .add (k - 11) k 470296, .add (k - 10) k 654183,
    .sub (k - 9) k 997805, .add (k - 8) k 136657, .sub (k - 7) k 683901]

/-- The carries of a product.
mirrors src/base/tools/cryptonote/crypto-ops.c:3267-3290 -/
def spread : List Op :=
  [0, 2, 4, 6, 8, 10, 12, 14, 16, 18, 20, 22].map round ++
    [1, 3, 5, 7, 9, 11, 13, 15, 17, 19, 21].map round

/-- mirrors src/base/tools/cryptonote/crypto-ops.c:1772-1868 -/
def foldHigh : List Op :=
  [23, 22, 21, 20, 19, 18].flatMap fold ++ [6, 8, 10, 12, 14, 16].map round ++
    [7, 9, 11, 13, 15].map round ++ [17, 16, 15, 14, 13, 12].flatMap fold ++ [.clear 12]

/-- mirrors src/base/tools/cryptonote/crypto-ops.c:2461-2481 -/
def foldLow : List Op :=
  [0, 2, 4, 6, 8, 10].map round ++ [1, 3, 5, 7, 9, 11].map round ++ fold 12 ++ [.clear 12]

/-- mirrors src/base/tools/cryptonote/crypto-ops.c:2483-2494 -/
def digits : List Op := (List.range 12).map floor

/-- mirrors src/base/tools/cryptonote/crypto-ops.c:2496-2513 -/
def subtract : List Op := fold 12 ++ (List.range 11).map floor

/-- What all the functions end with.
mirrors src/base/tools/cryptonote/crypto-ops.c:2461-2513 -/
def finish : List Op := foldLow ++ (digits ++ subtract)

def lowByte (x : Int) : UInt8 := UInt8.ofNat (x % 256).toNat

/-- The byte from bit `a` of a limb. -/
def byte (x : Int) (a : Nat) : UInt8 := lowByte (x >>> a)

/-- The byte from bit `a` of a limb, the next one in its last bits. -/
def join (x : Int) (a : Nat) (y : Int) (b : Nat) : UInt8 := lowByte (Int.lor (x >>> a) (y <<< b))

/-- mirrors src/base/tools/cryptonote/crypto-ops.c:2515-2546 -/
def store (s : List Int) : Bytes :=
  let s := fun i => s.getD i 0
  [byte (s 0) 0, byte (s 0) 8, join (s 0) 16 (s 1) 5,
    byte (s 1) 3, byte (s 1) 11, join (s 1) 19 (s 2) 2,
    byte (s 2) 6, join (s 2) 14 (s 3) 7, byte (s 3) 1,
    byte (s 3) 9, join (s 3) 17 (s 4) 4, byte (s 4) 4,
    byte (s 4) 12, join (s 4) 20 (s 5) 1, byte (s 5) 7,
    join (s 5) 15 (s 6) 6, byte (s 6) 2, byte (s 6) 10,
    join (s 6) 18 (s 7) 3, byte (s 7) 5, byte (s 7) 13,
    byte (s 8) 0, byte (s 8) 8, join (s 8) 16 (s 9) 5,
    byte (s 9) 3, byte (s 9) 11, join (s 9) 19 (s 10) 2,
    byte (s 10) 6, join (s 10) 14 (s 11) 7, byte (s 11) 1,
    byte (s 11) 9, byte (s 11) 17]

/-- The products of a column, `a0*b4 + a1*b3 + …`.
mirrors src/base/tools/cryptonote/crypto-ops.c:3575-3598 -/
def column (a b : Bytes) (k : Nat) : List (Int × Int) :=
  (List.range 12).filterMap fun i =>
    if i ≤ k ∧ k < i + 12 then some (limb a i, limb b (k - i)) else none

def sum (l : List (Int × Int)) : Option Int :=
  l.foldlM (fun t p => do fit 64 (t + (← fit 64 (p.1 * p.2)))) 0

/-- The limbs, the program and the bytes of a function. -/
def reduce (f : Nat → Option Int) (ops : List Op) : Option Bytes := do
  let s ← (List.range 24).mapM f
  let s ← run 64 ops s
  some (store s)

/-- mirrors src/base/tools/cryptonote/crypto-ops.c:2434-2547 -/
def sc_reduce32 (s : Bytes) : Option Bytes := reduce (fun i => some (limb s i)) finish

/-- mirrors src/base/tools/cryptonote/crypto-ops.c:1729-1956 -/
def sc_reduce (s : Bytes) : Option Bytes :=
  reduce (fun i => some ((wide s).getD i 0)) (foldHigh ++ finish)

/-- mirrors src/base/tools/cryptonote/crypto-ops.c:2549-2686 -/
def sc_add (a b : Bytes) : Option Bytes := reduce (fun i => fit 64 (limb a i + limb b i)) finish

/-- mirrors src/base/tools/cryptonote/crypto-ops.c:2688-2825 -/
def sc_sub (a b : Bytes) : Option Bytes := reduce (fun i => fit 64 (limb a i - limb b i)) finish

/-- mirrors src/base/tools/cryptonote/crypto-ops.c:3169-3476 -/
def sc_mul (a b : Bytes) : Option Bytes :=
  reduce (fun k => sum (column a b k)) (spread ++ (foldHigh ++ finish))

/-- mirrors src/base/tools/cryptonote/crypto-ops.c:3490-3809 -/
def sc_muladd (a b c : Bytes) : Option Bytes :=
  reduce (fun k => do fit 64 (limb c k + (← sum (column a b k)))) (spread ++ (foldHigh ++ finish))

/-- mirrors src/base/tools/cryptonote/crypto-ops.c:2838-3157 -/
def sc_mulsub (a b c : Bytes) : Option Bytes :=
  reduce (fun k => do fit 64 (limb c k - (← sum (column a b k)))) (spread ++ (foldHigh ++ finish))

/-- mirrors src/base/tools/cryptonote/crypto-ops.c:3811-3813 -/
def signum (a : Int) : Int := if a > 0 then 1 else if a < 0 then -1 else 0

/-- mirrors src/base/tools/cryptonote/crypto-ops.c:3815-3825 -/
def sc_check (s : Bytes) : Int :=
  let s := fun i => (load_4 s (4 * i) : Int)
  (signum (1559614444 - s 0) + signum (1477600026 - s 1) <<< (1 : Nat) +
    signum (2734136534 - s 2) <<< (2 : Nat) + signum (350157278 - s 3) <<< (3 : Nat) + signum (-s 4) <<< (4 : Nat) +
    signum (-s 5) <<< (5 : Nat) + signum (-s 6) <<< (6 : Nat) + signum (268435456 - s 7) <<< (7 : Nat)) >>> (8 : Nat)

/-! ## Limbs and bytes -/

theorem slice_eq_le {s : Bytes} {i k : Nat} (h : i + k ≤ s.length) :
    Bytes.slice s i k = Bytes.le k (Bytes.readLE s / 256 ^ i) := by
  obtain ⟨r, hr⟩ : ∃ r, s.length = i + (k + r) := ⟨s.length - i - k, by omega⟩
  have hs := Bytes.le_readLE s
  rw [hr, Bytes.le_add, Bytes.le_add] at hs
  rw [Bytes.slice]
  conv_lhs => rw [← hs]
  rw [List.drop_left' (Bytes.length_le _ _), List.take_left' (Bytes.length_le _ _)]

theorem readLE_slice {s : Bytes} {i k : Nat} (h : i + k ≤ s.length) :
    Bytes.readLE (Bytes.slice s i k) = Bytes.readLE s / 256 ^ i % 256 ^ k := by
  rw [slice_eq_le h, Bytes.readLE_le]

/-- A part of a load is a part of the number. -/
theorem load_shift {s : Bytes} {i k t w : Nat} (h : i + k ≤ s.length) (ht : t + w ≤ 8 * k) :
    Bytes.readLE (Bytes.slice s i k) >>> t % 2 ^ w =
      Bytes.readLE s / 2 ^ (8 * i + t) % 2 ^ w := by
  have hpow (n : Nat) : 256 ^ n = 2 ^ (8 * n) := (Nat.pow_mul 2 8 n).symm
  rw [readLE_slice h, hpow, hpow]
  apply Nat.eq_of_testBit_eq
  intro j
  simp only [Nat.testBit_mod_two_pow, Nat.testBit_shiftRight, Nat.testBit_div_two_pow]
  by_cases hj : j < w
  · have hlow : t + j < 8 * k := by omega
    have hplace : t + j + 8 * i = j + (8 * i + t) := by omega
    simp only [hj, hlow, hplace, decide_true, Bool.true_and]
  · simp only [hj, decide_false, Bool.false_and]

theorem mask_shift {s : Bytes} {i k t : Nat} (h : i + k ≤ s.length) (ht : t + 21 ≤ 8 * k) :
    2097151 &&& Bytes.readLE (Bytes.slice s i k) >>> t =
      Bytes.readLE s / 2 ^ (8 * i + t) % 2 ^ 21 := by
  rw [← load_shift h ht, Nat.and_comm]
  exact Nat.and_two_pow_sub_one_eq_mod _ 21

theorem mask_load {s : Bytes} {i k : Nat} (h : i + k ≤ s.length) (hk : 21 ≤ 8 * k) :
    2097151 &&& Bytes.readLE (Bytes.slice s i k) = Bytes.readLE s / 2 ^ (8 * i) % 2 ^ 21 :=
  mask_shift (t := 0) h (by omega)

/-- What is above the last mask. -/
theorem load_last {s : Bytes} {i k t n : Nat} (h : i + k = s.length) (hn : 8 * i + t = n) :
    Bytes.readLE (Bytes.slice s i k) >>> t = Bytes.readLE s / 2 ^ n := by
  have hlt : Bytes.readLE s / 256 ^ i < 256 ^ k := by
    have := Bytes.readLE_lt s
    rw [← h, Nat.pow_add] at this
    exact Nat.div_lt_of_lt_mul this
  rw [readLE_slice (Nat.le_of_eq h), Nat.mod_eq_of_lt hlt, Nat.shiftRight_eq_div_pow,
    Nat.div_div_eq_div_mul, ← hn, Nat.pow_add, Nat.pow_mul]

/-- The limbs of 32 bytes are digits of their number. -/
theorem narrow_eq {s : Bytes} (h : s.length = 32) : narrow s = digitsOf 21 11 (Bytes.readLE s) := by
  have hlast : load_4 s 28 >>> 7 = Bytes.readLE s / 2 ^ (21 * 11) := load_last h.symm rfl
  rw [narrow, digitsOf, hlast]
  generalize Bytes.readLE s / 2 ^ (21 * 11) = x
  simp (disch := omega) only [load_3, load_4, mask_load, mask_shift]
  rfl

theorem wide_eq {s : Bytes} (h : s.length = 64) : wide s = digitsOf 21 23 (Bytes.readLE s) := by
  have hlast : load_4 s 60 >>> 3 = Bytes.readLE s / 2 ^ (21 * 23) := load_last h.symm rfl
  have hrange : List.range 23 = [0, 1, 2, 3, 4, 5, 6, 7, 8, 9, 10, 11, 12, 13, 14, 15, 16, 17, 18,
    19, 20, 21, 22] := rfl
  rw [wide, digitsOf, hlast]
  generalize Bytes.readLE s / 2 ^ (21 * 23) = x
  simp (disch := omega) only [load_3, load_4, mask_load, mask_shift, hrange, List.map_cons,
    List.map_nil, List.cons_append, List.nil_append, Nat.reduceMul, Nat.reduceAdd, -Nat.reducePow]

/-! ### The bytes of the digits -/

theorem le_eq_map (k n : Nat) : Bytes.le k n = (List.range k).map fun i => UInt8.ofNat (n / 256 ^ i) := by
  induction k generalizing n with
  | zero => rfl
  | succ k ih =>
    rw [Bytes.le, List.range_succ_eq_map, List.map_cons, List.map_map, ih, Nat.pow_zero, Nat.div_one]
    congr 1
    refine List.map_congr_left fun i _ => ?_
    rw [Function.comp_apply, Nat.div_div_eq_div_mul, Nat.pow_succ']

theorem lowByte_natCast (n : Nat) : lowByte n = UInt8.ofNat n := by
  apply UInt8.toNat_inj.mp
  rw [lowByte, UInt8.toNat_ofNat', UInt8.toNat_ofNat']
  omega

theorem byte_eq {x N i k a w : Nat} (hx : x % 2 ^ w = N / 2 ^ (21 * i) % 2 ^ w)
    (hk : 8 * k = 21 * i + a) (ha : a + 8 ≤ w) : byte x a = UInt8.ofNat (N / 256 ^ k) := by
  have hnat : byte x a = lowByte ((x >>> a : Nat) : Int) := rfl
  rw [hnat, lowByte_natCast]
  apply UInt8.toNat_inj.mp
  rw [UInt8.toNat_ofNat', UInt8.toNat_ofNat']
  apply Nat.eq_of_testBit_eq
  intro j
  have hpow : 256 ^ k = 2 ^ (21 * i + a) := by rw [← hk, Nat.pow_mul]
  rw [hpow]
  simp only [Nat.testBit_mod_two_pow, Nat.testBit_shiftRight, Nat.testBit_div_two_pow]
  by_cases hj : j < 8
  · have hbit := congrArg (Nat.testBit · (a + j)) hx
    have hlt : a + j < w := by omega
    have hplace : a + j + 21 * i = j + (21 * i + a) := by omega
    simp only [Nat.testBit_mod_two_pow, Nat.testBit_div_two_pow, hlt, hplace, decide_true,
      Bool.true_and] at hbit
    rw [hbit]
  · simp only [hj, decide_false, Bool.false_and]

theorem join_eq {x y N i k a b : Nat} (hx : x = N / 2 ^ (21 * i) % 2 ^ 21)
    (hy : y % 2 ^ 21 = N / 2 ^ (21 * (i + 1)) % 2 ^ 21) (hk : 8 * k = 21 * i + a)
    (hab : a + b = 21) : join x a y b = UInt8.ofNat (N / 256 ^ k) := by
  have hnat : join x a y b = lowByte ((x >>> a ||| y <<< b : Nat) : Int) := rfl
  rw [hnat, lowByte_natCast]
  apply UInt8.toNat_inj.mp
  rw [UInt8.toNat_ofNat', UInt8.toNat_ofNat']
  apply Nat.eq_of_testBit_eq
  intro j
  have hpow : 256 ^ k = 2 ^ (21 * i + a) := by rw [← hk, Nat.pow_mul]
  rw [hpow, hx]
  simp only [Nat.testBit_mod_two_pow, Nat.testBit_or, Nat.testBit_shiftRight,
    Nat.testBit_shiftLeft, Nat.testBit_div_two_pow]
  by_cases hj : a + j < 21
  · -- a bit of the lower limb
    have hlt : ¬ b ≤ j := by omega
    have hplace : a + j + 21 * i = j + (21 * i + a) := by omega
    simp only [hj, hlt, hplace, decide_true, decide_false, Bool.true_and,
      Bool.false_and, Bool.or_false]
  · have hlt : b ≤ j := by omega
    have hplace : j - b + 21 * (i + 1) = j + (21 * i + a) := by omega
    have hbit := congrArg (Nat.testBit · (j - b)) hy
    by_cases h8 : j < 8
    · have hlow : j - b < 21 := by omega
      simp only [Nat.testBit_mod_two_pow, Nat.testBit_div_two_pow, hlow, hplace, decide_true,
        Bool.true_and] at hbit
      simp only [hj, hlt, hbit, decide_true, decide_false, Bool.true_and,
        Bool.false_and, Bool.false_or]
    · simp only [h8, decide_false, Bool.false_and]

/-- The bytes of twelve digits are those of the number. -/
theorem store_eq {s : List Int} {f : Nat → Nat} {N : Nat} (h : ∀ i < 12, s.getD i 0 = f i)
    (hf : ∀ i < 11, f i = N / 2 ^ (21 * i) % 2 ^ 21) (hlast : f 11 = N / 2 ^ (21 * 11)) :
    store s = Bytes.le 32 N := by
  have hmod {i : Nat} (hi : i < 12) : f i % 2 ^ 21 = N / 2 ^ (21 * i) % 2 ^ 21 := by
    rcases Nat.lt_or_ge i 11 with hlt | hge
    · rw [hf i hlt, Nat.mod_mod]
    · rw [show i = 11 by omega, hlast]
  rw [le_eq_map]
  generalize hg : (fun i => UInt8.ofNat (N / 256 ^ i)) = g
  have hone {i a : Nat} (k : Nat) (hi : i < 12) (hk : 8 * k = 21 * i + a) (ha : a + 8 ≤ 21) :
      byte (f i) a = g k := by
    rw [← hg]
    exact byte_eq (hmod hi) hk ha
  have htwo {i a b : Nat} (k : Nat) (hi : i < 11) (hk : 8 * k = 21 * i + a) (hab : a + b = 21) :
      join (f i) a (f (i + 1)) b = g k := by
    rw [← hg]
    exact join_eq (hf i hi) (hmod (Nat.succ_lt_succ hi)) hk hab
  have htop : byte (f 11) 17 = g 31 := by
    rw [← hg]
    exact byte_eq (w := 25) (congrArg (· % 2 ^ 25) hlast) (by decide) (by decide)
  have hrange : List.range 32 = [0, 1, 2, 3, 4, 5, 6, 7, 8, 9, 10, 11, 12, 13, 14, 15, 16, 17, 18,
    19, 20, 21, 22, 23, 24, 25, 26, 27, 28, 29, 30, 31] := rfl
  simp only [store, hrange, List.map_cons, List.map_nil, h 0 (by decide), h 1 (by decide),
    h 2 (by decide), h 3 (by decide), h 4 (by decide), h 5 (by decide), h 6 (by decide),
    h 7 (by decide), h 8 (by decide), h 9 (by decide), h 10 (by decide), h 11 (by decide)]
  rw [hone 0, hone 1, htwo 2, hone 3, hone 4, htwo 5, hone 6, htwo 7, hone 8, hone 9, htwo 10,
    hone 11, hone 12, htwo 13, hone 14, htwo 15, hone 16, hone 17, htwo 18, hone 19, hone 20,
    hone 21, hone 22, htwo 23, hone 24, hone 25, htwo 26, hone 27, htwo 28, hone 29, hone 30, htop]
  all_goals decide

/-! ## The programs -/

def weight (i : Nat) : Int := (2 ^ (21 * i) : Nat)

def within (n : Nat) : Range := ⟨-(2 ^ n : Nat), (2 ^ n : Nat)⟩

/-- The columns of a product. -/
def columns : List Limb := limbs 24 (fun i => if i < 23 then within 54 else ⟨0, 0⟩) weight

/-- Limbs that are small enough to be folded. -/
def spreadOut : List Limb := limbs 24 (fun _ => within 34) weight

/-- A limb that was folded has no weight. -/
def lowWeight (i : Nat) : Int := if i ≤ 12 then weight i else 0

/-- The limbs that the functions come to. -/
def low : List Limb :=
  limbs 24 (fun i => if i < 12 then within 56 else if i = 12 then ⟨0, 0⟩ else within 62) lowWeight

/-- Twelve limbs of a number below `2 ^ 252`, up to the sign. -/
def folded : List Limb :=
  limbs 24 (fun i => if i < 6 then within 56 else if i < 11 then within 36 else
    if i = 11 then within 20 else if i = 12 then ⟨0, 0⟩ else within 62) lowWeight

/-- Digits; the twelfth is the sign. -/
def signed : List Limb :=
  limbs 24 (fun i => if i < 12 then ⟨0, 2 ^ 21 - 1⟩ else if i = 12 then ⟨-1, 0⟩ else within 62)
    lowWeight

/-- The sign counts the order. -/
def reduced : List Limb :=
  limbs 24 (fun i => if i < 11 then ⟨0, 2 ^ 21 - 1⟩ else if i = 11 then ⟨-1, 2 ^ 21⟩ else
    if i = 12 then ⟨-1, 0⟩ else within 62)
    fun i => if i = 12 then Signing.order else lowWeight i

/-- The certificates, of which each takes up what the one before leaves. -/
theorem certified : Certified 0 64 weight spread columns spreadOut ∧
    Certified Signing.order 64 weight foldHigh spreadOut low ∧
    Certified Signing.order 64 weight foldLow low folded ∧
    Certified 0 64 weight digits folded signed ∧
    Certified 0 64 weight subtract signed reduced := by
  decide +kernel

/-- The bytes of a number modulo the order. -/
def encode (n : Int) : Bytes := Bytes.le 32 (n % Signing.order).toNat

/-- The limbs, the last of which counts for itself. -/
theorem value_twelve {range : Nat → Range} {w : Nat → Int} (hw : ∀ i < 12, w i = weight i)
    (h0 : ∀ i, 12 < i → w i = 0) {s : List Int} (h : s.length = 24) :
    value (limbs 24 range w) s =
      ∑ i ∈ Finset.range 12, weight i * s.getD i 0 + w 12 * s.getD 12 0 := by
  rw [value_limbs _ _ h, show 24 = 13 + 11 from rfl, Finset.sum_range_add, Finset.sum_range_succ]
  have hhigh : ∑ i ∈ Finset.range 11, w (13 + i) * s.getD (13 + i) 0 = 0 :=
    Finset.sum_eq_zero fun i _ => by rw [h0 (13 + i) (by omega), Int.zero_mul]
  have hlow : ∑ i ∈ Finset.range 12, w i * s.getD i 0 =
      ∑ i ∈ Finset.range 12, weight i * s.getD i 0 :=
    Finset.sum_congr rfl fun i hi => by rw [hw i (Finset.mem_range.mp hi)]
  rw [hhigh, hlow, Int.add_zero]

theorem lowWeight_lt {i : Nat} (hi : i < 12) : lowWeight i = weight i :=
  if_pos (Nat.le_of_lt hi)

theorem lowWeight_zero {i : Nat} (hi : 12 < i) : lowWeight i = 0 := if_neg (Nat.not_le.mpr hi)

/-- Limbs that are not negative. -/
theorem sum_toNat {s : List Int} {n : Nat} (h : ∀ i < n, 0 ≤ s.getD i 0) :
    ∑ i ∈ Finset.range n, weight i * s.getD i 0 =
      (∑ i ∈ Finset.range n, 2 ^ (21 * i) * (s.getD i 0).toNat : Nat) := by
  rw [Nat.cast_sum]
  refine Finset.sum_congr rfl fun i hi => ?_
  rw [Nat.cast_mul, Int.toNat_of_nonneg (h i (Finset.mem_range.mp hi)), weight]

theorem toNat_digit {x : Int} (h : Range.Mem x ⟨0, 2 ^ 21 - 1⟩) : x.toNat < 2 ^ 21 := by
  have hle : x ≤ 2 ^ 21 - 1 := h.2
  omega

theorem value_signed {s : List Int} (h : Within signed s) : ∃ D : Nat, D < 2 ^ 252 ∧
    value signed s = D + weight 12 * s.getD 12 0 ∧ (s.getD 12 0 = 0 ∨ s.getD 12 0 = -1) := by
  obtain ⟨hlen, hmem⟩ := within_limbs.mp h
  have hdigit : ∀ i < 12, Range.Mem (s.getD i 0) ⟨0, 2 ^ 21 - 1⟩ := by
    intro i hi
    have hi24 := hmem i (by omega)
    rwa [if_pos hi] at hi24
  have hsign : Range.Mem (s.getD 12 0) ⟨-1, 0⟩ := hmem 12 (by decide)
  refine ⟨_, sum_digits_lt fun i hi => toNat_digit (hdigit i hi), ?_, ?_⟩
  · rw [signed, value_twelve (fun i hi => lowWeight_lt hi) (fun i hi => lowWeight_zero hi) hlen,
      sum_toNat fun i hi => (hdigit i hi).1]
    rfl
  · have hlo : -1 ≤ s.getD 12 0 := hsign.1
    have hhi : s.getD 12 0 ≤ 0 := hsign.2
    omega

theorem value_reduced {s : List Int} (h : Within reduced s)
    (hpos : Signing.order * s.getD 12 0 ≤ value reduced s) : ∃ N : Nat, store s = Bytes.le 32 N ∧
      value reduced s = N + Signing.order * s.getD 12 0 := by
  obtain ⟨hlen, hmem⟩ := within_limbs.mp h
  have hdigit : ∀ i < 11, Range.Mem (s.getD i 0) ⟨0, 2 ^ 21 - 1⟩ := by
    intro i hi
    have hi24 := hmem i (by omega)
    rwa [if_pos hi] at hi24
  have hvalue : value reduced s =
      ∑ i ∈ Finset.range 12, weight i * s.getD i 0 + Signing.order * s.getD 12 0 := by
    refine value_twelve (fun i hi => ?_) (fun i hi => ?_) hlen
    · rw [if_neg (by omega), lowWeight_lt hi]
    · rw [if_neg (by omega), lowWeight_zero hi]
  -- a last limb of -1 would make the number negative
  have hlast : 0 ≤ s.getD 11 0 := by
    have hlo : -1 ≤ s.getD 11 0 := (hmem 11 (by decide)).1
    have hlt := sum_digits_lt fun i hi => toNat_digit (hdigit i hi)
    rw [Finset.sum_range_succ, sum_toNat fun i hi => (hdigit i hi).1] at hvalue
    by_contra hneg
    have hone : s.getD 11 0 = -1 := by omega
    have hweight : weight 11 = (2 ^ (21 * 11) : Nat) := rfl
    rw [hone, hweight] at hvalue
    omega
  have hall : ∀ i < 12, 0 ≤ s.getD i 0 := by
    intro i hi
    rcases Nat.lt_or_ge i 11 with hlt | hge
    · exact (hdigit i hlt).1
    · rwa [show i = 11 by omega]
  have hlt : ∀ i < 11, (s.getD i 0).toNat < 2 ^ 21 := fun i hi => toNat_digit (hdigit i hi)
  refine ⟨_, store_eq (f := fun i => (s.getD i 0).toNat)
    (fun i hi => (Int.toNat_of_nonneg (hall i hi)).symm) (fun i hi => (digit hlt hi).symm)
    (last_digit hlt).symm, ?_⟩
  rw [hvalue, sum_toNat hall]

/-- **What the functions end with**: the number modulo the order. -/
theorem finish_run {s : List Int} (h : Within low s) :
    ∃ s', run 64 finish s = some s' ∧ store s' = encode (value low s) := by
  obtain ⟨-, -, hfoldLow, hdigits, hsubtract⟩ := certified
  obtain ⟨s₁, hrun₁, hin₁, hvalue₁⟩ := hfoldLow.run h
  obtain ⟨s₂, hrun₂, hin₂, hvalue₂⟩ := hdigits.run hin₁
  obtain ⟨s₃, hrun₃, hin₃, hvalue₃⟩ := hsubtract.run hin₂
  have hrun : run 64 finish s = some s₃ := by
    rw [finish, run_append, hrun₁, Option.bind_some, run_append, hrun₂, Option.bind_some, hrun₃]
  rw [Int.modEq_zero_iff] at hvalue₂ hvalue₃
  have hframe : s₃.getD 12 0 = s₂.getD 12 0 := run_frame (by decide) hrun₃
  obtain ⟨D, hD, hvalueD, hsign⟩ := value_signed hin₂
  have hweight : weight 12 = 2 ^ 252 := rfl
  rw [hweight] at hvalueD
  have horder : (Signing.order : Int) = 2 ^ 252 + 27742317777372353535851937790883648493 := rfl
  obtain ⟨N, hstore, hvalueN⟩ := value_reduced hin₃ (by
    rw [hvalue₃, hvalueD, hframe, horder]
    rcases hsign with hs | hs <;> rw [hs] <;> omega)
  have hlt : (N : Int) < Signing.order := by
    rw [hvalue₃, hvalueD, hframe, horder] at hvalueN
    rw [horder]
    rcases hsign with hs | hs <;> rw [hs] at hvalueN <;> omega
  have hmod : (N : Int) = value low s % Signing.order := by
    rw [← hvalue₁, ← hvalue₂, ← hvalue₃, hvalueN, Int.add_mul_emod_self_left,
      Int.emod_eq_of_lt (Int.natCast_nonneg N) hlt]
  exact ⟨s₃, hrun, by rw [hstore, encode, ← hmod, Int.toNat_natCast]⟩

theorem foldHigh_run {s : List Int} (h : Within spreadOut s) :
    ∃ s', run 64 (foldHigh ++ finish) s = some s' ∧ store s' = encode (value spreadOut s) := by
  obtain ⟨s₁, hrun₁, hin₁, hvalue₁⟩ := certified.2.1.run h
  obtain ⟨s₂, hrun₂, hstore₂⟩ := finish_run hin₁
  refine ⟨s₂, ?_, ?_⟩
  · rw [run_append, hrun₁, Option.bind_some, hrun₂]
  · rw [hstore₂, encode, encode, hvalue₁]

theorem spread_run {s : List Int} (h : Within columns s) :
    ∃ s', run 64 (spread ++ (foldHigh ++ finish)) s = some s' ∧
      store s' = encode (value columns s) := by
  obtain ⟨s₁, hrun₁, hin₁, hvalue₁⟩ := certified.1.run h
  obtain ⟨s₂, hrun₂, hstore₂⟩ := foldHigh_run hin₁
  rw [Int.modEq_zero_iff] at hvalue₁
  refine ⟨s₂, ?_, ?_⟩
  · rw [run_append, hrun₁, Option.bind_some, hrun₂]
  · rw [hstore₂, hvalue₁]

/-! ## The limbs of the arguments -/

theorem limb_digits {s : Bytes} (h : s.length = 32) (i : Nat) :
    limb s i = ((digitsOf 21 11 (Bytes.readLE s)).getD i 0 : Nat) := by
  rw [limb, narrow_eq h]

theorem limb_above (s : Bytes) {i : Nat} (hi : 12 ≤ i) : limb s i = 0 := by
  have hlen : (narrow s).length ≤ i := hi
  rw [limb, List.getD_eq_default _ _ hlen]
  rfl

theorem limb_mem {s : Bytes} (h : s.length = 32) (i : Nat) : 0 ≤ limb s i ∧ limb s i < 2 ^ 25 := by
  have hN : Bytes.readLE s < 256 ^ 32 := h ▸ Bytes.readLE_lt s
  rcases Nat.lt_trichotomy i 11 with hlt | rfl | hgt
  · rw [limb_digits h, digitsOf_lt hlt]
    omega
  · rw [limb_digits h, digitsOf_last]
    omega
  · rw [limb_above s hgt]
    decide

theorem sum_limb {s : Bytes} (h : s.length = 32) :
    ∑ i ∈ Finset.range 12, weight i * limb s i = Bytes.readLE s := by
  conv_rhs => rw [← sum_digitsOf 21 11 (Bytes.readLE s), Nat.cast_sum]
  refine Finset.sum_congr rfl fun i _ => ?_
  rw [Nat.cast_mul, ← limb_digits h, weight]

theorem mapM_some {α β : Type} {f : α → Option β} {g : α → β} {l : List α}
    (h : ∀ x ∈ l, f x = some (g x)) : l.mapM f = some (l.map g) := by
  induction l with
  | nil => rfl
  | cons x l ih =>
    rw [List.mapM_cons, h x List.mem_cons_self, ih fun y hy => h y (List.mem_cons_of_mem _ hy)]
    rfl

/-- The bytes that a function returns, by what its program comes to. -/
theorem reduce_eq {f : Nat → Option Int} {g : Nat → Int} {ops : List Op} {n : Int}
    (hf : ∀ i < 24, f i = some (g i))
    (h : ∃ s', run 64 ops ((List.range 24).map g) = some s' ∧ store s' = encode n) :
    reduce f ops = some (encode n) := by
  obtain ⟨s', hrun, hstore⟩ := h
  have hmap := mapM_some (l := List.range 24) fun i hi => hf i (List.mem_range.mp hi)
  simp only [reduce, hmap, hrun, hstore, Option.bind_eq_bind, Option.bind_some]

theorem getD_map_range (g : Nat → Int) {i n : Nat} (hi : i < n) :
    ((List.range n).map g).getD i 0 = g i := by
  rw [List.getD_eq_getElem _ _ (by rwa [List.length_map, List.length_range]), List.getElem_map,
    List.getElem_range]

theorem within_map {range : Nat → Range} {w g : Nat → Int} {n : Nat}
    (h : ∀ i < n, Range.Mem (g i) (range i)) : Within (limbs n range w) ((List.range n).map g) := by
  refine within_limbs.mpr ⟨by rw [List.length_map, List.length_range], fun i hi => ?_⟩
  rw [getD_map_range g hi]
  exact h i hi

theorem value_map (range : Nat → Range) (w g : Nat → Int) (n : Nat) :
    value (limbs n range w) ((List.range n).map g) = ∑ i ∈ Finset.range n, w i * g i := by
  rw [value_limbs _ _ (by rw [List.length_map, List.length_range])]
  refine Finset.sum_congr rfl fun i hi => ?_
  rw [getD_map_range g (Finset.mem_range.mp hi)]

/-- Twelve limbs. -/
theorem finish_eq {f : Nat → Option Int} {g : Nat → Int} (hf : ∀ i < 24, f i = some (g i))
    (hmem : ∀ i, Range.Mem (g i) (within 56)) (h0 : ∀ i, 12 ≤ i → g i = 0) :
    reduce f finish = some (encode (∑ i ∈ Finset.range 12, weight i * g i)) := by
  have hin : Within low ((List.range 24).map g) := by
    refine within_map fun i _ => ?_
    split
    · exact hmem i
    · rw [h0 i (by omega)]
      split <;> decide
  have hvalue : value low ((List.range 24).map g) = ∑ i ∈ Finset.range 12, weight i * g i := by
    have hhigh : ∑ i ∈ Finset.range 12, lowWeight (12 + i) * g (12 + i) = 0 :=
      Finset.sum_eq_zero fun i _ => by rw [h0 _ (Nat.le_add_right 12 i), Int.mul_zero]
    rw [low, value_map, show 24 = 12 + 12 from rfl, Finset.sum_range_add, hhigh, Int.add_zero]
    exact Finset.sum_congr rfl fun i hi => by rw [lowWeight_lt (Finset.mem_range.mp hi)]
  rw [← hvalue]
  exact reduce_eq hf (finish_run hin)

/-! ## Products -/

/-- A sum of products that are small. -/
theorem sum_eq {l : List (Int × Int)} (hlen : l.length ≤ 12)
    (h : ∀ p ∈ l, (0 ≤ p.1 ∧ p.1 < 2 ^ 25) ∧ 0 ≤ p.2 ∧ p.2 < 2 ^ 25) :
    sum l = some (l.map fun p => p.1 * p.2).sum ∧ 0 ≤ (l.map fun p => p.1 * p.2).sum ∧
      (l.map fun p => p.1 * p.2).sum ≤ l.length * 2 ^ 50 := by
  have hrun : ∀ t : Int, 0 ≤ t → t + l.length * 2 ^ 50 < 2 ^ 63 →
      l.foldlM (fun t p => do fit 64 (t + (← fit 64 (p.1 * p.2)))) t =
        some (t + (l.map fun p => p.1 * p.2).sum) ∧ 0 ≤ (l.map fun p => p.1 * p.2).sum ∧
        (l.map fun p => p.1 * p.2).sum ≤ l.length * 2 ^ 50 := by
    clear hlen
    induction l with
    | nil =>
      intro t _ _
      simp
    | cons p l ih =>
      intro t ht hlt
      obtain ⟨⟨hlo, hhi⟩, hlo', hhi'⟩ := h p List.mem_cons_self
      have hp := Int.mul_nonneg hlo hlo'
      have hp' : p.1 * p.2 ≤ 2 ^ 50 := by nlinarith
      have hlen : ((p :: l).length : Int) = l.length + 1 := by simp
      rw [hlen] at hlt ⊢
      have hfit : fit 64 (p.1 * p.2) = some (p.1 * p.2) := by
        refine if_pos ⟨?_, ?_⟩ <;> omega
      have hfit' : fit 64 (t + p.1 * p.2) = some (t + p.1 * p.2) := by
        refine if_pos ⟨?_, ?_⟩ <;> omega
      obtain ⟨hih, hnonneg, hle⟩ := ih (fun q hq => h q (List.mem_cons_of_mem _ hq))
        (t + p.1 * p.2) (by omega) (by omega)
      rw [List.foldlM_cons, hfit]
      simp only [Option.bind_eq_bind, Option.bind_some, hfit', List.map_cons, List.sum_cons] at hih ⊢
      refine ⟨by rw [hih, Int.add_assoc], by omega, by omega⟩
  obtain ⟨hsum, hnonneg, hle⟩ := hrun 0 (Int.le_refl 0) (by omega)
  exact ⟨by rw [sum, hsum, Int.zero_add], hnonneg, hle⟩

/-- A column of the product. -/
def columnSum (a b : Bytes) (k : Nat) : Int :=
  ∑ i ∈ Finset.range 12, if i ≤ k ∧ k < i + 12 then limb a i * limb b (k - i) else 0

theorem sum_column {a b : Bytes} (ha : a.length = 32) (hb : b.length = 32) (k : Nat) :
    sum (column a b k) = some (columnSum a b k) ∧ 0 ≤ columnSum a b k ∧
      columnSum a b k ≤ 12 * 2 ^ 50 := by
  have hlen : (column a b k).length ≤ 12 := List.length_filterMap_le _ _
  have hmem : ∀ p ∈ column a b k, (0 ≤ p.1 ∧ p.1 < 2 ^ 25) ∧ 0 ≤ p.2 ∧ p.2 < 2 ^ 25 := by
    intro p hp
    obtain ⟨i, _, hi⟩ := List.mem_filterMap.mp hp
    split at hi
    · cases hi
      exact ⟨limb_mem ha i, limb_mem hb (k - i)⟩
    · cases hi
  have hmap : ((column a b k).map fun p => p.1 * p.2).sum = columnSum a b k := by
    have hlist (l : List Nat) : ((l.filterMap fun i => if i ≤ k ∧ k < i + 12 then
        some (limb a i, limb b (k - i)) else none).map fun p => p.1 * p.2).sum =
        (l.map fun i => if i ≤ k ∧ k < i + 12 then limb a i * limb b (k - i) else 0).sum := by
      induction l with
      | nil => rfl
      | cons i l ih =>
        rw [List.filterMap_cons, List.map_cons, List.sum_cons]
        by_cases hi : i ≤ k ∧ k < i + 12
        · rw [if_pos hi, if_pos hi, List.map_cons, List.sum_cons, ih]
        · rw [if_neg hi, if_neg hi, ih, Int.zero_add]
    exact hlist (List.range 12)
  obtain ⟨hsum, hnonneg, hle⟩ := sum_eq hlen hmem
  rw [hmap] at hsum hnonneg hle
  exact ⟨hsum, hnonneg, by omega⟩

/-- What limb `i` of one argument gives, over all columns. -/
theorem sum_shifted (x : Int) (b : Bytes) {i : Nat} (hi : i < 12) :
    ∑ k ∈ Finset.range 24, weight k * (if i ≤ k ∧ k < i + 12 then x * limb b (k - i) else 0) =
      weight i * x * ∑ j ∈ Finset.range 12, weight j * limb b j := by
  obtain ⟨r, hr⟩ : ∃ r, 24 = i + (12 + r) := ⟨12 - i, by omega⟩
  rw [hr, Finset.sum_range_add, Finset.sum_range_add, Finset.mul_sum]
  have hbelow : ∑ k ∈ Finset.range i,
      weight k * (if i ≤ k ∧ k < i + 12 then x * limb b (k - i) else 0) = 0 := by
    refine Finset.sum_eq_zero fun k hk => ?_
    have := Finset.mem_range.mp hk
    rw [if_neg (by omega), Int.mul_zero]
  have habove : ∑ k ∈ Finset.range r, weight (i + (12 + k)) *
      (if i ≤ i + (12 + k) ∧ i + (12 + k) < i + 12 then x * limb b (i + (12 + k) - i) else 0) =
        0 := by
    refine Finset.sum_eq_zero fun k _ => ?_
    rw [if_neg (by omega), Int.mul_zero]
  rw [hbelow, habove, Int.zero_add, Int.add_zero]
  refine Finset.sum_congr rfl fun j hj => ?_
  have hj12 := Finset.mem_range.mp hj
  have hweight : weight (i + j) = weight i * weight j := by
    rw [weight, Nat.mul_add, Nat.pow_add, Nat.cast_mul]
    rfl
  rw [if_pos (by omega), Nat.add_sub_cancel_left, hweight]
  ring

/-- **The columns** are those of the product. -/
theorem sum_columns {a b : Bytes} (ha : a.length = 32) (hb : b.length = 32) :
    ∑ k ∈ Finset.range 24, weight k * columnSum a b k = Bytes.readLE a * Bytes.readLE b := by
  have hswap : ∑ k ∈ Finset.range 24, weight k * columnSum a b k =
      ∑ i ∈ Finset.range 12, ∑ k ∈ Finset.range 24,
        weight k * (if i ≤ k ∧ k < i + 12 then limb a i * limb b (k - i) else 0) := by
    rw [Finset.sum_comm]
    exact Finset.sum_congr rfl fun k _ => Finset.mul_sum _ _ _
  rw [hswap, ← sum_limb ha, ← sum_limb hb, Finset.sum_mul]
  exact Finset.sum_congr rfl fun i hi => sum_shifted _ b (Finset.mem_range.mp hi)

/-- A product, with another number. -/
theorem spread_eq {f : Nat → Option Int} {g : Nat → Int} (hf : ∀ i < 24, f i = some (g i))
    (hmem : ∀ i, Range.Mem (g i) (within 54)) (h23 : g 23 = 0) :
    reduce f (spread ++ (foldHigh ++ finish)) =
      some (encode (∑ i ∈ Finset.range 24, weight i * g i)) := by
  have hin : Within columns ((List.range 24).map g) := by
    refine within_map fun i hi => ?_
    split
    · exact hmem i
    · rw [show i = 23 by omega, h23]
      decide
  have hvalue : value columns ((List.range 24).map g) = ∑ i ∈ Finset.range 24, weight i * g i :=
    value_map _ _ g 24
  rw [← hvalue]
  exact reduce_eq hf (spread_run hin)

theorem columnSum_last (a b : Bytes) : columnSum a b 23 = 0 := by
  refine Finset.sum_eq_zero fun i hi => ?_
  have := Finset.mem_range.mp hi
  rw [if_neg (by omega)]

theorem sum_limb_wide {s : Bytes} (h : s.length = 32) :
    ∑ i ∈ Finset.range 24, weight i * limb s i = Bytes.readLE s := by
  have hhigh : ∑ i ∈ Finset.range 12, weight (12 + i) * limb s (12 + i) = 0 :=
    Finset.sum_eq_zero fun i _ => by rw [limb_above s (Nat.le_add_right 12 i), Int.mul_zero]
  rw [show 24 = 12 + 12 from rfl, Finset.sum_range_add, hhigh, Int.add_zero, sum_limb h]

/-! ## The functions -/

section
variable {a b c : Bytes}

theorem sc_reduce32_eq (ha : a.length = 32) : sc_reduce32 a = some (encode (Bytes.readLE a)) := by
  rw [← sum_limb ha]
  refine finish_eq (fun _ _ => rfl) (fun i => ?_) fun i hi => limb_above a hi
  have := limb_mem ha i
  constructor <;> simp only [within] <;> omega

theorem sc_reduce_eq (ha : a.length = 64) : sc_reduce a = some (encode (Bytes.readLE a)) := by
  have hN : Bytes.readLE a < 256 ^ 64 := ha ▸ Bytes.readLE_lt a
  have hin : Within spreadOut ((List.range 24).map fun i => ((wide a).getD i 0 : Int)) := by
    refine within_map fun i hi => ?_
    rw [wide_eq ha]
    rcases Nat.lt_or_ge i 23 with hlt | hge
    · rw [digitsOf_lt hlt]
      constructor <;> simp only [within] <;> omega
    · rw [show i = 23 by omega, digitsOf_last]
      constructor <;> simp only [within] <;> omega
  have hvalue : value spreadOut ((List.range 24).map fun i => ((wide a).getD i 0 : Int)) =
      Bytes.readLE a := by
    rw [spreadOut, value_map, wide_eq ha]
    conv_rhs => rw [← sum_digitsOf 21 23 (Bytes.readLE a), Nat.cast_sum]
    refine Finset.sum_congr rfl fun i _ => ?_
    rw [Nat.cast_mul, weight]
  rw [← hvalue]
  exact reduce_eq (fun _ _ => rfl) (foldHigh_run hin)

theorem sc_add_eq (ha : a.length = 32) (hb : b.length = 32) :
    sc_add a b = some (encode (Bytes.readLE a + Bytes.readLE b)) := by
  have hsum : ∑ i ∈ Finset.range 12, weight i * (limb a i + limb b i) =
      Bytes.readLE a + Bytes.readLE b := by
    rw [← sum_limb ha, ← sum_limb hb, ← Finset.sum_add_distrib]
    exact Finset.sum_congr rfl fun i _ => Int.mul_add _ _ _
  rw [← hsum]
  refine finish_eq (fun i _ => ?_) (fun i => ?_) fun i hi => ?_
  · have hla := limb_mem ha i
    have hlb := limb_mem hb i
    refine if_pos ⟨?_, ?_⟩ <;> omega
  · have hla := limb_mem ha i
    have hlb := limb_mem hb i
    constructor <;> simp only [within] <;> omega
  · rw [limb_above a hi, limb_above b hi, Int.add_zero]

theorem sc_sub_eq (ha : a.length = 32) (hb : b.length = 32) :
    sc_sub a b = some (encode (Bytes.readLE a - Bytes.readLE b)) := by
  have hsum : ∑ i ∈ Finset.range 12, weight i * (limb a i - limb b i) =
      Bytes.readLE a - Bytes.readLE b := by
    rw [← sum_limb ha, ← sum_limb hb, ← Finset.sum_sub_distrib]
    exact Finset.sum_congr rfl fun i _ => Int.mul_sub _ _ _
  rw [← hsum]
  refine finish_eq (fun i _ => ?_) (fun i => ?_) fun i hi => ?_
  · have hla := limb_mem ha i
    have hlb := limb_mem hb i
    refine if_pos ⟨?_, ?_⟩ <;> omega
  · have hla := limb_mem ha i
    have hlb := limb_mem hb i
    constructor <;> simp only [within] <;> omega
  · rw [limb_above a hi, limb_above b hi, Int.sub_zero]

theorem sc_mul_eq (ha : a.length = 32) (hb : b.length = 32) :
    sc_mul a b = some (encode (Bytes.readLE a * Bytes.readLE b)) := by
  rw [← sum_columns ha hb]
  refine spread_eq (fun k _ => (sum_column ha hb k).1) (fun k => ?_) (columnSum_last a b)
  obtain ⟨_, hlo, hhi⟩ := sum_column ha hb k
  constructor <;> simp only [within] <;> omega

theorem sc_muladd_eq (ha : a.length = 32) (hb : b.length = 32) (hc : c.length = 32) :
    sc_muladd a b c = some (encode (Bytes.readLE c + Bytes.readLE a * Bytes.readLE b)) := by
  have hsum : ∑ k ∈ Finset.range 24, weight k * (limb c k + columnSum a b k) =
      Bytes.readLE c + Bytes.readLE a * Bytes.readLE b := by
    rw [← sum_limb_wide hc, ← sum_columns ha hb, ← Finset.sum_add_distrib]
    exact Finset.sum_congr rfl fun i _ => Int.mul_add _ _ _
  rw [← hsum]
  refine spread_eq (fun k _ => ?_) (fun k => ?_) ?_
  · obtain ⟨hrun, hlo, hhi⟩ := sum_column ha hb k
    have hlc := limb_mem hc k
    simp only [hrun, Option.bind_eq_bind, Option.bind_some]
    refine if_pos ⟨?_, ?_⟩ <;> omega
  · obtain ⟨_, hlo, hhi⟩ := sum_column ha hb k
    have hlc := limb_mem hc k
    constructor <;> simp only [within] <;> omega
  · rw [columnSum_last, limb_above c (by decide), Int.add_zero]

theorem sc_mulsub_eq (ha : a.length = 32) (hb : b.length = 32) (hc : c.length = 32) :
    sc_mulsub a b c = some (encode (Bytes.readLE c - Bytes.readLE a * Bytes.readLE b)) := by
  have hsum : ∑ k ∈ Finset.range 24, weight k * (limb c k - columnSum a b k) =
      Bytes.readLE c - Bytes.readLE a * Bytes.readLE b := by
    rw [← sum_limb_wide hc, ← sum_columns ha hb, ← Finset.sum_sub_distrib]
    exact Finset.sum_congr rfl fun i _ => Int.mul_sub _ _ _
  rw [← hsum]
  refine spread_eq (fun k _ => ?_) (fun k => ?_) ?_
  · obtain ⟨hrun, hlo, hhi⟩ := sum_column ha hb k
    have hlc := limb_mem hc k
    simp only [hrun, Option.bind_eq_bind, Option.bind_some]
    refine if_pos ⟨?_, ?_⟩ <;> omega
  · obtain ⟨_, hlo, hhi⟩ := sum_column ha hb k
    have hlc := limb_mem hc k
    constructor <;> simp only [within] <;> omega
  · rw [columnSum_last, limb_above c (by decide), Int.sub_zero]

end

/-! ## The comparison with the order -/

/-- The number of `n` words. -/
def words (x : Nat → Int) (n : Nat) : Int := ∑ i ∈ Finset.range n, (2 ^ (32 * i) : Nat) * x i

/-- The signs of the differences of `n` words. -/
def signs (c x : Nat → Int) (n : Nat) : Int :=
  ∑ i ∈ Finset.range n, signum (c i - x i) * (2 ^ i : Nat)

theorem words_lt {x : Nat → Int} (hx : ∀ i, 0 ≤ x i ∧ x i < 2 ^ 32) (n : Nat) :
    0 ≤ words x n ∧ words x n < (2 ^ (32 * n) : Nat) := by
  induction n with
  | zero => simp [words]
  | succ n ih =>
    obtain ⟨hlo, hhi⟩ := hx n
    have hpos : (0 : Int) < (2 ^ (32 * n) : Nat) := Int.natCast_pos.mpr (Nat.two_pow_pos _)
    have hmul := Int.mul_nonneg (Int.le_of_lt hpos) hlo
    have hmul' := Int.mul_le_mul_of_nonneg_left (Int.le_sub_one_of_lt hhi) (Int.le_of_lt hpos)
    rw [words, Finset.sum_range_succ, ← words, Nat.mul_succ, Nat.pow_add, Nat.cast_mul]
    rw [Int.mul_sub, Int.mul_one] at hmul'
    exact ⟨by omega, by push_cast at *; omega⟩

/-- **The highest word that differs** decides. -/
theorem signs_eq {c x : Nat → Int} (hc : ∀ i, 0 ≤ c i ∧ c i < 2 ^ 32)
    (hx : ∀ i, 0 ≤ x i ∧ x i < 2 ^ 32) (n : Nat) :
    -(2 ^ n : Nat) < signs c x n ∧ signs c x n < (2 ^ n : Nat) ∧
      (signs c x n < 0 ↔ words c n < words x n) := by
  induction n with
  | zero => simp [words, signs]
  | succ n ih =>
    obtain ⟨hlo, hhi, hneg⟩ := ih
    obtain ⟨hc0, hclt⟩ := words_lt hc n
    obtain ⟨hx0, hxlt⟩ := words_lt hx n
    have hpos : (0 : Int) < (2 ^ (32 * n) : Nat) := Int.natCast_pos.mpr (Nat.two_pow_pos _)
    have hc' : words c (n + 1) = words c n + (2 ^ (32 * n) : Nat) * c n :=
      Finset.sum_range_succ _ n
    have hx' : words x (n + 1) = words x n + (2 ^ (32 * n) : Nat) * x n :=
      Finset.sum_range_succ _ n
    have hs' : signs c x (n + 1) = signs c x n + signum (c n - x n) * (2 ^ n : Nat) :=
      Finset.sum_range_succ _ n
    have hpow : (2 ^ (n + 1) : Nat) = 2 * 2 ^ n := Nat.pow_succ'
    rw [hc', hx', hs', hpow]
    rcases Int.lt_trichotomy (c n) (x n) with hlt | heq | hgt
    · have hsign : signum (c n - x n) = -1 := by
        rw [signum, if_neg (by omega), if_pos (by omega)]
      have hmul := Int.mul_le_mul_of_nonneg_left (Int.add_one_le_of_lt hlt) (Int.le_of_lt hpos)
      rw [Int.mul_add, Int.mul_one] at hmul
      rw [hsign]
      refine ⟨by omega, by omega, by omega⟩
    · have hsign : signum (c n - x n) = 0 := by
        rw [signum, if_neg (by omega), if_neg (by omega)]
      rw [hsign, heq]
      refine ⟨by omega, by omega, by omega⟩
    · have hsign : signum (c n - x n) = 1 := by
        rw [signum, if_pos (by omega)]
      have hmul := Int.mul_le_mul_of_nonneg_left (Int.add_one_le_of_lt hgt) (Int.le_of_lt hpos)
      rw [Int.mul_add, Int.mul_one] at hmul
      rw [hsign]
      refine ⟨by omega, by omega, by omega⟩

/-- The words of the order, less one. -/
def orderWords (i : Nat) : Int :=
  [1559614444, 1477600026, 2734136534, 350157278, 0, 0, 0, 268435456].getD i 0

theorem orderWords_mem (i : Nat) : 0 ≤ orderWords i ∧ orderWords i < 2 ^ 32 := by
  rcases Nat.lt_or_ge i 8 with hlt | hge
  · interval_cases i <;> decide
  · rw [orderWords, List.getD_eq_default _ _ (by exact hge)]
    decide

theorem load_4_mem (a : Bytes) (i : Nat) : 0 ≤ (load_4 a i : Int) ∧ (load_4 a i : Int) < 2 ^ 32 := by
  have hlt := Bytes.readLE_lt (Bytes.slice a i 4)
  have hlen : (Bytes.slice a i 4).length ≤ 4 := by
    rw [Bytes.slice, List.length_take]
    exact Nat.min_le_left _ _
  have hpow := Nat.pow_le_pow_right (show 256 > 0 by decide) hlen
  rw [load_4]
  omega

theorem words_load {a : Bytes} (ha : a.length = 32) :
    words (fun i => (load_4 a (4 * i) : Int)) 8 = Bytes.readLE a := by
  have hN : Bytes.readLE a < 2 ^ (32 * 8) := by
    have := Bytes.readLE_lt a
    rw [ha] at this
    exact this
  conv_rhs => rw [← sum_digits 32 8 (Bytes.readLE a), Nat.div_eq_of_lt hN, Nat.mul_zero,
    Nat.add_zero, Nat.cast_sum]
  refine Finset.sum_congr rfl fun i hi => ?_
  have hi8 := Finset.mem_range.mp hi
  have hpow : 256 ^ (4 * i) = 2 ^ (32 * i) := by
    rw [show 256 = 2 ^ 8 from rfl, ← Nat.pow_mul]
    congr 1
    omega
  show ((2 ^ (32 * i) : Nat) : Int) * (load_4 a (4 * i) : Int) = _
  rw [load_4, readLE_slice (by omega), hpow, Nat.cast_mul]
  rfl

/-- **The check** accepts the numbers below the order. -/
theorem sc_check_eq {a : Bytes} (ha : a.length = 32) :
    sc_check a = if Bytes.readLE a < Signing.order then 0 else -1 := by
  obtain ⟨hlo, hhi, hneg⟩ := signs_eq orderWords_mem (fun i => load_4_mem a (4 * i)) 8
  have hsum : sc_check a = signs orderWords (fun i => (load_4 a (4 * i) : Int)) 8 >>> (8 : Nat) := by
    simp only [sc_check, signs, Finset.sum_range_succ, Finset.sum_range_zero, Int.shiftLeft_eq,
      orderWords]
    simp
  have horder : words orderWords 8 = Signing.order - 1 := by decide +kernel
  rw [words_load ha, horder] at hneg
  rw [hsum, Int.shiftRight_eq_div_pow]
  split <;> omega

/-! ## The ring of scalars -/

theorem readLE_encode (n : Int) : (Bytes.readLE (encode n) : Int) = n % Signing.order := by
  have hpos : (0 : Int) < Signing.order := by decide
  have hlo := Int.emod_nonneg n (Int.ne_of_gt hpos)
  have hhi := Int.emod_lt_of_pos n hpos
  have hlt : (n % Signing.order).toNat < 256 ^ 32 := by
    have horder : Signing.order < 256 ^ 32 := by decide
    omega
  rw [encode, Bytes.readLE_le, Nat.mod_eq_of_lt hlt, Int.toNat_of_nonneg hlo]

theorem reduced_encode (n : Int) : Signing.Reduced Signing.order (encode n) := by
  have hread := readLE_encode n
  have hhi := Int.emod_lt_of_pos n (show (0 : Int) < Signing.order by decide)
  exact ⟨Bytes.length_le 32 _, by omega⟩

/-- **The scalar functions** never overflow, and return the 32 bytes of the exact number modulo
the order; the check accepts those bytes alone. -/
theorem scalars {a b c : Bytes} (ha : a.length = 32) (hb : b.length = 32) (hc : c.length = 32) :
    sc_reduce32 a = some (encode (Bytes.readLE a)) ∧
      sc_reduce (a ++ b) = some (encode (Bytes.readLE (a ++ b))) ∧
      sc_add a b = some (encode (Bytes.readLE a + Bytes.readLE b)) ∧
      sc_sub a b = some (encode (Bytes.readLE a - Bytes.readLE b)) ∧
      sc_mul a b = some (encode (Bytes.readLE a * Bytes.readLE b)) ∧
      sc_muladd a b c = some (encode (Bytes.readLE c + Bytes.readLE a * Bytes.readLE b)) ∧
      sc_mulsub a b c = some (encode (Bytes.readLE c - Bytes.readLE a * Bytes.readLE b)) ∧
      (sc_check a = 0 ↔ a = encode (Bytes.readLE a)) := by
  refine ⟨sc_reduce32_eq ha, sc_reduce_eq (by rw [List.length_append, ha, hb]), sc_add_eq ha hb,
    sc_sub_eq ha hb, sc_mul_eq ha hb, sc_muladd_eq ha hb hc, sc_mulsub_eq ha hb hc, ?_⟩
  have hle := Bytes.le_readLE a
  rw [ha] at hle
  rw [sc_check_eq ha]
  constructor
  · intro h
    have hlt : Bytes.readLE a < Signing.order := by
      by_contra hge
      rw [if_neg hge] at h
      cases h
    rw [encode, Int.emod_eq_of_lt (Int.natCast_nonneg _) (Int.ofNat_lt.mpr hlt), Int.toNat_natCast,
      hle]
  · intro h
    have hread := readLE_encode (Bytes.readLE a)
    rw [← h] at hread
    have hhi := Int.emod_lt_of_pos (Bytes.readLE a) (show (0 : Int) < Signing.order by decide)
    exact if_pos (by omega)

theorem scalars_two : sc_mulsub (Bytes.le 32 (Signing.order + 1)) (Bytes.le 32 2) (Bytes.le 32 1) =
    some (encode (Bytes.readLE (Bytes.le 32 1) -
      Bytes.readLE (Bytes.le 32 (Signing.order + 1)) * Bytes.readLE (Bytes.le 32 2))) :=
  (scalars (Bytes.length_le 32 _) (Bytes.length_le 32 _) (Bytes.length_le 32 _)).2.2.2.2.2.2.1

/-- The primitives, with the scalar functions of the code. -/
def withScalars {E : Type} (o : CryptoOps E) : CryptoOps E :=
  { o with
    sc_reduce32 := fun s => (sc_reduce32 s).getD []
    sc_add := fun a b => (sc_add a b).getD []
    sc_sub := fun a b => (sc_sub a b).getD []
    sc_mulsub := fun a b c => (sc_mulsub a b c).getD []
    sc_check := sc_check }

/-- A function that does not overflow. -/
theorem getD_some_eq {r : Option Bytes} {n : Int} (h : r = some (encode n)) :
    r.getD [] = encode n := by
  rw [h, Option.getD_some]

/-- The points and the hash are those of a group with a base point `G` and of 32 bytes. -/
structure Points {E : Type} [AddCommGroup E] (o : CryptoOps E) (G : E) : Prop where
  base : addOrderOf G = Signing.order
  frombytes : ∀ P, o.ge_frombytes_vartime (o.ge_tobytes P) = some P
  identity : o.ge_tobytes 0 = Signatures.infinity
  scalarmult_base : ∀ s, Signing.Reduced Signing.order s →
    o.ge_scalarmult_base s = Bytes.readLE s • G
  scalarmult : ∀ s P, Signing.Reduced Signing.order s →
    o.ge_scalarmult s P = Bytes.readLE s • P
  double_scalarmult : ∀ a P b, Signing.Reduced Signing.order a → Signing.Reduced Signing.order b →
    o.ge_double_scalarmult_base_vartime a P b = Bytes.readLE a • P + Bytes.readLE b • G
  mul8 : ∀ P, o.ge_mul8 P = 8 • P
  add : ∀ P Q, o.ge_add P Q = P + Q
  keccak : ∀ b, (o.keccak b).length = 32

/-- **What signatures ask of the scalars** holds of the code. -/
theorem implements_withScalars {E : Type} [AddCommGroup E] {o : CryptoOps E} {G : E}
    (ho : Points o G) : Signing.Implements (withScalars o) Signing.order G where
  pos := by decide
  base := ho.base
  frombytes := ho.frombytes
  identity := ho.identity
  scalarmult_base := ho.scalarmult_base
  scalarmult := ho.scalarmult
  double_scalarmult := ho.double_scalarmult
  mul8 := ho.mul8
  add := ho.add
  reduce32 s hs := by
    simp only [withScalars, getD_some_eq (sc_reduce32_eq hs)]
    refine ⟨reduced_encode _, Int.ofNat_inj.mp ?_⟩
    rw [readLE_encode, Int.natCast_mod]
  sc_add a b ha hb := by
    simp only [withScalars, getD_some_eq (sc_add_eq ha.length hb.length)]
    refine ⟨reduced_encode _, Int.natCast_modEq_iff.mp ?_⟩
    rw [readLE_encode, Nat.cast_add]
    exact Int.mod_modEq _ _
  sc_sub a b ha hb := by
    simp only [withScalars, getD_some_eq (sc_sub_eq ha.length hb.length)]
    refine ⟨reduced_encode _, Int.natCast_modEq_iff.mp ?_⟩
    rw [Nat.cast_add, readLE_encode]
    exact ((Int.mod_modEq _ _).add_right _).trans (by rw [Int.sub_add_cancel])
  sc_mulsub a b c ha hb hc := by
    simp only [withScalars, getD_some_eq (sc_mulsub_eq ha.length hb.length hc.length)]
    refine ⟨reduced_encode _, Int.natCast_modEq_iff.mp ?_⟩
    rw [Nat.cast_add, readLE_encode, Nat.cast_mul]
    exact ((Int.mod_modEq _ _).add_right _).trans (by rw [Int.sub_add_cancel])
  sc_check s hs := by
    show sc_check s = 0 ↔ _
    rw [sc_check_eq hs]
    split <;> simp [*]
  keccak := ho.keccak

theorem implements_withScalars_curve :
    Signing.Implements (withScalars Signing.curve) Signing.order 1 :=
  implements_withScalars
    ⟨Signing.implements_curve.base, Signing.implements_curve.frombytes,
      Signing.implements_curve.identity, Signing.implements_curve.scalarmult_base,
      Signing.implements_curve.scalarmult, Signing.implements_curve.double_scalarmult,
      Signing.implements_curve.mul8, Signing.implements_curve.add, Signing.implements_curve.keccak⟩

end Rxs.L2.Scalars
