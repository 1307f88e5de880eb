import Rxs.Core.Aes
import Rxs.L2Machine.AesHash

/-!
# AES in software

The tables of the rounds are built at the start: a loop walks through the powers of `X + 1` and
of its inverse and fills in the box of bytes and its reverse, another one multiplies. A round
looks up each byte of a block. There are two versions, one for the bytes of the block and one
for its words.

* `mul_gf2_eq`: the products.
* `loop_spec`: the boxes.
* `lutEnc_column`, `lutDec_column`: what four lookups add up to.
* **`soft_rounds`**: both versions are the rounds of AES.
* **`fill_injective`**: two seeds never fill a scratchpad with the same bytes.
-/
namespace Rxs.L2.SoftAes

open Rxs.Core Rxs.Core.Gf256 Rxs.Core.Aes Rxs.L2.AesHash

/-! ## Tables -/

/-- The loop; `k` is doubled from 1 on.
mirrors src/crypto/randomx/soft_aes.cpp:39-55 -/
def mulLoop : Nat → BitVec 32 → BitVec 32 → BitVec 32 → BitVec 32 → BitVec 32
  | 0, _, _, _, s => s
  | n + 1, i, j, k, s =>
    if k < 0x100 ∧ j ≠ 0 then
      let s' := if j &&& k ≠ 0 then s ^^^ i else s
      let j' := if j &&& k ≠ 0 then j ^^^ k else j
      let i' := i <<< 1
      let i' := if i' &&& 0x100 ≠ 0 then
        i' ^^^ ((1 <<< 8) ||| (1 <<< 4) ||| (1 <<< 3) ||| (1 <<< 1) ||| (1 <<< 0)) else i'
      mulLoop n i' j' (k <<< 1) s'
    else s

/-- mirrors src/crypto/randomx/soft_aes.cpp:37-56 -/
def mul_gf2 (b c : BitVec 32) : BitVec 32 := mulLoop 8 b c 1 0

def ROTL8 (x : Byte) (shift : Nat) : Byte := (x <<< shift) ||| (x >>> (8 - shift))

/-- The variables of the first loop. -/
structure Boxes where
  p : Byte
  q : Byte
  sbox : Byte → Byte
  sbox_reverse : Byte → Byte

def nextP (p : Byte) : Byte := p ^^^ (p <<< 1) ^^^ (if p &&& 0x80 ≠ 0 then 0x1B else 0)

def nextQ (q : Byte) : Byte :=
  let q := q ^^^ (q <<< 1)
  let q := q ^^^ (q <<< 2)
  let q := q ^^^ (q <<< 4)
  q ^^^ (if q &&& 0x80 ≠ 0 then 0x09 else 0)

def boxValue (q : Byte) : Byte :=
  q ^^^ ROTL8 q 1 ^^^ ROTL8 q 2 ^^^ ROTL8 q 3 ^^^ ROTL8 q 4 ^^^ 0x63

/-- mirrors src/crypto/randomx/soft_aes.cpp:70-79 -/
def turn (g : Boxes) : Boxes :=
  let p := nextP g.p
  let q := nextQ g.q
  let value := boxValue q
  { p := p
    q := q
    sbox := Function.update g.sbox p value
    sbox_reverse := Function.update g.sbox_reverse value p }

/-- `do ... while (p != 1)`, `none` when it has not ended. -/
def loop : Nat → Boxes → Option Boxes
  | 0, _ => none
  | n + 1, g => if (turn g).p ≠ 1 then loop n (turn g) else some (turn g)

/-- `w = (w << 8) | (w >> 24)`, so many times. -/
def turned : Nat → BitVec 32 → BitVec 32
  | 0, w => w
  | n + 1, w => turned n ((w <<< 8) ||| (w >>> 24))

structure Tables where
  lutEnc : Fin 4 → Byte → BitVec 32
  lutDec : Fin 4 → Byte → BitVec 32

/-- The byte of a product. -/
def product (s : Byte) (c : BitVec 32) : Byte := (mul_gf2 (s.setWidth 32) c).setWidth 8

/-- mirrors src/crypto/randomx/soft_aes.cpp:92-104 -/
def encWord (s : Byte) : BitVec 32 := product s 3 ++ s ++ s ++ product s 2

/-- mirrors src/crypto/randomx/soft_aes.cpp:106-115 -/
def decWord (s : Byte) : BitVec 32 := product s 0xb ++ product s 0xd ++ product s 0x9 ++ product s 0xe

/-- Behind the first loop.
mirrors src/crypto/randomx/soft_aes.cpp:81-116 -/
def Boxes.tables (g : Boxes) : Tables :=
  let sbox := Function.update g.sbox 0 0x63
  let sbox_reverse := Function.update g.sbox_reverse 0x63 0
  { lutEnc := fun k i => turned k.val (encWord (sbox i))
    lutDec := fun k i => turned k.val (decWord (sbox_reverse i)) }

/-- mirrors src/crypto/randomx/soft_aes.cpp:60-116 -/
def SAESInitializer (fuel : Nat) : Option Tables :=
  (loop fuel ⟨1, 1, fun _ => 0, fun _ => 0⟩).map Boxes.tables

/-! ## Rounds -/

section

variable (t : Tables)

/-- mirrors src/crypto/randomx/soft_aes.h:45-71 -/
def aesenc1 (v key : V) : V :=
  let s := fun i => v.extractLsb' (8 * i) 8
  let s0 := t.lutEnc 0 (s 0)
  let s1 := t.lutEnc 0 (s 4)
  let s2 := t.lutEnc 0 (s 8)
  let s3 := t.lutEnc 0 (s 12)
  let s0 := s0 ^^^ t.lutEnc 1 (s 5)
  let s1 := s1 ^^^ t.lutEnc 1 (s 9)
  let s2 := s2 ^^^ t.lutEnc 1 (s 13)
  let s3 := s3 ^^^ t.lutEnc 1 (s 1)
  let s0 := s0 ^^^ t.lutEnc 2 (s 10)
  let s1 := s1 ^^^ t.lutEnc 2 (s 14)
  let s2 := s2 ^^^ t.lutEnc 2 (s 2)
  let s3 := s3 ^^^ t.lutEnc 2 (s 6)
  let s0 := s0 ^^^ t.lutEnc 3 (s 15)
  let s1 := s1 ^^^ t.lutEnc 3 (s 3)
  let s2 := s2 ^^^ t.lutEnc 3 (s 7)
  let s3 := s3 ^^^ t.lutEnc 3 (s 11)
  rx_set_int_vec_i128 s3 s2 s1 s0 ^^^ key

/-- mirrors src/crypto/randomx/soft_aes.h:73-100 -/
def aesdec1 (v key : V) : V :=
  let s := fun i => v.extractLsb' (8 * i) 8
  let s0 := t.lutDec 0 (s 0)
  let s1 := t.lutDec 0 (s 4)
  let s2 := t.lutDec 0 (s 8)
  let s3 := t.lutDec 0 (s 12)
  let s0 := s0 ^^^ t.lutDec 1 (s 13)
  let s1 := s1 ^^^ t.lutDec 1 (s 1)
  let s2 := s2 ^^^ t.lutDec 1 (s 5)
  let s3 := s3 ^^^ t.lutDec 1 (s 9)
  let s0 := s0 ^^^ t.lutDec 2 (s 10)
  let s1 := s1 ^^^ t.lutDec 2 (s 14)
  let s2 := s2 ^^^ t.lutDec 2 (s 2)
  let s3 := s3 ^^^ t.lutDec 2 (s 6)
  let s0 := s0 ^^^ t.lutDec 3 (s 7)
  let s1 := s1 ^^^ t.lutDec 3 (s 11)
  let s2 := s2 ^^^ t.lutDec 3 (s 15)
  let s3 := s3 ^^^ t.lutDec 3 (s 3)
  rx_set_int_vec_i128 s3 s2 s1 s0 ^^^ key

/-- `rx_vec_i128_x`, `_y`, `_z` and `_w`. -/
def lane (v : V) (i : Nat) : BitVec 32 := v.extractLsb' (32 * i) 32

/-- The byte of a word that is looked up. -/
def byte (s : BitVec 32) (shift : Nat) : Byte := ((s >>> shift) &&& 0xff).setWidth 8

/-- mirrors src/crypto/randomx/soft_aes.h:102-119 -/
def aesenc2 (v key : V) : V :=
  let s0 := lane v 3
  let s1 := lane v 2
  let s2 := lane v 1
  let s3 := lane v 0
  let out := rx_set_int_vec_i128
    (t.lutEnc 0 (byte s0 0) ^^^ t.lutEnc 1 (byte s3 8) ^^^ t.lutEnc 2 (byte s2 16) ^^^
      t.lutEnc 3 ((s1 >>> 24).setWidth 8))
    (t.lutEnc 0 (byte s1 0) ^^^ t.lutEnc 1 (byte s0 8) ^^^ t.lutEnc 2 (byte s3 16) ^^^
      t.lutEnc 3 ((s2 >>> 24).setWidth 8))
    (t.lutEnc 0 (byte s2 0) ^^^ t.lutEnc 1 (byte s1 8) ^^^ t.lutEnc 2 (byte s0 16) ^^^
      t.lutEnc 3 ((s3 >>> 24).setWidth 8))
    (t.lutEnc 0 (byte s3 0) ^^^ t.lutEnc 1 (byte s2 8) ^^^ t.lutEnc 2 (byte s1 16) ^^^
      t.lutEnc 3 ((s0 >>> 24).setWidth 8))
  out ^^^ key

/-- mirrors src/crypto/randomx/soft_aes.h:121-138 -/
def aesdec2 (v key : V) : V :=
  let s0 := lane v 3
  let s1 := lane v 2
  let s2 := lane v 1
  let s3 := lane v 0
  let out := rx_set_int_vec_i128
    (t.lutDec 0 (byte s0 0) ^^^ t.lutDec 1 (byte s1 8) ^^^ t.lutDec 2 (byte s2 16) ^^^
      t.lutDec 3 ((s3 >>> 24).setWidth 8))
    (t.lutDec 0 (byte s1 0) ^^^ t.lutDec 1 (byte s2 8) ^^^ t.lutDec 2 (byte s3 16) ^^^
      t.lutDec 3 ((s0 >>> 24).setWidth 8))
    (t.lutDec 0 (byte s2 0) ^^^ t.lutDec 1 (byte s3 8) ^^^ t.lutDec 2 (byte s0 16) ^^^
      t.lutDec 3 ((s1 >>> 24).setWidth 8))
    (t.lutDec 0 (byte s3 0) ^^^ t.lutDec 1 (byte s0 8) ^^^ t.lutDec 2 (byte s1 16) ^^^
      t.lutDec 3 ((s2 >>> 24).setWidth 8))
  out ^^^ key

end

/-- The template's rounds; there are versions 1 and 2, and 0 is the processor's own. -/
def softAes (t : Tables) (soft : Nat) : Aes :=
  if soft = 1 then ⟨aesenc1 t, aesdec1 t⟩ else ⟨aesenc2 t, aesdec2 t⟩

/-- The processor's instructions. -/
def hardAes : Aes := ⟨encBlock, decBlock⟩

/-! ## Products -/

theorem double_eq : ∀ a : Byte, (if ((a.setWidth 32) <<< 1) &&& 0x100 ≠ 0 then
      ((a.setWidth 32) <<< 1) ^^^ ((1 <<< 8) ||| (1 <<< 4) ||| (1 <<< 3) ||| (1 <<< 1) ||| (1 <<< 0))
    else (a.setWidth 32) <<< 1) = (xtime a).setWidth 32 := by
  decide +kernel

theorem mulFrom_zero {c : Byte} {n i : Nat} (h : ∀ m, i ≤ m → c.getLsbD m = false) (a : Byte) :
    mulFrom c n i a = 0 := by
  induction n generalizing i a with
  | zero => rfl
  | succ n ih =>
    rw [mulFrom, h i (Nat.le_refl i), ih fun m hm => h m (by omega), if_neg Bool.false_ne_true]
    rfl

theorem double_twoPow (i : Nat) : BitVec.twoPow 32 i <<< 1 = BitVec.twoPow 32 (i + 1) := by
  rw [BitVec.twoPow_eq, BitVec.twoPow_eq, ← BitVec.shiftLeft_add]

theorem twoPow_lt {i : Nat} (h : i < 8) : BitVec.twoPow 32 i < 0x100 := by
  have hpow : 2 ^ i < 2 ^ 8 := Nat.pow_lt_pow_right (by decide) h
  rw [BitVec.lt_def, BitVec.toNat_twoPow]
  exact Nat.lt_of_le_of_lt (Nat.mod_le _ _) hpow

/-- A bit that a power of two picks. -/
theorem and_twoPow (j : BitVec 32) {i : Nat} (hi : i < 32) :
    j &&& BitVec.twoPow 32 i ≠ 0 ↔ j.getLsbD i = true := by
  rw [BitVec.and_twoPow]
  cases h : j.getLsbD i with
  | false => simp
  | true =>
    have hne : BitVec.twoPow 32 i ≠ 0 := by
      intro h
      have hbit := congrArg (·.getLsbD i) h
      simp [hi] at hbit
    rw [if_pos rfl]
    exact ⟨fun _ => rfl, fun _ => hne⟩

/-- The turns from bit `i` on; `j` has the bits of `c` that are left. -/
theorem mulLoop_eq (c : Byte) {n i : Nat} (hn : n + i = 8) (a : Byte) {j : BitVec 32}
    (hj : ∀ m, j.getLsbD m = (decide (i ≤ m) && c.getLsbD m)) (s : BitVec 32) :
    mulLoop n (a.setWidth 32) j (BitVec.twoPow 32 i) s = s ^^^ (mulFrom c n i a).setWidth 32 := by
  induction n generalizing i a j s with
  | zero => simp [mulLoop, mulFrom]
  | succ n ih =>
    by_cases hzero : j = 0
    · have hnone : ∀ m, i ≤ m → c.getLsbD m = false := by
        intro m hm
        have h := hj m
        rw [hzero] at h
        simpa [hm] using h.symm
      rw [mulFrom_zero hnone, mulLoop, if_neg (by simp [hzero])]
      simp
    · have hbit : j.getLsbD i = c.getLsbD i := by
        rw [hj, decide_eq_true (Nat.le_refl i), Bool.true_and]
      rw [mulLoop, if_pos ⟨twoPow_lt (by omega), hzero⟩]
      simp only [double_eq, and_twoPow j (show i < 32 by omega), hbit, double_twoPow]
      rw [ih (by omega), mulFrom]
      · cases c.getLsbD i with
        | false => simp
        | true => simp [BitVec.xor_assoc]
      · intro m
        cases hc : c.getLsbD i with
        | false =>
          rw [if_neg Bool.false_ne_true, hj]
          by_cases hm : m = i
          · simp [hm, hc]
          · have hle : (i ≤ m) = (i + 1 ≤ m) := by
              simp only [eq_iff_iff]
              omega
            simp only [hle]
        | true =>
          rw [if_pos rfl, BitVec.getLsbD_xor, hj, BitVec.getLsbD_twoPow]
          by_cases hm : m = i
          · subst hm
            have hlt : m < 32 := by omega
            simp [hc, hlt]
          · have hle : (i ≤ m) = (i + 1 ≤ m) := by
              simp only [eq_iff_iff]
              omega
            simp [hle, Ne.symm hm]

theorem mul_gf2_eq (b c : Byte) :
    mul_gf2 (b.setWidth 32) (c.setWidth 32) = (Gf256.mul b c).setWidth 32 := by
  have hone : (1 : BitVec 32) = BitVec.twoPow 32 0 := by decide
  rw [mul_gf2, hone, mulLoop_eq c rfl b]
  · exact BitVec.zero_xor
  · intro m
    by_cases hm : m < 32
    · simp [hm]
    · have hout : c.getLsbD m = false := BitVec.getLsbD_of_ge c m (by omega)
      simp [hout]

theorem product_eq (s c : Byte) : product s (c.setWidth 32) = Gf256.mul c s := by
  rw [product, mul_gf2_eq, Gf256.mul_comm]
  apply BitVec.eq_of_toNat_eq
  have hlt := (Gf256.mul c s).isLt
  simp only [BitVec.toNat_setWidth]
  omega

/-! ## The boxes -/

theorem nextP_eq : ∀ p : Byte, nextP p = next p := by
  decide +kernel

/-- `q` is divided by `X + 1`. -/
theorem next_nextQ : ∀ q : Byte, next (nextQ q) = q := by
  decide +kernel

theorem boxValue_eq : ∀ q : Byte, boxValue q = affine q := by
  decide +kernel

/-- What the boxes hold for the bytes of `xs`. -/
structure Right (g : Boxes) (xs : Set Byte) : Prop where
  pq : mul g.p g.q = 1
  sbox : ∀ x ∈ xs, g.sbox x = subByte x
  sbox_reverse : ∀ x ∈ xs, g.sbox_reverse (subByte x) = x

theorem subByte_injective {x y : Byte} (h : subByte x = subByte y) : x = y := by
  rw [← invSubByte_subByte x, h, invSubByte_subByte]

theorem turn_right {g : Boxes} {xs : Set Byte} (h : Right g xs) :
    Right (turn g) (insert (next g.p) xs) := by
  have hpq : mul (next g.p) (nextQ g.q) = 1 := by
    apply el_injective
    rw [el_mul, el_next, mul_right_comm, ← el_next, next_nextQ, CommMonoid.mul_comm, ← el_mul, h.pq]
  have hvalue : boxValue (nextQ g.q) = subByte (next g.p) := by
    rw [boxValue_eq, subByte, inv_unique hpq]
  constructor
  · rw [turn, nextP_eq]
    exact hpq
  · intro x hx
    simp only [turn, nextP_eq, hvalue]
    by_cases heq : x = next g.p
    · rw [heq, Function.update_self]
    · rw [Function.update_of_ne heq]
      exact h.sbox x (hx.resolve_left heq)
  · intro x hx
    simp only [turn, nextP_eq, hvalue]
    by_cases heq : x = next g.p
    · rw [heq, Function.update_self]
    · rw [Function.update_of_ne fun h => heq (subByte_injective h)]
      exact h.sbox_reverse x (hx.resolve_left heq)

/-- None of so many powers is one. -/
def never : Nat → Byte → Bool
  | 0, _ => true
  | n + 1, b => b != 1 && never n (next b)

theorem ne_one_of_never {n : Nat} {b : Byte} (h : never n b) {k : Nat} (hk : k < n) :
    next^[k] b ≠ 1 := by
  induction n generalizing b k with
  | zero => omega
  | succ n ih =>
    rw [never, Bool.and_eq_true] at h
    cases k with
    | zero => exact bne_iff_ne.mp h.1
    | succ k => exact ih h.2 (Nat.lt_of_succ_lt_succ hk)

theorem pow_ne_one {k : Nat} (hpos : 0 < k) (hk : k < 255) : next^[k] 1 ≠ 1 := by
  have h : never 254 (next 1) := by decide +kernel
  obtain ⟨k, rfl⟩ := Nat.exists_eq_add_of_lt hpos
  rw [Nat.zero_add] at hk ⊢
  exact ne_one_of_never h (Nat.lt_of_succ_lt_succ hk)

/-- The powers that have been walked through. -/
def Walked (i : Nat) : Set Byte := {x | ∃ k, 0 < k ∧ k ≤ i ∧ next^[k] 1 = x}

theorem walked_all {x : Byte} (h : x ≠ 0) : x ∈ Walked 255 := by
  obtain ⟨k, hk, hx⟩ := exists_pow h
  rcases Nat.eq_zero_or_pos k with rfl | hpos
  · exact ⟨255, by decide, Nat.le_refl _, by rw [next_255, ← hx]; rfl⟩
  · exact ⟨k, hpos, Nat.le_of_lt hk, hx⟩

theorem Right.mono {g : Boxes} {xs ys : Set Byte} (h : Right g xs) (hsub : ys ⊆ xs) : Right g ys :=
  ⟨h.pq, fun x hx => h.sbox x (hsub hx), fun x hx => h.sbox_reverse x (hsub hx)⟩

theorem walked_succ (i : Nat) : Walked (i + 1) ⊆ insert (next (next^[i] 1)) (Walked i) := by
  rintro x ⟨k, hpos, hk, hx⟩
  by_cases hlast : k = i + 1
  · refine .inl ?_
    rw [← hx, hlast, Function.iterate_succ_apply']
  · exact .inr ⟨k, hpos, by omega, hx⟩

theorem loop_spec {n i : Nat} (hn : 255 ≤ n + i) (hi : i < 255) {g : Boxes}
    (hp : g.p = next^[i] 1) (hg : Right g (Walked i)) :
    ∃ g', loop n g = some g' ∧ Right g' {x | x ≠ 0} := by
  induction n generalizing i g with
  | zero => omega
  | succ n ih =>
    have hp' : (turn g).p = next^[i + 1] 1 := by
      rw [Function.iterate_succ_apply', ← hp]
      exact nextP_eq g.p
    have hg' : Right (turn g) (Walked (i + 1)) :=
      (turn_right hg).mono (by rw [hp]; exact walked_succ i)
    rw [loop]
    by_cases hlast : i + 1 = 255
    · rw [hlast] at hp' hg'
      rw [if_neg (by rw [hp', next_255]; exact not_not_intro rfl)]
      exact ⟨turn g, rfl, hg'.mono fun x hx => walked_all hx⟩
    · rw [if_pos (by rw [hp']; exact pow_ne_one (Nat.succ_pos i) (by omega))]
      exact ih (by omega) (by omega) hp' hg'

theorem subByte_zero : subByte 0 = 0x63 := by
  rw [subByte, inv_zero]
  decide

/-- The tables behind the first loop. -/
structure Correct (t : Tables) : Prop where
  enc (k : Fin 4) (i : Byte) : t.lutEnc k i = turned k.val (encWord (subByte i))
  dec (k : Fin 4) (i : Byte) : t.lutDec k i = turned k.val (decWord (invSubByte i))

theorem Right.correct {g : Boxes} (h : Right g {x | x ≠ 0}) : Correct g.tables := by
  have hbox (x : Byte) : Function.update g.sbox 0 0x63 x = subByte x := by
    by_cases hx : x = 0
    · rw [hx, Function.update_self, subByte_zero]
    · rw [Function.update_of_ne hx, h.sbox x hx]
  have hreverse (y : Byte) : Function.update g.sbox_reverse 0x63 0 y = invSubByte y := by
    obtain ⟨x, rfl⟩ : ∃ x, subByte x = y := ⟨invSubByte y, subByte_invSubByte y⟩
    rw [invSubByte_subByte]
    by_cases hx : x = 0
    · rw [hx, subByte_zero, Function.update_self]
    · rw [← subByte_zero, Function.update_of_ne fun heq => hx (subByte_injective heq),
        h.sbox_reverse x hx]
  constructor
  · intro k i
    exact congrArg (fun x => turned k.val (encWord x)) (hbox i)
  · intro k i
    exact congrArg (fun x => turned k.val (decWord x)) (hreverse i)

/-- **The tables**: the loop ends, and they are the box's and its reverse's. -/
theorem initializer_correct {fuel : Nat} (h : 255 ≤ fuel) :
    ∃ t, SAESInitializer fuel = some t ∧ Correct t := by
  have hstart : Right ⟨1, 1, fun _ => 0, fun _ => 0⟩ (Walked 0) := by
    refine ⟨one_mul 1, ?_, ?_⟩ <;>
    · rintro x ⟨k, hpos, hk, -⟩
      omega
  obtain ⟨g, hg, hright⟩ := loop_spec (i := 0) h (by decide) rfl hstart
  exact ⟨g.tables, by rw [SAESInitializer, hg, Option.map_some], hright.correct⟩

/-! ## Lookups -/

theorem word_xor (a b : Column) : word a ^^^ word b = word fun r => a r ^^^ b r := by
  refine BitVec.xor_append.trans (congrArg₂ (· ++ ·) ?_ rfl)
  refine BitVec.xor_append.trans (congrArg₂ (· ++ ·) ?_ rfl)
  exact BitVec.xor_append

theorem getLsbD_word (a : Column) {i : Nat} (hi : i < 32) :
    (word a).getLsbD i = (a (Fin.ofNat 4 (i / 8))).getLsbD (i % 8) := by
  have h := congrArg (·.getLsbD (i % 8)) (extract_word a (Fin.ofNat 4 (i / 8)))
  have hr : (Fin.ofNat 4 (i / 8)).val = i / 8 := Nat.mod_eq_of_lt (by omega)
  have hmod : i % 8 < 8 := Nat.mod_lt i (by decide)
  simp only [BitVec.getLsbD_extractLsb', hr, hmod, decide_true, Bool.true_and,
    Nat.div_add_mod] at h
  exact h

/-- The bytes of a word move by one row. -/
theorem turn_word (a : Column) : (word a <<< 8) ||| (word a >>> 24) = word fun r => a (r - 1) := by
  apply BitVec.eq_of_getLsbD_eq
  intro i hi
  rw [getLsbD_word _ hi, BitVec.getLsbD_or, BitVec.getLsbD_shiftLeft, BitVec.getLsbD_ushiftRight]
  by_cases hlow : i < 8
  · have hrow : Fin.ofNat 4 (i / 8) - 1 = Fin.ofNat 4 ((24 + i) / 8) := by
      have h₁ : i / 8 = 0 := by omega
      have h₂ : (24 + i) / 8 = 3 := by omega
      rw [h₁, h₂]
      decide
    have hmod : (24 + i) % 8 = i % 8 := by omega
    rw [getLsbD_word a (show 24 + i < 32 by omega), hrow, hmod]
    simp [hlow]
  · have hrow : Fin.ofNat 4 (i / 8) - 1 = Fin.ofNat 4 ((i - 8) / 8) := by
      have hprev : ∀ j < 4, 0 < j → Fin.ofNat 4 j - 1 = Fin.ofNat 4 (j - 1) := by decide
      have hsub : (i - 8) / 8 = i / 8 - 1 := by omega
      rw [hprev (i / 8) (by omega) (by omega), hsub]
    have hmod : (i - 8) % 8 = i % 8 := by omega
    have hout : (word a).getLsbD (24 + i) = false := BitVec.getLsbD_of_ge _ _ (by omega)
    rw [hout, getLsbD_word a (by omega), hrow, hmod]
    simp [hlow, hi]

theorem turned_word (a : Column) (k : Fin 4) : turned k.val (word a) = word fun r => a (r - k) := by
  have hrows : ∀ r : Fin 4, r - 0 = r ∧ r - 1 - 1 = r - 2 ∧ r - 1 - 1 - 1 = r - 3 := by decide
  have h₁ : turned 1 (word a) = word fun r => a (r - 1) := turn_word a
  have h₂ : turned 2 (word a) = word fun r => a (r - 1 - 1) :=
    (congrArg (turned 1) (turn_word a)).trans (turn_word _)
  have h₃ : turned 3 (word a) = word fun r => a (r - 1 - 1 - 1) :=
    (congrArg (turned 2) (turn_word a)).trans ((congrArg (turned 1) (turn_word _)).trans
      (turn_word _))
  simp only [hrows] at h₂ h₃
  refine four_cases k ?_ h₁ h₂ h₃
  simp only [hrows]
  rfl

/-- The word of a byte's products. -/
def coefficients (k0 k1 k2 k3 x : Byte) : Column := ![mul k0 x, mul k3 x, mul k2 x, mul k1 x]

/-- **Four lookups** are a product of the column. -/
theorem lookups (k0 k1 k2 k3 : Byte) (a : Column) :
    turned 0 (word (coefficients k0 k1 k2 k3 (a 0))) ^^^
      turned 1 (word (coefficients k0 k1 k2 k3 (a 1))) ^^^
      turned 2 (word (coefficients k0 k1 k2 k3 (a 2))) ^^^
      turned 3 (word (coefficients k0 k1 k2 k3 (a 3))) = word (circ k0 k1 k2 k3 a) := by
  have h₀ := turned_word (coefficients k0 k1 k2 k3 (a 0)) 0
  have h₁ := turned_word (coefficients k0 k1 k2 k3 (a 1)) 1
  have h₂ := turned_word (coefficients k0 k1 k2 k3 (a 2)) 2
  have h₃ := turned_word (coefficients k0 k1 k2 k3 (a 3)) 3
  refine (congrArg₂ (· ^^^ ·) (congrArg₂ (· ^^^ ·) (congrArg₂ (· ^^^ ·) h₀ h₁) h₂) h₃).trans ?_
  rw [word_xor, word_xor, word_xor]
  congr 1
  funext r
  refine four_cases r ?_ ?_ ?_ ?_
  · show mul k0 (a 0) ^^^ mul k1 (a 1) ^^^ mul k2 (a 2) ^^^ mul k3 (a 3) = _
    rfl
  · show mul k3 (a 0) ^^^ mul k0 (a 1) ^^^ mul k1 (a 2) ^^^ mul k2 (a 3) =
      mul k0 (a 1) ^^^ mul k1 (a 2) ^^^ mul k2 (a 3) ^^^ mul k3 (a 0)
    ac_rfl
  · show mul k2 (a 0) ^^^ mul k3 (a 1) ^^^ mul k0 (a 2) ^^^ mul k1 (a 3) =
      mul k0 (a 2) ^^^ mul k1 (a 3) ^^^ mul k2 (a 0) ^^^ mul k3 (a 1)
    ac_rfl
  · show mul k1 (a 0) ^^^ mul k2 (a 1) ^^^ mul k3 (a 2) ^^^ mul k0 (a 3) =
      mul k0 (a 3) ^^^ mul k1 (a 0) ^^^ mul k2 (a 1) ^^^ mul k3 (a 2)
    ac_rfl

theorem encWord_eq (s : Byte) : encWord s = word (coefficients 2 3 1 1 s) := by
  have h₂ := product_eq s 2
  have h₃ := product_eq s 3
  show product s (BitVec.setWidth 32 (3 : Byte)) ++ s ++ s ++
    product s (BitVec.setWidth 32 (2 : Byte)) = mul 3 s ++ mul 1 s ++ mul 1 s ++ mul 2 s
  rw [h₂, h₃, Gf256.one_mul]

theorem decWord_eq (s : Byte) : decWord s = word (coefficients 0xe 0xb 0xd 0x9 s) := by
  show product s (BitVec.setWidth 32 (0xb : Byte)) ++ product s (BitVec.setWidth 32 (0xd : Byte)) ++
    product s (BitVec.setWidth 32 (0x9 : Byte)) ++ product s (BitVec.setWidth 32 (0xe : Byte)) =
      mul 0xb s ++ mul 0xd s ++ mul 0x9 s ++ mul 0xe s
  rw [product_eq, product_eq, product_eq, product_eq]

theorem lutEnc_column {t : Tables} (h : Correct t) (a : Column) :
    t.lutEnc 0 (a 0) ^^^ t.lutEnc 1 (a 1) ^^^ t.lutEnc 2 (a 2) ^^^ t.lutEnc 3 (a 3) =
      word (mixColumn fun r => subByte (a r)) := by
  rw [h.enc, h.enc, h.enc, h.enc, encWord_eq, encWord_eq, encWord_eq, encWord_eq]
  exact lookups 2 3 1 1 fun r => subByte (a r)

theorem lutDec_column {t : Tables} (h : Correct t) (a : Column) :
    t.lutDec 0 (a 0) ^^^ t.lutDec 1 (a 1) ^^^ t.lutDec 2 (a 2) ^^^ t.lutDec 3 (a 3) =
      word (invMixColumn fun r => invSubByte (a r)) := by
  rw [h.dec, h.dec, h.dec, h.dec, decWord_eq, decWord_eq, decWord_eq, decWord_eq]
  exact lookups 0xe 0xb 0xd 0x9 fun r => invSubByte (a r)

/-! ## The rounds -/

theorem toBlock_xor (s k : State) : toBlock s ^^^ toBlock k = toBlock (addRoundKey k s) := by
  refine BitVec.xor_append.trans (congrArg₂ (· ++ ·) ?_ (word_xor _ _))
  refine BitVec.xor_append.trans (congrArg₂ (· ++ ·) ?_ (word_xor _ _))
  exact BitVec.xor_append.trans (congrArg₂ (· ++ ·) (word_xor _ _) (word_xor _ _))

/-- The words of the columns, and the key. -/
theorem set_words {s3 s2 s1 s0 : BitVec 32} {s : State} (h3 : s3 = word (s 3))
    (h2 : s2 = word (s 2)) (h1 : s1 = word (s 1)) (h0 : s0 = word (s 0)) (key : V) :
    rx_set_int_vec_i128 s3 s2 s1 s0 ^^^ key = toBlock (addRoundKey (ofBlock key) s) := by
  subst h3 h2 h1 h0
  rw [← toBlock_xor, toBlock_ofBlock]
  rfl

theorem lane_byte (v : V) (c r : Fin 4) {i : Nat} (hi : i < 8) :
    (lane v c.val >>> (8 * r.val)).getLsbD i = (ofBlock v c r).getLsbD i := by
  have hin : 8 * r.val + i < 32 := by omega
  simp [lane, ofBlock, hi, hin, Nat.add_assoc]

theorem byte_lane (v : V) (c r : Fin 4) : byte (lane v c.val) (8 * r.val) = ofBlock v c r := by
  have hmask : ∀ i < 8, (0xff : BitVec 32).getLsbD i = true := by decide
  apply BitVec.eq_of_getLsbD_eq
  intro i hi
  rw [byte, BitVec.getLsbD_setWidth, BitVec.getLsbD_and, hmask i hi, lane_byte v c r hi]
  simp [hi]

theorem top_lane (v : V) (c : Fin 4) : (lane v c.val >>> 24).setWidth 8 = ofBlock v c 3 := by
  apply BitVec.eq_of_getLsbD_eq
  intro i hi
  have h := lane_byte v c 3 hi
  rw [BitVec.getLsbD_setWidth, ← h]
  simp [hi]

section

variable {t : Tables} (h : Correct t) (v key : V)

include h

theorem aesenc1_eq : aesenc1 t v key = encBlock v key := by
  have hcolumn (c : Fin 4) (k0 k1 k2 k3 : Nat) (h0 : 8 * k0 = 32 * (c + 0).val + 0)
      (h1 : 8 * k1 = 32 * (c + 1).val + 8) (h2 : 8 * k2 = 32 * (c + 2).val + 16)
      (h3 : 8 * k3 = 32 * (c + 3).val + 24) :
      t.lutEnc 0 (v.extractLsb' (8 * k0) 8) ^^^ t.lutEnc 1 (v.extractLsb' (8 * k1) 8) ^^^
          t.lutEnc 2 (v.extractLsb' (8 * k2) 8) ^^^ t.lutEnc 3 (v.extractLsb' (8 * k3) 8) =
        word (mixColumns (subBytes (shiftRows (ofBlock v))) c) := by
    rw [h0, h1, h2, h3]
    exact lutEnc_column h fun r => shiftRows (ofBlock v) c r
  exact set_words (hcolumn 3 12 1 6 11 rfl rfl rfl rfl) (hcolumn 2 8 13 2 7 rfl rfl rfl rfl)
    (hcolumn 1 4 9 14 3 rfl rfl rfl rfl) (hcolumn 0 0 5 10 15 rfl rfl rfl rfl) key

theorem aesdec1_eq : aesdec1 t v key = decBlock v key := by
  have hcolumn (c : Fin 4) (k0 k1 k2 k3 : Nat) (h0 : 8 * k0 = 32 * (c - 0).val + 0)
      (h1 : 8 * k1 = 32 * (c - 1).val + 8) (h2 : 8 * k2 = 32 * (c - 2).val + 16)
      (h3 : 8 * k3 = 32 * (c - 3).val + 24) :
      t.lutDec 0 (v.extractLsb' (8 * k0) 8) ^^^ t.lutDec 1 (v.extractLsb' (8 * k1) 8) ^^^
          t.lutDec 2 (v.extractLsb' (8 * k2) 8) ^^^ t.lutDec 3 (v.extractLsb' (8 * k3) 8) =
        word (invMixColumns (invSubBytes (invShiftRows (ofBlock v))) c) := by
    rw [h0, h1, h2, h3]
    exact lutDec_column h fun r => invShiftRows (ofBlock v) c r
  exact set_words (hcolumn 3 12 9 6 3 rfl rfl rfl rfl) (hcolumn 2 8 5 2 15 rfl rfl rfl rfl)
    (hcolumn 1 4 1 14 11 rfl rfl rfl rfl) (hcolumn 0 0 13 10 7 rfl rfl rfl rfl) key

theorem aesenc2_eq : aesenc2 t v key = encBlock v key := by
  have hcolumn (c c1 c2 c3 : Fin 4) (h1 : c + 1 = c1) (h2 : c + 2 = c2) (h3 : c + 3 = c3) :
      t.lutEnc 0 (byte (lane v c.val) 0) ^^^ t.lutEnc 1 (byte (lane v c1.val) 8) ^^^
          t.lutEnc 2 (byte (lane v c2.val) 16) ^^^ t.lutEnc 3 ((lane v c3.val >>> 24).setWidth 8) =
        word (mixColumns (subBytes (shiftRows (ofBlock v))) c) := by
    subst h1 h2 h3
    refine Eq.trans ?_ (lutEnc_column h fun r => shiftRows (ofBlock v) c r)
    rw [top_lane]
    exact congrArg₂ (· ^^^ ·) (congrArg₂ (· ^^^ ·) (congrArg₂ (· ^^^ ·)
      (congrArg _ ((byte_lane v c 0).trans (by rw [shiftRows, add_zero])))
      (congrArg _ (byte_lane v _ 1))) (congrArg _ (byte_lane v _ 2))) rfl
  exact set_words (hcolumn 3 0 1 2 rfl rfl rfl) (hcolumn 2 3 0 1 rfl rfl rfl)
    (hcolumn 1 2 3 0 rfl rfl rfl) (hcolumn 0 1 2 3 rfl rfl rfl) key

theorem aesdec2_eq : aesdec2 t v key = decBlock v key := by
  have hcolumn (c c1 c2 c3 : Fin 4) (h1 : c - 1 = c1) (h2 : c - 2 = c2) (h3 : c - 3 = c3) :
      t.lutDec 0 (byte (lane v c.val) 0) ^^^ t.lutDec 1 (byte (lane v c1.val) 8) ^^^
          t.lutDec 2 (byte (lane v c2.val) 16) ^^^ t.lutDec 3 ((lane v c3.val >>> 24).setWidth 8) =
        word (invMixColumns (invSubBytes (invShiftRows (ofBlock v))) c) := by
    subst h1 h2 h3
    refine Eq.trans ?_ (lutDec_column h fun r => invShiftRows (ofBlock v) c r)
    rw [top_lane]
    exact congrArg₂ (· ^^^ ·) (congrArg₂ (· ^^^ ·) (congrArg₂ (· ^^^ ·)
      (congrArg _ ((byte_lane v c 0).trans (by rw [invShiftRows, sub_zero])))
      (congrArg _ (byte_lane v _ 1))) (congrArg _ (byte_lane v _ 2))) rfl
  exact set_words (hcolumn 3 2 1 0 rfl rfl rfl) (hcolumn 2 1 0 3 rfl rfl rfl)
    (hcolumn 1 0 3 2 rfl rfl rfl) (hcolumn 0 3 2 1 rfl rfl rfl) key

end

theorem softAes_eq {fuel : Nat} {t : Tables} (ht : SAESInitializer fuel = some t)
    (hfuel : 255 ≤ fuel) (soft : Nat) : softAes t soft = hardAes := by
  obtain ⟨t', ht', hcorrect⟩ := initializer_correct hfuel
  obtain rfl : t' = t := Option.some.inj (ht'.symm.trans ht)
  rw [softAes, hardAes]
  split
  · rw [funext₂ (aesenc1_eq hcorrect), funext₂ (aesdec1_eq hcorrect)]
  · rw [funext₂ (aesenc2_eq hcorrect), funext₂ (aesdec2_eq hcorrect)]

/-- **Both versions** of the template are the rounds of AES, from the tables that the
initializer builds, for every block and every key. -/
theorem soft_rounds {fuel : Nat} (h : 255 ≤ fuel) : ∃ t, SAESInitializer fuel = some t ∧
    ∀ soft, softAes t soft = hardAes := by
  obtain ⟨t, ht, -⟩ := initializer_correct h
  exact ⟨t, ht, softAes_eq ht h⟩

theorem soft_rounds_255 : ∃ t, SAESInitializer 255 = some t ∧ ∀ soft, softAes t soft = hardAes :=
  soft_rounds (by decide)

/-! ## What is filled -/

/-- A round with any key loses nothing. -/
structure Permutes (aes : Aes) : Prop where
  enc (key : V) : Function.Injective (aes.aesenc · key)
  dec (key : V) : Function.Injective (aes.aesdec · key)

theorem permutes_hardAes : Permutes hardAes := ⟨encBlock_injective, decBlock_injective⟩

variable {n : Nat} {aes : Aes}

theorem fillStep_injective (h : Permutes aes) : Function.Injective (fillStep aes) := by
  intro s s' heq
  obtain ⟨a0, a1, a2, a3⟩ := s
  obtain ⟨b0, b1, b2, b3⟩ := s'
  obtain ⟨h0, h1, h2, h3⟩ := Lanes.mk.inj heq
  have e0 : a0 = b0 := h.dec _ h0
  have e1 : a1 = b1 := h.enc _ h1
  have e2 : a2 = b2 := h.dec _ h2
  have e3 : a3 = b3 := h.enc _ h3
  rw [e0, e1, e2, e3]

/-- The state after so many lines. -/
theorem state_injective (h : Permutes aes) (pad : Vector V n) (k : Nat) :
    Function.Injective fun seed =>
      ((List.range k).foldl (Fusion.write (lines n) (fillStep aes) id) (seed, pad)).1 := by
  induction k with
  | zero => exact Function.injective_id
  | succ k ih =>
    intro s s' heq
    simp only [List.range_succ, List.foldl_append, List.foldl_cons, List.foldl_nil] at heq
    exact ih (fillStep_injective h heq)

/-- The first line stays. -/
theorem first_line (seed : Lanes) (pad : Vector V n) (k : Nat) {i : Nat} (hi : i < 4) (hn : 4 ≤ n) :
    rx_load_vec_i128 ((List.range (k + 1)).foldl (Fusion.write (lines n) (fillStep aes) id)
      (seed, pad)).2 i = (fillStep aes seed).get i := by
  have hdiv : i / 4 = 0 := by omega
  induction k with
  | zero =>
    have h := load_storeLine_eq pad (fillStep aes seed) (show i < n by omega)
    rwa [hdiv, Nat.mod_eq_of_lt hi] at h
  | succ k ih =>
    rw [List.range_succ, List.foldl_append]
    exact (load_storeLine_ne _ _ (by omega)).trans ih

/-- **Two seeds never fill a scratchpad with the same bytes**, nor leave the same state. -/
theorem fill_injective {fuel : Nat} {t : Tables} (ht : SAESInitializer fuel = some t)
    (hfuel : 255 ≤ fuel) (soft : Nat) (h : 64 ∣ 16 * n) (hn : 0 < n) (pad : Vector V n) :
    Function.Injective (fun seed => (fillAes1Rx4 (softAes t soft) seed (16 * n) pad).2) ∧
      Function.Injective (fun seed => (fillAes1Rx4 (softAes t soft) seed (16 * n) pad).1) := by
  obtain ⟨k, hk⟩ := h
  obtain ⟨k, rfl⟩ : ∃ j, k = j + 1 := ⟨k - 1, by omega⟩
  rw [softAes_eq ht hfuel soft, hk]
  simp only [fillAes1Rx4_eq]
  constructor
  · intro s s' heq
    have hline (i : Nat) (hi : i < 4) : (fillStep hardAes s).get i = (fillStep hardAes s').get i := by
      rw [← first_line s pad k hi (by omega), ← first_line s' pad k hi (by omega)]
      exact congrArg (rx_load_vec_i128 · i) heq
    refine fillStep_injective permutes_hardAes ?_
    have h0 := hline 0 (by decide)
    have h1 := hline 1 (by decide)
    have h2 := hline 2 (by decide)
    have h3 := hline 3 (by decide)
    generalize fillStep hardAes s = a at h0 h1 h2 h3 ⊢
    generalize fillStep hardAes s' = b at h0 h1 h2 h3 ⊢
    cases a
    cases b
    exact Lanes.mk.injEq .. ▸ ⟨h0, h1, h2, h3⟩
  · exact state_injective permutes_hardAes pad (k + 1)

theorem fill_injective_64 : ∃ t, Function.Injective (fun seed =>
    (fillAes1Rx4 (softAes t 2) seed 64 (Vector.replicate 4 0)).2) := by
  obtain ⟨t, ht, -⟩ := initializer_correct (Nat.le_refl 255)
  exact ⟨t, (fill_injective ht (by decide) 2 (by decide) (by decide) (Vector.replicate 4 0)).1⟩

end Rxs.L2.SoftAes
