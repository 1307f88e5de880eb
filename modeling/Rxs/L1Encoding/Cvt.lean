import Rxs.L1Encoding.Json

/-!
# Hexadecimal text

`cvt_bin2hex` and `cvt_hex2bin`, with the arithmetic of the source: both avoid
branches on the data and compute in 32-bit words that are cut to bytes. Text is
a list of characters as bytes.

A decoder that fails has written what it decoded so far.

* `fromHex_eq`: a text decodes if it is pairs of digits (`pairs`) and fits.
* `hex2bin_bin2hex`: what was encoded decodes to itself.
* `hex2bin_writeAt`: digits written over a text are bytes written over what it
  decodes to.
* `hex_codec`: what is decoded, what it is the encoding of, and the round trip.
-/
namespace Rxs

open Rxs.Core

namespace Cvt

/-- mirrors src/base/tools/Cvt.cpp:47-50 -/
def digit (c : UInt32) : UInt8 :=
  ((87 : UInt32) + c + (((c - 10) >>> 8) &&& ~~~(38 : UInt32))).toUInt8

/-- mirrors src/base/tools/Cvt.cpp:34-60 -/
def bin2hex (bin : Bytes) : Bytes :=
  bin.flatMap fun x : UInt8 => [digit (x >>> 4).toUInt32, digit (x &&& 0xf).toUInt32]

/-- The value of a digit of either case.
mirrors src/base/tools/Cvt.cpp:82-98 -/
def value (c : UInt8) : Option UInt8 :=
  let num := c ^^^ 48
  let num0 := ((num.toUInt32 - 10) >>> 8).toUInt8
  let alpha := ((c.toUInt32 &&& ~~~(32 : UInt32)) - 55).toUInt8
  let alpha0 := (((alpha.toUInt32 - 10) ^^^ (alpha.toUInt32 - 16)) >>> 8).toUInt8
  if num0 ||| alpha0 = 0 then none else some ((num0 &&& num) ||| (alpha0 &&& alpha))

/-- `bin` is what was written, `acc` the upper half of the next byte. -/
def hex2binLoop (bin_maxlen : Nat) : Bytes → Bytes → Option UInt8 → Bytes × Bool
  | [], bin, acc => (bin, acc.isNone)
  | c :: hex, bin, acc =>
    match value c with
    | none => (bin, false)
    | some val =>
      if bin_maxlen ≤ bin.length then (bin, false)
      else match acc with
        | none => hex2binLoop bin_maxlen hex bin (some (val * 16))
        | some acc => hex2binLoop bin_maxlen hex (bin ++ [acc ||| val]) none

/-- What is written to `bin`, and whether the text is well formed and fits.
mirrors src/base/tools/Cvt.cpp:68-136 and
src/base/tools/Cvt.cpp:179-187 -/
def fromHex (bin_maxlen : Nat) (hex : Bytes) : Bytes × Bool :=
  if hex = [] then ([], false) else hex2binLoop bin_maxlen hex [] none

def SIZE_MAX : Nat := 2 ^ 64 - 1

/-- The encoder into a buffer of `hex_maxlen` bytes.
mirrors src/base/tools/Cvt.cpp:36-43 and src/base/tools/Cvt.cpp:214-217 -/
def toHexInto (hex_maxlen : Nat) (bin : Bytes) : Option Bytes :=
  if SIZE_MAX / 2 ≤ bin.length ∨ hex_maxlen < bin.length * 2 then none else some (bin2hex bin)

/-- `none` is the null string; a length is a word of 64 bits.
mirrors src/base/tools/Cvt.cpp:265-280 -/
def toHex (bin : Bytes) : Option Bytes :=
  if bin = [] then none else toHexInto ((bin.length * 2 + 1) % (SIZE_MAX + 1)) bin

/-! ## Encoding and decoding -/

@[simp] theorem length_bin2hex (bin : Bytes) : (bin2hex bin).length = 2 * bin.length := by
  induction bin with
  | nil => rfl
  | cons x bin ih =>
    have h : bin2hex (x :: bin) = digit (x >>> 4).toUInt32 :: digit (x &&& 0xf).toUInt32 ::
      bin2hex bin := rfl
    rw [h, List.length_cons, List.length_cons, List.length_cons, ih]
    omega

/-- Both digits of a byte read back. -/
theorem value_digit (x : UInt8) :
    value (digit (x >>> 4).toUInt32) = some (x >>> 4) ∧
      value (digit (x &&& 0xf).toUInt32) = some (x &&& 0xf) ∧
      ((x >>> 4) * 16 ||| (x &&& 0xf)) = x := by
  have h : ∀ n : Fin 256, value (digit (UInt8.ofFin n >>> 4).toUInt32) =
        some (UInt8.ofFin n >>> 4) ∧
      value (digit (UInt8.ofFin n &&& 0xf).toUInt32) = some (UInt8.ofFin n &&& 0xf) ∧
      ((UInt8.ofFin n >>> 4) * 16 ||| (UInt8.ofFin n &&& 0xf)) = UInt8.ofFin n := by
    decide +kernel
  exact h x.toFin

/-- The bytes of a text, two digits each. -/
def pairs : Bytes → Option Bytes
  | [] => some []
  | [_] => none
  | a :: b :: hex =>
    (value a).bind fun a => (value b).bind fun b => (pairs hex).map ((a * 16 ||| b) :: ·)

/-- Two digits are a byte, if there is room. -/
theorem hex2binLoop_pair (max : Nat) (x y : UInt8) (hex bin b : Bytes) :
    hex2binLoop max (x :: y :: hex) bin none = (b, true) ↔
      ∃ v ∈ value x, ∃ w ∈ value y, bin.length < max ∧
        hex2binLoop max hex (bin ++ [v * 16 ||| w]) none = (b, true) := by
  simp only [hex2binLoop]
  cases value x with
  | none => simp
  | some v =>
    cases value y with
    | none => by_cases hl : max ≤ bin.length <;> simp [hl]
    | some w =>
      by_cases hl : max ≤ bin.length
      · have hn : ¬ bin.length < max := Nat.not_lt.mpr hl
        simp [hl, hn]
      · have hn : bin.length < max := Nat.not_le.mp hl
        simp [hl, hn]

theorem hex2binLoop_eq (max : Nat) (hex bin b : Bytes) :
    hex2binLoop max hex bin none = (b, true) ↔
      ∃ d, pairs hex = some d ∧ b = bin ++ d ∧ (d = [] ∨ bin.length + d.length ≤ max) := by
  induction hex using pairs.induct generalizing bin with
  | case1 =>
    simp only [hex2binLoop, pairs, Option.isNone_none, Prod.mk.injEq, and_true, Option.some.injEq]
    constructor
    · rintro rfl
      exact ⟨[], rfl, (List.append_nil _).symm, .inl rfl⟩
    · rintro ⟨d, rfl, rfl, -⟩
      exact (List.append_nil _).symm
  | case2 c =>
    simp only [hex2binLoop, pairs, reduceCtorEq, false_and, exists_false, iff_false]
    intro h
    split at h
    · cases h
    · split at h <;> cases h
  | case3 x y hex ih =>
    rw [hex2binLoop_pair]
    constructor
    · rintro ⟨v, hv, w, hw, hl, h⟩
      obtain ⟨d, hd, rfl, hfit⟩ := (ih _).mp h
      have hp : pairs (x :: y :: hex) = some ((v * 16 ||| w) :: d) := by
        rw [pairs, hv, hw, hd]
        rfl
      refine ⟨_, hp, by rw [List.append_assoc]; rfl, .inr ?_⟩
      rw [List.length_append, List.length_singleton] at hfit
      rw [List.length_cons]
      rcases hfit with rfl | hfit
      · exact hl
      · omega
    · rintro ⟨d, hp, rfl, hfit⟩
      rw [pairs] at hp
      obtain ⟨v, hv, hp⟩ := Option.bind_eq_some_iff.mp hp
      obtain ⟨w, hw, hp⟩ := Option.bind_eq_some_iff.mp hp
      obtain ⟨d, hd, rfl⟩ := Option.map_eq_some_iff.mp hp
      have hl : bin.length + (d.length + 1) ≤ max := hfit.resolve_left (List.cons_ne_nil _ _)
      refine ⟨v, hv, w, hw, by omega, (ih _).mpr ⟨d, hd, by rw [List.append_assoc]; rfl, .inr ?_⟩⟩
      rw [List.length_append, List.length_singleton]
      omega

/-- A text that decodes. -/
theorem fromHex_eq {max : Nat} {hex b : Bytes} :
    fromHex max hex = (b, true) ↔ hex ≠ [] ∧ pairs hex = some b ∧ b.length ≤ max := by
  unfold fromHex
  by_cases h0 : hex = []
  · simp [h0]
  · rw [if_neg h0, hex2binLoop_eq]
    constructor
    · rintro ⟨d, hd, rfl, hl⟩
      refine ⟨h0, hd, ?_⟩
      rcases hl with rfl | hl
      · exact Nat.zero_le _
      · simpa using hl
    · rintro ⟨-, hd, hl⟩
      exact ⟨b, hd, rfl, .inr (by simpa using hl)⟩

theorem length_pairs {hex b : Bytes} (h : pairs hex = some b) : hex.length = 2 * b.length := by
  induction hex using pairs.induct generalizing b with
  | case1 => cases h; rfl
  | case2 c => cases h
  | case3 x y hex ih =>
    obtain ⟨v, -, h⟩ := Option.bind_eq_some_iff.mp h
    obtain ⟨w, -, h⟩ := Option.bind_eq_some_iff.mp h
    obtain ⟨d, hd, rfl⟩ := Option.map_eq_some_iff.mp h
    have := ih hd
    simp only [List.length_cons]
    omega

/-- A text that decodes, taken apart at a byte. -/
theorem pairs_append {s t b : Bytes} (n : Nat) (hs : s.length = 2 * n) :
    pairs (s ++ t) = some b ↔ ∃ c d, pairs s = some c ∧ pairs t = some d ∧ b = c ++ d := by
  induction n generalizing s b with
  | zero =>
    have h0 : s = [] := List.length_eq_zero_iff.mp hs
    subst h0
    simp [pairs]
  | succ n ih =>
    match s, hs with
    | x :: y :: s, hs =>
      have hs : s.length = 2 * n := by simp only [List.length_cons] at hs; omega
      have ih := fun b => @ih s b hs
      simp only [List.cons_append, pairs]
      cases value x with
      | none => simp
      | some v =>
        cases value y with
        | none => simp
        | some w =>
          simp only [Option.bind_some]
          constructor
          · intro h
            obtain ⟨d, hd, rfl⟩ := Option.map_eq_some_iff.mp h
            obtain ⟨c, e, hc, he, rfl⟩ := (ih d).mp hd
            exact ⟨_, e, by rw [hc]; rfl, he, rfl⟩
          · rintro ⟨c, e, hc, he, rfl⟩
            obtain ⟨c', hp, rfl⟩ := Option.map_eq_some_iff.mp hc
            rw [(ih (c' ++ e)).mpr ⟨c', e, hp, he, rfl⟩]
            rfl

theorem pairs_bin2hex (d : Bytes) : pairs (bin2hex d) = some d := by
  induction d with
  | nil => rfl
  | cons x d ih =>
    obtain ⟨h₁, h₂, h₃⟩ := value_digit x
    have hx : bin2hex (x :: d) = digit (x >>> 4).toUInt32 :: digit (x &&& 0xf).toUInt32 ::
      bin2hex d := rfl
    rw [hx]
    simp only [pairs, h₁, h₂, ih, h₃, Option.bind_some, Option.map_some]

/-- What was encoded decodes to itself. -/
theorem hex2bin_bin2hex {max : Nat} {d : Bytes} (h0 : d ≠ []) (h : d.length ≤ max) :
    fromHex max (bin2hex d) = (d, true) := by
  refine fromHex_eq.mpr ⟨fun e => h0 ?_, pairs_bin2hex d, h⟩
  have := congrArg List.length e
  rw [length_bin2hex] at this
  exact List.length_eq_zero_iff.mp (by simpa using this)

/-- Digits written over a text are bytes written over what it decodes to. -/
theorem hex2bin_writeAt {hex b : Bytes} (h : pairs hex = some b) {off : Nat} {d : Bytes}
    (hd : off + d.length ≤ b.length) :
    pairs (Bytes.writeAt hex (2 * off) (bin2hex d)) = some (Bytes.writeAt b off d) := by
  have hl := length_pairs h
  have h₁ : (hex.take (2 * off)).length = 2 * off := by rw [List.length_take]; omega
  have h₂ : ((hex.drop (2 * off)).take (2 * d.length)).length = 2 * d.length := by
    rw [List.length_take, List.length_drop]; omega
  have e₁ : hex.take (2 * off) ++ hex.drop (2 * off) = hex := List.take_append_drop ..
  have e₂ : (hex.drop (2 * off)).take (2 * d.length) ++ hex.drop (2 * off + 2 * d.length) =
      hex.drop (2 * off) := by
    rw [← List.drop_drop]
    exact List.take_append_drop ..
  obtain ⟨c, r, hc, hr, rfl⟩ := (pairs_append off h₁).mp (e₁ ▸ h)
  obtain ⟨m, e, hm, he, rfl⟩ := (pairs_append d.length h₂).mp (e₂ ▸ hr)
  have lc := length_pairs hc
  have lm := length_pairs hm
  have hc' : (c ++ (m ++ e)).take off = c := by
    rw [List.take_append_of_le_length (by omega), List.take_of_length_le (by omega)]
  have he' : (c ++ (m ++ e)).drop (off + d.length) = e := by
    have l : off + d.length = (c ++ m).length := by rw [List.length_append]; omega
    rw [← List.append_assoc, l, List.drop_left]
  unfold Bytes.writeAt
  rw [hc', he', length_bin2hex]
  refine (pairs_append (off + d.length) ?_).mpr ⟨c ++ d, e, ?_, he, rfl⟩
  · rw [List.length_append, length_bin2hex]; omega
  · exact (pairs_append off h₁).mpr ⟨c, d, hc, pairs_bin2hex d, rfl⟩

/-! ## The codec -/

/-- A hexadecimal digit of either case. -/
def IsDigit (c : UInt8) : Prop :=
  48 ≤ c ∧ c ≤ 57 ∨ 65 ≤ c ∧ c ≤ 70 ∨ 97 ≤ c ∧ c ≤ 102

instance : DecidablePred IsDigit := fun _ => inferInstanceAs (Decidable (_ ∨ _ ∨ _))

/-- The bit tricks of the decoder, as a table: a value exactly for a digit, and
the encoder writes that value as the digit in lower case. -/
theorem value_table (c : UInt8) :
    ((value c).isSome = true ↔ IsDigit c) ∧
      ∀ v ∈ value c, v < 16 ∧ digit v.toUInt32 = lower c := by
  have h : ∀ n < 256, ((value (UInt8.ofNat n)).isSome = true ↔ IsDigit (UInt8.ofNat n)) ∧
      (value (UInt8.ofNat n)).all fun v =>
        v < 16 ∧ digit v.toUInt32 = lower (UInt8.ofNat n) := by
    decide +kernel
  have hc := h c.toNat c.toNat_lt
  rw [UInt8.ofNat_toNat] at hc
  exact ⟨hc.1, by simpa [Option.all_eq_true] using hc.2⟩

/-- The halves of a byte put together from two values. -/
theorem halves {v w : UInt8} (hv : v < 16) (hw : w < 16) :
    (v * 16 ||| w) >>> 4 = v ∧ (v * 16 ||| w) &&& 0xf = w := by
  have h : ∀ n m : Fin 16,
      (UInt8.ofNat n * 16 ||| UInt8.ofNat m) >>> 4 = UInt8.ofNat n ∧
        (UInt8.ofNat n * 16 ||| UInt8.ofNat m) &&& 0xf = UInt8.ofNat m := by
    decide +kernel
  simpa using h ⟨v.toNat, hv⟩ ⟨w.toNat, hw⟩

theorem isSome_pairs (hex : Bytes) :
    (pairs hex).isSome = true ↔ hex.length % 2 = 0 ∧ ∀ c ∈ hex, IsDigit c := by
  induction hex using pairs.induct with
  | case1 => simp [pairs]
  | case2 c => simp [pairs]
  | case3 x y hex ih =>
    have hl : (x :: y :: hex).length % 2 = hex.length % 2 := by simp [Nat.add_assoc]
    rw [hl]
    simp only [List.forall_mem_cons, ← (value_table x).1, ← (value_table y).1, pairs]
    cases value x with
    | none => simp
    | some v =>
      cases value y with
      | none => simp
      | some w => simpa using ih

/-- A text that decodes, in lower case, is the encoding of its bytes. -/
theorem bin2hex_pairs {hex b : Bytes} (h : pairs hex = some b) : bin2hex b = hex.map lower := by
  induction hex using pairs.induct generalizing b with
  | case1 => cases h; rfl
  | case2 c => cases h
  | case3 x y hex ih =>
    obtain ⟨v, hx, h⟩ := Option.bind_eq_some_iff.mp h
    obtain ⟨w, hy, h⟩ := Option.bind_eq_some_iff.mp h
    obtain ⟨d, hd, rfl⟩ := Option.map_eq_some_iff.mp h
    obtain ⟨hv, ev⟩ := (value_table x).2 v hx
    obtain ⟨hw, ew⟩ := (value_table y).2 w hy
    obtain ⟨h₁, h₂⟩ := halves hv hw
    have e : bin2hex ((v * 16 ||| w) :: d) =
        digit ((v * 16 ||| w) >>> 4).toUInt32 :: digit ((v * 16 ||| w) &&& 0xf).toUInt32 ::
          bin2hex d := rfl
    rw [e, h₁, h₂, ev, ew, ih hd]
    rfl

theorem toHex_eq (d : Bytes) :
    toHex d = if d = [] ∨ SIZE_MAX / 2 ≤ d.length then none else some (bin2hex d) := by
  unfold toHex toHexInto
  by_cases h0 : d = []
  · simp [h0]
  by_cases hl : SIZE_MAX / 2 ≤ d.length
  · simp [hl]
  · have hm : (d.length * 2 + 1) % (SIZE_MAX + 1) = d.length * 2 + 1 := by
      apply Nat.mod_eq_of_lt
      unfold SIZE_MAX at hl ⊢
      omega
    rw [hm, if_neg h0, if_neg (by omega), if_neg (by simp [h0, hl])]

/-- **The codec.** A text decodes exactly if it is not empty, consists of an
even number of digits of either case and fits; then it is, in lower case, the
encoding of what it decodes to. What the encoder accepts (bytes, but not as many
as half of `SIZE_MAX`) decodes to itself in any buffer that has room. -/
theorem hex_codec (max : Nat) (hex d : Bytes) :
    ((fromHex max hex).2 = true ↔
      hex ≠ [] ∧ hex.length % 2 = 0 ∧ (∀ c ∈ hex, IsDigit c) ∧ hex.length / 2 ≤ max) ∧
    ((fromHex max hex).2 = true → bin2hex (fromHex max hex).1 = hex.map lower) ∧
    (toHex d = none ↔ d = [] ∨ SIZE_MAX / 2 ≤ d.length) ∧
    ∀ t ∈ toHex d, t = bin2hex d ∧ (d.length ≤ max → fromHex max t = (d, true)) := by
  refine ⟨?_, ?_, ?_, ?_⟩
  · constructor
    · intro h
      obtain ⟨h0, hp, hl⟩ := fromHex_eq.mp (Prod.ext rfl h : fromHex max hex = (_, true))
      have he := (isSome_pairs hex).mp (by rw [hp]; rfl)
      have hn := length_pairs hp
      exact ⟨h0, he.1, he.2, by omega⟩
    · rintro ⟨h0, he, hd, hl⟩
      obtain ⟨b, hb⟩ := Option.isSome_iff_exists.mp ((isSome_pairs hex).mpr ⟨he, hd⟩)
      have hn := length_pairs hb
      rw [fromHex_eq.mpr ⟨h0, hb, by omega⟩]
  · intro h
    exact bin2hex_pairs (fromHex_eq.mp (Prod.ext rfl h : fromHex max hex = (_, true))).2.1
  · rw [toHex_eq]
    by_cases h : d = [] ∨ SIZE_MAX / 2 ≤ d.length
    · rw [if_pos h]
      simp only [h]
    · rw [if_neg h]
      simp only [reduceCtorEq, h]
  · intro t ht
    rw [toHex_eq] at ht
    split at ht
    · cases ht
    · rename_i h
      cases ht
      exact ⟨rfl, fun hl => hex2bin_bin2hex (fun h0 => h (.inl h0)) hl⟩

/-- The empty text: an even number of digits that fits anywhere, refused by the
decoder; and the empty sequence has no encoding. -/
theorem hex_codec_empty :
    ¬ (∀ max hex, (fromHex max hex).2 = true ↔
        hex.length % 2 = 0 ∧ (∀ c ∈ hex, IsDigit c) ∧ hex.length / 2 ≤ max) ∧
      ¬ (∀ d, ∃ t ∈ toHex d, fromHex d.length t = (d, true)) := by
  constructor
  · intro h
    have := (h 0 []).mpr (by simp)
    simp [fromHex] at this
  · intro h
    obtain ⟨t, ht, -⟩ := h []
    simp [toHex] at ht

end Cvt

end Rxs
