import Mathlib.Data.Nat.Digits.Lemmas
import Rxs.Core.Masks
import Rxs.L1Encoding.ParseForward
import Rxs.L1Encoding.Header

/-!
# The integer of a varint

A varint spells an integer in seven bits a byte, the low ones first. `getVarint` puts them
into a 64-bit word without a test: the tenth byte has one bit that fits, and from the
eleventh byte on the shift is by 64 or more, which the language leaves open.

* `foldl_varintStep`: ten bytes give the integer modulo `2^64`.
* **`getVarint_exact`**: the reader is exact, whatever comes of such a shift, if and only if
  nothing ends the varint, or its integer is a 64-bit word and it has at most ten bytes (or
  all bits are set by then).
* `getVarint_exact_fails`: a tenth byte of 2.
* `readVarint_varintBytes`: what the templates and signatures write is read back.
-/
namespace Rxs

open Rxs.Core

namespace BlobReader

/-- The call, on the variable of the caller.
mirrors src/base/tools/cryptonote/BlobReader.h:36 -/
def readVarint {ρ : Type} (p : Platform) (fuel : Nat) : Scanner ρ UInt64 Unit := do
  let result ← getVarint p fuel
  Scanner.update fun _ => result

end BlobReader

namespace L1.Varint

open BlobReader L1.ParseForward

/-- The bytes of a varint.
mirrors src/base/tools/cryptonote/BlockTemplate.cpp:201-206 and
src/base/tools/cryptonote/Signatures.cpp:73-78 -/
def varintBytes (k : UInt64) : Bytes :=
  if k ≥ 0x80 then (k.toUInt8 &&& 0x7F ||| 0x80) :: varintBytes (k >>> 7) else [k.toUInt8]
termination_by k.toNat
decreasing_by
  rename_i h
  have hk : (0x80 : UInt64).toNat ≤ k.toNat := UInt64.le_iff_toNat_le.mp h
  rw [UInt64.toNat_shiftRight, Nat.shiftRight_eq_div_pow]
  exact Nat.div_lt_self (Nat.lt_of_lt_of_le (by decide) hk) (by decide)

/-- The seven bits of a byte. -/
def payload (b : UInt8) : Nat := (b &&& 0x7F).toNat

/-- The sum of the payloads `b` at the place `i`, times `128^i`. -/
def value (b : Bytes) : Nat := Nat.ofDigits 128 (b.map payload)

/-- A reader of `d` at `i`, and the variable of the caller. -/
def reader (d : Buffer) (i : Nat) (data : UInt64) : Scan UInt64 :=
  { mem := d.1, cur := ⟨0, d.1.length, i⟩, data := data }

/-- A read that fails leaves the variable alone. Another one takes the bytes up to the first
below `0x80`, and the variable has their integer. -/
def Exact (p : Platform) (fuel : Nat) (d : Buffer) (i : Nat) (data : UInt64) : Prop :=
  match (readVarint p fuel : Scanner Unit UInt64 Unit) (reader d i data) with
  | .error e t => e = .thrown ∧ t.data = data
  | .ok _ t => ∃ n, varintLength (d.1.drop i) = some n ∧ t.cur.index = i + n ∧
      t.data.toNat = value ((d.1.drop i).take n)

/-! ## The writer -/

theorem shr7 (k : UInt64) : (k >>> 7).toNat = k.toNat / 128 := by
  rw [UInt64.toNat_shiftRight, Nat.shiftRight_eq_div_pow]
  rfl

/-- One byte of the writer, in numbers. -/
theorem varintBytes_eq (k : UInt64) : varintBytes k =
    if k.toNat < 128 then [UInt8.ofNat k.toNat]
    else UInt8.ofNat (k.toNat % 128 + 128) :: varintBytes (k >>> 7) := by
  have h80 : (0x80 : UInt8).toNat = 2 ^ 7 * 1 := rfl
  have h7F : (0x7F : UInt8).toNat = 2 ^ 7 - 1 := rfl
  have hge : k ≥ 0x80 ↔ 128 ≤ k.toNat := UInt64.le_iff_toNat_le
  rw [varintBytes]
  by_cases h : k.toNat < 128
  · rw [if_neg (by rw [hge]; omega), if_pos h]
    rfl
  · rw [if_pos (by rw [hge]; omega), if_neg h]
    have hbyte : k.toUInt8 &&& 0x7F ||| 0x80 = UInt8.ofNat (k.toNat % 128 + 128) := by
      refine UInt8.toNat_inj.mp ?_
      rw [UInt8.toNat_or, UInt8.toNat_and, h7F, h80, Nat.and_two_pow_sub_one_eq_mod, Nat.or_comm,
        ← Nat.two_pow_add_eq_or_of_lt (Nat.mod_lt _ (by decide)), UInt64.toNat_toUInt8,
        UInt8.toNat_ofNat']
      omega
    rw [hbyte]

theorem length_varintBytes {n : Nat} {k : UInt64} (h : k.toNat < 2 ^ (7 * (n + 1))) :
    1 ≤ (varintBytes k).length ∧ (varintBytes k).length ≤ n + 1 := by
  induction n generalizing k with
  | zero =>
    rw [varintBytes_eq, if_pos (by simpa using h)]
    simp
  | succ n ih =>
    rw [varintBytes_eq]
    split
    · simp
    · have hlt : (k >>> 7).toNat < 2 ^ (7 * (n + 1)) := by
        rw [shr7, Nat.div_lt_iff_lt_mul (by decide)]
        have hpow : 2 ^ (7 * (n + 1 + 1)) = 2 ^ (7 * (n + 1)) * 128 := by
          rw [show 7 * (n + 1 + 1) = 7 * (n + 1) + 7 by omega, Nat.pow_add]
        omega
      have := ih hlt
      simp only [List.length_cons]
      omega

/-! ## Into the word -/

theorem payload_lt (b : UInt8) : payload b < 128 := by
  have h7F : (0x7F : UInt8).toNat = 2 ^ 7 - 1 := rfl
  rw [payload, UInt8.toNat_and, h7F, Nat.and_two_pow_sub_one_eq_mod]
  exact Nat.mod_lt _ (by decide)

@[simp] theorem value_nil : value [] = 0 := rfl

theorem value_cons (b : UInt8) (bs : Bytes) : value (b :: bs) = payload b + 128 * value bs := by
  simp [value, Nat.ofDigits_cons]

theorem value_append (b c : Bytes) : value (b ++ c) = value b + 128 ^ b.length * value c := by
  simp [value, Nat.ofDigits_append]

/-- Bits from `k` on are put above those that are there; what does not fit is lost. -/
theorem or_shift {r x : UInt64} {k : Nat} (hk : k < 64) (hr : r.toNat < 2 ^ k) :
    (r ||| x <<< UInt64.ofNat k).toNat = (r.toNat + 2 ^ k * x.toNat) % 2 ^ 64 := by
  have hk64 : (UInt64.ofNat k).toNat % 64 = k := by
    rw [UInt64.toNat_ofNat']
    omega
  rw [UInt64.toNat_or, UInt64.toNat_shiftLeft, hk64, Masks.or_shift (by omega) hr]

/-- **Bytes that shift by less than 64**, behind `i` that were read. -/
theorem foldl_varintStep (p : Platform) {b : Bytes} {i : Nat} {v : Varint} (hi : i + b.length ≤ 10)
    (hs : v.shift = 7 * i) (hr : v.result.toNat < 2 ^ (7 * i)) :
    (b.foldl (varintStep p) v).result.toNat = (v.result.toNat + 2 ^ (7 * i) * value b) % 2 ^ 64 := by
  induction b generalizing i v with
  | nil =>
    rw [List.foldl_nil, value_nil, Nat.mul_zero, Nat.add_zero, Nat.mod_eq_of_lt v.result.toNat_lt]
  | cons c b ih =>
    rw [List.length_cons] at hi
    have hx : (c &&& 0x7F).toUInt64.toNat = payload c := UInt8.toNat_toUInt64 _
    have hc := payload_lt c
    have hpow : 2 ^ (7 * (i + 1)) = 2 ^ (7 * i) * 128 := Nat.pow_add 2 (7 * i) 7
    have hstep : (varintStep p v c).result.toNat =
        (v.result.toNat + 2 ^ (7 * i) * payload c) % 2 ^ 64 := by
      have h := or_shift (x := (c &&& 0x7F).toUInt64) (show v.shift < 64 by omega) (hs ▸ hr)
      rw [hx, hs] at h
      unfold varintStep shl
      rw [if_pos (by omega), hs, h]
    have hbound : v.result.toNat + 2 ^ (7 * i) * payload c < 2 ^ (7 * (i + 1)) := by
      have := Nat.mul_le_mul_left (2 ^ (7 * i)) (show payload c + 1 ≤ 128 by omega)
      rw [Nat.mul_add] at this
      omega
    rw [List.foldl_cons, ih (i := i + 1) (by omega) (by show v.shift + 7 = _; omega)
      (by rw [hstep]; exact Nat.lt_of_le_of_lt (Nat.mod_le _ _) hbound), hstep, value_cons, hpow,
      Nat.mod_add_mod, Nat.mul_add, Nat.mul_assoc, Nat.add_assoc]

theorem varintOf_short (p : Platform) {b : Bytes} (h : b.length ≤ 10) :
    (varintOf p b).toNat = value b % 2 ^ 64 := by
  have hfold := foldl_varintStep p (b := b) (v := {}) (i := 0) (by omega) rfl (by decide)
  rw [varintOf, hfold]
  simp

/-- Bits that are set stay. -/
theorem foldl_ones (p : Platform) {b : Bytes} {v : Varint} (h : v.result = -1) :
    (b.foldl (varintStep p) v).result = -1 := by
  induction b generalizing v with
  | nil => exact h
  | cons c b ih =>
    refine ih ?_
    show v.result ||| _ = -1
    rw [h, UInt64.neg_one_or]

theorem foldl_shift (p : Platform) (b : Bytes) (v : Varint) :
    (b.foldl (varintStep p) v).shift = v.shift + 7 * b.length := by
  induction b generalizing v with
  | nil => rfl
  | cons c b ih =>
    rw [List.foldl_cons, ih, List.length_cons]
    show v.shift + 7 + 7 * b.length = _
    omega

/-! ## More than ten bytes -/

/-- The bits of a full word stay, whatever the shifts by 64 or more come to. -/
theorem varintOf_full (p : Platform) {b : Bytes} (h : value b = 2 ^ 64 - 1) :
    (varintOf p b).toNat = value b := by
  have hsplit := List.take_append_drop 10 b
  have hvalue := value_append (b.take 10) (b.drop 10)
  rw [hsplit] at hvalue
  by_cases hlen : b.length ≤ 10
  · rw [varintOf_short p hlen, Nat.mod_eq_of_lt (by rw [h]; decide)]
  · have hten : (b.take 10).length = 10 := by
      rw [List.length_take]
      omega
    rw [hten] at hvalue
    have hzero : value (b.drop 10) = 0 := by
      by_contra hne
      have := Nat.mul_le_mul_left (128 ^ 10) (show 1 ≤ value (b.drop 10) by omega)
      omega
    have hfirst := varintOf_short p (Nat.le_of_eq hten)
    have hones : varintOf p (b.take 10) = -1 := by
      rw [hzero] at hvalue
      refine UInt64.toNat_inj.mp ?_
      rw [hfirst, show value (b.take 10) = 2 ^ 64 - 1 by omega]
      rfl
    have hall : varintOf p b = -1 := by
      rw [varintOf, ← hsplit, List.foldl_append]
      exact foldl_ones p hones
    rw [hall, h]
    rfl

/-- A platform on which a shift by 64 or more sets every bit. -/
def ones : Platform := { Platform.sample with shlBeyond := fun _ _ => -1 }

theorem ones_step {v : Varint} (c : UInt8) (h : 64 ≤ v.shift) :
    (varintStep ones v c).result = -1 := by
  unfold varintStep shl
  rw [if_neg (by omega)]
  exact UInt64.or_neg_one

theorem varintOf_ones {b : Bytes} (h : 10 < b.length) : varintOf ones b = -1 := by
  have hten : (b.take 10).length = 10 := by
    rw [List.length_take]
    omega
  rw [varintOf, ← List.take_append_drop 10 b, List.foldl_append]
  cases hrest : b.drop 10 with
  | nil =>
    have := congrArg List.length hrest
    rw [List.length_drop, List.length_nil] at this
    omega
  | cons c cs =>
    have hshift := foldl_shift ones (b.take 10) {}
    rw [hten] at hshift
    rw [List.foldl_cons]
    exact foldl_ones ones (ones_step c (by rw [hshift]; decide))

/-! ## The law -/

/-- The integer of the varint, if there is one, is what the reader has. -/
theorem exact_iff (p : Platform) {fuel : Nat} (d : Buffer) (i : Nat) (data : UInt64)
    (hf : d.1.length ≤ fuel) :
    Exact p fuel d i data ↔ ∀ n, varintLength (d.1.drop i) = some n →
      (varintOf p ((d.1.drop i).take n)).toNat = value ((d.1.drop i).take n) := by
  have hs : Whole (reader d i data) := ⟨rfl, rfl, d.2⟩
  have hrest : rest (reader d i data) = d.1.drop i := rfl
  have hfuel : (d.1.drop i).length ≤ fuel := by
    rw [List.length_drop]
    omega
  unfold Exact readVarint
  rcases getVarint_ran (ρ := Unit) (p := p) hs fuel with
    ⟨n, hn, -, hv⟩ | ⟨e, t, hv, ht, ⟨-, hlt, -⟩ | ⟨he, hnone⟩⟩
  · rw [hrest] at hn hv
    obtain ⟨-, -, hcur⟩ := afterBytes_spec (reader d i data) n
    rw [L1.Header.run_ok hv, hn]
    constructor
    · rintro ⟨m, hm, -, hvalue⟩ k hk
      cases hm
      cases hk
      exact hvalue
    · intro h
      exact ⟨n, rfl, congrArg Cursor.index hcur, h n rfl⟩
  · rw [hrest] at hlt
    omega
  · rw [hrest] at hnone
    rw [L1.Header.run_error hv, hnone]
    constructor
    · intro _ n hn
      cases hn
    · intro _
      exact ⟨he, ht⟩

/-- **The reader is exact** if and only if nothing ends the varint, or its integer is a 64-bit
word that ten bytes have. -/
theorem getVarint_exact (d : Buffer) (i : Nat) (data : UInt64) :
    (∀ p fuel, d.1.length ≤ fuel → Exact p fuel d i data) ↔
      ∀ n, varintLength (d.1.drop i) = some n → value ((d.1.drop i).take n) < 2 ^ 64 ∧
        (n ≤ 10 ∨ value ((d.1.drop i).take n) = 2 ^ 64 - 1) := by
  constructor
  · intro h n hn
    have hexact := fun p => (exact_iff p d i data (Nat.le_refl _)).mp (h p _ (Nat.le_refl _)) n hn
    refine ⟨hexact ones ▸ UInt64.toNat_lt _, ?_⟩
    by_cases hlen : n ≤ 10
    · exact .inl hlen
    · have hle := (varintLength_pos hn).2
      have hones := varintOf_ones (b := (d.1.drop i).take n) (by rw [List.length_take]; omega)
      refine .inr ?_
      rw [← hexact ones, hones]
      rfl
  · intro h p fuel hf
    refine (exact_iff p d i data hf).mpr fun n hn => ?_
    obtain ⟨hlt, hlen | hfull⟩ := h n hn
    · rw [varintOf_short p (by rw [List.length_take]; omega), Nat.mod_eq_of_lt hlt]
    · exact varintOf_full p hfull

/-- Nine bytes of ones, and a tenth byte whose bit is that of `2^64`. -/
def overflow : Buffer := ⟨List.replicate 9 0xFF ++ [2], by decide⟩

/-- The bit is lost. -/
theorem getVarint_exact_fails : ¬ Exact Platform.sample 16 overflow 0 0 := by
  intro h
  have hvalue := (exact_iff Platform.sample overflow 0 0 (by decide)).mp h 10 (by decide)
  revert hvalue
  decide

/-! ## Reading what was written -/

theorem payload_ofNat {n : Nat} (h : n < 256) : payload (UInt8.ofNat n) = n % 128 := by
  have h7F : (0x7F : UInt8).toNat = 2 ^ 7 - 1 := rfl
  rw [payload, UInt8.toNat_and, h7F, Nat.and_two_pow_sub_one_eq_mod, UInt8.toNat_ofNat',
    Nat.mod_eq_of_lt h]

theorem value_varintBytes (k : UInt64) : value (varintBytes k) = k.toNat := by
  induction h : k.toNat using Nat.strongRecOn generalizing k with
  | ind n ih =>
    subst h
    rw [varintBytes_eq]
    split
    · rw [value_cons, value_nil, payload_ofNat (by omega)]
      omega
    · rw [value_cons, payload_ofNat (by omega), ih (k.toNat / 128) (by omega) (k >>> 7) (shr7 k)]
      omega

/-- Every byte but the last one is from `0x80` on. -/
theorem varintLength_varintBytes (k : UInt64) (rest : Bytes) :
    varintLength (varintBytes k ++ rest) = some (varintBytes k).length := by
  have h80 : (0x80 : UInt8).toNat = 128 := rfl
  induction h : k.toNat using Nat.strongRecOn generalizing k with
  | ind n ih =>
    subst h
    rw [varintBytes_eq]
    split
    · rw [List.singleton_append, varintLength_cons,
        if_pos (by rw [UInt8.lt_iff_toNat_lt, UInt8.toNat_ofNat', h80]; omega)]
      rfl
    · rw [List.cons_append, varintLength_cons,
        if_neg (by rw [UInt8.lt_iff_toNat_lt, UInt8.toNat_ofNat', h80]; omega),
        ih (k.toNat / 128) (by omega) (k >>> 7) (shr7 k)]
      rfl

/-- **The round trip**: the reader takes the bytes of the writer, and has its word. -/
theorem readVarint_varintBytes (p : Platform) {fuel : Nat} (d : Buffer) (i : Nat) (data k : UInt64)
    {b : Bytes} (hd : d.1.drop i = varintBytes k ++ b) (hf : d.1.length ≤ fuel) :
    ∃ t, (readVarint p fuel : Scanner Unit UInt64 Unit) (reader d i data) = .ok () t ∧
      t.data = k ∧ t.cur.index = i + (varintBytes k).length := by
  have hs : Whole (reader d i data) := ⟨rfl, rfl, d.2⟩
  have hrest : rest (reader d i data) = d.1.drop i := rfl
  have hlength := varintLength_varintBytes k b
  have hten := (length_varintBytes (n := 9) (k := k) (by have := k.toNat_lt; omega)).2
  rw [← hd] at hlength
  unfold readVarint
  rcases getVarint_ran (ρ := Unit) (p := p) hs fuel with
    ⟨n, hn, -, hv⟩ | ⟨e, t, hv, ht, ⟨-, hlt, -⟩ | ⟨he, hnone⟩⟩
  · obtain ⟨-, -, hcur⟩ := afterBytes_spec (reader d i data) n
    rw [hrest, hlength] at hn
    cases hn
    rw [L1.Header.run_ok hv]
    refine ⟨_, rfl, UInt64.toNat_inj.mp ?_, congrArg Cursor.index hcur⟩
    show (varintOf p ((d.1.drop i).take _)).toNat = _
    rw [hd, List.take_left' rfl, varintOf_short p hten, value_varintBytes,
      Nat.mod_eq_of_lt k.toNat_lt]
  · rw [hrest, List.length_drop] at hlt
    omega
  · rw [hrest, hlength] at hnone
    cases hnone

end L1.Varint

end Rxs
