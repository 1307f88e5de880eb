import Rxs.L1Encoding.Json
import Rxs.L2Machine.CString

/-!
# Items of an MSR preset

A register, a value for it and a mask of the bits to set. `MsrItem::toString` prints an
item into 48 bytes: a register of 8 digits with a value and a mask of 16 digits each takes
48, and one more for the end.

* `ofJson_toJSON`: the item that is read of the text of another one.
* **`back_iff`**, `fits_ofJson`: when it is the same, by the item and by the text it is of.
-/
namespace Rxs.L2

open Rxs.Core Rxs.CString

/-- mirrors src/hw/msr/MsrItem.h:36-66 -/
structure MsrItem where
  m_reg : UInt32 := 0
  m_value : UInt64 := 0
  m_mask : UInt64 := 0xffffffffffffffff
  deriving DecidableEq, Repr

namespace MsrItem

def kNoMask : UInt64 := 0xffffffffffffffff

/-- mirrors src/hw/msr/MsrItem.h:45 -/
def isValid (i : MsrItem) : Bool := i.m_reg > 0

/-- mirrors src/hw/msr/MsrItem.h:50-53 -/
def maskedValue (old_value new_value mask : UInt64) : UInt64 :=
  (new_value &&& mask) ||| (old_value &&& ~~~mask)

/-- mirrors src/hw/msr/MsrItem.cpp:27-41 -/
def ofJson : Json → MsrItem
  | .string s =>
    match split 58 (cstr s) with
    | k :: v :: rest =>
      { m_reg := UInt32.ofNat (strtoul 0 k)
        m_value := UInt64.ofNat (strtoul 0 v)
        m_mask := match rest with
          | m :: _ => UInt64.ofNat (strtoul 0 m)
          | [] => kNoMask }
    | _ => {}
  | _ => {}

/-- What `snprintf` has to print. -/
def text (i : MsrItem) : Bytes :=
  ascii "0x" ++ hex i.m_reg.toNat ++ ascii ":0x" ++ hex i.m_value.toNat ++
    if i.m_mask ≠ kNoMask then ascii ":0x" ++ hex i.m_mask.toNat else []

/-- mirrors src/hw/msr/MsrItem.cpp:50-64 -/
def toString (i : MsrItem) : Bytes := i.text.take 47

/-- mirrors src/hw/msr/MsrItem.cpp:44-47 -/
def toJSON (i : MsrItem) : Json := .string i.toString

/-! ## What is asked -/

/-- A text of a register, a value and a mask with as many digits as there can be. -/
def Wide (x : Json) : Prop :=
  ∃ s k v m rest, x = .string s ∧ split 58 (cstr s) = k :: v :: m :: rest ∧
    2 ^ 28 ≤ strtoul 0 k % 2 ^ 32 ∧ 2 ^ 60 ≤ strtoul 0 v ∧
    2 ^ 60 ≤ strtoul 0 m ∧ strtoul 0 m < 2 ^ 64 - 1

/-- The last digit is printed. -/
def Fits (i : MsrItem) : Prop :=
  i.m_mask = kNoMask ∨ i.m_reg.toNat < 2 ^ 28 ∨ i.m_value.toNat < 2 ^ 60 ∨
    i.m_mask.toNat < 2 ^ 60

instance (i : MsrItem) : Decidable (Fits i) := inferInstanceAs (Decidable (_ ∨ _))

/-! ## The text of an item -/

/-- A number as it is in the text. -/
def field (n : Nat) : Bytes := 48 :: 120 :: hex n

theorem field_ne_nil (n : Nat) : field n ≠ [] := by simp [field]

theorem mem_field {n : Nat} {c : UInt8} (h : c ∈ field n) : c ≠ 58 ∧ c ≠ 0 := by
  simp only [field, List.mem_cons] at h
  rcases h with rfl | rfl | h
  · decide
  · decide
  · exact mem_hex h

theorem not_mem_field (n : Nat) : 58 ∉ field n := fun h => (mem_field h).1 rfl

/-- The text as fields. -/
theorem text_eq (i : MsrItem) :
    i.text = field i.m_reg.toNat ++ 58 ::
      (field i.m_value.toNat ++ if i.m_mask = kNoMask then [] else 58 :: field i.m_mask.toNat) := by
  have h₁ : ascii "0x" = [48, 120] := by decide
  have h₂ : ascii ":0x" = [58, 48, 120] := by decide
  unfold text field
  rw [h₁, h₂]
  by_cases hmask : i.m_mask = kNoMask
  · rw [if_neg (not_not.mpr hmask), if_pos hmask]
    simp
  · rw [if_pos hmask, if_neg hmask]
    simp

/-- What is printed of a mask. -/
def printed (i : MsrItem) : Nat :=
  if i.Fits then i.m_mask.toNat else i.m_mask.toNat / 16

theorem toString_eq (i : MsrItem) :
    i.toString = field i.m_reg.toNat ++ 58 ::
      (field i.m_value.toNat ++ if i.m_mask = kNoMask then [] else 58 :: field i.printed) := by
  have hr := (length_hex_le (k := 8) (by omega) i.m_reg.toNat).mpr
    (by have := i.m_reg.toNat_lt; omega)
  have hv := (length_hex_le (k := 16) (by omega) i.m_value.toNat).mpr
    (by have := i.m_value.toNat_lt; omega)
  have hm := (length_hex_le (k := 16) (by omega) i.m_mask.toNat).mpr
    (by have := i.m_mask.toNat_lt; omega)
  have hr' := length_hex_le (k := 7) (by omega) i.m_reg.toNat
  have hv' := length_hex_le (k := 15) (by omega) i.m_value.toNat
  have hm' := length_hex_le (k := 15) (by omega) i.m_mask.toNat
  by_cases hfits : i.Fits
  · have hprinted : i.printed = i.m_mask.toNat := if_pos hfits
    rw [toString, text_eq, hprinted]
    apply List.take_of_length_le
    by_cases hmask : i.m_mask = kNoMask
    · rw [if_pos hmask]
      simp only [field, List.length_append, List.length_cons, List.length_nil]
      omega
    · rw [if_neg hmask]
      have hfits := hfits.resolve_left hmask
      simp only [field, List.length_append, List.length_cons]
      omega
  · have hprinted : i.printed = i.m_mask.toNat / 16 := if_neg hfits
    simp only [Fits, not_or, Nat.not_lt] at hfits
    obtain ⟨hmask, hreg, hvalue, hwide⟩ := hfits
    have hlast : (hex i.m_mask.toNat).take 15 = hex (i.m_mask.toNat / 16) := by
      rw [← dropLast_hex (by omega), List.dropLast_eq_take]
      congr 1
      omega
    -- the mask begins after 32 bytes, and of the 47 that are printed 15 are digits of it
    obtain ⟨p, hp⟩ : ∃ p, field i.m_reg.toNat ++ 58 :: (field i.m_value.toNat ++ [58, 48, 120]) =
      p := ⟨_, rfl⟩
    have hlength : p.length = 32 := by
      rw [← hp]
      simp only [field, List.length_append, List.length_cons, List.length_nil]
      omega
    have hsplit : ∀ n, field i.m_reg.toNat ++ 58 :: (field i.m_value.toNat ++ 58 :: field n) =
        p ++ hex n := by
      intro n
      simp [← hp, field]
    rw [toString, text_eq, hprinted, if_neg hmask, if_neg hmask, hsplit, hsplit, List.take_append,
      List.take_of_length_le (by omega), hlength, hlast]

/-! ## Printed and read -/

theorem cstr_toString (i : MsrItem) : cstr i.toString = i.toString := by
  refine List.takeWhile_eq_self_iff.mpr fun c hc => ?_
  have hne : c ≠ 0 := by
    rw [toString_eq] at hc
    simp only [List.mem_append, List.mem_cons] at hc
    rcases hc with hc | rfl | hc | hc
    · exact (mem_field hc).2
    · decide
    · exact (mem_field hc).2
    · split at hc
      · cases hc
      · rcases List.mem_cons.mp hc with rfl | hc
        · decide
        · exact (mem_field hc).2
  simpa using hne

theorem split_toString (i : MsrItem) :
    split 58 i.toString = field i.m_reg.toNat :: field i.m_value.toNat ::
      if i.m_mask = kNoMask then [] else [field i.printed] := by
  rw [toString_eq, split_cons (field_ne_nil _) (not_mem_field _)]
  split
  · rw [List.append_nil, pieces_last (field_ne_nil _) (not_mem_field _)]
  · rw [pieces_cons (field_ne_nil _) (not_mem_field _),
      pieces_last (field_ne_nil _) (not_mem_field _)]

/-- An item that was printed is read with what is left of its mask. -/
theorem ofJson_toJSON (i : MsrItem) :
    ofJson i.toJSON = if i.Fits then i else { i with m_mask := i.m_mask / 16 } := by
  have hr : UInt32.ofNat (strtoul 0 (field i.m_reg.toNat)) = i.m_reg := by
    rw [field, strtoul_hex (by have := i.m_reg.toNat_lt; omega), UInt32.ofNat_toNat]
  have hv : UInt64.ofNat (strtoul 0 (field i.m_value.toNat)) = i.m_value := by
    rw [field, strtoul_hex i.m_value.toNat_lt, UInt64.ofNat_toNat]
  simp only [ofJson, toJSON, cstr_toString, split_toString, hr, hv]
  by_cases hmask : i.m_mask = kNoMask
  · have hfits : i.Fits := Or.inl hmask
    simp only [if_pos hmask, if_pos hfits]
    rw [← hmask]
  · have hm : UInt64.ofNat (strtoul 0 (field i.printed)) =
        if i.Fits then i.m_mask else i.m_mask / 16 := by
      have hlt := i.m_mask.toNat_lt
      unfold printed
      split
      · rw [field, strtoul_hex hlt, UInt64.ofNat_toNat]
      · rw [field, strtoul_hex (by omega)]
        apply UInt64.toNat_inj.mp
        rw [UInt64.toNat_div, UInt64.toNat_ofNat']
        exact Nat.mod_eq_of_lt (by omega)
    simp only [if_neg hmask, hm]
    split <;> rfl

/-- An item comes back exactly where its mask is printed whole. -/
theorem back_iff (i : MsrItem) : ofJson i.toJSON = i ↔ i.Fits := by
  rw [ofJson_toJSON]
  split
  case isTrue h => simp [h]
  case isFalse h =>
    refine ⟨fun heq => ?_, fun hfits => absurd hfits h⟩
    have hmask : i.m_mask / 16 = i.m_mask := congrArg m_mask heq
    have hdiv : i.m_mask.toNat / 16 = i.m_mask.toNat := by
      have := congrArg UInt64.toNat hmask
      rwa [UInt64.toNat_div] at this
    simp only [Fits, not_or, Nat.not_lt] at h
    omega

theorem isValid_back (i : MsrItem) : (ofJson i.toJSON).isValid = i.isValid := by
  rw [ofJson_toJSON]
  split <;> rfl

theorem strtoul_lt (base : Nat) (s : Bytes) : strtoul base s < 2 ^ 64 := by
  unfold strtoul
  dsimp only
  split
  · omega
  · split <;> omega

/-- Which texts make an item that does not come back. -/
theorem fits_ofJson (x : Json) : (ofJson x).Fits ↔ ¬Wide x := by
  have hshort : ∀ i : MsrItem, i.m_mask = kNoMask → ¬Wide x → (i.Fits ↔ ¬Wide x) :=
    fun i hi hx => ⟨fun _ => hx, fun _ => Or.inl hi⟩
  cases x with
  | string s =>
    have hnot : ∀ ps, split 58 (cstr s) = ps → ps.length < 3 → ¬Wide (.string s) := by
      rintro ps hsplit hlength ⟨_, k, v, m, rest, heq, hs, -⟩
      cases heq
      rw [hsplit] at hs
      rw [hs] at hlength
      simp only [List.length_cons] at hlength
      omega
    obtain hsplit | ⟨k, hsplit⟩ | ⟨k, v, hsplit⟩ | ⟨k, v, m, rest, hsplit⟩ :
        split 58 (cstr s) = [] ∨ (∃ k, split 58 (cstr s) = [k]) ∨
          (∃ k v, split 58 (cstr s) = [k, v]) ∨
          ∃ k v m rest, split 58 (cstr s) = k :: v :: m :: rest := by
      match split 58 (cstr s) with
      | [] => exact Or.inl rfl
      | [k] => exact Or.inr (Or.inl ⟨k, rfl⟩)
      | [k, v] => exact Or.inr (Or.inr (Or.inl ⟨k, v, rfl⟩))
      | k :: v :: m :: rest => exact Or.inr (Or.inr (Or.inr ⟨k, v, m, rest, rfl⟩))
    · exact hshort _ (by simp only [ofJson, hsplit]; rfl) (hnot _ hsplit (by simp))
    · exact hshort _ (by simp only [ofJson, hsplit]; rfl) (hnot _ hsplit (by simp))
    · exact hshort _ (by simp only [ofJson, hsplit]) (hnot _ hsplit (by simp))
    · simp only [ofJson, hsplit]
      have hk : (UInt32.ofNat (strtoul 0 k)).toNat = strtoul 0 k % 2 ^ 32 :=
        UInt32.toNat_ofNat'
      have hv : (UInt64.ofNat (strtoul 0 v)).toNat = strtoul 0 v :=
        UInt64.toNat_ofNat_of_lt (strtoul_lt 0 v)
      have hm : (UInt64.ofNat (strtoul 0 m)).toNat = strtoul 0 m :=
        UInt64.toNat_ofNat_of_lt (strtoul_lt 0 m)
      have hmask : UInt64.ofNat (strtoul 0 m) = kNoMask ↔ strtoul 0 m = 2 ^ 64 - 1 := by
        rw [← UInt64.toNat_inj, hm]
        rfl
      have hlt := strtoul_lt 0 m
      simp only [Fits, hk, hv, hm, hmask]
      constructor
      · rintro hfits ⟨_, k', v', m', rest', heq, hs, hwide⟩
        cases heq
        rw [hsplit] at hs
        cases hs
        omega
      · intro hnarrow
        by_contra hfits
        exact hnarrow ⟨s, k, v, m, rest, rfl, hsplit, by omega⟩
  | _ =>
    refine hshort _ rfl ?_
    rintro ⟨_, _, _, _, _, heq, -⟩
    cases heq

end MsrItem

end Rxs.L2
