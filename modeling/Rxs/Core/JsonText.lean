import Mathlib.Data.List.TakeWhile
import Mathlib.Data.Nat.Digits.Lemmas
import Rxs.Core.Bytes

/-!
# JSON texts

Values, the text a compact writer makes of a value, and a reader of texts as the
grammar has them, with white space. A text is bytes; the encoding of the characters
in a string is not looked at, a code point that is escaped is read as UTF-8. Numbers
are the text they are written as.

* `read_write`: the text of a value reads back.
* `newline_notMem_write`: it is one line.
* `readString_spec`: what a string took from the text; it is the text itself only if
  nothing in it had to be escaped.
-/
namespace Rxs.Core.JsonText

/-! ## Numbers -/

def isDigit (c : UInt8) : Bool := 48 ≤ c && c ≤ 57

/-- A digit or one of `+-.Ee`. -/
def isNumberChar (c : UInt8) : Bool :=
  isDigit c || c = 43 || c = 45 || c = 46 || c = 69 || c = 101

def isDigits (s : Bytes) : Bool := !s.isEmpty && s.all isDigit

def isExponent : Bytes → Bool
  | [] => true
  | e :: s =>
    (e = 101 || e = 69) &&
      (isDigits s || (s.head? = some 43 || s.head? = some 45) && isDigits s.tail)

def isFraction (s : Bytes) : Bool :=
  if s.head? = some 46 then
    !(s.tail.takeWhile isDigit).isEmpty && isExponent (s.tail.dropWhile isDigit)
  else isExponent s

/-- No sign in front. -/
def isUnsigned : Bytes → Bool
  | [] => false
  | c :: s => isDigit c && isFraction (if c = 48 then s else s.dropWhile isDigit)

def isNumber (s : Bytes) : Bool :=
  s.all isNumberChar && isUnsigned (if s.head? = some 45 then s.tail else s)

/-- The text of a number. -/
abbrev Number := { s : Bytes // isNumber s = true }

/-- The digits of a number, highest first. -/
def decimal (n : Nat) : Bytes :=
  if n = 0 then [48] else (Nat.digits 10 n).reverse.map fun d => UInt8.ofNat (48 + d)

def decimalInt (n : Int) : Bytes :=
  if n < 0 then 45 :: decimal n.natAbs else decimal n.natAbs

/-! ## Values -/

inductive Value where
  | null
  | bool (b : Bool)
  | number (n : Number)
  | string (s : Bytes)
  | array (elements : List Value)
  | object (members : List (Bytes × Value))

/-! ## The writer -/

def hexDigit (n : UInt8) : UInt8 := if n < 10 then 48 + n else 55 + n

def escape (c : UInt8) : Bytes :=
  if c = 34 then [92, 34]
  else if c = 92 then [92, 92]
  else if c = 8 then [92, 98]
  else if c = 9 then [92, 116]
  else if c = 10 then [92, 110]
  else if c = 12 then [92, 102]
  else if c = 13 then [92, 114]
  else if c < 32 then [92, 117, 48, 48, hexDigit (c >>> 4), hexDigit (c &&& 15)]
  else [c]

def writeString (s : Bytes) : Bytes := 34 :: (s.flatMap escape ++ [34])

mutual

def write : Value → Bytes
  | .null => [110, 117, 108, 108]
  | .bool true => [116, 114, 117, 101]
  | .bool false => [102, 97, 108, 115, 101]
  | .number n => n.1
  | .string s => writeString s
  | .array elements => 91 :: writeElements elements
  | .object members => 123 :: writeMembers members

/-- The elements, up to the bracket. -/
def writeElements : List Value → Bytes
  | [] => [93]
  | [v] => write v ++ [93]
  | v :: w :: vs => write v ++ 44 :: writeElements (w :: vs)

def writeMember : Bytes × Value → Bytes
  | (k, v) => writeString k ++ 58 :: write v

/-- The members, up to the brace. -/
def writeMembers : List (Bytes × Value) → Bytes
  | [] => [125]
  | [m] => writeMember m ++ [125]
  | m :: m' :: ms => writeMember m ++ 44 :: writeMembers (m' :: ms)

end

/-! ## The reader -/

def isSpace (c : UInt8) : Bool := c = 32 || c = 9 || c = 10 || c = 13

def skip (s : Bytes) : Bytes := s.dropWhile isSpace

def hexValue (c : UInt8) : Option Nat :=
  if 48 ≤ c ∧ c ≤ 57 then some (c.toNat - 48)
  else if 65 ≤ c ∧ c ≤ 70 then some (c.toNat - 55)
  else if 97 ≤ c ∧ c ≤ 102 then some (c.toNat - 87)
  else none

def readHex4 : Bytes → Option (Nat × Bytes)
  | a :: b :: c :: d :: s => do
    pure (((← hexValue a) * 16 + (← hexValue b)) * 256 + ((← hexValue c) * 16 + (← hexValue d)), s)
  | _ => none

/-- The UTF-8 of a code point. -/
def utf8 (n : Nat) : Bytes :=
  if n < 0x80 then [UInt8.ofNat n]
  else if n < 0x800 then [UInt8.ofNat (0xc0 + n / 64), UInt8.ofNat (0x80 + n % 64)]
  else if n < 0x10000 then
    [UInt8.ofNat (0xe0 + n / 4096), UInt8.ofNat (0x80 + n / 64 % 64), UInt8.ofNat (0x80 + n % 64)]
  else
    [UInt8.ofNat (0xf0 + n / 262144), UInt8.ofNat (0x80 + n / 4096 % 64),
      UInt8.ofNat (0x80 + n / 64 % 64), UInt8.ofNat (0x80 + n % 64)]

/-- Behind `\u`: a code unit, or two that are one code point. -/
def readUnicode (s : Bytes) : Option (Bytes × Bytes) := do
  let (n, s) ← readHex4 s
  if 0xd800 ≤ n ∧ n < 0xdc00 then
    match s with
    | c :: u :: s =>
      let (m, s) ← readHex4 s
      if c = 92 ∧ u = 117 ∧ 0xdc00 ≤ m ∧ m < 0xe000 then
        some (utf8 (0x10000 + (n - 0xd800) * 1024 + (m - 0xdc00)), s)
      else none
    | _ => none
  else if 0xdc00 ≤ n ∧ n < 0xe000 then none
  else some (utf8 n, s)

/-- The character that one behind a backslash stands for. -/
def unescape (c : UInt8) : Option UInt8 :=
  if c = 34 ∨ c = 92 ∨ c = 47 then some c
  else if c = 98 then some 8
  else if c = 102 then some 12
  else if c = 110 then some 10
  else if c = 114 then some 13
  else if c = 116 then some 9
  else none

/-- Behind the backslash. -/
def readEscape : Bytes → Option (Bytes × Bytes)
  | [] => none
  | c :: s => if c = 117 then readUnicode s else (unescape c).map fun d => ([d], s)

/-- Behind the opening quote; at most `n` characters. -/
def readString : Nat → Bytes → Option (Bytes × Bytes)
  | 0, _ => none
  | _ + 1, [] => none
  | n + 1, c :: s =>
    if c = 34 then some ([], s)
    else if c = 92 then do
      let (t, s) ← readEscape s
      let (u, s) ← readString n s
      pure (t ++ u, s)
    else if c < 32 then none
    else do
      let (u, s) ← readString n s
      pure (c :: u, s)

def literal : Bytes → Bytes → Option Bytes
  | [], s => some s
  | _ :: _, [] => none
  | c :: lit, d :: s => if c = d then literal lit s else none

def readNumber (s : Bytes) : Option (Value × Bytes) :=
  if h : isNumber (s.takeWhile isNumberChar) = true then
    some (.number ⟨_, h⟩, s.dropWhile isNumberChar)
  else none

mutual

/-- At most `n` levels and elements. -/
def readValue : Nat → Bytes → Option (Value × Bytes)
  | 0, _ => none
  | n + 1, s =>
    match skip s with
    | [] => none
    | c :: s =>
      if c = 34 then (readString s.length s).map fun r => (.string r.1, r.2)
      else if c = 91 then
        if (skip s).head? = some 93 then some (.array [], (skip s).tail)
        else (readElements n s).map fun r => (.array r.1, r.2)
      else if c = 123 then
        if (skip s).head? = some 125 then some (.object [], (skip s).tail)
        else (readMembers n s).map fun r => (.object r.1, r.2)
      else if c = 110 then (literal [117, 108, 108] s).map fun s => (.null, s)
      else if c = 116 then (literal [114, 117, 101] s).map fun s => (.bool true, s)
      else if c = 102 then (literal [97, 108, 115, 101] s).map fun s => (.bool false, s)
      else readNumber (c :: s)

def readElements : Nat → Bytes → Option (List Value × Bytes)
  | 0, _ => none
  | n + 1, s => do
    let (v, s) ← readValue n s
    match skip s with
    | [] => none
    | c :: s =>
      if c = 44 then do
        let (vs, s) ← readElements n s
        pure (v :: vs, s)
      else if c = 93 then some ([v], s)
      else none

def readMembers : Nat → Bytes → Option (List (Bytes × Value) × Bytes)
  | 0, _ => none
  | n + 1, s => do
    let s ← literal [34] (skip s)
    let (k, s) ← readString s.length s
    let s ← literal [58] (skip s)
    let (v, s) ← readValue n s
    match skip s with
    | [] => none
    | c :: s =>
      if c = 44 then do
        let (ms, s) ← readMembers n s
        pure ((k, v) :: ms, s)
      else if c = 125 then some ([(k, v)], s)
      else none

end

/-- One value and nothing else but white space. -/
def read (s : Bytes) : Option Value := do
  let (v, s) ← readValue (s.length + 1) s
  if skip s = [] then some v else none

/-! ## Strings -/

theorem hexValue_hexDigit (c : UInt8) :
    hexValue (hexDigit (c >>> 4)) = some (c.toNat / 16) ∧
      hexValue (hexDigit (c &&& 15)) = some (c.toNat % 16) := by
  have h : ∀ n : Fin 256,
      hexValue (hexDigit (UInt8.ofFin n >>> 4)) = some ((UInt8.ofFin n).toNat / 16) ∧
        hexValue (hexDigit (UInt8.ofFin n &&& 15)) = some ((UInt8.ofFin n).toNat % 16) := by
    decide +kernel
  exact h c.toFin

theorem readUnicode_control {c : UInt8} (h : c < 32) (s : Bytes) :
    readUnicode (48 :: 48 :: hexDigit (c >>> 4) :: hexDigit (c &&& 15) :: s) = some ([c], s) := by
  obtain ⟨h₁, h₂⟩ := hexValue_hexDigit c
  have h0 : hexValue 48 = some 0 := by decide
  have hc : c.toNat < 32 := h
  have hn : (0 * 16 + 0) * 256 + (c.toNat / 16 * 16 + c.toNat % 16) = c.toNat := by omega
  have hr : readHex4 (48 :: 48 :: hexDigit (c >>> 4) :: hexDigit (c &&& 15) :: s) =
      some (c.toNat, s) := by
    simp only [readHex4, h0, h₁, h₂, Option.pure_def, Option.bind_eq_bind, Option.bind_some, hn]
  have hu : utf8 c.toNat = [c] := by
    rw [utf8, if_pos (by omega), UInt8.ofNat_toNat]
  simp only [readUnicode, hr, Option.bind_eq_bind, Option.bind_some, hu]
  rw [if_neg (by omega), if_neg (by omega)]

/-- What is written for a character is read as it. -/
theorem readString_escape (c : UInt8) (n : Nat) (s : Bytes) :
    readString (n + 1) (escape c ++ s) = (readString n s).map fun r => (c :: r.1, r.2) := by
  have hm : ∀ t : Bytes,
      (do let (u, s) ← readString n s; pure (t ++ u, s) : Option (Bytes × Bytes)) =
        (readString n s).map fun r => (t ++ r.1, r.2) := by
    intro t
    cases readString n s <;> rfl
  unfold escape
  split
  · subst c
    exact hm [34]
  split
  · subst c
    exact hm [92]
  split
  · subst c
    exact hm [8]
  split
  · subst c
    exact hm [9]
  split
  · subst c
    exact hm [10]
  split
  · subst c
    exact hm [12]
  split
  · subst c
    exact hm [13]
  split
  · rename_i hc
    have hr : readEscape (117 :: 48 :: 48 :: hexDigit (c >>> 4) :: hexDigit (c &&& 15) :: s) =
        some ([c], s) := readUnicode_control hc s
    simp only [List.cons_append, List.nil_append, readString, if_true, hr, Option.bind_eq_bind,
      Option.bind_some]
    exact hm [c]
  · rename_i h₁ h₂ _ _ _ _ _ hc
    simp only [List.singleton_append, readString, if_neg h₁, if_neg h₂, if_neg hc]
    exact hm [c]

theorem escape_ne_nil (c : UInt8) : escape c ≠ [] := by
  unfold escape
  repeat' split
  all_goals exact List.cons_ne_nil _ _

/-- A string that is written reads back. -/
theorem readString_flatMap (t : Bytes) (n : Nat) (s : Bytes)
    (h : (t.flatMap escape).length < n) :
    readString n (t.flatMap escape ++ 34 :: s) = some (t, s) := by
  induction t generalizing n with
  | nil =>
    obtain ⟨n, rfl⟩ := Nat.exists_eq_succ_of_ne_zero (by omega : n ≠ 0)
    rfl
  | cons c t ih =>
    obtain ⟨n, rfl⟩ := Nat.exists_eq_succ_of_ne_zero (by omega : n ≠ 0)
    have hc := List.length_pos_iff.mpr (escape_ne_nil c)
    rw [List.flatMap_cons, List.length_append] at h
    rw [List.flatMap_cons, List.append_assoc, readString_escape, ih n (by omega)]
    rfl

/-! ## Values -/

/-- What follows is no part of a number. -/
def Ends (rest : Bytes) : Prop := ∀ c ∈ rest.head?, isNumberChar c = false

theorem ends_nil : Ends [] := fun _ h => by cases h

theorem ends_cons {c : UInt8} {s : Bytes} (h : isNumberChar c = false) : Ends (c :: s) := by
  intro d hd
  cases hd
  exact h

theorem skip_cons {c : UInt8} (h : isSpace c = false) (s : Bytes) : skip (c :: s) = c :: s := by
  simp [skip, h]

theorem number_ne_nil (n : Number) : n.1 ≠ [] := by
  intro h
  have := n.2
  rw [h] at this
  cases this

theorem number_all (n : Number) : ∀ c ∈ n.1, isNumberChar c = true := by
  have h := n.2
  unfold isNumber at h
  rw [Bool.and_eq_true, List.all_eq_true] at h
  exact h.1

/-- A character of a number starts no other value and is no space. -/
theorem isNumberChar_ne {c : UInt8} (h : isNumberChar c = true) :
    isSpace c = false ∧ c ≠ 34 ∧ c ≠ 91 ∧ c ≠ 93 ∧ c ≠ 123 ∧ c ≠ 110 ∧ c ≠ 116 ∧ c ≠ 102 ∧
      c ≠ 10 := by
  have hall : ∀ n : Fin 256, isNumberChar (UInt8.ofFin n) = true →
      isSpace (UInt8.ofFin n) = false ∧ UInt8.ofFin n ≠ 34 ∧ UInt8.ofFin n ≠ 91 ∧
        UInt8.ofFin n ≠ 93 ∧ UInt8.ofFin n ≠ 123 ∧ UInt8.ofFin n ≠ 110 ∧ UInt8.ofFin n ≠ 116 ∧
        UInt8.ofFin n ≠ 102 ∧ UInt8.ofFin n ≠ 10 := by
    decide +kernel
  exact hall c.toFin h

theorem readNumber_write (n : Number) {rest : Bytes} (h : Ends rest) :
    readNumber (n.1 ++ rest) = some (.number n, rest) := by
  have hr : rest.takeWhile isNumberChar = [] ∧ rest.dropWhile isNumberChar = rest := by
    cases rest with
    | nil => exact ⟨rfl, rfl⟩
    | cons c s => simp [h c rfl]
  have ht : (n.1 ++ rest).takeWhile isNumberChar = n.1 := by
    rw [List.takeWhile_append_of_pos (number_all n), hr.1, List.append_nil]
  have hd : (n.1 ++ rest).dropWhile isNumberChar = rest := by
    rw [List.dropWhile_append_of_pos (number_all n), hr.2]
  simp only [readNumber, ht, hd, n.2, dif_pos]

theorem readValue_number (n : Number) (fuel : Nat) {rest : Bytes} (h : Ends rest) :
    readValue (fuel + 1) (n.1 ++ rest) = some (.number n, rest) := by
  have hr := readNumber_write n h
  obtain ⟨c, t, hn⟩ := List.exists_cons_of_ne_nil (number_ne_nil n)
  obtain ⟨h0, h₁, h₂, -, h₃, h₄, h₅, h₆, -⟩ :=
    isNumberChar_ne (number_all n c (by rw [hn]; exact List.mem_cons_self))
  rw [hn] at hr ⊢
  rw [readValue, List.cons_append, skip_cons h0]
  simp only [if_neg h₁, if_neg h₂, if_neg h₃, if_neg h₄, if_neg h₅, if_neg h₆]
  exact hr

theorem readValue_quote (n : Nat) (s : Bytes) :
    readValue (n + 1) (34 :: s) = (readString s.length s).map fun r => (.string r.1, r.2) := by
  rw [readValue, skip_cons (by decide)]
  rfl

theorem readValue_string (t : Bytes) (fuel : Nat) (rest : Bytes) :
    readValue (fuel + 1) (writeString t ++ rest) = some (.string t, rest) := by
  have h : writeString t ++ rest = 34 :: (t.flatMap escape ++ 34 :: rest) := by
    simp [writeString]
  rw [h, readValue_quote, readString_flatMap _ _ _ (by rw [List.length_append]; simp)]
  rfl

theorem write_ne_nil (v : Value) : write v ≠ [] := by
  cases v with
  | bool b => cases b <;> simp [write]
  | number n => exact number_ne_nil n
  | _ => simp [write, writeString]

/-- No text of a value starts as the end of an array does, or with a space. -/
theorem head_write (v : Value) : ∃ c t, write v = c :: t ∧ isSpace c = false ∧ c ≠ 93 := by
  cases v with
  | bool b => cases b <;> exact ⟨_, _, rfl, by decide⟩
  | number n =>
    obtain ⟨c, t, hn⟩ := List.exists_cons_of_ne_nil (number_ne_nil n)
    obtain ⟨h0, -, -, h, -⟩ :=
      isNumberChar_ne (number_all n c (by rw [hn]; exact List.mem_cons_self))
    exact ⟨c, t, hn, h0, h⟩
  | _ => exact ⟨_, _, rfl, by decide⟩

/-- Behind a member. -/
def readMore (n : Nat) (m : Bytes × Value) (s : Bytes) : Option (List (Bytes × Value) × Bytes) :=
  match skip s with
  | [] => none
  | c :: s =>
    if c = 44 then (readMembers n s).map fun r => (m :: r.1, r.2)
    else if c = 125 then some ([m], s)
    else none

/-- The name of a member, then its value. -/
theorem readMembers_key (k : Bytes) (n : Nat) (s : Bytes) :
    readMembers (n + 1) (writeString k ++ 58 :: s) =
      (readValue n s).bind fun r => readMore n (k, r.1) r.2 := by
  have h : writeString k ++ 58 :: s = 34 :: (k.flatMap escape ++ 34 :: 58 :: s) := by
    simp [writeString]
  rw [h, readMembers, skip_cons (by decide)]
  simp only [literal, if_true, Option.bind_eq_bind, Option.bind_some]
  rw [readString_flatMap _ _ _ (by rw [List.length_append]; simp), Option.bind_some]
  simp only [skip_cons (show isSpace 58 = false by decide), literal, if_true, Option.bind_some]
  congr
  funext ⟨v, s⟩
  dsimp only [readMore]
  split
  · rfl
  · split
    · cases readMembers n _ <;> rfl
    · rfl

theorem head_readMore {n : Nat} {m : Bytes × Value} {s r : Bytes} {ms : List (Bytes × Value)}
    (h : readMore n m s = some (ms, r)) : ms.head? = some m := by
  unfold readMore at h
  split at h
  · cases h
  · split at h
    · obtain ⟨q, -, h⟩ := Option.map_eq_some_iff.mp h
      cases h
      rfl
    · split at h
      · cases h
        rfl
      · cases h

/-- A member and what follows it; the value is read as it was written. -/
theorem readMembers_member {m : Bytes × Value} {n : Nat} {c : UInt8} {s : Bytes}
    (hc : isSpace c = false)
    (hv : readValue n (write m.2 ++ c :: s) = some (m.2, c :: s)) :
    readMembers (n + 1) (writeMember m ++ c :: s) =
      if c = 44 then (readMembers n s).map fun r => (m :: r.1, r.2)
      else if c = 125 then some ([m], s) else none := by
  obtain ⟨k, v⟩ := m
  have h : writeMember (k, v) ++ c :: s = writeString k ++ 58 :: (write v ++ c :: s) := by
    simp [writeMember]
  rw [h, readMembers_key, hv, Option.bind_some]
  simp only [readMore, skip_cons hc]

/-- An object that starts with the name of a member. -/
theorem readValue_object (k : Bytes) (n : Nat) (s : Bytes) :
    readValue (n + 1) (123 :: (writeString k ++ s)) =
      (readMembers n (writeString k ++ s)).map fun r => (.object r.1, r.2) := by
  rw [readValue, skip_cons (by decide)]
  have h : writeString k ++ s = 34 :: (k.flatMap escape ++ 34 :: s) := by simp [writeString]
  simp only [h, skip_cons (show isSpace 34 = false by decide)]
  rfl

theorem readValue_member (m : Bytes × Value) (n : Nat) (s : Bytes) :
    readValue (n + 1) (123 :: (writeMember m ++ s)) =
      (readMembers n (writeMember m ++ s)).map fun r => (.object r.1, r.2) := by
  obtain ⟨k, v⟩ := m
  rw [writeMember, List.append_assoc, readValue_object]

theorem readElements_element {v : Value} {n : Nat} {c : UInt8} {s : Bytes}
    (hc : isSpace c = false)
    (hv : readValue n (write v ++ c :: s) = some (v, c :: s)) :
    readElements (n + 1) (write v ++ c :: s) =
      if c = 44 then (readElements n s).map fun r => (v :: r.1, r.2)
      else if c = 93 then some ([v], s) else none := by
  rw [readElements, hv]
  simp only [Option.bind_eq_bind, Option.bind_some, skip_cons hc]
  split
  · cases readElements n s <;> rfl
  · rfl

theorem head_writeElements (v : Value) (vs : List Value) :
    ∃ c t, writeElements (v :: vs) = c :: t ∧ isSpace c = false ∧ c ≠ 93 := by
  obtain ⟨c, t, h, hs, hc⟩ := head_write v
  cases vs with
  | nil => exact ⟨c, t ++ [93], by rw [writeElements, h]; rfl, hs, hc⟩
  | cons w vs =>
    exact ⟨c, t ++ 44 :: writeElements (w :: vs), by rw [writeElements, h]; rfl, hs, hc⟩

theorem head_writeMembers (m : Bytes × Value) (ms : List (Bytes × Value)) :
    ∃ t, writeMembers (m :: ms) = writeString m.1 ++ t := by
  obtain ⟨k, v⟩ := m
  cases ms <;> exact ⟨_, by rw [writeMembers, writeMember, List.append_assoc]⟩

mutual

theorem readValue_write : ∀ (v : Value) (n : Nat) (rest : Bytes), (write v).length ≤ n →
    Ends rest → readValue n (write v ++ rest) = some (v, rest)
  | v, 0, _, h, _ => absurd (List.length_eq_zero_iff.mp (Nat.le_zero.mp h)) (write_ne_nil v)
  | .null, _ + 1, _, _, _ => rfl
  | .bool true, _ + 1, _, _, _ => rfl
  | .bool false, _ + 1, _, _, _ => rfl
  | .number m, n + 1, _, _, hr => readValue_number m n hr
  | .string t, n + 1, rest, _, _ => readValue_string t n rest
  | .array [], _ + 1, _, _, _ => rfl
  | .object [], _ + 1, _, _, _ => rfl
  | .array (v :: vs), n + 1, rest, h, _ => by
    have h' : (writeElements (v :: vs)).length ≤ n := by
      simpa [write] using h
    have hr := readElements_write (v :: vs) n rest (List.cons_ne_nil _ _) h'
    obtain ⟨c, t, ht, hs, hc⟩ := head_writeElements v vs
    have hw : write (.array (v :: vs)) ++ rest = 91 :: (writeElements (v :: vs) ++ rest) := rfl
    rw [hw, readValue, skip_cons (by decide)]
    simp only [ht, List.cons_append, skip_cons hs] at hr ⊢
    simp [hc, hr]
  | .object (m :: ms), n + 1, rest, h, _ => by
    have h' : (writeMembers (m :: ms)).length ≤ n := by
      simpa [write] using h
    have hr := readMembers_write (m :: ms) n rest (List.cons_ne_nil _ _) h'
    obtain ⟨t, ht⟩ := head_writeMembers m ms
    have hw : write (.object (m :: ms)) ++ rest = 123 :: (writeMembers (m :: ms) ++ rest) := rfl
    rw [ht, List.append_assoc] at hr
    rw [hw, ht, List.append_assoc, readValue_object, hr]
    rfl

theorem readElements_write : ∀ (vs : List Value) (n : Nat) (rest : Bytes), vs ≠ [] →
    (writeElements vs).length ≤ n → readElements n (writeElements vs ++ rest) = some (vs, rest)
  | [], _, _, h, _ => absurd rfl h
  | v :: vs, 0, _, _, h => by
    obtain ⟨c, t, ht, -⟩ := head_writeElements v vs
    rw [ht] at h
    cases h
  | [v], n + 1, rest, _, h => by
    have hl : (write v).length ≤ n := by simpa [writeElements] using h
    have hv := readValue_write v n (93 :: rest) hl (ends_cons (by decide))
    have hw : writeElements [v] ++ rest = write v ++ 93 :: rest := by simp [writeElements]
    rw [hw, readElements_element (by decide) hv]
    rfl
  | v :: w :: vs, n + 1, rest, _, h => by
    have hl : (write v).length + (writeElements (w :: vs)).length ≤ n := by
      simp only [writeElements, List.length_append, List.length_cons] at h
      omega
    have hv := readValue_write v n (44 :: (writeElements (w :: vs) ++ rest)) (by omega)
      (ends_cons (by decide))
    have hvs := readElements_write (w :: vs) n rest (List.cons_ne_nil _ _) (by omega)
    have hw : writeElements (v :: w :: vs) ++ rest =
        write v ++ 44 :: (writeElements (w :: vs) ++ rest) := by simp [writeElements]
    rw [hw, readElements_element (by decide) hv, if_pos rfl, hvs]
    rfl

theorem readMembers_write : ∀ (ms : List (Bytes × Value)) (n : Nat) (rest : Bytes), ms ≠ [] →
    (writeMembers ms).length ≤ n → readMembers n (writeMembers ms ++ rest) = some (ms, rest)
  | [], _, _, h, _ => absurd rfl h
  | m :: ms, 0, _, _, h => by
    obtain ⟨t, ht⟩ := head_writeMembers m ms
    rw [ht] at h
    cases h
  | [(k, v)], n + 1, rest, _, h => by
    have hl : (write v).length ≤ n := by
      simp only [writeMembers, writeMember, List.length_append, List.length_cons] at h
      omega
    have hv := readValue_write v n (125 :: rest) hl (ends_cons (by decide))
    have hw : writeMembers [(k, v)] ++ rest = writeMember (k, v) ++ 125 :: rest := by
      simp [writeMembers]
    rw [hw, readMembers_member (by decide) hv]
    rfl
  | (k, v) :: m' :: ms, n + 1, rest, _, h => by
    have hl : (write v).length + (writeMembers (m' :: ms)).length ≤ n := by
      simp only [writeMembers, writeMember, List.length_append, List.length_cons] at h
      omega
    have hv := readValue_write v n (44 :: (writeMembers (m' :: ms) ++ rest)) (by omega)
      (ends_cons (by decide))
    have hms := readMembers_write (m' :: ms) n rest (List.cons_ne_nil _ _) (by omega)
    have hw : writeMembers ((k, v) :: m' :: ms) ++ rest =
        writeMember (k, v) ++ 44 :: (writeMembers (m' :: ms) ++ rest) := by simp [writeMembers]
    rw [hw, readMembers_member (by decide) hv, if_pos rfl, hms]
    rfl

end

/-- The text of a value reads back. -/
theorem read_write (v : Value) : read (write v) = some v := by
  have h := readValue_write v ((write v).length + 1) [] (Nat.le_succ _) ends_nil
  rw [List.append_nil] at h
  rw [read, h]
  rfl

/-! ## Lines -/

theorem newline_notMem_escape (c : UInt8) : 10 ∉ escape c := by
  have h : ∀ n : Fin 256, 10 ∉ escape (UInt8.ofFin n) := by decide +kernel
  exact h c.toFin

theorem newline_notMem_writeString (s : Bytes) : 10 ∉ writeString s := by
  simp [writeString, newline_notMem_escape]

mutual

theorem newline_notMem_write : ∀ v : Value, 10 ∉ write v
  | .null => by decide
  | .bool true => by decide
  | .bool false => by decide
  | .number n => fun h => (isNumberChar_ne (number_all n 10 h)).2.2.2.2.2.2.2.2 rfl
  | .string s => newline_notMem_writeString s
  | .array vs => by
    simpa [write] using newline_notMem_writeElements vs
  | .object ms => by
    simpa [write] using newline_notMem_writeMembers ms

theorem newline_notMem_writeElements : ∀ vs : List Value, 10 ∉ writeElements vs
  | [] => by decide
  | [v] => by
    simpa [writeElements] using newline_notMem_write v
  | v :: w :: vs => by
    simpa [writeElements] using
      ⟨newline_notMem_write v, newline_notMem_writeElements (w :: vs)⟩

theorem newline_notMem_writeMembers : ∀ ms : List (Bytes × Value), 10 ∉ writeMembers ms
  | [] => by decide
  | [(k, v)] => by
    simpa [writeMembers, writeMember] using
      ⟨newline_notMem_writeString k, newline_notMem_write v⟩
  | (k, v) :: m :: ms => by
    simpa [writeMembers, writeMember] using
      ⟨newline_notMem_writeString k, newline_notMem_write v, newline_notMem_writeMembers (m :: ms)⟩

end

/-! ## Decimal numbers -/

theorem isDigit_ofNat {d : Nat} (h : d < 10) : isDigit (UInt8.ofNat (48 + d)) = true := by
  have hall : ∀ d : Fin 10, isDigit (UInt8.ofNat (48 + d.val)) = true := by decide
  exact hall ⟨d, h⟩

theorem decimal_all (n : Nat) : ∀ c ∈ decimal n, isDigit c = true := by
  intro c hc
  unfold decimal at hc
  split at hc
  · rw [List.mem_singleton.mp hc]
    decide
  · obtain ⟨d, hd, rfl⟩ := List.mem_map.mp hc
    exact isDigit_ofNat (Nat.digits_lt_base (by decide) (List.mem_reverse.mp hd))

/-- No zero in front of another digit. -/
theorem decimal_cons (n : Nat) : decimal n = [48] ∨ ∃ c t, decimal n = c :: t ∧ c ≠ 48 := by
  by_cases h0 : n = 0
  · exact .inl (if_pos h0)
  · have hne : Nat.digits 10 n ≠ [] := Nat.digits_ne_nil_iff_ne_zero.mpr h0
    have hlast := Nat.getLast_digit_ne_zero 10 h0
    have hlt : (Nat.digits 10 n).getLast hne < 10 :=
      Nat.digits_lt_base (by decide) (List.getLast_mem hne)
    have hr : (Nat.digits 10 n).reverse =
        (Nat.digits 10 n).getLast hne :: (Nat.digits 10 n).dropLast.reverse := by
      conv_lhs => rw [← List.dropLast_append_getLast hne, List.reverse_append]
      rfl
    refine .inr ⟨_, _, by rw [decimal, if_neg h0, hr, List.map_cons], ?_⟩
    have hall : ∀ d : Fin 10, d.val ≠ 0 → UInt8.ofNat (48 + d.val) ≠ 48 := by decide
    exact hall ⟨_, hlt⟩ hlast

theorem isUnsigned_decimal (n : Nat) : isUnsigned (decimal n) = true := by
  obtain h | ⟨c, t, h, hc⟩ := decimal_cons n
  · rw [h]
    decide
  · have hall := decimal_all n
    rw [h] at hall ⊢
    have ht : t.dropWhile isDigit = [] :=
      List.dropWhile_eq_nil_iff.mpr fun d hd => hall d (List.mem_cons_of_mem _ hd)
    rw [isUnsigned, if_neg hc, ht, hall c List.mem_cons_self]
    rfl

theorem isNumberChar_of_isDigit {c : UInt8} (h : isDigit c = true) : isNumberChar c = true := by
  simp [isNumberChar, h]

theorem isNumber_decimal (n : Nat) : isNumber (decimal n) = true := by
  have hu := isUnsigned_decimal n
  have hall : ∀ c ∈ decimal n, isNumberChar c = true :=
    fun c hc => isNumberChar_of_isDigit (decimal_all n c hc)
  have hs : (decimal n).head? ≠ some 45 := by
    intro h
    cases decimal_all n 45 (List.mem_of_head? h)
  rw [isNumber, if_neg hs, hu, Bool.and_true, List.all_eq_true]
  exact hall

theorem isNumber_decimalInt (n : Int) : isNumber (decimalInt n) = true := by
  unfold decimalInt
  split
  · have h := isNumber_decimal n.natAbs
    have hu := isUnsigned_decimal n.natAbs
    rw [isNumber, Bool.and_eq_true] at h ⊢
    exact ⟨by rw [List.all_cons, h.1]; rfl, hu⟩
  · exact isNumber_decimal _

/-- An integer. -/
def Number.ofInt (n : Int) : Number := ⟨decimalInt n, isNumber_decimalInt n⟩

/-! ## What a string took -/

theorem length_utf8_le (n : Nat) : (utf8 n).length ≤ 4 := by
  unfold utf8
  repeat' split
  all_goals simp

theorem readHex4_spec {s r : Bytes} {n : Nat} (h : readHex4 s = some (n, r)) :
    ∃ e, s = e ++ r ∧ e.length = 4 := by
  match s, h with
  | a :: b :: c :: d :: s, h =>
    simp only [readHex4, Option.bind_eq_bind, Option.bind_eq_some_iff, Option.pure_def,
      Option.some.injEq, Prod.mk.injEq] at h
    obtain ⟨_, -, _, -, _, -, _, -, -, rfl⟩ := h
    exact ⟨[a, b, c, d], rfl, rfl⟩

theorem readUnicode_spec {s t r : Bytes} (h : readUnicode s = some (t, r)) :
    ∃ e, s = e ++ r ∧ t.length ≤ e.length := by
  unfold readUnicode at h
  obtain ⟨⟨n, s'⟩, hn, h'⟩ := Option.bind_eq_some_iff.mp h
  obtain ⟨e, rfl, he⟩ := readHex4_spec hn
  simp only [] at h'
  split at h'
  · match s', h' with
    | c :: u :: s', h' =>
      obtain ⟨⟨m, s''⟩, hm, h''⟩ := Option.bind_eq_some_iff.mp h'
      obtain ⟨e', rfl, he'⟩ := readHex4_spec hm
      simp only [] at h''
      split at h''
      · simp only [Option.some.injEq, Prod.mk.injEq] at h''
        obtain ⟨rfl, rfl⟩ := h''
        refine ⟨e ++ c :: u :: e', by simp, (length_utf8_le _).trans ?_⟩
        rw [List.length_append, he]
        exact Nat.le_add_right _ _
      · cases h''
  · split at h'
    · cases h'
    · cases h'
      exact ⟨e, rfl, by rw [he]; exact length_utf8_le n⟩

theorem readEscape_spec {s t r : Bytes} (h : readEscape s = some (t, r)) :
    ∃ e, s = e ++ r ∧ t.length ≤ e.length := by
  match s, h with
  | c :: s, h =>
    rw [readEscape] at h
    split at h
    · obtain ⟨e, rfl, he⟩ := readUnicode_spec h
      exact ⟨c :: e, rfl, Nat.le_succ_of_le he⟩
    · obtain ⟨d, -, h⟩ := Option.map_eq_some_iff.mp h
      cases h
      exact ⟨[c], rfl, Nat.le_refl _⟩

/-- A character that stands for itself in a string. -/
def IsPlain (c : UInt8) : Prop := 32 ≤ c ∧ c ≠ 34 ∧ c ≠ 92

/-- A string is what stands before a quote. It is not longer than that, and only as
long if nothing in it was escaped. -/
theorem readString_spec {n : Nat} {s t r : Bytes} (h : readString n s = some (t, r)) :
    ∃ e, s = e ++ 34 :: r ∧ t.length ≤ e.length ∧
      (t.length = e.length → t = e ∧ ∀ c ∈ e, IsPlain c) := by
  induction n generalizing s t with
  | zero => cases h
  | succ n ih =>
    match s, h with
    | c :: s, h =>
      unfold readString at h
      split at h
      · rename_i hc
        cases h
        exact ⟨[], by rw [hc]; rfl, Nat.le_refl _, fun _ => ⟨rfl, by simp⟩⟩
      · rename_i hq
        split at h
        · obtain ⟨⟨t', s'⟩, he, h⟩ := Option.bind_eq_some_iff.mp h
          obtain ⟨⟨u, r'⟩, hu, h⟩ := Option.bind_eq_some_iff.mp h
          cases h
          obtain ⟨e, rfl, hle⟩ := readEscape_spec he
          obtain ⟨e', rfl, hle', -⟩ := ih hu
          refine ⟨c :: (e ++ e'), by simp, ?_, fun heq => ?_⟩
          · simp only [List.length_append, List.length_cons]
            omega
          · simp only [List.length_append, List.length_cons] at heq
            omega
        · rename_i hb
          split at h
          · cases h
          · rename_i hl
            obtain ⟨⟨u, r'⟩, hu, h⟩ := Option.bind_eq_some_iff.mp h
            cases h
            obtain ⟨e, rfl, hle, heq⟩ := ih hu
            refine ⟨c :: e, rfl, Nat.succ_le_succ hle, fun hlen => ?_⟩
            obtain ⟨rfl, hall⟩ := heq (Nat.succ.inj hlen)
            refine ⟨rfl, List.forall_mem_cons.mpr ⟨⟨?_, hq, hb⟩, hall⟩⟩
            exact UInt8.not_lt.mp hl

end Rxs.Core.JsonText
