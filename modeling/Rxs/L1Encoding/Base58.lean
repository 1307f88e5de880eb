import Rxs.L1Encoding.CanonicalAddress

/-!
# What the decoder of addresses reads

`scan` is `WalletAddress::decode` up to the bytes of the address, with its reads: of the
characters of the string, by their place in it, and of the table of digits. The place in
the table is a `char` cast to `int`; `signed` says whether that is negative from `0x80` on.

`scan_eq` says that the reads aside this is the decoder. A block is refused exactly if its
number is no 64-bit word (`decodeBlock_exact`), so that a character is read if the blocks
before it, and the characters behind it in its block, are digits of 64-bit words
(`Reached`).

* **`base58_bounds`**: everything is read inside if and only if no `char` from `0x80` on
  is reached where it is signed.
* `base58_bounds_fails`: one at the end of the first block.
-/
namespace Rxs.L1.Base58

open Rxs.Core Rxs.WalletAddress Rxs.L1.CanonicalAddress

/-- A character of the string, or an entry of the table. -/
inductive Read where
  | char (i : Nat)
  | table (i : Int)
  deriving DecidableEq, Repr

def Read.Inside (size : Nat) : Read → Prop
  | char i => i < size
  | table i => 0 ≤ i ∧ i ≤ 255

instance (size : Nat) : DecidablePred (Read.Inside size) := fun r => by
  cases r <;> unfold Read.Inside <;> infer_instance

/-- A `char` as an `int`. -/
def toInt (signed : Bool) (c : UInt8) : Int :=
  if signed = true ∧ 0x80 ≤ c then (c.toNat : Int) - 256 else c.toNat

/-- The entries from `0x80` on are -1, if they are in the table. -/
def entries (signed : Bool) (outside : UInt8 → Option UInt64) : UInt8 → Option UInt64 :=
  if signed = true then outside else fun _ => none

/-- The checks of the length; the result is `last_block_size_index`.
mirrors src/base/tools/cryptonote/WalletAddress.cpp:59-91 -/
def sized (size : Nat) : Option Nat :=
  if size < kMinSize ∨ size > kMaxSize then none
  else (block_sizes.findIdx? (· = size % 11)).filter fun index =>
    ¬ size / 11 * 8 + index < kMinDataSize

section
variable (signed : Bool) (outside : UInt8 → Option UInt64) (s : Bytes)

/-- A block, from the character before `j` down. A character that is not there ends it.
mirrors src/base/tools/cryptonote/WalletAddress.cpp:98-115 -/
def scanBlock (address_data : Nat) : Nat → UInt64 → UInt64 → List Read × Option UInt64
  | 0, num, _ => ([], some num)
  | j + 1, num, order =>
    match s[address_data + j]? with
    | none => ([.char (address_data + j)], none)
    | some c =>
      let reads := [.char (address_data + j), .table (toInt signed c)]
      match reverse_alphabet (entries signed outside) c with
      | none => (reads, none)
      | some digit =>
        let (lo, hi) := umul128 order digit
        let tmp := num + lo
        if tmp < num ∨ hi ≠ 0 then (reads, none)
        else
          let r := scanBlock address_data j tmp (order * alphabet_size)
          (reads ++ r.1, r.2)

/-- mirrors src/base/tools/cryptonote/WalletAddress.cpp:97-123 -/
def scanBlocks (last_block_size last_block_size_index : Nat) :
    (num_full_blocks address_data : Nat) → (data : Bytes) → List Read × Option Bytes
  | 0, address_data, data =>
    let r := scanBlock signed outside s address_data last_block_size 0 1
    (r.1, r.2.map fun num => data ++ blockBytes num last_block_size_index)
  | n + 1, address_data, data =>
    let r := scanBlock signed outside s address_data 11 0 1
    match r.2 with
    | none => (r.1, none)
    | some num =>
      let q := scanBlocks last_block_size last_block_size_index n (address_data + 11)
        (data ++ blockBytes num 8)
      (r.1 ++ q.1, q.2)

/-- `strncmp` stops at the first difference.
mirrors src/base/tools/cryptonote/WalletAddress.cpp:36-53 -/
def scanMark : List Read :=
  if s.length < 4 then []
  else if s[0]? ≠ some 0x54 then [.char 0]
  else if s[1]? ≠ some 0x46 then [.char 0, .char 1]
  else if s[2]? ≠ some 0x31 ∧ s[2]? ≠ some 0x32 then [.char 0, .char 1, .char 2]
  else [.char 0, .char 1, .char 2, .char 3]

/-- mirrors src/base/tools/cryptonote/WalletAddress.cpp:34-125 -/
def scan : List Read × Option Bytes :=
  match strip s with
  | none => (scanMark s, none)
  | some (_, address) =>
    match sized address.length with
    | none => (scanMark s, none)
    | some index =>
      let r := scanBlocks signed outside s (address.length % 11) index (address.length / 11)
        (s.length - address.length) []
      (scanMark s ++ r.1, r.2)

end

/-! ## The test of a block -/

/-- The sum is tested exactly. -/
theorem overflow_iff (num order digit : UInt64) :
    (num + order * digit < num ∨ UInt64.ofNat (order.toNat * digit.toNat / 2 ^ 64) ≠ 0) ↔
      2 ^ 64 ≤ num.toNat + order.toNat * digit.toNat := by
  constructor
  · intro h
    by_contra hlt
    have hprod : order.toNat * digit.toNat < 2 ^ 64 := by omega
    rcases h with h | h
    · rw [UInt64.lt_iff_toNat_lt, UInt64.toNat_add, UInt64.toNat_mul, Nat.mod_eq_of_lt hprod] at h
      omega
    · rw [Nat.div_eq_of_lt hprod] at h
      exact h rfl
  · intro h
    by_contra hno
    have hsum := sum_eq hno
    have := (num + order * digit).toNat_lt
    omega

section
variable {outside : UInt8 → Option UInt64}

theorem reverse_alphabet_digit (outside : UInt8 → Option UInt64) {c : UInt8} (h : c ∈ alphabet) :
    ∃ digit, reverse_alphabet outside c = some digit ∧ digit.toNat = alphabet.idxOf c := by
  have hall : (alphabet.all fun c => decide (c < 0x80 ∧ (alphabet.findIdx? (· = c)).map
      UInt64.ofNat = some (UInt64.ofNat (alphabet.idxOf c)))) = true := by
    decide
  obtain ⟨hc, hidx⟩ := of_decide_eq_true (List.all_eq_true.mp hall c h)
  have hlt : alphabet.idxOf c < 58 := List.idxOf_lt_length_of_mem h
  refine ⟨UInt64.ofNat (alphabet.idxOf c), ?_, ?_⟩
  · rw [reverse_alphabet, if_pos hc, hidx]
  · rw [UInt64.toNat_ofNat']
    omega

theorem decodeBlock_digit {c : UInt8} {digit : UInt64} (hd : reverse_alphabet outside c = some digit)
    (cs : Bytes) (num order : UInt64) : decodeBlock outside (c :: cs) num order =
      if num + order * digit < num ∨ UInt64.ofNat (order.toNat * digit.toNat / 2 ^ 64) ≠ 0 then none
      else decodeBlock outside cs (num + order * digit) (order * alphabet_size) := by
  rw [decodeBlock, hd]
  rfl

/-- A character more, from the end of the block on. -/
theorem decodeBlock_cons {c : UInt8} (hc : c ∈ alphabet) (cs : Bytes) (num order : UInt64) :
    decodeBlock outside (c :: cs) num order =
      if 2 ^ 64 ≤ num.toNat + order.toNat * alphabet.idxOf c then none
      else decodeBlock outside cs (UInt64.ofNat (num.toNat + order.toNat * alphabet.idxOf c))
        (order * alphabet_size) := by
  obtain ⟨digit, hdigit, hidx⟩ := reverse_alphabet_digit outside hc
  rw [decodeBlock_digit hdigit, ← hidx]
  by_cases h : num + order * digit < num ∨ UInt64.ofNat (order.toNat * digit.toNat / 2 ^ 64) ≠ 0
  · rw [if_pos h, if_pos ((overflow_iff num order digit).mp h)]
  · rw [if_neg h, if_neg (mt (overflow_iff num order digit).mpr h), ← sum_eq h, UInt64.ofNat_toNat]

/-- The numbers of the characters from the end of a block on. -/
theorem decodeBlock_digits {cs : Bytes} (h : ∀ c ∈ cs, c ∈ alphabet) {num order : UInt64} {k : Nat}
    (ho : order.toNat = 58 ^ k % 2 ^ 64) (hk : k + cs.length ≤ 11) :
    decodeBlock outside cs num order =
      if num.toNat + 58 ^ k * Nat.ofDigits 58 (cs.map alphabet.idxOf) < 2 ^ 64 then
        some (UInt64.ofNat (num.toNat + 58 ^ k * Nat.ofDigits 58 (cs.map alphabet.idxOf)))
      else none := by
  induction cs generalizing num order k with
  | nil =>
    have := num.toNat_lt
    simp [decodeBlock, this]
  | cons c cs ih =>
    obtain ⟨hc, hcs⟩ := List.forall_mem_cons.mp h
    rw [List.length_cons] at hk
    have hlt : 58 ^ k < 2 ^ 64 :=
      Nat.lt_of_le_of_lt (Nat.pow_le_pow_right (by decide) (show k ≤ 10 by omega)) (by decide)
    have ho' : (order * alphabet_size).toNat = 58 ^ (k + 1) % 2 ^ 64 := by
      rw [UInt64.toNat_mul, ho, Nat.mod_eq_of_lt hlt]
      rfl
    rw [Nat.mod_eq_of_lt hlt] at ho
    have hsplit : num.toNat + 58 ^ k * Nat.ofDigits 58 ((c :: cs).map alphabet.idxOf) =
        num.toNat + 58 ^ k * alphabet.idxOf c +
          58 ^ (k + 1) * Nat.ofDigits 58 (cs.map alphabet.idxOf) := by
      rw [List.map_cons, Nat.ofDigits_cons]
      ring
    rw [decodeBlock_cons hc, ho, hsplit]
    by_cases hbig : 2 ^ 64 ≤ num.toNat + 58 ^ k * alphabet.idxOf c
    · rw [if_pos hbig, if_neg (by omega)]
    · rw [if_neg hbig, ih hcs ho' (by omega), UInt64.toNat_ofNat', Nat.mod_eq_of_lt (by omega)]

/-- **The test of a block**: it is refused exactly if its number is no 64-bit word. -/
theorem decodeBlock_exact {cs : Bytes} (hlen : cs.length ≤ 11) (h : ∀ c ∈ cs, c ∈ alphabet) :
    decodeBlock outside cs.reverse 0 1 =
      if value cs < 2 ^ 64 then some (UInt64.ofNat (value cs)) else none := by
  have hdigits := @decodeBlock_digits outside cs.reverse (fun c hc => h c (List.mem_reverse.mp hc))
    0 1 0 rfl (by simpa using hlen)
  simpa [value] using hdigits

end

/-! ## Reads -/

/-- The block is one of digits whose number is a 64-bit word. -/
def Taken (cs : Bytes) : Prop := (∀ c ∈ cs, c ∈ alphabet) ∧ value cs < 2 ^ 64

theorem value_cons (c : UInt8) (cs : Bytes) :
    value (c :: cs) = value cs + 58 ^ cs.length * alphabet.idxOf c := by
  simp [value, Nat.ofDigits_append]

theorem Taken.tail {c : UInt8} {cs : Bytes} (h : Taken (c :: cs)) : Taken cs := by
  refine ⟨fun x hx => h.1 x (List.mem_cons_of_mem c hx), ?_⟩
  have hlt := h.2
  rw [value_cons] at hlt
  omega

theorem Taken.drop {cs : Bytes} (h : Taken cs) (n : Nat) : Taken (cs.drop n) := by
  induction n generalizing cs with
  | zero => exact h
  | succ n ih =>
    cases cs with
    | nil => exact h
    | cons c cs => exact ih h.tail

section
variable {signed : Bool} {outside : UInt8 → Option UInt64} {s : Bytes}

theorem inside_char {cs : Bytes} {a j : Nat} {c : UInt8} (hcs : ∀ i < cs.length, s[a + i]? = cs[i]?)
    (hc : cs[j]? = some c) : (Read.char (a + j)).Inside s.length := by
  obtain ⟨hlt, -⟩ := List.getElem?_eq_some_iff.mp hc
  exact (List.getElem?_eq_some_iff.mp ((hcs j hlt).trans hc)).1

theorem inside_table (signed : Bool) (c : UInt8) (size : Nat) :
    (Read.table (toInt signed c)).Inside size ↔ (signed = true → c < 0x80) := by
  have hlt := c.toNat_lt
  have hle : (0x80 : UInt8) ≤ c ↔ 128 ≤ c.toNat := UInt8.le_iff_toNat_le
  have hlow : c < 0x80 ↔ c.toNat < 128 := UInt8.lt_iff_toNat_lt
  unfold Read.Inside toInt
  by_cases hs : signed = true ∧ 0x80 ≤ c
  · have := hle.mp hs.2
    simp only [if_pos hs, hlow]
    refine iff_of_false (by omega) fun h => ?_
    have := h hs.1
    omega
  · have hnot (h : signed = true) : c.toNat < 128 := by
      by_contra hge
      exact hs ⟨h, hle.mpr (by omega)⟩
    simp only [if_neg hs, hlow]
    refine iff_of_true ?_ hnot
    omega

/-- A character from `0x80` on where it is not signed. -/
theorem entries_none {c : UInt8} (hc : ¬ c < 0x80) :
    reverse_alphabet (entries false outside) c = none := by
  rw [reverse_alphabet, if_neg hc]
  rfl

theorem scanBlock_refused {a j : Nat} {c : UInt8} {num order : UInt64} (hread : s[a + j]? = some c)
    (hd : reverse_alphabet (entries signed outside) c = none) :
    scanBlock signed outside s a (j + 1) num order =
      ([.char (a + j), .table (toInt signed c)], none) := by
  rw [scanBlock, hread]
  simp only [hd]

theorem scanBlock_digit {a j : Nat} {c : UInt8} {num order digit : UInt64}
    (hread : s[a + j]? = some c) (hd : reverse_alphabet (entries signed outside) c = some digit) :
    scanBlock signed outside s a (j + 1) num order =
      if num + order * digit < num ∨ UInt64.ofNat (order.toNat * digit.toNat / 2 ^ 64) ≠ 0 then
        ([.char (a + j), .table (toInt signed c)], none)
      else ([.char (a + j), .table (toInt signed c)] ++
          (scanBlock signed outside s a j (num + order * digit) (order * alphabet_size)).1,
        (scanBlock signed outside s a j (num + order * digit) (order * alphabet_size)).2) := by
  rw [scanBlock, hread]
  simp only [hd]
  rfl

/-- **A block's reads**, from the character before `j` down: they are inside if no `char`
that is reached is negative, and then a block that is not refused is taken. -/
theorem scanBlock_reads {cs : Bytes} {a : Nat} (hcs : ∀ i < cs.length, s[a + i]? = cs[i]?)
    (hlen : cs.length ≤ 11) {j : Nat} (hj : j ≤ cs.length) {num order : UInt64}
    (hin : ∀ c ∈ cs.drop j, c ∈ alphabet) (hnum : num.toNat = value (cs.drop j))
    (horder : order.toNat = 58 ^ (cs.length - j) % 2 ^ 64) :
    ((∀ r ∈ (scanBlock signed outside s a j num order).1, r.Inside s.length) ↔
      (signed = true → ∀ i < j, Taken (cs.drop (i + 1)) → ∀ c, cs[i]? = some c → c < 0x80)) ∧
    ((signed = true → ∀ i < j, Taken (cs.drop (i + 1)) → ∀ c, cs[i]? = some c → c < 0x80) →
      ∀ r, (scanBlock signed outside s a j num order).2 = some r → Taken cs) := by
  induction j generalizing num order with
  | zero =>
    refine ⟨by simp [scanBlock], fun _ r _ => ⟨hin, ?_⟩⟩
    rw [List.drop_zero] at hnum
    exact hnum ▸ num.toNat_lt
  | succ j ih =>
    obtain ⟨c, hc⟩ : ∃ c, cs[j]? = some c := ⟨_, List.getElem?_eq_getElem (by omega)⟩
    have hread := (hcs j (by omega)).trans hc
    have hsplit : cs.drop j = c :: cs.drop (j + 1) := by
      obtain ⟨hlt, rfl⟩ := List.getElem?_eq_some_iff.mp hc
      exact List.drop_eq_getElem_cons hlt
    have htaken : Taken (cs.drop (j + 1)) := ⟨hin, hnum ▸ num.toNat_lt⟩
    -- in front of a character that is none of the digits, nothing is reached
    have hback (hnot : ¬ Taken (cs.drop j)) (i : Nat) (hi : i < j) : ¬ Taken (cs.drop (i + 1)) := by
      intro h
      have hdrop := h.drop (j - (i + 1))
      rw [List.drop_drop, Nat.add_sub_cancel' hi] at hdrop
      exact hnot hdrop
    have hends (h : ¬ Taken (cs.drop j)) :
        (signed = true → ∀ i < j + 1, Taken (cs.drop (i + 1)) → ∀ c, cs[i]? = some c → c < 0x80) ↔
          (signed = true → c < 0x80) := by
      constructor
      · intro hall hs
        exact hall hs j (Nat.lt_succ_self j) htaken c hc
      · intro hlow hs i hi ht d hd
        rcases Nat.lt_succ_iff_lt_or_eq.mp hi with hlt | rfl
        · exact absurd ht (hback h i hlt)
        · obtain rfl := Option.some.inj (hc.symm.trans hd)
          exact hlow hs
    have hreads (l : List Read) : (∀ r ∈ [Read.char (a + j), .table (toInt signed c)] ++ l,
        r.Inside s.length) ↔ (signed = true → c < 0x80) ∧ ∀ r ∈ l, r.Inside s.length := by
      simp only [List.cons_append, List.nil_append, List.forall_mem_cons, inside_table]
      exact and_iff_right (inside_char hcs hc)
    have htwo := hreads []
    simp only [List.append_nil, List.not_mem_nil, false_imp_iff, implies_true, and_true] at htwo
    cases hd : reverse_alphabet (entries signed outside) c with
    | none =>
      have hnot : ¬ Taken (cs.drop j) := by
        intro h
        obtain ⟨digit, hdigit, -⟩ := reverse_alphabet_digit (entries signed outside)
          (h.1 c (by rw [hsplit]; exact List.mem_cons_self))
        rw [hd] at hdigit
        cases hdigit
      rw [scanBlock_refused hread hd]
      exact ⟨htwo.trans (hends hnot).symm, fun _ r hr => by cases hr⟩
    | some digit =>
      rw [scanBlock_digit hread hd]
      by_cases hlow : c < 0x80
      · obtain ⟨hmem, hdigit⟩ := reverse_alphabet_eq hlow hd
        have hlt : 58 ^ (cs.length - (j + 1)) < 2 ^ 64 :=
          Nat.lt_of_le_of_lt (Nat.pow_le_pow_right (by decide)
            (show cs.length - (j + 1) ≤ 10 by omega)) (by decide)
        have ho := horder
        rw [Nat.mod_eq_of_lt hlt] at ho
        have hsum : value (cs.drop j) = num.toNat + order.toNat * digit.toNat := by
          rw [hsplit, value_cons, List.length_drop, hnum, ho, hdigit]
        by_cases hbig : num + order * digit < num ∨
          UInt64.ofNat (order.toNat * digit.toNat / 2 ^ 64) ≠ 0
        · have hnot : ¬ Taken (cs.drop j) := fun h => by
            have := (overflow_iff num order digit).mp hbig
            have := h.2
            omega
          rw [if_pos hbig]
          exact ⟨htwo.trans (hends hnot).symm, fun _ r hr => by cases hr⟩
        · have hin' : ∀ x ∈ cs.drop j, x ∈ alphabet := by
            rw [hsplit]
            exact List.forall_mem_cons.mpr ⟨hmem, hin⟩
          have hpow : cs.length - j = cs.length - (j + 1) + 1 := by omega
          have ho' : (order * alphabet_size).toNat = 58 ^ (cs.length - j) % 2 ^ 64 := by
            rw [UInt64.toNat_mul, ho, hpow]
            rfl
          obtain ⟨hiff, hres⟩ := ih (by omega) hin' ((sum_eq hbig).trans hsum.symm) ho'
          have hmore : (signed = true → ∀ i < j + 1, Taken (cs.drop (i + 1)) → ∀ c, cs[i]? = some c →
              c < 0x80) ↔
              (signed = true → ∀ i < j, Taken (cs.drop (i + 1)) → ∀ c, cs[i]? = some c → c < 0x80) := by
            constructor
            · intro h hs i hi
              exact h hs i (Nat.lt_succ_of_lt hi)
            · intro h hs i hi ht d hd
              rcases Nat.lt_succ_iff_lt_or_eq.mp hi with hlt | rfl
              · exact h hs i hlt ht d hd
              · obtain rfl := Option.some.inj (hc.symm.trans hd)
                exact hlow
          rw [if_neg hbig, hmore]
          exact ⟨(hreads _).trans ((and_iff_right fun _ => hlow).trans hiff), hres⟩
      · -- an entry outside the table
        have hs : signed = true := by
          by_contra h
          rw [Bool.eq_false_iff.mpr h, entries_none hlow] at hd
          cases hd
        have hfail : ¬ (signed = true → ∀ i < j + 1, Taken (cs.drop (i + 1)) → ∀ c,
            cs[i]? = some c → c < 0x80) := fun h => hlow (h hs j (Nat.lt_succ_self j) htaken c hc)
        refine ⟨iff_of_false ?_ hfail, fun h => absurd h hfail⟩
        split
        · exact fun h => hlow (htwo.mp h hs)
        · exact fun h => hlow (((hreads _).mp h).1 hs)

/-- The reads aside it is the decoder's block. -/
theorem scanBlock_result {cs : Bytes} {a : Nat} (hcs : ∀ i < cs.length, s[a + i]? = cs[i]?)
    {j : Nat} (hj : j ≤ cs.length) (num order : UInt64) :
    (scanBlock signed outside s a j num order).2 =
      decodeBlock (entries signed outside) (cs.take j).reverse num order := by
  induction j generalizing num order with
  | zero => rfl
  | succ j ih =>
    have hc : cs[j]? = some cs[j] := List.getElem?_eq_getElem hj
    have hread := (hcs j hj).trans hc
    have htake : (cs.take (j + 1)).reverse = cs[j] :: (cs.take j).reverse := by
      rw [List.take_succ_eq_append_getElem hj, List.reverse_append]
      rfl
    rw [htake]
    cases hd : reverse_alphabet (entries signed outside) cs[j] with
    | none =>
      rw [scanBlock_refused hread hd, decodeBlock, hd]
      rfl
    | some digit =>
      rw [scanBlock_digit hread hd, decodeBlock_digit hd]
      split
      · rfl
      · exact ih (by omega) _ _

/-- **A block.** -/
theorem scanBlock_block (signed : Bool) (outside : UInt8 → Option UInt64) {cs : Bytes} {a : Nat}
    (hcs : ∀ i < cs.length, s[a + i]? = cs[i]?) (hlen : cs.length ≤ 11) :
    let r := scanBlock signed outside s a cs.length 0 1
    ((∀ x ∈ r.1, x.Inside s.length) ↔ (signed = true → ∀ i < cs.length,
      Taken (cs.drop (i + 1)) → ∀ c, cs[i]? = some c → c < 0x80)) ∧
    ((∀ x ∈ r.1, x.Inside s.length) → ∀ num, r.2 = some num → Taken cs) ∧
    r.2 = decodeBlock (entries signed outside) cs.reverse 0 1 := by
  obtain ⟨hreads, htaken⟩ := @scanBlock_reads signed outside s cs a hcs hlen cs.length
    (Nat.le_refl _) 0 1 (by simp) (by simp [value]) (by simp)
  have hres := @scanBlock_result signed outside s cs a hcs cs.length (Nat.le_refl _) 0 1
  rw [List.take_length] at hres
  exact ⟨hreads, fun h => htaken (hreads.mp h), hres⟩

/-! ## Blocks -/

/-- Block `i` of an address; the last one is shorter. -/
def block (address : Bytes) (i : Nat) : Bytes := (address.drop (11 * i)).take 11

/-- Character `j` of block `i` is reached: the blocks before it are taken, and so is what
is behind it. -/
def Reached (address : Bytes) (i j : Nat) : Prop :=
  (∀ k < i, Taken (block address k)) ∧ Taken ((block address i).drop (j + 1))

/-- No `char` that is reached is negative. -/
def Plainly (signed : Bool) (address : Bytes) : Prop :=
  signed = true → ∀ i j c, Reached address i j → (block address i)[j]? = some c → c < 0x80

theorem block_succ (address : Bytes) (i : Nat) :
    block address (i + 1) = block (address.drop 11) i := by
  rw [block, block, List.drop_drop, Nat.mul_succ, Nat.add_comm]

theorem reached_succ (address : Bytes) (i j : Nat) :
    Reached address (i + 1) j ↔ Taken (block address 0) ∧ Reached (address.drop 11) i j := by
  unfold Reached
  rw [block_succ, Nat.forall_lt_succ_left']
  simp only [block_succ, and_assoc]

theorem length_block_zero (address : Bytes) : (block address 0).length ≤ 11 := by
  rw [block, List.length_take]
  omega

/-- The reads of a block, and what follows for the blocks behind it. -/
theorem plainly_iff (signed : Bool) (address : Bytes) :
    Plainly signed address ↔
      (signed = true → ∀ j < (block address 0).length, Taken ((block address 0).drop (j + 1)) →
        ∀ c, (block address 0)[j]? = some c → c < 0x80) ∧
      (Taken (block address 0) → Plainly signed (address.drop 11)) := by
  constructor
  · intro h
    refine ⟨fun hs j _ ht c hc => h hs 0 j c ⟨nofun, ht⟩ hc, fun ht hs i j c hr hc => ?_⟩
    exact h hs (i + 1) j c ((reached_succ address i j).mpr ⟨ht, hr⟩) (block_succ address i ▸ hc)
  · rintro ⟨h₀, h⟩ hs i j c hr hc
    cases i with
    | zero => exact h₀ hs j (List.getElem?_eq_some_iff.mp hc).1 hr.2 c hc
    | succ i =>
      obtain ⟨ht, hr⟩ := (reached_succ address i j).mp hr
      exact h ht hs i j c hr (block_succ address i ▸ hc)

theorem block_chars {address : Bytes} {a : Nat} (ha : s.drop a = address) :
    ∀ i < (block address 0).length, s[a + i]? = (block address 0)[i]? := by
  intro i hi
  have hlt := length_block_zero address
  rw [block, Nat.mul_zero, List.drop_zero, List.getElem?_take, if_pos (by omega), ← ha,
    List.getElem?_drop]

/-- **The reads of all blocks.** -/
theorem scanBlocks_reads {last index : Nat} (hlast : last < 11) {n a : Nat} {address : Bytes}
    (ha : s.drop a = address) (hlen : address.length = 11 * n + last) (data : Bytes) :
    ((∀ r ∈ (scanBlocks signed outside s last index n a data).1, r.Inside s.length) ↔
      Plainly signed address) ∧
    (scanBlocks signed outside s last index n a data).2 =
      decodeBlocks (entries signed outside) last index n address data := by
  induction n generalizing a address data with
  | zero =>
    have hblock : block address 0 = address := by
      rw [block, Nat.mul_zero, List.drop_zero, List.take_of_length_le (by omega)]
    have hchars := block_chars ha
    rw [hblock] at hchars
    obtain ⟨hreads, -, hres⟩ := scanBlock_block signed outside hchars (by omega)
    have hlast : last = address.length := by omega
    have hrest : Plainly signed (address.drop 11) := by
      rw [List.drop_eq_nil_of_le (by omega)]
      intro _ i j c _ hc
      simp [block] at hc
    rw [plainly_iff, hblock]
    constructor
    · rw [scanBlocks, hlast]
      exact hreads.trans (and_iff_left fun _ => hrest).symm
    · rw [scanBlocks, decodeBlocks, hlast, hres, List.take_length]
      exact Option.map_eq_bind
  | succ n ih =>
    have hlen₀ : (block address 0).length = 11 := by
      rw [block, List.length_take]
      simp only [Nat.mul_zero, List.drop_zero]
      omega
    have hchars := block_chars ha
    obtain ⟨hreads, htaken, hres⟩ := scanBlock_block signed outside hchars (by omega)
    have hnone (h : (scanBlock signed outside s a 11 0 1).2 = none) : ¬ Taken (block address 0) := by
      intro ht
      rw [hlen₀] at hres
      rw [hres, decodeBlock_exact (by omega) ht.1, if_pos ht.2] at h
      cases h
    have ha' : s.drop (a + 11) = address.drop 11 := by
      rw [← ha, List.drop_drop]
    rw [plainly_iff]
    rw [hlen₀] at hreads htaken hres ⊢
    have hfull : block address 0 = address.take 11 := rfl
    rw [scanBlocks, decodeBlocks, ← hfull, ← hres]
    cases hr : (scanBlock signed outside s a 11 0 1).2 with
    | none => exact ⟨hreads.trans (and_iff_left fun h => absurd h (hnone hr)).symm, rfl⟩
    | some num =>
      obtain ⟨hmore, hmoreRes⟩ := ih ha' (by rw [List.length_drop]; omega) (data ++ blockBytes num 8)
      refine ⟨?_, hmoreRes⟩
      simp only [List.forall_mem_append, hreads, hmore]
      exact and_congr_right fun h => (imp_iff_right (htaken (hreads.mpr h) num hr)).symm

/-! ## The whole string -/

theorem decodeData_sized (outside : UInt8 → Option UInt64) (address : Bytes) :
    decodeData outside address = (sized address.length).bind fun index =>
      decodeBlocks outside (address.length % 11) index (address.length / 11) address [] := by
  unfold decodeData sized
  split
  · rfl
  · cases h : block_sizes.findIdx? (· = address.length % 11) with
    | none => simp only [h, Option.filter_none, Option.bind_none]
    | some index =>
      by_cases hsize : address.length / 11 * 8 + index < kMinDataSize <;>
        simp [h, hsize, Option.filter]

theorem strip_drop {tag : UInt64} {address : Bytes} (h : strip s = some (tag, address)) :
    s.drop (s.length - address.length) = address := by
  unfold strip at h
  split at h
  next hmark =>
    obtain ⟨t, -, heq⟩ := Option.map_eq_some_iff.mp h
    cases heq
    rw [List.length_drop]
    congr 1
    omega
  next =>
    cases h
    rw [Nat.sub_self, List.drop_zero]

theorem scanMark_inside (s : Bytes) : ∀ r ∈ scanMark s, r.Inside s.length := by
  intro r hr
  unfold scanMark at hr
  split at hr
  · cases hr
  · have hall : ∀ x ∈ [Read.char 0, .char 1, .char 2, .char 3], x.Inside s.length := by
      simp only [List.forall_mem_cons, Read.Inside, List.not_mem_nil, false_imp_iff, implies_true,
        and_true]
      omega
    have hsub : r ∈ [Read.char 0, .char 1, .char 2, .char 3] := by
      repeat' split at hr
      all_goals
        simp only [List.mem_cons, List.not_mem_nil, or_false] at hr ⊢
        tauto
    exact hall r hsub

/-- The reads of a string whose length is right, and of another one. -/
theorem scan_reads (signed : Bool) (outside : UInt8 → Option UInt64) (s : Bytes) :
    ((∀ r ∈ (scan signed outside s).1, r.Inside s.length) ↔
      ∀ tag address, strip s = some (tag, address) → (sized address.length).isSome →
        Plainly signed address) ∧
    (scan signed outside s).2 =
      (strip s).bind fun a => decodeData (entries signed outside) a.2 := by
  have hmark := scanMark_inside s
  unfold scan
  cases hs : strip s with
  | none => exact ⟨iff_of_true hmark nofun, rfl⟩
  | some a =>
    obtain ⟨tag, address⟩ := a
    rw [Option.bind_some, decodeData_sized]
    cases hsize : sized address.length with
    | none =>
      refine ⟨iff_of_true (by simpa [hsize] using hmark) fun t b hb hok => ?_, by simp [hsize]⟩
      cases hb
      rw [hsize] at hok
      cases hok
    | some index =>
      obtain ⟨hreads, hres⟩ := @scanBlocks_reads signed outside s (address.length % 11) index
        (Nat.mod_lt _ (by decide)) (address.length / 11) (s.length - address.length) address
        (strip_drop hs) (Nat.div_add_mod _ 11).symm []
      simp only [hsize, Option.bind_some]
      refine ⟨?_, hres⟩
      simp only [List.forall_mem_append, hreads]
      constructor
      · rintro ⟨-, h⟩ t b hb -
        cases hb
        exact h
      · exact fun h => ⟨hmark, h tag address rfl (by rw [hsize]; rfl)⟩

end

/-- Everything is read inside, and a block of digits is refused exactly if its number is
no 64-bit word. -/
structure Sound (signed : Bool) (outside : UInt8 → Option UInt64) (s : Bytes) : Prop where
  reads : ∀ r ∈ (scan signed outside s).1, r.Inside s.length
  exact : ∀ cs : Bytes, cs.length ≤ 11 → (∀ c ∈ cs, c ∈ alphabet) →
    decodeBlock (entries signed outside) cs.reverse 0 1 =
      if value cs < 2 ^ 64 then some (UInt64.ofNat (value cs)) else none

/-- **Bounds of the decoder**, for every string. -/
theorem base58_bounds (signed : Bool) (outside : UInt8 → Option UInt64) (s : Bytes) :
    Sound signed outside s ↔
      ∀ tag address, strip s = some (tag, address) → (sized address.length).isSome →
        Plainly signed address := by
  constructor
  · intro h
    exact (scan_reads signed outside s).1.mp h.reads
  · intro h
    exact ⟨(scan_reads signed outside s).1.mpr h, fun cs hlen hin => decodeBlock_exact hlen hin⟩

/-- A block that ends in `0x80`. -/
def negative : Bytes := List.replicate 10 0x31 ++ [0x80] ++ List.replicate 84 0x31

theorem base58_bounds_fails : ¬ Sound true (fun _ => none) negative := by
  intro h
  have hread : Read.table (-128) ∈ (scan true (fun _ => none) negative).1 := by decide
  exact absurd (h.reads _ hread) (by decide)

end Rxs.L1.Base58
