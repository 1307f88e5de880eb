import Rxs.L1Encoding.WalletAddress
import Mathlib.Data.Nat.Digits.Lemmas

/-!
# One address for the decoded bytes

`base58` is the encoding block by block: of each eight bytes the number in eleven
digits, of the bytes that are left the number in as many digits as they need. The
decoder is compared with it.

A full block is refused if its number is no 64-bit word, which is the number of
eight bytes. The number of the last block is not compared with what its bytes
hold (`LastFits` says that it is in range), and the characters before a Townforge
address are not among the bytes.

* `encodeBlock_eq`: a block is the encoding of its bytes.
* **`decode_canonical`**: an address of plain characters whose last block is in range
  is the encoding of its bytes, after at most a Townforge mark.
* `decode_canonical_fails`: one address with and without a mark.
-/
namespace Rxs.L1.CanonicalAddress

open Rxs.Core Rxs.WalletAddress

/-! ## Base 58 -/

/-- The number of a block: its last character counts one. -/
def value (address : Bytes) : Nat := Nat.ofDigits 58 (address.reverse.map alphabet.idxOf)

/-- The digits of the number that the bytes are, highest first. -/
def encodeBlock (d : Bytes) : Bytes :=
  ((Nat.digitsAppend 58 (block_sizes.getD d.length 0) (Bytes.readLE d.reverse)).map
    (alphabet.getD · 0)).reverse

/-- `n` full blocks, and the last one. -/
def encodeBlocks : Nat → Bytes → Bytes
  | 0, d => encodeBlock d
  | n + 1, d => encodeBlock (d.take 8) ++ encodeBlocks n (d.drop 8)

def base58 (d : Bytes) : Bytes := encodeBlocks (d.length / 8) d

/-- No character is a negative index. -/
def Plain (address : Bytes) : Prop := ∀ c ∈ address, c < 0x80

/-- The number of the last block is one of its bytes. -/
def LastFits (address : Bytes) : Prop :=
  value (address.drop (11 * (address.length / 11))) <
    256 ^ block_sizes.idxOf (address.length % 11)

instance (address : Bytes) : Decidable (LastFits address) := by unfold LastFits; infer_instance

theorem take_le (k m n : Nat) (h : k ≤ m) : (Bytes.le m n).take k = Bytes.le k n := by
  induction k generalizing m n with
  | zero => rfl
  | succ k ih =>
    obtain ⟨m, rfl⟩ : ∃ j, m = j + 1 := ⟨m - 1, by omega⟩
    rw [Bytes.le, Bytes.le, List.take_succ_cons, ih m (n / 256) (by omega)]

theorem length_blockBytes (num : UInt64) {k : Nat} (hk : k ≤ 8) :
    (blockBytes num k).length = k := by
  unfold blockBytes
  rw [List.length_reverse, List.length_take, Bytes.length_le]
  omega

theorem readLE_blockBytes (num : UInt64) {k : Nat} (hk : k ≤ 8) :
    Bytes.readLE (blockBytes num k).reverse = num.toNat % 256 ^ k := by
  unfold blockBytes
  rw [List.reverse_reverse, take_le k 8 _ hk, Bytes.readLE_le]

section
variable {outside : UInt8 → Option UInt64}

theorem reverse_alphabet_eq {c : UInt8} (hc : c < 0x80) {digit : UInt64}
    (h : reverse_alphabet outside c = some digit) :
    c ∈ alphabet ∧ digit.toNat = alphabet.idxOf c := by
  unfold reverse_alphabet at h
  rw [if_pos hc] at h
  obtain ⟨i, hi, rfl⟩ := Option.map_eq_some_iff.mp h
  obtain ⟨hlt, hi⟩ := List.findIdx?_eq_some_iff_findIdx_eq.mp hi
  have hlen : alphabet.length = 58 := rfl
  have hidx : alphabet.idxOf c = i := hi
  refine ⟨List.idxOf_lt_length_iff.mp (hidx ▸ hlt), ?_⟩
  rw [hidx, UInt64.toNat_ofNat']
  omega

/-- A sum that passes both tests is that of the integers. -/
theorem sum_eq {num order digit : UInt64}
    (h : ¬ (num + order * digit < num ∨ UInt64.ofNat (order.toNat * digit.toNat / 2 ^ 64) ≠ 0)) :
    (num + order * digit).toNat = num.toNat + order.toNat * digit.toNat := by
  rw [not_or, not_not, UInt64.not_lt, UInt64.le_iff_toNat_le] at h
  obtain ⟨hlt, hhi⟩ := h
  have hn := num.toNat_lt
  have hprod : order.toNat * digit.toNat < 2 ^ 64 * 2 ^ 64 :=
    Nat.mul_lt_mul'' order.toNat_lt digit.toNat_lt
  have hhi : order.toNat * digit.toNat / 2 ^ 64 = 0 := by
    have := congrArg UInt64.toNat hhi
    rw [UInt64.toNat_ofNat'] at this
    have hdiv : order.toNat * digit.toNat / 2 ^ 64 < 2 ^ 64 := Nat.div_lt_of_lt_mul hprod
    rwa [Nat.mod_eq_of_lt hdiv] at this
  have hsmall : order.toNat * digit.toNat < 2 ^ 64 := by omega
  rw [UInt64.toNat_add, UInt64.toNat_mul, Nat.mod_eq_of_lt hsmall] at hlt ⊢
  omega

/-- **A block that is taken** is the number its digits give: nothing overflows. -/
theorem decodeBlock_eq {cs : Bytes} (hp : Plain cs) {num order r : UInt64} {k : Nat}
    (ho : order.toNat = 58 ^ k % 2 ^ 64) (hk : k + cs.length ≤ 11)
    (h : decodeBlock outside cs num order = some r) :
    (∀ c ∈ cs, c ∈ alphabet) ∧
      r.toNat = num.toNat + 58 ^ k * Nat.ofDigits 58 (cs.map alphabet.idxOf) := by
  induction cs generalizing num order k with
  | nil =>
    cases h
    exact ⟨nofun, by simp⟩
  | cons c cs ih =>
    obtain ⟨digit, hd, h⟩ := Option.bind_eq_some_iff.mp h
    obtain ⟨hmem, hdigit⟩ := reverse_alphabet_eq (hp c List.mem_cons_self) hd
    simp only [List.length_cons] at hk
    change (if num + order * digit < num ∨
        UInt64.ofNat (order.toNat * digit.toNat / 2 ^ 64) ≠ 0 then none
      else decodeBlock outside cs (num + order * digit) (order * alphabet_size)) = some r at h
    by_cases hno : num + order * digit < num ∨
      UInt64.ofNat (order.toNat * digit.toNat / 2 ^ 64) ≠ 0
    · rw [if_pos hno] at h
      cases h
    · rw [if_neg hno] at h
      have hlt : 58 ^ k < 2 ^ 64 :=
        Nat.lt_of_le_of_lt (Nat.pow_le_pow_right (by decide) (show k ≤ 10 by omega)) (by decide)
      rw [Nat.mod_eq_of_lt hlt] at ho
      have ho' : (order * alphabet_size).toNat = 58 ^ (k + 1) % 2 ^ 64 := by
        rw [UInt64.toNat_mul, ho]
        rfl
      obtain ⟨hall, hr⟩ := ih (fun x hx => hp x (List.mem_cons_of_mem _ hx)) ho' (by omega) h
      refine ⟨List.forall_mem_cons.mpr ⟨hmem, hall⟩, ?_⟩
      rw [hr, sum_eq hno, ho, hdigit, List.map_cons, Nat.ofDigits_cons]
      ring

/-- The characters of a block from its number. -/
theorem encode_value {cs : Bytes} (h : ∀ c ∈ cs, c ∈ alphabet) :
    ((Nat.digitsAppend 58 cs.length (value cs)).map (alphabet.getD · 0)).reverse = cs := by
  have hinv := (Nat.setInvOn_digitsAppend_ofDigits (b := 58) (by decide) cs.length).left
    (x := cs.reverse.map alphabet.idxOf) ⟨by simp, fun i hi => ?_⟩
  · unfold value
    have hback : ∀ c ∈ cs.reverse, ((alphabet.getD · 0) ∘ alphabet.idxOf) c = id c := by
      intro c hc
      have hlt := List.idxOf_lt_length_of_mem (h c (List.mem_reverse.mp hc))
      show alphabet.getD (alphabet.idxOf c) 0 = c
      rw [List.getD_eq_getElem?_getD, List.getElem?_eq_getElem hlt, List.getElem_idxOf]
      rfl
    rw [hinv, List.map_map, List.map_congr_left hback, List.map_id, List.reverse_reverse]
  · obtain ⟨c, hc, rfl⟩ := List.mem_map.mp hi
    exact List.idxOf_lt_length_of_mem (h c (List.mem_reverse.mp hc))

/-- The number of a block, last character first. -/
theorem block_value {cs : Bytes} (hp : Plain cs) (hle : cs.length ≤ 11) {r : UInt64}
    (h : decodeBlock outside cs.reverse 0 1 = some r) :
    (∀ c ∈ cs, c ∈ alphabet) ∧ r.toNat = value cs := by
  obtain ⟨hall, hr⟩ := decodeBlock_eq (k := 0) (fun c hc => hp c (List.mem_reverse.mp hc)) rfl
    (by rw [List.length_reverse]; omega) h
  refine ⟨fun c hc => hall c (List.mem_reverse.mpr hc), ?_⟩
  rw [hr, pow_zero, one_mul]
  exact Nat.zero_add _

/-- **A block is the encoding of its bytes** if its number fits them. -/
theorem block_eq {cs : Bytes} (hp : Plain cs) {k : Nat} (hk : k ≤ 8)
    (hlen : block_sizes.getD k 0 = cs.length) {r : UInt64}
    (h : decodeBlock outside cs.reverse 0 1 = some r) (hfit : value cs < 256 ^ k) :
    encodeBlock (blockBytes r k) = cs := by
  have hle : cs.length ≤ 11 := by
    have hall : ∀ k ≤ 8, block_sizes.getD k 0 ≤ 11 := by decide
    rw [← hlen]
    exact hall k hk
  obtain ⟨hall, hr⟩ := block_value hp hle h
  unfold encodeBlock
  rw [length_blockBytes r hk, hlen, readLE_blockBytes r hk, hr, Nat.mod_eq_of_lt hfit]
  exact encode_value hall

theorem Plain.take {address : Bytes} (h : Plain address) (n : Nat) : Plain (address.take n) :=
  fun c hc => h c (List.mem_of_mem_take hc)

theorem Plain.drop {address : Bytes} (h : Plain address) (n : Nat) : Plain (address.drop n) :=
  fun c hc => h c (List.mem_of_mem_drop hc)

/-- The bytes of the blocks, and the address back from them: block by block, where
each full block is in range because it is a 64-bit word. -/
theorem decodeBlocks_eq {last index : Nat} (hi : index ≤ 7)
    (hlast : block_sizes.getD index 0 = last) {n : Nat} {address data d : Bytes}
    (hp : Plain address) (hlen : address.length = 11 * n + last)
    (h : decodeBlocks outside last index n address data = some d) :
    ∃ e, d = data ++ e ∧ e.length = 8 * n + index ∧
      (value (address.drop (11 * n)) < 256 ^ index → encodeBlocks n e = address) := by
  induction n generalizing address data with
  | zero =>
    obtain ⟨num, hnum, h⟩ := Option.bind_eq_some_iff.mp h
    cases h
    have hall : address.take last = address := List.take_of_length_le (by omega)
    rw [hall] at hnum
    refine ⟨blockBytes num index, rfl, ?_, fun hfit => ?_⟩
    · rw [length_blockBytes num (by omega)]
      omega
    · exact block_eq hp (by omega) (by omega) hnum hfit
  | succ n ih =>
    obtain ⟨num, hnum, h⟩ := Option.bind_eq_some_iff.mp h
    have htake : (address.take 11).length = 11 := by
      rw [List.length_take]
      omega
    obtain ⟨e, rfl, hle, he⟩ := ih (hp.drop 11) (by rw [List.length_drop]; omega) h
    have h8 : (blockBytes num 8).length = 8 := length_blockBytes num (Nat.le_refl 8)
    refine ⟨blockBytes num 8 ++ e, by rw [List.append_assoc], ?_, fun hfit => ?_⟩
    · rw [List.length_append, h8]
      omega
    · have hfull : value (address.take 11) < 256 ^ 8 := by
        rw [← (block_value (hp.take 11) (by omega) hnum).2]
        exact num.toNat_lt
      have hblock := block_eq (hp.take 11) (Nat.le_refl 8) htake.symm hnum hfull
      have hdrop : address.drop (11 * (n + 1)) = (address.drop 11).drop (11 * n) := by
        rw [List.drop_drop, Nat.mul_succ, Nat.add_comm]
      rw [hdrop] at hfit
      rw [encodeBlocks, List.take_left' h8, List.drop_left' h8, hblock, he hfit,
        List.take_append_drop]

/-- The number of bytes of the last block, by its characters. -/
theorem block_sizes_index {last index : Nat} (hl : last < 11)
    (h : block_sizes.findIdx? (· = last) = some index) :
    index ≤ 7 ∧ block_sizes.getD index 0 = last ∧ block_sizes.idxOf last = index := by
  have hall : ∀ last < 11, ∀ index < 9, block_sizes.findIdx? (· = last) = some index →
    index ≤ 7 ∧ block_sizes.getD index 0 = last ∧ block_sizes.idxOf last = index := by decide
  exact hall last hl index (List.findIdx?_eq_some_iff_findIdx_eq.mp h).1 h

/-- The bytes of an address, and the address back from them. -/
theorem decodeData_eq {address d : Bytes} (hp : Plain address)
    (h : decodeData outside address = some d) (hfit : LastFits address) : base58 d = address := by
  unfold decodeData at h
  split at h
  · cases h
  · simp only at h
    split at h
    · cases h
    · rename_i index hidx
      obtain ⟨hi, hlast, hof⟩ := block_sizes_index (Nat.mod_lt _ (by decide)) hidx
      split at h
      · cases h
      · obtain ⟨e, rfl, hle, he⟩ := decodeBlocks_eq hi hlast hp (Nat.div_add_mod _ 11).symm h
        unfold LastFits at hfit
        rw [hof] at hfit
        have hn : (8 * (address.length / 11) + index) / 8 = address.length / 11 := by omega
        unfold base58
        rw [hle, hn]
        exact he hfit

end

/-! ## The law -/

/-- The marks of Townforge. -/
def marks : List Bytes :=
  [[0x54, 0x46, 0x31, 0x4D], [0x54, 0x46, 0x31, 0x54], [0x54, 0x46, 0x31, 0x53],
    [0x54, 0x46, 0x32, 0x4D], [0x54, 0x46, 0x32, 0x54], [0x54, 0x46, 0x32, 0x53]]

/-- The address without the mark. -/
def body (s : Bytes) : Bytes := ((strip s).map Prod.snd).getD s

theorem townforgeTag_marks {c₂ c₃ : UInt8} {tag : UInt64} (h : townforgeTag c₂ c₃ = some tag) :
    [0x54, 0x46, c₂, c₃] ∈ marks := by
  obtain ⟨n, hn, h⟩ := Option.bind_eq_some_iff.mp h
  obtain ⟨m, hm, -⟩ := Option.map_eq_some_iff.mp h
  have h₂ : c₂ = 0x31 ∨ c₂ = 0x32 := by
    by_contra hc
    rw [not_or] at hc
    rw [if_neg hc.1, if_neg hc.2] at hn
    cases hn
  have h₃ : c₃ = 0x4D ∨ c₃ = 0x54 ∨ c₃ = 0x53 := by
    by_contra hc
    rw [not_or, not_or] at hc
    rw [if_neg hc.1, if_neg hc.2.1, if_neg hc.2.2] at hm
    cases hm
  rcases h₂ with rfl | rfl <;> rcases h₃ with rfl | rfl | rfl <;> decide

/-- Only a mark is taken off. -/
theorem strip_eq {s address : Bytes} {tag : UInt64} (h : strip s = some (tag, address)) :
    s = address ∨ ∃ m ∈ marks, s = m ++ address := by
  unfold strip at h
  by_cases hc : s.length ≥ 4 ∧ s.take 2 = [0x54, 0x46]
  · rw [if_pos hc] at h
    obtain ⟨tag', htag, he⟩ := Option.map_eq_some_iff.mp h
    cases he
    refine .inr ⟨_, townforgeTag_marks htag, ?_⟩
    match s, hc with
    | c₀ :: c₁ :: c₂ :: c₃ :: s, hc =>
      have h₀ : [c₀, c₁] = [0x54, 0x46] := hc.2
      injection h₀ with h₀ h₁
      injection h₁ with h₁
      rw [h₀, h₁]
      rfl
  · rw [if_neg hc] at h
    cases h
    exact .inl rfl

section
variable (outside : UInt8 → Option UInt64)

/-- The decoded bytes of an address. -/
def dataOf (s : Bytes) : Option Bytes := decodeData outside (body s)

/-- The address is the encoding of its bytes, after at most a mark. -/
structure Canonical (s d : Bytes) : Prop where
  bytes : dataOf outside s = some d
  base58 : base58 d = body s
  mark : s = body s ∨ ∃ m ∈ marks, s = m ++ body s

/-- An address that is accepted has bytes. -/
theorem decode_data {p : Platform} {w : WalletAddress} {s : Bytes}
    (h : (decode outside p w s).2 = true) :
    ∃ tag d, strip s = some (tag, body s) ∧ dataOf outside s = some d := by
  unfold decode at h
  cases hs : strip s with
  | none =>
    rw [hs] at h
    cases h
  | some r =>
    have hb : body s = r.2 := by
      unfold body
      rw [hs]
      rfl
    rw [hs] at h
    simp only at h
    cases hd : decodeData outside r.2 with
    | none =>
      rw [hd] at h
      cases h
    | some d =>
      refine ⟨r.1, d, by rw [hb], ?_⟩
      unfold dataOf
      rw [hb, hd]

/-- **Addresses are canonical**, the marks of Townforge apart: for every two
addresses of plain characters that are accepted, with a last block in range. -/
theorem decode_canonical (p : Platform) (w w' : WalletAddress) (s s' : Bytes)
    (h : (decode outside p w s).2 = true) (h' : (decode outside p w' s').2 = true)
    (hs : Plain s) (hs' : Plain s') (hl : LastFits (body s)) (hl' : LastFits (body s')) :
    (∃ d, Canonical outside s d) ∧
      (dataOf outside s = dataOf outside s' → body s = body s') := by
  have hcan : ∀ w s, (decode outside p w s).2 = true → Plain s → LastFits (body s) →
      ∃ d, Canonical outside s d := by
    intro w s h hs hl
    obtain ⟨tag, d, hstrip, hd⟩ := decode_data outside h
    have hmark := strip_eq hstrip
    have hp : Plain (body s) := by
      intro c hc
      rcases hmark with he | ⟨m, -, he⟩
      · exact hs c (he ▸ hc)
      · exact hs c (he ▸ List.mem_append_right m hc)
    exact ⟨d, hd, decodeData_eq hp hd hl, hmark⟩
  obtain ⟨d, hd⟩ := hcan w s h hs hl
  obtain ⟨d', hd'⟩ := hcan w' s' h' hs' hl'
  refine ⟨⟨d, hd⟩, fun he => ?_⟩
  have hdd : d = d' := by
    rw [hd.bytes, hd'.bytes] at he
    exact Option.some.inj he
  rw [← hd.base58, ← hd'.base58, hdd]

end

/-! ## An address with a mark -/

/-- A Monero address. -/
def sample : Bytes :=
  ['4', '8', 'e', 'd', 'f', 'H', 'u', '7', 'V', '9', 'Z', '8', '4', 'Y', 'z', 'z', 'M', 'a', '6',
    'f', 'U', 'u', 'e', 'o', 'E', 'L', 'Z', '9', 'Z', 'R', 'X', 'q', '9', 'V', 'e', 't', 'W',
    'z', 'Y', 'G', 'z', 'K', 't', '5', '2', 'X', 'U', '5', 'x', 'v', 'q', 'g', 'z', 'Y', 'n',
    'D', 'K', '9', 'U', 'R', 'n', 'R', 'o', 'J', 'M', 'k', '1', 'j', '8', 'n', 'L', 'w', 'E',
    'V', 's', 'a', 'S', 'W', 'J', '4', 'f', 'h', 'd', 'U', 'y', 'Z', 'i', 'j', 'B', 'G', 'U',
    'i', 'c', 'o', 'D'].map fun c => UInt8.ofNat c.toNat

/-- A platform whose hash is right for the bytes of `sample`. -/
def samplePlatform : Platform where
  shlBeyond x shift := x <<< UInt64.ofNat (shift % 64)
  alloc _ := true
  keccak _ := [0, 59, 202, 92, 69, 194, 176, 169, 233, 244, 170, 134, 124, 70, 255, 107, 167, 7,
    185, 235, 81, 5, 198, 4, 72, 162, 254, 222, 117, 25, 8, 225]
  keccak_length _ := rfl

/-- `sample` as an address of Townforge. -/
def marked : Bytes := [0x54, 0x46, 0x31, 0x4D] ++ sample

theorem accepted : (decode (fun _ => none) samplePlatform {} sample).2 = true ∧
    (decode (fun _ => none) samplePlatform {} marked).2 = true := by
  decide +kernel

theorem decode_canonical_sample : (∃ d, Canonical (fun _ => none) sample d) ∧
    (dataOf (fun _ => none) sample = dataOf (fun _ => none) marked → body sample = body marked) :=
  decode_canonical (fun _ => none) samplePlatform {} {} sample marked accepted.1 accepted.2
    (by unfold Plain; decide +kernel) (by unfold Plain; decide +kernel) (by decide +kernel)
    (by decide +kernel)

/-- The address with a mark has the same bytes. -/
theorem decode_canonical_fails :
    ¬ ∀ outside p w w' s s', (decode outside p w s).2 = true → (decode outside p w' s').2 = true →
      dataOf outside s = dataOf outside s' → s = s' := by
  intro h
  exact absurd (h _ _ _ _ _ _ accepted.1 accepted.2 (by decide +kernel)) (by decide +kernel)

end Rxs.L1.CanonicalAddress
