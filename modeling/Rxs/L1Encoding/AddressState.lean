import Rxs.L1Encoding.CanonicalAddress

/-!
# An address object that is decoded into again

`WalletAddress::decode` writes member by member while it reads. A string that is
refused before there are bytes leaves the object as it was, one that is refused
later sets the tag to 0 and leaves the text, and the members that were not reached.

`decode_eq` says what each call leaves, by the bytes that the string spells.

* **`decode_renews`**: a call shows nothing of an earlier address if and only if the
  string is an address, or the object is new in what the string does not reach.
* `decode_renews_fails`: the empty string leaves an address that is valid.
-/
namespace Rxs.L1.AddressState

open Rxs.Core Rxs.WalletAddress Rxs.L1.Header Rxs.L1.CanonicalAddress
open BlobReader (varintLength varintOf Whole rest afterBytes afterBytes_spec getVarint_ran getArray)

/-! ## The law -/

section
variable (outside : UInt8 → Option UInt64) (p : Platform) (w : WalletAddress) (s : Bytes)

/-- The bytes of a string. -/
def spelled : Option Bytes := (strip s).bind fun r => decodeData outside r.2

/-- Behind the tag there are `k` bytes. -/
def Reaches (k : Nat) : Prop :=
  ∃ d n, spelled outside s = some d ∧ varintLength d = some n ∧ n + k ≤ d.length

/-- The last four bytes. -/
def checksumOf (d : Bytes) : Bytes := Bytes.slice d (d.length - 4) 4

/-- An address: a tag, two keys, and the checksum. -/
def Address : Prop :=
  ∃ d, spelled outside s = some d ∧ Reaches outside s 64 ∧
    checksumOf d = (p.keccak (d.take (d.length - 4))).take 4

/-- The object of the bytes `d`, with a tag of `n` bytes. -/
def object (tf_tag : UInt64) (address d : Bytes) (n : Nat) : WalletAddress where
  data := address
  tag := if tf_tag ≠ 0 then tf_tag else varintOf p (d.take n)
  checksum := checksumOf d
  publicSpendKey := Bytes.slice d n 32
  publicViewKey := Bytes.slice d (n + 32) 32

/-- A refused call leaves nothing that a new object does not have; another one leaves the
members of the string. -/
structure Renews : Prop where
  refused : (decode outside p w s).2 = false →
    isValid (decode outside p w s).1 = false ∧
      (decode outside p w s).1 = (decode outside p {} s).1
  accepted : (decode outside p w s).2 = true → ∃ tag address d n, strip s = some (tag, address) ∧
    decodeData outside address = some d ∧ varintLength d = some n ∧ n + 64 ≤ d.length ∧
      (decode outside p w s).1 = object p tag address d n

/-- The members that the string does not reach are those of a new object. -/
structure Unused : Prop where
  data : w.data = []
  tag : ¬ (∃ d, spelled outside s = some d) → w.tag = 0
  publicSpendKey : ¬ Reaches outside s 32 → w.publicSpendKey = List.replicate 32 0
  publicViewKey : ¬ Reaches outside s 64 → w.publicViewKey = List.replicate 32 0
  checksum : ¬ Reaches outside s 64 → w.checksum = List.replicate 4 0

end

/-! ## The reader -/

section
variable {ρ σ : Type}

/-- Reading at `i` of the bytes `d`, with `w` read so far. -/
structure At (d : Bytes) (i : Nat) (w : σ) (s : Scan σ) : Prop where
  whole : Whole s
  mem : s.mem = d
  index : s.cur.index = i
  data : s.data = w

theorem At.moved {d : Bytes} {i : Nat} {w : σ} {s : Scan σ} (h : At d i w s) (n : UInt64)
    (j : Nat) : At d j w (Scanner.moved s n j) := ⟨h.whole.moved n j, h.mem, rfl, h.data⟩

theorem At.update {d : Bytes} {i : Nat} {w : σ} {s : Scan σ} (h : At d i w s) (f : σ → σ) :
    At d i (f w) { s with data := f s.data } :=
  ⟨⟨h.whole.base, h.whole.size, h.whole.length⟩, h.mem, h.index, congrArg f h.data⟩

/-- A member of `n` bytes, and what comes after it. -/
theorem At.member {β : Type} {d : Bytes} {i : Nat} {w : σ} {s : Scan σ} (h : At d i w s)
    {n : UInt64} (hn : n.toNat < 2 ^ 62) (hi : i ≤ d.length) (f : Bytes → σ → σ)
    (k : Scanner ρ σ β) :
    (i + n.toNat ≤ d.length ∧ ∃ t, At d (i + n.toNat) (f (Bytes.slice d i n.toNat) w) t ∧
        (getArray Scanner.wrap n >>= fun a => Scanner.update (f a) >>= fun _ => k) s = k t) ∨
      (d.length < i + n.toNat ∧ ∃ t, t.data = w ∧
        (getArray Scanner.wrap n >>= fun a => Scanner.update (f a) >>= fun _ => k) s =
          .error .thrown t) := by
  obtain ⟨hs, rfl, rfl, rfl⟩ := h
  rcases getArray_ran (ρ := ρ) adds_wrap hs hn hi with ⟨hl, hr⟩ | ⟨hl, hr⟩
  · have ht : At s.mem (s.cur.index + n.toNat) s.data (Scanner.moved s n (s.cur.index + n.toNat)) :=
      ⟨hs.moved _ _, rfl, rfl, rfl⟩
    exact .inl ⟨hl, _, ht.update _, run_ok hr⟩
  · exact .inr ⟨hl, Scanner.moved s n s.cur.index, rfl, run_error hr⟩

/-- The reader goes to the last four bytes, also where it is behind them. -/
theorem At.skip {β : Type} {d : Bytes} {i : Nat} {w : σ} {s : Scan σ} (h : At d i w s)
    (hi : i ≤ d.length) (h4 : 4 ≤ d.length) (k : Scanner ρ σ β) :
    ∃ t, At d (d.length - 4) w t ∧
      (remaining >>= fun n => BlobReader.skip Scanner.wrap (n - 4) >>= fun _ => k) s = k t := by
  obtain ⟨hs, rfl, rfl, rfl⟩ := h
  have hl := hs.length
  have hadd : Scanner.wrap s.cur.index (UInt64.ofNat (s.cur.size - s.cur.index) - 4) =
      s.mem.length - 4 := by
    have h4 : (4 : UInt64).toNat = 4 := rfl
    rw [hs.size, Scanner.wrap, UInt64.toNat_sub, UInt64.toNat_ofNat', h4]
    omega
  refine ⟨Scanner.moved s (UInt64.ofNat (s.cur.size - s.cur.index) - 4) (s.mem.length - 4),
    ⟨hs.moved _ _, rfl, rfl, rfl⟩, ?_⟩
  have hskip : (BlobReader.skip Scanner.wrap (UInt64.ofNat (s.cur.size - s.cur.index) - 4) :
      Scanner ρ σ Nat) s = .ok s.cur.index
        (Scanner.moved s (UInt64.ofNat (s.cur.size - s.cur.index) - 4) (s.mem.length - 4)) := by
    unfold BlobReader.skip Scanner.take
    rw [hadd, hs.size, hs.base, Nat.zero_add, if_neg (by omega)]
  exact (run_ok rfl).trans (run_ok hskip)

end

/-- What the reader leaves of `w`, and whether it got through. -/
def readOf (p : Platform) (w : WalletAddress) (d : Bytes) : WalletAddress × Bool :=
  match varintLength d with
  | none => (w, false)
  | some n =>
    let w := { w with tag := varintOf p (d.take n) }
    if n + 32 ≤ d.length then
      let w := { w with publicSpendKey := Bytes.slice d n 32 }
      if n + 64 ≤ d.length then
        ({ w with publicViewKey := Bytes.slice d (n + 32) 32, checksum := checksumOf d }, true)
      else (w, false)
    else (w, false)

/-- The object after a run, and whether it got through. -/
def ended {ε α : Type} : EStateM.Result ε (Scan WalletAddress) α → WalletAddress × Bool
  | .ok _ t => (t.data, true)
  | .error _ t => (t.data, false)

/-- **The reader**, member by member. -/
theorem readFields_eq (p : Platform) (w : WalletAddress) {d : Bytes} (hd : d.length < 2 ^ 63)
    (h4 : 4 ≤ d.length) : ended (readFields p (d.length + 1) (reader w d)) = readOf p w d := by
  have hw : Whole (reader w d) := ⟨rfl, rfl, hd⟩
  have hrest : rest (reader w d) = d := rfl
  have hkey : kKeySize.toNat = 32 := rfl
  unfold readFields
  rcases getVarint_ran (ρ := Unit) (p := p) hw (d.length + 1) with
    ⟨n, hn, -, hv⟩ | ⟨e, t, hv, ht, ⟨-, hlt, -⟩ | ⟨-, hnone⟩⟩
  · rw [hrest] at hn hv
    have hle := (BlobReader.varintLength_pos hn).2
    obtain ⟨hm, hdata, hcur⟩ := afterBytes_spec (reader w d) n
    have h₀ : At d n w (afterBytes (reader w d) n) :=
      ⟨hw.afterBytes n, hm, by rw [hcur]; exact Nat.zero_add n, hdata⟩
    have h₁ := h₀.update fun w => { w with tag := varintOf p (d.take n) }
    rw [run_ok hv]
    refine (congrArg ended (run_ok rfl)).trans ?_
    rcases h₁.member (n := kKeySize) (by decide) hle
      (fun a w => { w with publicSpendKey := a }) _ with ⟨hl₁, t₂, h₂, hr⟩ | ⟨hl₁, t₂, h₂, hr⟩
    · rw [hkey] at hl₁ h₂
      rw [hr]
      rcases h₂.member (n := kKeySize) (by decide) hl₁
        (fun a w => { w with publicViewKey := a }) _ with ⟨hl₂, t₃, h₃, hr⟩ | ⟨hl₂, t₃, h₃, hr⟩
      · rw [hkey] at hl₂ h₃
        obtain ⟨t₄, h₄, hr₄⟩ := h₃.skip hl₂ h4 (β := Unit) _
        rw [hr, hr₄]
        have h4' : (4 : UInt64).toNat = 4 := rfl
        rcases getArray_ran (ρ := Unit) adds_wrap h₄.whole (n := 4) (by decide)
          (by rw [h₄.index, h₄.mem]; omega) with ⟨-, hr₅⟩ | ⟨hlt, -⟩
        · rw [h₄.index, h₄.mem, h4'] at hr₅
          rw [run_ok hr₅]
          simp [readOf, ended, hn, hl₁, hl₂, checksumOf, Scanner.update, Scanner.moved, h₄.data]
        · rw [h₄.index, h₄.mem, h4'] at hlt
          omega
      · rw [hkey] at hl₂
        rw [hr]
        have hno : ¬ n + 64 ≤ d.length := by omega
        simp [readOf, ended, hn, hl₁, hno, h₃]
    · rw [hkey] at hl₁
      rw [hr]
      have hno : ¬ n + 32 ≤ d.length := by omega
      simp [readOf, ended, hn, hno, h₂]
  · rw [hrest] at hlt
    omega
  · rw [hrest] at hnone
    rw [run_error hv]
    simp [readOf, ended, hnone, ht, reader]

/-! ## A call -/

section
variable {outside : UInt8 → Option UInt64} {p : Platform} {w : WalletAddress} {s : Bytes}

theorem length_decodeBlocks {last index : Nat} (hi : index ≤ 8) {n : Nat} {address data d : Bytes}
    (h : decodeBlocks outside last index n address data = some d) :
    d.length = data.length + 8 * n + index := by
  induction n generalizing address data with
  | zero =>
    obtain ⟨num, -, h⟩ := Option.bind_eq_some_iff.mp h
    cases h
    rw [List.length_append, length_blockBytes num hi]
    omega
  | succ n ih =>
    obtain ⟨num, -, h⟩ := Option.bind_eq_some_iff.mp h
    rw [ih h, List.length_append, length_blockBytes num (Nat.le_refl 8)]
    omega

/-- The bytes hold a checksum, and are few. -/
theorem length_decodeData {address d : Bytes} (h : decodeData outside address = some d) :
    4 ≤ d.length ∧ d.length < 2 ^ 63 := by
  unfold decodeData at h
  split at h
  · cases h
  · rename_i hsize
    simp only at h
    split at h
    · cases h
    · rename_i index hidx
      have hi : index < 9 := (List.findIdx?_eq_some_iff_findIdx_eq.mp hidx).1
      split at h
      · cases h
      · rename_i hmin
        have hlen := length_decodeBlocks (by omega) h
        unfold kMinSize kMaxSize at hsize
        unfold kMinDataSize at hmin
        simp only [List.length_nil] at hlen
        omega

/-- A string that spells no bytes. -/
theorem decode_none (h : spelled outside s = none) : decode outside p w s = (w, false) := by
  unfold spelled at h
  unfold decode
  cases hs : strip s with
  | none => rfl
  | some r =>
    rw [hs] at h
    simp only
    rw [show decodeData outside r.2 = none from h]

/-- A string that spells bytes. -/
theorem decode_some {tag : UInt64} {address d : Bytes} (hs : strip s = some (tag, address))
    (hd : decodeData outside address = some d) :
    decode outside p w s =
      if (readOf p w d).2 = true ∧
        (readOf p w d).1.checksum = (p.keccak (d.take (d.length - 4))).take 4
      then ({ (readOf p w d).1 with
        data := address, tag := if tag ≠ 0 then tag else (readOf p w d).1.tag }, true)
      else ({ (readOf p w d).1 with tag := 0 }, false) := by
  obtain ⟨h4, hlt⟩ := length_decodeData hd
  rw [← readFields_eq p w hlt h4]
  unfold decode
  rw [hs]
  simp only
  rw [hd]
  simp only
  cases readFields p (d.length + 1) (reader w d) with
  | error e t => simp [ended]
  | ok a t => simp [ended]

theorem spelled_some {d : Bytes} (h : spelled outside s = some d) :
    ∃ tag address, strip s = some (tag, address) ∧ decodeData outside address = some d := by
  obtain ⟨⟨tag, address⟩, hs, hd⟩ := Option.bind_eq_some_iff.mp h
  exact ⟨tag, address, hs, hd⟩

/-- The reader gets through the bytes of an address. -/
theorem readOf_through {d : Bytes} {n : Nat} (hn : varintLength d = some n)
    (hl : n + 64 ≤ d.length) : readOf p w d = ({ w with
      tag := varintOf p (d.take n), publicSpendKey := Bytes.slice d n 32,
      publicViewKey := Bytes.slice d (n + 32) 32, checksum := checksumOf d }, true) := by
  have hl₁ : n + 32 ≤ d.length := by omega
  simp [readOf, hn, hl, hl₁]

/-- The reader stops. -/
theorem readOf_stops {d : Bytes} (h : ∀ n, varintLength d = some n → ¬ n + 64 ≤ d.length) :
    (readOf p w d).2 = false := by
  cases hn : varintLength d with
  | none => simp [readOf, hn]
  | some n =>
    have hl := h n hn
    by_cases hl₁ : n + 32 ≤ d.length <;> simp [readOf, hn, hl, hl₁]

/-- What a refused call leaves. -/
def left (outside : UInt8 → Option UInt64) (p : Platform) (s : Bytes) (w : WalletAddress) :
    WalletAddress :=
  match spelled outside s with
  | none => w
  | some d => { (readOf p w d).1 with tag := 0 }

/-- **A call**: an address is taken with its members, any other string is refused. -/
theorem decode_eq (outside : UInt8 → Option UInt64) (p : Platform) (w : WalletAddress) (s : Bytes) :
    (Address outside p s ∧ (decode outside p w s).2 = true ∧
      ∃ tag address d n, strip s = some (tag, address) ∧ decodeData outside address = some d ∧
        varintLength d = some n ∧ n + 64 ≤ d.length ∧
        (decode outside p w s).1 = object p tag address d n) ∨
    (¬ Address outside p s ∧ decode outside p w s = (left outside p s w, false)) := by
  cases hd : spelled outside s with
  | none =>
    refine .inr ⟨fun ⟨d, h, _⟩ => ?_, ?_⟩
    · rw [hd] at h
      cases h
    · rw [decode_none hd, left, hd]
  | some d =>
    obtain ⟨tag, address, hs, hdata⟩ := spelled_some hd
    have heq := decode_some (p := p) (w := w) hs hdata
    by_cases hn : ∃ n, varintLength d = some n ∧ n + 64 ≤ d.length
    · obtain ⟨n, hn, hl⟩ := hn
      rw [readOf_through hn hl] at heq
      by_cases hc : checksumOf d = (p.keccak (d.take (d.length - 4))).take 4
      · rw [if_pos ⟨rfl, hc⟩] at heq
        exact .inl ⟨⟨d, hd, ⟨d, n, hd, hn, hl⟩, hc⟩, by rw [heq],
          tag, address, d, n, hs, hdata, hn, hl, by rw [heq]; rfl⟩
      · rw [if_neg fun h => hc h.2] at heq
        refine .inr ⟨fun ⟨e, he, _, h⟩ => ?_, ?_⟩
        · rw [hd] at he
          cases he
          exact hc h
        · rw [heq, left, hd]
          simp only [readOf_through hn hl]
    · have hno : ∀ n, varintLength d = some n → ¬ n + 64 ≤ d.length := fun n h hl => hn ⟨n, h, hl⟩
      rw [if_neg fun h => Bool.false_ne_true ((readOf_stops hno).symm.trans h.1)] at heq
      refine .inr ⟨fun ⟨e, he, ⟨e', n, he', h, hl⟩, _⟩ => ?_, ?_⟩
      · rw [hd] at he'
        cases he'
        exact hno n h hl
      · rw [heq, left, hd]

theorem reaches_iff {d : Bytes} (h : spelled outside s = some d) (k : Nat) :
    Reaches outside s k ↔ ∃ n, varintLength d = some n ∧ n + k ≤ d.length := by
  constructor
  · rintro ⟨e, n, he, hn, hl⟩
    rw [h] at he
    cases he
    exact ⟨n, hn, hl⟩
  · rintro ⟨n, hn, hl⟩
    exact ⟨d, n, h, hn, hl⟩

theorem unused_iff : Unused outside w s ↔ w.data = [] ∧
    (¬ (∃ d, spelled outside s = some d) → w.tag = 0) ∧
    (¬ Reaches outside s 32 → w.publicSpendKey = List.replicate 32 0) ∧
    (¬ Reaches outside s 64 → w.publicViewKey = List.replicate 32 0) ∧
    (¬ Reaches outside s 64 → w.checksum = List.replicate 4 0) :=
  ⟨fun h => ⟨h.data, h.tag, h.publicSpendKey, h.publicViewKey, h.checksum⟩,
    fun ⟨h₁, h₂, h₃, h₄, h₅⟩ => ⟨h₁, h₂, h₃, h₄, h₅⟩⟩

theorem isValid_left (p : Platform) (s : Bytes) : isValid (left outside p s {}) = false := by
  cases hd : spelled outside s with
  | none => simp [left, hd, isValid]
  | some d => simp [left, hd, isValid]

/-- A refused call leaves what a new object has if and only if the members that are not
reached have it. -/
theorem left_eq_iff (outside : UInt8 → Option UInt64) (p : Platform) (w : WalletAddress)
    (s : Bytes) : left outside p s w = left outside p s {} ↔ Unused outside w s := by
  obtain ⟨data, tag, checksum, spend, view⟩ := w
  cases hd : spelled outside s with
  | none =>
    have hno : ∀ k, ¬ Reaches outside s k := by
      rintro k ⟨d, n, h, -⟩
      rw [hd] at h
      cases h
    simp [left, unused_iff, hd, hno]
    tauto
  | some d =>
    have hreach := reaches_iff hd
    cases hn : varintLength d with
    | none => simp [left, unused_iff, hd, hreach, hn, readOf]; tauto
    | some n =>
      by_cases h₁ : n + 32 ≤ d.length
      · by_cases h₂ : n + 64 ≤ d.length
        · simp [left, unused_iff, hd, hreach, hn, h₁, h₂, readOf]
        · simp [left, unused_iff, hd, hreach, hn, h₁, h₂, readOf]; tauto
      · have h₂ : ¬ n + 64 ≤ d.length := by omega
        simp [left, unused_iff, hd, hreach, hn, h₁, h₂, readOf]; tauto

end

/-- **A call renews the object** if and only if the string is an address, or the object is new
in every member that the string does not reach. -/
theorem decode_renews (outside : UInt8 → Option UInt64) (p : Platform) (w : WalletAddress)
    (s : Bytes) : Renews outside p w s ↔ Address outside p s ∨ Unused outside w s := by
  rcases decode_eq outside p w s with ⟨ha, hr, hm⟩ | ⟨ha, he⟩
  · refine iff_of_true ⟨fun hf => ?_, fun _ => hm⟩ (.inl ha)
    rw [hr] at hf
    cases hf
  · have hnew : decode outside p {} s = (left outside p s {}, false) := by
      rcases decode_eq outside p {} s with ⟨h, -⟩ | ⟨-, h⟩
      · exact absurd h ha
      · exact h
    rw [or_iff_right ha, ← left_eq_iff outside p w s]
    constructor
    · intro h
      have hsame := (h.refused (by rw [he])).2
      rwa [he, hnew] at hsame
    · intro h
      refine ⟨fun _ => ?_, fun ht => ?_⟩
      · rw [he, hnew]
        exact ⟨by rw [h]; exact isValid_left p s, h⟩
      · rw [he] at ht
        cases ht

/-- The object of an address is still one after the empty string. -/
theorem decode_renews_fails : ¬ ∀ outside p w s, Renews outside p w s := by
  intro h
  have hvalid := ((h (fun _ => none) samplePlatform
    (decode (fun _ => none) samplePlatform {} sample).1 []).refused (by decide +kernel)).1
  exact absurd hvalid (by decide +kernel)

end Rxs.L1.AddressState
