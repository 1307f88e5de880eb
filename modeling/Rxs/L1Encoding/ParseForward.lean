import Rxs.L1Encoding.BlockTemplate

/-!
# `parse` reads forward and ends

`BlobReader` tests `m_index + n > m_size` in 64-bit words, with lengths taken
from the blob. A length that carries the sum over `2^64` passes the test and
moves the reader back: the loop over tx_extra may then never end, and a wrapped
`m_extraSize` makes the second reader longer than the blob.

The law compares the code with the same parser over integer addition, which
throws at such a length. `Forward` is what the law asks of the code: it never
goes back or leaves the window, meets nothing undefined, and enough fuel is
enough.

* `tracks_parseBody`: section by section, either addition gives the same run.
* **`parse_forward`**: `Forward` holds of the code if and only if every access of
  the integer parser fits: its lengths keep index plus length below `2^64`, its
  stores stay in `m_hashes`, its length for `keccak` is an `int`.
* `parse_forward_fails`: an extra nonce of length `2^64 - 11`.
-/
namespace Rxs.L1.ParseForward

open Rxs.Core Rxs.Core.Scanner Rxs.BlockTemplate

variable {L fuel : Nat} {p : Platform}

/-! ## The parser over both additions -/

section
variable {κ : Type} {k : Parse → κ} {I : κ → Nat → Prop}

theorem tracks_member (m : Member) : Tracks L k I 0 (member m) (member m) :=
  ⟨fun _ => List.suffix_rfl, fun s hs _ => .inl ⟨rfl, hs, .refl k s⟩⟩

theorem tracks_ensure (c : Prop) [Decidable c] : Tracks L k I 0 (ensure c) (ensure c) :=
  .onlyIf (.halt (by simp) (by simp))

theorem tracks_offset (o : Offset) : Tracks L k I 0 (offset o) (offset o) :=
  (tracks_member _).seq fun _ => .pure _

theorem tracks_assign {m : Member} (v : m.Val)
    (h : ∀ s, k { t := Function.update s.t m v, written := m :: s.written } = k s) :
    Tracks L k I 0 (assign m v) (assign m v) :=
  .update h

end

/-- The start of the miner transaction. -/
def prefixOf (s : Parse) : UInt32 := s.t (.offset .MINER_TX_PREFIX_OFFSET)

section
variable {I : UInt32 → Nat → Prop}

theorem tracks_parseHeader (hL : L ≤ fuel) :
    Tracks L prefixOf I 0 (parseHeader exact p fuel) (parseHeader wrap p fuel) := by
  unfold parseHeader
  refine .seq .getByte fun _ => .seq (tracks_assign _ fun _ => rfl) fun _ => ?_
  refine .seq .getByte fun _ => .seq (tracks_assign _ fun _ => rfl) fun _ => ?_
  refine .seq (.getVarint hL) fun _ => .seq (tracks_assign _ fun _ => rfl) fun _ => ?_
  refine .seq (.getSpan _) fun _ => .seq (tracks_assign _ fun _ => rfl) fun _ => ?_
  refine .seq .index fun _ => .seq (tracks_assign _ fun _ => rfl) fun _ => ?_
  refine .seq (.skip _) fun _ => .seq (tracks_member _) fun _ => .seq (tracks_member _) fun _ => ?_
  refine .seq (.onlyIf ?_) fun _ => .onlyIf ?_
  · refine .seq (.getSpan _) fun _ => .seq (tracks_assign _ fun _ => rfl) fun _ => ?_
    exact .seq (.getArray _) fun _ => tracks_assign _ fun _ => rfl
  · exact .seq (.getArray _) fun _ => .pure _

theorem tracks_parseInput (hL : L ≤ fuel) :
    Tracks L prefixOf I 0 (parseInput p fuel) (parseInput p fuel) := by
  unfold parseInput
  refine .seq (.getVarint hL) fun _ => .seq (tracks_assign _ fun _ => rfl) fun _ => ?_
  refine .seq (tracks_member _) fun _ => ?_
  refine .seq (.onlyIf (.seq (.getVarint hL) fun _ => tracks_assign _ fun _ => rfl)) fun _ => ?_
  refine .seq (.getVarint hL) fun _ => .seq (tracks_assign _ fun _ => rfl) fun _ => ?_
  refine .seq (tracks_member _) fun _ => .seq (tracks_ensure _) fun _ => ?_
  refine .seq .getByte fun _ => .seq (tracks_assign _ fun _ => rfl) fun _ => ?_
  refine .seq (tracks_member _) fun _ => .seq (tracks_ensure _) fun _ => ?_
  refine .seq (.getVarint hL) fun _ => .seq (tracks_assign _ fun _ => rfl) fun _ => ?_
  refine .seq (.getVarint hL) fun _ => .seq (tracks_assign _ fun _ => rfl) fun _ => ?_
  refine .seq (tracks_member _) fun _ => .seq (tracks_ensure _) fun _ => ?_
  refine .seq (.getVarint hL) fun _ => .seq (tracks_assign _ fun _ => rfl) fun _ => ?_
  exact .seq .getByte fun _ => tracks_assign _ fun _ => rfl

theorem tracks_isFcmpPp : Tracks L prefixOf I 0 isFcmpPp isFcmpPp :=
  .seq (tracks_member _) fun _ => .seq (tracks_member _) fun _ => .pure _

theorem tracks_parseZephyrOutput (hL : L ≤ fuel) (n : UInt64) :
    Tracks L prefixOf I 1 (parseZephyrOutput exact p fuel n)
      (parseZephyrOutput wrap p fuel n) := by
  unfold parseZephyrOutput
  refine .fst (.getVarint hL) fun _ => .seq .getByte fun _ => .seq (tracks_ensure _) fun _ => ?_
  refine .seq (.getSpan _) fun _ => .seq (.getVarint hL) fun _ => ?_
  exact .seq (.skip _) fun _ => .seq .getByte fun _ => .pure _

theorem tracks_parseOutput (hL : L ≤ fuel) (is_fcmp_pp : Bool) :
    Tracks L prefixOf I 0 (parseOutput exact p fuel is_fcmp_pp)
      (parseOutput wrap p fuel is_fcmp_pp) := by
  unfold parseOutput
  refine .seq (tracks_member _) fun _ => .seq (tracks_ensure _) fun _ => ?_
  refine .seq .index fun _ => .seq (tracks_assign _ fun _ => rfl) fun _ => ?_
  refine .seq (.getSpan _) fun _ => .seq (tracks_assign _ fun _ => rfl) fun _ => ?_
  refine .seq (.onlyIf ?_) fun _ => .seq (tracks_member _) fun _ => ?_
  · refine .seq (.getArray _) fun _ => .seq (tracks_assign _ fun _ => rfl) fun _ => ?_
    exact .seq (.getArray _) fun _ => tracks_assign _ fun _ => rfl
  refine .seq (.onlyIf ?_) fun _ => .seq (.onlyIf ?_) fun _ => .onlyIf ?_
  · refine .seq (tracks_ensure _) fun _ => .seq (.getVarint hL) fun _ => .seq (.skip _) fun _ => ?_
    refine .seq .getByte fun _ => .seq (tracks_assign _ fun _ => rfl) fun _ =>
      .seq (tracks_member _) fun _ => ?_
    exact .seq (.loop (fun _ => .pure _) (tracks_parseZephyrOutput hL) hL _) fun _ => .pure _
  · exact .seq .getByte fun _ => tracks_assign _ fun _ => rfl
  · exact .seq (.getVarint hL) fun _ => tracks_assign _ fun _ => rfl

theorem tracks_inExtra (b : Bool) : Tracks L prefixOf I 0 (inExtra b) (inExtra b) :=
  .seq .index fun _ => .seq (tracks_member _) fun _ => .pure _

theorem tracks_parseExtraField (hL : L ≤ fuel) (first : Bool) :
    Tracks L prefixOf I 1 (parseExtraField exact p fuel first)
      (parseExtraField wrap p fuel first) := by
  unfold parseExtraField
  refine .fst (.getVarint hL) fun tag => .ite ?_ (.ite ?_ (.ite ?_ ?_))
  · refine .seq (.onlyIf ?_) fun _ => .seq (.skip _) fun _ => .pure _
    exact .seq (tracks_offset _) fun _ => .seq .index fun _ => tracks_assign _ fun _ => rfl
  · refine .seq (.getVarint hL) fun _ => .seq (tracks_offset _) fun _ => .seq .index fun _ => ?_
    refine .seq (tracks_assign _ fun _ => rfl) fun _ => .seq (.getSpan _) fun _ => ?_
    exact .seq (tracks_assign _ fun _ => rfl) fun _ => .pure _
  · refine .seq (.getVarint hL) fun _ => .seq (tracks_offset _) fun _ => .seq .index fun _ => ?_
    refine .seq (tracks_assign _ fun _ => rfl) fun _ => .seq (.getSpan _) fun _ => ?_
    exact .seq (tracks_assign _ fun _ => rfl) fun _ => .pure _
  · exact .halt (by simp) (by simp)

/-- The reader of tx_extra starts where the other one is, and the other one
has passed what it reads. -/
theorem tracks_parseExtra (hL : L ≤ fuel) :
    Tracks L prefixOf I 0 (parseExtra exact p fuel) (parseExtra wrap p fuel) := by
  have hl : Tracks L prefixOf I 0 (loop inExtra (parseExtraField exact p fuel) fuel true)
      (loop inExtra (parseExtraField wrap p fuel) fuel true) :=
    .loop tracks_inExtra (tracks_parseExtraField hL) hL true
  unfold parseExtra
  refine .seq (.getVarint hL) fun size => ⟨fun s => ?_, fun s hs hI => ?_⟩
  · have hg := (Tracks.skip (ρ := Bool) (L := L) (k := prefixOf) (I := I) size).grows.bind fun _ =>
      (Tracks.grows_within (UInt32.ofNat s.cur.index).toNat size.toNat hl.grows).bind fun _ =>
        (Tracks.pure (L := L) (k := prefixOf) (I := I) ()).grows
    exact hg { s with data :=
      { t := Function.update (Function.update s.data.t .extraSize size) (.offset .TX_EXTRA_OFFSET)
          (UInt32.ofNat s.cur.index)
        written := .offset .TX_EXTRA_OFFSET :: .extraSize :: s.data.written } }
  · let t : Scan Parse := { s with data :=
      { t := Function.update (Function.update s.data.t .extraSize size) (.offset .TX_EXTRA_OFFSET)
          (UInt32.ofNat s.cur.index)
        written := .offset .TX_EXTRA_OFFSET :: .extraSize :: s.data.written } }
    have ht : Ok t := ⟨hs.index, hs.window, hs.length, hs.log⟩
    have hb : (UInt32.ofNat s.cur.index).toNat ≤ t.cur.base + t.cur.index := by
      rw [UInt32.toNat_ofNat']
      exact (Nat.mod_le _ _).trans (Nat.le_add_left _ _)
    have hsub : TracksAt (s.mem.length < L) prefixOf 0 t _ _ := Tracks.subAt (n := size) ht hb
      (fun u hu hm hk => by
        have h := hl.at_ u hu (by rw [hk, hm]; exact hI)
        rw [hm] at h
        exact h) hl.grows
    have h := hsub.bind (e := 0) (fun _ => (Tracks.pure (L := L) (k := prefixOf) (I := I) ()).grows)
      fun _ u _ hu _ => .inl ⟨rfl, hu, .refl prefixOf u⟩
    rw [bind_assoc, bind_assoc] at h
    exact h.after (e := 0) ⟨rfl, rfl, rfl, Nat.le_refl _, rfl⟩

theorem tracks_parseZephyrAmounts (hL : L ≤ fuel) :
    Tracks L prefixOf I 0 (parseZephyrAmounts p fuel) (parseZephyrAmounts p fuel) := by
  refine .seq (tracks_member _) fun _ => .onlyIf ?_
  refine .seq (.getVarint hL) fun _ => .seq (.getVarint hL) fun _ => ?_
  exact .seq (.getVarint hL) fun _ => .pure _

end

/-- Both ends of the prefix of the miner transaction. -/
def prefixes (s : Parse) : UInt32 × UInt32 :=
  (s.t (.offset .MINER_TX_PREFIX_OFFSET), s.t (.offset .MINER_TX_PREFIX_END_OFFSET))

theorem ensure_ok {c : Prop} [Decidable c] {s t : Scan Parse} (h : ensure c s = .ok () t) :
    c ∧ t = s := by
  unfold ensure onlyIf at h
  split at h
  · cases h
  · rename_i hc
    cases h
    exact ⟨not_not.mp hc, rfl⟩

section
variable {κ : Type} {k : Parse → κ} {I : κ → Nat → Prop}

/-- The byte that is looked at is the one before the cursor. -/
theorem tracks_checkPrefixEnd : Tracks L k I 0 checkPrefixEnd checkPrefixEnd where
  grows := by
    have hp := (Tracks.pure (ρ := Bool) (L := 0) (k := k) (I := I) ()).grows
    refine .bind (Tracks.index (L := L) (k := k) (I := I)).grows fun i => ?_
    refine .bind (tracks_offset (L := L) (k := k) (I := I) _).grows fun o => ?_
    refine .bind (tracks_ensure (L := L) (k := k) (I := I) _).grows fun _ => ?_
    exact .bind (Tracks.grows_peek _ _) fun b => (tracks_ensure (L := L) (k := k) (I := I) _).grows
  at_ s hs hI := by
    have hp := (tracks_ensure (L := L) (k := k) (I := I))
    have hi := hs.index
    have hw := hs.window
    refine ((hp (s.cur.index = (s.data.t (.offset .MINER_TX_PREFIX_END_OFFSET)).toNat + 1)).at_ s hs
      hI).bind (e := 0) (fun _ => .bind (Tracks.grows_peek _ _) fun b => (hp _).grows)
      fun _ t hr ht hm => ?_
    obtain ⟨hc, rfl⟩ := ensure_ok hr
    refine (Tracks.peekAt ht (by omega)).bind (e := 0) (fun _ => (hp _).grows) fun b u _ hu hm => ?_
    have h := (hp (b = [0])).at_ u hu (by rw [hm.kept, hm.mem]; exact hI)
    rw [hm.mem] at h
    exact h

end

section
variable {I : UInt32 → Nat → Prop}

theorem checkPrefixEnd_ok {s t : Scan Parse} (h : checkPrefixEnd s = .ok () t) :
    t = s ∧ s.cur.index = (s.data.t (.offset .MINER_TX_PREFIX_END_OFFSET)).toNat + 1 := by
  obtain ⟨_, t, hr, h⟩ := bind_ok (x := ensure (s.cur.index = _)) h
  obtain ⟨hc, rfl⟩ := ensure_ok hr
  obtain ⟨b, u, hr, h⟩ := bind_ok h
  unfold peek at hr
  split at hr <;> cases hr
  exact ⟨(ensure_ok h).2, hc⟩

theorem tracks_parseRct : Tracks L prefixOf I 0 parseRct parseRct := by
  refine .seq .index fun _ => .seq (tracks_assign _ fun _ => rfl) fun _ =>
    .seq .getByte fun _ => ?_
  refine .seq (tracks_member _) fun _ => .seq (tracks_member _) fun _ => ?_
  refine .seq (.onlyIf (.halt (by simp) (by simp))) fun _ => .seq (tracks_ensure _) fun _ => ?_
  exact tracks_checkPrefixEnd

theorem onlyIf_halt_ok {c : Prop} [Decidable c] {ε : Halt Bool} {s t : Scan Parse}
    (h : (onlyIf c (halt ε) : Parser Unit) s = .ok () t) : t = s := by
  unfold onlyIf at h
  split at h <;> cases h
  rfl

/-- The end of the prefix is where the cursor was. -/
theorem parseRct_ok {s t : Scan Parse} (hs : Ok s) (h : parseRct s = .ok () t) :
    Ok t ∧ Moved prefixOf 0 s t ∧
      (t.data.t (.offset .MINER_TX_PREFIX_END_OFFSET)).toNat = s.cur.index := by
  have hm := (tracks_parseRct (L := 0) (I := fun _ _ => True)).moved hs trivial h
  refine ⟨hm.1, hm.2, ?_⟩
  let s₁ : Scan Parse := { s with data :=
    { t := Function.update s.data.t (.offset .MINER_TX_PREFIX_END_OFFSET) (UInt32.ofNat s.cur.index)
      written := .offset .MINER_TX_PREFIX_END_OFFSET :: s.data.written } }
  have hs₁ : Ok s₁ := ⟨hs.index, hs.window, hs.length, hs.log⟩
  obtain ⟨v, t₁, hr, h⟩ := bind_ok (x := BlobReader.getByte) (s := s₁) h
  have hb := (Tracks.getByte (L := 0) (k := prefixes) (I := fun _ _ => True)).moved hs₁ trivial hr
  obtain ⟨_, t₂, hr₂, h⟩ := bind_ok (x := onlyIf _ (halt (.ret true))) (s := t₁) h
  cases onlyIf_halt_ok hr₂
  obtain ⟨_, t₃, hr₃, h⟩ := bind_ok h
  cases (ensure_ok hr₃).2
  obtain ⟨rfl, hc⟩ := checkPrefixEnd_ok h
  have hk : (t.data.t (.offset .MINER_TX_PREFIX_END_OFFSET)) = UInt32.ofNat s.cur.index :=
    congrArg Prod.snd hb.2.kept
  have hi : s.cur.index + 1 ≤ t.cur.index := hb.2.index
  rw [hk] at hc ⊢
  have hle : (UInt32.ofNat s.cur.index).toNat ≤ s.cur.index := by
    rw [UInt32.toNat_ofNat']
    exact Nat.mod_le _ _
  omega

end

/-! ## The hash table -/

section
variable {I : UInt32 × UInt32 → Nat → Prop}

theorem tracks_store (start : Nat) (d : Bytes) :
    Tracks L prefixes I 0 (store start d) (store start d) :=
  .seq (tracks_member _) fun _ => .seq (.demand _ _) fun _ => tracks_assign _ fun _ => rfl

theorem tracks_parseHash (c i : UInt64) :
    Tracks L prefixes I 1 (parseHash exact c i) (parseHash wrap c i) := by
  have h : Tracks L prefixes I kHashSize.toNat (parseHash exact c i) (parseHash wrap c i) :=
    .fst (.getArray _) fun _ => .seq (tracks_store _ _) fun _ => .pure _
  exact h.mono (by decide)

end

/-- The prefix is a part of the memory. -/
def InBlob (r : UInt32 × UInt32) (len : Nat) : Prop := r.1 ≤ r.2 ∧ r.2.toNat ≤ len

theorem tracks_calculateMinerTxHash :
    Tracks L prefixes InBlob 0 (calculateMinerTxHash p) (calculateMinerTxHash p) where
  grows := by
    have ho := tracks_offset (L := L) (k := prefixes) (I := InBlob)
    refine .bind (ho _).grows fun _ => .bind (ho _).grows fun _ => ?_
    refine .bind (Tracks.demand (L := L) (k := prefixes) (I := InBlob) _ _).grows fun _ => ?_
    exact .bind (Tracks.grows_peek _ _) fun _ =>
      (Tracks.pure (L := L) (k := prefixes) (I := InBlob) _).grows
  at_ s hs hI := by
    have hp := (Tracks.pure (ρ := Bool) (α := Bytes) (L := L) (k := prefixes) (I := InBlob))
    have hle : (s.data.t (.offset .MINER_TX_PREFIX_OFFSET)).toNat ≤
      (s.data.t (.offset .MINER_TX_PREFIX_END_OFFSET)).toNat := hI.1
    have hlen : (s.data.t (.offset .MINER_TX_PREFIX_END_OFFSET)).toNat ≤ s.mem.length := hI.2
    have hlt := (s.data.t (.offset .MINER_TX_PREFIX_END_OFFSET)).toNat_lt
    let n := (2 ^ 32 + (s.data.t (.offset .MINER_TX_PREFIX_END_OFFSET)).toNat -
      (s.data.t (.offset .MINER_TX_PREFIX_OFFSET)).toNat) % 2 ^ 32
    have hd := (Tracks.demand (ρ := Bool) (L := L) (k := prefixes) (I := InBlob) n
      (2 ^ 31 - 1)).at_ s hs hI
    refine hd.bind (e := 0) (fun _ => .bind (Tracks.grows_peek _ _) fun _ => (hp _).grows)
      fun _ t hr ht hm => ?_
    have hmem := hm.mem
    refine (Tracks.peekAt ht ?_).bind (e := 0) (fun _ => (hp _).grows) fun d u _ hu hmu => ?_
    · rw [hmem]; omega
    · exact .inl ⟨rfl, hu, .refl prefixes u⟩

theorem tracks_parseHashes (hL : L ≤ fuel) (is_fcmp_pp : Bool) :
    Tracks L prefixes InBlob 0 (parseHashes exact p fuel is_fcmp_pp)
      (parseHashes wrap p fuel is_fcmp_pp) := by
  unfold parseHashes
  refine .seq (tracks_member _) fun _ => .seq (tracks_assign _ fun _ => rfl) fun _ => ?_
  refine .seq (.onlyIf (.halt (by simp) (by simp))) fun _ =>
    .seq (tracks_assign _ fun _ => rfl) fun _ => ?_
  refine .seq tracks_calculateMinerTxHash fun _ => .seq (tracks_store _ _) fun _ => ?_
  refine .seq (.loop (fun _ => .pure _) (tracks_parseHash _) hL _) fun _ => ?_
  refine .seq (.onlyIf ?_) fun _ => .seq (tracks_member _) fun _ => ?_
  · refine .seq .getByte fun _ => .seq (tracks_assign _ fun _ => rfl) fun _ =>
      .seq (.getArray _) fun _ => ?_
    refine .seq (tracks_assign _ fun _ => rfl) fun _ => .seq (tracks_member _) fun _ => ?_
    exact .seq (tracks_store _ _) fun _ => .seq (tracks_member _) fun _ => tracks_store _ _
  · exact .seq (tracks_assign _ fun _ => rfl) fun _ => .seq (tracks_assign _ fun _ => rfl) fun _ =>
      tracks_assign _ fun _ => rfl

/-- The state after `setOffset(MINER_TX_PREFIX_OFFSET, ar.index())`. -/
def prefixSet (s : Scan Parse) : Scan Parse :=
  { s with data :=
    { t := Function.update s.data.t (.offset .MINER_TX_PREFIX_OFFSET) (UInt32.ofNat s.cur.index)
      written := .offset .MINER_TX_PREFIX_OFFSET :: s.data.written } }

/-- A section before the end of the prefix. -/
theorem before_end {α : Type} {M : Nat} {x y : Parser α} {f g : α → Parser Bool} {s : Scan Parse}
    (h : Tracks L prefixOf (fun _ _ => True) 0 x y) (hs : Ok s) (hM : s.mem.length = M)
    (hp : (prefixOf s.data).toNat ≤ s.cur.index) (hg : ∀ a, Grows (g a))
    (hf : ∀ a t, Ok t → t.mem.length = M → (prefixOf t.data).toNat ≤ t.cur.index →
      TracksAt (M < L) (fun _ : Parse => ()) 0 t (f a t) (g a t)) :
    TracksAt (M < L) (fun _ : Parse => ()) 0 s ((x >>= f) s) ((y >>= g) s) := by
  have hx := (h.at_ s hs trivial).forget
  rw [hM] at hx
  refine hx.bind (e := 0) hg fun a t hr ht _ => ?_
  have hm := (h.moved hs trivial hr).2
  have hi := hm.index
  refine hf a t ht (by rw [hm.mem, hM]) ?_
  rw [hm.kept]
  exact hp.trans hi

/-- The whole parser. -/
theorem tracks_parseBody (hL : L ≤ fuel) (hashes : Bool) :
    Tracks L (fun _ : Parse => ()) (fun _ _ => True) 0 (parseBody exact p fuel hashes)
      (parseBody wrap p fuel hashes) := by
  have hA := tracks_parseInput (L := L) (p := p) (I := fun _ _ => True) hL
  have hB := tracks_isFcmpPp (L := L) (I := fun _ _ => True)
  have hC := tracks_parseOutput (L := L) (p := p) (I := fun _ _ => True) hL
  have hD := tracks_parseExtra (L := L) (p := p) (I := fun _ _ => True) hL
  have hE := tracks_parseZephyrAmounts (L := L) (p := p) (I := fun _ _ => True) hL
  have hF := tracks_parseRct (L := L) (I := fun _ _ => True)
  have hG : ∀ b, Tracks L prefixes InBlob 0
      (do assign .numHashes (← BlobReader.getVarint p fuel)
          onlyIf (hashes = true) (parseHashes exact p fuel b); pure true)
      (do assign .numHashes (← BlobReader.getVarint p fuel)
          onlyIf (hashes = true) (parseHashes wrap p fuel b); pure true) := fun b => by
    refine .seq (.getVarint hL) fun _ => .seq (tracks_assign _ fun _ => rfl) fun _ => ?_
    exact .seq (.onlyIf (tracks_parseHashes hL b)) fun _ => .pure _
  unfold parseBody
  have gF := fun b => hF.grows.bind fun _ => (hG b).grows
  have gE := fun b => hE.grows.bind fun _ => gF b
  have gD := fun b => hD.grows.bind fun _ => gE b
  have gC := fun b => (hC b).grows.bind fun _ => gD b
  have gB := hB.grows.bind gC
  have gA := hA.grows.bind fun _ => gB
  refine .seq (tracks_parseHeader hL).forget fun _ => ⟨fun s => gA (prefixSet s), fun s hs _ => ?_⟩
  have hs' : Ok (prefixSet s) := ⟨hs.index, hs.window, hs.length, hs.log⟩
  refine TracksAt.after (s := s) (d := 0) (e := 0) (t := prefixSet s) ?_
    ⟨rfl, rfl, rfl, Nat.le_refl _, rfl⟩
  have hp : (prefixOf (prefixSet s).data).toNat ≤ (prefixSet s).cur.index := by
    change (UInt32.ofNat s.cur.index).toNat ≤ s.cur.index
    rw [UInt32.toNat_ofNat']
    exact Nat.mod_le _ _
  refine before_end hA hs' rfl hp (fun _ => gB) fun _ s hs hM hp => ?_
  refine before_end hB hs hM hp gC fun b s hs hM hp => ?_
  refine before_end (hC b) hs hM hp (fun _ => gD b) fun _ s hs hM hp => ?_
  refine before_end hD hs hM hp (fun _ => gE b) fun _ s hs hM hp => ?_
  refine before_end hE hs hM hp (fun _ => gF b) fun _ s hs hM hp => ?_
  have hr := (hF.at_ s hs trivial).forget
  rw [hM] at hr
  refine hr.bind (e := 0) (fun _ => (hG b).grows) fun _ t ht hto _ => ?_
  obtain ⟨-, hm, he⟩ := parseRct_ok hs ht
  have hlen : s.cur.index ≤ t.mem.length := by
    have hi := hs.index
    have hw := hs.window
    rw [hm.mem]; omega
  have hle : (prefixOf t.data).toNat ≤ (t.data.t (.offset .MINER_TX_PREFIX_END_OFFSET)).toNat := by
    rw [he, hm.kept]; exact hp
  have h := (hG b).at_ t hto ⟨hle, he ▸ hlen⟩
  rw [hm.mem, hM] at h
  exact h.forget

/-! ## The law -/

/-- A vector of bytes has a length below `2^63`. -/
abbrev Buffer := { b : Bytes // b.length < 2 ^ 63 }

structure Forward (p : Platform) (t : BlockTemplate) (b : Buffer) (coin : Coin) (hashes : Bool) :
    Prop where
  moves : ∀ fuel, ∀ a ∈ (parse wrap p fuel t b coin hashes).log, a.Forward b.1.length
  defined : ∀ fuel, (parse wrap p fuel t b coin hashes).rc ≠ .undefined
  ends : ∃ N, ∀ fuel, N ≤ fuel → ∃ rc, (parse wrap p fuel t b coin hashes).rc = .returned rc

/-- Every access of the parser over the integers fits. -/
def Fits (p : Platform) (t : BlockTemplate) (b : Buffer) (coin : Coin) (hashes : Bool) : Prop :=
  ∀ fuel, ∀ a ∈ (parse exact p fuel t b coin hashes).log, a.Fits

theorem ok_start (t : BlockTemplate) (b : Buffer) (coin : Coin) : Ok (start t b coin) where
  index := Nat.zero_le _
  window := Nat.le_of_eq (Nat.zero_add _)
  length := b.2
  log _ h := by cases h

theorem undefined_iff (r : EStateM.Result (Halt Bool) (Scan Parse) Bool) :
    outcome r = .undefined ↔ ∃ s, r = .error .undefined s := by
  cases r with
  | ok rc s => simp [outcome]
  | error ε s => cases ε <;> simp [outcome]

/-- A run that has neither met anything undefined nor run out of fuel has returned. -/
theorem returned_of {r : EStateM.Result (Halt Bool) (Scan Parse) Bool}
    (hu : outcome r ≠ .undefined) (hf : ∀ s, r ≠ .error .fuel s) : ∃ rc, outcome r = .returned rc := by
  cases r with
  | ok rc s => exact ⟨rc, rfl⟩
  | error ε s =>
    cases ε with
    | ret rc => exact ⟨rc, rfl⟩
    | thrown => exact ⟨false, rfl⟩
    | undefined => exact absurd rfl hu
    | fuel => exact absurd rfl (hf s)

/-- **`parse` reads forward and ends**, for every object, blob, coin and flag, if
and only if every access of the parser over the integers fits. -/
theorem parse_forward (p : Platform) (t : BlockTemplate) (b : Buffer) (coin : Coin) (hashes : Bool) :
    Forward p t b coin hashes ↔ Fits p t b coin hashes := by
  by_cases hmin : b.1.length < kMinSize
  · have hp : ∀ add fuel, parse add p fuel t b coin hashes = { rc := .returned false, t := t } :=
      fun _ _ => if_pos hmin
    refine ⟨fun _ fuel a ha => ?_, fun _ => ⟨fun fuel a ha => ?_, fun fuel => ?_, 0, fun fuel _ => ?_⟩⟩
    · rw [hp] at ha; cases ha
    · rw [hp] at ha; cases ha
    · rw [hp]; simp
    · rw [hp]; exact ⟨false, rfl⟩
  have hp : ∀ add fuel, parse add p fuel t b coin hashes =
      parsed (parseBody add p fuel hashes (start t b coin)) := fun _ _ => if_neg hmin
  have hs := ok_start t b coin
  have hT := fun fuel => tracks_parseBody (p := p) (Nat.le_refl fuel) hashes
  constructor
  · intro hF fuel
    rw [hp]
    refine ((hT fuel).fits_iff hs trivial).mp ?_
    rintro (⟨a, ha, hn⟩ | hu)
    · have h := hF.moves fuel
      rw [hp] at h
      exact hn (h a ha)
    · have h := hF.defined fuel
      rw [hp] at h
      exact h ((undefined_iff _).mpr hu)
  · intro hF
    have hb : ∀ fuel, ¬ Bad b.1.length (parseBody wrap p fuel hashes (start t b coin)) := by
      intro fuel
      have h := hF fuel
      rw [hp] at h
      exact ((hT fuel).fits_iff hs trivial).mpr h
    have hd : ∀ fuel, outcome (parseBody wrap p fuel hashes (start t b coin)) ≠ .undefined :=
      fun fuel h => hb fuel (.inr ((undefined_iff _).mp h))
    refine ⟨fun fuel a ha => ?_, fun fuel => ?_, b.1.length + 1, fun fuel hfuel => ?_⟩
    · rw [hp] at ha
      exact not_not.mp fun hn => hb fuel (.inl ⟨a, ha, hn⟩)
    · rw [hp]; exact hd fuel
    · have h := hF fuel
      rw [hp] at h ⊢
      obtain ⟨heq, hw⟩ := (hT fuel).eq_of_fits hs trivial h
      refine returned_of (hd fuel) fun s hr => ?_
      rw [heq] at hr
      rw [hr] at hw
      exact hw.2.2 (Nat.lt_of_succ_le hfuel) rfl

/-! ## A length that goes back -/

/-- Shifts as on x86-64, memory for everything, and a stand-in for the hash. -/
def Platform.sample : Platform where
  shlBeyond x shift := x <<< UInt64.ofNat (shift % 64)
  alloc _ := true
  keccak b := b.take 32 ++ List.replicate (32 - b.length) 0
  keccak_length b := by simp; omega

/-- A Monero template whose tx_extra is one extra nonce of length `2^64 - 11`. -/
def longNonce : Buffer :=
  ⟨[16, 16, 0x80, 0x80, 0x80, 0x80, 0x06] ++ List.replicate 36 0 ++
    [2, 60, 1, 0xFF, 1, 1, 0, 2] ++ List.replicate 32 0 ++
    [11, 2, 0xF5, 0xFF, 0xFF, 0xFF, 0xFF, 0xFF, 0xFF, 0xFF, 0xFF, 0x01], by decide⟩

/-- The length takes the reader of tx_extra back to its start. -/
theorem parse_forward_fails : ¬ Forward Platform.sample fresh longNonce .MONERO false := by
  intro h
  have hm := h.moves 16
  revert hm
  decide +kernel

end Rxs.L1.ParseForward
