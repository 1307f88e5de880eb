import Rxs.L1Encoding.ParseHistory

/-!
# The header of a template

Up to the nonce the reader takes two bytes, a varint of any length and 32 bytes, so
the nonce is at `34 + L` where `L` bytes are the varint. What the reader does until
there is said outright; a signature follows the nonce in a signed template.

* `getVarint_ran`: what a varint does, by the bytes that are left.
* `parseFront_ran`: the object after the nonce.
* **`parse_signature`**: an object has a signature after a call if and only if the
  blob has one, or the object had one before.
-/
namespace Rxs

open Rxs.Core

namespace BlobReader

variable {ρ σ : Type}

/-- The bytes up to the first below `0x80`, with it. -/
def varintLength (b : Bytes) : Option Nat := (b.findIdx? (· < 0x80)).map (· + 1)

theorem varintLength_cons (c : UInt8) (b : Bytes) :
    varintLength (c :: b) = if c < 0x80 then some 1 else (varintLength b).map (· + 1) := by
  unfold varintLength
  rw [List.findIdx?_cons]
  by_cases h : c < 0x80
  · simp [h]
  · simp [h, Option.map_map, Function.comp_def]

theorem varintLength_pos {b : Bytes} {n : Nat} (h : varintLength b = some n) :
    1 ≤ n ∧ n ≤ b.length := by
  unfold varintLength at h
  obtain ⟨i, hi, rfl⟩ := Option.map_eq_some_iff.mp h
  have hlt : i < b.length := (List.findIdx?_eq_some_iff_findIdx_eq.mp hi).1
  omega

/-- The length depends on the bytes of the varint only. -/
theorem varintLength_take {b : Bytes} {n k : Nat} (h : varintLength b = some n) (hk : n ≤ k)
    (b' : Bytes) (hb : b'.take k = b.take k) : varintLength b' = some n := by
  induction b generalizing n k b' with
  | nil => cases h
  | cons c b ih =>
    have hn := (varintLength_pos h).1
    obtain ⟨k, rfl⟩ : ∃ j, k = j + 1 := ⟨k - 1, by omega⟩
    cases b' with
    | nil => cases hb
    | cons c' b' =>
      simp only [List.take_succ_cons, List.cons.injEq] at hb
      rw [varintLength_cons] at h ⊢
      rw [hb.1]
      by_cases hc : c < 0x80
      · rw [if_pos hc] at h ⊢
        exact h
      · rw [if_neg hc] at h ⊢
        obtain ⟨m, hm, rfl⟩ := Option.map_eq_some_iff.mp h
        rw [ih hm (by omega) b' hb.2]
        rfl

/-- A byte into a varint. -/
def varintStep (p : Platform) (v : Varint) (t : UInt8) : Varint :=
  ⟨t, v.result ||| shl p (t &&& 0x7F).toUInt64 v.shift, v.shift + 7⟩

def varintOf (p : Platform) (b : Bytes) : UInt64 := (b.foldl (varintStep p) {}).result

/-- The state after `n` bytes that were taken one by one. -/
def afterBytes (s : Scan σ) : Nat → Scan σ
  | 0 => s
  | n + 1 => afterBytes (Scanner.moved s 1 (s.cur.index + 1)) n

/-- The window is the memory. -/
structure Whole (s : Scan σ) : Prop where
  base : s.cur.base = 0
  size : s.cur.size = s.mem.length
  length : s.mem.length < 2 ^ 63

/-- What is left. -/
def rest (s : Scan σ) : Bytes := s.mem.drop s.cur.index

theorem Whole.moved {s : Scan σ} (h : Whole s) (n : UInt64) (i : Nat) :
    Whole (Scanner.moved s n i) := ⟨h.base, h.size, h.length⟩

theorem afterBytes_spec (s : Scan σ) (n : Nat) :
    (afterBytes s n).mem = s.mem ∧ (afterBytes s n).data = s.data ∧
      (afterBytes s n).cur = { s.cur with index := s.cur.index + n } := by
  induction n generalizing s with
  | zero => exact ⟨rfl, rfl, rfl⟩
  | succ n ih =>
    obtain ⟨hm, hd, hc⟩ := ih (Scanner.moved s 1 (s.cur.index + 1))
    refine ⟨hm, hd, hc.trans ?_⟩
    show { s.cur with index := s.cur.index + 1 + n } = { s.cur with index := s.cur.index + (n + 1) }
    rw [Nat.add_assoc, Nat.add_comm 1 n]

theorem Whole.afterBytes {s : Scan σ} (h : Whole s) (n : Nat) : Whole (afterBytes s n) := by
  obtain ⟨hm, -, hc⟩ := afterBytes_spec s n
  refine ⟨?_, ?_, ?_⟩
  · rw [hc]; exact h.base
  · rw [hc, hm]; exact h.size
  · rw [hm]; exact h.length

theorem byte_nil {s : Scan σ} (hs : Whole s) (h : rest s = []) :
    (getByte : Scanner ρ σ UInt8) s = .error .thrown (Scanner.moved s 1 s.cur.index) := by
  have hl := List.drop_eq_nil_iff.mp h
  unfold getByte Scanner.byte
  rw [if_pos (by rw [hs.size]; exact hl)]

theorem byte_cons {s : Scan σ} (hs : Whole s) {c : UInt8} {b : Bytes} (h : rest s = c :: b) :
    (getByte : Scanner ρ σ UInt8) s = .ok c (Scanner.moved s 1 (s.cur.index + 1)) ∧
      rest (Scanner.moved s 1 (s.cur.index + 1)) = b := by
  have hlt : s.cur.index < s.mem.length := by
    by_contra hn
    have : rest s = [] := List.drop_eq_nil_iff.mpr (by omega)
    rw [h] at this
    cases this
  have hd := List.drop_eq_getElem_cons hlt
  unfold rest at h
  rw [hd] at h
  injection h with hc hb
  refine ⟨?_, hb⟩
  unfold getByte Scanner.byte
  rw [if_neg (by rw [hs.size]; omega), hs.base, Nat.zero_add, List.getElem?_eq_getElem hlt, hc]

/-- How a varint that is read from `s`, with `v` read so far, ends: after `n`
bytes, or in an exception if nothing ends it, unless there are more bytes than fuel. -/
inductive Ran (p : Platform) (fuel : Nat) (s : Scan σ) (v : Varint) :
    Option Nat → EStateM.Result (Halt ρ) (Scan σ) Varint → Prop where
  | ok (n : Nat) (hn : n < fuel) :
      Ran p fuel s v (some n) (.ok (((rest s).take n).foldl (varintStep p) v) (afterBytes s n))
  | thrown {t : Scan σ} (h : t.data = s.data) : Ran p fuel s v none (.error .thrown t)
  | fuel {o : Option Nat} {t : Scan σ} (h : t.data = s.data) (hf : fuel ≤ (rest s).length)
      (hn : ∀ n, o = some n → fuel ≤ n) : Ran p fuel s v o (.error .fuel t)

/-- A byte more. -/
theorem Ran.next {p : Platform} {fuel : Nat} {s : Scan σ} {v : Varint} {c : UInt8} {b : Bytes}
    {o : Option Nat}
    {r : EStateM.Result (Halt ρ) (Scan σ) Varint} (hb : rest s = c :: b)
    (ht : rest (Scanner.moved s 1 (s.cur.index + 1)) = b)
    (h : Ran p fuel (Scanner.moved s 1 (s.cur.index + 1)) (varintStep p v c) o r) :
    Ran p (fuel + 1) s v (o.map (· + 1)) r := by
  cases h with
  | ok n hn =>
    have hr : Ran (ρ := ρ) p (fuel + 1) s v _ _ := .ok (n + 1) (Nat.succ_lt_succ hn)
    rw [hb, List.take_succ_cons, List.foldl_cons] at hr
    rw [ht]
    exact hr
  | thrown h => exact .thrown h
  | fuel h hf hn =>
    refine .fuel h ?_ fun m hm => ?_
    · rw [hb, List.length_cons]
      rw [ht] at hf
      omega
    · obtain ⟨n, ho, rfl⟩ := Option.map_eq_some_iff.mp hm
      exact Nat.succ_le_succ (hn n ho)

theorem and_0x80 (t : UInt8) : t &&& 0x80 ≠ 0 ↔ ¬ t < 0x80 := by
  have h : ∀ n : Fin 256, UInt8.ofFin n &&& 0x80 ≠ 0 ↔ ¬ UInt8.ofFin n < 0x80 := by decide +kernel
  exact h t.toFin

/-- A byte, and `f` after it. -/
theorem byteThen_ran {p : Platform} {fuel : Nat} {s : Scan σ} {f : Varint → Scanner ρ σ Varint}
    (hf : ∀ w t, Whole t →
      Ran p fuel t w (if w.t < 0x80 then some 0 else varintLength (rest t)) (f w t))
    (hs : Whole s) (v : Varint) :
    Ran p (fuel + 1) s v (varintLength (rest s)) ((varintByte p v >>= f) s) := by
  have hbind : ∀ r, getByte s = r → (varintByte p v >>= f) s = match r with
      | .ok c t => f (varintStep p v c) t
      | .error e t => .error e t := by
    rintro _ rfl
    show EStateM.bind (EStateM.bind getByte _) _ s = _
    unfold EStateM.bind
    cases (getByte : Scanner ρ σ UInt8) s <;> rfl
  cases hb : rest s with
  | nil =>
    rw [hbind _ (byte_nil hs hb)]
    exact .thrown rfl
  | cons c b =>
    obtain ⟨hr, ht⟩ := byte_cons (ρ := ρ) hs hb
    have hn := (hf (varintStep p v c) _ (hs.moved 1 (s.cur.index + 1))).next hb ht
    have hvt : (varintStep p v c).t = c := rfl
    rw [hbind _ hr, varintLength_cons]
    rw [ht, hvt] at hn
    by_cases hc : c < 0x80
    · rw [if_pos hc] at hn ⊢
      exact hn
    · rw [if_neg hc] at hn ⊢
      exact hn

/-- The loop, from a byte that was read. -/
theorem loop_ran {p : Platform} (fuel : Nat) (v : Varint) (s : Scan σ) (hs : Whole s) :
    Ran (ρ := ρ) p fuel s v (if v.t < 0x80 then some 0 else varintLength (rest s))
      (Scanner.loop more (varintByte p) fuel v s) := by
  induction fuel generalizing s v with
  | zero => exact .fuel rfl (Nat.zero_le _) fun _ _ => Nat.zero_le _
  | succ fuel ih =>
    have hl : Scanner.loop (ρ := ρ) more (varintByte p) (fuel + 1) v s =
        if v.t &&& 0x80 ≠ 0 then
          (varintByte p v >>= Scanner.loop more (varintByte p) fuel) s else .ok v s := by
      show (if decide (v.t &&& 0x80 ≠ 0) = true then
        varintByte p v >>= Scanner.loop more (varintByte p) fuel else pure v) s = _
      by_cases h : v.t &&& 0x80 ≠ 0
      · rw [if_pos (decide_eq_true h), if_pos h]
      · rw [if_neg (by simpa using h), if_neg h]
        rfl
    rw [hl]
    by_cases hv : v.t < 0x80
    · rw [if_pos hv, if_neg (fun h => (and_0x80 v.t).mp h hv)]
      exact .ok 0 (Nat.succ_pos fuel)
    · rw [if_neg hv, if_pos ((and_0x80 v.t).mpr hv)]
      exact byteThen_ran (fun w t ht => ih w t ht) hs v

/-- **A varint**: it ends after its length, throws where nothing ends it, or runs
out of fuel. -/
theorem getVarint_ran {p : Platform} {s : Scan σ} (hs : Whole s) (fuel : Nat) :
    (∃ n, varintLength (rest s) = some n ∧ n ≤ fuel ∧
        (getVarint p fuel : Scanner ρ σ UInt64) s =
          .ok (varintOf p ((rest s).take n)) (afterBytes s n)) ∨
      ∃ e t, (getVarint p fuel : Scanner ρ σ UInt64) s = .error e t ∧ t.data = s.data ∧
        (e = .fuel ∧ fuel < (rest s).length ∧ (∀ n, varintLength (rest s) = some n → fuel < n) ∨
          e = .thrown ∧ varintLength (rest s) = none) := by
  have hdef : (getVarint p fuel : Scanner ρ σ UInt64) s = EStateM.bind
      (varintByte p {} >>= Scanner.loop more (varintByte p) fuel) (fun v => pure v.result) s := by
    show _ = ((varintByte p {} >>= Scanner.loop more (varintByte p) fuel) >>= fun v =>
      (pure v.result : Scanner ρ σ UInt64)) s
    rw [bind_assoc]
    rfl
  have hr := byteThen_ran (ρ := ρ) (fun w t ht => loop_ran (p := p) fuel w t ht) hs {}
  rw [hdef]
  unfold EStateM.bind
  generalize varintLength (rest s) = o at hr ⊢
  generalize (varintByte p {} >>= Scanner.loop more (varintByte p) fuel) s = r at hr ⊢
  cases hr with
  | ok n hn => exact .inl ⟨n, rfl, Nat.le_of_lt_succ hn, rfl⟩
  | thrown h => exact .inr ⟨_, _, rfl, h, .inr ⟨rfl, rfl⟩⟩
  | fuel h hf hn => exact .inr ⟨_, _, rfl, h, .inl ⟨rfl, hf, hn⟩⟩

end BlobReader

namespace L1.Header

open BlockTemplate L1.ParseHistory BlobReader
open Scanner (index moved onlyIf exact wrap)

variable {α β : Type}

/-! ## The parts of the header -/

section
variable (add : Nat → UInt64 → Nat) (p : Platform) (fuel : Nat)

/-- mirrors src/base/tools/cryptonote/BlockTemplate.cpp:214-221 -/
def parseFront : Parser Unit := do
  assign .versionFirst (← getByte)
  assign .versionSecond (← getByte)
  assign .timestamp (← getVarint p fuel)
  assign .prevId (← getSpan add kHashSize)
  setOffset .NONCE_OFFSET (← index)
  let _ ← skip add kNonceSize
  pure ()

/-- mirrors src/base/tools/cryptonote/BlockTemplate.cpp:225-226 -/
def parseVote : Parser Unit := do
  assign .vote (← getArray add 2)

/-- mirrors src/base/tools/cryptonote/BlockTemplate.cpp:229-232 -/
def parsePricing (coin : Coin) : Parser Unit :=
  onlyIf (coin = .ZEPHYR) (do
    let _ ← getArray add 120
    pure ())

/-- What follows the nonce, once coin and version are known. -/
def parseSignature (coin : Coin) (majorVersion : UInt8) : Parser Unit := do
  onlyIf (coin = .WOWNERO ∧ majorVersion ≥ 18) (do
    assign .minerSignature (← getSpan add kSignatureSize)
    parseVote add)
  parsePricing add coin

theorem parseHeader_eq : parseHeader add p fuel = (do
    parseFront add p fuel
    let coin ← member .coin
    let majorVersion ← member .versionFirst
    parseSignature add coin majorVersion) := by
  unfold parseHeader parseFront parseSignature parseVote parsePricing
  simp only [bind_assoc, pure_bind]

end

theorem run_ok {ρ σ : Type} {x : Scanner ρ σ α} {f : α → Scanner ρ σ β} {s t : Scan σ} {a : α}
    (h : x s = .ok a t) : (x >>= f) s = f a t := by
  show EStateM.bind x f s = _
  unfold EStateM.bind
  rw [h]

theorem run_error {ρ σ : Type} {x : Scanner ρ σ α} {f : α → Scanner ρ σ β} {s t : Scan σ}
    {e : Halt ρ} (h : x s = .error e t) : (x >>= f) s = .error e t := by
  show EStateM.bind x f s = _
  unfold EStateM.bind
  rw [h]

/-- The state after `assign`. -/
def set (m : Member) (v : m.Val) (s : Scan Parse) : Scan Parse := { s with data := put s.data m v }

theorem assign_run (m : Member) (v : m.Val) (s : Scan Parse) :
    assign m v s = .ok () (set m v s) := rfl

theorem whole_set {s : Scan Parse} (h : Whole s) (m : Member) (v : m.Val) : Whole (set m v s) :=
  ⟨h.base, h.size, h.length⟩

/-- The addition is that of the integers where the sum is a 64-bit word. -/
def Adds (add : Nat → UInt64 → Nat) : Prop := ∀ i n, i + n.toNat < 2 ^ 64 → add i n = i + n.toNat

theorem adds_exact : Adds exact := fun _ _ _ => rfl

theorem adds_wrap : Adds wrap := fun _ _ h => Scanner.wrap_eq h

theorem take_ran {ρ σ : Type} {add : Nat → UInt64 → Nat} (hadd : Adds add) {s : Scan σ}
    (hs : Whole s) {n : UInt64} (hn : n.toNat < 2 ^ 62) (hi : s.cur.index ≤ s.mem.length) :
    (s.cur.index + n.toNat ≤ s.mem.length ∧ (Scanner.take add n : Scanner ρ σ Nat) s =
        .ok s.cur.index (moved s n (s.cur.index + n.toNat))) ∨
      (s.mem.length < s.cur.index + n.toNat ∧ (Scanner.take add n : Scanner ρ σ Nat) s =
        .error .thrown (moved s n s.cur.index)) := by
  have hl := hs.length
  have ha : add s.cur.index n = s.cur.index + n.toNat := hadd _ _ (by omega)
  unfold Scanner.take
  rw [ha, hs.size, hs.base, Nat.zero_add]
  by_cases h : s.cur.index + n.toNat > s.mem.length
  · exact .inr ⟨h, if_pos h⟩
  · exact .inl ⟨Nat.le_of_not_lt h, if_neg h⟩

theorem getArray_ran {ρ σ : Type} {add : Nat → UInt64 → Nat} (hadd : Adds add) {s : Scan σ}
    (hs : Whole s) {n : UInt64} (hn : n.toNat < 2 ^ 62) (hi : s.cur.index ≤ s.mem.length) :
    (s.cur.index + n.toNat ≤ s.mem.length ∧ (getArray add n : Scanner ρ σ Bytes) s =
        .ok (Bytes.slice s.mem s.cur.index n.toNat) (moved s n (s.cur.index + n.toNat))) ∨
      (s.mem.length < s.cur.index + n.toNat ∧ (getArray add n : Scanner ρ σ Bytes) s =
        .error .thrown (moved s n s.cur.index)) := by
  rcases take_ran (ρ := ρ) hadd hs hn hi with ⟨hl, h⟩ | ⟨hl, h⟩
  · exact .inl ⟨hl, (run_ok h).trans (if_pos hl)⟩
  · exact .inr ⟨hl, run_error h⟩

theorem getSpan_ran {add : Nat → UInt64 → Nat} (hadd : Adds add) {s : Scan Parse} (hs : Whole s)
    {n : UInt64} (hn : n.toNat < 2 ^ 62) (hi : s.cur.index ≤ s.mem.length) :
    (s.cur.index + n.toNat ≤ s.mem.length ∧ (getSpan add n : Parser Span) s =
        .ok ⟨some s.cur.index, n.toNat⟩ (moved s n (s.cur.index + n.toNat))) ∨
      (s.mem.length < s.cur.index + n.toNat ∧ (getSpan add n : Parser Span) s =
        .error .thrown (moved s n s.cur.index)) := by
  refine (take_ran (ρ := Bool) hadd hs hn hi).imp ?_ ?_
  · rintro ⟨hl, h⟩
    exact ⟨hl, run_ok h⟩
  · rintro ⟨hl, h⟩
    exact ⟨hl, run_error h⟩

/-- The state after the nonce, where the timestamp takes `L` bytes. -/
def front (p : Platform) (t : BlockTemplate) (b : Bytes) (coin : Coin) (L : Nat) : Scan Parse :=
  let s := set .versionFirst (b.getD 0 0) (moved (start t b coin) 1 1)
  let s := set .versionSecond (b.getD 1 0) (moved s 1 2)
  let s := set .timestamp (varintOf p ((b.drop 2).take L)) (afterBytes s L)
  let s := set .prevId ⟨some (2 + L), 32⟩ (moved s 32 (2 + L + 32))
  moved (set (.offset .NONCE_OFFSET) (UInt32.ofNat (2 + L + 32)) s) 4 (2 + L + 32 + 4)

/-- A run that ended early, and left a member alone; `f` holds where the fuel ended,
`c` in an exception. -/
def Failed (m : Member) (s : Scan Parse) (f c : Prop)
    (r : EStateM.Result (Halt Bool) (Scan Parse) α) : Prop :=
  ∃ e t, r = .error e t ∧ t.data.t m = s.data.t m ∧ (e = .fuel ∧ f ∨ e = .thrown ∧ c)

/-- **The front of the header**: it fits, or there is an early end, which is an
exception only if it does not fit. -/
theorem parseFront_ran {add : Nat → UInt64 → Nat} (hadd : Adds add) (p : Platform) (fuel : Nat)
    (t : BlockTemplate) {b : Bytes} (h2 : 2 ≤ b.length) (hb : b.length < 2 ^ 63) (coin : Coin) :
    (∃ L, varintLength (b.drop 2) = some L ∧ L ≤ fuel ∧ 38 + L ≤ b.length ∧
        parseFront add p fuel (start t b coin) = .ok () (front p t b coin L)) ∨
      Failed .minerSignature (start t b coin)
        (∀ L, varintLength (b.drop 2) = some L → fuel < L)
        (∀ L, varintLength (b.drop 2) = some L → b.length < 38 + L)
        (parseFront add p fuel (start t b coin)) := by
  have hs : Whole (start t b coin) := ⟨rfl, rfl, hb⟩
  obtain ⟨c₀, c₁, r, rfl⟩ : ∃ c₀ c₁ r, b = c₀ :: c₁ :: r := by
    match b, h2 with
    | c₀ :: c₁ :: r, _ => exact ⟨c₀, c₁, r, rfl⟩
  let s₁ := set .versionFirst c₀ (moved (start t (c₀ :: c₁ :: r) coin) 1 1)
  let s₂ := set .versionSecond c₁ (moved s₁ 1 2)
  have h₁ : Whole s₁ := whole_set (hs.moved 1 1) _ _
  have h₂ : Whole s₂ := whole_set (h₁.moved 1 2) _ _
  have hrun : parseFront add p fuel (start t (c₀ :: c₁ :: r) coin) = (do
      assign .timestamp (← getVarint p fuel)
      assign .prevId (← getSpan add kHashSize)
      setOffset .NONCE_OFFSET (← index)
      let _ ← skip add kNonceSize
      pure () : Parser Unit) s₂ :=
    (run_ok (byte_cons hs rfl).1).trans <| (run_ok (assign_run _ _ _)).trans <|
      (run_ok (byte_cons h₁ rfl).1).trans <| run_ok (assign_run _ _ _)
  rw [hrun]
  rcases getVarint_ran (ρ := Bool) (p := p) h₂ fuel with ⟨L, hL, hLf, hv⟩ | ⟨e, u, hv, hd, he⟩
  · have hle := (varintLength_pos hL).2
    have hlen : (rest s₂).length = r.length := rfl
    let s₃ := set .timestamp (varintOf p ((rest s₂).take L)) (afterBytes s₂ L)
    have h₃ : Whole s₃ := whole_set (h₂.afterBytes L) _ _
    obtain ⟨hm, hd, hc⟩ := afterBytes_spec s₂ L
    have hi : s₃.cur.index = 2 + L := congrArg Cursor.index hc
    have hml : s₃.mem.length = r.length + 2 := congrArg List.length hm
    have hkept : ∀ n i, (moved s₃ n i).data.t .minerSignature = t .minerSignature := fun n i => by
      show (put (afterBytes s₂ L).data .timestamp _).t .minerSignature = _
      rw [put_ne _ _ (show Member.minerSignature ≠ .timestamp from nofun), hd]
      rfl
    have hfits : ∀ L', varintLength ((c₀ :: c₁ :: r).drop 2) = some L' → L' = L := fun L' h =>
      Option.some.inj (h.symm.trans hL)
    rw [run_ok hv, run_ok (assign_run _ _ _)]
    rcases getSpan_ran hadd h₃ (n := kHashSize) (by decide) (by omega) with ⟨hl, hr⟩ | ⟨hl, hr⟩
    · have h32 : kHashSize.toNat = 32 := rfl
      have h4 : kNonceSize.toNat = 4 := rfl
      let s₄ := set (.offset .NONCE_OFFSET) (UInt32.ofNat (s₃.cur.index + kHashSize.toNat))
        (set .prevId ⟨some s₃.cur.index, kHashSize.toNat⟩
          (moved s₃ kHashSize (s₃.cur.index + kHashSize.toNat)))
      have h₄ : Whole s₄ := whole_set (whole_set (h₃.moved _ _) _ _) _ _
      have hml₄ : s₄.mem.length = r.length + 2 := hml
      have hi₄ : s₄.cur.index = 2 + L + 32 := congrArg (· + 32) hi
      have hk₄ : ∀ n i, (moved s₄ n i).data.t .minerSignature = t .minerSignature := fun n i => by
        show (put (put s₃.data .prevId _) (.offset .NONCE_OFFSET) _).t .minerSignature = _
        rw [put_ne _ _ (show Member.minerSignature ≠ .offset _ from nofun),
          put_ne _ _ (show Member.minerSignature ≠ .prevId from nofun)]
        exact hkept 0 0
      have hrest : (do
            setOffset .NONCE_OFFSET (← index)
            let _ ← skip add kNonceSize
            pure () : Parser Unit) (set .prevId ⟨some s₃.cur.index, kHashSize.toNat⟩
              (moved s₃ kHashSize (s₃.cur.index + kHashSize.toNat))) =
          (skip add kNonceSize >>= fun _ => pure ()) s₄ := rfl
      rw [run_ok hr, run_ok (assign_run _ _ _), hrest]
      rcases take_ran (ρ := Bool) hadd h₄ (n := kNonceSize) (by decide) (by omega) with ⟨hl, hr⟩ | ⟨hl, hr⟩
      · refine .inl ⟨L, hL, hLf, by simp only [List.length_cons]; omega, (run_ok hr).trans ?_⟩
        show EStateM.Result.ok () (moved s₄ kNonceSize (s₄.cur.index + kNonceSize.toNat)) = _
        rw [hi₄]
        simp only [s₄]
        rw [hi]
        rfl
      · refine .inr ⟨_, _, run_error hr, hk₄ _ _, .inr ⟨rfl, fun L' hL' => ?_⟩⟩
        rw [hfits L' hL', List.length_cons, List.length_cons]
        omega
    · refine .inr ⟨_, _, run_error hr, hkept _ _, .inr ⟨rfl, fun L' hL' => ?_⟩⟩
      have h32 : kHashSize.toNat = 32 := rfl
      rw [hfits L' hL', List.length_cons, List.length_cons]
      omega
  · refine .inr ⟨e, u, run_error hv, ?_, he.imp (fun h => ⟨h.1, h.2.2⟩) ?_⟩
    · rw [hd]
      rfl
    · rintro ⟨he, hnone⟩
      exact ⟨he, fun L hL => absurd (hL.symm.trans hnone) nofun⟩

/-- What the front leaves to be seen. -/
structure Fronted (t : BlockTemplate) (b : Bytes) (coin : Coin) (L : Nat) (s : Scan Parse) :
    Prop where
  mem : s.mem = b
  cur : s.cur = { size := b.length, index := 2 + L + 32 + 4 }
  blob : s.data.t .blob = b
  coin : s.data.t .coin = coin
  version : s.data.t .versionFirst = b.getD 0 0
  nonce : s.data.t (.offset .NONCE_OFFSET) = UInt32.ofNat (2 + L + 32)
  signature : s.data.t .minerSignature = t .minerSignature
  written : s.data.written = [.offset .NONCE_OFFSET, .prevId, .timestamp, .versionSecond,
    .versionFirst]

theorem front_fronted (p : Platform) (t : BlockTemplate) (b : Bytes) (coin : Coin) (L : Nat) :
    Fronted t b coin L (front p t b coin L) := by
  let s := set .versionSecond (b.getD 1 0) (moved (set .versionFirst (b.getD 0 0)
    (moved (start t b coin) 1 1)) 1 2)
  obtain ⟨hm, hd, hc⟩ := afterBytes_spec s L
  have hdata : (front p t b coin L).data = put (put (put s.data .timestamp
      (varintOf p ((b.drop 2).take L))) .prevId ⟨some (2 + L), 32⟩) (.offset .NONCE_OFFSET)
      (UInt32.ofNat (2 + L + 32)) := by
    rw [← hd]
    rfl
  refine ⟨hm, ?_, ?_, ?_, ?_, ?_, ?_, ?_⟩
  · have h : (front p t b coin L).cur =
      { (afterBytes s L).cur with index := 2 + L + 32 + 4 } := rfl
    rw [h, hc]
    rfl
  all_goals rw [hdata]
  · rfl
  · rfl
  · rfl
  · rfl
  · rfl
  · rfl

/-- The reader after the front. -/
theorem front_ready (p : Platform) (t : BlockTemplate) {b : Bytes} (hb : b.length < 2 ^ 63)
    (coin : Coin) (L : Nat) :
    Whole (front p t b coin L) ∧ (front p t b coin L).cur.index = 38 + L ∧
      Member.versionFirst ∈ (front p t b coin L).data.written := by
  obtain ⟨hm, hcur, -, -, -, -, -, hwr⟩ := front_fronted p t b coin L
  refine ⟨⟨?_, ?_, ?_⟩, ?_, ?_⟩
  · rw [hcur]
  · rw [hcur, hm]
  · rw [hm]
    exact hb
  · rw [hcur]
    show 2 + L + 32 + 4 = 38 + L
    omega
  · rw [hwr]
    decide

/-! ## After the front -/

section
variable {add : Nat → UInt64 → Nat} {p : Platform} {fuel : Nat} {z : Member → Bool} {lo : Nat}
  {t₀ t₀' : BlockTemplate} {W W' : List Member} {hashes : Bool}

/-- What follows the vote. -/
def parseTail (add : Nat → UInt64 → Nat) (p : Platform) (fuel : Nat) (hashes : Bool) (coin : Coin) :
    Parser Bool := do
  parsePricing add coin
  afterHeader add p fuel hashes

/-- A template of this version is signed. -/
abbrev Signs (coin : Coin) (majorVersion : UInt8) : Prop := coin = .WOWNERO ∧ majorVersion ≥ 18

/-- The body of the parser once the front is read. -/
theorem parseBody_front {s t : Scan Parse} (h : parseFront add p fuel s = .ok () t) :
    parseBody add p fuel hashes s = (parseSignature add (t.data.t .coin)
      (t.data.t .versionFirst) >>= fun _ => afterHeader add p fuel hashes) t := by
  rw [parseBody_eq, parseHeader_eq, bind_assoc, run_ok h]
  rfl

theorem parseBody_failed {s t : Scan Parse} {e : Halt Bool}
    (h : parseFront add p fuel s = .error e t) : parseBody add p fuel hashes s = .error e t := by
  rw [parseBody_eq, parseHeader_eq, bind_assoc]
  exact run_error h

theorem afterFront_signed {coin : Coin} {v : UInt8} (h : Signs coin v) :
    (parseSignature add coin v >>= fun _ => afterHeader add p fuel hashes) = (do
      assign .minerSignature (← getSpan add kSignatureSize)
      parseVote add
      parseTail add p fuel hashes coin) := by
  unfold parseSignature parseTail onlyIf
  rw [if_pos h]
  simp only [bind_assoc]

theorem afterFront_unsigned {coin : Coin} {v : UInt8} (h : ¬ Signs coin v) :
    (parseSignature add coin v >>= fun _ => afterHeader add p fuel hashes) =
      parseTail add p fuel hashes coin := by
  unfold parseSignature parseTail onlyIf
  rw [if_neg h]
  simp only [pure_bind]

theorem rel_parseVote (hz : z .vote = false) (hadd : Ahead lo add) :
    Rel z lo t₀ t₀' true W (parseVote add) (.vote :: W) :=
  (rel_getArray hadd _).bind fun _ => rel_assign _ hz rfl

theorem rel_parseTail (hz : Front z) (hadd : Ahead lo add) (hc : t₀ .coin = t₀' .coin)
    (hW : .versionFirst ∈ W) (hh : hashes = true → lo = 0) (coin : Coin) :
    Rel z lo t₀ t₀' true W (parseTail add p fuel hashes coin) W := by
  refine (Scanner.Relates.onlyIf fun _ => ?_).bind fun _ => rel_afterHeader hz hadd hc hW hh
  exact (rel_getArray hadd _).bind fun _ => rel_pure _

/-- A scanner that keeps to its rule with itself keeps the members in `z`. -/
theorem kept_of_rel {x : Parser α} (h : ∀ t₀, Rel z 0 t₀ t₀ true W x W') {s : Scan Parse}
    (hW : ∀ m ∈ W, m ∈ s.data.written) {m : Member} (hm : z m = true) :
    (EStateM.Result.scan (x s)).data.t m = s.data.t m := by
  have hal : Scanner.Alike (0 ≤ ·) (Shared z s.data.t s.data.t) s s :=
    ⟨rfl, fun _ _ => rfl, rfl, rfl, rfl, fun _ _ => rfl, fun _ _ => rfl, fun _ _ => rfl,
      fun _ _ => rfl⟩
  have hat : At 0 true W s :=
    ⟨Nat.zero_le _, fun _ => .inl rfl, fun _ _ _ => Nat.zero_le _, hW⟩
  have hr := h s.data.t s s hal hat
  generalize x s = r at hr ⊢
  cases hr with
  | ok ht _ => exact ht.data.kept m hm
  | error ht => exact ht.data.kept m hm

end

/-! ## The signature -/

/-- The blob has a signature, and it is in the blob. -/
def HasSignature (b : Bytes) (coin : Coin) : Prop :=
  Signs coin (b.getD 0 0) ∧ ∃ L, varintLength (b.drop 2) = some L ∧ 38 + L + 64 ≤ b.length

/-- The signature and the offset of the nonce, which nothing behind them assigns. -/
def lasting (m : Member) : Bool := m = .minerSignature ∨ m = .offset .NONCE_OFFSET

theorem front_lasting : Front lasting := by
  intro m h
  cases m with
  | offset o => cases o <;> first | rfl | cases h
  | _ => first | rfl | cases h

theorem kept_tail {add : Nat → UInt64 → Nat} {p : Platform} {fuel : Nat} {hashes : Bool}
    (coin : Coin) {s : Scan Parse} (hs : Member.versionFirst ∈ s.data.written) {m : Member}
    (hm : lasting m = true) :
    (EStateM.Result.scan (parseTail add p fuel hashes coin s)).data.t m = s.data.t m :=
  kept_of_rel (z := lasting) (W := [.versionFirst]) (fun _ =>
    rel_parseTail front_lasting (.inl rfl) rfl List.mem_cons_self (fun _ => rfl) coin)
    (by simpa using hs) hm

theorem kept_vote {add : Nat → UInt64 → Nat} {p : Platform} {fuel : Nat} {hashes : Bool}
    (coin : Coin) {s : Scan Parse} (hs : Member.versionFirst ∈ s.data.written) {m : Member}
    (hm : lasting m = true) :
    (EStateM.Result.scan ((parseVote add >>= fun _ => parseTail add p fuel hashes coin) s)).data.t
      m = s.data.t m :=
  kept_of_rel (z := lasting) (W := [.versionFirst]) (fun _ =>
    (rel_parseVote rfl (.inl rfl)).bind fun _ =>
      rel_parseTail front_lasting (.inl rfl) rfl (by simp) (fun _ => rfl) coin)
    (by simpa using hs) hm

theorem hasMinerSignature_congr {t t' : BlockTemplate}
    (h : t .minerSignature = t' .minerSignature) :
    hasMinerSignature t = hasMinerSignature t' := by
  unfold hasMinerSignature
  rw [h]

/-- **The signature of the object after a call**: that of the blob, if it has one,
else the one from before. -/
theorem parse_signature {add : Nat → UInt64 → Nat} (hadd : Adds add) (p : Platform) (fuel : Nat)
    (t : BlockTemplate) {b : Bytes} (hb : b.length < 2 ^ 63) (coin : Coin) (hashes : Bool)
    (hmin : ¬ b.length < kMinSize) {rc : Bool}
    (hrc : (parse add p fuel t b coin hashes).rc = .returned rc) :
    hasMinerSignature (parse add p fuel t b coin hashes).t = true ↔
      HasSignature b coin ∨ hasMinerSignature t = true := by
  have hlen : 2 ≤ b.length := by
    have hk : kMinSize = 76 := rfl
    omega
  unfold parse at hrc ⊢
  rw [if_neg hmin] at hrc ⊢
  rcases parseFront_ran hadd p fuel t hlen hb coin with
    ⟨L, hL, -, hfit, hf⟩ | ⟨e, u, hf, hsig, he⟩
  · obtain ⟨hm, -, -, hco, hv, -, hs, -⟩ := front_fronted p t b coin L
    obtain ⟨hw, hi, hk⟩ := front_ready p t hb coin L
    have hone : ∀ L', varintLength (b.drop 2) = some L' → L' = L := fun L' h =>
      Option.some.inj (h.symm.trans hL)
    rw [parseBody_front hf, hco, hv]
    by_cases hsg : Signs coin (b.getD 0 0)
    · rw [afterFront_signed hsg]
      have h64 : kSignatureSize.toNat = 64 := rfl
      rcases getSpan_ran hadd hw (n := kSignatureSize) (by decide) (by rw [hm]; omega) with
        ⟨hl, hr⟩ | ⟨hl, hr⟩
      · have hhas : HasSignature b coin := ⟨hsg, L, hL, by rw [hm] at hl; omega⟩
        refine ⟨fun _ => .inl hhas, fun _ => ?_⟩
        rw [run_ok hr, run_ok (assign_run _ _ _)]
        refine (congrArg (· = true) (hasMinerSignature_congr (kept_vote coin ?_ rfl))).mpr rfl
        exact List.mem_cons_of_mem _ hk
      · have hno : ¬ HasSignature b coin := by
          rintro ⟨-, L', hL', hle⟩
          rw [hone L' hL'] at hle
          rw [hm] at hl
          omega
        rw [run_error hr, or_iff_right hno]
        exact iff_of_eq (congrArg (· = true) (hasMinerSignature_congr hs))
    · rw [afterFront_unsigned hsg, or_iff_right fun h => hsg h.1]
      refine iff_of_eq (congrArg (· = true) (hasMinerSignature_congr ?_))
      exact (kept_tail coin hk rfl).trans hs
  · rw [parseBody_failed hf] at hrc ⊢
    rcases he with ⟨rfl, -⟩ | ⟨rfl, hfit⟩
    · cases hrc
    · have hno : ¬ HasSignature b coin := by
        rintro ⟨-, L, hL, hle⟩
        have := hfit L hL
        omega
      rw [or_iff_right hno]
      exact iff_of_eq (congrArg (· = true) (hasMinerSignature_congr hsig))

/-- **An accepted blob**: the header fits, with its signature if there is one, and the
nonce is where the object says it is. -/
theorem accepted_front {add : Nat → UInt64 → Nat} (hadd : Adds add) {p : Platform} {fuel : Nat}
    {t : BlockTemplate} {b : Bytes} (hb : b.length < 2 ^ 63) {coin : Coin} {hashes : Bool}
    (hmin : ¬ b.length < kMinSize)
    (hrc : (parse add p fuel t b coin hashes).rc = .returned true) :
    ∃ L, varintLength (b.drop 2) = some L ∧ L ≤ fuel ∧ 38 + L ≤ b.length ∧
      (Signs coin (b.getD 0 0) → 38 + L + 64 ≤ b.length) ∧
      (parse add p fuel t b coin hashes).t (.offset .NONCE_OFFSET) = UInt32.ofNat (34 + L) := by
  have hlen : 2 ≤ b.length := by
    have hk : kMinSize = 76 := rfl
    omega
  unfold parse at hrc ⊢
  rw [if_neg hmin] at hrc ⊢
  rcases parseFront_ran hadd p fuel t hlen hb coin with
    ⟨L, hL, hLf, hfit, hf⟩ | ⟨e, u, hf, -, he⟩
  · obtain ⟨hm, -, -, hco, hv, hnonce, -, -⟩ := front_fronted p t b coin L
    obtain ⟨hw, hi, hk⟩ := front_ready p t hb coin L
    have hoff : 2 + L + 32 = 34 + L := by omega
    rw [hoff] at hnonce
    rw [parseBody_front hf, hco, hv] at hrc ⊢
    by_cases hsg : Signs coin (b.getD 0 0)
    · rw [afterFront_signed hsg] at hrc ⊢
      have h64 : kSignatureSize.toNat = 64 := rfl
      rcases getSpan_ran hadd hw (n := kSignatureSize) (by decide) (by rw [hm]; omega) with
        ⟨hl, hr⟩ | ⟨-, hr⟩
      · rw [hm] at hl
        refine ⟨L, hL, hLf, hfit, fun _ => by omega, ?_⟩
        rw [run_ok hr, run_ok (assign_run _ _ _)]
        refine Eq.trans (kept_vote coin ?_ rfl) ?_
        · exact List.mem_cons_of_mem _ hk
        · exact (put_ne _ _ (show Member.offset .NONCE_OFFSET ≠ .minerSignature from nofun)).trans
            hnonce
      · rw [run_error hr] at hrc
        cases hrc
    · rw [afterFront_unsigned hsg]
      exact ⟨L, hL, hLf, hfit, fun h => absurd h hsg, (kept_tail coin hk rfl).trans hnonce⟩
  · rw [parseBody_failed hf] at hrc
    rcases he with ⟨rfl, -⟩ | ⟨rfl, -⟩ <;> cases hrc

end L1.Header

end Rxs
