import Rxs.L3Protocol.ZmqChunks

/-!
# The bytes of a message

`ZMQParse` goes through the receive buffer with a pointer and the number of bytes
behind it, in words of 64 bits: it counts the bytes of a message up to 1024 and only
removes a message that is complete. Every load is checked against the buffer
(`Outcome.fault`).

* `Frame`, `Message`: what is sent.
* `frames_induction`: bytes are frames, up to one that is not all there.
* `step_inv`: the pointer and the number belong together, and the size stays below the
  limit.
* `loop_header`: what one frame does.
* **`framing`**: what is read, removed and refused.
* `zmqParse_eq`: `ZMQParse` of the other modules is this one.
-/
namespace Rxs.L3.ZmqFraming

open Rxs.Core Rxs.Zmq

/-! ## The loop -/

/-- The pointer, as an index. -/
structure Cursor where
  pos : Nat
  avail : UInt64
  msg_size : UInt64
  deriving DecidableEq, Repr

/-- `fault`: a load outside the buffer. The pointer stands behind the header of a frame
that is too large, or behind a message that is complete, with the size of the message. -/
inductive Outcome where
  | fault
  | incomplete
  | tooLarge (pos : Nat)
  | message (pos : Nat) (msg_size : UInt64)
  deriving DecidableEq, Repr

inductive Next where
  | stop (o : Outcome)
  | more (s : Cursor)
  deriving DecidableEq, Repr

/-- Behind the header.
mirrors src/base/net/stratum/DaemonClient.cpp:869-891 -/
def payload (flags : UInt8) (size : UInt64) (s : Cursor) : Next :=
  if size > 1024 - s.msg_size then .stop (.tooLarge s.pos)
  else if s.avail < size then .stop .incomplete
  else
    let msg_size := if flags &&& 4 ≠ 0 then s.msg_size else s.msg_size + size
    if flags &&& 1 ≠ 0 then .more ⟨s.pos + size.toNat, s.avail - size, msg_size⟩
    else .stop (.message (s.pos + size.toNat) msg_size)

/-- One frame.
mirrors src/base/net/stratum/DaemonClient.cpp:838-891 -/
def step (b : Bytes) (s : Cursor) : Next :=
  if s.avail < 1 then .stop .incomplete
  else
    match b[s.pos]? with
    | none => .stop .fault
    | some flags =>
      if flags &&& 2 ≠ 0 then
        if s.avail - 1 < 8 then .stop .incomplete
        else if b.length < s.pos + 1 + 8 then .stop .fault
        else
          payload flags (UInt64.ofNat (Bytes.readLE (Bytes.slice b (s.pos + 1) 8).reverse))
            ⟨s.pos + 1 + 8, s.avail - 1 - 8, s.msg_size⟩
      else if s.avail - 1 < 1 then .stop .incomplete
      else
        match b[s.pos + 1]? with
        | none => .stop .fault
        | some size => payload flags size.toUInt64 ⟨s.pos + 1 + 1, s.avail - 1 - 1, s.msg_size⟩

theorem toNat_sub {a b : UInt64} (h : ¬ a < b) : (a - b).toNat = a.toNat - b.toNat :=
  UInt64.toNat_sub_of_le _ _ (UInt64.not_lt.mp h)

theorem payload_avail {flags : UInt8} {size : UInt64} {s s' : Cursor}
    (h : payload flags size s = .more s') : s'.avail.toNat ≤ s.avail.toNat := by
  unfold payload at h
  split at h
  · cases h
  · split at h
    · cases h
    · rename_i hlt
      dsimp only at h
      split at h
      · cases h
        rw [toNat_sub hlt]
        exact Nat.sub_le _ _
      · cases h

/-- Every frame has a header. -/
theorem step_avail {b : Bytes} {s s' : Cursor} (h : step b s = .more s') :
    s'.avail.toNat < s.avail.toNat := by
  unfold step at h
  split at h
  · cases h
  · rename_i h₁
    have hp : 1 ≤ s.avail.toNat := UInt64.le_iff_toNat_le.mp (UInt64.not_lt.mp h₁)
    have e₁ : (s.avail - 1).toNat = s.avail.toNat - 1 := toNat_sub h₁
    split at h
    · cases h
    · split at h
      · split at h
        · cases h
        · rename_i h₂
          have e₂ : (s.avail - 1 - 8).toNat = (s.avail - 1).toNat - 8 := toNat_sub h₂
          split at h
          · cases h
          · have := payload_avail h
            dsimp only at this
            omega
      · split at h
        · cases h
        · rename_i h₂
          have e₂ : (s.avail - 1 - 1).toNat = (s.avail - 1).toNat - 1 := toNat_sub h₂
          split at h
          · cases h
          · have := payload_avail h
            dsimp only at this
            omega

/-- mirrors src/base/net/stratum/DaemonClient.cpp:837-891 -/
def loop (b : Bytes) (s : Cursor) : Outcome :=
  match _h : step b s with
  | .stop o => o
  | .more s' => loop b s'
termination_by s.avail.toNat
decreasing_by exact step_avail _h

/-- `size()` is a word. -/
abbrev Buffer := { b : Bytes // b.length < 2 ^ 64 }

def start (b : Buffer) : Cursor := ⟨0, UInt64.ofNat b.1.length, 0⟩

def parse (b : Buffer) : Outcome := loop b.1 (start b)

/-- The client, with what was received. -/
abbrev Socket := { z : Zmq // z.buf.length < 2 ^ 64 }

def Socket.buffer (z : Socket) : Buffer := ⟨z.1.buf, z.2⟩

/-- mirrors src/base/net/stratum/DaemonClient.cpp:825-893 -/
def zmqParse (z : Socket) : Zmq :=
  match parse z.buffer with
  | .message pos _ => { z.1 with buf := z.1.buf.drop pos }
  | .tooLarge _ => close z.1
  | _ => z.1

/-! ## What is sent -/

/-- What the header of a frame can name. -/
def Names (flags : UInt8) (size : Nat) : Prop :=
  size < if flags &&& 2 ≠ 0 then 2 ^ 64 else 256

instance (flags : UInt8) (size : Nat) : Decidable (Names flags size) :=
  inferInstanceAs (Decidable (_ < _))

def header (flags : UInt8) (size : Nat) : Bytes :=
  if flags &&& 2 ≠ 0 then flags :: (Bytes.le 8 size).reverse else [flags, UInt8.ofNat size]

theorem names_lt {flags : UInt8} {size : Nat} (h : Names flags size) : size < 2 ^ 64 := by
  unfold Names at h
  split at h
  · exact h
  · omega

structure Frame where
  flags : UInt8
  payload : Bytes
  names : Names flags payload.length

namespace Frame

def more (f : Frame) : Prop := f.flags &&& 1 ≠ 0

/-- What it adds to the message; a command adds nothing. -/
def counted (f : Frame) : Nat := if f.flags &&& 4 ≠ 0 then 0 else f.payload.length

def encode (f : Frame) : Bytes := header f.flags f.payload.length ++ f.payload

end Frame

def encodeAll (fs : List Frame) : Bytes := fs.flatMap Frame.encode

def total (fs : List Frame) : Nat := (fs.map Frame.counted).sum

/-- Behind `n` bytes no frame takes the message over the limit. -/
def Fits : Nat → List Frame → Prop
  | _, [] => True
  | n, f :: fs => n + f.payload.length ≤ 1024 ∧ Fits (n + f.counted) fs

/-- Frames up to the first one that has none behind it. -/
structure Message where
  init : List Frame
  last : Frame
  more : ∀ f ∈ init, f.more
  final : ¬ last.more

namespace Message

def frames (m : Message) : List Frame := m.init ++ [m.last]

def encode (m : Message) : Bytes := encodeAll m.frames

end Message

theorem encodeAll_cons (f : Frame) (fs : List Frame) :
    encodeAll (f :: fs) = f.encode ++ encodeAll fs := rfl

theorem encodeAll_append (fs gs : List Frame) :
    encodeAll (fs ++ gs) = encodeAll fs ++ encodeAll gs :=
  List.flatMap_append

theorem total_cons (f : Frame) (fs : List Frame) : total (f :: fs) = f.counted + total fs := by
  simp [total]

theorem total_append (fs gs : List Frame) : total (fs ++ gs) = total fs + total gs := by
  simp [total]

theorem fits_append (fs gs : List Frame) (n : Nat) :
    Fits n (fs ++ gs) ↔ Fits n fs ∧ Fits (n + total fs) gs := by
  induction fs generalizing n with
  | nil => simp [Fits, total]
  | cons f fs ih =>
    rw [List.cons_append, Fits, Fits, ih, total_cons, and_assoc, Nat.add_assoc]

theorem fits_total {fs : List Frame} {n : Nat} (hn : n ≤ 1024) (h : Fits n fs) :
    n + total fs ≤ 1024 := by
  induction fs generalizing n with
  | nil => exact hn
  | cons f fs ih =>
    obtain ⟨hf, hfs⟩ := h
    rw [total_cons, ← Nat.add_assoc]
    refine ih ?_ hfs
    unfold Frame.counted
    split <;> omega

/-- Reading a header takes back what was written. -/
theorem readSize_iff {flags : UInt8} {data body : Bytes} {size : Nat} :
    readSize (flags &&& 2 ≠ 0) data = some (size, body) ↔
      Names flags size ∧ flags :: data = header flags size ++ body := by
  unfold readSize Names header
  by_cases hl : flags &&& 2 ≠ 0
  · rw [if_pos (decide_eq_true hl), if_pos hl, if_pos hl, List.cons_append, List.cons.injEq]
    constructor
    · intro h
      split at h
      · cases h
      · rename_i hlen
        have ht : (data.take 8).reverse.length = 8 := by
          rw [List.length_reverse, List.length_take]
          omega
        cases h
        refine ⟨?_, rfl, ?_⟩
        · have := Bytes.readLE_lt (data.take 8).reverse
          rw [ht] at this
          exact this
        · have := Bytes.le_readLE (data.take 8).reverse
          rw [ht] at this
          rw [this, List.reverse_reverse, List.take_append_drop]
    · rintro ⟨hs, -, rfl⟩
      have h8 : (Bytes.le 8 size).reverse.length = 8 := by simp
      rw [if_neg (by rw [List.length_append]; omega), List.take_left' h8, List.drop_left' h8,
        List.reverse_reverse, Bytes.readLE_le, Nat.mod_eq_of_lt (show size < 256 ^ 8 from hs)]
  · rw [if_neg (by simpa using hl), if_neg hl, if_neg hl]
    cases data with
    | nil => simp
    | cons b data =>
      simp only [Option.some.injEq, Prod.mk.injEq, List.cons_append, List.nil_append,
        List.cons.injEq, true_and]
      constructor
      · rintro ⟨rfl, rfl⟩
        exact ⟨b.toNat_lt, UInt8.ofNat_toNat.symm, rfl⟩
      · rintro ⟨hs, rfl, rfl⟩
        exact ⟨UInt8.toNat_ofNat_of_lt' hs, rfl⟩

theorem header_cons {flags : UInt8} {size : Nat} (hn : Names flags size) (body : Bytes) :
    ∃ data, header flags size ++ body = flags :: data ∧
      readSize (flags &&& 2 ≠ 0) data = some (size, body) := by
  obtain ⟨data, hd⟩ : ∃ data, header flags size ++ body = flags :: data := by
    unfold header
    split
    · exact ⟨_, rfl⟩
    · exact ⟨_, rfl⟩
  exact ⟨data, hd, readSize_iff.mpr ⟨hn, hd.symm⟩⟩

theorem Frame.encode_append (f : Frame) (body : Bytes) :
    f.encode ++ body = header f.flags f.payload.length ++ (f.payload ++ body) :=
  List.append_assoc _ _ _

/-- Bytes are frames, up to a header or a payload that is not all there. -/
theorem frames_induction {motive : Bytes → Prop} (nil : motive [])
    (cut : ∀ flags data, readSize (flags &&& 2 ≠ 0) data = none → motive (flags :: data))
    (short : ∀ flags size body, Names flags size → body.length < size →
      motive (header flags size ++ body))
    (frame : ∀ (f : Frame) rest, motive rest → motive (f.encode ++ rest)) (rest : Bytes) :
    motive rest := by
  induction hk : rest.length using Nat.strong_induction_on generalizing rest with
  | _ k ih =>
    cases rest with
    | nil => exact nil
    | cons flags data =>
      cases hrs : readSize (flags &&& 2 ≠ 0) data with
      | none => exact cut flags data hrs
      | some sb =>
        obtain ⟨size, body⟩ := sb
        have hlt := readSize_length hrs
        obtain ⟨hn, he⟩ := readSize_iff.mp hrs
        rw [he]
        by_cases hshort : body.length < size
        · exact short flags size body hn hshort
        · have ht : (body.take size).length = size := by
            rw [List.length_take]
            omega
          let f : Frame := ⟨flags, body.take size, by rw [ht]; exact hn⟩
          have hf : header flags size ++ body = f.encode ++ body.drop size := by
            rw [f.encode_append]
            show _ = header flags (body.take size).length ++ (body.take size ++ body.drop size)
            rw [ht, List.take_append_drop]
          have hlen : (body.drop size).length < k := by
            rw [List.length_drop]
            rw [List.length_cons] at hk
            omega
          rw [hf]
          exact frame f _ (ih _ hlen _ rfl)

/-! ## The pointer -/

/-- They belong together, and `1024U - msg_size` does not wrap. -/
def Inv (b : Bytes) (s : Cursor) : Prop :=
  s.pos + s.avail.toNat = b.length ∧ s.msg_size ≤ 1024

/-- The pointer in front of the last bytes. -/
def front (b rest : Bytes) (msg_size : UInt64) : Cursor :=
  ⟨b.length - rest.length, UInt64.ofNat rest.length, msg_size⟩

theorem front_drop {b : Bytes} {s : Cursor} (h : Inv b s) :
    s = front b (b.drop s.pos) s.msg_size := by
  have hl : (b.drop s.pos).length = s.avail.toNat := by
    rw [List.length_drop]
    have := h.1
    omega
  have hp : b.length - s.avail.toNat = s.pos := by
    have := h.1
    omega
  unfold front
  rw [hl, hp, UInt64.ofNat_toNat]

theorem toNat_ofNat {n : Nat} (h : n < 2 ^ 64) : (UInt64.ofNat n).toNat = n :=
  UInt64.toNat_ofNat_of_lt' h

theorem inv_front {b rest : Bytes} {msg_size : UInt64} (hb : b.length < 2 ^ 64)
    (hr : rest <:+ b) (hm : msg_size ≤ 1024) : Inv b (front b rest msg_size) := by
  have := hr.length_le
  refine ⟨?_, hm⟩
  dsimp only [front]
  rw [toNat_ofNat (by omega)]
  omega

theorem start_eq (b : Buffer) : start b = front b.1 b.1 0 := by
  unfold start front
  rw [Nat.sub_self]

/-- The size of the message with one more frame. -/
def growSize (flags : UInt8) (msg_size : UInt64) (size : Nat) : UInt64 :=
  if flags &&& 4 ≠ 0 then msg_size else msg_size + UInt64.ofNat size

theorem toNat_growSize (flags : UInt8) {msg_size : UInt64} {size : Nat} (hm : msg_size ≤ 1024)
    (hs : ¬ size > 1024 - msg_size.toNat) :
    (growSize flags msg_size size).toNat =
        msg_size.toNat + (if flags &&& 4 ≠ 0 then 0 else size) ∧
      growSize flags msg_size size ≤ 1024 := by
  have hm' : msg_size.toNat ≤ 1024 := UInt64.le_iff_toNat_le.mp hm
  unfold growSize
  split
  · exact ⟨rfl, hm⟩
  · have e : (msg_size + UInt64.ofNat size).toNat = msg_size.toNat + size := by
      rw [UInt64.toNat_add, toNat_ofNat (by omega)]
      omega
    refine ⟨e, UInt64.le_iff_toNat_le.mpr ?_⟩
    rw [e]
    show _ ≤ 1024
    omega

theorem getElem?_front {b rest : Bytes} (hr : rest <:+ b) (i : Nat) :
    b[b.length - rest.length + i]? = rest[i]? := by
  obtain ⟨p, rfl⟩ := hr
  rw [List.length_append, Nat.add_sub_cancel, List.getElem?_append_right (by omega),
    Nat.add_sub_cancel_left]

theorem payload_front {b body : Bytes} {flags : UInt8} {size : Nat} {msg_size : UInt64}
    (hb : b.length < 2 ^ 64) (hr : body <:+ b) (hs : size < 2 ^ 64) (hm : msg_size ≤ 1024) :
    payload flags (UInt64.ofNat size) (front b body msg_size) =
      if size > 1024 - msg_size.toNat then .stop (.tooLarge (b.length - body.length))
      else if body.length < size then .stop .incomplete
      else if flags &&& 1 ≠ 0 then
        .more (front b (body.drop size) (growSize flags msg_size size))
      else
        .stop (.message (b.length - (body.drop size).length) (growSize flags msg_size size)) := by
  have hl := hr.length_le
  have e : (1024 - msg_size).toNat = 1024 - msg_size.toNat := UInt64.toNat_sub_of_le _ _ hm
  have h₁ : UInt64.ofNat size > 1024 - msg_size ↔ size > 1024 - msg_size.toNat := by
    rw [gt_iff_lt, UInt64.lt_iff_toNat_lt, e, toNat_ofNat hs]
  have h₂ : UInt64.ofNat body.length < UInt64.ofNat size ↔ body.length < size := by
    rw [UInt64.lt_iff_toNat_lt, toNat_ofNat hs, toNat_ofNat (by omega)]
  unfold payload
  dsimp only [front]
  simp only [h₁, h₂]
  split
  · rfl
  · split
    · rfl
    · rename_i hle
      have hp : b.length - body.length + size = b.length - (body.drop size).length := by
        rw [List.length_drop]
        omega
      have ha : UInt64.ofNat body.length - UInt64.ofNat size
          = UInt64.ofNat (body.drop size).length := by
        rw [List.length_drop, UInt64.ofNat_sub (by omega)]
      rw [toNat_ofNat hs, hp, ha]
      rfl

theorem step_nil {b : Bytes} (msg_size : UInt64) :
    step b (front b [] msg_size) = .stop .incomplete := by
  unfold step
  rw [if_pos]
  exact UInt64.lt_iff_toNat_lt.mpr Nat.one_pos

theorem front_cons {b data : Bytes} {flags : UInt8} (msg_size : UInt64) (hb : b.length < 2 ^ 64)
    (hr : flags :: data <:+ b) :
    ¬ (front b (flags :: data) msg_size).avail < 1 ∧
      (front b (flags :: data) msg_size).pos + 1 = b.length - data.length ∧
      (front b (flags :: data) msg_size).avail - 1 = UInt64.ofNat data.length := by
  have hl := hr.length_le
  rw [List.length_cons] at hl
  dsimp only [front]
  rw [List.length_cons]
  refine ⟨?_, by omega, ?_⟩
  · rw [UInt64.lt_iff_toNat_lt, toNat_ofNat (by omega)]
    exact Nat.not_lt.mpr (Nat.le_add_left _ _)
  · rw [UInt64.ofNat_add]
    exact UInt64.add_sub_cancel _ _

theorem take_eight {b data : Bytes} (hr : data <:+ b) (h : 8 ≤ data.length) :
    Bytes.slice b (b.length - data.length) 8 = data.take 8 ∧
      data.drop 8 <:+ b ∧ b.length - data.length + 8 = b.length - (data.drop 8).length := by
  have hl := hr.length_le
  refine ⟨?_, (List.drop_suffix 8 data).trans hr, ?_⟩
  · unfold Bytes.slice
    rw [← List.suffix_iff_eq_drop.mp hr]
  · rw [List.length_drop]
    omega

/-- The header of a frame and what `readSize` reads are the same. -/
theorem step_cons {b data : Bytes} {flags : UInt8} (msg_size : UInt64) (hb : b.length < 2 ^ 64)
    (hr : flags :: data <:+ b) :
    step b (front b (flags :: data) msg_size) =
      match readSize (flags &&& 2 ≠ 0) data with
      | none => .stop .incomplete
      | some (size, body) => payload flags (UInt64.ofNat size) (front b body msg_size) := by
  have hd : data <:+ b := (List.suffix_cons flags data).trans hr
  have hl := hd.length_le
  obtain ⟨ha, hp, hv⟩ := front_cons msg_size hb hr
  have hget : b[(front b (flags :: data) msg_size).pos]? = some flags := getElem?_front hr 0
  have hlt (n : Nat) (hn : n < 2 ^ 64) :
      UInt64.ofNat data.length < UInt64.ofNat n ↔ data.length < n := by
    rw [UInt64.lt_iff_toNat_lt, toNat_ofNat (by omega), toNat_ofNat hn]
  have hlt₈ : UInt64.ofNat data.length < 8 ↔ data.length < 8 := hlt 8 (by omega)
  unfold step readSize
  rw [if_neg ha, hget]
  simp only [hp, hv]
  by_cases h₂ : flags &&& 2 ≠ 0
  · rw [if_pos h₂, if_pos (decide_eq_true h₂)]
    by_cases h₈ : data.length < 8
    · rw [if_pos (hlt₈.mpr h₈), if_pos h₈]
    · obtain ⟨hs, hdr, hpos⟩ := take_eight hd (by omega)
      have hav : UInt64.ofNat data.length - 8 = UInt64.ofNat (data.drop 8).length := by
        rw [List.length_drop, UInt64.ofNat_sub (by omega)]
        rfl
      rw [if_neg (fun h => h₈ (hlt₈.mp h)), if_neg h₈, if_neg (by omega), hs, hpos, hav]
      rfl
  · have hf : ¬ decide (flags &&& 2 ≠ 0) = true := fun h => h₂ (of_decide_eq_true h)
    rw [if_neg h₂, if_neg hf]
    cases data with
    | nil => rfl
    | cons size body =>
      have hb' : body <:+ b := (List.suffix_cons size body).trans hd
      have h₁ : ¬ UInt64.ofNat (size :: body).length < 1 := fun h =>
        absurd ((hlt 1 (by omega)).mp h) (Nat.not_lt.mpr (Nat.le_add_left _ _))
      have hget' : b[b.length - (size :: body).length]? = some size := getElem?_front hd 0
      obtain ⟨-, hp', hv'⟩ := front_cons msg_size hb hd
      dsimp only [front] at hp' hv'
      rw [if_neg h₁, hget', hp', hv']
      have : size.toUInt64 = UInt64.ofNat size.toNat := UInt64.toNat_inj.mp (by
        rw [toNat_ofNat (by have := size.toNat_lt; omega)]; rfl)
      simp only [this]
      rfl

/-- One step keeps it. -/
theorem step_inv {b : Bytes} {s s' : Cursor} (hb : b.length < 2 ^ 64) (h : Inv b s)
    (hs : step b s = .more s') : Inv b s' := by
  rw [front_drop h] at hs
  have hr := List.drop_suffix s.pos b
  cases hd : b.drop s.pos with
  | nil =>
    rw [hd, step_nil] at hs
    cases hs
  | cons flags data =>
    rw [hd] at hs hr
    rw [step_cons s.msg_size hb hr] at hs
    cases hrs : readSize (flags &&& 2 ≠ 0) data with
    | none =>
      rw [hrs] at hs
      cases hs
    | some sb =>
      obtain ⟨size, body⟩ := sb
      obtain ⟨hn, he⟩ := readSize_iff.mp hrs
      have hbody : body <:+ b := (he ▸ List.suffix_append _ _ : body <:+ flags :: data).trans hr
      rw [hrs] at hs
      dsimp only at hs
      rw [payload_front hb hbody (names_lt hn) h.2] at hs
      split at hs
      · cases hs
      · rename_i hle
        split at hs
        · cases hs
        · split at hs
          · cases hs
            exact inv_front hb ((List.drop_suffix _ _).trans hbody) (toNat_growSize flags h.2 hle).2
          · cases hs

/-! ## The loop on frames -/

theorem loop_stop {b : Bytes} {s : Cursor} {o : Outcome} (h : step b s = .stop o) :
    loop b s = o := by
  rw [loop]
  split <;> rename_i h' <;> rw [h] at h' <;> cases h'
  rfl

theorem loop_more {b : Bytes} {s s' : Cursor} (h : step b s = .more s') :
    loop b s = loop b s' := by
  rw [loop]
  split <;> rename_i h' <;> rw [h] at h' <;> cases h'
  rfl

/-- What one frame does. -/
theorem loop_header {b body : Bytes} {flags : UInt8} {size : Nat} {msg_size : UInt64}
    (hb : b.length < 2 ^ 64) (hr : header flags size ++ body <:+ b) (hn : Names flags size)
    (hm : msg_size ≤ 1024) :
    loop b (front b (header flags size ++ body) msg_size) =
      if size > 1024 - msg_size.toNat then .tooLarge (b.length - body.length)
      else if body.length < size then .incomplete
      else if flags &&& 1 ≠ 0 then
        loop b (front b (body.drop size) (growSize flags msg_size size))
      else .message (b.length - (body.drop size).length) (growSize flags msg_size size) := by
  obtain ⟨data, hd, hrs⟩ := header_cons hn body
  have hs : step b (front b (header flags size ++ body) msg_size)
      = payload flags (UInt64.ofNat size) (front b body msg_size) := by
    rw [hd] at hr ⊢
    rw [step_cons msg_size hb hr, hrs]
  rw [payload_front hb ((List.suffix_append _ _).trans hr) (names_lt hn) hm] at hs
  by_cases h₁ : size > 1024 - msg_size.toNat
  · rw [if_pos h₁] at hs ⊢
    exact loop_stop hs
  · rw [if_neg h₁] at hs ⊢
    by_cases h₂ : body.length < size
    · rw [if_pos h₂] at hs ⊢
      exact loop_stop hs
    · rw [if_neg h₂] at hs ⊢
      by_cases h₃ : flags &&& 1 ≠ 0
      · rw [if_pos h₃] at hs ⊢
        exact loop_more hs
      · rw [if_neg h₃] at hs ⊢
        exact loop_stop hs

/-- A frame that fits is gone through. -/
theorem loop_frame {b body : Bytes} {f : Frame} {msg_size : UInt64} (hb : b.length < 2 ^ 64)
    (hr : f.encode ++ body <:+ b) (hm : msg_size ≤ 1024)
    (hf : msg_size.toNat + f.payload.length ≤ 1024) :
    ∃ n, n ≤ 1024 ∧ n.toNat = msg_size.toNat + f.counted ∧
      loop b (front b (f.encode ++ body) msg_size) =
        if f.flags &&& 1 ≠ 0 then loop b (front b body n)
        else .message (b.length - body.length) n := by
  have hle : ¬ f.payload.length > 1024 - msg_size.toNat := by omega
  obtain ⟨hn, hg⟩ := toNat_growSize f.flags hm hle
  refine ⟨_, hg, hn, ?_⟩
  have hlen : ¬ (f.payload ++ body).length < f.payload.length := by
    rw [List.length_append]
    omega
  rw [f.encode_append] at hr ⊢
  rw [loop_header hb hr f.names hm, if_neg hle, if_neg hlen, List.drop_left]

theorem loop_frames {b body : Bytes} {fs : List Frame} {msg_size : UInt64}
    (hb : b.length < 2 ^ 64) (hr : encodeAll fs ++ body <:+ b) (hm : msg_size ≤ 1024)
    (hmore : ∀ f ∈ fs, f.more) (hf : Fits msg_size.toNat fs) :
    ∃ n, n ≤ 1024 ∧ n.toNat = msg_size.toNat + total fs ∧
      loop b (front b (encodeAll fs ++ body) msg_size) = loop b (front b body n) := by
  induction fs generalizing msg_size with
  | nil => exact ⟨msg_size, hm, rfl, rfl⟩
  | cons f fs ih =>
    obtain ⟨hf₁, hf₂⟩ := hf
    rw [encodeAll_cons, List.append_assoc] at hr ⊢
    obtain ⟨n, hn, he, hl⟩ := loop_frame hb hr hm hf₁
    rw [← he] at hf₂
    obtain ⟨k, hk, hke, hkl⟩ := ih ((List.suffix_append _ _).trans hr) hn
      (fun g hg => hmore g (List.mem_cons_of_mem f hg)) hf₂
    have hfm : f.flags &&& 1 ≠ 0 := hmore f List.mem_cons_self
    refine ⟨k, hk, ?_, ?_⟩
    · rw [hke, he, total_cons, Nat.add_assoc]
    · rw [hl, if_pos hfm, hkl]

/-- The bytes up to the header of a frame that takes the message over the limit. -/
def Overlong (n : Nat) (head : Bytes) : Prop :=
  ∃ (fs : List Frame) (flags : UInt8) (size : Nat), (∀ f ∈ fs, f.more) ∧ Fits n fs ∧
    Names flags size ∧ 1024 < n + total fs + size ∧ head = encodeAll fs ++ header flags size

theorem Overlong.header {flags : UInt8} {size n : Nat} (hn : Names flags size)
    (h : 1024 < n + size) : Overlong n (header flags size) := by
  refine ⟨[], flags, size, ?_, trivial, hn, h, rfl⟩
  exact fun f hf => absurd hf List.not_mem_nil

theorem Overlong.cons {n : Nat} {head : Bytes} {f : Frame} (hmore : f.more)
    (hf : n + f.payload.length ≤ 1024) (h : Overlong (n + f.counted) head) :
    Overlong n (f.encode ++ head) := by
  obtain ⟨fs, flags, size, hm, hfs, hn, hlt, rfl⟩ := h
  refine ⟨f :: fs, flags, size, ?_, ⟨hf, hfs⟩, hn, ?_, ?_⟩
  · intro g hg
    cases List.mem_cons.mp hg with
    | inl h => exact h ▸ hmore
    | inr h => exact hm g h
  · rw [total_cons]
    omega
  · rw [encodeAll_cons, List.append_assoc]

theorem loop_overlong {b head body : Bytes} (msg_size : UInt64) (hb : b.length < 2 ^ 64)
    (hr : head ++ body <:+ b) (hm : msg_size ≤ 1024) (h : Overlong msg_size.toNat head) :
    loop b (front b (head ++ body) msg_size) = .tooLarge (b.length - body.length) := by
  obtain ⟨fs, flags, size, hmore, hf, hn, hlt, rfl⟩ := h
  rw [List.append_assoc] at hr ⊢
  obtain ⟨n, hn', he, hl⟩ := loop_frames hb hr hm hmore hf
  have hle : n.toNat ≤ 1024 := UInt64.le_iff_toNat_le.mp hn'
  rw [hl, loop_header hb ((List.suffix_append _ _).trans hr) hn hn', if_pos (by omega)]

theorem loop_message {b body : Bytes} {m : Message} (msg_size : UInt64) (hb : b.length < 2 ^ 64)
    (hr : m.encode ++ body <:+ b) (hm : msg_size ≤ 1024) (hf : Fits msg_size.toNat m.frames) :
    ∃ n, n.toNat = msg_size.toNat + total m.frames ∧
      loop b (front b (m.encode ++ body) msg_size) = .message (b.length - body.length) n := by
  have e : m.encode = encodeAll m.init ++ m.last.encode := by
    unfold Message.encode Message.frames
    rw [encodeAll_append]
    show encodeAll m.init ++ (m.last.encode ++ []) = _
    rw [List.append_nil]
  unfold Message.frames at hf ⊢
  rw [fits_append] at hf
  rw [e, List.append_assoc] at hr ⊢
  obtain ⟨n, hn, he, hl⟩ := loop_frames hb hr hm m.more hf.1
  have hlast : n.toNat + m.last.payload.length ≤ 1024 := by
    rw [he]
    exact hf.2.1
  obtain ⟨k, -, hke, hkl⟩ := loop_frame hb ((List.suffix_append _ _).trans hr) hn hlast
  refine ⟨k, ?_, ?_⟩
  · rw [hke, he, total_append, Nat.add_assoc]
    rfl
  · have hlm : ¬ m.last.flags &&& 1 ≠ 0 := m.final
    rw [hl, hkl, if_neg hlm]

/-- A frame put in front of what follows. -/
def Message.cons (f : Frame) (hf : f.more) (m : Message) : Message where
  init := f :: m.init
  last := m.last
  more := List.forall_mem_cons.mpr ⟨hf, m.more⟩
  final := m.final

/-- There are no other ends. -/
theorem loop_cases {b rest : Bytes} {msg_size : UInt64} (hb : b.length < 2 ^ 64)
    (hr : rest <:+ b) (hm : msg_size ≤ 1024) :
    loop b (front b rest msg_size) = .incomplete ∨
      (∃ head body, rest = head ++ body ∧ Overlong msg_size.toNat head) ∨
      ∃ (m : Message) (body : Bytes), rest = m.encode ++ body ∧ Fits msg_size.toNat m.frames := by
  induction rest using frames_induction generalizing msg_size with
  | nil => exact .inl (loop_stop (step_nil msg_size))
  | cut flags data hrs =>
    refine .inl (loop_stop ?_)
    rw [step_cons msg_size hb hr, hrs]
  | short flags size body hn hshort =>
    by_cases hbig : size > 1024 - msg_size.toNat
    · exact .inr (.inl ⟨header flags size, body, rfl, .header hn (by omega)⟩)
    · refine .inl ?_
      rw [loop_header hb hr hn hm, if_neg hbig, if_pos hshort]
  | frame f tail ih =>
    by_cases hf : msg_size.toNat + f.payload.length ≤ 1024
    · obtain ⟨n, hn, he, hl⟩ := loop_frame hb hr hm hf
      rw [hl]
      by_cases hmore : f.flags &&& 1 ≠ 0
      · rw [if_pos hmore]
        obtain h | ⟨head, body, rfl, h⟩ | ⟨m, body, rfl, h⟩ :=
          ih ((List.suffix_append _ _).trans hr) hn
        · exact .inl h
        · rw [he] at h
          refine .inr (.inl ⟨f.encode ++ head, body, ?_, h.cons hmore hf⟩)
          rw [List.append_assoc]
        · rw [he] at h
          refine .inr (.inr ⟨m.cons f hmore, body, ?_, hf, h⟩)
          rw [← List.append_assoc]
          rfl
      · refine .inr (.inr ⟨⟨[], f, nofun, hmore⟩, tail, ?_, hf, trivial⟩)
        show _ = (f.encode ++ []) ++ _
        rw [List.append_nil]
    · refine .inr (.inl ⟨header f.flags f.payload.length, f.payload ++ tail, ?_,
        .header f.names (by omega)⟩)
      exact f.encode_append tail

/-! ## The buffer -/

theorem zero_le : (0 : UInt64) ≤ 1024 := UInt64.le_iff_toNat_le.mpr (Nat.zero_le _)

/-- Where the pointer and the number get. -/
def Reached (b : Buffer) (s : Cursor) : Prop :=
  Relation.ReflTransGen (fun s s' => step b.1 s = .more s') (start b) s

theorem reached_inv {b : Buffer} {s : Cursor} (h : Reached b s) : Inv b.1 s := by
  induction h with
  | refl =>
    rw [start_eq]
    exact inv_front b.2 List.suffix_rfl zero_le
  | tail _ hs ih => exact step_inv b.2 ih hs

theorem overlong_of_not_fits {fs : List Frame} {f : Frame} {n : Nat} (hmore : ∀ g ∈ fs, g.more)
    (hf : ¬ Fits n (fs ++ [f])) :
    ∃ head tail, encodeAll (fs ++ [f]) = head ++ tail ∧ Overlong n head := by
  induction fs generalizing n with
  | nil =>
    have hlt : 1024 < n + f.payload.length := by
      by_contra h
      exact hf ⟨Nat.not_lt.mp h, trivial⟩
    exact ⟨_, f.payload ++ [], f.encode_append [], .header f.names hlt⟩
  | cons g fs ih =>
    by_cases hg : n + g.payload.length ≤ 1024
    · obtain ⟨head, tail, he, ho⟩ := ih (fun k hk => hmore k (List.mem_cons_of_mem g hk))
        (fun h => hf ⟨hg, h⟩)
      refine ⟨g.encode ++ head, tail, ?_, ho.cons (hmore g List.mem_cons_self) hg⟩
      rw [List.cons_append, encodeAll_cons, he, List.append_assoc]
    · exact ⟨_, g.payload ++ encodeAll (fs ++ [f]), g.encode_append _,
        .header g.names (Nat.not_le.mp hg)⟩

theorem parse_message {b : Buffer} {m : Message} {rest : Bytes} (hb : b.1 = m.encode ++ rest)
    (hf : Fits 0 m.frames) :
    ∃ n, n.toNat = total m.frames ∧ parse b = .message m.encode.length n := by
  have hr : m.encode ++ rest <:+ b.1 := hb ▸ List.suffix_rfl
  obtain ⟨n, hn, hl⟩ := loop_message 0 b.2 hr zero_le hf
  refine ⟨n, ?_, ?_⟩
  · rw [hn]
    exact Nat.zero_add _
  · unfold parse
    rw [start_eq]
    nth_rewrite 3 [hb]
    rw [hl, hb, List.length_append, Nat.add_sub_cancel]

theorem parse_overlong {b : Buffer} {head rest : Bytes} (hb : b.1 = head ++ rest)
    (h : Overlong 0 head) : parse b = .tooLarge head.length := by
  have hr : head ++ rest <:+ b.1 := hb ▸ List.suffix_rfl
  have hl := loop_overlong 0 b.2 hr zero_le h
  unfold parse
  rw [start_eq]
  nth_rewrite 3 [hb]
  rw [hl, hb, List.length_append, Nat.add_sub_cancel]

theorem parse_cases (b : Buffer) :
    parse b = .incomplete ∨
      (∃ head rest, b.1 = head ++ rest ∧ Overlong 0 head ∧ parse b = .tooLarge head.length) ∨
      ∃ (m : Message) (rest : Bytes) (n : UInt64), b.1 = m.encode ++ rest ∧ n ≤ 1024 ∧
        parse b = .message m.encode.length n := by
  have hc := loop_cases b.2 List.suffix_rfl zero_le
  rw [← start_eq] at hc
  obtain h | ⟨head, rest, hb, h⟩ | ⟨m, rest, hb, h⟩ := hc
  · exact .inl h
  · exact .inr (.inl ⟨head, rest, hb, h, parse_overlong hb h⟩)
  · obtain ⟨n, hn, hp⟩ := parse_message hb h
    have hle := fits_total (Nat.zero_le _) h
    rw [Nat.zero_add, ← hn] at hle
    exact .inr (.inr ⟨m, rest, n, hb, UInt64.le_iff_toNat_le.mpr hle, hp⟩)

/-- No load is outside the buffer, and the size of a message stays below the limit. -/
theorem parse_sound (b : Buffer) :
    parse b ≠ .fault ∧ ∀ pos msg_size, parse b = .message pos msg_size → msg_size ≤ 1024 := by
  obtain h | ⟨head, rest, -, -, h⟩ | ⟨m, rest, n, -, hn, h⟩ := parse_cases b
  · rw [h]
    exact ⟨nofun, nofun⟩
  · rw [h]
    exact ⟨nofun, nofun⟩
  · rw [h]
    refine ⟨nofun, ?_⟩
    rintro pos k ⟨⟩
    exact hn

theorem parse_not_fits {b : Buffer} {m : Message} {rest : Bytes} (hb : b.1 = m.encode ++ rest)
    (hf : ¬ Fits 0 m.frames) :
    ∃ head, head <+: m.encode ∧ Overlong 0 head ∧ parse b = .tooLarge head.length := by
  obtain ⟨head, tail, he, ho⟩ := overlong_of_not_fits m.more hf
  have hb' : b.1 = head ++ (tail ++ rest) := by
    rw [hb, ← List.append_assoc, ← he]
    rfl
  exact ⟨head, ⟨tail, he.symm⟩, ho, parse_overlong hb' ho⟩

theorem close_buf (z : Zmq) : (close z).buf = z.buf := by
  unfold close
  split <;> rfl

theorem zmqParse_incomplete {z : Socket} (h : parse z.buffer = .incomplete) :
    zmqParse z = z.1 := by
  unfold zmqParse
  rw [h]

theorem zmqParse_message {z : Socket} {m : Message} {rest : Bytes}
    (hb : z.1.buf = m.encode ++ rest) (hf : Fits 0 m.frames) :
    zmqParse z = { z.1 with buf := rest } := by
  obtain ⟨n, -, hp⟩ := parse_message (b := z.buffer) hb hf
  unfold zmqParse
  rw [hp]
  dsimp only
  rw [hb, List.drop_left]

theorem zmqParse_overlong {z : Socket} {head rest : Bytes} (hb : z.1.buf = head ++ rest)
    (h : Overlong 0 head) : zmqParse z = close z.1 ∧ (zmqParse z).buf = z.1.buf := by
  have hz : zmqParse z = close z.1 := by
    unfold zmqParse
    rw [parse_overlong (b := z.buffer) hb h]
  exact ⟨hz, by rw [hz, close_buf]⟩

theorem zmqParse_keeps {z : Socket} (hno : ∀ (m : Message) rest, z.1.buf ≠ m.encode ++ rest) :
    (zmqParse z).buf = z.1.buf ∧
      ((∀ head rest, z.1.buf = head ++ rest → ¬ Overlong 0 head) → zmqParse z = z.1) := by
  obtain h | ⟨head, rest, hb, h, -⟩ | ⟨m, rest, -, hb, -⟩ := parse_cases z.buffer
  · rw [zmqParse_incomplete h]
    exact ⟨rfl, fun _ => rfl⟩
  · exact ⟨(zmqParse_overlong hb h).2, fun hn => absurd h (hn head rest hb)⟩
  · exact absurd hb (hno m rest)

/-- The pointer stays in the buffer and the size below the limit. A message that is
complete and fits is removed, and nothing else is; one that does not fit closes the
connection at the header of the frame that is too much, with the payload of that frame
not gone through and the buffer as it was. -/
theorem framing (z : Socket) :
    (∀ s, Reached z.buffer s → s.pos + s.avail.toNat = z.1.buf.length ∧ s.msg_size ≤ 1024) ∧
    parse z.buffer ≠ .fault ∧
    (∀ pos msg_size, parse z.buffer = .message pos msg_size → msg_size ≤ 1024) ∧
    (∀ (m : Message) rest, z.1.buf = m.encode ++ rest → Fits 0 m.frames →
      zmqParse z = { z.1 with buf := rest }) ∧
    (∀ (m : Message) rest, z.1.buf = m.encode ++ rest → ¬ Fits 0 m.frames →
      ∃ head, head <+: m.encode ∧ Overlong 0 head ∧ parse z.buffer = .tooLarge head.length) ∧
    (∀ head rest, z.1.buf = head ++ rest → Overlong 0 head →
      parse z.buffer = .tooLarge head.length ∧ zmqParse z = close z.1 ∧
        (zmqParse z).buf = z.1.buf) ∧
    ((∀ (m : Message) rest, z.1.buf ≠ m.encode ++ rest) → (zmqParse z).buf = z.1.buf ∧
      ((∀ head rest, z.1.buf = head ++ rest → ¬ Overlong 0 head) → zmqParse z = z.1)) := by
  obtain ⟨hfault, hsize⟩ := parse_sound z.buffer
  refine ⟨fun s hs => reached_inv hs, hfault, hsize, fun m rest hb hf => zmqParse_message hb hf,
    fun m rest hb hf => parse_not_fits hb hf, fun head rest hb h => ?_, zmqParse_keeps⟩
  exact ⟨parse_overlong hb h, zmqParse_overlong hb h⟩

/-- The first frame of 1000 bytes is gone through before the second one of 100 is
refused. -/
theorem framing_skips :
    ¬ ∀ (b : Buffer) (pos : Nat), parse b = .tooLarge pos →
      ∃ (flags : UInt8) (size : Nat) (rest : Bytes), Names flags size ∧
        b.1 = header flags size ++ rest ∧ pos = (header flags size).length := by
  intro h
  let f : Frame := ⟨3, List.replicate 1000 0, by rw [List.length_replicate]; decide⟩
  have hp : f.payload.length = 1000 := List.length_replicate
  have hc : f.counted = 1000 := by
    unfold Frame.counted
    rw [if_neg (by decide), hp]
  let head := f.encode ++ header 0 100
  have hlen : head.length = 1011 := by
    show ((header 3 f.payload.length ++ f.payload) ++ header 0 100).length = 1011
    have h₃ : (header 3 1000).length = 9 := rfl
    rw [hp, List.length_append, List.length_append, h₃, hp]
    rfl
  have ho : Overlong 0 head := by
    have hmore : f.more := by
      show (3 : UInt8) &&& 1 ≠ 0
      decide
    refine Overlong.cons hmore (by omega) ⟨[], 0, 100, nofun, trivial, by decide, ?_, rfl⟩
    rw [hc]
    decide
  have hp := parse_overlong (b := ⟨head, by rw [hlen]; omega⟩) (List.append_nil _).symm ho
  obtain ⟨flags, size, rest, -, -, hpos⟩ := h _ _ hp
  rw [hlen] at hpos
  unfold header at hpos
  split at hpos
  · rw [List.length_cons, List.length_reverse, Bytes.length_le] at hpos
    omega
  · simp at hpos

/-! ## The other modules -/

theorem length_grow {flags : UInt8} {msg frame : Bytes} :
    (ZmqChunks.grow flags msg frame).length =
      msg.length + if flags &&& 4 ≠ 0 then 0 else frame.length := by
  unfold ZmqChunks.grow
  split
  · rfl
  · exact List.length_append

theorem parseFrames_header {flags : UInt8} {size : Nat} (hn : Names flags size)
    (body msg : Bytes) :
    parseFrames (header flags size ++ body) msg =
      if size > 1024 - msg.length then .tooLarge
      else if body.length < size then .incomplete
      else if flags &&& 1 ≠ 0 then
        parseFrames (body.drop size) (ZmqChunks.grow flags msg (body.take size))
      else .message (ZmqChunks.grow flags msg (body.take size)) (body.drop size) := by
  obtain ⟨data, hd, hrs⟩ := header_cons hn body
  rw [hd, ZmqChunks.parseFrames_frame hrs]

/-- The loop with the bytes of the message in the place of their number. -/
theorem loop_parseFrames {b rest : Bytes} (msg : Bytes) {msg_size : UInt64} (hb : b.length < 2 ^ 64)
    (hr : rest <:+ b) (hm : msg_size ≤ 1024) (hmsg : msg_size.toNat = msg.length) :
    match loop b (front b rest msg_size) with
    | .fault => False
    | .incomplete => parseFrames rest msg = .incomplete
    | .tooLarge _ => parseFrames rest msg = .tooLarge
    | .message pos _ => ∃ m, parseFrames rest msg = .message m (b.drop pos) := by
  induction rest using frames_induction generalizing msg msg_size with
  | nil =>
    rw [loop_stop (step_nil msg_size)]
    dsimp only
    rw [parseFrames]
  | cut flags data hrs =>
    have hs : step b (front b (flags :: data) msg_size) = .stop .incomplete := by
      rw [step_cons msg_size hb hr, hrs]
    rw [loop_stop hs]
    exact ZmqChunks.parseFrames_short hrs
  | short flags size body hn hshort =>
    rw [loop_header hb hr hn hm, parseFrames_header hn, ← hmsg]
    by_cases hbig : size > 1024 - msg_size.toNat
    · rw [if_pos hbig, if_pos hbig]
    · rw [if_neg hbig, if_neg hbig, if_pos hshort, if_pos hshort]
  | frame f tail ih =>
    have hsuf : tail <:+ b := (List.suffix_append _ _).trans hr
    have hlen : ¬ (f.payload ++ tail).length < f.payload.length := by
      rw [List.length_append]
      omega
    rw [f.encode_append] at hr ⊢
    rw [loop_header hb hr f.names hm, parseFrames_header f.names, ← hmsg, if_neg hlen, if_neg hlen,
      List.drop_left, List.take_left]
    by_cases hbig : f.payload.length > 1024 - msg_size.toNat
    · rw [if_pos hbig, if_pos hbig]
    · rw [if_neg hbig, if_neg hbig]
      obtain ⟨hg, hg'⟩ := toNat_growSize f.flags hm hbig
      by_cases hmore : f.flags &&& 1 ≠ 0
      · rw [if_pos hmore, if_pos hmore]
        refine ih _ hsuf hg' ?_
        rw [hg, length_grow, hmsg]
      · rw [if_neg hmore, if_neg hmore]
        exact ⟨_, congrArg _ (List.suffix_iff_eq_drop.mp hsuf)⟩

theorem zmqParse_eq (z : Socket) : zmqParse z = z.1.ZMQParse.1 := by
  have h := loop_parseFrames [] z.2 List.suffix_rfl zero_le rfl
  unfold zmqParse ZMQParse
  unfold parse
  rw [start_eq]
  show (match loop z.1.buf (front z.1.buf z.1.buf 0) with
    | .message pos _ => { z.1 with buf := z.1.buf.drop pos }
    | .tooLarge _ => close z.1
    | _ => z.1) = _
  cases hl : loop z.1.buf (front z.1.buf z.1.buf 0) with
  | fault =>
    rw [hl] at h
    exact h.elim
  | incomplete =>
    rw [hl] at h
    dsimp only at h
    rw [h]
  | tooLarge pos =>
    rw [hl] at h
    dsimp only at h
    rw [h]
  | message pos n =>
    rw [hl] at h
    obtain ⟨m, h⟩ := h
    rw [h]

end Rxs.L3.ZmqFraming
