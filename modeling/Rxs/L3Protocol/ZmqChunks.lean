import Mathlib.Data.List.Induction
import Rxs.Core.Chunked
import Rxs.L3Protocol.Zmq

/-!
# Messages and reads

The bytes that follow the handshake are messages, as far as they are complete, and
`messages` are those of a stream. `ZMQParse` takes one, and is called once a read: a
second message that came with the same read stays in the buffer.

* `parseFrames_append`: a message is complete whatever follows.
* `messages_append`: the messages of a stream that grows.
* `session`: what follows the handshake.
* **`chunk_independence`**: exactly when the messages acted on do not depend on how the
  stream is split into reads.
-/
namespace Rxs.L3.ZmqChunks

open Rxs.Core Rxs.Zmq

/-! ## Frames of a stream that grows -/

theorem readSize_append {long_size : Bool} {data body : Bytes} {size : Nat}
    (h : readSize long_size data = some (size, body)) (c : Bytes) :
    readSize long_size (data ++ c) = some (size, body ++ c) := by
  unfold readSize at h ⊢
  cases long_size with
  | true =>
    rw [if_pos rfl] at h ⊢
    split at h
    · cases h
    · rename_i hlen
      cases h
      rw [if_neg (by rw [List.length_append]; omega), List.take_append_of_le_length (by omega),
        List.drop_append_of_le_length (by omega)]
  | false =>
    rw [if_neg Bool.false_ne_true] at h ⊢
    cases data with
    | nil => cases h
    | cons b data =>
      cases h
      rfl

/-- The message so far with one more frame. -/
def grow (flags : UInt8) (msg frame : Bytes) : Bytes :=
  if flags &&& 4 ≠ 0 then msg else msg ++ frame

theorem parseFrames_frame {flags : UInt8} {data body msg : Bytes} {size : Nat}
    (h : readSize (flags &&& 2 ≠ 0) data = some (size, body)) :
    parseFrames (flags :: data) msg =
      if size > 1024 - msg.length then .tooLarge
      else if body.length < size then .incomplete
      else if flags &&& 1 ≠ 0 then parseFrames (body.drop size) (grow flags msg (body.take size))
      else .message (grow flags msg (body.take size)) (body.drop size) := by
  rw [parseFrames]
  split
  · rename_i hn
    rw [h] at hn
    cases hn
  · rename_i hs
    rw [h] at hs
    cases hs
    rfl

theorem parseFrames_short {flags : UInt8} {data msg : Bytes}
    (h : readSize (flags &&& 2 ≠ 0) data = none) : parseFrames (flags :: data) msg = .incomplete := by
  rw [parseFrames]
  split
  · rfl
  · rename_i hs
    rw [h] at hs
    cases hs

/-- What is decided of some bytes is decided whatever follows them. -/
theorem parseFrames_append (data msg c : Bytes) :
    (∀ m rest, parseFrames data msg = .message m rest →
      parseFrames (data ++ c) msg = .message m (rest ++ c) ∧ rest.length < data.length) ∧
    (parseFrames data msg = .tooLarge → parseFrames (data ++ c) msg = .tooLarge) := by
  induction hn : data.length using Nat.strong_induction_on generalizing data msg with
  | _ n ih =>
    cases data with
    | nil =>
      rw [parseFrames]
      exact ⟨by simp, by simp⟩
    | cons flags data =>
      rw [List.cons_append]
      cases hs : readSize (flags &&& 2 ≠ 0) data with
      | none =>
        rw [parseFrames_short hs]
        exact ⟨by simp, by simp⟩
      | some sb =>
        obtain ⟨size, body⟩ := sb
        have hlen := readSize_length hs
        rw [List.length_cons] at hn
        rw [parseFrames_frame hs, parseFrames_frame (readSize_append hs c)]
        by_cases hbig : size > 1024 - msg.length
        · rw [if_pos hbig, if_pos hbig]
          exact ⟨by simp, fun _ => rfl⟩
        · rw [if_neg hbig, if_neg hbig]
          by_cases hshort : body.length < size
          · rw [if_pos hshort]
            exact ⟨by simp, by simp⟩
          · have hshort' : ¬ (body ++ c).length < size := by
              rw [List.length_append]
              omega
            rw [if_neg hshort, if_neg hshort', List.take_append_of_le_length (by omega),
              List.drop_append_of_le_length (by omega)]
            have hdrop : (body.drop size).length = body.length - size := List.length_drop
            by_cases hmore : flags &&& 1 ≠ 0
            · rw [if_pos hmore, if_pos hmore]
              obtain ⟨hm, ht⟩ := ih (body.drop size).length (by omega) _
                (grow flags msg (body.take size)) rfl
              refine ⟨fun m rest h => ?_, ht⟩
              obtain ⟨h₁, h₂⟩ := hm m rest h
              exact ⟨h₁, by omega⟩
            · rw [if_neg hmore, if_neg hmore]
              refine ⟨fun m rest h => ?_, by simp⟩
              cases h
              exact ⟨rfl, by omega⟩

/-- The messages of a stream of frames, up to one that is not complete or too large. -/
def messages (b : Bytes) : List Bytes :=
  match _h : parseFrames b [] with
  | .message msg rest => msg :: messages rest
  | _ => []
termination_by b.length
decreasing_by exact ((parseFrames_append b [] []).1 msg rest _h).2

theorem messages_cons {b msg rest : Bytes} (h : parseFrames b [] = .message msg rest) :
    messages b = msg :: messages rest := by
  rw [messages]
  split
  · rename_i h'
    rw [h] at h'
    cases h'
    rfl
  · rename_i hno
    exact absurd h (hno msg rest)

theorem messages_nil {b : Bytes} (h : ∀ msg rest, parseFrames b [] ≠ .message msg rest) :
    messages b = [] := by
  rw [messages]
  split
  · rename_i h'
    exact absurd h' (h _ _)
  · rfl

/-- There is no complete message. -/
def Drained (b : Bytes) : Prop := ∀ msg rest, parseFrames b [] ≠ .message msg rest

theorem drained_iff {b : Bytes} : Drained b ↔ messages b = [] := by
  refine ⟨messages_nil, fun h msg rest hm => ?_⟩
  rw [messages_cons hm] at h
  cases h

theorem messages_tooLarge {b : Bytes} (h : parseFrames b [] = .tooLarge) (c : Bytes) :
    messages (b ++ c) = [] := by
  refine messages_nil fun msg rest hm => ?_
  rw [(parseFrames_append b [] c).2 h] at hm
  cases hm

/-- The messages of a stream stay when it grows. -/
theorem messages_append (b c : Bytes) : messages b <+: messages (b ++ c) := by
  induction hn : b.length using Nat.strong_induction_on generalizing b with
  | _ n ih =>
    cases hp : parseFrames b [] with
    | message msg rest =>
      obtain ⟨hc, hlen⟩ := (parseFrames_append b [] c).1 msg rest hp
      rw [messages_cons hp, messages_cons hc, List.prefix_cons_inj]
      exact ih rest.length (by omega) rest rfl
    | incomplete =>
      rw [messages_nil (b := b) fun msg rest hm => by rw [hp] at hm; cases hm]
      exact List.nil_prefix
    | tooLarge =>
      rw [messages_nil (b := b) fun msg rest hm => by rw [hp] at hm; cases hm]
      exact List.nil_prefix

/-! ## Greeting and handshake of a stream -/

def Greeting1 (t : Bytes) : Prop :=
  t.getD 0 0 = 0xFF ∧ t.getD 9 0 = 127 ∧ t.getD 10 0 = 3

def Greeting2 (t : Bytes) : Prop := Bytes.slice t 12 20 = Bytes.slice kZMQGreeting 12 20

/-- The greeting is complete and valid. -/
structure Greeted (t : Bytes) : Prop where
  length : kZMQGreeting.length ≤ t.length
  first : Greeting1 t
  second : Greeting2 t

/-- The size of the handshake that `h` begins with. -/
def handshakeSize (h : Bytes) : Nat := (h.getD 1 0).toNat

/-- The handshake at the start of `h` is complete and valid. -/
structure Shaken (h : Bytes) : Prop where
  header : 2 ≤ h.length
  command : h.getD 0 0 = 4
  min : ¬ handshakeSize h < 18
  length : ¬ h.length < handshakeSize h + 2
  data : Bytes.slice h 2 18 = Bytes.slice kZMQHandshake 2 18

/-- `rest` follows the handshake. -/
structure Session (ok : Writes) (t rest : Bytes) : Prop where
  greeted : Greeted t
  write : ok.handshake = true
  shaken : Shaken (t.drop kZMQGreeting.length)
  rest : rest = (t.drop kZMQGreeting.length).drop (handshakeSize (t.drop kZMQGreeting.length) + 2)

theorem getD_append {t c : Bytes} {i : Nat} (h : i < t.length) :
    (t ++ c).getD i 0 = t.getD i 0 := by
  rw [List.getD_eq_getElem?_getD, List.getD_eq_getElem?_getD, List.getElem?_append_left h]

theorem slice_append {t c : Bytes} {o n : Nat} (h : o + n ≤ t.length) :
    Bytes.slice (t ++ c) o n = Bytes.slice t o n := by
  unfold Bytes.slice
  rw [List.drop_append_of_le_length (by omega), List.take_append_of_le_length]
  rw [List.length_drop]
  omega

theorem greeting1_append {t : Bytes} (h : kZMQGreetingSize1 ≤ t.length) (c : Bytes) :
    Greeting1 (t ++ c) ↔ Greeting1 t := by
  unfold kZMQGreetingSize1 at h
  unfold Greeting1
  rw [getD_append (by omega), getD_append (by omega), getD_append (by omega)]

theorem greeting2_append {t : Bytes} (h : kZMQGreeting.length ≤ t.length) (c : Bytes) :
    Greeting2 (t ++ c) ↔ Greeting2 t := by
  have h64 : kZMQGreeting.length = 64 := rfl
  unfold Greeting2
  rw [slice_append (by omega)]

theorem Greeted.append {t : Bytes} (h : Greeted t) (c : Bytes) : Greeted (t ++ c) := by
  have h64 : kZMQGreeting.length = 64 := rfl
  have hlen := h.length
  refine ⟨?_, (greeting1_append ?_ c).mpr h.first, (greeting2_append hlen c).mpr h.second⟩
  · rw [List.length_append]
    omega
  · unfold kZMQGreetingSize1
    omega

theorem drop_greeting {t : Bytes} (h : kZMQGreeting.length ≤ t.length) (c : Bytes) :
    (t ++ c).drop kZMQGreeting.length = t.drop kZMQGreeting.length ++ c :=
  List.drop_append_of_le_length h

theorem handshakeSize_append {h : Bytes} (hl : 2 ≤ h.length) (c : Bytes) :
    handshakeSize (h ++ c) = handshakeSize h := by
  unfold handshakeSize
  rw [getD_append (by omega)]

theorem Shaken.append {h : Bytes} (hs : Shaken h) (c : Bytes) : Shaken (h ++ c) := by
  have hh := hs.header
  have hm := hs.min
  have hl := hs.length
  refine ⟨?_, ?_, ?_, ?_, ?_⟩
  · rw [List.length_append]
    omega
  · rw [getD_append (by omega)]
    exact hs.command
  · rw [handshakeSize_append hh]
    exact hm
  · rw [handshakeSize_append hh, List.length_append]
    omega
  · rw [slice_append (by omega)]
    exact hs.data

theorem Session.append {ok : Writes} {t rest : Bytes} (h : Session ok t rest) (c : Bytes) :
    Session ok (t ++ c) (rest ++ c) := by
  have hd := drop_greeting h.greeted.length c
  have hl := h.shaken.length
  refine ⟨h.greeted.append c, h.write, ?_, ?_⟩
  · rw [hd]
    exact h.shaken.append c
  · rw [hd, handshakeSize_append h.shaken.header, List.drop_append_of_le_length (by omega), h.rest]

instance (t : Bytes) : Decidable (Greeted t) :=
  decidable_of_iff (kZMQGreeting.length ≤ t.length ∧
    (t.getD 0 0 = 0xFF ∧ t.getD 9 0 = 127 ∧ t.getD 10 0 = 3) ∧
    Bytes.slice t 12 20 = Bytes.slice kZMQGreeting 12 20)
    ⟨fun h => ⟨h.1, h.2.1, h.2.2⟩, fun h => ⟨h.1, h.2, h.3⟩⟩

instance (h : Bytes) : Decidable (Shaken h) :=
  decidable_of_iff (2 ≤ h.length ∧ h.getD 0 0 = 4 ∧ ¬ handshakeSize h < 18 ∧
    ¬ h.length < handshakeSize h + 2 ∧ Bytes.slice h 2 18 = Bytes.slice kZMQHandshake 2 18)
    ⟨fun h => ⟨h.1, h.2.1, h.2.2.1, h.2.2.2.1, h.2.2.2.2⟩, fun h => ⟨h.1, h.2, h.3, h.4, h.5⟩⟩

/-- What follows the handshake, if it is complete and the client's own was written. -/
def session (ok : Writes) (t : Bytes) : Option Bytes :=
  let h := t.drop kZMQGreeting.length
  if Greeted t ∧ ok.handshake ∧ Shaken h then some (h.drop (handshakeSize h + 2)) else none

theorem session_eq_some {ok : Writes} {t rest : Bytes} :
    session ok t = some rest ↔ Session ok t rest := by
  unfold session
  constructor
  · intro h
    simp only at h
    split at h
    · rename_i hg
      cases h
      exact ⟨hg.1, hg.2.1, hg.2.2, rfl⟩
    · cases h
  · intro h
    simp only
    rw [if_pos ⟨h.greeted, h.write, h.shaken⟩, h.rest]

theorem session_append {ok : Writes} {t rest : Bytes} (h : session ok t = some rest) (c : Bytes) :
    session ok (t ++ c) = some (rest ++ c) :=
  session_eq_some.mpr ((session_eq_some.mp h).append c)

/-- The messages of the stream `t`. -/
def acted (ok : Writes) (t : Bytes) : List Bytes := ((session ok t).map messages).getD []

theorem acted_some {ok : Writes} {t rest : Bytes} (h : session ok t = some rest) :
    acted ok t = messages rest := by
  unfold acted
  rw [h]
  rfl

theorem acted_none {ok : Writes} {t : Bytes} (h : session ok t = none) : acted ok t = [] := by
  unfold acted
  rw [h]
  rfl

theorem acted_append (ok : Writes) (t c : Bytes) : acted ok t <+: acted ok (t ++ c) := by
  cases h : session ok t with
  | none =>
    rw [acted_none h]
    exact List.nil_prefix
  | some rest =>
    rw [acted_some h, acted_some (session_append h c)]
    exact messages_append rest c

/-! ## One read before the session -/

/-- The reader before the session, of a socket that is open. -/
inductive Stage (ok : Writes) (t : Bytes) (z : Zmq) : Prop where
  | greeting1 (state : z.state = .GREETING_1) (buf : z.buf = t) (closing : z.closing = false)
  | greeting2 (state : z.state = .GREETING_2) (buf : z.buf = t) (closing : z.closing = false)
      (write : ok.greeting = true) (length : kZMQGreetingSize1 ≤ t.length) (first : Greeting1 t)
  | handshake (state : z.state = .HANDSHAKE) (buf : z.buf = t.drop kZMQGreeting.length)
      (closing : z.closing = false) (write : ok.greeting = true) (write' : ok.handshake = true)
      (greeted : Greeted t)

/-- What a read comes to that ends with the stream `t`. -/
inductive Came (ok : Writes) (t : Bytes) (r : Zmq × List Bytes) : Prop where
  | waits (before : session ok t = none) (out : r.2 = []) (stage : Stage ok t r.1)
  | ended (before : session ok t = none) (out : r.2 = []) (closing : r.1.closing = true)
      (state : r.1.state ≠ .CONNECTED)
      (after : ok.greeting = false ∨ ∀ c, session ok (t ++ c) = none)
  | connected (z : Zmq) (rest : Bytes) (session : session ok t = some rest)
      (state : z.state = .CONNECTED) (buf : z.buf = rest)
      (closing : z.closing = !(ok.greeting && ok.subscribe)) (parse : r = ZMQParse z)

theorem close_closing {z : Zmq} (h : z.state ≠ .NOT_CONNECTED) (h' : z.state ≠ .DISCONNECTING) :
    (close z).closing = true ∧ (close z).state = .DISCONNECTING := by
  unfold close
  rw [if_neg (by rintro (h₁ | h₁); exacts [h h₁, h' h₁])]
  exact ⟨rfl, rfl⟩

/-- What a write changes. -/
theorem write_fields {z : Zmq} (h : z.state ≠ .NOT_CONNECTED) (h' : z.state ≠ .DISCONNECTING)
    (ok : Bool) :
    (write z ok).buf = z.buf ∧ (write z ok).closing = (z.closing || !ok) ∧
      (write z ok).state = if ok then z.state else .DISCONNECTING := by
  unfold Zmq.write close
  cases ok with
  | true => exact ⟨rfl, (Bool.or_false _).symm, rfl⟩
  | false =>
    rw [if_neg Bool.false_ne_true]
    simp only
    rw [if_neg (by rintro (h₁ | h₁); exacts [h h₁, h' h₁])]
    exact ⟨rfl, (Bool.or_true _).symm, rfl⟩

/-- The stream can be no session. -/
theorem Came.invalid {ok : Writes} {t : Bytes} {z : Zmq} (h : z.state ≠ .NOT_CONNECTED)
    (h' : z.state ≠ .DISCONNECTING) (hno : ∀ c rest, ¬ Session ok (t ++ c) rest) :
    Came ok t (close z, []) := by
  have hnone : ∀ c, session ok (t ++ c) = none := by
    intro c
    refine Option.eq_none_iff_forall_ne_some.mpr fun rest hs => ?_
    exact hno c rest (session_eq_some.mp hs)
  have h0 := hnone []
  rw [List.append_nil] at h0
  obtain ⟨hc, hs⟩ := close_closing h h'
  exact .ended h0 rfl hc (by rw [hs]; decide) (.inr hnone)

/-- Not all of the stream is there. -/
theorem Came.short {ok : Writes} {t : Bytes} {z : Zmq} (hno : ∀ rest, ¬ Session ok t rest)
    (hclosing : z.closing = !ok.greeting) (hstate : z.state ≠ .CONNECTED)
    (hstage : ok.greeting = true → Stage ok t z) : Came ok t (z, []) := by
  have hnone : session ok t = none :=
    Option.eq_none_iff_forall_ne_some.mpr fun rest hs => hno rest (session_eq_some.mp hs)
  cases hg : ok.greeting with
  | true => exact .waits hnone rfl (hstage hg)
  | false =>
    rw [hg] at hclosing
    exact .ended hnone rfl hclosing hstate (.inl hg)

theorem handshake_came {ok : Writes} {t : Bytes} {z : Zmq} (hstate : z.state = .HANDSHAKE)
    (hbuf : z.buf = t.drop kZMQGreeting.length) (hclosing : z.closing = !ok.greeting)
    (hwrite : ok.handshake = true) (hg : Greeted t) : Came ok t (handshake ok z) := by
  have hn : z.state ≠ .NOT_CONNECTED := by rw [hstate]; decide
  have hd : z.state ≠ .DISCONNECTING := by rw [hstate]; decide
  have hc : z.state ≠ .CONNECTED := by rw [hstate]; decide
  have hstage : ok.greeting = true → Stage ok t z := by
    intro hok
    refine .handshake hstate hbuf ?_ hok hwrite hg
    rw [hclosing, hok]
    rfl
  have hdrop : ∀ c, (t ++ c).drop kZMQGreeting.length = z.buf ++ c := by
    intro c
    rw [drop_greeting hg.length, hbuf]
  unfold Zmq.handshake
  by_cases hlen : 2 ≤ z.buf.length
  · rw [if_pos hlen]
    by_cases h4 : z.buf.getD 0 0 ≠ 4
    · rw [if_pos h4]
      refine .invalid hn hd fun c rest hs => h4 ?_
      have := hs.shaken.command
      rw [hdrop, getD_append (by omega)] at this
      exact this
    · rw [if_neg h4]
      simp only
      by_cases h18 : (z.buf.getD 1 0).toNat < 18
      · rw [if_pos h18]
        refine .invalid hn hd fun c rest hs => hs.shaken.min ?_
        rw [hdrop, handshakeSize_append hlen]
        exact h18
      · rw [if_neg h18]
        by_cases hsize : z.buf.length < (z.buf.getD 1 0).toNat + 2
        · rw [if_pos hsize]
          refine .short (fun rest hs => hs.shaken.length ?_) hclosing hc hstage
          rw [← hbuf]
          exact hsize
        · rw [if_neg hsize]
          by_cases hdata : Bytes.slice z.buf 2 18 ≠ Bytes.slice kZMQHandshake 2 18
          · rw [if_pos hdata]
            refine .invalid hn hd fun c rest hs => hdata ?_
            have := hs.shaken.data
            rw [hdrop, slice_append (by omega)] at this
            exact this
          · rw [if_neg hdata]
            refine .connected _ _ (session_eq_some.mpr ⟨hg, hwrite, ?_, rfl⟩) rfl ?_ ?_ rfl
            · rw [← hbuf]
              exact ⟨hlen, not_not.mp h4, h18, hsize, not_not.mp hdata⟩
            · rw [← hbuf]
              show (write z ok.subscribe).buf.drop _ = _
              rw [(write_fields hn hd ok.subscribe).1]
              rfl
            · show (write z ok.subscribe).closing = _
              rw [(write_fields hn hd ok.subscribe).2.1, hclosing, Bool.not_and]
  · rw [if_neg hlen]
    refine .short (fun rest hs => hlen ?_) hclosing hc hstage
    rw [hbuf]
    exact hs.shaken.header

/-- The client's handshake is written. -/
theorem shake_came {ok : Writes} {t : Bytes} {z : Zmq} (hstate : z.state = .HANDSHAKE)
    (hbuf : z.buf = t.drop kZMQGreeting.length) (hclosing : z.closing = !ok.greeting)
    (hg : Greeted t) :
    Came ok t (let z := write z ok.handshake
      if z.state = .HANDSHAKE then handshake ok z else (z, [])) := by
  have hn : z.state ≠ .NOT_CONNECTED := by rw [hstate]; decide
  have hd : z.state ≠ .DISCONNECTING := by rw [hstate]; decide
  obtain ⟨hb, hcl, hst⟩ := write_fields hn hd ok.handshake
  simp only
  cases hok : ok.handshake with
  | true =>
    rw [hok, if_pos rfl, hstate] at hst
    rw [hok, Bool.not_true, Bool.or_false] at hcl
    rw [hok] at hb
    rw [if_pos hst]
    exact handshake_came hst (hb.trans hbuf) (hcl.trans hclosing) hok hg
  | false =>
    rw [hok, if_neg Bool.false_ne_true] at hst
    rw [hok, Bool.not_false, Bool.or_true] at hcl
    rw [if_neg (by rw [hst]; decide)]
    have hnone : ∀ c, session ok (t ++ c) = none := by
      intro c
      refine Option.eq_none_iff_forall_ne_some.mpr fun rest hs => ?_
      have := (session_eq_some.mp hs).write
      rw [hok] at this
      cases this
    have h0 := hnone []
    rw [List.append_nil] at h0
    refine .ended h0 rfl hcl ?_ (.inr hnone)
    show (write z false).state ≠ _
    rw [hst]
    decide

theorem greeting2_came {ok : Writes} {t : Bytes} {z : Zmq} (hstate : z.state = .GREETING_2)
    (hbuf : z.buf = t) (hclosing : z.closing = !ok.greeting)
    (hlen : kZMQGreetingSize1 ≤ t.length) (hfirst : Greeting1 t) : Came ok t (greeting2 ok z) := by
  have hn : z.state ≠ .NOT_CONNECTED := by rw [hstate]; decide
  have hd : z.state ≠ .DISCONNECTING := by rw [hstate]; decide
  have hc : z.state ≠ .CONNECTED := by rw [hstate]; decide
  unfold greeting2
  by_cases h64 : kZMQGreeting.length ≤ t.length
  · rw [if_pos (by rw [hbuf]; exact h64)]
    by_cases hsecond : Bytes.slice t 12 20 = Bytes.slice kZMQGreeting 12 20
    · rw [if_pos (by rw [hbuf]; exact hsecond)]
      refine shake_came rfl ?_ hclosing ⟨h64, hfirst, hsecond⟩
      rw [← hbuf]
      rfl
    · rw [if_neg (by rw [hbuf]; exact hsecond)]
      refine .invalid hn hd fun c rest hs => hsecond ?_
      exact (greeting2_append h64 c).mp hs.greeted.second
  · rw [if_neg (by rw [hbuf]; exact h64)]
    refine .short (fun rest hs => h64 hs.greeted.length) hclosing hc fun hok => ?_
    refine .greeting2 hstate hbuf ?_ hok hlen hfirst
    rw [hclosing, hok]
    rfl

theorem greeting1_came {ok : Writes} {t : Bytes} {z : Zmq} (hstate : z.state = .GREETING_1)
    (hbuf : z.buf = t) (hclosing : z.closing = false) : Came ok t (greeting1 ok z) := by
  have hn : z.state ≠ .NOT_CONNECTED := by rw [hstate]; decide
  have hd : z.state ≠ .DISCONNECTING := by rw [hstate]; decide
  have hsize : kZMQGreetingSize1 ≤ kZMQGreeting.length := by decide
  unfold greeting1
  rw [hbuf]
  by_cases hlen : kZMQGreetingSize1 ≤ t.length
  · rw [if_pos hlen]
    by_cases hfirst : t.getD 0 0 = 0xFF ∧ t.getD 9 0 = 127 ∧ t.getD 10 0 = 3
    · rw [if_pos hfirst]
      obtain ⟨hb, hcl, -⟩ := write_fields hn hd ok.greeting
      refine greeting2_came rfl (hb.trans hbuf) ?_ hlen hfirst
      show (write z ok.greeting).closing = _
      rw [hcl, hclosing]
      rfl
    · rw [if_neg hfirst]
      exact .invalid hn hd fun c rest hs => hfirst ((greeting1_append hlen c).mp hs.greeted.first)
  · rw [if_neg hlen]
    have hnone : session ok t = none := by
      refine Option.eq_none_iff_forall_ne_some.mpr fun rest hs => hlen ?_
      exact hsize.trans (session_eq_some.mp hs).greeted.length
    exact .waits hnone rfl (.greeting1 hstate hbuf hclosing)

/-- **One read** before the session. -/
theorem read_came {ok : Writes} {t : Bytes} {z : Zmq} (h : Stage ok t z) (c : Bytes) :
    Came ok (t ++ c) (ZMQRead ok z c) := by
  unfold ZMQRead loop
  cases h with
  | greeting1 hstate hbuf hclosing =>
    rw [if_neg (by rw [hclosing]; exact Bool.false_ne_true)]
    simp only [hstate]
    exact greeting1_came rfl (by rw [hbuf]) hclosing
  | greeting2 hstate hbuf hclosing hwrite hlen hfirst =>
    rw [if_neg (by rw [hclosing]; exact Bool.false_ne_true)]
    simp only [hstate]
    refine greeting2_came rfl (by rw [hbuf]) (by rw [hwrite]; exact hclosing) ?_
      ((greeting1_append hlen c).mpr hfirst)
    rw [List.length_append]
    omega
  | handshake hstate hbuf hclosing hwrite hwrite' hg =>
    rw [if_neg (by rw [hclosing]; exact Bool.false_ne_true)]
    simp only [hstate]
    refine handshake_came rfl ?_ (by rw [hwrite]; exact hclosing) hwrite' (hg.append c)
    rw [hbuf, drop_greeting hg.length]

/-! ## One message -/

/-- `buf` is what is left of `rest` when the messages `taken` are taken. -/
def Left (taken : List Bytes) (rest buf : Bytes) : Prop :=
  ∀ c, messages (rest ++ c) = taken ++ messages (buf ++ c)

theorem Left.append {taken : List Bytes} {rest buf : Bytes} (h : Left taken rest buf) (c : Bytes) :
    Left taken (rest ++ c) (buf ++ c) := by
  intro d
  rw [List.append_assoc, List.append_assoc]
  exact h (c ++ d)

theorem Left.all {taken : List Bytes} {rest buf : Bytes} (h : Left taken rest buf) :
    messages rest = taken ++ messages buf := by
  have := h []
  rw [List.append_nil, List.append_nil] at this
  exact this

/-- **One message** is taken, if there is one; if there was no other, none is left. -/
theorem parse_spec {taken : List Bytes} {rest : Bytes} {z : Zmq} (h : Left taken rest z.buf)
    (hstate : z.state = .CONNECTED) (hone : (messages rest).length ≤ 1) :
    messages rest = taken ++ (ZMQParse z).2 ∧
      ((ZMQParse z).1.closing = z.closing ∧ (ZMQParse z).1.state = .CONNECTED ∧
          Left (messages rest) rest (ZMQParse z).1.buf ∧ Drained (ZMQParse z).1.buf ∨
        (ZMQParse z).1.closing = true ∧ (ZMQParse z).1.state ≠ .CONNECTED ∧
          ∀ c, messages (rest ++ c) = messages rest) := by
  have hn : z.state ≠ .NOT_CONNECTED := by rw [hstate]; decide
  have hd : z.state ≠ .DISCONNECTING := by rw [hstate]; decide
  unfold ZMQParse
  cases hp : parseFrames z.buf [] with
  | incomplete =>
    have hdr : Drained z.buf := by
      intro msg rest hm
      rw [hp] at hm
      cases hm
    have hall : messages rest = taken ++ [] := by
      rw [h.all, drained_iff.mp hdr]
    refine ⟨hall, .inl ⟨rfl, hstate, ?_, hdr⟩⟩
    rw [hall, List.append_nil]
    exact h
  | tooLarge =>
    have hdr : messages z.buf = [] := by
      have := messages_tooLarge hp []
      rw [List.append_nil] at this
      exact this
    have hall : messages rest = taken := by
      rw [h.all, hdr, List.append_nil]
    obtain ⟨hc, hs⟩ := close_closing hn hd
    refine ⟨hall.trans (List.append_nil _).symm, .inr ⟨hc, ?_, fun c => ?_⟩⟩
    · show (close z).state ≠ _
      rw [hs]
      decide
    · rw [h c, messages_tooLarge hp, List.append_nil, hall]
  | message msg rest' =>
    have hall : messages rest = taken ++ msg :: messages rest' := by
      rw [h.all, messages_cons hp]
    rw [hall, List.length_append, List.length_cons] at hone
    have htaken : taken = [] := List.length_eq_zero_iff.mp (by omega)
    have hrest : messages rest' = [] := List.length_eq_zero_iff.mp (by omega)
    rw [hrest] at hall
    refine ⟨hall, .inl ⟨rfl, hstate, fun c => ?_, drained_iff.mpr hrest⟩⟩
    obtain ⟨hc, -⟩ := (parseFrames_append z.buf [] c).1 msg rest' hp
    rw [h c, messages_cons hc, hall, List.append_assoc]
    rfl

/-! ## All reads -/

/-- The reader when the socket is connected; `buf` is what an earlier connection left
in the buffer.
mirrors src/base/net/stratum/DaemonClient.cpp:702-715 -/
def connected (buf : Bytes) : Zmq := { state := .GREETING_1, buf := buf }

/-- The stream in reads; a read of no bytes is an error. -/
def Split (s : Bytes) (cs : List Bytes) : Prop := cs.flatten = s ∧ ∀ c ∈ cs, c ≠ []

/-- The messages acted on are the same for all splits, and no read ends in the
connected state with a complete message in the buffer. -/
structure Independent (ok : Writes) (buf s : Bytes) : Prop where
  same : ∀ cs cs', Split s cs → Split s cs' →
    (Chunked.feed (ZMQRead ok) (connected buf) cs).2 =
      (Chunked.feed (ZMQRead ok) (connected buf) cs').2
  drained : ∀ p cs, p <+: s → Split p cs → cs ≠ [] →
    (Chunked.feed (ZMQRead ok) (connected buf) cs).1.state = .CONNECTED →
      Drained (Chunked.feed (ZMQRead ok) (connected buf) cs).1.buf

/-- Of the stream, behind what is in the buffer, there is at most one message; if there
is one, no write fails, or it comes with the first byte that is read. -/
def Steady (ok : Writes) (buf s : Bytes) : Prop :=
  s = [] ∨ acted ok (buf ++ s) = [] ∨ (acted ok (buf ++ s)).length = 1 ∧
    (ok.greeting = true ∧ ok.subscribe = true ∨ acted ok (buf ++ s.take 1) ≠ [])

section
variable {ok : Writes}

/-- The streams of which nothing is lost in any split: those of one message without a
failed write, and those without a message. -/
def Safe (ok : Writes) (t : Bytes) : Prop :=
  (acted ok t).length ≤ 1 ∧ (ok.greeting = true ∧ ok.subscribe = true ∨ acted ok t = [])

theorem safe_before (t c : Bytes) (h : Safe ok (t ++ c)) : Safe ok t := by
  have hp := acted_append ok t c
  obtain ⟨hl, ha⟩ := h
  refine ⟨hp.length_le.trans hl, ha.imp_right fun h0 => ?_⟩
  rw [h0] at hp
  exact List.prefix_nil.mp hp

/-- The reader after the reads of `t`. -/
inductive Reader (ok : Writes) (t : Bytes) (z : Zmq) : Prop where
  | waits (before : session ok t = none) (stage : Stage ok t z)
  | reads (rest : Bytes) (session : session ok t = some rest) (state : z.state = .CONNECTED)
      (closing : z.closing = false) (left : Left (messages rest) rest z.buf)
      (drained : Drained z.buf)
  | ended (closing : z.closing = true) (drained : z.state = .CONNECTED → Drained z.buf)
      (after : ∀ c, Safe ok (t ++ c) → acted ok (t ++ c) = acted ok t)

/-- A message is read in the session `rest`. -/
theorem reader_parse {t rest : Bytes} {taken : List Bytes} {z : Zmq} (hsafe : Safe ok t)
    (hsession : session ok t = some rest) (hstate : z.state = .CONNECTED)
    (hleft : Left taken rest z.buf)
    (hclosing : z.closing = true → ¬ (ok.greeting = true ∧ ok.subscribe = true)) :
    messages rest = taken ++ (ZMQParse z).2 ∧ Reader ok t (ZMQParse z).1 := by
  have hone := hsafe.1
  rw [acted_some hsession] at hone
  obtain ⟨hall, ⟨hc, hs, hl, hd⟩ | ⟨hc, hs, hafter⟩⟩ := parse_spec hleft hstate hone
  · refine ⟨hall, ?_⟩
    cases hz : z.closing with
    | false => exact .reads rest hsession hs (hc.trans hz) hl hd
    | true =>
      refine .ended (hc.trans hz) (fun _ => hd) fun c hsafe' => ?_
      have h0 := hsafe'.2.resolve_left (hclosing hz)
      have h0' := hsafe.2.resolve_left (hclosing hz)
      rw [h0, h0']
  · refine ⟨hall, .ended hc (fun h => absurd h hs) fun c _ => ?_⟩
    rw [acted_some hsession, acted_some (session_append hsession c)]
    exact hafter c

theorem closing_iff {b : Bool} (h : b = !(ok.greeting && ok.subscribe)) (hb : b = true) :
    ¬ (ok.greeting = true ∧ ok.subscribe = true) := by
  rintro ⟨h₁, h₂⟩
  rw [h₁, h₂] at h
  rw [h] at hb
  cases hb

/-- **One read** of a safe stream. -/
theorem follows : Chunked.Follows (ZMQRead ok) (acted ok) (Safe ok) (Reader ok) where
  before t c h := safe_before t c h
  step t z c hr hsafe := by
    cases hr with
    | waits hbefore hstage =>
      rw [acted_none hbefore, List.nil_append]
      cases read_came hstage c with
      | waits hnone hout hstage' =>
        rw [hout, acted_none hnone]
        exact ⟨rfl, .waits hnone hstage'⟩
      | ended hnone hout hclosing hstate hafter =>
        rw [hout, acted_none hnone]
        refine ⟨rfl, .ended hclosing (fun h => absurd h hstate) fun d hsafe' => ?_⟩
        rw [acted_none hnone]
        rcases hafter with hg | hafter
        · refine hsafe'.2.resolve_left ?_
          rintro ⟨hg', -⟩
          rw [hg] at hg'
          cases hg'
        · exact acted_none (hafter d)
      | connected z' rest hsession hstate hbuf hclosing hparse =>
        have hleft : Left [] rest z'.buf := fun d => by rw [hbuf, List.nil_append]
        obtain ⟨hall, hreader⟩ :=
          reader_parse hsafe hsession hstate hleft (closing_iff hclosing)
        rw [List.nil_append] at hall
        rw [hparse, acted_some hsession]
        exact ⟨hall, hreader⟩
    | reads rest hsession hstate hclosing hleft hdrained =>
      have hread : ZMQRead ok z c = ZMQParse { z with buf := z.buf ++ c } := by
        unfold ZMQRead loop
        rw [if_neg (by rw [hclosing]; exact Bool.false_ne_true)]
        simp only [hstate]
      have hsession' := session_append hsession c
      obtain ⟨hall, hreader⟩ := reader_parse (z := { z with buf := z.buf ++ c }) hsafe hsession'
        hstate (hleft.append c) fun h => by
          have h : z.closing = true := h
          rw [hclosing] at h
          cases h
      rw [hread, acted_some hsession, acted_some hsession']
      exact ⟨hall, hreader⟩
    | ended hclosing hdrained hafter =>
      have hread : ZMQRead ok z c = (z, []) := if_pos hclosing
      rw [hread, hafter c hsafe, List.append_nil]
      refine ⟨rfl, .ended hclosing hdrained fun d hsafe' => ?_⟩
      have hsafe'' := safe_before (t ++ c) d hsafe'
      rw [List.append_assoc] at hsafe' ⊢
      rw [hafter _ hsafe', hafter c hsafe'']

theorem Reader.drained {t : Bytes} {z : Zmq} (h : Reader ok t z) (hs : z.state = .CONNECTED) :
    Drained z.buf := by
  cases h with
  | waits _ hstage =>
    cases hstage with
    | greeting1 hstate => rw [hs] at hstate; cases hstate
    | greeting2 hstate => rw [hs] at hstate; cases hstate
    | handshake hstate => rw [hs] at hstate; cases hstate
  | reads _ _ _ _ _ hd => exact hd
  | ended _ hd _ => exact hd hs

/-- The first read takes what is in the buffer along. -/
theorem feed_connected (buf c : Bytes) (cs : List Bytes) :
    Chunked.feed (ZMQRead ok) (connected buf) (c :: cs) =
      Chunked.feed (ZMQRead ok) (connected []) ((buf ++ c) :: cs) := rfl

/-- A safe stream gives its messages in every split. -/
theorem feed_safe {buf p : Bytes} {cs : List Bytes} (hsafe : Safe ok (buf ++ p))
    (hsplit : Split p cs) (hne : cs ≠ []) :
    (Chunked.feed (ZMQRead ok) (connected buf) cs).2 = acted ok (buf ++ p) ∧
      ((Chunked.feed (ZMQRead ok) (connected buf) cs).1.state = .CONNECTED →
        Drained (Chunked.feed (ZMQRead ok) (connected buf) cs).1.buf) := by
  obtain ⟨c, cs, rfl⟩ := List.exists_cons_of_ne_nil hne
  have hflat : ((buf ++ c) :: cs).flatten = buf ++ p := by
    rw [← hsplit.1, List.flatten_cons, List.flatten_cons, List.append_assoc]
  have hnone : session ok [] = none := by
    unfold session
    exact if_neg fun h => absurd h.1.length (by decide)
  have hstart : Reader ok [] (connected []) := .waits hnone (.greeting1 rfl rfl rfl)
  have hf := follows.feed ((buf ++ c) :: cs) hstart (by rw [List.nil_append, hflat]; exact hsafe)
  rw [List.nil_append, hflat, acted_none hnone, List.nil_append] at hf
  rw [feed_connected]
  exact ⟨hf.1.symm, hf.2.drained⟩

/-- Nothing is read from a socket that is closing. -/
theorem feed_closing {z : Zmq} (h : z.closing = true) (cs : List Bytes) :
    Chunked.feed (ZMQRead ok) z cs = (z, []) := by
  induction cs with
  | nil => rfl
  | cons c cs ih =>
    have hread : ZMQRead ok z c = (z, []) := if_pos h
    unfold Chunked.feed
    simp only [hread, ih, List.append_nil]

/-- A read that ends in the session takes a message, if there is one; a socket that a
failed write has closed is closing then. -/
theorem read_session {buf c rest : Bytes} (h : session ok (buf ++ c) = some rest) :
    ∃ z, z.state = .CONNECTED ∧ z.buf = rest ∧
      z.closing = (!(ok.greeting && ok.subscribe)) ∧
      ZMQRead ok (connected buf) c = ZMQParse z := by
  have hstage : Stage ok buf (connected buf) := .greeting1 rfl rfl rfl
  cases read_came hstage c with
  | waits hnone => rw [h] at hnone; cases hnone
  | ended hnone => rw [h] at hnone; cases hnone
  | connected z rest' hsession hstate hbuf hclosing hparse =>
    rw [h] at hsession
    cases hsession
    exact ⟨z, hstate, hbuf, hclosing, hparse⟩

theorem parse_closing {z : Zmq} (h : z.closing = true) : (ZMQParse z).1.closing = true := by
  unfold ZMQParse
  split
  · exact h
  · show (close z).closing = true
    unfold close
    split
    · exact h
    · rfl
  · exact h

theorem exists_session {t : Bytes} (h : acted ok t ≠ []) : ∃ rest, session ok t = some rest := by
  cases hs : session ok t with
  | none => exact absurd (acted_none hs) h
  | some rest => exact ⟨rest, rfl⟩

/-- The message comes with the first byte: the first read takes it. -/
theorem feed_early {buf s p : Bytes} {cs : List Bytes} (hone : (acted ok (buf ++ s)).length = 1)
    (hearly : acted ok (buf ++ s.take 1) ≠ []) (hfails : ¬ (ok.greeting = true ∧ ok.subscribe = true))
    (hp : p <+: s) (hsplit : Split p cs) (hne : cs ≠ []) :
    (Chunked.feed (ZMQRead ok) (connected buf) cs).2 = acted ok (buf ++ s) ∧
      ((Chunked.feed (ZMQRead ok) (connected buf) cs).1.state = .CONNECTED →
        Drained (Chunked.feed (ZMQRead ok) (connected buf) cs).1.buf) := by
  obtain ⟨c, cs, rfl⟩ := List.exists_cons_of_ne_nil hne
  obtain ⟨d, rfl⟩ := hp
  obtain ⟨hflat, hnil⟩ := hsplit
  rw [List.flatten_cons] at hflat
  -- the first read has the first byte
  obtain ⟨b, c, rfl⟩ := List.exists_cons_of_ne_nil (hnil c List.mem_cons_self)
  have htake : (p ++ d).take 1 = [b] := by
    rw [← hflat]
    rfl
  rw [htake] at hearly
  have hmono := acted_append ok (buf ++ [b]) c
  have hmono' := acted_append ok (buf ++ b :: c) (cs.flatten ++ d)
  have hassoc : buf ++ [b] ++ c = buf ++ b :: c := by rw [List.append_assoc]; rfl
  have hassoc' : buf ++ b :: c ++ (cs.flatten ++ d) = buf ++ (p ++ d) := by
    rw [← hflat, List.append_assoc, List.append_assoc]
  rw [hassoc] at hmono
  rw [hassoc'] at hmono'
  have hpos := List.length_pos_iff.mpr hearly
  have hle := hmono.length_le
  have hsame : acted ok (buf ++ b :: c) = acted ok (buf ++ (p ++ d)) :=
    hmono'.eq_of_length (by have := hmono'.length_le; omega)
  obtain ⟨rest, hsession⟩ := exists_session (t := buf ++ b :: c) (by
    rw [hsame]
    exact List.ne_nil_of_length_pos (by omega))
  obtain ⟨z, hstate, hbuf, hclosing, hread⟩ := read_session hsession
  have hclosing' : z.closing = true := by
    rw [hclosing, Bool.not_eq_true', Bool.and_eq_false_iff]
    by_contra hno
    rw [not_or, Bool.not_eq_false, Bool.not_eq_false] at hno
    exact hfails hno
  have hleft : Left [] rest z.buf := fun e => by rw [hbuf, List.nil_append]
  have hlen : (messages rest).length ≤ 1 := by
    rw [← acted_some hsession, hsame]
    omega
  obtain ⟨hall, hrest⟩ := parse_spec hleft hstate hlen
  rw [List.nil_append] at hall
  unfold Chunked.feed
  simp only [hread, feed_closing (parse_closing hclosing'), List.append_nil]
  refine ⟨?_, fun hs => ?_⟩
  · rw [← hall, ← acted_some hsession, hsame]
  · rcases hrest with ⟨-, -, -, hd⟩ | ⟨-, hs', -⟩
    · exact hd
    · exact absurd hs hs'

/-- What every split of a steady stream gives. -/
theorem feed_steady {buf s p : Bytes} {cs : List Bytes} (h : Steady ok buf s) (hp : p <+: s)
    (hsplit : Split p cs) (hne : cs ≠ []) :
    (p = s → (Chunked.feed (ZMQRead ok) (connected buf) cs).2 = acted ok (buf ++ s)) ∧
      ((Chunked.feed (ZMQRead ok) (connected buf) cs).1.state = .CONNECTED →
        Drained (Chunked.feed (ZMQRead ok) (connected buf) cs).1.buf) := by
  have hsafe : Safe ok (buf ++ s) →
      (p = s → (Chunked.feed (ZMQRead ok) (connected buf) cs).2 = acted ok (buf ++ s)) ∧
        ((Chunked.feed (ZMQRead ok) (connected buf) cs).1.state = .CONNECTED →
          Drained (Chunked.feed (ZMQRead ok) (connected buf) cs).1.buf) := by
    intro hs
    obtain ⟨d, rfl⟩ := hp
    rw [← List.append_assoc] at hs
    obtain ⟨hf, hd⟩ := feed_safe (safe_before _ _ hs) hsplit hne
    exact ⟨fun he => he ▸ hf, hd⟩
  rcases h with rfl | h0 | ⟨hone, hw | hearly⟩
  · obtain ⟨c, cs, rfl⟩ := List.exists_cons_of_ne_nil hne
    have hflat := hsplit.1
    rw [List.prefix_nil.mp hp, List.flatten_cons] at hflat
    exact absurd (List.append_eq_nil_iff.mp hflat).1 (hsplit.2 c List.mem_cons_self)
  · exact hsafe ⟨by rw [h0]; exact Nat.zero_le _, .inr h0⟩
  · exact hsafe ⟨Nat.le_of_eq hone, .inl hw⟩
  · by_cases hw : ok.greeting = true ∧ ok.subscribe = true
    · exact hsafe ⟨Nat.le_of_eq hone, .inl hw⟩
    · obtain ⟨hf, hd⟩ := feed_early hone hearly hw hp hsplit hne
      exact ⟨fun _ => hf, hd⟩

theorem split_nil {s : Bytes} {cs : List Bytes} (h : Split s cs) : cs = [] ↔ s = [] := by
  constructor
  · rintro rfl
    exact h.1.symm
  · rintro rfl
    cases cs with
    | nil => rfl
    | cons c cs =>
      have hflat := h.1
      rw [List.flatten_cons] at hflat
      exact absurd (List.append_eq_nil_iff.mp hflat).1 (h.2 c List.mem_cons_self)

theorem independent_of_steady {buf s : Bytes} (h : Steady ok buf s) : Independent ok buf s where
  same cs cs' hcs hcs' := by
    by_cases h0 : s = []
    · rw [(split_nil hcs).mpr h0, (split_nil hcs').mpr h0]
    · rw [(feed_steady h (List.prefix_refl s) hcs fun hn => h0 ((split_nil hcs).mp hn)).1 rfl,
        (feed_steady h (List.prefix_refl s) hcs' fun hn => h0 ((split_nil hcs').mp hn)).1 rfl]
  drained p cs hp hsplit hne := (feed_steady h hp hsplit hne).2

/-- The handshake was complete before the last byte of a session that has bytes. -/
theorem session_concat {t rest : Bytes} {b : UInt8} (h : session ok (t ++ [b]) = some rest)
    (hrest : rest ≠ []) : ∃ rest, session ok t = some rest := by
  obtain ⟨hg, hw, hs, hr⟩ := session_eq_some.mp h
  have hgl := hg.length
  have hlen := hs.length
  have hpos := List.length_pos_iff.mpr hrest
  rw [hr, List.length_drop] at hpos
  rw [List.length_append, List.length_singleton] at hgl
  rw [List.length_drop, List.length_append, List.length_singleton] at hpos hlen
  have h64 : kZMQGreeting.length = 64 := rfl
  have hl : kZMQGreeting.length ≤ t.length := by
    have := hs.header
    rw [List.length_drop, List.length_append, List.length_singleton] at this
    omega
  have hdrop := drop_greeting hl [b]
  have hmin := hs.min
  have hhl : (t.drop kZMQGreeting.length).length = t.length - kZMQGreeting.length := List.length_drop
  have hsize : handshakeSize (t.drop kZMQGreeting.length ++ [b]) =
      handshakeSize (t.drop kZMQGreeting.length) := by
    refine handshakeSize_append ?_ [b]
    rw [hdrop] at hpos hmin
    omega
  rw [hdrop, hsize] at hpos hlen hmin
  have hcommand := hs.command
  have hdata := hs.data
  rw [hdrop, getD_append (by omega)] at hcommand
  rw [hdrop, slice_append (by omega)] at hdata
  refine ⟨_, session_eq_some.mpr ⟨⟨hl, ?_, ?_⟩, hw, ⟨by omega, hcommand, hmin, by omega, hdata⟩, rfl⟩⟩
  · refine (greeting1_append ?_ [b]).mp hg.first
    unfold kZMQGreetingSize1
    omega
  · exact (greeting2_append hl [b]).mp hg.second

/-- The first messages come with one byte. -/
theorem exists_first {buf s : Bytes} (h : acted ok (buf ++ s) ≠ [])
    (h1 : acted ok (buf ++ s.take 1) = []) :
    ∃ k, 1 ≤ k ∧ k < s.length ∧ acted ok (buf ++ s.take k) = [] ∧
      acted ok (buf ++ s.take (k + 1)) ≠ [] := by
  have hex : ∃ m, acted ok (buf ++ s.take m) ≠ [] := by
    refine ⟨s.length, ?_⟩
    rw [List.take_length]
    exact h
  have hm := Nat.find_spec hex
  have hmin : ∀ k, k < Nat.find hex → acted ok (buf ++ s.take k) = [] :=
    fun k hk => not_not.mp (Nat.find_min hex hk)
  generalize Nat.find hex = m at hm hmin
  have h0 : m ≠ 0 := by
    rintro rfl
    have hp := acted_append ok (buf ++ s.take 0) (s.take 1)
    rw [List.take_zero, List.append_nil] at hp hm
    rw [h1] at hp
    exact hm (List.prefix_nil.mp hp)
  have hone : m ≠ 1 := by
    rintro rfl
    exact hm h1
  have hlt : m - 1 < s.length := by
    by_contra hge
    have hall := hmin (m - 1) (by omega)
    rw [List.take_of_length_le (by omega)] at hall
    exact h hall
  refine ⟨m - 1, by omega, hlt, hmin (m - 1) (by omega), ?_⟩
  rw [Nat.sub_add_cancel (by omega)]
  exact hm

theorem steady_of_independent {buf s : Bytes} (h : Independent ok buf s) : Steady ok buf s := by
  by_contra hno
  unfold Steady at hno
  rw [not_or, not_or] at hno
  obtain ⟨hs, hacted, hno⟩ := hno
  have hwhole : Split s [s] :=
    ⟨by rw [List.flatten_singleton], fun c hc => (List.mem_singleton.mp hc) ▸ hs⟩
  obtain ⟨rest, hsession⟩ := exists_session hacted
  obtain ⟨z, hstate, hbuf, hclosing, hread⟩ := read_session hsession
  rw [acted_some hsession] at hacted
  -- all bytes in one read: one message is taken, and no other is left
  obtain ⟨msg, rest', hp⟩ : ∃ msg rest', parseFrames rest [] = .message msg rest' := by
    by_contra hnot
    exact hacted (messages_nil fun msg rest' hm => hnot ⟨msg, rest', hm⟩)
  have hparse : ZMQParse z = ({ z with buf := rest' }, [msg]) := by
    unfold ZMQParse
    rw [hbuf, hp]
  have hfeed : Chunked.feed (ZMQRead ok) (connected buf) [s] = ({ z with buf := rest' }, [msg]) := by
    unfold Chunked.feed Chunked.feed
    simp only [hread, hparse, List.append_nil]
  have hdrained := h.drained s [s] (List.prefix_refl s) hwhole (List.cons_ne_nil _ _)
  rw [hfeed] at hdrained
  have hrest := drained_iff.mp (hdrained hstate)
  have hone : (acted ok (buf ++ s)).length = 1 := by
    rw [acted_some hsession, messages_cons hp, hrest]
    rfl
  rw [not_and, not_or, not_not] at hno
  obtain ⟨hfails, hfirst⟩ := hno hone
  -- the last byte of the message in a read of its own: the socket is closing before
  obtain ⟨k, hk, hlt, hnone, hsome⟩ := exists_first (by rw [acted_some hsession]; exact hacted) hfirst
  rw [List.take_succ_eq_append_getElem hlt, ← List.append_assoc] at hsome
  obtain ⟨rest₁, hs₁⟩ := exists_session hsome
  have hne₁ : rest₁ ≠ [] := by
    rintro rfl
    refine hsome ?_
    rw [acted_some hs₁]
    refine messages_nil fun m r hm => ?_
    rw [parseFrames] at hm
    cases hm
  obtain ⟨rest₀, hs₀⟩ := session_concat hs₁ hne₁
  obtain ⟨z₀, hst₀, hb₀, hc₀, hread₀⟩ := read_session hs₀
  rw [acted_some hs₀] at hnone
  have hclosing₀ : z₀.closing = true := by
    rw [hc₀, Bool.not_eq_true', Bool.and_eq_false_iff]
    by_contra hno
    rw [not_or, Bool.not_eq_false, Bool.not_eq_false] at hno
    exact hfails hno
  have hout : (ZMQParse z₀).2 = [] := by
    have hleft : Left [] rest₀ z₀.buf := fun e => by rw [hb₀, List.nil_append]
    have hall := (parse_spec hleft hst₀ (by rw [hnone]; exact Nat.zero_le _)).1
    rw [hnone, List.nil_append] at hall
    exact hall.symm
  have hsplit : Split s [s.take k, s.drop k] := by
    refine ⟨?_, fun c hc => ?_⟩
    · rw [List.flatten_cons, List.flatten_singleton, List.take_append_drop]
    · rcases List.mem_cons.mp hc with rfl | hc
      · refine List.ne_nil_of_length_pos ?_
        rw [List.length_take]
        omega
      · rw [List.mem_singleton.mp hc]
        refine List.ne_nil_of_length_pos ?_
        rw [List.length_drop]
        omega
  have hfeed' : (Chunked.feed (ZMQRead ok) (connected buf) [s.take k, s.drop k]).2 = [] := by
    unfold Chunked.feed
    simp only [hread₀, feed_closing (parse_closing hclosing₀), hout, List.append_nil]
  have hsame := h.same _ _ hwhole hsplit
  rw [hfeed, hfeed'] at hsame
  cases hsame

end

/-- **The messages acted on are those of the stream, however it is split**, if and only
if there is at most one of them and no failed write comes before it. -/
theorem chunk_independence (ok : Writes) (buf s : Bytes) :
    Independent ok buf s ↔ Steady ok buf s :=
  ⟨steady_of_independent, independent_of_steady⟩

/-- Two empty messages behind the handshake. -/
def twoMessages : Bytes :=
  kZMQGreeting ++ [4, 18] ++ Bytes.slice kZMQHandshake 2 18 ++ [0, 0, 0, 0]

/-- They come in one read, and one stays in the buffer. -/
theorem chunk_independence_fails : ¬ ∀ ok s, Independent ok [] s := by
  intro h
  have hsession : session {} twoMessages = some [0, 0, 0, 0] := by decide
  have h₁ : parseFrames [0, 0, 0, 0] [] = .message [] [0, 0] := by
    have hs : readSize ((0 : UInt8) &&& 2 ≠ 0) [0, 0, 0] = some (0, [0, 0]) := by decide
    rw [parseFrames_frame hs]
    rfl
  have h₂ : parseFrames [0, 0] [] = .message [] [] := by
    have hs : readSize ((0 : UInt8) &&& 2 ≠ 0) [0] = some (0, []) := by decide
    rw [parseFrames_frame hs]
    rfl
  have hmessages : acted {} twoMessages = [] :: [] :: messages [] := by
    rw [acted_some hsession, messages_cons h₁, messages_cons h₂]
  rcases steady_of_independent (h {} twoMessages) with hs | hs | ⟨hs, -⟩
  · exact absurd hs (by decide)
  · rw [List.nil_append, hmessages] at hs
    cases hs
  · rw [List.nil_append, hmessages] at hs
    cases hs

end Rxs.L3.ZmqChunks
