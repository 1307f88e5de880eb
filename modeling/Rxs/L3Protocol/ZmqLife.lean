import Rxs.Core.LTS
import Rxs.L3Protocol.DaemonLife

/-!
# The publisher's socket

The daemon client changes the state of its ZMQ socket from many callbacks, and some
of them assign the next state after a call that may have closed the socket.

* `Orderly`: each handle is closed at most once and deleted after its close callback,
  the disconnecting state is left by that callback alone, and nothing is written to a
  closed socket.
* `Sound`: the phases the socket goes through while that is so; `sound_step` is kept
  by every callback that meets `Ok`.
* **`orderly`**: the law of the runs whose every step meets `Ok`.
* `orderly_fails`: `retry` closes the socket and leaves the state, so two failed
  replies close it twice; a failed write of the greeting is overwritten by the next
  state; a second lookup replaces a socket that is open.
-/
namespace Rxs.L3.ZmqLife

open Rxs.Core Rxs.DaemonLife Rxs.ZmqLink

def lts (zmqPort : Int) : LTS DaemonLife DaemonLife.Event :=
  LTS.ofFn { zmqPort := zmqPort } step

structure Orderly (l : ZmqLink) : Prop where
  once : l.closes.Nodup
  freed : ∀ p ∈ l.freed, p.2 = true
  stays : l.zmq.left = false
  quiet : l.zmq.late = false

/-! ## The conditions -/

/-- The socket can be closed only if it is not closing. -/
def Calm (l : ZmqLink) : Prop := live l.zmq.state → l.zmq.closing = false

/-- If there is a socket, its close callback has run. -/
def Vacant (l : ZmqLink) : Prop := ∀ h ∈ l.socket, h ∈ l.closed

instance (l : ZmqLink) : Decidable (Calm l) := by unfold Calm; infer_instance

instance (l : ZmqLink) : Decidable (Vacant l) := by unfold Vacant; infer_instance

/-- `retry` finds the socket not closing, a lookup that succeeds finds the last
socket closed, the writes of the rest of the greeting and of the subscription
succeed, and the owner deletes the client while its socket can be closed or is
closed. -/
def Ok (s : DaemonLife) : DaemonLife.Event → Prop
  | .connect false _ => Calm s.toZmqLink
  | .connect true (some ok) | .resolved ok =>
    if ok then Vacant s.toZmqLink else Calm s.toZmqLink
  | .timer ok _ => s.zmqPort < 0 → ok = false → Calm s.toZmqLink
  | .http r => r = .failed → Calm s.toZmqLink
  | .read _ (some (_, w)) => w.greeting ∧ w.subscribe
  | .deleteLater => 0 ≤ s.zmqPort ∧ live s.zmq.state ∨ Vacant s.toZmqLink
  | _ => True

instance (s : DaemonLife) (e : DaemonLife.Event) : Decidable (Ok s e) := by
  unfold Ok
  split <;> infer_instance

/-! ## The stream -/

/-- The socket is open. -/
structure Up (z : Zmq) : Prop where
  stays : z.left = false
  quiet : z.late = false
  closing : z.closing = false
  live : live z.state = true

/-- The socket is closing. -/
structure Shut (z : Zmq) : Prop where
  stays : z.left = false
  quiet : z.late = false
  closing : z.closing = true
  state : z.state ≠ .NOT_CONNECTED

/-- The socket is closing, and the state says so. -/
structure Down (z : Zmq) : Prop extends Shut z where
  down : z.state = .DISCONNECTING

theorem down_close {z : Zmq} (h : Up z) : Down z.close := by
  have hlive := h.live
  unfold ZmqLink.live at hlive
  simp only [ne_eq, Bool.decide_and, decide_not, Bool.and_eq_true, Bool.not_eq_eq_eq_not,
    Bool.not_true, decide_eq_false_iff_not] at hlive
  unfold Zmq.close
  rw [if_neg (not_or.mpr hlive)]
  exact ⟨⟨h.stays, h.quiet, rfl, ZMQConnectionState.noConfusion⟩, rfl⟩

theorem up_enter {z : Zmq} {st : ZMQConnectionState} (h : Up z) (hst : live st = true) :
    Up (z.enter st) := by
  refine ⟨?_, h.quiet, h.closing, hst⟩
  unfold Zmq.enter
  rw [h.stays, Bool.false_or, decide_eq_false_iff_not]
  intro hd
  have hlive := h.live
  rw [hd] at hlive
  cases hlive

/-- The socket has connected. -/
theorem up_connected {z : Zmq} (hstays : z.left = false) (hquiet : z.late = false)
    (hc : z.closing = false) (hst : z.state = .NOT_CONNECTED) : Up (z.enter .GREETING_1) := by
  refine ⟨?_, hquiet, hc, rfl⟩
  unfold Zmq.enter
  rw [hstays, hst]
  rfl

theorem up_buf {z : Zmq} (h : Up z) (buf : Bytes) : Up { z with buf := buf } :=
  ⟨h.stays, h.quiet, h.closing, h.live⟩

theorem up_write {z : Zmq} (h : Up z) : Up (z.write true) := by
  refine ⟨h.stays, ?_, h.closing, h.live⟩
  show (z.late || z.closing) = false
  rw [h.quiet, h.closing]
  rfl

theorem down_write {z : Zmq} (h : Up z) : Down (z.write false) := by
  apply down_close
  exact ⟨h.stays, (up_write h).quiet, h.closing, h.live⟩

theorem parse_spec {z : Zmq} (h : Up z) : Up z.ZMQParse.1 ∨ Down z.ZMQParse.1 := by
  unfold Zmq.ZMQParse
  split
  · exact Or.inl h
  · exact Or.inr (down_close h)
  · exact Or.inl (up_buf h _)

theorem handshake_spec {z : Zmq} {ok : Zmq.Writes} (h : Up z) (hok : ok.subscribe = true) :
    Up (Zmq.handshake ok z).1 ∨ Down (Zmq.handshake ok z).1 := by
  unfold Zmq.handshake
  split
  · split
    · exact Or.inr (down_close h)
    · dsimp only
      split
      · exact Or.inr (down_close h)
      · split
        · exact Or.inl h
        · split
          · exact Or.inr (down_close h)
          · rw [hok]
            exact parse_spec (up_buf (up_enter (up_write h) rfl) _)
  · exact Or.inl h

theorem greeting2_spec {z : Zmq} {ok : Zmq.Writes} (h : Up z) (hok : ok.subscribe = true) :
    Up (Zmq.greeting2 ok z).1 ∨ Down (Zmq.greeting2 ok z).1 := by
  unfold Zmq.greeting2
  split
  · split
    · have hst : Up (z.enter .HANDSHAKE) := up_enter h rfl
      have hup := up_buf hst (z.buf.drop Zmq.kZMQGreeting.length)
      cases hw : ok.handshake with
      | true =>
        dsimp only
        split
        · exact handshake_spec (up_write hup) hok
        · exact Or.inl (up_write hup)
      | false =>
        -- the write has closed the socket, and the loop ends
        have hdown := down_write hup
        dsimp only
        rw [if_neg]
        · exact Or.inr hdown
        · intro hst
          cases hst.symm.trans hdown.down
    · exact Or.inr (down_close h)
  · exact Or.inl h

theorem greeting1_spec {z : Zmq} {ok : Zmq.Writes} (h : Up z) (hg : ok.greeting = true)
    (hok : ok.subscribe = true) : Up (Zmq.greeting1 ok z).1 ∨ Down (Zmq.greeting1 ok z).1 := by
  unfold Zmq.greeting1
  split
  · split
    · rw [hg]
      exact greeting2_spec (up_enter (up_write h) rfl) hok
    · exact Or.inr (down_close h)
  · exact Or.inl h

/-- **A read** leaves the socket open, or closed in the disconnecting state. -/
theorem read_spec {z : Zmq} {ok : Zmq.Writes} (h : Up z) (hg : ok.greeting = true)
    (hok : ok.subscribe = true) (chunk : Bytes) :
    Up (Zmq.ZMQRead ok z chunk).1 ∨ Down (Zmq.ZMQRead ok z chunk).1 := by
  unfold Zmq.ZMQRead
  rw [if_neg (Bool.eq_false_iff.mp h.closing)]
  have hup := up_buf h (z.buf ++ chunk)
  unfold Zmq.loop
  split
  · exact greeting1_spec hup hg hok
  · exact greeting2_spec hup hok
  · exact handshake_spec hup hok
  · exact parse_spec hup
  · exact Or.inl hup

/-! ## The socket -/

/-- What the socket is between two callbacks. -/
inductive Phase (l : ZmqLink) : Prop where
  | idle (state : l.zmq.state = .NOT_CONNECTED) (vacant : Vacant l)
      (connecting : l.connecting = []) (reading : l.reading = []) (closing : l.closing = [])
  | opened (h : Handle) (socket : l.socket = some h) (state : l.zmq.state = .NOT_CONNECTED)
      (uncalled : l.zmq.closing = false) (fresh : h ∉ l.closes) (unclosed : h ∉ l.closed)
      (connecting : ∀ h' ∈ l.connecting, h' = h) (reading : l.reading = [])
      (closing : l.closing = [])
  | up (h : Handle) (socket : l.socket = some h) (state : live l.zmq.state = true)
      (uncalled : l.zmq.closing = false) (fresh : h ∉ l.closes) (unclosed : h ∉ l.closed)
      (connecting : l.connecting = []) (reading : ∀ h' ∈ l.reading, h' = h)
      (closing : l.closing = [])
  | leaving (h : Handle) (b : Bool) (socket : l.socket = some h)
      (state : l.zmq.state ≠ .NOT_CONNECTED) (called : l.zmq.closing = true)
      (unclosed : h ∉ l.closed) (connecting : l.connecting = []) (reading : l.reading = [])
      (closing : l.closing = [(h, b)])

structure Sound (l : ZmqLink) : Prop extends Orderly l where
  phase : Phase l
  own : ∀ h, l.socket = some h → h < l.next
  past : ∀ h ∈ l.closes, h < l.next
  gone : ∀ h ∈ l.closed, h < l.next

/-- The socket `h` was never closed, and its connect callback has run. -/
structure Open (l : ZmqLink) (h : Handle) : Prop where
  socket : l.socket = some h
  fresh : h ∉ l.closes
  unclosed : h ∉ l.closed
  connecting : l.connecting = []
  reading : ∀ h' ∈ l.reading, h' = h
  closing : l.closing = []

theorem Sound.up {l : ZmqLink} (hs : Sound l) (hst : live l.zmq.state = true)
    (hc : l.zmq.closing = false) : ∃ h, Open l h := by
  cases hs.phase with
  | idle state =>
    rw [state] at hst
    cases hst
  | opened h socket state =>
    rw [state] at hst
    cases hst
  | up h socket state uncalled fresh unclosed connecting reading closing =>
    exact ⟨h, socket, fresh, unclosed, connecting, reading, closing⟩
  | leaving h b socket state called =>
    rw [hc] at called
    cases called

/-- The connect callback of a socket. -/
theorem Sound.answered {l : ZmqLink} (hs : Sound l) {h : Handle} (hh : h ∈ l.connecting) :
    Sound (l.answered h) ∧ Open (l.answered h) h ∧ l.zmq.state = .NOT_CONNECTED ∧
      l.zmq.closing = false := by
  cases hs.phase with
  | idle _ _ connecting =>
    rw [connecting] at hh
    cases hh
  | up _ _ _ _ _ _ connecting =>
    rw [connecting] at hh
    cases hh
  | leaving _ _ _ _ _ _ connecting =>
    rw [connecting] at hh
    cases hh
  | opened x socket state uncalled fresh unclosed connecting reading closing =>
    have hx := connecting h hh
    subst hx
    have hnone : l.connecting.filter (· ≠ h) = [] := by
      apply List.filter_eq_nil_iff.mpr
      intro h' hh'
      rw [connecting h' hh']
      simp
    have hread : ∀ h' ∈ (l.answered h).reading, h' = h := by
      intro h' hh'
      rw [show (l.answered h).reading = [] from reading] at hh'
      cases hh'
    refine ⟨⟨⟨hs.once, hs.freed, hs.stays, hs.quiet⟩, ?_, hs.own, hs.past, hs.gone⟩,
      ⟨socket, fresh, unclosed, hnone, hread, closing⟩, state, uncalled⟩
    refine .opened h socket state uncalled fresh unclosed ?_ reading closing
    intro h' hh'
    exact connecting h' (List.mem_filter.mp hh').1

/-- **An open socket is closed once.** -/
theorem Sound.close {l : ZmqLink} (hs : Sound l) {h : Handle} (ho : Open l h) (b : Bool) {z : Zmq}
    (hz : Shut z) : Sound { l.uvClose b with zmq := z } := by
  have hread : l.reading.filter (· ≠ h) = [] := by
    apply List.filter_eq_nil_iff.mpr
    intro h' hh'
    rw [ho.reading h' hh']
    simp
  unfold ZmqLink.uvClose
  simp only [ho.socket, ho.closing]
  constructor
  · exact ⟨List.nodup_cons.mpr ⟨ho.fresh, hs.once⟩, hs.freed, hz.stays, hz.quiet⟩
  · exact .leaving h b rfl hz.state hz.closing ho.unclosed ho.connecting hread rfl
  · intro h' hh'
    exact hs.own h' (ho.socket.trans hh')
  · intro h' hh'
    rcases List.mem_cons.mp hh' with rfl | hh'
    · exact hs.own _ ho.socket
    · exact hs.past h' hh'
  · exact hs.gone

/-- Another state of a socket that stays open, and what is read from it. -/
theorem Sound.goOn {l : ZmqLink} (hs : Sound l) {h : Handle} (ho : Open l h) {z : Zmq} (hz : Up z)
    {hr : List Handle} (hread : ∀ h' ∈ hr, h' = h) :
    Sound { l with zmq := z, reading := hr } := by
  constructor
  · exact ⟨hs.once, hs.freed, hz.stays, hz.quiet⟩
  · exact .up h ho.socket hz.live hz.closing ho.fresh ho.unclosed ho.connecting hread ho.closing
  · exact hs.own
  · exact hs.past
  · exact hs.gone

theorem orderly_free {l : ZmqLink} (h : Orderly l) (hv : Vacant l) : Orderly l.free := by
  unfold ZmqLink.free
  cases hl : l.socket with
  | none => exact h
  | some x =>
    refine ⟨h.once, ?_, h.stays, h.quiet⟩
    intro p hp
    rcases List.mem_cons.mp hp with rfl | hp
    · exact decide_eq_true (hv x hl)
    · exact h.freed p hp

/-- The socket of a phase is not there, or its close callback has run. -/
theorem Sound.idle {l : ZmqLink} (hs : Sound l) (hv : Vacant l) :
    l.zmq.state = .NOT_CONNECTED ∧ l.connecting = [] ∧ l.reading = [] ∧ l.closing = [] := by
  cases hs.phase with
  | idle state _ connecting reading closing => exact ⟨state, connecting, reading, closing⟩
  | opened h socket _ _ _ unclosed => exact absurd (hv h socket) unclosed
  | up h socket _ _ _ unclosed => exact absurd (hv h socket) unclosed
  | leaving h _ socket _ _ unclosed => exact absurd (hv h socket) unclosed

/-- **A closed socket is replaced.** -/
theorem Sound.tcpConnect {l : ZmqLink} (hs : Sound l) (hv : Vacant l) : Sound l.tcpConnect := by
  obtain ⟨state, connecting, reading, closing⟩ := hs.idle hv
  have hfree := orderly_free hs.toOrderly hv
  have hkeep : l.free = { l with socket := none, freed := l.free.freed } := by
    unfold ZmqLink.free
    cases hl : l.socket with
    | none => simp only [← hl]
    | some x => rfl
  unfold ZmqLink.tcpConnect
  rw [hkeep] at hfree ⊢
  dsimp only
  have hclosed : l.next ∉ l.closed := fun hn => Nat.lt_irrefl _ (hs.gone _ hn)
  have hcloses : l.next ∉ l.closes := fun hn => Nat.lt_irrefl _ (hs.past _ hn)
  constructor
  · exact ⟨hfree.once, hfree.freed, hfree.stays, hfree.quiet⟩
  · refine .opened l.next rfl state rfl hcloses hclosed ?_ reading closing
    intro h' hh'
    rw [connecting] at hh'
    exact List.mem_singleton.mp hh'
  · intro h hh
    cases hh
    exact Nat.lt_succ_self _
  · intro h hh
    exact Nat.lt_succ_of_lt (hs.past h hh)
  · intro h hh
    exact Nat.lt_succ_of_lt (hs.gone h hh)

/-- The owner deletes the client while the close callback is to come. -/
theorem Sound.disconnecting {l : ZmqLink} (hs : Sound l) (hst : live l.zmq.state = true)
    (hc : l.zmq.closing = true) :
    Sound { l with zmq := { l.zmq with state := .DISCONNECTING } } := by
  refine ⟨⟨hs.once, hs.freed, hs.stays, hs.quiet⟩, ?_, hs.own, hs.past, hs.gone⟩
  cases hs.phase with
  | idle state =>
    rw [state] at hst
    cases hst
  | opened h socket state =>
    rw [state] at hst
    cases hst
  | up h socket state uncalled => cases hc.symm.trans uncalled
  | leaving h b socket state called unclosed connecting reading closing =>
    exact .leaving h b socket ZMQConnectionState.noConfusion called unclosed connecting reading
      closing

/-- A socket that nobody keeps. -/
theorem Sound.skip {l : ZmqLink} (hs : Sound l) : Sound { l with next := l.next + 1 } where
  once := hs.once
  freed := hs.freed
  stays := hs.stays
  quiet := hs.quiet
  phase := by
    cases hs.phase with
    | idle st v c r cl => exact .idle st v c r cl
    | opened h so st u f un c r cl => exact .opened h so st u f un c r cl
    | up h so st u f un c r cl => exact .up h so st u f un c r cl
    | leaving h b so st ca un c r cl => exact .leaving h b so st ca un c r cl
  own := fun h hh => Nat.lt_succ_of_lt (hs.own h hh)
  past := fun h hh => Nat.lt_succ_of_lt (hs.past h hh)
  gone := fun h hh => Nat.lt_succ_of_lt (hs.gone h hh)

/-- **The close callback** leaves no socket to close. -/
theorem Sound.finished {l : ZmqLink} (hs : Sound l) {h : Handle} {b : Bool}
    (hh : (h, b) ∈ l.closing) :
    Sound { l.finished h b with zmq := { l.zmq with state := .NOT_CONNECTED } } ∧
      Vacant (l.finished h b) := by
  cases hs.phase with
  | idle _ _ _ _ closing =>
    rw [closing] at hh
    cases hh
  | opened _ _ _ _ _ _ _ _ closing =>
    rw [closing] at hh
    cases hh
  | up _ _ _ _ _ _ _ _ closing =>
    rw [closing] at hh
    cases hh
  | leaving h' b' socket state called unclosed connecting reading closing =>
    rw [closing] at hh
    cases List.mem_singleton.mp hh
    have hv : Vacant (l.finished h b) := by
      intro x hx
      cases socket.symm.trans hx
      exact List.mem_cons_self ..
    have hnone : l.closing.erase (h, b) = [] := by
      rw [closing]
      exact List.erase_cons_head (h, b) []
    refine ⟨⟨⟨hs.once, hs.freed, hs.stays, hs.quiet⟩, ?_, hs.own, hs.past, ?_⟩, hv⟩
    · exact .idle rfl hv connecting reading hnone
    · intro x hx
      rcases List.mem_cons.mp hx with rfl | hx
      · exact hs.own _ socket
      · exact hs.gone x hx

/-! ## The client -/

theorem retry_link (s : DaemonLife) : (retry s).toZmqLink =
    if s.failures + 1 ≠ -1 ∧ live s.zmq.state then s.toZmqLink.uvClose false
    else s.toZmqLink := by
  unfold retry DaemonLife.tell
  dsimp only
  by_cases hf : s.failures + 1 = -1
  · rw [if_pos hf, if_neg fun h => h.1 hf]
  · rw [if_neg hf]
    by_cases hc : s.state = .ConnectedState
    · rw [if_pos hc]
      by_cases hl : live s.zmq.state = true
      · rw [if_pos hl, if_pos ⟨hf, hl⟩]
        rfl
      · rw [if_neg hl, if_neg fun h => hl h.2]
    · rw [if_neg hc]
      by_cases hl : live s.zmq.state = true
      · rw [if_pos hl, if_pos ⟨hf, hl⟩]
        rfl
      · rw [if_neg hl, if_neg fun h => hl h.2]

theorem disconnect_link (s : DaemonLife) : (disconnect s).toZmqLink = s.toZmqLink := by
  unfold disconnect
  dsimp only
  split <;> rfl

theorem setConnected_link (s : DaemonLife) (leaves : Bool) :
    (setConnected s leaves).toZmqLink = s.toZmqLink := by
  unfold setConnected
  split
  · rfl
  · cases leaves with
    | true =>
      dsimp only
      rw [if_pos rfl]
      exact disconnect_link _
    | false => rfl

theorem sound_retry {s : DaemonLife} (hs : Sound s.toZmqLink) (hc : Calm s.toZmqLink) :
    Sound (retry s).toZmqLink := by
  rw [retry_link]
  split
  · rename_i hl
    obtain ⟨h, ho⟩ := hs.up hl.2 (hc hl.2)
    have hshut : Shut { s.zmq with closing := true } := by
      refine ⟨hs.stays, hs.quiet, rfl, ?_⟩
      intro hst
      have hlive := hl.2
      rw [show s.zmq.state = .NOT_CONNECTED from hst] at hlive
      cases hlive
    have hkeep : s.toZmqLink.uvClose false =
        { s.toZmqLink.uvClose false with zmq := { s.zmq with closing := true } } := by
      unfold ZmqLink.uvClose
      rw [ho.socket]
    rw [hkeep]
    exact hs.close ho false hshut
  · exact hs

theorem applied_open {s : DaemonLife} {z : Zmq} (hz : z.closing = false) :
    applied s z = { s with zmq := z } := by
  unfold applied
  rw [if_neg fun hno => Bool.false_ne_true (hz.symm.trans hno.1)]

/-- After a function of the stream: the socket stays open, or was closed in it. -/
theorem sound_applied {s : DaemonLife} (hs : Sound s.toZmqLink) {h : Handle}
    (ho : Open s.toZmqLink h) (hc : s.zmq.closing = false) {z : Zmq} (hz : Up z ∨ Down z) :
    Sound (applied s z).toZmqLink := by
  rcases hz with hz | hz
  · rw [applied_open hz.closing]
    exact hs.goOn ho hz ho.reading
  · unfold applied
    rw [if_pos ⟨hz.closing, Bool.eq_false_iff.mp hc⟩]
    dsimp only
    rw [retry_link, if_neg fun hno => Bool.false_ne_true hno.2]
    exact hs.close ho false hz.toShut

theorem sound_connected {s : DaemonLife} (hs : Sound s.toZmqLink) {h : Handle}
    (ho : Open s.toZmqLink h) (hst : s.zmq.state = .NOT_CONNECTED) (hc : s.zmq.closing = false)
    (ok w : Bool) : Sound (onZMQConnect s ok w).toZmqLink := by
  have hup : Up (s.zmq.enter .GREETING_1) := up_connected hs.stays hs.quiet hc hst
  unfold onZMQConnect
  cases ok with
  | false =>
    apply sound_retry hs
    intro _
    exact hc
  | true =>
    cases w with
    | false => exact sound_applied hs ho hc (Or.inr (down_write hup))
    | true =>
      have hz := up_write hup
      rw [applied_open hz.closing]
      apply hs.goOn ho hz
      intro h' hh'
      rcases List.mem_append.mp hh' with hh' | hh'
      · rw [ho.socket] at hh'
        exact List.mem_singleton.mp hh'
      · exact ho.reading h' hh'

theorem sound_read {s : DaemonLife} (hs : Sound s.toZmqLink) {h : Handle} (hh : h ∈ s.reading)
    (c : Option (Bytes × Zmq.Writes)) (hok : ∀ p ∈ c, p.2.greeting ∧ p.2.subscribe) :
    Sound (onZMQRead s c).toZmqLink := by
  obtain ⟨hst, hc⟩ : live s.zmq.state = true ∧ s.zmq.closing = false := by
    cases hs.phase with
    | idle _ _ _ reading =>
      rw [reading] at hh
      cases hh
    | opened _ _ _ _ _ _ _ reading =>
      rw [reading] at hh
      cases hh
    | leaving _ _ _ _ _ _ _ reading =>
      rw [reading] at hh
      cases hh
    | up _ _ state uncalled => exact ⟨state, uncalled⟩
  obtain ⟨x, ho⟩ := hs.up hst hc
  have hup : Up s.zmq := ⟨hs.stays, hs.quiet, hc, hst⟩
  cases c with
  | none => exact sound_applied hs ho hc (Or.inr (down_close hup))
  | some p =>
    obtain ⟨hg, hsub⟩ := hok p rfl
    have hz := sound_applied hs ho hc (read_spec hup hg hsub p.1)
    unfold onZMQRead
    dsimp only
    split <;> exact hz

theorem sound_resolved {s : DaemonLife} (hs : Sound s.toZmqLink) (ok : Bool)
    (hok : if ok then Vacant s.toZmqLink else Calm s.toZmqLink) :
    Sound (onResolved s ok).toZmqLink := by
  unfold onResolved
  cases ok with
  | false => exact sound_retry hs hok
  | true =>
    dsimp only
    rw [if_neg (not_not.mpr rfl)]
    split
    · exact hs.tcpConnect hok
    · exact hs.skip

/-- The answer of the resolver matters if the pool has a publisher. -/
theorem sound_connect {s : DaemonLife} (hs : Sound s.toZmqLink) (ok : Bool) (cached : Option Bool)
    (hbad : ok = false → Calm s.toZmqLink)
    (hans : ok = true → 0 ≤ s.zmqPort → ∀ a ∈ cached,
      if a then Vacant s.toZmqLink else Calm s.toZmqLink) :
    Sound (connect s ok cached).toZmqLink := by
  unfold connect
  cases ok with
  | false => exact sound_retry hs (hbad rfl)
  | true =>
    dsimp only
    rw [if_neg (not_not.mpr rfl)]
    split
    · rename_i hp
      cases cached with
      | none => exact hs
      | some a =>
        have hs' : Sound ({ s with state := .ConnectingState } : DaemonLife).toZmqLink := hs
        exact sound_resolved hs' a (hans rfl hp a rfl)
    · exact hs

theorem sound_timer {s : DaemonLife} (hs : Sound s.toZmqLink) (ok : Bool) (cached : Option Bool)
    (hok : s.zmqPort < 0 → ok = false → Calm s.toZmqLink) :
    Sound (onTimer s ok cached).toZmqLink := by
  unfold onTimer
  dsimp only
  split
  · exact hs
  · rename_i hp
    split
    · have hs' : Sound ({ s with timer := s.periodic } : DaemonLife).toZmqLink := hs
      apply sound_connect hs' ok cached
      · exact hok (by omega)
      · intro _ hpos
        exact absurd hpos hp
    · split <;> exact hs

/-- What holds of a client: the phases while it lives. -/
structure Inv (s : DaemonLife) : Prop where
  orderly : Orderly s.toZmqLink
  sound : s.alive = true → Sound s.toZmqLink

theorem inv_of_sound {s : DaemonLife} (hs : Sound s.toZmqLink) : Inv s :=
  ⟨hs.toOrderly, fun _ => hs⟩

theorem inv_remove {s : DaemonLife} (hs : Orderly s.toZmqLink) (hv : Vacant s.toZmqLink) :
    Inv (remove s) := by
  constructor
  · exact orderly_free hs hv
  · intro halive
    cases halive

theorem inv_shutdown {s : DaemonLife} (hs : Sound s.toZmqLink)
    (hok : live s.zmq.state ∨ Vacant s.toZmqLink) : Inv (shutdown s) := by
  unfold shutdown
  by_cases hl : live s.zmq.state = true
  · rw [if_neg (not_not.mpr hl)]
    dsimp only
    by_cases hc : s.zmq.closing = true
    · rw [if_pos hc]
      exact inv_of_sound (hs.disconnecting hl hc)
    · obtain ⟨h, ho⟩ := hs.up hl (Bool.eq_false_iff.mpr hc)
      have hz : Shut { s.zmq with state := .DISCONNECTING, closing := true } :=
        ⟨hs.stays, hs.quiet, rfl, ZMQConnectionState.noConfusion⟩
      have hclose := hs.close ho true hz
      rw [if_neg hc]
      apply inv_of_sound
      unfold onLink
      unfold ZmqLink.uvClose at hclose ⊢
      simp only [ho.socket] at hclose ⊢
      exact hclose
  · rw [if_pos hl]
    exact inv_remove hs.toOrderly (hok.resolve_left hl)

theorem inv_step {s s' : DaemonLife} {e : DaemonLife.Event} (hs : Inv s) (hok : Ok s e)
    (h : step s e = some s') : Inv s' := by
  cases e with
  | connect ok cached =>
    simp only [step, Option.ite_none_right_eq_some, Option.some.injEq] at h
    obtain ⟨halive, rfl⟩ := h
    have hs' : Sound ({ s with quit := none } : DaemonLife).toZmqLink := hs.sound halive
    apply inv_of_sound
    apply sound_connect hs' ok cached
    · intro hbad
      subst hbad
      exact hok
    · intro hgood _ a ha
      subst hgood
      cases ha
      exact hok
  | disconnect =>
    simp only [step, Option.ite_none_right_eq_some, Option.some.injEq] at h
    obtain ⟨halive, rfl⟩ := h
    apply inv_of_sound
    rw [disconnect_link]
    exact hs.sound halive
  | deleteLater =>
    simp only [step, Option.ite_none_right_eq_some, Option.some.injEq] at h
    obtain ⟨halive, rfl⟩ := h
    have hs := hs.sound halive
    unfold deleteLater
    split
    · exact inv_shutdown hs (hok.imp_left (·.2))
    · rename_i hp
      exact inv_remove hs.toOrderly (hok.resolve_left fun hno => hp hno.1)
  | submit =>
    simp only [step, Option.ite_none_right_eq_some, Option.some.injEq] at h
    obtain ⟨halive, rfl⟩ := h
    exact inv_of_sound (hs.sound halive)
  | timer ok cached =>
    simp only [step, Option.ite_none_right_eq_some, Option.some.injEq] at h
    obtain ⟨⟨halive, -⟩, rfl⟩ := h
    exact inv_of_sound (sound_timer (hs.sound halive) ok cached hok)
  | http r =>
    simp only [step, Option.ite_none_right_eq_some, Option.some.injEq] at h
    obtain ⟨⟨halive, -⟩, rfl⟩ := h
    apply inv_of_sound
    have hs := hs.sound halive
    cases r with
    | failed =>
      have hs' : Sound ({ s with requests := s.requests - 1 } : DaemonLife).toZmqLink := hs
      exact sound_retry hs' (hok rfl)
    | nothing => exact hs
    | again => exact hs
    | job leaves =>
      unfold onHttpData DaemonLife.tell
      dsimp only
      split
      · rw [setConnected_link]
        exact hs
      · exact hs
  | resolved ok =>
    simp only [step, Option.ite_none_right_eq_some, Option.some.injEq] at h
    obtain ⟨⟨halive, -⟩, rfl⟩ := h
    exact inv_of_sound (sound_resolved (hs.sound halive) ok hok)
  | connected h ok w =>
    simp only [step, Option.ite_none_right_eq_some, Option.some.injEq] at h
    obtain ⟨⟨halive, hh, -⟩, rfl⟩ := h
    obtain ⟨hs', ho, hst, hc⟩ := (hs.sound halive).answered hh
    have hs'' : Sound (onLink s (·.answered h)).toZmqLink := hs'
    exact inv_of_sound (sound_connected hs'' ho hst hc ok w)
  | read h c =>
    simp only [step, Option.ite_none_right_eq_some, Option.some.injEq] at h
    obtain ⟨⟨halive, hh⟩, rfl⟩ := h
    apply inv_of_sound
    apply sound_read (hs.sound halive) hh c
    intro p hp
    cases hp
    exact hok
  | closed h b =>
    simp only [step, Option.ite_none_right_eq_some, Option.some.injEq] at h
    obtain ⟨⟨halive, hh, -⟩, rfl⟩ := h
    obtain ⟨hs', hv⟩ := (hs.sound halive).finished hh
    unfold onZMQClose
    cases b with
    | true => exact inv_remove hs'.toOrderly hv
    | false => exact inv_of_sound hs'

theorem inv_init (zmqPort : Int) : Inv { zmqPort := zmqPort } := by
  apply inv_of_sound
  refine ⟨⟨List.nodup_nil, ?_, rfl, rfl⟩, ?_, ?_, ?_, ?_⟩
  · intro p hp
    cases hp
  · refine .idle rfl ?_ rfl rfl rfl
    intro h hh
    cases hh
  · intro h hh
    cases hh
  · intro h hh
    cases hh
  · intro h hh
    cases hh

theorem inductive_inv (zmqPort : Int) : ((lts zmqPort).restrict Ok).Inductive Inv where
  init s hs := by
    cases hs
    exact inv_init zmqPort
  step _ _ _ hs h := inv_step hs h.1 h.2

/-! ## The disconnecting state -/

theorem Sound.occupied {l : ZmqLink} (hs : Sound l) (hd : l.zmq.state = .DISCONNECTING) :
    ¬ Vacant l ∧ l.connecting = [] ∧ l.reading = [] := by
  cases hs.phase with
  | idle state => cases hd.symm.trans state
  | opened _ _ state => cases hd.symm.trans state
  | up _ _ state =>
    rw [hd] at state
    cases state
  | leaving h _ socket _ _ unclosed connecting reading =>
    exact ⟨fun hv => unclosed (hv h socket), connecting, reading⟩

theorem retry_disconnecting {s : DaemonLife} (hd : s.zmq.state = .DISCONNECTING) :
    (retry s).toZmqLink = s.toZmqLink := by
  rw [retry_link, if_neg]
  rintro ⟨-, hl⟩
  rw [hd] at hl
  cases hl

theorem connect_disconnecting {s : DaemonLife} (hd : s.zmq.state = .DISCONNECTING) (ok : Bool)
    (cached : Option Bool) (hc : ok = true → 0 ≤ s.zmqPort → cached ≠ some true) :
    (connect s ok cached).toZmqLink = s.toZmqLink := by
  have hd' : ({ s with state := .ConnectingState } : DaemonLife).zmq.state = .DISCONNECTING := hd
  unfold connect
  cases ok with
  | false => exact retry_disconnecting hd'
  | true =>
    dsimp only
    rw [if_neg (not_not.mpr rfl)]
    split
    · rename_i hp
      cases cached with
      | none => rfl
      | some a =>
        cases a with
        | true => exact absurd rfl (hc rfl hp)
        | false => exact retry_disconnecting hd'
    · rfl

/-- **While the socket is disconnecting**, nothing but its close callback touches it. -/
theorem disconnecting_step {s s' : DaemonLife} {e : DaemonLife.Event} (hs : Inv s) (hok : Ok s e)
    (h : step s e = some s') (hd : s.zmq.state = .DISCONNECTING)
    (he : ∀ x b, e ≠ .closed x b) : s'.toZmqLink = s.toZmqLink := by
  cases e with
  | connect ok cached =>
    simp only [step, Option.ite_none_right_eq_some, Option.some.injEq] at h
    obtain ⟨halive, rfl⟩ := h
    have hd' : ({ s with quit := none } : DaemonLife).zmq.state = .DISCONNECTING := hd
    apply connect_disconnecting hd'
    intro hgood _ hcached
    subst hgood hcached
    exact ((hs.sound halive).occupied hd).1 hok
  | disconnect =>
    simp only [step, Option.ite_none_right_eq_some, Option.some.injEq] at h
    rw [← h.2, disconnect_link]
  | deleteLater =>
    simp only [step, Option.ite_none_right_eq_some, Option.some.injEq] at h
    rcases hok with hok | hok
    · have hl := hok.2
      rw [hd] at hl
      cases hl
    · exact absurd hok ((hs.sound h.1).occupied hd).1
  | submit =>
    simp only [step, Option.ite_none_right_eq_some, Option.some.injEq] at h
    rw [← h.2]
  | timer ok cached =>
    simp only [step, Option.ite_none_right_eq_some, Option.some.injEq] at h
    obtain ⟨-, rfl⟩ := h
    unfold onTimer
    dsimp only
    split
    · rfl
    · rename_i hp
      split
      · have hd' : ({ s with timer := s.periodic } : DaemonLife).zmq.state = .DISCONNECTING := hd
        apply connect_disconnecting hd'
        intro _ hpos
        exact absurd hpos hp
      · split <;> rfl
  | http r =>
    simp only [step, Option.ite_none_right_eq_some, Option.some.injEq] at h
    obtain ⟨-, rfl⟩ := h
    have hd' : ({ s with requests := s.requests - 1 } : DaemonLife).zmq.state = .DISCONNECTING := hd
    cases r with
    | failed => exact retry_disconnecting hd'
    | nothing => rfl
    | again => rfl
    | job leaves =>
      unfold onHttpData DaemonLife.tell
      dsimp only
      split
      · rw [setConnected_link]
      · rfl
  | resolved ok =>
    simp only [step, Option.ite_none_right_eq_some, Option.some.injEq] at h
    obtain ⟨⟨halive, -⟩, rfl⟩ := h
    have hd' : ({ s with dns := false } : DaemonLife).zmq.state = .DISCONNECTING := hd
    cases ok with
    | true => exact absurd hok ((hs.sound halive).occupied hd).1
    | false => exact retry_disconnecting hd'
  | connected x ok w =>
    simp only [step, Option.ite_none_right_eq_some, Option.some.injEq] at h
    obtain ⟨⟨halive, hx, -⟩, -⟩ := h
    rw [((hs.sound halive).occupied hd).2.1] at hx
    cases hx
  | read x c =>
    simp only [step, Option.ite_none_right_eq_some, Option.some.injEq] at h
    obtain ⟨⟨halive, hx⟩, -⟩ := h
    rw [((hs.sound halive).occupied hd).2.2] at hx
    cases hx
  | closed x b => exact absurd rfl (he x b)

/-- **The life of the publisher's socket**: in every run whose steps all meet `Ok` the
socket is handled in order, and only the close callback leaves the disconnecting
state. -/
theorem orderly {zmqPort : Int} {s : DaemonLife} (h : ((lts zmqPort).restrict Ok).Reachable s) :
    Orderly s.toZmqLink ∧ ∀ e s', Ok s e → step s e = some s' →
      s.zmq.state = .DISCONNECTING → (∀ x b, e ≠ .closed x b) →
      s'.zmq.state = .DISCONNECTING := by
  have hs := (inductive_inv zmqPort).reachable h
  refine ⟨hs.orderly, ?_⟩
  intro e s' hok hstep hd he
  rw [disconnecting_step hs hok hstep hd he]
  exact hd

/-- A socket that fails in a read, and the next one. -/
def replaced : List DaemonLife.Event :=
  [.connect true none, .resolved true, .connected 0 true true, .read 0 none, .closed 0 false,
    .connect true none, .resolved true]

theorem orderly_replaced : ∃ s, (LTS.restrict (lts 18083) Ok).Reachable s ∧ s.closes = [0] ∧
    s.freed = [(0, true)] ∧ s.socket = some 1 ∧ Orderly s.toZmqLink := by
  obtain ⟨s, hs⟩ : ∃ s, LTS.execOk step Ok { zmqPort := 18083 } replaced = some s :=
    Option.isSome_iff_exists.mp (by decide)
  have he : (LTS.execOk step Ok { zmqPort := 18083 } replaced).map
      (fun s => (s.closes, s.freed, s.socket)) = some ([0], [(0, true)], some 1) := by decide
  simp only [hs, Option.map_some, Option.some.injEq, Prod.mk.injEq] at he
  have hr : (LTS.restrict (lts 18083) Ok).Reachable s := LTS.reachable_of_execOk hs
  exact ⟨s, hr, he.1, he.2.1, he.2.2, (orderly hr).1⟩

/-- The socket is up, and two requests are not answered yet. -/
def twoRequests : List DaemonLife.Event :=
  [.connect true none, .resolved true, .connected 0 true true, .submit, .submit]

/-- Two failed replies close the socket twice; a failed write of the greeting is
overwritten, and the next write is to the closed socket; a second lookup deletes a
socket that is open. -/
theorem orderly_fails : ¬ (∀ s, (lts 18083).Reachable s → Orderly s.toZmqLink) ∧
    (LTS.exec step { zmqPort := 18083 } (twoRequests ++ [.http .failed, .http .failed])).map
      (·.closes) = some [0, 0] ∧
    (LTS.exec step { zmqPort := 18083 } (twoRequests ++
      [.read 0 (some (Zmq.kZMQGreeting, { greeting := false }))])).map
      (fun s => (s.zmq.left, s.zmq.late)) = some (true, true) ∧
    (LTS.exec step { zmqPort := 18083 } (twoRequests ++
      [.connect true none, .resolved true])).map (·.freed) = some [(0, false)] := by
  refine ⟨?_, by decide, by decide, by decide⟩
  intro h
  obtain ⟨s, hs⟩ : ∃ s, LTS.exec step { zmqPort := 18083 }
      (twoRequests ++ [.http .failed, .http .failed]) = some s :=
    Option.isSome_iff_exists.mp (by decide)
  have he : (LTS.exec step { zmqPort := 18083 }
      (twoRequests ++ [.http .failed, .http .failed])).map (·.closes) = some [0, 0] := by decide
  simp only [hs, Option.map_some, Option.some.injEq] at he
  have honce := (h s (LTS.reachable_of_exec hs)).once
  rw [he] at honce
  exact (List.nodup_cons.mp honce).1 (List.mem_singleton.mpr rfl)

end Rxs.L3.ZmqLife
