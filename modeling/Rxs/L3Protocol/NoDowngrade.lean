import Rxs.Core.LTS
import Rxs.L3Protocol.OneSocket
import Rxs.L3Protocol.Tls

/-!
# TLS is never downgraded

Whether TLS is used is decided again at every handshake, read and send, from a pointer
that `connect` sets, the close callback of any socket clears, and the end of the
proxy's handshake sets late.

* `Sealed`: no request in clear, nothing for the line reader but what a session with
  an accepted certificate decrypted on the socket of the client, no login before the
  handshake on that socket, and the fingerprint as configured.
* `Safe`: a client with at most one socket, and how far that socket is on its way to
  a session; one lemma for each function of the client.
* **`sealed`**: the law of the runs whose steps meet `Ok`.
* `sealed_fails`: a connect while the close callback of the last socket is to come
  logs in without TLS.
-/
namespace Rxs.L3.NoDowngrade

open Rxs.Core Rxs.Client

/-- The digits of the certificate are the configured ones, letter case aside. -/
def Pinned (fingerprint : Option Bytes) (md : Digest) : Prop :=
  ∀ text ∈ fingerprint, text.length = 64 → text.map lower = (Cvt.bin2hex md.1).map lower

/-- The session's handshake is finished, on the socket `h`, and its certificate is
the right one. -/
structure Session (fingerprint : Option Bytes) (t : Tls) (h : Handle) : Prop where
  peer : t.peer = some h
  finished : t.finished = true
  ready : t.ready = true
  pinned : ∃ md, t.digest = some md ∧ Pinned fingerprint md

structure Sealed (x : TlsLife) : Prop where
  clear : x.clear = 0
  fed : ∀ p ∈ x.fed, p.present = some p.source ∧
    ∃ t, p.tls = some t ∧ Session x.fingerprint t p.source
  logins : ∀ l ∈ x.logins, ∃ t h, l = (some t, some h) ∧ Session x.fingerprint t h

/-- The condition on a step: the client connects only without a socket, and no request
of the owner goes out while the proxy's handshake runs. -/
def Ok (x : TlsLife) : TlsLife.Event → Prop
  | .call e =>
    (match e with
      | .connect _ _ => x.client.socket = none
      | .tick _ _ now => TlsLife.reconnects x.client now → x.client.socket = none
      | _ => True) ∧
    (TlsLife.sends x.client e → x.client.state = .ConnectedState → x.client.socks5 = none)
  | _ => True

instance (x : TlsLife) (e : TlsLife.Event) : Decidable (Ok x e) := by
  unfold Ok
  induction e using TlsLife.Event.casesOn with
  | call e => induction e using Client.Event.casesOn <;> dsimp only <;> infer_instance
  | _ => infer_instance

def lts (c : Config) (fingerprint : Option Bytes) : LTS TlsLife TlsLife.Event :=
  LTS.ofFn (TlsLife.init c fingerprint) TlsLife.step

/-! ## The fingerprint -/

/-- What `verifyFingerprint` accepts has the configured digits. -/
theorem pinned_of_verify {fingerprint : Option Bytes} {md : Digest}
    (h : Tls.verifyFingerprint fingerprint md = true) : Pinned fingerprint md := by
  intro text ht hlen
  cases ht
  have heq := of_decide_eq_true h
  have hhex : (Cvt.bin2hex md.1).length = 64 := by rw [Cvt.length_bin2hex, md.2]
  rw [List.take_of_length_le (Nat.le_of_eq hhex),
    List.take_of_length_le (Nat.le_of_eq hlen)] at heq
  exact heq.symm

/-! ## The socket's way to a session -/

/-- The client knows how the next socket is to be used. -/
def Way (s : Client) : Prop := s.socks5 ≠ none ∨ s.tls = true

/-- How far the open socket `h` is: nothing is read from it yet, the proxy's handshake
runs, or bytes go to the session that was begun on it. -/
inductive Stage (fingerprint : Option Bytes) (s : Client) (t : Option Tls) (h : Handle) : Prop where
  | before (reading : s.loop.reading = []) (way : Way s)
  | proxy (socks5 : s.socks5 ≠ none)
  | session (socks5 : s.socks5 = none) (tls : s.tls = true) (u : Tls) (ht : t = some u)
      (peer : u.peer = some h)
      (checked : u.finished = true → u.ready = true ∧ ∃ md, u.digest = some md ∧
        Pinned fingerprint md)

inductive Phase (fingerprint : Option Bytes) (s : Client) (t : Option Tls) : Prop where
  | idle (socket : s.socket = none) (active : s.loop.active = []) (closing : s.loop.closing = [])
      (reading : s.loop.reading = []) (state : s.state ≠ .ConnectedState)
      (way : s.loop.lookup = true → Way s)
  | live (h : Handle) (socket : s.socket = some h) (active : s.loop.active = [h])
      (closing : s.loop.closing = []) (unclosed : h ∉ s.loop.closed) (below : h < s.loop.next)
      (lookup : s.loop.lookup = false) (state : s.state ≠ .ClosingState)
      (state' : s.state ≠ .UnconnectedState) (reading : ∀ r ∈ s.loop.reading, r = h)
      (stage : Stage fingerprint s t h)
  | closing (h : Handle) (socket : s.socket = some h) (active : s.loop.active = [])
      (closing : s.loop.closing = [h]) (below : h < s.loop.next) (reading : s.loop.reading = [])
      (lookup : s.loop.lookup = false) (state : s.state ≠ .ConnectedState)

structure Safe (fingerprint : Option Bytes) (s : Client) (t : Option Tls) : Prop where
  pool : s.poolTLS = true
  own : t.isSome = s.tls
  past : ∀ k ∈ s.loop.closed, k < s.loop.next
  phase : Phase fingerprint s t

variable {f : Option Bytes} {s : Client} {t : Option Tls}

/-! ## One lemma for each function -/

theorem Safe.isTLS (hs : Safe f s t) (ht : s.tls = true) : isTLS s = true := by
  unfold Client.isTLS
  rw [hs.pool, ht]
  rfl

/-- After `close` an open socket is closing, whatever its session was. -/
theorem Safe.shut (hs : Safe f s t) {h : Handle} (hsock : s.socket = some h)
    (hact : h ∈ s.loop.active) {t' : Option Tls} (ht : t'.isSome = t.isSome) :
    Safe f (close s).2 t' := by
  cases hs.phase with
  | idle _ active =>
    rw [active] at hact
    cases hact
  | closing _ _ active =>
    rw [active] at hact
    cases hact
  | live h' socket active closing unclosed below lookup state state' reading =>
    cases hsock.symm.trans socket
    have hcl : s.loop.isClosing h = false := by
      unfold Loop.isClosing
      rw [closing]
      simpa using unclosed
    have hreading : s.loop.reading.filter (· ≠ h) = [] := by
      apply List.filter_eq_nil_iff.mpr
      intro r hr
      rw [reading r hr]
      simp
    have hactive : s.loop.active.filter (· ≠ h) = [] := by
      rw [active]
      simp
    have he : close s = (true, { s with state := .ClosingState, loop := s.loop.uvClose h }) := by
      rw [close, if_neg state, hsock]
      simp only [if_neg state', hcl, Bool.false_eq_true, if_false]
    rw [he]
    refine ⟨hs.pool, ht.trans hs.own, hs.past, ?_⟩
    refine .closing h hsock hactive ?_ below hreading lookup SocketState.noConfusion
    show h :: s.loop.closing = [h]
    rw [closing]

theorem Safe.close (hs : Safe f s t) : Safe f (close s).2 t := by
  cases hs.phase with
  | idle socket =>
    unfold Client.close
    rw [socket]
    split <;> exact hs
  | live h socket active =>
    apply hs.shut socket _ rfl
    rw [active]
    exact List.mem_singleton.mpr rfl
  | closing h socket active closing below reading lookup state =>
    have hcl : s.loop.isClosing h = true := by
      unfold Loop.isClosing
      rw [closing]
      simp
    unfold Client.close
    rw [socket]
    split
    · exact hs
    · dsimp only
      split
      · exact hs
      · refine ⟨hs.pool, hs.own, hs.past, ?_⟩
        exact .closing h rfl active closing below reading lookup SocketState.noConfusion

theorem Safe.write (hs : Safe f s t) (w : Write) : Safe f (write s w) t := by
  unfold Client.write
  split
  · exact hs.close
  · exact hs

/-- The deadlines and the counters are no part of it. -/
theorem Safe.aside (hs : Safe f s t) {s' : Client} (hpool : s'.poolTLS = s.poolTLS)
    (htls : s'.tls = s.tls) (h₅ : s'.socks5 = s.socks5) (hst : s'.state = s.state)
    (hsock : s'.socket = s.socket) (hl : s'.loop = s.loop) : Safe f s' t := by
  have hway : Way s → Way s' := by
    unfold Way
    rw [htls, h₅]
    exact id
  refine ⟨hpool.trans hs.pool, hs.own.trans htls.symm, ?_, ?_⟩
  · rw [hl]
    exact hs.past
  cases hs.phase with
  | idle socket active closing reading state way =>
    refine .idle (hsock.trans socket) ?_ ?_ ?_ ?_ ?_
    · rw [hl]
      exact active
    · rw [hl]
      exact closing
    · rw [hl]
      exact reading
    · rw [hst]
      exact state
    · rw [hl]
      exact fun hlook => hway (way hlook)
  | live h socket active closing unclosed below lookup state state' reading stage =>
    rw [← hl] at active closing unclosed below lookup reading
    rw [← hst] at state state'
    refine .live h (hsock.trans socket) active closing unclosed below lookup state state' reading ?_
    cases stage with
    | before reading way =>
      rw [← hl] at reading
      exact .before reading (hway way)
    | proxy socks5 =>
      rw [← h₅] at socks5
      exact .proxy socks5
    | session socks5 tls u ht peer checked =>
      exact .session (h₅.trans socks5) (htls.trans tls) u ht peer checked
  | closing h socket active closing below reading lookup state =>
    rw [← hl] at active closing below reading lookup
    rw [← hst] at state
    exact .closing h (hsock.trans socket) active closing below reading lookup state

theorem Safe.startTimeout (hs : Safe f s t) (now : Nat) : Safe f (startTimeout s now) t := by
  unfold Client.startTimeout
  split
  · exact hs.aside rfl rfl rfl rfl rfl rfl
  · exact hs.aside rfl rfl rfl rfl rfl rfl

theorem Safe.send (hs : Safe f s t) (w : Write) (now : Nat) : Safe f (send s w now) t := by
  unfold Client.send
  split
  · exact hs
  · cases w with
    | refused => exact hs
    | failed =>
      dsimp only
      split
      · exact hs.close
      · exact hs
    | sent =>
      have hs' : Safe f { s with expire := now + kResponseTimeout } t :=
        hs.aside rfl rfl rfl rfl rfl rfl
      exact hs'.startTimeout now

/-- Another state, without a socket or with one that is open or closing. -/
theorem Safe.setState (hs : Safe f s t) {st : SocketState} (h₁ : st ≠ .ConnectedState)
    (h₂ : s.socket = none ∨ st ≠ .ClosingState ∧ st ≠ .UnconnectedState) (now : Nat) :
    Safe f (setState s st now) t := by
  obtain ⟨e, he⟩ := setState_eq s st now
  rw [he]
  refine ⟨hs.pool, hs.own, hs.past, ?_⟩
  cases hs.phase with
  | idle socket active closing reading _ way =>
    exact .idle socket active closing reading h₁ way
  | live h socket active closing unclosed below lookup _ _ reading stage =>
    rcases h₂ with hnone | h₂
    · cases hnone.symm.trans socket
    · refine .live h socket active closing unclosed below lookup h₂.1 h₂.2 reading ?_
      cases stage with
      | before reading way => exact .before reading way
      | proxy socks5 => exact .proxy socks5
      | session socks5 tls u ht peer checked => exact .session socks5 tls u ht peer checked
  | closing h socket active closing below reading lookup _ =>
    exact .closing h socket active closing below reading lookup h₁

/-- A client without a listener is deleted. -/
theorem Safe.reconnect (hs : Safe f s t) (now : Nat) (ha : (reconnect s now).alive = true) :
    Safe f (reconnect s now) t := by
  unfold Client.reconnect at ha ⊢
  split
  · rename_i hl
    rw [if_pos hl] at ha
    cases ha
  · have hs' : Safe f { s with keepAlive := 0 } t := hs.aside rfl rfl rfl rfl rfl rfl
    dsimp only
    split
    · exact hs'.aside rfl rfl rfl rfl rfl rfl
    · have hst : Safe f (Client.setState { s with keepAlive := 0 } .ReconnectingState now) t :=
        hs'.setState SocketState.noConfusion
          (Or.inr ⟨SocketState.noConfusion, SocketState.noConfusion⟩) now
      exact hst.aside rfl rfl rfl rfl rfl rfl

/-- A line of the pool; the pool stays a TLS pool. -/
theorem Safe.parseLine (hs : Safe f s t) (now : Nat) {l : Line} (hl : l ≠ .reconnect false)
    (ha : (parseLine s now l).alive = true) : Safe f (parseLine s now l) t := by
  cases l with
  | reconnect tls =>
    cases tls with
    | false => exact absurd rfl hl
    | true =>
      have hs' : Safe f { s with poolTLS := true } t := hs.aside hs.pool.symm rfl rfl rfl rfl rfl
      exact hs'.reconnect now ha
  | login ext ok job =>
    cases ext with
    | none => exact hs.close
    | some ext =>
      have hs₁ : Safe f { s with extKeepAlive := ext } t := hs.aside rfl rfl rfl rfl rfl rfl
      have hs₂ : Safe f (if ext then Client.startTimeout { s with extKeepAlive := ext } now
          else { s with extKeepAlive := ext }) t := by
        split
        · exact hs₁.startTimeout now
        · exact hs₁
      unfold Client.parseLine
      dsimp only
      split
      · split <;> exact hs₂.aside rfl rfl rfl rfl rfl rfl
      · exact hs₂.close
  | error critical =>
    unfold Client.parseLine
    dsimp only
    split
    · exact hs.close
    · exact hs
  | job ok =>
    unfold Client.parseLine
    dsimp only
    split
    · exact hs.aside rfl rfl rfl rfl rfl rfl
    · exact hs.close
  | other => exact hs

theorem Safe.disconnect (hs : Safe f s t) : Safe f (disconnect s).2 t := by
  have hs' : Safe f { s with keepAlive := 0, expire := 0, failures := -1 } t :=
    hs.aside rfl rfl rfl rfl rfl rfl
  exact hs'.close

theorem Safe.deleteLater (hs : Safe f s t) (ha : (deleteLater s).alive = true) :
    Safe f (deleteLater s) t := by
  have hs' : Safe f { s with listening := false } t := hs.aside rfl rfl rfl rfl rfl rfl
  unfold Client.deleteLater at ha ⊢
  split
  · exact hs
  · rename_i hl
    rw [if_neg hl] at ha
    dsimp only at ha ⊢
    split
    · exact hs'.disconnect
    · rename_i hp
      rw [if_neg hp] at ha
      cases ha

/-- Without a socket nothing is open. -/
theorem Safe.free (hs : Safe f s t) (hsock : s.socket = none) :
    s.loop.active = [] ∧ s.loop.closing = [] ∧ s.loop.reading = [] ∧ s.state ≠ .ConnectedState := by
  cases hs.phase with
  | live h socket => cases hsock.symm.trans socket
  | closing h socket => cases hsock.symm.trans socket
  | idle _ active closing reading state => exact ⟨active, closing, reading, state⟩

/-- A new socket, when the client knows how to use it. -/
theorem Safe.connectAddr (hs : Safe f s t) (hsock : s.socket = none)
    (hl : s.loop.lookup = false) (hw : Way s) (now : Nat) : Safe f (connectAddr s now) t := by
  obtain ⟨active, closing, reading, -⟩ := hs.free hsock
  unfold Client.connectAddr
  obtain ⟨e, he⟩ := setState_eq s .ConnectingState now
  rw [he]
  have hnew : s.loop.next ∉ s.loop.closed := fun hk => Nat.lt_irrefl _ (hs.past _ hk)
  refine ⟨hs.pool, hs.own, fun k hk => Nat.lt_succ_of_lt (hs.past k hk), ?_⟩
  refine .live s.loop.next rfl ?_ closing hnew (Nat.lt_succ_self _) hl SocketState.noConfusion
    SocketState.noConfusion ?_ (.before reading hw)
  · show s.loop.next :: s.loop.active = [s.loop.next]
    rw [active]
  · intro r hr
    rw [show s.loop.open_.reading = [] from reading] at hr
    cases hr

/-- The answer of the resolver. -/
theorem Safe.onResolved (hs : Safe f s t) (hsock : s.socket = none) (hw : Way s) (ok : Bool)
    (now : Nat) (ha : (onResolved s ok now).alive = true) : Safe f (onResolved s ok now) t := by
  have hs' : Safe f { s with loop := { s.loop with lookup := false } } t := by
    obtain ⟨active, closing, reading, state⟩ := hs.free hsock
    refine ⟨hs.pool, hs.own, hs.past, .idle hsock active closing reading state ?_⟩
    intro hl
    cases hl
  unfold Client.onResolved at ha ⊢
  dsimp only at ha ⊢
  split
  · rename_i hl
    rw [if_pos hl] at ha
    exact hs'.reconnect now ha
  · rename_i hl
    rw [if_neg hl] at ha
    split
    · rename_i hok
      rw [if_pos hok] at ha
      exact hs'.reconnect now ha
    · exact hs'.connectAddr hsock rfl hw now

theorem Safe.resolve (hs : Safe f s t) (hsock : s.socket = none) (hw : Way s)
    (cached : Option Bool) (now : Nat) (ha : (resolve s cached now).alive = true) :
    Safe f (resolve s cached now) t := by
  have hst : Safe f (Client.setState s .HostLookupState now) t :=
    hs.setState SocketState.noConfusion (Or.inl hsock) now
  obtain ⟨e, he⟩ := setState_eq s .HostLookupState now
  rw [he] at hst
  unfold Client.resolve at ha ⊢
  rw [he] at ha ⊢
  dsimp only at ha ⊢
  generalize hu : (if s.failures = -1 then _ else _ : Client) = u at ha ⊢
  have hu' : Safe f u t ∧ u.socket = none ∧ Way u := by
    rw [← hu]
    split
    · exact ⟨hst.aside rfl rfl rfl rfl rfl rfl, hsock, hw⟩
    · exact ⟨hst, hsock, hw⟩
  obtain ⟨hs', hsock', hw'⟩ := hu'
  cases cached with
  | some ok => exact hs'.onResolved hsock' hw' ok now ha
  | none =>
    obtain ⟨active, closing, reading, state⟩ := hs'.free hsock'
    refine ⟨hs'.pool, hs'.own, hs'.past, ?_⟩
    exact .idle hsock' active closing reading state fun _ => hw'

theorem Safe.connect (hs : Safe f s t) (hsock : s.socket = none) (cached : Option Bool)
    (now : Nat) (ha : (connect s cached now).alive = true) :
    Safe f (connect s cached now) (TlsLife.connect s t) := by
  have hidle {s' : Client} {t' : Option Tls} (hpool : s'.poolTLS = s.poolTLS)
      (hown : t'.isSome = s'.tls) (hsock' : s'.socket = s.socket) (hl : s'.loop = s.loop)
      (hst : s'.state = s.state) (hw : Way s') : Safe f s' t' := by
    obtain ⟨active, closing, reading, state⟩ := hs.free hsock
    rw [← hl] at active closing reading
    rw [← hst] at state
    refine ⟨hpool.trans hs.pool, hown, ?_, ?_⟩
    · rw [hl]
      exact hs.past
    · exact .idle (hsock'.trans hsock) active closing reading state fun _ => hw
  unfold Client.connect TlsLife.connect at *
  split
  · rename_i hp
    rw [if_pos hp] at ha
    have hw : Way { s with socks5 := some {} } := Or.inl (Option.some_ne_none _)
    have hs' : Safe f { s with socks5 := some {} } t := hidle rfl hs.own rfl rfl rfl hw
    exact hs'.resolve hsock hw cached now ha
  · rename_i hp
    rw [if_neg hp] at ha
    rw [if_pos hs.pool]
    have htls : (s.tls || s.poolTLS) = true := by rw [hs.pool, Bool.or_true]
    have hw : Way { s with tls := s.tls || s.poolTLS } := Or.inr htls
    have hs' : Safe f { s with tls := s.tls || s.poolTLS } (some {}) :=
      hidle rfl htls.symm rfl rfl rfl hw
    exact hs'.resolve hsock hw cached now ha

theorem Safe.tick (hs : Safe f s t) (cached : Option Bool) (w : Write) (now : Nat)
    (hsock : TlsLife.reconnects s now → s.socket = none) (ha : (tick s cached w now).alive = true) :
    Safe f (tick s cached w now) (if TlsLife.reconnects s now then TlsLife.connect s t else t) := by
  unfold Client.tick at ha ⊢
  by_cases hc : s.state = .ConnectedState
  · have hr : TlsLife.reconnects s now = false := by
      unfold TlsLife.reconnects
      rw [hc]
      rfl
    rw [if_pos hc, if_neg (Bool.eq_false_iff.mp hr)]
    split
    · exact hs.close
    · split
      · exact hs.send w now
      · exact hs
  · rw [if_neg hc] at ha ⊢
    by_cases hr : s.state = .ReconnectingState ∧ s.expire ≠ 0 ∧ s.expire < now
    · have hr' : TlsLife.reconnects s now = true := decide_eq_true hr
      rw [if_pos hr] at ha
      rw [if_pos hr, if_pos hr']
      exact hs.connect (hsock hr') cached now ha
    · have hr' : ¬ TlsLife.reconnects s now = true := fun hno => hr (of_decide_eq_true hno)
      rw [if_neg hr, if_neg hr']
      split
      · exact hs.close
      · exact hs

/-! ## The handshakes -/

theorem Safe.answered (hs : Safe f s t) (x : Handle) : Safe f (answered s x) t := by
  refine ⟨hs.pool, hs.own, hs.past, ?_⟩
  cases hs.phase with
  | idle socket active closing reading state way =>
    exact .idle socket active closing reading state way
  | live h socket active closing unclosed below lookup state state' reading stage =>
    refine .live h socket active closing unclosed below lookup state state' reading ?_
    cases stage with
    | before reading way => exact .before reading way
    | proxy socks5 => exact .proxy socks5
    | session socks5 tls u ht peer checked => exact .session socks5 tls u ht peer checked
  | closing h socket active closing below reading lookup state =>
    exact .closing h socket active closing below reading lookup state

/-- The session of the socket begins. -/
theorem Safe.begin (hs : Safe f s t) {h : Handle} (hsock : s.socket = some h) (u : Tls) :
    Safe f { s with socks5 := none, tls := true } (some (u.handshake (some h))) := by
  refine ⟨hs.pool, rfl, hs.past, ?_⟩
  cases hs.phase with
  | idle socket => cases hsock.symm.trans socket
  | live h' socket active closing unclosed below lookup state state' reading =>
    cases hsock.symm.trans socket
    refine .live h socket active closing unclosed below lookup state state' reading ?_
    exact .session rfl rfl _ rfl rfl fun hf => absurd hf Bool.false_ne_true
  | closing h' socket active closing below reading lookup state =>
    exact .closing h' socket active closing below reading lookup state

/-- `handshake` with TLS. -/
theorem Safe.handshake (hs : Safe f s t) (h₅ : s.socks5 = none) (htls : s.tls = true) (w : Write)
    (now : Nat) : Safe f (handshake s w now) t := by
  have hT := hs.isTLS htls
  have hs' : Safe f { s with socks5 := none, expire := now + kResponseTimeout } t :=
    hs.aside rfl rfl h₅.symm rfl rfl rfl
  unfold Client.handshake
  rw [h₅]
  dsimp only
  rw [if_pos hT]
  split
  · exact hs'.write w
  · exact hs'

/-- An open socket that is not before its handshakes goes through the proxy, or is one
of a session. -/
theorem Safe.open (hs : Safe f s t) {h : Handle} (hh : h ∈ s.loop.active) :
    s.socket = some h ∧ (s.socks5 = none → s.tls = true) := by
  cases hs.phase with
  | idle _ active =>
    rw [active] at hh
    cases hh
  | closing _ _ active =>
    rw [active] at hh
    cases hh
  | live x socket active _ _ _ _ _ _ _ stage =>
    rw [active] at hh
    cases List.mem_singleton.mp hh
    refine ⟨socket, fun h₅ => ?_⟩
    cases stage with
    | before _ way => exact way.resolve_left (not_not.mpr h₅)
    | proxy socks5 => exact absurd h₅ socks5
    | session _ tls => exact tls

/-- A pending lookup. -/
theorem Safe.looked (hs : Safe f s t) (hl : s.loop.lookup = true) : s.socket = none ∧ Way s := by
  cases hs.phase with
  | idle socket _ _ _ _ way => exact ⟨socket, way hl⟩
  | live _ _ _ _ _ _ lookup => exact absurd (lookup.symm.trans hl) Bool.false_ne_true
  | closing _ _ _ _ _ _ lookup => exact absurd (lookup.symm.trans hl) Bool.false_ne_true

/-- What is read comes from the open socket, on its way through the proxy or in its
session. -/
theorem Safe.reads (hs : Safe f s t) {h : Handle} (hh : h ∈ s.loop.reading) :
    h ∈ s.loop.active ∧ (s.socks5 = none → ∃ u, t = some u ∧ u.peer = some h ∧
      (u.finished = true → u.ready = true ∧ ∃ md, u.digest = some md ∧ Pinned f md)) := by
  cases hs.phase with
  | idle _ _ _ reading =>
    rw [reading] at hh
    cases hh
  | closing _ _ _ _ _ reading =>
    rw [reading] at hh
    cases hh
  | live x socket active _ _ _ _ _ _ reading stage =>
    cases reading h hh
    refine ⟨?_, fun h₅ => ?_⟩
    · rw [active]
      exact List.mem_singleton.mpr rfl
    · cases stage with
      | before reading =>
        rw [reading] at hh
        cases hh
      | proxy socks5 => exact absurd h₅ socks5
      | session _ _ u ht peer checked => exact ⟨u, ht, peer, checked⟩

/-- A connect that is answered. -/
theorem Safe.onConnect (hs : Safe f s t) {h : Handle} (ok : Bool) (w : Write) (now : Nat)
    (hh : ok = true → h ∈ s.loop.active) :
    Safe f (onConnect s h ok w now) (TlsLife.onConnect s t ok) := by
  unfold Client.onConnect TlsLife.onConnect
  cases ok with
  | false =>
    simp only [Bool.false_eq_true, false_and, if_false, not_false_eq_true, if_true]
    split
    · exact hs.close
    · exact hs
  | true =>
    simp only [true_and, not_true_eq_false, if_false]
    by_cases hst : s.state = .ConnectedState
    · rw [if_pos hst, if_neg fun hno => hno.1 hst]
      exact hs
    · rw [if_neg hst]
      obtain ⟨hsock, htls⟩ := hs.open (hh rfl)
      obtain ⟨e, he⟩ := setState_eq s .ConnectedState now
      rw [he]
      dsimp only
      rw [hsock]
      -- the socket is read now, and its first handshake begins
      have hlive {u : Client} {t' : Option Tls} (hpool : u.poolTLS = s.poolTLS)
          (hown : t'.isSome = u.tls) (hst' : u.state = .ConnectedState) (hsock' : u.socket = some h)
          (hl : u.loop = { s.loop with reading := [h] ++ s.loop.reading })
          (hstage : Stage f u t' h) : Safe f u t' := by
        refine ⟨hpool.trans hs.pool, hown, ?_, ?_⟩
        · rw [hl]
          exact hs.past
        cases hs.phase with
        | idle socket => cases hsock.symm.trans socket
        | closing _ _ active =>
          have hact := hh rfl
          rw [active] at hact
          cases hact
        | live x socket active closing unclosed below lookup _ _ reading _ =>
          cases hsock.symm.trans socket
          refine .live h hsock' ?_ ?_ ?_ ?_ ?_ ?_ ?_ ?_ hstage
          · rw [hl]
            exact active
          · rw [hl]
            exact closing
          · rw [hl]
            exact unclosed
          · rw [hl]
            exact below
          · rw [hl]
            exact lookup
          · rw [hst']
            exact SocketState.noConfusion
          · rw [hst']
            exact SocketState.noConfusion
          · intro r hr
            rw [hl] at hr
            rcases List.mem_cons.mp hr with hr | hr
            · exact hr
            · exact reading r hr
      cases h₅ : s.socks5 with
      | none =>
        have ht := htls h₅
        obtain ⟨u, hu⟩ := Option.isSome_iff_exists.mp (hs.own.trans ht)
        have hT := hs.isTLS ht
        rw [if_pos ⟨hst, rfl, hT⟩, hu]
        have hstage (v : Client) (hv₅ : v.socks5 = none) (hvt : v.tls = true) :
            Stage f v (some (u.handshake (some h))) h :=
          .session hv₅ hvt _ rfl rfl fun hf => absurd hf Bool.false_ne_true
        have hsafe : Safe f
            { s with
              state := .ConnectedState
              expire := e
              socket := some h
              socks5 := none
              loop := { s.loop with reading := [h] ++ s.loop.reading }
              last := some h }
            (some (u.handshake (some h))) :=
          hlive rfl ht.symm rfl rfl rfl (hstage _ rfl ht)
        exact hsafe.handshake rfl ht w now
      | some k =>
        rw [if_neg fun hno => Option.some_ne_none _ hno.2.1]
        unfold Client.handshake
        dsimp only
        apply Safe.write
        exact hlive rfl hs.own rfl rfl rfl (.proxy (Option.some_ne_none _))

/-! ## Reads -/

theorem readProxy_kept (s : Client) (k : Socks5) (c : Chunk) (w : Write) :
    (readProxy s k c w).socket = s.socket := by
  have hclose (u : Client) : (close u).2.socket = u.socket := by
    obtain ⟨_, _, he⟩ := close_eq u
    rw [he]
  unfold Client.readProxy
  split
  · rfl
  · split
    · split
      · unfold Client.write
        split
        · exact hclose _
        · rfl
      · rfl
    · exact hclose s

/-- A socket that goes through the proxy. -/
theorem Safe.proxied (hs : Safe f s t) {h : Handle} (hh : h ∈ s.loop.reading) (k : Socks5) :
    Safe f { s with socks5 := some k } t := by
  refine ⟨hs.pool, hs.own, hs.past, ?_⟩
  cases hs.phase with
  | idle _ _ _ reading =>
    rw [reading] at hh
    cases hh
  | closing _ _ _ _ _ reading =>
    rw [reading] at hh
    cases hh
  | live x socket active closing unclosed below lookup state state' reading _ =>
    exact .live x socket active closing unclosed below lookup state state' reading
      (.proxy (Option.some_ne_none _))

theorem Safe.readProxy (hs : Safe f s t) {h : Handle} (hh : h ∈ s.loop.reading) (k : Socks5)
    (c : Chunk) (w : Write) : Safe f (readProxy s k c w) t := by
  unfold Client.readProxy
  split
  · exact hs
  · split
    · split
      · exact (hs.proxied hh _).write w
      · exact hs.proxied hh _
    · exact hs.close

/-- What OpenSSL may make of a read, and what the client does with it. -/
inductive Reading (f : Option Bytes) (u : Tls) : TlsRead × Tls → Prop where
  | data (finished : u.finished = true) : Reading f u (.data, u)
  | wait (unfinished : u.finished = false) : Reading f u (.wait, u)
  | verified (md : Digest) (pinned : Pinned f md) :
      Reading f u (.verified, { u with finished := true, digest := some md, ready := true })
  | rejected (u' : Tls) : Reading f u (.rejected, u')

theorem reading (f : Option Bytes) (u : Tls) (r : Ssl) : Reading f u (u.read f r) := by
  unfold Tls.read
  split
  · rename_i hf
    exact .data hf
  · rename_i hf
    cases r with
    | wait => exact .wait (Bool.eq_false_iff.mpr hf)
    | data => exact .wait (Bool.eq_false_iff.mpr hf)
    | finished digest =>
      dsimp only
      split
      · rename_i hv
        cases digest with
        | none => cases hv
        | some md => exact .verified md (pinned_of_verify hv)
      · exact .rejected _

/-- The session of the open socket with another state of its certificate. -/
theorem Safe.replace (hs : Safe f s t) {h : Handle} (hh : h ∈ s.loop.reading)
    (h₅ : s.socks5 = none) {u : Tls} (hpeer : u.peer = some h)
    (hu : u.finished = true → u.ready = true ∧ ∃ md, u.digest = some md ∧ Pinned f md) :
    Safe f s (some u) := by
  obtain ⟨hact, -⟩ := hs.reads hh
  have htls := (hs.open hact).2 h₅
  refine ⟨hs.pool, htls.symm, hs.past, ?_⟩
  cases hs.phase with
  | idle _ _ _ reading =>
    rw [reading] at hh
    cases hh
  | closing _ _ _ _ _ reading =>
    rw [reading] at hh
    cases hh
  | live x socket active closing unclosed below lookup state state' reading _ =>
    cases reading h hh
    exact .live h socket active closing unclosed below lookup state state' reading
      (.session h₅ htls u rfl hpeer hu)

/-- **A read**, without the lines it brings. -/
theorem Safe.read (hs : Safe f s t) {h : Handle} (hh : h ∈ s.loop.reading) {c : Chunk} {r : Ssl}
    (hlines : c.lines = []) (hc : ∀ u, t = some u → c.tls = (u.read f r).1) (w : Write) (now : Nat)
    (ha : (Client.read s h (some c) w now).alive = true) :
    Safe f (Client.read s h (some c) w now) (TlsLife.read s t f c r w) := by
  obtain ⟨hact, hsession⟩ := hs.reads hh
  obtain ⟨hsock, htls⟩ := hs.open hact
  unfold Client.read TlsLife.read at *
  dsimp only at *
  by_cases hl : s.listening = true
  · rw [if_neg (not_not.mpr hl)] at ha ⊢
    rw [if_neg (not_not.mpr hl)]
    cases h₅ : s.socks5 with
    | some k =>
      dsimp only
      have hs₁ := hs.readProxy hh k c w
      by_cases hr : (Client.readProxy s k c w).socks5.any (·.state = .Ready) = true
      · rw [if_pos hr, if_pos ⟨hr, hs.pool⟩, hsock]
        have htrue : ((Client.readProxy s k c w).tls || (Client.readProxy s k c w).poolTLS) =
            true := by rw [hs₁.pool, Bool.or_true]
        rw [htrue]
        have hbegin := hs₁.begin ((readProxy_kept s k c w).trans hsock) (t.getD {})
        exact hbegin.handshake rfl rfl w now
      · rw [if_neg hr, if_neg fun hno => hr hno.1]
        exact hs₁
    | none =>
      dsimp only
      obtain ⟨u, rfl, hpeer, hchecked⟩ := hsession h₅
      have hT := hs.isTLS (htls h₅)
      rw [if_pos hT, if_pos hT, hc u rfl, Option.map_some]
      have hread := reading f u r
      generalize u.read f r = p at hread ⊢
      cases hread with
      | data =>
        unfold parse
        rw [hlines]
        exact hs.aside rfl rfl rfl rfl rfl rfl
      | wait =>
        dsimp only
        split
        · exact hs.write w
        · exact hs
      | verified md hpinned =>
        have hs' : Safe f s (some { u with finished := true, digest := some md, ready := true }) :=
          hs.replace hh h₅ hpeer fun _ => ⟨rfl, md, rfl, hpinned⟩
        exact hs'.send w now
      | rejected u' => exact hs.shut hsock hact rfl
  · rw [if_pos hl] at ha ⊢
    rw [if_pos hl]
    exact hs.reconnect now ha

/-- The close callback leaves no socket and no session. -/
theorem Safe.closed (hs : Safe f s t) {h : Handle} (hh : h ∈ s.loop.closing) (now : Nat)
    (ha : (onClose (finished s h) now).alive = true) :
    Safe f (onClose (finished s h) now) none := by
  unfold Client.onClose at ha ⊢
  obtain ⟨e, he⟩ := setState_eq { finished s h with socket := none } .UnconnectedState now
  rw [he] at ha ⊢
  refine Safe.reconnect ?_ now ha
  cases hs.phase with
  | idle _ _ closing =>
    rw [closing] at hh
    cases hh
  | live _ _ _ closing =>
    rw [closing] at hh
    cases hh
  | closing x socket active closing below reading lookup state =>
    rw [closing] at hh
    cases List.mem_singleton.mp hh
    refine ⟨hs.pool, rfl, ?_, .idle rfl active ?_ reading SocketState.noConfusion ?_⟩
    · intro k hk
      rcases List.mem_cons.mp hk with rfl | hk
      · exact below
      · exact hs.past k hk
    · show s.loop.closing.filter (· ≠ h) = []
      rw [closing]
      simp
    · intro hlook
      exact absurd (lookup.symm.trans hlook) Bool.false_ne_true

/-! ## Runs -/

/-- A living client; what the pool's lines name stays a TLS pool. -/
structure Inv (x : TlsLife) : Prop where
  safe : Safe x.fingerprint x.client x.tls
  lines : ∀ l ∈ x.base.rest, l ≠ .reconnect false

/-- The chunk has what the session makes of the bytes. -/
def Fits (x : TlsLife) (r : Ssl) : Client.Event → Prop
  | .read _ (some c) _ _ => (∀ u, x.tls = some u → c.tls = (u.read x.fingerprint r).1) ∧
      ∀ l ∈ c.lines, l ≠ .reconnect false
  | _ => True

theorem safe_call {x : TlsLife} (hs : Safe x.fingerprint x.client x.tls) {e : Client.Event}
    {r : Ssl} (hok : Ok x (.call e)) (hf : Fits x r e) {s' : Client}
    (hstep : Client.step x.client (Lined.bare e) = some s') (ha : s'.alive = true) :
    Safe x.fingerprint s' (TlsLife.after x e r) := by
  cases e with
  | connect cached now =>
    simp only [Lined.bare, Client.step, Option.ite_none_right_eq_some, Option.some.injEq] at hstep
    obtain ⟨-, rfl⟩ := hstep
    exact hs.connect hok.1 cached now ha
  | disconnect =>
    simp only [Lined.bare, Client.step, Option.ite_none_right_eq_some, Option.some.injEq] at hstep
    obtain ⟨-, rfl⟩ := hstep
    exact hs.disconnect
  | deleteLater =>
    simp only [Lined.bare, Client.step, Option.ite_none_right_eq_some, Option.some.injEq] at hstep
    obtain ⟨-, rfl⟩ := hstep
    exact hs.deleteLater ha
  | submit zero w now =>
    simp only [Lined.bare, Client.step, Option.ite_none_right_eq_some, Option.some.injEq] at hstep
    obtain ⟨-, rfl⟩ := hstep
    unfold submit
    split
    · exact hs
    · split
      · exact hs.close
      · exact hs.send w now
  | send big w now =>
    simp only [Lined.bare, Client.step, Option.ite_none_right_eq_some, Option.some.injEq] at hstep
    obtain ⟨-, rfl⟩ := hstep
    unfold sendObj
    split
    · exact hs.close
    · exact hs.send w now
  | tick cached w now =>
    simp only [Lined.bare, Client.step, Option.ite_none_right_eq_some, Option.some.injEq] at hstep
    obtain ⟨-, rfl⟩ := hstep
    exact hs.tick cached w now hok.1 ha
  | resolved ok now =>
    simp only [Lined.bare, Client.step, Option.ite_none_right_eq_some, Option.some.injEq] at hstep
    obtain ⟨⟨-, hl⟩, rfl⟩ := hstep
    obtain ⟨hsock, hw⟩ := hs.looked hl
    exact hs.onResolved hsock hw ok now ha
  | connected h ok w now =>
    simp only [Lined.bare, Client.step, Option.ite_none_right_eq_some, Option.some.injEq] at hstep
    obtain ⟨⟨-, -, hact⟩, rfl⟩ := hstep
    exact (hs.answered h).onConnect ok w now hact
  | read h c w now =>
    cases c with
    | none =>
      simp only [Lined.bare, Client.step, Option.ite_none_right_eq_some, Option.some.injEq] at hstep
      obtain ⟨-, rfl⟩ := hstep
      exact hs.close
    | some c =>
      simp only [Lined.bare, Client.step, Option.ite_none_right_eq_some, Option.some.injEq] at hstep
      obtain ⟨⟨-, hh⟩, rfl⟩ := hstep
      have hread := hs.read hh (c := { c with lines := [] }) rfl hf.1 w now ha
      exact hread
  | closed h now =>
    simp only [Lined.bare, Client.step, Option.ite_none_right_eq_some, Option.some.injEq] at hstep
    obtain ⟨⟨-, hh, -⟩, rfl⟩ := hstep
    exact hs.closed hh now ha

/-- A connected client behind its proxy uses TLS. -/
theorem Safe.encrypts (hs : Safe f s t) (hst : s.state = .ConnectedState) (h₅ : s.socks5 = none) :
    Client.isTLS s = true := by
  cases hs.phase with
  | idle _ _ _ _ state => exact absurd hst state
  | closing _ _ _ _ _ _ _ state => exact absurd hst state
  | live h _ active =>
    have hact : h ∈ s.loop.active := by
      rw [active]
      exact List.mem_singleton.mpr rfl
    exact hs.isTLS ((hs.open hact).2 h₅)

/-- **No request in clear**, of the owner or of a login. -/
theorem not_inClear {x : TlsLife} (hs : Safe x.fingerprint x.client x.tls) {e : Client.Event}
    (hok : Ok x (.call e)) {s' : Client} (hstep : Client.step x.client (Lined.bare e) = some s') :
    TlsLife.inClear x.client e = false := by
  have hsends : (TlsLife.sends x.client e && x.client.state = .ConnectedState &&
      !isTLS x.client) = false := by
    apply Bool.eq_false_iff.mpr
    intro hno
    simp only [Bool.and_eq_true, decide_eq_true_eq, Bool.not_eq_true'] at hno
    obtain ⟨⟨hsend, hst⟩, htls⟩ := hno
    have hyes := hs.encrypts hst (hok.2 hsend hst)
    exact Bool.false_ne_true (htls.symm.trans hyes)
  unfold TlsLife.inClear
  rw [hsends, Bool.false_or]
  cases e with
  | connected h ok w now =>
    simp only [Lined.bare, Client.step, Option.ite_none_right_eq_some] at hstep
    apply Bool.eq_false_iff.mpr
    intro hno
    obtain ⟨hok', -, h₅, htls⟩ := of_decide_eq_true hno
    exact htls (hs.isTLS ((hs.open (hstep.1.2.2 hok')).2 h₅))
  | read h c w now =>
    cases c with
    | none => rfl
    | some c =>
      dsimp only
      cases h₅ : x.client.socks5 with
      | none => rfl
      | some k =>
        unfold Lined.logsIn
        simp only [h₅, hs.pool, Bool.not_true, Bool.and_false]
  | _ => rfl

/-- **What the line reader gets** was decrypted by the session of the client's
socket. -/
theorem pieces_spec {x : TlsLife} (hs : Safe x.fingerprint x.client x.tls) {e : Client.Event}
    {r : Ssl} (hf : Fits x r e) {s' : Client}
    (hstep : Client.step x.client (Lined.bare e) = some s') :
    ∀ p ∈ TlsLife.pieces x e, p.present = some p.source ∧
      ∃ t, p.tls = some t ∧ Session x.fingerprint t p.source := by
  intro p hp
  cases e with
  | read h c w now =>
    cases c with
    | none => cases hp
    | some c =>
      simp only [Lined.bare, Client.step, Option.ite_none_right_eq_some] at hstep
      have hh := hstep.1.2
      obtain ⟨hact, hsession⟩ := hs.reads hh
      unfold TlsLife.pieces at hp
      dsimp only at hp
      split at hp
      · rename_i hreader
        obtain ⟨-, h₅, hdata⟩ := of_decide_eq_true hreader
        obtain ⟨u, hu, hpeer, hchecked⟩ := hsession h₅
        obtain ⟨hsock, htls⟩ := hs.open hact
        have hT := hs.isTLS (htls h₅)
        rw [List.mem_singleton.mp hp]
        refine ⟨hsock, u, ?_, ?_⟩
        · dsimp only
          rw [if_pos hT, hu]
        · have hread := reading x.fingerprint u r
          have hcase := (hf.1 u hu).symm.trans (hdata hT)
          generalize u.read x.fingerprint r = q at hread hcase
          cases hread with
          | data hfin =>
            obtain ⟨hready, hpinned⟩ := hchecked hfin
            exact ⟨hpeer, hfin, hready, hpinned⟩
          | wait => cases hcase
          | verified => cases hcase
          | rejected => cases hcase
      · cases hp
  | _ => cases hp

/-- **A login** comes when the session's handshake is finished. -/
theorem logins_spec {x : TlsLife} (hs : Safe x.fingerprint x.client x.tls) {e : Client.Event}
    {r : Ssl} (hok : Ok x (.call e)) (hf : Fits x r e) {s' : Client}
    (hstep : Client.step x.client (Lined.bare e) = some s')
    (hl : Lined.logsIn x.client e = true) :
    ∃ t h, (TlsLife.after x e r, x.client.socket) = (some t, some h) ∧
      Session x.fingerprint t h := by
  have hclear := not_inClear hs hok hstep
  unfold TlsLife.inClear at hclear
  obtain ⟨-, hclear⟩ := Bool.or_eq_false_iff.mp hclear
  cases e with
  | connected h ok w now => exact absurd (hclear.symm.trans hl) Bool.false_ne_true
  | read h c w now =>
    cases c with
    | none => cases hl
    | some c =>
      simp only [Lined.bare, Client.step, Option.ite_none_right_eq_some] at hstep
      obtain ⟨hact, hsession⟩ := hs.reads hstep.1.2
      dsimp only at hclear
      rw [hl, Bool.and_true, Option.isSome_eq_false_iff, Option.isNone_iff_eq_none] at hclear
      obtain ⟨u, hu, hpeer, hchecked⟩ := hsession hclear
      obtain ⟨hsock, htls⟩ := hs.open hact
      have hT := hs.isTLS (htls hclear)
      unfold Lined.logsIn at hl
      simp only [hclear, hT, Bool.true_and, Bool.and_eq_true, decide_eq_true_eq] at hl
      unfold TlsLife.after TlsLife.read
      dsimp only
      rw [if_neg (not_not.mpr hl.1), hclear]
      dsimp only
      rw [if_pos hT, hu, hsock, Option.map_some]
      have hread := reading x.fingerprint u r
      have hcase := (hf.1 u hu).symm.trans hl.2
      generalize u.read x.fingerprint r = q at hread hcase
      cases hread with
      | data => cases hcase
      | wait => cases hcase
      | rejected => cases hcase
      | verified md hpinned => exact ⟨_, h, rfl, hpeer, rfl, rfl, md, rfl, hpinned⟩
  | _ => cases hl

/-- What holds of a run: the law, and while the client lives, the invariant. -/
structure Good (x : TlsLife) : Prop where
  sealed : Sealed x
  inv : x.client.alive = true → Inv x

theorem step_alive {s s' : Client} {e : Client.Event} (h : Client.step s e = some s') :
    s.alive = true := by
  cases e <;> simp only [Client.step, Option.ite_none_right_eq_some] at h
  case deleteLater => exact h.1
  all_goals exact h.1.1

theorem good_next {x x' : TlsLife} {e : Client.Event} {r : Ssl} (hx : Good x)
    (hok : Ok x (.call e)) (hf : Fits x r e) (h : TlsLife.next x e r = some x') : Good x' := by
  unfold TlsLife.next at h
  obtain ⟨b, hb, rfl⟩ := Option.map_eq_some_iff.mp h
  simp only [Lined.step, Option.ite_none_right_eq_some, Option.map_eq_some_iff] at hb
  obtain ⟨-, s', hstep, rfl⟩ := hb
  have hi := hx.inv (step_alive hstep)
  have hs := hi.safe
  refine ⟨⟨?_, ?_, ?_⟩, fun ha => ⟨safe_call hs hok hf hstep ha, ?_⟩⟩
  · show x.clear + _ = 0
    rw [not_inClear hs hok hstep, hx.sealed.clear]
    rfl
  · intro p hp
    rcases List.mem_append.mp hp with hp | hp
    · exact pieces_spec hs hf hstep p hp
    · exact hx.sealed.fed p hp
  · intro l hl
    rcases List.mem_append.mp hl with hl | hl
    · split at hl
      · rename_i hlog
        rw [List.mem_singleton.mp hl]
        exact logins_spec hs hok hf hstep hlog
      · cases hl
    · exact hx.sealed.logins l hl
  · intro l hl
    rcases List.mem_append.mp hl with hl | hl
    · cases e with
      | read h c w now =>
        cases c with
        | none => cases hl
        | some c =>
          unfold Lined.brought at hl
          dsimp only at hl
          split at hl
          · exact hf.2 l hl
          · cases hl
      | _ => cases hl
    · exact hi.lines l hl

/-- A deleted client stays deleted. -/
theorem parseLine_alive (s : Client) (now : Nat) (l : Line)
    (ha : (parseLine s now l).alive = true) : s.alive = true := by
  have hclose (u : Client) : (close u).2.alive = u.alive := by
    obtain ⟨_, _, he⟩ := close_eq u
    rw [he]
  have htimeout (u : Client) : (startTimeout u now).alive = u.alive := by
    unfold Client.startTimeout
    split <;> rfl
  cases l with
  | reconnect tls =>
    have hrec : (reconnect { s with poolTLS := tls } now).alive = true := ha
    unfold Client.reconnect at hrec
    split at hrec
    · cases hrec
    · dsimp only at hrec
      split at hrec
      · exact hrec
      · obtain ⟨e, he⟩ := setState_eq { s with poolTLS := tls, keepAlive := 0 }
          .ReconnectingState now
        rw [he] at hrec
        exact hrec
  | login ext ok job =>
    cases ext with
    | none => exact (hclose s).symm.trans ha
    | some ext =>
      unfold Client.parseLine at ha
      dsimp only at ha
      have hext : (if ext then startTimeout { s with extKeepAlive := ext } now
          else { s with extKeepAlive := ext }).alive = s.alive := by
        split
        · exact htimeout _
        · rfl
      rw [← hext]
      split at ha
      · split at ha <;> exact ha
      · exact (hclose _).symm.trans ha
  | error critical =>
    unfold Client.parseLine at ha
    dsimp only at ha
    split at ha
    · exact (hclose s).symm.trans ha
    · exact ha
  | job ok =>
    unfold Client.parseLine at ha
    dsimp only at ha
    split at ha
    · exact ha
    · exact (hclose s).symm.trans ha
  | other => exact ha

theorem takeLine_spec (s : Client) (now : Nat) {l : Line} (hl : l ≠ .reconnect false) :
    ∃ l' more, Lined.takeLine s now l = (parseLine s now l', more) ∧ l' ≠ .reconnect false ∧
      ∀ m ∈ more, m ≠ Line.reconnect false := by
  unfold Lined.takeLine
  split
  · rename_i ext
    refine ⟨.login (some ext) true false, [.job true], rfl, Line.noConfusion, ?_⟩
    intro m hm
    rw [List.mem_singleton.mp hm]
    exact Line.noConfusion
  · refine ⟨l, [], rfl, hl, ?_⟩
    intro m hm
    cases hm

theorem good_line {x x' : TlsLife} {now : Nat} (hx : Good x)
    (h : TlsLife.step x (.line now) = some x') : Good x' := by
  unfold TlsLife.step at h
  obtain ⟨b, hb, rfl⟩ := Option.map_eq_some_iff.mp h
  refine ⟨⟨hx.sealed.clear, hx.sealed.fed, hx.sealed.logins⟩, ?_⟩
  intro ha
  unfold Lined.step at hb
  cases hr : x.base.rest with
  | nil =>
    simp only [hr] at hb
    cases hb
  | cons l rest =>
    simp only [hr, Option.some.injEq] at hb
    subst hb
    -- a client that lives after the line lived before it
    have halive : x.client.alive = true := by
      by_cases hl : l = .reconnect false
      · subst hl
        exact parseLine_alive _ _ _ ha
      · obtain ⟨l', more, htake, -, -⟩ := takeLine_spec x.client now hl
        have ha' : (Lined.takeLine x.client now l).1.alive = true := ha
        rw [htake] at ha'
        exact parseLine_alive _ _ _ ha'
    have hi := hx.inv halive
    have hlines := hi.lines
    rw [hr] at hlines
    obtain ⟨l', more, htake, hl', hmore⟩ :=
      takeLine_spec x.client now (hlines l (List.mem_cons_self ..))
    have ha' : (Lined.takeLine x.client now l).1.alive = true := ha
    constructor
    · show Safe x.fingerprint (Lined.takeLine x.client now l).1 x.tls
      rw [htake] at ha' ⊢
      exact hi.safe.parseLine now hl' ha'
    · show ∀ m ∈ (Lined.takeLine x.client now l).2 ++ rest, m ≠ .reconnect false
      rw [htake]
      intro m hm
      rcases List.mem_append.mp hm with hm | hm
      · exact hmore m hm
      · exact hlines m (List.mem_cons_of_mem _ hm)

theorem good_step {x x' : TlsLife} {e : TlsLife.Event} (hx : Good x) (hok : Ok x e)
    (h : TlsLife.step x e = some x') : Good x' := by
  cases e with
  | line now => exact good_line hx h
  | read h' size granted r lines w now =>
    have hf : Fits x r (.read h' (some (x.chunk size granted r lines)) w now) := by
      constructor
      · intro u hu
        unfold TlsLife.chunk
        rw [hu]
      · intro l hl
        obtain ⟨l', -, rfl⟩ := List.mem_map.mp hl
        cases l' <;> simp [TlsLife.sticky]
    have hok' : Ok x (.call (.read h' (some (x.chunk size granted r lines)) w now)) := by
      refine ⟨trivial, fun hno => ?_⟩
      cases hno
    exact good_next hx hok' hf h
  | call e =>
    cases e with
    | read h' c w now =>
      cases c with
      | none => exact good_next hx hok trivial h
      | some c => cases h
    | connect cached now => exact good_next hx hok trivial h
    | disconnect => exact good_next hx hok trivial h
    | deleteLater => exact good_next hx hok trivial h
    | submit zero w now => exact good_next hx hok trivial h
    | send big w now => exact good_next hx hok trivial h
    | tick cached w now => exact good_next hx hok trivial h
    | resolved ok now => exact good_next hx hok trivial h
    | connected h' ok w now => exact good_next hx hok trivial h
    | closed h' now => exact good_next hx hok trivial h

theorem good_init (c : Config) (fingerprint : Option Bytes) :
    Good (TlsLife.init c fingerprint) := by
  refine ⟨⟨rfl, ?_, ?_⟩, fun _ => ⟨⟨rfl, rfl, ?_, ?_⟩, ?_⟩⟩
  · intro p hp
    cases hp
  · intro l hl
    cases hl
  · intro k hk
    cases hk
  · refine .idle rfl rfl rfl rfl SocketState.noConfusion ?_
    intro hl
    cases hl
  · intro l hl
    cases hl

theorem inductive_good (c : Config) (fingerprint : Option Bytes) :
    ((lts c fingerprint).restrict Ok).Inductive Good where
  init x hx := by
    cases hx
    exact good_init c fingerprint
  step _ _ _ hx h := good_step hx h.1 h.2

/-- **TLS is never downgraded or unpinned**: for every TLS pool, with a proxy or without,
and any fingerprint, in every run whose steps meet `Ok`. -/
theorem sealed {c : Config} {fingerprint : Option Bytes} {x : TlsLife}
    (h : ((lts c fingerprint).restrict Ok).Reachable x) : Sealed x :=
  ((inductive_good c fingerprint).reachable h).sealed

/-- A certificate, and its digits in capital letters. -/
def certificate : Digest := ⟨List.replicate 32 0xab, rfl⟩

def capitals : Bytes := (List.replicate 32 [65, 66]).flatten

/-- The handshake, the login and its answer. -/
def mined : List TlsLife.Event :=
  [.call (.connect none 0), .call (.resolved true 10), .call (.connected 0 true .sent 20),
    .read 0 500 false .wait [] .sent 30, .read 0 500 false (.finished (some certificate)) [] .sent 40,
    .read 0 200 false .data [.login (some false) true true] .sent 50, .line 50, .line 50]

theorem sealed_mined : ∃ x, ((lts {} (some capitals)).restrict Ok).Reachable x ∧
    x.client.told = [.onLoginSuccess, .onJobReceived] ∧ x.logins.length = 1 ∧ x.fed.length = 1 ∧
    Sealed x := by
  obtain ⟨x, hx⟩ : ∃ x, LTS.execOk TlsLife.step Ok (TlsLife.init {} (some capitals)) mined =
      some x := Option.isSome_iff_exists.mp (by decide +kernel)
  have he : (LTS.execOk TlsLife.step Ok (TlsLife.init {} (some capitals)) mined).map
      (fun x => (x.client.told, x.logins.length, x.fed.length)) =
      some ([.onLoginSuccess, .onJobReceived], 1, 1) := by decide +kernel
  simp only [hx, Option.map_some, Option.some.injEq, Prod.mk.injEq] at he
  have hr : ((lts {} (some capitals)).restrict Ok).Reachable x := LTS.reachable_of_execOk hx
  exact ⟨x, hr, he.1, he.2.1, he.2.2, sealed hr⟩

/-- The socket fails, and the owner connects before its close callback. -/
def tooSoon : List TlsLife.Event :=
  [.call (.connect none 0), .call (.resolved true 10), .call (.connected 0 true .sent 20),
    .call (.read 0 none .sent 30), .call (.connect none 40), .call (.closed 0 50),
    .call (.resolved true 60), .call (.connected 1 true .sent 70)]

/-- A share while the proxy's handshake runs. -/
def throughProxy : List TlsLife.Event :=
  [.call (.connect none 0), .call (.resolved true 10), .call (.connected 0 true .sent 20),
    .call (.submit false .sent 30)]

/-- A `client.reconnect`; the next socket is closed, and the first one still reads. -/
def leftOpen : List TlsLife.Event :=
  [.call (.connect none 0), .call (.resolved true 10), .call (.connected 0 true .sent 20),
    .read 0 500 false (.finished (some certificate)) [] .sent 30,
    .read 0 100 false .data [.reconnect true] .sent 40, .line 40,
    .call (.tick none .sent 6000), .call (.resolved true 6010),
    .call (.connected 1 true .sent 6020), .call (.read 1 none .sent 6030),
    .call (.closed 1 6040), .read 0 100 false .wait [.job true] .sent 6050]

/-- A login in clear after a connect that came too soon, a share in clear behind a
proxy, and bytes for the line reader that were never encrypted. -/
theorem sealed_fails : (¬ ∀ c fingerprint x, (lts c fingerprint).Reachable x → Sealed x) ∧
    (LTS.exec TlsLife.step (TlsLife.init {} (some capitals)) tooSoon).map
      (fun x => (x.clear, x.logins)) = some (1, [(none, some 1)]) ∧
    (LTS.exec TlsLife.step (TlsLife.init { proxy := true } (some capitals)) throughProxy).map
      (·.clear) = some 1 ∧
    (LTS.exec TlsLife.step (TlsLife.init {} none) leftOpen).map (fun x => x.fed.head?) =
      some (some ⟨0, none, none⟩) := by
  refine ⟨?_, by decide, by decide, by decide⟩
  intro h
  obtain ⟨x, hx⟩ : ∃ x, LTS.exec TlsLife.step (TlsLife.init {} (some capitals)) tooSoon =
      some x := Option.isSome_iff_exists.mp (by decide)
  have he : (LTS.exec TlsLife.step (TlsLife.init {} (some capitals)) tooSoon).map (·.clear) =
      some 1 := by decide
  simp only [hx, Option.map_some, Option.some.injEq] at he
  have hclear := (h {} (some capitals) x (LTS.reachable_of_exec hx)).clear
  rw [he] at hclear
  cases hclear

end Rxs.L3.NoDowngrade
