import Rxs.Core.LTS
import Rxs.L3Protocol.Client

/-!
# One socket per client

A client owns at most one socket: open in the states CONNECTING and CONNECTED,
on its way out in CLOSING, none in the others. `onClose` relies on it, since it
deletes whatever `m_socket` points to, and so does the reader, which takes the
bytes of any socket that still reads.

A `client.reconnect` notification leaves CONNECTED without closing the socket,
and so does a `connect` of the owner while there is one; the next connect then
overwrites `m_socket`. `Ok` excludes the two.

* `inv_step`: the invariant, one lemma for each function of the client.
* **`one_socket`**: in every run of `Ok` steps.
* `one_socket_fails`: after a `client.reconnect` two sockets are open, the reader
  gets bytes of the older one, and a close callback frees the newer one.
-/
namespace Rxs.L3.OneSocket

open Rxs.Core Rxs.Client

/-- At most one socket is open or closing; the line reader only got bytes of the
socket connected last; a close callback freed the handle that was closed. -/
structure Single (s : Client) : Prop where
  one : (s.loop.active ++ s.loop.closing).length ≤ 1
  fed : ∀ p ∈ s.fed, p.2 = some p.1
  freed : ∀ p ∈ s.closes, p.2 = some p.1

def notReconnect : Line → Bool
  | .reconnect _ => false
  | _ => true

/-- The condition on a step: no connect while there is a socket, and no
client.reconnect. -/
def Ok (s : Client) : Client.Event → Prop
  | .connect _ _ => s.socket = none
  | .read _ (some c) _ _ => ∀ l ∈ c.lines, notReconnect l = true
  | _ => True

instance (s : Client) (e : Client.Event) : Decidable (Ok s e) := by
  unfold Ok; split <;> infer_instance

def lts (c : Config) : LTS Client Client.Event := LTS.ofFn (init c) step

/-! ## Invariant -/

/-- What the client and the loop hold of its socket. -/
inductive Phase (s : Client) : Prop where
  | idle (hs : s.socket = none) (ha : s.loop.active = []) (hc : s.loop.closing = [])
      (hst : s.state = .UnconnectedState ∨ s.state = .HostLookupState ∨
        s.state = .ReconnectingState)
  | live (h : Handle) (hs : s.socket = some h) (ha : s.loop.active = [h])
      (hc : s.loop.closing = []) (hn : h ∉ s.loop.closed) (hl : s.loop.lookup = false)
      (hst : s.state = .ConnectingState ∨ s.state = .ConnectedState)
  | closing (h : Handle) (hs : s.socket = some h) (ha : s.loop.active = [])
      (hc : s.loop.closing = [h]) (hl : s.loop.lookup = false) (hst : s.state = .ClosingState)

structure Inv (s : Client) : Prop where
  phase : Phase s
  reading : ∀ h ∈ s.loop.reading, s.loop.active = [h] ∧ s.last = some h
  below : ∀ h ∈ s.loop.active ++ s.loop.closing ++ s.loop.closed, h < s.loop.next
  deaf : s.listening = false → s.loop.active = []
  fed : ∀ p ∈ s.fed, p.2 = some p.1
  freed : ∀ p ∈ s.closes, p.2 = some p.1

theorem inv_init (c : Config) : Inv (init c) where
  phase := .idle rfl rfl rfl (.inl rfl)
  reading h hh := by cases hh
  below h hh := by cases hh
  deaf _ := rfl
  fed p hp := by cases hp
  freed p hp := by cases hp

/-- The part of a client the invariant is about. -/
structure Same (s t : Client) : Prop where
  state : t.state = s.state
  socket : t.socket = s.socket
  loop : t.loop = s.loop
  last : t.last = s.last
  listening : t.listening = s.listening
  fed : t.fed = s.fed
  closes : t.closes = s.closes

theorem Inv.same {s t : Client} (hi : Inv s) (h : Same s t) : Inv t where
  phase := by
    rcases hi.phase with ⟨hs, ha, hc, hst⟩ | ⟨k, hs, ha, hc, hn, hl, hst⟩ | ⟨k, hs, ha, hc, hl, hst⟩
    · rw [← h.loop] at ha hc
      exact .idle (h.socket.trans hs) ha hc (h.state ▸ hst)
    · rw [← h.loop] at ha hc hn hl
      exact .live k (h.socket.trans hs) ha hc hn hl (h.state ▸ hst)
    · rw [← h.loop] at ha hc hl
      exact .closing k (h.socket.trans hs) ha hc hl (h.state ▸ hst)
  reading := by rw [h.loop, h.last]; exact hi.reading
  below := by rw [h.loop]; exact hi.below
  deaf := by rw [h.loop, h.listening]; exact hi.deaf
  fed := by rw [h.fed]; exact hi.fed
  freed := by rw [h.closes]; exact hi.freed

theorem same_startTimeout (s : Client) (now : Nat) : Same s (startTimeout s now) := by
  unfold startTimeout
  split <;> exact ⟨rfl, rfl, rfl, rfl, rfl, rfl, rfl⟩

/-- Without a socket the state may change among those that have none. -/
theorem inv_idle {s : Client} (hi : Inv s) (hs : s.socket = none) {st : SocketState}
    (hst : st = .UnconnectedState ∨ st = .HostLookupState ∨ st = .ReconnectingState)
    (e : Nat) : Inv { s with state := st, expire := e } := by
  rcases hi.phase with ⟨-, ha, hc, -⟩ | ⟨h, hs', -⟩ | ⟨h, hs', -⟩
  · exact ⟨.idle hs ha hc hst, hi.reading, hi.below, hi.deaf, hi.fed, hi.freed⟩
  · rw [hs] at hs'; cases hs'
  · rw [hs] at hs'; cases hs'

/-! ## One lemma for each function -/

/-- After `close` the socket, if there was one, is closing. -/
theorem inv_close {s : Client} (hi : Inv s) : Inv (close s).2 ∧ (close s).2.loop.active = [] := by
  rcases hi.phase with ⟨hs, ha, hc, hst⟩ | ⟨h, hs, ha, hc, hn, hl, hst⟩ | ⟨h, hs, ha, hc, hl, hst⟩
  · have hne : s.state ≠ .ClosingState := by
      rcases hst with h | h | h <;> rw [h] <;> decide
    have e : close s = (false, s) := by rw [close, if_neg hne, hs]
    rw [e]
    exact ⟨hi, ha⟩
  · have hne : s.state ≠ .ClosingState := by rcases hst with h | h <;> rw [h] <;> decide
    have hnu : s.state ≠ .UnconnectedState := by rcases hst with h | h <;> rw [h] <;> decide
    have hcl : s.loop.isClosing h = false := by
      simp [Loop.isClosing, hc, hn]
    have e : close s = (true, { s with state := .ClosingState, loop := s.loop.uvClose h }) := by
      rw [close, if_neg hne, hs]
      simp only [if_neg hnu, hcl, Bool.false_eq_true, if_false]
    have hnil : s.loop.active.filter (· ≠ h) = [] := by rw [ha]; simp
    rw [e]
    refine ⟨⟨.closing h hs hnil ?_ hl rfl, ?_, ?_, fun _ => hnil, hi.fed, hi.freed⟩, hnil⟩
    · change h :: s.loop.closing = [h]
      rw [hc]
    · intro k hk
      obtain ⟨hk, hne⟩ := List.mem_filter.mp hk
      have hka := (hi.reading k hk).1
      rw [ha] at hka
      cases hka
      simp at hne
    · intro k hk
      refine hi.below k ?_
      change k ∈ s.loop.active.filter (· ≠ h) ++ (h :: s.loop.closing) ++ s.loop.closed at hk
      rw [hnil, hc] at hk
      rw [ha, hc]
      exact hk
  · have e : close s = (s.socket.isSome, s) := by rw [close, if_pos hst]
    rw [e]
    exact ⟨hi, ha⟩

theorem inv_remove {s : Client} (hi : Inv s) (hs : s.socket = none) : Inv (remove s) := by
  rcases hi.phase with ⟨-, ha, hc, hst⟩ | ⟨h, hs', -⟩ | ⟨h, hs', -⟩
  · exact ⟨.idle rfl ha hc hst, hi.reading, hi.below, hi.deaf, hi.fed, hi.freed⟩
  · rw [hs] at hs'; cases hs'
  · rw [hs] at hs'; cases hs'

theorem inv_reconnect {s : Client} (hi : Inv s) (hs : s.socket = none) (now : Nat) :
    Inv (reconnect s now) := by
  unfold reconnect
  split
  · exact inv_remove hi hs
  · dsimp only
    split
    · exact hi.same ⟨rfl, rfl, rfl, rfl, rfl, rfl, rfl⟩
    · obtain ⟨e, he⟩ := setState_eq { s with keepAlive := 0 } .ReconnectingState now
      rw [he]
      exact (inv_idle hi hs (.inr (.inr rfl)) e).same ⟨rfl, rfl, rfl, rfl, rfl, rfl, rfl⟩

theorem inv_connectAddr {s : Client} (hi : Inv s) (hs : s.socket = none)
    (hl : s.loop.lookup = false) (hd : s.listening = true) (now : Nat) :
    Inv (connectAddr s now) := by
  obtain ⟨e, he⟩ := setState_eq s .ConnectingState now
  rcases hi.phase with ⟨-, ha, hc, -⟩ | ⟨h, hs', -⟩ | ⟨h, hs', -⟩
  · unfold connectAddr
    rw [he]
    have hbelow := hi.below
    rw [ha, hc] at hbelow
    refine ⟨.live s.loop.next rfl ?_ hc ?_ hl (.inl rfl), ?_, ?_, ?_, hi.fed, hi.freed⟩
    · change s.loop.next :: s.loop.active = _
      rw [ha]
    · intro hk
      exact Nat.lt_irrefl _ (hbelow _ hk)
    · intro k hk
      have := (hi.reading k hk).1
      rw [ha] at this
      cases this
    · intro k hk
      change k ∈ (s.loop.next :: s.loop.active) ++ s.loop.closing ++ s.loop.closed at hk
      rw [ha, hc] at hk
      rcases List.mem_cons.mp hk with rfl | hk
      · exact Nat.lt_succ_self _
      · exact Nat.lt_succ_of_lt (hbelow k hk)
    · intro hd'
      change s.listening = false at hd'
      rw [hd] at hd'
      cases hd'
  · rw [hs] at hs'; cases hs'
  · rw [hs] at hs'; cases hs'

/-- The lookup is no part of what an idle client has to keep. -/
theorem inv_lookup {s : Client} (hi : Inv s) (hs : s.socket = none) (b : Bool) :
    Inv { s with loop := { s.loop with lookup := b } } := by
  rcases hi.phase with ⟨-, ha, hc, hst⟩ | ⟨h, hs', -⟩ | ⟨h, hs', -⟩
  · exact ⟨.idle hs ha hc hst, hi.reading, hi.below, hi.deaf, hi.fed, hi.freed⟩
  · rw [hs] at hs'; cases hs'
  · rw [hs] at hs'; cases hs'

theorem inv_onResolved {s : Client} (hi : Inv s) (hs : s.socket = none) (ok : Bool) (now : Nat) :
    Inv (onResolved s ok now) := by
  have hi' := inv_lookup hi hs false
  unfold onResolved
  dsimp only
  split
  · exact inv_reconnect hi' hs now
  · rename_i hd
    split
    · exact inv_reconnect hi' hs now
    · exact inv_connectAddr hi' hs rfl (by simpa using hd) now

theorem inv_resolve {s : Client} (hi : Inv s) (hs : s.socket = none) (cached : Option Bool)
    (now : Nat) : Inv (resolve s cached now) := by
  obtain ⟨e, he⟩ := setState_eq s .HostLookupState now
  have hi₁ := inv_idle hi hs (.inr (.inl rfl)) e
  have hi₂ : ∀ f : Int, Inv { s with state := .HostLookupState, expire := e, failures := f } :=
    fun _ => hi₁.same ⟨rfl, rfl, rfl, rfl, rfl, rfl, rfl⟩
  unfold resolve
  rw [he]
  dsimp only
  by_cases hf : s.failures = -1
  · rw [if_pos hf]
    cases cached with
    | none => exact inv_lookup (hi₂ 0) hs true
    | some ok => exact inv_onResolved (hi₂ 0) hs ok now
  · rw [if_neg hf]
    cases cached with
    | none => exact inv_lookup (hi₂ s.failures) hs true
    | some ok => exact inv_onResolved (hi₂ s.failures) hs ok now

theorem inv_connect {s : Client} (hi : Inv s) (hs : s.socket = none) (cached : Option Bool)
    (now : Nat) : Inv (connect s cached now) := by
  unfold connect
  split
  · have hi' : Inv { s with socks5 := some {} } := hi.same ⟨rfl, rfl, rfl, rfl, rfl, rfl, rfl⟩
    exact inv_resolve hi' hs cached now
  · have hi' : Inv { s with tls := s.tls || s.poolTLS } :=
      hi.same ⟨rfl, rfl, rfl, rfl, rfl, rfl, rfl⟩
    exact inv_resolve hi' hs cached now

theorem inv_write {s : Client} (hi : Inv s) (w : Write) : Inv (write s w) := by
  unfold write
  split
  · exact (inv_close hi).1
  · exact hi

theorem inv_send {s : Client} (hi : Inv s) (w : Write) (now : Nat) : Inv (send s w now) := by
  unfold send
  split
  · exact hi
  · cases w with
    | refused => exact hi
    | failed =>
      dsimp only
      split
      · exact (inv_close hi).1
      · exact hi
    | sent =>
      have hi' : Inv { s with expire := now + kResponseTimeout } :=
        hi.same ⟨rfl, rfl, rfl, rfl, rfl, rfl, rfl⟩
      exact hi'.same (same_startTimeout _ now)

theorem inv_disconnect {s : Client} (hi : Inv s) : Inv (disconnect s).2 := by
  have hi' : Inv { s with keepAlive := 0, expire := 0, failures := -1 } :=
    hi.same ⟨rfl, rfl, rfl, rfl, rfl, rfl, rfl⟩
  exact (inv_close hi').1

theorem close_listening (s : Client) (b : Bool) :
    close { s with listening := b } = ((close s).1, { (close s).2 with listening := b }) := by
  unfold close
  dsimp only
  split
  · rfl
  · split
    · rfl
    · split <;> rfl

/-- Where no close callback will come there is no socket. -/
theorem close_false {s : Client} (hi : Inv s) (hf : (close s).1 = false) :
    (close s).2.socket = none := by
  rcases hi.phase with ⟨hs, -, -, hst⟩ | ⟨h, hs, -, -, -, -, hst⟩ | ⟨h, hs, -, -, -, hst⟩
  · have hne : s.state ≠ .ClosingState := by
      rcases hst with h | h | h <;> rw [h] <;> decide
    rw [close, if_neg hne, hs]
    exact hs
  · have hne : s.state ≠ .ClosingState := by rcases hst with h | h <;> rw [h] <;> decide
    have hnu : s.state ≠ .UnconnectedState := by rcases hst with h | h <;> rw [h] <;> decide
    rw [close, if_neg hne, hs] at hf
    simp only [if_neg hnu] at hf
    cases hf
  · rw [close, if_pos hst, hs] at hf
    cases hf

theorem inv_deleteLater {s : Client} (hi : Inv s) : Inv (deleteLater s) := by
  unfold deleteLater
  split
  · exact hi
  · -- the listener goes, and with it the open socket
    let t : Client := { s with keepAlive := 0, expire := 0, failures := -1 }
    have ht : Inv t := hi.same ⟨rfl, rfl, rfl, rfl, rfl, rfl, rfl⟩
    obtain ⟨hc, hn⟩ := inv_close ht
    have hc' : Inv { (close t).2 with listening := false } := by
      refine ⟨?_, hc.reading, hc.below, fun _ => hn, hc.fed, hc.freed⟩
      rcases hc.phase with ⟨hs, ha, hc, hst⟩ | ⟨k, hs, ha, hc, hn, hl, hst⟩ |
        ⟨k, hs, ha, hc, hl, hst⟩
      · exact .idle hs ha hc hst
      · exact .live k hs ha hc hn hl hst
      · exact .closing k hs ha hc hl hst
    have e : disconnect { s with listening := false } =
        ((close t).1, { (close t).2 with listening := false }) := close_listening t false
    rw [e]
    dsimp only
    split
    · exact hc'
    · rename_i hf
      exact inv_remove hc' (close_false ht (by simpa using hf))

theorem inv_tell {s : Client} (hi : Inv s) (n : Notice) : Inv (tell s n) :=
  hi.same ⟨rfl, rfl, rfl, rfl, rfl, rfl, rfl⟩

theorem inv_startTimeout {s : Client} (hi : Inv s) (now : Nat) : Inv (startTimeout s now) :=
  hi.same (same_startTimeout s now)

theorem inv_parseLine {s : Client} (hi : Inv s) (now : Nat) {l : Line}
    (hl : notReconnect l = true) : Inv (parseLine s now l) := by
  cases l with
  | reconnect tls => cases hl
  | login ext ok job =>
    cases ext with
    | none => exact (inv_close hi).1
    | some ext =>
      have hi₁ : Inv { s with extKeepAlive := ext } := hi.same ⟨rfl, rfl, rfl, rfl, rfl, rfl, rfl⟩
      have hi₂ : Inv (if ext then startTimeout { s with extKeepAlive := ext } now
          else { s with extKeepAlive := ext }) := by
        split
        · exact inv_startTimeout hi₁ now
        · exact hi₁
      unfold parseLine
      dsimp only
      generalize (if ext then startTimeout { s with extKeepAlive := ext } now
          else { s with extKeepAlive := ext }) = t at hi₂ ⊢
      have hi₃ : Inv { t with failures := 0 } := hi₂.same ⟨rfl, rfl, rfl, rfl, rfl, rfl, rfl⟩
      split
      · split
        · exact inv_tell (inv_tell hi₃ _) _
        · exact inv_tell hi₃ _
      · exact (inv_close hi₂).1
  | error critical =>
    unfold parseLine
    dsimp only
    split
    · exact (inv_close hi).1
    · exact hi
  | job ok =>
    unfold parseLine
    dsimp only
    split
    · exact inv_tell hi _
    · exact (inv_close hi).1
  | other => exact hi

/-- The bytes come from the socket connected last. -/
theorem inv_parse {s : Client} (hi : Inv s) {h : Handle} (hh : s.last = some h)
    {lines : List Line} (hl : ∀ l ∈ lines, notReconnect l = true) (now : Nat) :
    Inv (parse s h lines now) := by
  have hi' : Inv { s with fed := (h, s.last) :: s.fed } := by
    refine ⟨?_, hi.reading, hi.below, hi.deaf, ?_, hi.freed⟩
    · rcases hi.phase with ⟨hs, ha, hc, hst⟩ | ⟨k, hs, ha, hc, hn, hl, hst⟩ |
        ⟨k, hs, ha, hc, hl, hst⟩
      · exact .idle hs ha hc hst
      · exact .live k hs ha hc hn hl hst
      · exact .closing k hs ha hc hl hst
    · exact List.forall_mem_cons.mpr ⟨hh, hi.fed⟩
  unfold parse
  generalize { s with fed := (h, s.last) :: s.fed } = t at hi' ⊢
  induction lines generalizing t with
  | nil => exact hi'
  | cons l lines ih =>
    rw [List.foldl_cons]
    exact ih (fun l' hl' => hl l' (List.mem_cons_of_mem _ hl')) _
      (inv_parseLine hi' now (hl l (List.mem_cons_self ..)))

theorem inv_readProxy {s : Client} (hi : Inv s) (k : Socks5) (c : Chunk) (w : Write) :
    Inv (readProxy s k c w) := by
  unfold readProxy
  split
  · exact hi
  · split
    · split
      · have hi' : Inv { s with socks5 := some ⟨.SentFinalHandshake, 5⟩ } :=
          hi.same ⟨rfl, rfl, rfl, rfl, rfl, rfl, rfl⟩
        exact inv_write hi' w
      · exact hi.same ⟨rfl, rfl, rfl, rfl, rfl, rfl, rfl⟩
    · exact (inv_close hi).1

theorem inv_handshake {s : Client} (hi : Inv s) (w : Write) (now : Nat) :
    Inv (handshake s w now) := by
  unfold handshake
  split
  · have hi' : Inv { s with socks5 := some ⟨.SentInitialHandshake, 2⟩ } :=
      hi.same ⟨rfl, rfl, rfl, rfl, rfl, rfl, rfl⟩
    exact inv_write hi' w
  · split
    · have hi' : Inv { s with expire := now + kResponseTimeout } :=
        hi.same ⟨rfl, rfl, rfl, rfl, rfl, rfl, rfl⟩
      dsimp only
      split
      · exact inv_write hi' w
      · exact hi'
    · exact inv_send hi w now

theorem inv_read {s : Client} (hi : Inv s) {h : Handle} (hh : h ∈ s.loop.reading)
    {c : Option Chunk} (hc : ∀ c' ∈ c, ∀ l ∈ c'.lines, notReconnect l = true) (w : Write)
    (now : Nat) : Inv (s.read h c w now) := by
  obtain ⟨ha, hlast⟩ := hi.reading h hh
  cases c with
  | none => exact (inv_close hi).1
  | some c =>
    have hl := hc c rfl
    unfold Client.read
    dsimp only
    split
    · -- a client without listener reads no socket
      rename_i hd
      rw [hi.deaf (by simpa using hd)] at ha
      cases ha
    · split
      · rename_i k _
        have hi₁ := inv_readProxy hi k c w
        split
        · have hi₂ : Inv { readProxy s k c w with
              socks5 := none, tls := (readProxy s k c w).tls || (readProxy s k c w).poolTLS } :=
            hi₁.same ⟨rfl, rfl, rfl, rfl, rfl, rfl, rfl⟩
          exact inv_handshake hi₂ w now
        · exact hi₁
      · split
        · split
          · split
            · exact inv_write hi w
            · exact hi
          · exact inv_send hi w now
          · exact (inv_close hi).1
          · exact inv_parse hi hlast hl now
        · exact inv_parse hi hlast hl now

theorem inv_tick {s : Client} (hi : Inv s) (cached : Option Bool) (w : Write) (now : Nat) :
    Inv (tick s cached w now) := by
  unfold tick
  split
  · split
    · exact (inv_close hi).1
    · split
      · exact inv_send hi w now
      · exact hi
  · split
    · rename_i hr
      rcases hi.phase with ⟨hs, -⟩ | ⟨h, -, -, -, -, -, hst⟩ | ⟨h, -, -, -, -, hst⟩
      · exact inv_connect hi hs cached now
      · rw [hr.1] at hst
        rcases hst with hst | hst <;> cases hst
      · rw [hr.1] at hst
        cases hst
    · split
      · exact (inv_close hi).1
      · exact hi

theorem inv_onConnect {s : Client} (hi : Inv s) {h : Handle} {ok : Bool}
    (hok : ok = true → h ∈ s.loop.active) (w : Write) (now : Nat) :
    Inv (onConnect (answered s h) h ok w now) := by
  have hi' : Inv (answered s h) := by
    refine ⟨?_, hi.reading, hi.below, hi.deaf, hi.fed, hi.freed⟩
    rcases hi.phase with ⟨hs, ha, hc, hst⟩ | ⟨k, hs, ha, hc, hn, hl, hst⟩ |
      ⟨k, hs, ha, hc, hl, hst⟩
    · exact .idle hs ha hc hst
    · exact .live k hs ha hc hn hl hst
    · exact .closing k hs ha hc hl hst
  have hok' : ok = true → h ∈ (answered s h).loop.active := hok
  generalize answered s h = t at hi' hok'
  unfold onConnect
  split
  · split
    · exact (inv_close hi').1
    · exact hi'
  · rename_i hk
    split
    · exact hi'
    · have hm := hok' (by simpa using hk)
      obtain ⟨e, he⟩ := setState_eq t .ConnectedState now
      rw [he]
      dsimp only
      rcases hi'.phase with ⟨-, ha, -⟩ | ⟨k, hs, ha, hc, hn, hl, -⟩ | ⟨k, -, ha, -⟩
      · rw [ha] at hm; cases hm
      · rw [ha] at hm
        cases List.mem_singleton.mp hm
        have hr : ∀ k ∈ t.socket.toList ++ t.loop.reading, k = h := by
          intro k hk
          rw [hs] at hk
          rcases List.mem_cons.mp hk with rfl | hk
          · rfl
          · have := ha.symm.trans (hi'.reading k hk).1
            cases this
            rfl
        have hi₂ : Inv { t with
            state := .ConnectedState, expire := e, last := some h,
            loop := { t.loop with reading := t.socket.toList ++ t.loop.reading } } := by
          refine ⟨.live h hs ha hc hn hl (.inr rfl), fun k hk => ?_, hi'.below, hi'.deaf,
            hi'.fed, hi'.freed⟩
          cases hr k hk
          exact ⟨ha, rfl⟩
        exact inv_handshake hi₂ w now
      · rw [ha] at hm; cases hm

/-- The callback finds the socket that was closed in `m_socket`. -/
theorem inv_closed {s : Client} (hi : Inv s) {h : Handle} (hh : h ∈ s.loop.closing) (now : Nat) :
    Inv (onClose (finished s h) now) := by
  rcases hi.phase with ⟨-, -, hc, -⟩ | ⟨k, -, -, hc, -⟩ | ⟨k, hs, ha, hc, hl, hst⟩
  · rw [hc] at hh; cases hh
  · rw [hc] at hh; cases hh
  · rw [hc] at hh
    cases List.mem_singleton.mp hh
    unfold onClose
    obtain ⟨e, he⟩ := setState_eq { finished s h with socket := none } .UnconnectedState now
    rw [he]
    have hnil : s.loop.closing.filter (· ≠ h) = [] := by rw [hc]; simp
    have hi₂ : Inv { finished s h with
        socket := none, state := .UnconnectedState, expire := e, tls := false } := by
      refine ⟨.idle rfl ha hnil (.inl rfl), hi.reading, fun k hk => ?_, hi.deaf, hi.fed,
        List.forall_mem_cons.mpr ⟨hs, hi.freed⟩⟩
      change k ∈ s.loop.active ++ s.loop.closing.filter (· ≠ h) ++ h :: s.loop.closed at hk
      rw [ha, hnil] at hk
      refine hi.below k ?_
      rw [ha, hc]
      exact hk
    exact inv_reconnect hi₂ rfl now

theorem inv_step {s s' : Client} {e : Client.Event} (hi : Inv s) (hok : Ok s e)
    (h : step s e = some s') : Inv s' := by
  unfold step at h
  split at h <;> (split at h; swap; · cases h) <;> cases h
  · exact inv_connect hi hok _ _
  · exact inv_disconnect hi
  · exact inv_deleteLater hi
  · unfold submit
    split
    · exact hi
    · split
      · exact (inv_close hi).1
      · exact inv_send hi _ _
  · unfold sendObj
    split
    · exact (inv_close hi).1
    · exact inv_send hi _ _
  · exact inv_tick hi _ _ _
  · rename_i hg
    rcases hi.phase with ⟨hs, -⟩ | ⟨h, -, -, -, -, hl, -⟩ | ⟨h, -, -, -, hl, -⟩
    · exact inv_onResolved hi hs _ _
    · rw [hl] at hg; cases hg.2
    · rw [hl] at hg; cases hg.2
  · rename_i hg
    exact inv_onConnect hi hg.2.2 _ _
  · rename_i h c w now hg
    refine inv_read hi hg.2 (fun c' hc' => ?_) _ _
    cases c with
    | none => cases hc'
    | some c => cases hc'; exact hok
  · rename_i hg
    exact inv_closed hi hg.2.1 _

theorem inv_inductive (c : Config) : ((lts c).restrict Ok).Inductive Inv where
  init s hs := by rw [hs]; exact inv_init c
  step s e s' hi hs := inv_step hi hs.1 hs.2

/-- **One socket per client**, for any pool, in every run without a client.reconnect and
without a connect while there is a socket. -/
theorem one_socket {c : Config} {s : Client} (h : ((lts c).restrict Ok).Reachable s) :
    Single s := by
  have hi := (inv_inductive c).reachable h
  refine ⟨?_, hi.fed, hi.freed⟩
  rcases hi.phase with ⟨-, ha, hc, -⟩ | ⟨k, -, ha, hc, -⟩ | ⟨k, -, ha, hc, -⟩
  · rw [ha, hc]; decide
  · rw [ha, hc]; exact Nat.le_refl 1
  · rw [ha, hc]; exact Nat.le_refl 1

/-! ## A notification that leaves the socket open -/

/-- Connect, log in, lose the connection and log in again. -/
def again : List Client.Event :=
  [.connect none 0, .resolved true 10, .connected 0 true .sent 20,
   .read 0 (some { lines := [.login (some false) true true] }) .sent 30,
   .read 0 none .sent 40, .closed 0 50, .tick (some true) .sent 6000,
   .connected 1 true .sent 6010,
   .read 1 (some { lines := [.login (some false) true true, .job true] }) .sent 6020]

theorem one_socket_again : ∃ s, LTS.execOk step Ok (init {}) again = some s ∧
    s.fed = [(1, some 1), (0, some 0)] ∧ s.closes = [(0, some 0)] ∧ Single s := by
  obtain ⟨s, hs⟩ : ∃ s, LTS.execOk step Ok (init {}) again = some s :=
    Option.isSome_iff_exists.mp (by decide)
  have he : (LTS.execOk step Ok (init {}) again).map (fun s => (s.fed, s.closes)) =
    some ([(1, some 1), (0, some 0)], [(0, some 0)]) := by decide
  simp only [hs, Option.map_some, Option.some.injEq, Prod.mk.injEq] at he
  exact ⟨s, hs, he.1, he.2, one_socket (c := {}) (LTS.reachable_of_execOk hs)⟩

/-- A client.reconnect, the deadline of the reconnect and the new lookup. -/
def moved : List Client.Event :=
  [.connect none 0, .resolved true 10, .connected 0 true .sent 20,
   .read 0 (some { lines := [.login (some false) true true, .reconnect false] }) .sent 30,
   .tick none .sent 6000]

/-- The new socket is open, and the old one still reads. -/
def reading : List Client.Event :=
  moved ++ [.resolved true 6010, .connected 1 true .sent 6020, .read 0 (some {}) .sent 6030]

/-- The old socket is closed while the lookup is on. -/
def closing : List Client.Event :=
  moved ++ [.read 0 none .sent 6010, .resolved true 6020, .closed 0 6030]

theorem one_socket_fails :
    (¬ ∀ s, (lts {}).Reachable s → (s.loop.active ++ s.loop.closing).length ≤ 1) ∧
      (¬ ∀ s, (lts {}).Reachable s → ∀ p ∈ s.fed, p.2 = some p.1) ∧
      ¬ ∀ s, (lts {}).Reachable s → ∀ p ∈ s.closes, p.2 = some p.1 := by
  obtain ⟨s, hs⟩ : ∃ s, LTS.exec step (init {}) reading = some s :=
    Option.isSome_iff_exists.mp (by decide)
  have he : (LTS.exec step (init {}) reading).map (fun s => (s.loop.active ++ s.loop.closing, s.fed)) =
    some ([1, 0], [(0, some 1), (0, some 0)]) := by decide
  simp only [hs, Option.map_some, Option.some.injEq, Prod.mk.injEq] at he
  refine ⟨fun h => ?_, fun h => ?_, fun h => ?_⟩
  · have := h s (LTS.reachable_of_exec hs)
    rw [he.1] at this
    exact absurd this (by decide)
  · have := h s (LTS.reachable_of_exec hs) (0, some 1) (by rw [he.2]; decide)
    exact absurd this (by decide)
  · obtain ⟨t, ht⟩ : ∃ t, LTS.exec step (init {}) closing = some t :=
      Option.isSome_iff_exists.mp (by decide)
    have hc : (LTS.exec step (init {}) closing).map (·.closes) = some [(0, some 1)] := by decide
    simp only [ht, Option.map_some, Option.some.injEq] at hc
    have := h t (LTS.reachable_of_exec ht) (0, some 1) (by rw [hc]; decide)
    exact absurd this (by decide)

end Rxs.L3.OneSocket
