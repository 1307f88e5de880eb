import Mathlib.Tactic.Common

/-!
# The stratum client's connection

`Client` is the connection half of the stratum client: the state machine over
`m_state`, the members that own things (`m_socket`, `m_socks5`, `m_tls`,
`m_dns`), the failure counter and the two deadlines. All of it runs on the event
loop's thread; one `Event` is one callback of the loop or one call of the owner,
with the answers it gets from outside. `now` is what `Chrono::steadyMSecs`
returns in it.

`Loop` is the loop's view: sockets are numbered in the order they are made; a
socket is `active` until `uv_close`, then `closing` until its callback. A connect
request is answered before the close callback of its socket.

Text is not modelled: a chunk of bytes comes with what each of its readers
(proxy handshake, TLS layer, line reader) makes of it, and a line with the branch
`Client::parse` takes for it.

* `step`: one event; `none` if the loop or the owner cannot cause it now.
-/
namespace Rxs

/-- A `uv_tcp_t`, numbered in the order they are made. -/
abbrev Handle := Nat

/-- mirrors src/base/net/stratum/BaseClient.h:66-73 -/
inductive SocketState where
  | UnconnectedState | HostLookupState | ConnectingState | ConnectedState | ClosingState
  | ReconnectingState
  deriving DecidableEq, Repr

/-- What the event loop knows: `lookup` is the request `m_dns` keeps alive, as
long as it is unanswered. -/
structure Loop where
  next : Handle := 0
  active : List Handle := []
  closing : List Handle := []
  closed : List Handle := []
  requests : List Handle := []
  reading : List Handle := []
  lookup : Bool := false
  deriving DecidableEq, Repr

namespace Loop

/-- `uv_tcp_init` and `uv_tcp_connect` on a new handle. -/
def open_ (l : Loop) : Loop :=
  { l with next := l.next + 1, active := l.next :: l.active, requests := l.next :: l.requests }

def uvClose (l : Loop) (h : Handle) : Loop :=
  { l with active := l.active.filter (· ≠ h), closing := h :: l.closing,
           reading := l.reading.filter (· ≠ h) }

/-- `uv_is_closing`. -/
def isClosing (l : Loop) (h : Handle) : Bool := h ∈ l.closing || h ∈ l.closed

end Loop

/-- mirrors src/base/net/stratum/Socks5.h:44-60 -/
inductive Socks5.State where
  | Created | SentInitialHandshake | SentFinalHandshake | Ready
  deriving DecidableEq, Repr

structure Socks5 where
  state : Socks5.State := .Created
  nextSize : Nat := 0
  deriving DecidableEq, Repr

/-- What the listener is told. -/
inductive Notice where
  | onLoginSuccess
  | onJobReceived
  | onClose (failures : Int)
  deriving DecidableEq, Repr

/-- `listening`: `m_listener` is set; `alive`: found in `m_storage`. Ghosts:
`last` is the socket connected last; `fed` are the sockets whose bytes went to
the line reader, each with `last` at that time; `closes` are the close callbacks,
each with the handle it freed; `told` is what the listener was told, latest last. -/
structure Client where
  poolTLS : Bool := false
  poolProxy : Bool := false
  poolKeepAlive : Nat := 0
  retryPause : Nat := 5000
  state : SocketState := .UnconnectedState
  socket : Option Handle := none
  socks5 : Option Socks5 := none
  tls : Bool := false
  failures : Int := 0
  expire : Nat := 0
  keepAlive : Nat := 0
  extKeepAlive : Bool := false
  listening : Bool := true
  alive : Bool := true
  loop : Loop := {}
  last : Option Handle := none
  fed : List (Handle × Option Handle) := []
  closes : List (Handle × Option Handle) := []
  told : List Notice := []
  deriving DecidableEq, Repr

namespace Client

/-- What a client is set up with: the pool's TLS, proxy and keep-alive settings and
the retry pause. -/
structure Config where
  tls : Bool := false
  proxy : Bool := false
  keepAlive : Nat := 0
  retryPause : Nat := 5000
  deriving DecidableEq, Repr

/-- A client that has not been connected yet. -/
def init (c : Config) : Client :=
  { poolTLS := c.tls, poolProxy := c.proxy, poolKeepAlive := c.keepAlive,
    retryPause := c.retryPause }

/-- mirrors src/base/net/stratum/Client.h:54-55 -/
def kConnectTimeout : Nat := 20 * 1000
def kResponseTimeout : Nat := 20 * 1000

/-- mirrors src/base/net/stratum/Pool.h:79-79 -/
def kKeepAliveTimeout : Nat := 60

/-- A line, as far as the connection is concerned: `reconnect` is a valid
client.reconnect notification, with the TLS flag of the pool it names; `login`
the reply to the login request (`ext`: `none` without an id, else whether the
pool keeps alive; `ok`: the login is accepted; `job`: a valid job came with it);
`error` an error reply, `critical` if it ends the connection; `job` a job
notification. -/
inductive Line where
  | reconnect (tls : Bool)
  | login (ext : Option Bool) (ok job : Bool)
  | error (critical : Bool)
  | job (ok : Bool)
  | other
  deriving DecidableEq, Repr

/-- What the TLS layer makes of a chunk: more handshake, a finished handshake
with an accepted or a refused certificate, or data. -/
inductive TlsRead where
  | wait | verified | rejected | data
  deriving DecidableEq, Repr

/-- `granted`: the chunk starts with the bytes 5 and 0; `lines`: what the line
reader completes with it. -/
structure Chunk where
  size : Nat := 64
  granted : Bool := false
  tls : TlsRead := .data
  lines : List Line := []
  deriving DecidableEq, Repr

/-- What becomes of a write: `refused` is a stream that is not writable. -/
inductive Write where
  | sent | refused | failed
  deriving DecidableEq, Repr

/-- mirrors src/base/net/stratum/Client.h:133-133 -/
def hasKeepAlive (s : Client) : Bool := s.extKeepAlive || 0 < s.poolKeepAlive

/-- mirrors src/base/net/stratum/Client.cpp:103-110 -/
def isTLS (s : Client) : Bool := s.poolTLS && s.tls

/-- mirrors src/base/net/stratum/Client.cpp:943-969 -/
def setState (s : Client) (state : SocketState) (now : Nat) : Client :=
  if s.state = state then s
  else match state with
    | .HostLookupState => { s with expire := 0, state := state }
    | .ConnectingState => { s with expire := now + kConnectTimeout, state := state }
    | .ReconnectingState => { s with expire := now + s.retryPause, state := state }
    | _ => { s with state := state }

theorem setState_eq (s : Client) (st : SocketState) (now : Nat) :
    ∃ e, setState s st now = { s with state := st, expire := e } := by
  unfold setState
  split
  · rename_i h
    exact ⟨s.expire, by rw [← h]⟩
  · cases st
    · exact ⟨s.expire, rfl⟩
    · exact ⟨0, rfl⟩
    · exact ⟨now + kConnectTimeout, rfl⟩
    · exact ⟨s.expire, rfl⟩
    · exact ⟨s.expire, rfl⟩
    · exact ⟨now + s.retryPause, rfl⟩

/-- mirrors src/base/net/stratum/Client.cpp:972-981 -/
def startTimeout (s : Client) (now : Nat) : Client :=
  if hasKeepAlive s then
    { s with expire := 0,
             keepAlive :=
              now + (if 0 < s.poolKeepAlive then s.poolKeepAlive else kKeepAliveTimeout) * 1000 }
  else { s with expire := 0 }

def tell (s : Client) (n : Notice) : Client := { s with told := s.told ++ [n] }

/-- The result says that a close callback will come.
mirrors src/base/net/stratum/Client.cpp:345-365 -/
def close (s : Client) : Bool × Client :=
  if s.state = .ClosingState then (s.socket.isSome, s)
  else match s.socket with
    | none => (false, s)
    | some h =>
      if s.state = .UnconnectedState then (false, s)
      else
        (true, { s with state := .ClosingState,
                        loop := if s.loop.isClosing h then s.loop else s.loop.uvClose h })

theorem close_eq (s : Client) :
    ∃ state loop, (close s).2 = { s with state := state, loop := loop } := by
  unfold close
  split
  · exact ⟨s.state, s.loop, rfl⟩
  · split
    · exact ⟨s.state, s.loop, rfl⟩
    · split
      · exact ⟨s.state, s.loop, rfl⟩
      · exact ⟨_, _, rfl⟩

/-- `m_storage.remove`: the destructor deletes the socket and drops the lookup.
mirrors src/base/net/stratum/Client.cpp:87-90 -/
def remove (s : Client) : Client :=
  { s with alive := false, socket := none, loop := { s.loop with lookup := false } }

/-- mirrors src/base/net/stratum/Client.cpp:93-100 -/
def disconnect (s : Client) : Bool × Client :=
  close { s with keepAlive := 0, expire := 0, failures := -1 }

/-- mirrors src/base/net/stratum/Client.cpp:283-294 -/
def deleteLater (s : Client) : Client :=
  if ¬ s.listening then s
  else
    let (pending, s) := disconnect { s with listening := false }
    if pending then s else remove s

/-- mirrors src/base/net/stratum/Client.cpp:922-940 -/
def reconnect (s : Client) (now : Nat) : Client :=
  if ¬ s.listening then remove s
  else
    let s := { s with keepAlive := 0 }
    if s.failures = -1 then tell s (.onClose (-1))
    else
      let s := setState s .ReconnectingState now
      let s := { s with failures := s.failures + 1 }
      tell s (.onClose s.failures)

/-- mirrors src/base/net/stratum/Client.cpp:656-671 -/
def onClose (s : Client) (now : Nat) : Client :=
  let s := setState { s with socket := none } .UnconnectedState now
  reconnect { s with tls := false } now

/-- `connect(addr)`.
mirrors src/base/net/stratum/Client.cpp:573-591 -/
def connectAddr (s : Client) (now : Nat) : Client :=
  let s := setState s .ConnectingState now
  { s with socket := some s.loop.next, loop := s.loop.open_ }

/-- mirrors src/base/net/stratum/Client.cpp:321-342 -/
def onResolved (s : Client) (ok : Bool) (now : Nat) : Client :=
  let s := { s with loop := { s.loop with lookup := false } }
  if ¬ s.listening then reconnect s now
  else if ¬ ok then reconnect s now
  else connectAddr s now

/-- `cached`: the answer, if the resolver has one at once.
mirrors src/base/net/stratum/Client.cpp:526-539 -/
def resolve (s : Client) (cached : Option Bool) (now : Nat) : Client :=
  let s := setState s .HostLookupState now
  let s := if s.failures = -1 then { s with failures := 0 } else s
  match cached with
  | some ok => onResolved s ok now
  | none => { s with loop := { s.loop with lookup := true } }

/-- mirrors src/base/net/stratum/Client.cpp:257-273 -/
def connect (s : Client) (cached : Option Bool) (now : Nat) : Client :=
  if s.poolProxy then resolve { s with socks5 := some {} } cached now
  else resolve { s with tls := s.tls || s.poolTLS } cached now

/-- `write`, and the write of the TLS layer.
mirrors src/base/net/stratum/Client.cpp:454-480 and
src/base/net/stratum/Client.cpp:509-523 -/
def write (s : Client) (w : Write) : Client :=
  if w = .failed then (close s).2 else s

/-- `send(size)`. What the TLS layer has nothing to write for counts as sent.
mirrors src/base/net/stratum/Client.cpp:542-570 -/
def send (s : Client) (w : Write) (now : Nat) : Client :=
  if s.state ≠ .ConnectedState ∧ ¬ isTLS s then s
  else match w with
    | .refused => s
    | .failed => if s.state = .ConnectedState then (close s).2 else s
    | .sent => startTimeout { s with expire := now + kResponseTimeout } now

/-- `big`: longer than the send buffer may get.
mirrors src/base/net/stratum/Client.cpp:147-172 -/
def sendObj (s : Client) (big : Bool) (w : Write) (now : Nat) : Client :=
  if big then (close s).2 else send s w now

/-- `zero`: a result of difficulty zero.
mirrors src/base/net/stratum/Client.cpp:175-254 -/
def submit (s : Client) (zero : Bool) (w : Write) (now : Nat) : Client :=
  if s.state ≠ .ConnectedState then s
  else if zero then (close s).2
  else send s w now

/-- mirrors src/base/net/stratum/Client.cpp:297-318 -/
def tick (s : Client) (cached : Option Bool) (w : Write) (now : Nat) : Client :=
  if s.state = .ConnectedState then
    if s.expire ≠ 0 ∧ s.expire < now then (close s).2
    else if s.keepAlive ≠ 0 ∧ s.keepAlive < now then send s w now
    else s
  else if s.state = .ReconnectingState ∧ s.expire ≠ 0 ∧ s.expire < now then connect s cached now
  else if s.state = .ConnectingState ∧ s.expire ≠ 0 ∧ s.expire < now then (close s).2
  else s

/-- mirrors src/base/net/stratum/Client.cpp:631-653 -/
def login (s : Client) (w : Write) (now : Nat) : Client := send s w now

/-- mirrors src/base/net/stratum/Client.cpp:594-611 and
src/base/net/stratum/Socks5.cpp:49-57 -/
def handshake (s : Client) (w : Write) (now : Nat) : Client :=
  match s.socks5 with
  | some _ => write { s with socks5 := some ⟨.SentInitialHandshake, 2⟩ } w
  | none =>
    if isTLS s then
      let s := { s with expire := now + kResponseTimeout }
      if s.state = .ConnectedState then write s w else s
    else login s w now

/-- mirrors src/base/net/stratum/Client.cpp:817-863, 614-628, 759-798 and 801-814 -/
def parseLine (s : Client) (now : Nat) : Line → Client
  | .reconnect tls => reconnect { s with poolTLS := tls } now
  | .login none _ _ => (close s).2
  | .login (some ext) ok job =>
    let s := { s with extKeepAlive := ext }
    let s := if ext then startTimeout s now else s
    if ok then
      let s := tell { s with failures := 0 } .onLoginSuccess
      if job then tell s .onJobReceived else s
    else (close s).2
  | .error critical => if critical then (close s).2 else s
  | .job ok => if ok then tell s .onJobReceived else (close s).2
  | .other => s

/-- The line reader gets bytes of the socket `h`, and `Client::parse` its lines
one after the other.
mirrors src/base/net/stratum/Client.cpp:674-756 -/
def parse (s : Client) (h : Handle) (lines : List Line) (now : Nat) : Client :=
  lines.foldl (fun s l => parseLine s now l) { s with fed := (h, s.last) :: s.fed }

/-- mirrors src/base/net/stratum/Socks5.cpp:28-46 -/
def readProxy (s : Client) (k : Socks5) (c : Chunk) (w : Write) : Client :=
  if c.size < k.nextSize then s
  else if c.granted then
    if k.state = .SentInitialHandshake then
      write { s with socks5 := some ⟨.SentFinalHandshake, 5⟩ } w
    else { s with socks5 := some { k with state := .Ready } }
  else (close s).2

/-- `c` is `none` for a read error.
mirrors src/base/net/stratum/Client.cpp:872-919 and
src/base/net/stratum/Tls.cpp:103-136 -/
def read (s : Client) (h : Handle) (c : Option Chunk) (w : Write) (now : Nat) : Client :=
  match c with
  | none => (close s).2
  | some c =>
    if ¬ s.listening then reconnect s now
    else match s.socks5 with
      | some k =>
        let s := readProxy s k c w
        if s.socks5.any (·.state = .Ready) then
          handshake { s with socks5 := none, tls := s.tls || s.poolTLS } w now
        else s
      | none =>
        if isTLS s then
          match c.tls with
          | .wait => if s.state = .ConnectedState then write s w else s
          | .verified => login s w now
          | .rejected => (close s).2
          | .data => parse s h c.lines now
        else parse s h c.lines now

/-- mirrors src/base/net/stratum/Client.cpp:1021-1056 -/
def onConnect (s : Client) (h : Handle) (ok : Bool) (w : Write) (now : Nat) : Client :=
  if ¬ ok then
    if s.state = .ConnectingState then (close s).2 else s
  else if s.state = .ConnectedState then s
  else
    let s := setState s .ConnectedState now
    let s := { s with loop := { s.loop with reading := s.socket.toList ++ s.loop.reading },
                      last := some h }
    handshake s w now

/-- A callback of the event loop, or a call of the owner. -/
inductive Event where
  | connect (cached : Option Bool) (now : Nat)
  | disconnect
  | deleteLater
  | submit (zero : Bool) (w : Write) (now : Nat)
  | send (big : Bool) (w : Write) (now : Nat)
  | tick (cached : Option Bool) (w : Write) (now : Nat)
  | resolved (ok : Bool) (now : Nat)
  | connected (h : Handle) (ok : Bool) (w : Write) (now : Nat)
  | read (h : Handle) (c : Option Chunk) (w : Write) (now : Nat)
  | closed (h : Handle) (now : Nat)
  deriving DecidableEq, Repr

/-- The connect request of `h` is answered. -/
def answered (s : Client) (h : Handle) : Client :=
  { s with loop := { s.loop with requests := s.loop.requests.filter (· ≠ h) } }

/-- The close callback of `h`: what it frees is `m_socket`. -/
def finished (s : Client) (h : Handle) : Client :=
  { s with loop := { s.loop with closing := s.loop.closing.filter (· ≠ h),
                                 closed := h :: s.loop.closed },
           closes := (h, s.socket) :: s.closes }

def step (s : Client) : Event → Option Client
  | .connect cached now =>
    if s.alive ∧ s.listening then some (connect s cached now) else none
  | .disconnect => if s.alive ∧ s.listening then some (disconnect s).2 else none
  | .deleteLater => if s.alive then some (deleteLater s) else none
  | .submit zero w now =>
    if s.alive ∧ s.listening then some (submit s zero w now) else none
  | .send big w now => if s.alive ∧ s.listening then some (sendObj s big w now) else none
  | .tick cached w now =>
    if s.alive ∧ s.listening then some (tick s cached w now) else none
  | .resolved ok now =>
    if s.alive ∧ s.loop.lookup then some (onResolved s ok now) else none
  | .connected h ok w now =>
    if s.alive ∧ h ∈ s.loop.requests ∧ (ok → h ∈ s.loop.active) then
      some (onConnect (answered s h) h ok w now)
    else none
  | .read h c w now =>
    if s.alive ∧ h ∈ s.loop.reading then some (read s h c w now) else none
  | .closed h now =>
    if s.alive ∧ h ∈ s.loop.closing ∧ h ∉ s.loop.requests then
      some (onClose (finished s h) now)
    else none

end Client

end Rxs
