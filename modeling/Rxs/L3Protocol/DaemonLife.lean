import Rxs.L3Protocol.Client
import Rxs.L3Protocol.Zmq

/-!
# The daemon client's life

`DaemonLife` is the connection half of the daemon client: the state machine over
`m_state`, the failure counter, the timer, the HTTP requests that are not answered
yet, the pending lookup, and the socket to the daemon's ZMQ publisher, whose stream
is a `Zmq`.

All of it runs on the event loop's thread; one `Event` is one callback of the loop
or one call of the owner, with the answers it gets from outside. An HTTP reply comes
with what `onHttpData` makes of it. The loop is that of the stratum client, with the
kind of each close callback and a log of the `uv_close` calls.

* `step`: one event; `none` if the loop or the owner cannot cause it now.
-/
namespace Rxs

/-- The client's socket to the publisher and the event loop's view of it. `closing`
are the sockets whose close callback is to come, each with whether it shuts the client
down. Ghosts: `closes` are the calls of `uv_close`; `freed` the handles deleted, each
with whether its close callback had run. -/
structure ZmqLink where
  socket : Option Handle := none
  zmq : Zmq := {}
  next : Handle := 0
  connecting : List Handle := []
  reading : List Handle := []
  closing : List (Handle × Bool) := []
  closed : List Handle := []
  closes : List Handle := []
  freed : List (Handle × Bool) := []
  deriving DecidableEq, Repr

namespace ZmqLink

/-- The socket can be closed. -/
def live (st : ZMQConnectionState) : Bool := st ≠ .NOT_CONNECTED ∧ st ≠ .DISCONNECTING

/-- `uv_close(m_ZMQSocket)`, with `onZMQShutdown` or `onZMQClose`. -/
def uvClose (l : ZmqLink) (shutdown : Bool) : ZmqLink :=
  match l.socket with
  | none => l
  | some h =>
    { l with closes := h :: l.closes, closing := (h, shutdown) :: l.closing,
             reading := l.reading.filter (· ≠ h), zmq := { l.zmq with closing := true } }

/-- `delete m_ZMQSocket`. -/
def free (l : ZmqLink) : ZmqLink :=
  match l.socket with
  | none => l
  | some h => { l with socket := none, freed := (h, h ∈ l.closed) :: l.freed }

/-- A new socket takes the place of the old one and connects. -/
def tcpConnect (l : ZmqLink) : ZmqLink :=
  let h := l.next
  let l := free l
  { l with next := h + 1, socket := some h, connecting := h :: l.connecting,
           zmq := { l.zmq with closing := false } }

/-- The connect callback of `h` runs. -/
def answered (l : ZmqLink) (h : Handle) : ZmqLink :=
  { l with connecting := l.connecting.filter (· ≠ h) }

/-- The close callback of `h` runs. -/
def finished (l : ZmqLink) (h : Handle) (shutdown : Bool) : ZmqLink :=
  { l with closing := l.closing.erase (h, shutdown), closed := h :: l.closed }

end ZmqLink

/-- `zmqPort` is that of the pool. Ghosts: `told` is what the listener was told,
latest last; `quit` is how much of it the listener knew when it disconnected the
client. -/
structure DaemonLife extends ZmqLink where
  zmqPort : Int := -1
  state : SocketState := .UnconnectedState
  failures : Int := 0
  timer : Bool := false
  periodic : Bool := false
  requests : Nat := 0
  dns : Bool := false
  alive : Bool := true
  told : List Notice := []
  quit : Option Nat := none
  deriving DecidableEq, Repr

namespace DaemonLife

/-- What `onHttpData` makes of a reply: an error or a bad answer, nothing to do, one
more request, or a job; `leaves` is whether the listener disconnects the client from
inside `onLoginSuccess`. -/
inductive Reply where
  | failed
  | nothing
  | again
  | job (leaves : Bool)
  deriving DecidableEq, Repr

def tell (s : DaemonLife) (n : Notice) : DaemonLife := { s with told := s.told ++ [n] }

/-- The client with its socket changed. -/
def onLink (s : DaemonLife) (f : ZmqLink → ZmqLink) : DaemonLife :=
  { s with toZmqLink := f s.toZmqLink }

/-- `m_storage.remove` and `delete this`.
mirrors src/base/net/stratum/DaemonClient.cpp:95-99 -/
def remove (s : DaemonLife) : DaemonLife :=
  onLink { s with alive := false, timer := false, dns := false } ZmqLink.free

/-- mirrors src/base/net/stratum/DaemonClient.cpp:113-120 and 636-639 -/
def disconnect (s : DaemonLife) : DaemonLife :=
  let s := { s with quit := some (s.quit.getD s.told.length) }
  if s.state = .UnconnectedState then s
  else { s with state := .UnconnectedState, failures := -1, timer := false }

/-- `setState(ConnectedState)`.
mirrors src/base/net/stratum/DaemonClient.cpp:611-634 -/
def setConnected (s : DaemonLife) (leaves : Bool) : DaemonLife :=
  if s.state = .ConnectedState then s
  else
    let s := tell { s with state := .ConnectedState, failures := 0 } .onLoginSuccess
    let s := if leaves then disconnect s else s
    { s with timer := true, periodic := true }

/-- mirrors src/base/net/stratum/DaemonClient.cpp:579-601 -/
def retry (s : DaemonLife) : DaemonLife :=
  let s := { s with failures := s.failures + 1 }
  let s := tell s (.onClose s.failures)
  if s.failures = -1 then s
  else
    let s := if s.state = .ConnectedState then { s with state := .ConnectingState } else s
    let s := if ZmqLink.live s.zmq.state then onLink s (·.uvClose false) else s
    { s with timer := true, periodic := false }

/-- The members of the stream after one of its functions. If the socket was closed in
it, `retry` was called then, in the disconnecting state. -/
def applied (s : DaemonLife) (z : Zmq) : DaemonLife :=
  if z.closing ∧ ¬ s.zmq.closing then
    let t := onLink s (·.uvClose false)
    { retry { t with zmq := { t.zmq with state := .DISCONNECTING } } with zmq := z }
  else { s with zmq := z }

/-- `ZMQClose(true)`.
mirrors src/base/net/stratum/DaemonClient.cpp:911-934 -/
def shutdown (s : DaemonLife) : DaemonLife :=
  if ¬ ZmqLink.live s.zmq.state then remove s
  else
    let s := { s with zmq := { s.zmq with state := .DISCONNECTING } }
    if s.zmq.closing then s else onLink s (·.uvClose true)

/-- mirrors src/base/net/stratum/DaemonClient.cpp:102-110 -/
def deleteLater (s : DaemonLife) : DaemonLife :=
  if 0 ≤ s.zmqPort then shutdown s else remove s

/-- mirrors src/base/net/stratum/DaemonClient.cpp:335-370 -/
def onResolved (s : DaemonLife) (ok : Bool) : DaemonLife :=
  let s := { s with dns := false }
  if ¬ ok then retry s
  else if 0 < s.zmqPort then onLink s ZmqLink.tcpConnect
  else { s with next := s.next + 1 }

/-- `ok`: the pool's settings are valid; `cached`: the answer of the resolver, if it
has one at once.
mirrors src/base/net/stratum/DaemonClient.cpp:193-223 -/
def connect (s : DaemonLife) (ok : Bool) (cached : Option Bool) : DaemonLife :=
  let s := { s with state := .ConnectingState }
  if ¬ ok then retry s
  else if 0 ≤ s.zmqPort then
    match cached with
    | some ok => onResolved s ok
    | none => { s with dns := true }
  else { s with requests := s.requests + 1 }

/-- mirrors src/base/net/stratum/DaemonClient.cpp:312-332 -/
def onTimer (s : DaemonLife) (ok : Bool) (cached : Option Bool) : DaemonLife :=
  let s := { s with timer := s.periodic }
  if 0 ≤ s.zmqPort then { s with requests := s.requests + 1 }
  else if s.state = .ConnectingState then connect s ok cached
  else if s.state = .ConnectedState then { s with requests := s.requests + 1 }
  else s

/-- mirrors src/base/net/stratum/DaemonClient.cpp:247-309 and 495-500 -/
def onHttpData (s : DaemonLife) (r : Reply) : DaemonLife :=
  match r with
  | .failed => retry s
  | .nothing => s
  | .again => { s with requests := s.requests + 1 }
  | .job leaves =>
    let s := if s.state = .ConnectingState then setConnected s leaves else s
    tell s .onJobReceived

/-- `w`: the beginning of the greeting is written.
mirrors src/base/net/stratum/DaemonClient.cpp:647-663,702-715 -/
def onZMQConnect (s : DaemonLife) (ok w : Bool) : DaemonLife :=
  if ¬ ok then retry s
  else
    let s := applied s (Zmq.write (s.zmq.enter .GREETING_1) w)
    if w then { s with reading := s.socket.toList ++ s.reading } else s

/-- Whether the handshake was taken from the buffer in a read. -/
def shaken (z z' : Zmq) (chunk : Core.Bytes) : Bool :=
  let taken := z.buf.length + chunk.length - z'.buf.length
  match z.state with
  | .GREETING_1 | .GREETING_2 => Zmq.kZMQGreeting.length < taken
  | .HANDSHAKE => 0 < taken
  | _ => false

/-- Each message asks the daemon for its height and starts the timer again; the
handshake asks for a template.
mirrors src/base/net/stratum/DaemonClient.cpp:738-746 -/
def onZMQRead (s : DaemonLife) (c : Option (Core.Bytes × Zmq.Writes)) : DaemonLife :=
  match c with
  | none => applied s (Zmq.close s.zmq)
  | some (chunk, ok) =>
    let (z, messages) := Zmq.ZMQRead ok s.zmq chunk
    let asked := (if shaken s.zmq z chunk then 1 else 0) + messages.length
    let s := applied s z
    let s := { s with requests := s.requests + asked }
    if messages = [] then s else { s with timer := true, periodic := true }

/-- `onZMQClose` and `onZMQShutdown`.
mirrors src/base/net/stratum/DaemonClient.cpp:677-699 -/
def onZMQClose (s : DaemonLife) (shutdown : Bool) : DaemonLife :=
  let s := { s with zmq := { s.zmq with state := .NOT_CONNECTED } }
  if shutdown then remove s else s

/-- A callback of the event loop, or a call of the owner. -/
inductive Event where
  | connect (ok : Bool) (cached : Option Bool)
  | disconnect
  | deleteLater
  | submit
  | timer (ok : Bool) (cached : Option Bool)
  | http (r : Reply)
  | resolved (ok : Bool)
  | connected (h : Handle) (ok w : Bool)
  | read (h : Handle) (c : Option (Core.Bytes × Zmq.Writes))
  | closed (h : Handle) (shutdown : Bool)
  deriving DecidableEq, Repr

/-- Nothing is read from a handle that was deleted, and no callback finds a client
that was. -/
def step (s : DaemonLife) : Event → Option DaemonLife
  | .connect ok cached =>
    if s.alive then some (connect { s with quit := none } ok cached) else none
  | .disconnect => if s.alive then some (disconnect s) else none
  | .deleteLater => if s.alive then some (deleteLater s) else none
  | .submit => if s.alive then some { s with requests := s.requests + 1 } else none
  | .timer ok cached => if s.alive ∧ s.timer then some (onTimer s ok cached) else none
  | .http r =>
    if s.alive ∧ 0 < s.requests then some (onHttpData { s with requests := s.requests - 1 } r)
    else none
  | .resolved ok => if s.alive ∧ s.dns then some (onResolved s ok) else none
  | .connected h ok w =>
    if s.alive ∧ h ∈ s.connecting ∧ (ok → ∀ p ∈ s.closing, p.1 ≠ h) then
      some (onZMQConnect (onLink s (·.answered h)) ok w)
    else none
  | .read h c => if s.alive ∧ h ∈ s.reading then some (onZMQRead s c) else none
  | .closed h shutdown =>
    if s.alive ∧ (h, shutdown) ∈ s.closing ∧ h ∉ s.connecting then
      some (onZMQClose (onLink s (·.finished h shutdown)) shutdown)
    else none

end DaemonLife

end Rxs
