import Rxs.L1Encoding.Cvt
import Rxs.L1Encoding.Json
import Rxs.L3Protocol.Lined

/-!
# The TLS layer of the stratum client

`Tls` is one object of the class: an OpenSSL session that is made when its handshake
begins, and the certificate it accepted. OpenSSL itself is outside: `Ssl` is what it
makes of the bytes of a read.

`TlsLife` is a client of a pool that is configured for TLS, with what `m_tls` points
to. The client goes from line to line as in `Lined`. The pool's TLS flag is set once,
so a `client.reconnect` notification leaves the pool a TLS pool.

* `TlsLife.step`: one event, with the `Tls` object that the client has after it.
-/
namespace Rxs

open Rxs.Core Rxs.Client

/-- The SHA-256 digest of a certificate. -/
abbrev Digest := { md : Bytes // md.length = 32 }

/-- What OpenSSL makes of a read: it needs more, or the handshake is finished (with the
digest of the peer's certificate, if there is one), or there is data. -/
inductive Ssl where
  | wait
  | finished (digest : Option Digest)
  | data
  deriving DecidableEq, Repr

/-- `peer` is the socket the handshake was begun on, `finished` is
`SSL_is_init_finished`; the digits of `digest` are `m_fingerprint`. -/
structure Tls where
  peer : Option Handle := none
  finished : Bool := false
  digest : Option Digest := none
  ready : Bool := false
  deriving DecidableEq, Repr

namespace Tls

/-- `configured` is the fingerprint of the pool.
mirrors src/base/net/stratum/Tls.cpp:167-185 -/
def verifyFingerprint (configured : Option Bytes) (md : Digest) : Bool :=
  match configured with
  | none => true
  | some fingerprint => strncasecmp (Cvt.bin2hex md.1) fingerprint 64

/-- mirrors src/base/net/stratum/Tls.cpp:142-164 -/
def verify (configured : Option Bytes) (digest : Option Digest) : Bool :=
  digest.any (verifyFingerprint configured)

/-- A new session.
mirrors src/base/net/stratum/Tls.cpp:60-78 -/
def handshake (t : Tls) (socket : Option Handle) : Tls :=
  { t with peer := socket, finished := false }

/-- mirrors src/base/net/stratum/Tls.cpp:101-133 -/
def read (t : Tls) (configured : Option Bytes) (r : Ssl) : TlsRead × Tls :=
  if t.finished then (.data, t)
  else match r with
    | .finished digest =>
      let t := { t with finished := true, digest := digest }
      if verify configured digest then (.verified, { t with ready := true }) else (.rejected, t)
    | _ => (.wait, t)

end Tls

/-- Bytes for the line reader: the socket they came from, the object that decrypted
them, and `m_socket` at that time. -/
structure Piece where
  source : Handle
  tls : Option Tls
  present : Option Handle
  deriving DecidableEq, Repr

/-- `tls` is `m_tls`, `fingerprint` that of the pool. Ghosts: `clear` counts the
requests that were written in clear, `fed` is what the line reader got, `logins` has
`m_tls` and `m_socket` at each login. -/
structure TlsLife where
  base : Lined
  fingerprint : Option Bytes := none
  tls : Option Tls := none
  clear : Nat := 0
  fed : List Piece := []
  logins : List (Option Tls × Option Handle) := []
  deriving DecidableEq, Repr

namespace TlsLife

/-- `read` is a read of bytes, with what OpenSSL makes of them. -/
inductive Event where
  | call (e : Client.Event)
  | read (h : Handle) (size : Nat) (granted : Bool) (r : Ssl) (lines : List Line) (w : Write)
      (now : Nat)
  | line (now : Nat)
  deriving DecidableEq, Repr

abbrev client (x : TlsLife) : Client := x.base.client

/-- The URL of a `client.reconnect` notification does not take the flag of the pool.
mirrors src/base/net/stratum/Pool.h:97-97 and 118-118 -/
def sticky : Line → Line
  | .reconnect _ => .reconnect true
  | l => l

def chunk (x : TlsLife) (size : Nat) (granted : Bool) (r : Ssl) (lines : List Line) : Chunk :=
  { size := size, granted := granted, lines := lines.map sticky,
    tls := match x.tls with
      | some t => (t.read x.fingerprint r).1
      | none => .wait }

/-- `tick` calls `connect`.
mirrors src/base/net/stratum/Client.cpp:311-313 -/
def reconnects (s : Client) (now : Nat) : Bool :=
  s.state = .ReconnectingState ∧ s.expire ≠ 0 ∧ s.expire < now

/-- `m_tls` after `connect`.
mirrors src/base/net/stratum/Client.cpp:257-273 -/
def connect (s : Client) (tls : Option Tls) : Option Tls :=
  if s.poolProxy then tls else if s.poolTLS then some {} else tls

/-- `m_tls` after `onConnect`, where its handshake begins.
mirrors src/base/net/stratum/Client.cpp:594-611 and 1038-1046 -/
def onConnect (s : Client) (tls : Option Tls) (ok : Bool) : Option Tls :=
  if ok ∧ s.state ≠ .ConnectedState ∧ s.socks5 = none ∧ isTLS s then
    tls.map (·.handshake s.socket)
  else tls

/-- `m_tls` after `read`: the end of the proxy's handshake makes one, if there is none,
and begins its handshake.
mirrors src/base/net/stratum/Client.cpp:872-919 -/
def read (s : Client) (tls : Option Tls) (fingerprint : Option Bytes) (c : Chunk) (r : Ssl)
    (w : Write) : Option Tls :=
  if ¬ s.listening then tls
  else match s.socks5 with
    | some k =>
      if (readProxy s k c w).socks5.any (·.state = .Ready) ∧ s.poolTLS then
        some ((tls.getD {}).handshake s.socket)
      else tls
    | none => if isTLS s then tls.map fun t => (t.read fingerprint r).2 else tls

/-- `m_tls` after the event; `onClose` deletes it. -/
def after (x : TlsLife) (e : Client.Event) (r : Ssl) : Option Tls :=
  match e with
  | .connect _ _ => connect x.client x.tls
  | .tick _ _ now => if reconnects x.client now then connect x.client x.tls else x.tls
  | .connected _ ok _ _ => onConnect x.client x.tls ok
  | .read _ (some c) w _ => read x.client x.tls x.fingerprint c r w
  | .closed _ _ => none
  | _ => x.tls

/-- The owner's event calls `send(size)`, and the stream can be written. -/
def sends (s : Client) : Client.Event → Bool
  | .submit zero w _ => s.state = .ConnectedState ∧ ¬ zero ∧ w ≠ .refused
  | .send big w _ => ¬ big ∧ w ≠ .refused
  | .tick _ w now =>
    s.state = .ConnectedState ∧ ¬ (s.expire ≠ 0 ∧ s.expire < now) ∧ s.keepAlive ≠ 0 ∧
      s.keepAlive < now ∧ w ≠ .refused
  | _ => false

/-- The event writes a request that is not encrypted: one of the owner, or the login
where the client does not use TLS. -/
def inClear (s : Client) (e : Client.Event) : Bool :=
  (sends s e && s.state = .ConnectedState && !isTLS s) ||
    match e with
    | .connected _ _ _ _ => Lined.logsIn s e
    | .read _ (some _) _ _ => s.socks5.isSome && Lined.logsIn s e
    | _ => false

/-- What the event brings to the line reader. -/
def pieces (x : TlsLife) : Client.Event → List Piece
  | .read h (some c) _ _ =>
    if Lined.toReader x.client c then
      [⟨h, if isTLS x.client then x.tls else none, x.client.socket⟩]
    else []
  | _ => []

def next (x : TlsLife) (e : Client.Event) (r : Ssl) : Option TlsLife :=
  (Lined.step x.base (.call e)).map fun b =>
    { x with
      base := b
      tls := after x e r
      clear := x.clear + (if inClear x.client e then 1 else 0)
      fed := pieces x e ++ x.fed
      logins := (if Lined.logsIn x.client e then [(after x e r, x.client.socket)] else []) ++
        x.logins }

def step (x : TlsLife) : Event → Option TlsLife
  | .call (.read _ (some _) _ _) => none
  | .call e => next x e .wait
  | .read h size granted r lines w now =>
    next x (.read h (some (chunk x size granted r lines)) w now) r
  | .line now => (Lined.step x.base (.line now)).map fun b => { x with base := b }

/-- A client of a TLS pool that has not been connected yet. -/
def init (c : Config) (fingerprint : Option Bytes) : TlsLife :=
  { base := { client := Client.init { c with tls := true } }, fingerprint := fingerprint }

end TlsLife

end Rxs
