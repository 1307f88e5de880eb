import Rxs.Core.Bytes

/-!
# The publisher's stream

A daemon publishes its new blocks over ZMQ: after a greeting in two parts and a
handshake the stream is messages of frames. `Zmq` is the part of `DaemonClient` that
reads it: `ZMQRead` goes through the phases in one call if the bytes are there, and
`ZMQParse` takes one message.

Which writes succeed is given by `Writes`; each is made at most once. A message is
the bytes of its frames but those of commands.

* `ZMQRead`: one read; the result has the messages the client acts on.
-/
namespace Rxs

open Rxs.Core

/-- mirrors src/base/net/stratum/DaemonClient.h:135-142 -/
inductive ZMQConnectionState where
  | NOT_CONNECTED | GREETING_1 | GREETING_2 | HANDSHAKE | CONNECTED | DISCONNECTING
  deriving DecidableEq, Repr

/-- `closing`: `uv_close` was called for the socket. Ghosts: `late` is a write after
that, `left` that the disconnecting state was overwritten. -/
structure Zmq where
  state : ZMQConnectionState := .NOT_CONNECTED
  buf : Bytes := []
  closing : Bool := false
  late : Bool := false
  left : Bool := false
  deriving DecidableEq, Repr

namespace Zmq

/-- mirrors src/base/net/stratum/DaemonClient.cpp:77 -/
def kZMQGreeting : Bytes :=
  [0xFF, 0, 0, 0, 0, 0, 0, 0, 0, 127, 3, 0, 78, 85, 76, 76] ++ List.replicate 48 0

/-- mirrors src/base/net/stratum/DaemonClient.cpp:78 -/
def kZMQGreetingSize1 : Nat := 11

/-- mirrors src/base/net/stratum/DaemonClient.cpp:80 -/
def kZMQHandshake : Bytes :=
  [4, 0x19, 5, 82, 69, 65, 68, 89, 0xb, 83, 111, 99, 107, 101, 116, 45, 84, 121, 112, 101,
    0, 0, 0, 3, 83, 85, 66]

/-- Whether the rest of the greeting, the handshake and the subscription can be
written. -/
structure Writes where
  greeting : Bool := true
  handshake : Bool := true
  subscribe : Bool := true
  deriving DecidableEq, Repr

/-- `m_ZMQConnectionState = state`. -/
def enter (z : Zmq) (state : ZMQConnectionState) : Zmq :=
  { z with state := state, left := z.left || z.state = .DISCONNECTING }

/-- The socket is closed once; `retry` finds the disconnecting state and does not
close it again.
mirrors src/base/net/stratum/DaemonClient.cpp:911-934 -/
def close (z : Zmq) : Zmq :=
  if z.state = .NOT_CONNECTED ∨ z.state = .DISCONNECTING then z
  else { z with state := .DISCONNECTING, closing := true }

/-- mirrors src/base/net/stratum/DaemonClient.cpp:718-735 -/
def write (z : Zmq) (ok : Bool) : Zmq :=
  let z := { z with late := z.late || z.closing }
  if ok then z else close z

/-! ## Frames -/

/-- The size in the header of a frame, and what follows it; a long one is big-endian.
mirrors src/base/net/stratum/DaemonClient.cpp:849-867 -/
def readSize (long_size : Bool) (data : Bytes) : Option (Nat × Bytes) :=
  if long_size then
    if data.length < 8 then none else some (Bytes.readLE (data.take 8).reverse, data.drop 8)
  else
    match data with
    | [] => none
    | size :: data => some (size.toNat, data)

/-- What the bytes begin with. -/
inductive Frames where
  | incomplete
  | tooLarge
  | message (msg rest : Bytes)
  deriving DecidableEq, Repr

theorem readSize_length {long_size : Bool} {data rest : Bytes} {size : Nat}
    (h : readSize long_size data = some (size, rest)) : rest.length < data.length := by
  unfold readSize at h
  cases long_size with
  | true =>
    rw [if_pos rfl] at h
    split at h
    · cases h
    · cases h
      rw [List.length_drop]
      omega
  | false =>
    rw [if_neg Bool.false_ne_true] at h
    cases data with
    | nil => cases h
    | cons b data =>
      cases h
      exact Nat.lt_succ_self _

/-- mirrors src/base/net/stratum/DaemonClient.cpp:825-891 -/
def parseFrames (data msg : Bytes) : Frames :=
  match data with
  | [] => .incomplete
  | flags :: data =>
    match _h : readSize (flags &&& 2 ≠ 0) data with
    | none => .incomplete
    | some (size, body) =>
      if size > 1024 - msg.length then .tooLarge
      else if body.length < size then .incomplete
      else
        let msg := if flags &&& 4 ≠ 0 then msg else msg ++ body.take size
        if flags &&& 1 ≠ 0 then parseFrames (body.drop size) msg
        else .message msg (body.drop size)
termination_by data.length
decreasing_by
  have := readSize_length _h
  rw [List.length_drop, List.length_cons]
  omega

/-! ## The phases -/

/-- mirrors src/base/net/stratum/DaemonClient.cpp:825-908 -/
def ZMQParse (z : Zmq) : Zmq × List Bytes :=
  match parseFrames z.buf [] with
  | .incomplete => (z, [])
  | .tooLarge => (close z, [])
  | .message msg rest => ({ z with buf := rest }, [msg])

/-- mirrors src/base/net/stratum/DaemonClient.cpp:779-812 -/
def handshake (ok : Writes) (z : Zmq) : Zmq × List Bytes :=
  if 2 ≤ z.buf.length then
    if z.buf.getD 0 0 ≠ 4 then (close z, [])
    else
      let size := (z.buf.getD 1 0).toNat
      if size < 18 then (close z, [])
      else if z.buf.length < size + 2 then (z, [])
      else if Bytes.slice z.buf 2 18 ≠ Bytes.slice kZMQHandshake 2 18 then (close z, [])
      else
        let z := (write z ok.subscribe).enter .CONNECTED
        ZMQParse { z with buf := z.buf.drop (size + 2) }
  else (z, [])

/-- mirrors src/base/net/stratum/DaemonClient.cpp:763-777 -/
def greeting2 (ok : Writes) (z : Zmq) : Zmq × List Bytes :=
  if kZMQGreeting.length ≤ z.buf.length then
    if Bytes.slice z.buf 12 20 = Bytes.slice kZMQGreeting 12 20 then
      let z := z.enter .HANDSHAKE
      let z := write { z with buf := z.buf.drop kZMQGreeting.length } ok.handshake
      -- a failed write is seen here: the loop leaves in the disconnecting state
      if z.state = .HANDSHAKE then handshake ok z else (z, [])
    else (close z, [])
  else (z, [])

/-- mirrors src/base/net/stratum/DaemonClient.cpp:750-761 -/
def greeting1 (ok : Writes) (z : Zmq) : Zmq × List Bytes :=
  if kZMQGreetingSize1 ≤ z.buf.length then
    if z.buf.getD 0 0 = 0xFF ∧ z.buf.getD 9 0 = 127 ∧ z.buf.getD 10 0 = 3 then
      greeting2 ok ((write z ok.greeting).enter .GREETING_2)
    else (close z, [])
  else (z, [])

/-- The loop begins in the state it finds and goes from phase to phase.
mirrors src/base/net/stratum/DaemonClient.cpp:748-822 -/
def loop (ok : Writes) (z : Zmq) : Zmq × List Bytes :=
  match z.state with
  | .GREETING_1 => greeting1 ok z
  | .GREETING_2 => greeting2 ok z
  | .HANDSHAKE => handshake ok z
  | .CONNECTED => ZMQParse z
  | _ => (z, [])

/-- A read of `chunk`; there is none of a socket that is closing.
mirrors src/base/net/stratum/DaemonClient.cpp:738-822 -/
def ZMQRead (ok : Writes) (z : Zmq) (chunk : Bytes) : Zmq × List Bytes :=
  if z.closing then (z, []) else loop ok { z with buf := z.buf ++ chunk }

end Zmq

end Rxs
