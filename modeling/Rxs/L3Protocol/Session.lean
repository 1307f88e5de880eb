import Rxs.L1Encoding.Json
import Rxs.L3Protocol.Daemon

/-!
# Requests and lines

`Session` is the other half of the stratum client: what it sends over its connection
and what it makes of the lines that come. The connection is a `Client`.

A line comes as the document that its text parses to, if it does. `Env` has what the
line gets from outside: the time, the functions of other classes, and whether the
listener disconnects the client from inside `onLoginSuccess`. An accessor used on a
value it is not for, and a division by zero, is undefined: `none`.

Shares and callbacks are numbered as they are registered; `sent` are the requests
that went out, each with its id.

* `parse`: one line.
* `submit`, `ping`, `request`, `login`: the requests.
-/
namespace Rxs

open Rxs.Core

/-- mirrors src/base/kernel/interfaces/IClient.h:46-53 -/
inductive Extension where
  | EXT_ALGO | EXT_NICEHASH | EXT_CONNECT | EXT_TLS | EXT_KEEPALIVE
  deriving DecidableEq, Repr

/-- mirrors src/base/net/stratum/SubmitResult.h:35-60 -/
structure SubmitResult where
  seq : Int
  diff : Nat
  actualDiff : Nat
  reqId : Int
  backend : Nat
  elapsed : Nat := 0
  start : Nat
  deriving DecidableEq, Repr

namespace Session

/-- What the client reads of its pool. -/
structure Pool where
  algorithm : Algorithm := .INVALID
  coin : Coin := .INVALID
  selfSelect : Bool := false
  nicehash : Bool := false
  deriving DecidableEq, Repr

/-- The members of a result that `submit` checks or reports. -/
structure JobResult where
  clientId : Bytes
  diff : Nat
  actualDiff : Nat
  backend : Nat := 0
  deriving DecidableEq, Repr

/-- An entry of `m_results`. -/
structure Share where
  number : Nat
  result : SubmitResult
  deriving DecidableEq, Repr

/-- An entry of `m_callbacks`. -/
structure Callback where
  number : Nat
  ts : Nat
  deriving DecidableEq, Repr

/-- A request that went out. -/
inductive Request where
  | login
  | ping
  | share (number diff actualDiff : Nat)
  | callback (number : Nat)
  deriving DecidableEq, Repr

/-- `onResultAccepted`, for the response `id`. -/
structure Report where
  id : Int
  share : Share
  error : Option Bytes
  deriving DecidableEq, Repr

/-- A callback that ran, for the response `id`. -/
structure Called where
  id : Int
  callback : Callback
  value : Json
  success : Bool
  elapsed : Nat

structure Env where
  now : Nat := 0
  algorithmOf : Bytes → Algorithm := fun _ => .RX_0
  urlTLS : Bytes → Bool := fun _ => false
  enabled : Algorithm → Bool := fun _ => true
  leaves : Bool := false

/-! ## Maps -/

variable {α : Type}

def get (m : List (Int × α)) (id : Int) : Option α := (m.find? (·.1 = id)).map (·.2)

def erase (m : List (Int × α)) (id : Int) : List (Int × α) := m.filter (·.1 ≠ id)

/-- `m[id] = v`. -/
def assign (m : List (Int × α)) (id : Int) (v : α) : List (Int × α) := (id, v) :: erase m id

/-- `m.insert({ id, v })`: an entry that is there stays. -/
def insert (m : List (Int × α)) (id : Int) (v : α) : List (Int × α) :=
  if (get m id).isSome then m else (id, v) :: m

end Session

/-- mirrors src/base/net/stratum/Client.h:129-145 and
src/base/net/stratum/BaseClient.h:85-105 -/
structure Session where
  id : Int := 0
  pool : Session.Pool := {}
  conn : Client := {}
  sequence : Int := 1
  rpcId : Option Bytes := none
  extensions : List Extension := []
  jobs : Nat := 0
  job : Job := {}
  poolWallet : Bytes := []
  results : List (Int × Session.Share) := []
  callbacks : List (Int × Session.Callback) := []
  made : Nat := 0
  sent : List (Int × Session.Request) := []
  reports : List Session.Report := []
  called : List Session.Called := []

namespace Session

/-! ## Requests -/

/-- `send(size)` gets to its end. -/
def goes (c : Client) (w : Client.Write) : Bool :=
  (c.state = .ConnectedState ∨ c.isTLS) ∧ w = .sent

/-- `send(size)` of a request with the given id.
mirrors src/base/net/stratum/Client.cpp:542-570 -/
def sendSize (s : Session) (id : Int) (req : Request) (w : Client.Write) (now : Nat) :
    Int × Session :=
  let conn := Client.send s.conn w now
  if goes s.conn w then
    (s.sequence, { s with conn := conn, sequence := s.sequence + 1, sent := (id, req) :: s.sent })
  else (-1, { s with conn := conn })

def close (s : Session) : Session := { s with conn := (Client.close s.conn).2 }

/-- `big`: longer than the send buffer may get.
mirrors src/base/net/stratum/Client.cpp:147-172 -/
def sendObj (s : Session) (id : Int) (req : Request) (big : Bool) (w : Client.Write) (now : Nat) :
    Int × Session :=
  if big then (-1, close s) else sendSize s id req w now

/-- `send(obj, callback)`.
mirrors src/base/net/stratum/Client.cpp:137-144 -/
def request (s : Session) (big : Bool) (w : Client.Write) (now : Nat) : Int × Session :=
  let number := s.made
  let s := { s with callbacks := insert s.callbacks s.sequence ⟨number, now⟩, made := number + 1 }
  sendObj s s.sequence (.callback number) big w now

/-- mirrors src/base/net/stratum/Client.cpp:175-254 -/
def submit (s : Session) (r : JobResult) (big : Bool) (w : Client.Write) (now : Nat) :
    Int × Session :=
  if s.rpcId ≠ some r.clientId ∨ s.conn.state ≠ .ConnectedState then (-1, s)
  else if r.diff = 0 then (-1, close s)
  else
    let number := s.made
    let result : SubmitResult :=
      { seq := s.sequence, diff := r.diff, actualDiff := r.actualDiff, reqId := 0,
        backend := r.backend, start := now }
    let s := { s with results := assign s.results s.sequence ⟨number, result⟩,
                      made := number + 1 }
    sendObj s s.sequence (.share number r.diff r.actualDiff) big w now

/-- mirrors src/base/net/stratum/Client.cpp:866-869 -/
def ping (s : Session) (w : Client.Write) (now : Nat) : Int × Session :=
  sendSize s s.sequence .ping w now

/-- The login request has the id 1.
mirrors src/base/net/stratum/Client.cpp:631-653 -/
def login (s : Session) (big : Bool) (w : Client.Write) (now : Nat) : Int × Session :=
  sendObj { s with results := [] } 1 .login big w now

/-! ## Jobs -/

/-- mirrors src/base/net/stratum/Client.h:148 -/
def hasNicehash (s : Session) : Bool := .EXT_NICEHASH ∈ s.extensions || s.pool.nicehash

/-- The client id of a job; a null string is an empty one. -/
def clientId (s : Session) : String := Job.text (s.rpcId.getD [])

/-- mirrors src/base/net/stratum/Client.cpp:483-506 -/
def verifyAlgorithm (env : Env) (algorithm : Algorithm) : Bool :=
  algorithm ≠ .INVALID ∧ env.enabled algorithm

/-- mirrors src/base/net/stratum/Client.cpp:382-393 -/
def setAlgorithm (s : Session) (env : Env) (job : Job) (algo : Option Bytes) : Job :=
  match algo with
  | some algo => { job with algorithm := env.algorithmOf algo }
  | none => if s.pool.coin.isValid then { job with algorithm := s.pool.coin.algorithm } else job

/-- The blob, or with self-select the wallet the pool wants.
mirrors src/base/net/stratum/Client.cpp:395-412 -/
def setInput (s : Session) (params : Json) (job : Job) : Option (Job × Bytes) :=
  if s.pool.selfSelect then
    match params.getString (ascii "extra_nonce"), params.getString (ascii "pool_wallet") with
    | some _, some wallet => some (job, wallet)
    | _, _ => none
  else
    match job.setBlob (params.getString (ascii "blob")) with
    | (job, true) => some (job, [])
    | (_, false) => none

/-- The job of a notification, or the code of what is wrong with it.
mirrors src/base/net/stratum/Client.cpp:370-431 -/
def buildJob (s : Session) (env : Env) (params : Json) : Option (Except Int (Job × Bytes)) :=
  if ¬ params.isObject then some (.error 2)
  else
    let job : Job := { nicehash := hasNicehash s, algorithm := s.pool.algorithm,
                       clientId := clientId s }
    match job.setId (params.getString (ascii "job_id")) with
    | (_, false) => some (.error 3)
    | (job, true) =>
      match setInput s params (setAlgorithm s env job (params.getString (ascii "algo"))) with
      | none => some (.error 4)
      | some (job, wallet) =>
        match job.setTarget (params.getString (ascii "target")) with
        | none => none
        | some (_, false) => some (.error 5)
        | some (job, true) =>
          if ¬ verifyAlgorithm env job.algorithm then some (.error 6)
          else
            let seed := job.setSeedHash (params.getString (ascii "seed_hash"))
            let needed : Bool := ¬ s.pool.selfSelect ∧ job.algorithm.isRandomX
            if needed ∧ ¬ seed.2 then some (.error 7)
            else
              let job := if needed then seed.1 else job
              some (.ok (job.setSigKey (params.getString (ascii "sig_key")), wallet))

/-- Whether there is a new job; `code` is only written when there is an error.
mirrors src/base/net/stratum/Client.cpp:368-451 -/
def parseJob (s : Session) (env : Env) (params : Json) (code : Int) :
    Option (Session × Bool × Int) :=
  match buildJob s env params with
  | none => none
  | some (.error code) => some (s, false, code)
  | some (.ok (job, wallet)) =>
    let s := { s with job := { s.job with clientId := clientId s } }
    if ¬ s.job.isEqual job then
      some ({ s with jobs := s.jobs + 1, job := job, poolWallet := wallet }, true, code)
    else if s.jobs = 0 then some (s, false, code)
    else some (close s, false, code)

/-- mirrors src/base/net/stratum/Job.h:69 -/
def isValid (s : Session) : Bool :=
  (0 < s.job.size ∧ 0 < Job.toDiff s.job.target) ∨ s.poolWallet ≠ []

/-! ## Responses -/

/-- mirrors src/base/net/stratum/Client.cpp:772-797 -/
def addExtension (now : Nat) (s : Session) (ext : Json) : Session :=
  match ext with
  | .string name =>
    let name := cstr name
    if name = ascii "algo" then { s with extensions := .EXT_ALGO :: s.extensions }
    else if name = ascii "nicehash" then { s with extensions := .EXT_NICEHASH :: s.extensions }
    else if name = ascii "connect" then { s with extensions := .EXT_CONNECT :: s.extensions }
    else if name = ascii "keepalive" then
      { s with extensions := .EXT_KEEPALIVE :: s.extensions,
               conn := Client.startTimeout { s.conn with extKeepAlive := true } now }
    else if name = ascii "tls" then { s with extensions := .EXT_TLS :: s.extensions }
    else s
  | _ => s

/-- mirrors src/base/net/stratum/Client.cpp:759-798 -/
def parseExtensions (s : Session) (result : Json) (now : Nat) : Session :=
  let s := { s with extensions := [], conn := { s.conn with extKeepAlive := false } }
  match result.find (ascii "extensions") with
  | some (.array extensions) => extensions.foldl (addExtension now) s
  | _ => s

/-- mirrors src/base/net/stratum/Client.cpp:614-628 -/
def parseLogin (s : Session) (env : Env) (result : Json) (code : Int) :
    Option (Session × Bool × Int) :=
  let s := { s with rpcId := result.getString (ascii "id") }
  if s.rpcId = none then some (s, false, 1)
  else
    (parseJob (parseExtensions s result env.now) env (result.getObject (ascii "job")) code).map
      fun r => ({ r.1 with jobs := 0 }, r.2)

/-- mirrors src/base/net/stratum/BaseClient.cpp:60-83 -/
def handleResponse (s : Session) (id : Int) (result error : Json) (now : Nat) : Bool × Session :=
  if id ≤ 1 then (false, s)
  else
    match get s.callbacks id with
    | some cb =>
      let value := if error.isObject then error else result
      let run : Called := ⟨id, cb, value, ! error.isObject, now - cb.ts⟩
      (true, { s with callbacks := erase s.callbacks id, called := s.called ++ [run] })
    | none => (false, s)

/-- mirrors src/base/net/stratum/BaseClient.cpp:86-98 -/
def handleSubmitResponse (s : Session) (id : Int) (error : Option Bytes) (now : Nat) :
    Bool × Session :=
  match get s.results id with
  | some share =>
    let result := { share.result with elapsed := now - share.result.start }
    let report : Report := ⟨id, { share with result := result }, error⟩
    (true, { s with results := erase s.results id, reports := s.reports ++ [report] })
  | none => (false, s)

/-- `strncasecmp` with the length of `lit` finds no difference. -/
def startsLike (lit : String) (s : Bytes) : Bool :=
  (s.take lit.length).map lower = (ascii lit).map lower

/-- mirrors src/base/net/stratum/Client.cpp:984-1007 -/
def isCriticalError (message : Bytes) : Bool :=
  startsLike "Unauthenticated" message || startsLike "your IP is banned" message ||
    startsLike "IP Address currently banned" message || startsLike "Invalid job id" message

def tell (s : Session) (n : Notice) : Session := { s with conn := Client.tell s.conn n }

/-- mirrors src/base/net/stratum/Client.cpp:852-859 -/
def loggedIn (s : Session) (env : Env) : Session :=
  let s := tell { s with conn := { s.conn with failures := 0 } } .onLoginSuccess
  let s := if env.leaves then { s with conn := (Client.disconnect s.conn).2 } else s
  if isValid s then tell s .onJobReceived else s

/-- mirrors src/base/net/stratum/Client.cpp:817-863 -/
def parseResponse (s : Session) (env : Env) (id : Int) (result error : Json) : Option Session :=
  match handleResponse s id result error env.now with
  | (true, s) => some s
  | (false, s) =>
    if error.isObject then
      match error.find (ascii "message") with
      | some (.string message) =>
        let s := (handleSubmitResponse s id (some (cstr message)) env.now).2
        some (if s.id = 1 ∨ isCriticalError (cstr message) then close s else s)
      | _ => none
    else if ¬ result.isObject then some s
    else if id = 1 then
      (parseLogin s env result (-1)).map fun r =>
        if r.2.1 then loggedIn r.1 env else close r.1
    else some (handleSubmitResponse s id none env.now).2

/-! ## Lines -/

/-- mirrors src/base/net/stratum/Client.cpp:703-736 -/
def clientReconnect (s : Session) (env : Env) (params : Json) : Session :=
  match params with
  | .array [.string host, .string port] =>
    let url := cstr host ++ ascii ":" ++ cstr port
    { s with conn := Client.reconnect { s.conn with poolTLS := env.urlTLS url } env.now }
  | _ => s

/-- mirrors src/base/net/stratum/Client.cpp:801-814 -/
def parseNotification (s : Session) (env : Env) (method : Bytes) (params : Json) :
    Option Session :=
  if method = ascii "job" then
    (parseJob s env params (-1)).map fun r =>
      if r.2.1 then tell r.1 .onJobReceived else close r.1
  else some s

/-- The line as a response: its id, result and error.
mirrors src/base/net/stratum/Client.cpp:699-703,738-740 -/
def response (doc : Json) : Option (Int × Json × Json) :=
  if doc.getString (ascii "method") = some (ascii "client.reconnect") then none
  else (doc.getValue (ascii "id")).int64.map fun id =>
    (id, doc.getValue (ascii "result"), doc.getValue (ascii "error"))

/-- mirrors src/base/net/stratum/Client.cpp:674-756 -/
def parse (s : Session) (env : Env) (doc : Option Json) : Option Session :=
  match doc with
  | none => some s
  | some doc =>
    if ¬ doc.isObject then some s
    else
      match response doc with
      | some (id, result, error) => parseResponse s env id result error
      | none =>
        match doc.getString (ascii "method") with
        | none => some s
        | some method =>
          if method = ascii "client.reconnect" then
            some (clientReconnect s env (doc.getValue (ascii "params")))
          else if (doc.getValue (ascii "error")).isObject then some s
          else parseNotification s env method (doc.getValue (ascii "params"))

end Session

end Rxs
