import Rxs.L1Encoding.Json
import Rxs.L3Protocol.HttpContext

/-!
# A request to the API

`Api::request` makes an `HttpApiRequest` of a message and asks one listener after the
other, until one has done it; a request that none has done is done at the end. A
listener accepts the request, writes its reply, or ends it: with a status, or with a
result or an error of JSON-RPC. The response goes out with each of these, and `done`
of a JSON-RPC request asks for one of the others and ends the request again. The
connection closes behind the first response, in a callback of the write.

What a listener does on a request is a list of calls.

* `wrote_call`: how many responses each call writes.
* `dispatch_first`, `dispatch_unended`: the listeners up to the first that ends the
  request, and a request that none ends.
* **`one_response`**: exactly when one response is written.
* `one_response_fails`: what `resume` of JSON-RPC is answered with, and a request that
  is no JSON.
-/
namespace Rxs

open Rxs.Core

/-- What the code takes from elsewhere: the JSON parser and printer, the texts of the
parser's errors and of a status, and the members of a summary. -/
structure ApiEnv where
  parse : Bytes → Option Json
  parseError : Bytes → Bytes
  print : Json → Bytes
  statusName : Int → Bytes
  summary : Bool → List (Bytes × Json)

namespace Json

/-- `AddMember`. -/
def addMember (key : Bytes) (value : Json) : Json → Json
  | .object members => .object (members ++ [(key, value)])
  | doc => doc

def hasMember (doc : Json) (key : Bytes) : Bool := (doc.find key).isSome

end Json

/-- A response as it goes to the connection. -/
structure HttpMessage where
  statusCode : Int
  headers : List (Bytes × Bytes)
  body : Bytes
  deriving DecidableEq, Repr

structure HttpApiResponse where
  statusCode : Int := 200
  headers : List (Bytes × Bytes) := []
  doc : Json := .object []

namespace HttpApiResponse

/-- What is in the map stays.
mirrors src/base/net/http/HttpResponse.h:35 -/
def setHeader (r : HttpApiResponse) (key value : Bytes) : HttpApiResponse :=
  if (r.headers.lookup key).isSome then r else { r with headers := r.headers ++ [(key, value)] }

end HttpApiResponse

namespace ApiRequest

inductive State where
  | STATE_NEW | STATE_ACCEPTED | STATE_DONE
  deriving DecidableEq, Repr

inductive RequestType where
  | REQ_UNKNOWN | REQ_SUMMARY | REQ_JSON_RPC
  deriving DecidableEq, Repr

def METHOD_GET : Nat := 1
def METHOD_POST : Nat := 3

def RPC_PARSE_ERROR : Int := -32700
def RPC_INVALID_REQUEST : Int := -32600
def RPC_METHOD_NOT_FOUND : Int := -32601
def RPC_INVALID_PARAMS : Int := -32602

end ApiRequest

/-- `req` is the message; `alive`: its connection is open and writable, which it is
while the message is read. Ghost: `written` are the responses. -/
structure HttpApiRequest where
  req : HttpData
  restricted : Bool
  version : Nat := 1
  type : ApiRequest.RequestType := .REQ_UNKNOWN
  state : ApiRequest.State := .STATE_NEW
  rpcMethod : Bytes := []
  res : HttpApiResponse := {}
  parsed : Nat := 0
  body : Json := .null
  url : Bytes
  alive : Bool := true
  written : List HttpMessage := []

namespace HttpApiRequest

open ApiRequest

variable (env : ApiEnv)

def isDone (r : HttpApiRequest) : Bool := r.state = .STATE_DONE

def isNew (r : HttpApiRequest) : Bool := r.state = .STATE_NEW

def hasParseError (r : HttpApiRequest) : Bool := r.parsed = 2

def reply (r : HttpApiRequest) : Json := r.res.doc

def addMember (r : HttpApiRequest) (key : Bytes) (value : Json) : HttpApiRequest :=
  { r with res := { r.res with doc := r.res.doc.addMember key value } }

/-- mirrors src/base/api/requests/HttpApiRequest.cpp:35-57 -/
def rpcError (code : Int) : Bytes :=
  if code = RPC_PARSE_ERROR then ascii "Parse error"
  else if code = RPC_INVALID_REQUEST then ascii "Invalid Request"
  else if code = RPC_METHOD_NOT_FOUND then ascii "Method not found"
  else if code = RPC_INVALID_PARAMS then ascii "Invalid params"
  else if code ≥ 400 ∧ code < 600 then env.statusName code
  else ascii "Internal error"

/-- The connection is closed in the callback of the write, not here.
mirrors src/base/net/http/HttpResponse.cpp:58-105 -/
def httpEnd (r : HttpApiRequest) (data : Bytes) : HttpApiRequest :=
  if ¬ r.alive then r
  else
    let res := if data = [] then r.res
      else r.res.setHeader (ascii "Content-Length") (ascii (toString data.length))
    let res := res.setHeader (ascii "Connection") (ascii "close")
    { r with res := res, written := r.written ++ [⟨res.statusCode, res.headers, data⟩] }

/-- mirrors src/base/net/http/HttpApiResponse.cpp:49-81 -/
def resEnd (r : HttpApiRequest) : HttpApiRequest :=
  let res := r.res
    |>.setHeader (ascii "Access-Control-Allow-Origin") (ascii "*")
    |>.setHeader (ascii "Access-Control-Allow-Methods") (ascii "GET, PUT, POST, DELETE")
    |>.setHeader (ascii "Access-Control-Allow-Headers") (ascii "Authorization, Content-Type")
  let doc := if res.statusCode ≥ 400 ∧ ¬ res.doc.hasMember (ascii "status")
    then res.doc.addMember (ascii "status") (.int res.statusCode) else res.doc
  let doc := if res.statusCode ≥ 400 ∧ ¬ doc.hasMember (ascii "error")
    then doc.addMember (ascii "error") (.string (env.statusName res.statusCode)) else doc
  match doc with
  | .object [] => httpEnd { r with res := { res with doc := doc } } []
  | _ =>
    let res := { res with doc := doc }.setHeader (ascii "Content-Type") (ascii "application/json")
    httpEnd { r with res := res } (env.print doc)

def setStatus (r : HttpApiRequest) (status : Int) : HttpApiRequest :=
  { r with res := { r.res with statusCode := status } }

/-- mirrors src/base/api/requests/HttpApiRequest.cpp:194-207 -/
def rpcDone (r : HttpApiRequest) (key : Bytes) (value : Json) : HttpApiRequest :=
  let r := { r with state := .STATE_DONE }
  let r := r.addMember key value
  let r := r.addMember (ascii "jsonrpc") (.string (ascii "2.0"))
  let r := r.addMember (ascii "id") (r.body.getValue (ascii "id"))
  resEnd env (r.setStatus 200)

/-- mirrors src/base/api/requests/HttpApiRequest.cpp:175-185 -/
def setRpcError (r : HttpApiRequest) (code : Int) (message : Option Bytes) : HttpApiRequest :=
  rpcDone env r (ascii "error")
    (.object [(ascii "code", .int code),
      (ascii "message", .string (message.getD (rpcError env code)))])

/-- mirrors src/base/api/requests/HttpApiRequest.cpp:188-191 -/
def setRpcResult (r : HttpApiRequest) (result : Json) : HttpApiRequest :=
  rpcDone env r (ascii "result") result

/-- mirrors src/base/api/requests/HttpApiRequest.cpp:147-172 -/
def done (r : HttpApiRequest) (status : Int) : HttpApiRequest :=
  let r := { r with state := .STATE_DONE }
  let r :=
    if r.type = .REQ_JSON_RPC then
      let r := r.setStatus 200
      if status ≠ 200 then
        setRpcError env r (if status = 404 then RPC_METHOD_NOT_FOUND else status) none
      else if ¬ r.reply.hasMember (ascii "result") then
        setRpcResult env r (.object [(ascii "status", .string (ascii "OK"))])
      else r
    else r.setStatus status
  resEnd env r

/-- mirrors src/base/api/requests/HttpApiRequest.cpp:106-128 -/
def accept (r : HttpApiRequest) : HttpApiRequest :=
  let r := { r with state := .STATE_ACCEPTED }
  if r.parsed = 0 ∧ r.req.body ≠ [] then
    match env.parse (cstr r.req.body) with
    | some body => { r with body := body, parsed := 1 }
    | none =>
      let r := { r with parsed := 2 }
      if r.type ≠ .REQ_JSON_RPC then
        r.addMember (ascii "error") (.string (env.parseError (cstr r.req.body)))
      else r
  else r

/-- A post to `/json_rpc`. -/
def isJsonRpc (req : HttpData) : Bool :=
  req.method = METHOD_POST ∧ cstr req.url = ascii "/json_rpc"

/-- mirrors src/base/api/requests/HttpApiRequest.cpp:64-103 -/
def create (req : HttpData) (restricted : Bool) : HttpApiRequest :=
  let url := cstr req.url
  let summary := req.method = METHOD_GET ∧
    (url = ascii "/1/summary" ∨ url = ascii "/2/summary" ∨ url = ascii "/api.json")
  let r : HttpApiRequest :=
    { req := req, restricted := restricted, url := url
      type := if summary then .REQ_SUMMARY else .REQ_UNKNOWN }
  if isJsonRpc req then
    let r := accept env { r with type := .REQ_JSON_RPC }
    if r.hasParseError then done env r RPC_PARSE_ERROR
    else
      let r := { r with rpcMethod := (r.body.getString (ascii "method")).getD [] }
      if r.rpcMethod = [] then done env r RPC_INVALID_REQUEST
      else { r with state := .STATE_NEW }
  else if url.length > 4 ∧ url.take 3 = ascii "/2/" then { r with version := 2 }
  else r

/-- What a listener does with a request. `reply` is what its reply is made. -/
inductive Call where
  | accept
  | reply (doc : Json)
  | done (status : Int)
  | setRpcError (code : Int) (message : Option Bytes)
  | setRpcResult (result : Json)

def call (r : HttpApiRequest) : Call → HttpApiRequest
  | .accept => accept env r
  | .reply doc => { r with res := { r.res with doc := doc } }
  | .done status => done env r status
  | .setRpcError code message => setRpcError env r code message
  | .setRpcResult result => setRpcResult env r result

/-- The listeners, until the request is done.
mirrors src/base/api/Api.cpp:210-219 -/
def dispatch (r : HttpApiRequest) : List (List Call) → HttpApiRequest
  | [] => done env r (if r.isNew then 404 else 200)
  | calls :: listeners =>
    let r := calls.foldl (call env) r
    if r.isDone then r else dispatch r listeners

/-- mirrors src/base/api/Api.cpp:176-219 -/
def exec (r : HttpApiRequest) (listeners : List (List Call)) : HttpApiRequest :=
  let r :=
    if r.type = .REQ_SUMMARY then
      (env.summary r.restricted).foldl (fun r m => r.addMember m.1 m.2) (accept env r)
    else r
  dispatch env r listeners

end HttpApiRequest

/-- mirrors src/base/api/Api.cpp:111-116 -/
def Api.request (env : ApiEnv) (req : HttpData) (restricted : Bool)
    (listeners : List (List HttpApiRequest.Call)) : HttpApiRequest :=
  HttpApiRequest.exec env (HttpApiRequest.create env req restricted) listeners

namespace L4.ApiRequest

open Rxs.HttpApiRequest Rxs.ApiRequest

variable (env : ApiEnv)

/-! ## What a call writes -/

/-- The call leaves `n` responses more. -/
structure Wrote (n : Nat) (r r' : HttpApiRequest) : Prop where
  length : r'.written.length = r.written.length + n
  alive : r'.alive = r.alive
  type : r'.type = r.type

theorem Wrote.trans {m n : Nat} {r r' r'' : HttpApiRequest} (h : Wrote m r r')
    (h' : Wrote n r' r'') : Wrote (m + n) r r'' :=
  ⟨by rw [h'.length, h.length, Nat.add_assoc], h'.alive.trans h.alive, h'.type.trans h.type⟩

theorem wrote_httpEnd {r : HttpApiRequest} (ha : r.alive = true) (data : Bytes) :
    Wrote 1 r (httpEnd r data) ∧ (httpEnd r data).state = r.state := by
  unfold httpEnd
  rw [if_neg (by simp [ha])]
  exact ⟨⟨by simp, rfl, rfl⟩, rfl⟩

theorem wrote_resEnd {r : HttpApiRequest} (ha : r.alive = true) :
    Wrote 1 r (resEnd env r) ∧ (resEnd env r).state = r.state := by
  have hend (res : HttpApiResponse) (data : Bytes) :
      Wrote 1 r (httpEnd { r with res := res } data) ∧
        (httpEnd { r with res := res } data).state = r.state := by
    obtain ⟨hw, hs⟩ := wrote_httpEnd (r := { r with res := res }) ha data
    exact ⟨⟨hw.length, hw.alive, hw.type⟩, hs⟩
  unfold resEnd
  dsimp only
  split <;> exact hend _ _

theorem wrote_rpcDone {r : HttpApiRequest} (ha : r.alive = true) (key : Bytes) (value : Json) :
    Wrote 1 r (rpcDone env r key value) ∧ (rpcDone env r key value).state = .STATE_DONE := by
  obtain ⟨hw, hs⟩ := wrote_resEnd env (r := ((({ r with state := .STATE_DONE }).addMember key
    value).addMember (ascii "jsonrpc") (.string (ascii "2.0"))).addMember (ascii "id")
      (r.body.getValue (ascii "id")) |>.setStatus 200) ha
  exact ⟨⟨hw.length, hw.alive, hw.type⟩, hs⟩

/-- How many responses a call writes. -/
def responses (r : HttpApiRequest) : Call → Nat
  | .accept => 0
  | .reply _ => 0
  | .done status =>
    if r.type = .REQ_JSON_RPC ∧ ¬ (status = 200 ∧ r.reply.hasMember (ascii "result")) then 2 else 1
  | .setRpcError _ _ => 1
  | .setRpcResult _ => 1

/-- The state behind a call. -/
def stateAfter (state : State) : Call → State
  | .accept => .STATE_ACCEPTED
  | .reply _ => state
  | _ => .STATE_DONE

theorem wrote_done {r : HttpApiRequest} (ha : r.alive = true) (status : Int) :
    Wrote (responses r (.done status)) r (done env r status) ∧
      (done env r status).state = .STATE_DONE := by
  unfold done responses
  dsimp only
  by_cases ht : r.type = .REQ_JSON_RPC
  · -- an error or a result of its own comes before the end
    have htwice (key : Bytes) (value : Json) :
        Wrote 2 r (resEnd env (rpcDone env
          (({ r with state := .STATE_DONE } : HttpApiRequest).setStatus 200) key value)) ∧
        (resEnd env (rpcDone env
          (({ r with state := .STATE_DONE } : HttpApiRequest).setStatus 200) key value)).state =
            .STATE_DONE := by
      obtain ⟨hw, hs⟩ := wrote_rpcDone env
        (r := ({ r with state := .STATE_DONE } : HttpApiRequest).setStatus 200) ha key value
      obtain ⟨hw', hs'⟩ := wrote_resEnd env (hw.alive.trans ha)
      have hboth := hw.trans hw'
      exact ⟨⟨hboth.length, hboth.alive, hboth.type⟩, hs'.trans hs⟩
    rw [if_pos ht]
    by_cases hs : status = 200
    · have hs' : ¬ status ≠ 200 := not_not_intro hs
      have hreply : (({ r with state := .STATE_DONE } : HttpApiRequest).setStatus 200).reply =
          r.reply := rfl
      by_cases hm : r.reply.hasMember (ascii "result") = true
      · have hm' : ¬ ¬ r.reply.hasMember (ascii "result") = true := not_not_intro hm
        have hone : ¬ (r.type = .REQ_JSON_RPC ∧
            ¬ (status = 200 ∧ r.reply.hasMember (ascii "result") = true)) :=
          fun h => h.2 ⟨hs, hm⟩
        rw [if_neg hs', hreply, if_neg hm', if_neg hone]
        obtain ⟨hw, hs'⟩ := wrote_resEnd env
          (r := ({ r with state := .STATE_DONE } : HttpApiRequest).setStatus 200) ha
        exact ⟨⟨hw.length, hw.alive, hw.type⟩, hs'⟩
      · have htwo : r.type = .REQ_JSON_RPC ∧
            ¬ (status = 200 ∧ r.reply.hasMember (ascii "result") = true) :=
          ⟨ht, fun h => hm h.2⟩
        rw [if_neg hs', hreply, if_pos hm, if_pos htwo]
        exact htwice _ _
    · have htwo : r.type = .REQ_JSON_RPC ∧
          ¬ (status = 200 ∧ r.reply.hasMember (ascii "result") = true) := ⟨ht, fun h => hs h.1⟩
      rw [if_pos hs, if_pos htwo]
      exact htwice _ _
  · have hone : ¬ (r.type = .REQ_JSON_RPC ∧
        ¬ (status = 200 ∧ r.reply.hasMember (ascii "result") = true)) := fun h => ht h.1
    rw [if_neg ht, if_neg hone]
    obtain ⟨hw, hs⟩ := wrote_resEnd env
      (r := ({ r with state := .STATE_DONE } : HttpApiRequest).setStatus status) ha
    exact ⟨⟨hw.length, hw.alive, hw.type⟩, hs⟩

theorem wrote_accept (r : HttpApiRequest) :
    Wrote 0 r (accept env r) ∧ (accept env r).state = .STATE_ACCEPTED ∧
      (r.type = .REQ_JSON_RPC → (accept env r).res = r.res) := by
  unfold accept
  dsimp only
  split
  · split
    · exact ⟨⟨rfl, rfl, rfl⟩, rfl, fun _ => rfl⟩
    · by_cases ht : r.type = .REQ_JSON_RPC
      · rw [if_neg (by simp [ht])]
        exact ⟨⟨rfl, rfl, rfl⟩, rfl, fun _ => rfl⟩
      · rw [if_pos ht]
        exact ⟨⟨rfl, rfl, rfl⟩, rfl, fun h => absurd h ht⟩
  · exact ⟨⟨rfl, rfl, rfl⟩, rfl, fun _ => rfl⟩

/-- **One call** of a listener. -/
theorem wrote_call {r : HttpApiRequest} (ha : r.alive = true) (c : Call) :
    Wrote (responses r c) r (call env r c) ∧ (call env r c).state = stateAfter r.state c := by
  cases c with
  | accept => exact ⟨(wrote_accept env r).1, (wrote_accept env r).2.1⟩
  | reply doc => exact ⟨⟨rfl, rfl, rfl⟩, rfl⟩
  | done status => exact wrote_done env ha status
  | setRpcError code message => exact wrote_rpcDone env ha _ _
  | setRpcResult result => exact wrote_rpcDone env ha _ _

/-! ## What a listener writes -/

/-- A call that does not end the request. -/
def Silent : Call → Prop
  | .accept => True
  | .reply _ => True
  | _ => False

theorem silent_iff (r : HttpApiRequest) (c : Call) : Silent c ↔ responses r c = 0 := by
  cases c <;> simp [Silent, responses]
  split <;> simp

/-- The reply behind the calls, if none of them ends the request. -/
def replied (doc : Json) (calls : List Call) : Json :=
  calls.foldl (fun doc c => match c with | .reply doc => doc | _ => doc) doc

/-- The calls without an end: what they leave. -/
theorem calls_silent {r : HttpApiRequest} (ha : r.alive = true) {calls : List Call}
    (h : ∀ c ∈ calls, Silent c) :
    Wrote 0 r (calls.foldl (call env) r) ∧
      (calls.foldl (call env) r).state = calls.foldl stateAfter r.state ∧
      (r.type = .REQ_JSON_RPC →
        (calls.foldl (call env) r).reply = replied r.reply calls) := by
  induction calls generalizing r with
  | nil => exact ⟨⟨rfl, rfl, rfl⟩, rfl, fun _ => rfl⟩
  | cons c calls ih =>
    obtain ⟨hc, hcalls⟩ := List.forall_mem_cons.mp h
    obtain ⟨hw, hs⟩ := wrote_call env ha c
    rw [(silent_iff r c).mp hc] at hw
    obtain ⟨hw', hs', hd'⟩ := ih (hw.alive.trans ha) hcalls
    refine ⟨hw.trans hw', by rw [List.foldl_cons, hs', hs, List.foldl_cons], fun ht => ?_⟩
    rw [List.foldl_cons, hd' (hw.type.trans ht)]
    cases c with
    | accept => rw [reply, call, (wrote_accept env r).2.2 ht]; rfl
    | reply doc => rfl
    | _ => exact absurd hc (by simp [Silent])

/-- No call takes a response back. -/
theorem calls_mono {r : HttpApiRequest} (ha : r.alive = true) (calls : List Call) :
    r.written.length ≤ (calls.foldl (call env) r).written.length ∧
      (calls.foldl (call env) r).alive = true ∧ (calls.foldl (call env) r).type = r.type := by
  induction calls generalizing r with
  | nil => exact ⟨le_rfl, ha, rfl⟩
  | cons c calls ih =>
    obtain ⟨hw, -⟩ := wrote_call env ha c
    obtain ⟨hle, ha', ht⟩ := ih (hw.alive.trans ha)
    have := hw.length
    exact ⟨by rw [List.foldl_cons]; omega, ha', ht.trans hw.type⟩

/-- The calls up to the first that ends the request. -/
theorem silent_or (calls : List Call) : (∀ c ∈ calls, Silent c) ∨
    ∃ before c after, calls = before ++ c :: after ∧ (∀ c ∈ before, Silent c) ∧ ¬ Silent c := by
  induction calls with
  | nil => exact .inl fun _ h => by cases h
  | cons c calls ih =>
    by_cases hc : Silent c
    · rcases ih with h | ⟨before, d, after, rfl, hb, hd⟩
      · exact .inl (List.forall_mem_cons.mpr ⟨hc, h⟩)
      · exact .inr ⟨c :: before, d, after, rfl, List.forall_mem_cons.mpr ⟨hc, hb⟩, hd⟩
    · exact .inr ⟨[], c, calls, rfl, (fun _ h => by cases h), hc⟩

/-- What the calls without an end leave of the state. -/
theorem state_silent {calls : List Call} (h : ∀ c ∈ calls, Silent c) (state : State) :
    (Call.accept ∈ calls ∧ calls.foldl stateAfter state = .STATE_ACCEPTED) ∨
      (Call.accept ∉ calls ∧ calls.foldl stateAfter state = state) := by
  induction calls generalizing state with
  | nil => exact .inr ⟨List.not_mem_nil, rfl⟩
  | cons c calls ih =>
    obtain ⟨hc, hcalls⟩ := List.forall_mem_cons.mp h
    cases c with
    | accept =>
      refine .inl ⟨List.mem_cons_self, ?_⟩
      rcases ih hcalls .STATE_ACCEPTED with ⟨-, hs⟩ | ⟨-, hs⟩ <;> exact hs
    | reply doc =>
      rcases ih hcalls state with ⟨hm, hs⟩ | ⟨hm, hs⟩
      · exact .inl ⟨List.mem_cons_of_mem _ hm, hs⟩
      · exact .inr ⟨by simpa using hm, hs⟩
    | _ => exact absurd hc (by simp [Silent])

theorem not_done_silent {calls : List Call} (h : ∀ c ∈ calls, Silent c) {state : State}
    (hs : state ≠ .STATE_DONE) : calls.foldl stateAfter state ≠ .STATE_DONE := by
  rcases state_silent h state with ⟨-, h'⟩ | ⟨-, h'⟩ <;> rw [h']
  · exact State.noConfusion
  · exact hs

/-- A call that ends the request, and what comes with it. -/
theorem calls_grow {r : HttpApiRequest} (ha : r.alive = true) {calls : List Call}
    (h : ¬ ∀ c ∈ calls, Silent c) :
    r.written.length + 1 ≤ (calls.foldl (call env) r).written.length := by
  obtain ⟨before, c, after, rfl, hb, hc⟩ := (silent_or calls).resolve_left h
  obtain ⟨hw, -, -⟩ := calls_silent env ha hb
  obtain ⟨hw', -⟩ := wrote_call env (hw.alive.trans ha) c
  obtain ⟨hle, -, -⟩ := calls_mono env (hw'.alive.trans (hw.alive.trans ha)) after
  have hone : responses (before.foldl (call env) r) c ≠ 0 := fun h => hc ((silent_iff _ c).mpr h)
  have hlen := (hw.trans hw').length
  rw [List.foldl_append, List.foldl_cons]
  omega

/-! ## One listener after the other -/

theorem dispatch_mono {r : HttpApiRequest} (ha : r.alive = true) (listeners : List (List Call)) :
    r.written.length ≤ (dispatch env r listeners).written.length := by
  induction listeners generalizing r with
  | nil =>
    have := (wrote_done env ha (if r.isNew then 404 else 200)).1.length
    rw [dispatch]
    omega
  | cons calls listeners ih =>
    obtain ⟨hle, ha', -⟩ := calls_mono env ha calls
    rw [dispatch]
    split
    · exact hle
    · exact hle.trans (ih ha')

/-- A request that is not done is answered. -/
theorem dispatch_grow {r : HttpApiRequest} (ha : r.alive = true) (hs : r.state ≠ .STATE_DONE)
    (listeners : List (List Call)) :
    r.written.length + 1 ≤ (dispatch env r listeners).written.length := by
  induction listeners generalizing r with
  | nil =>
    have hlen := (wrote_done env ha (if r.isNew then 404 else 200)).1.length
    have hpos : responses r (.done (if r.isNew then 404 else 200)) ≠ 0 :=
      fun h => (silent_iff r _).mpr h
    rw [dispatch]
    omega
  | cons calls listeners ih =>
    obtain ⟨hle, ha', -⟩ := calls_mono env ha calls
    rw [dispatch]
    by_cases hsil : ∀ c ∈ calls, Silent c
    · obtain ⟨hw, hst, -⟩ := calls_silent env ha hsil
      have hnd : (calls.foldl (call env) r).state ≠ .STATE_DONE := by
        rw [hst]
        exact not_done_silent hsil hs
      rw [if_neg (by simpa [isDone] using hnd)]
      exact (Nat.add_le_add_right hle 1).trans (ih ha' hnd)
    · have hgrow := calls_grow env ha hsil
      split
      · exact hgrow
      · exact hgrow.trans (dispatch_mono env ha' listeners)

/-- **Listeners that do not end the request** only leave the calls they make. -/
theorem dispatch_silent {r : HttpApiRequest} (ha : r.alive = true) (hs : r.state ≠ .STATE_DONE)
    {pre : List (List Call)} (h : ∀ calls ∈ pre, ∀ c ∈ calls, Silent c)
    (listeners : List (List Call)) : dispatch env r (pre ++ listeners) =
      dispatch env (pre.flatten.foldl (call env) r) listeners := by
  induction pre generalizing r with
  | nil => rfl
  | cons calls pre ih =>
    obtain ⟨hc, hpre⟩ := List.forall_mem_cons.mp h
    obtain ⟨hw, hst, -⟩ := calls_silent env ha hc
    have hnd : (calls.foldl (call env) r).state ≠ .STATE_DONE := by
      rw [hst]
      exact not_done_silent hc hs
    rw [List.cons_append, dispatch]
    rw [if_neg (by simpa [isDone] using hnd), ih (hw.alive.trans ha) hnd hpre, List.flatten_cons,
      List.foldl_append]

/-- The listeners up to the first that ends the request. -/
theorem listeners_or (listeners : List (List Call)) :
    (∀ calls ∈ listeners, ∀ c ∈ calls, Silent c) ∨
    ∃ pre before c after post, listeners = pre ++ (before ++ c :: after) :: post ∧
      (∀ calls ∈ pre, ∀ c ∈ calls, Silent c) ∧ (∀ c ∈ before, Silent c) ∧ ¬ Silent c := by
  induction listeners with
  | nil => exact .inl fun _ h => by cases h
  | cons calls listeners ih =>
    rcases silent_or calls with hc | ⟨before, c, after, rfl, hb, hc⟩
    · rcases ih with h | ⟨pre, before, c, after, post, rfl, hpre, hb, hd⟩
      · exact .inl (List.forall_mem_cons.mpr ⟨hc, h⟩)
      · exact .inr ⟨calls :: pre, before, c, after, post, rfl,
          List.forall_mem_cons.mpr ⟨hc, hpre⟩, hb, hd⟩
    · exact .inr ⟨[], before, c, after, listeners, rfl, (fun _ h => by cases h), hb, hc⟩

theorem silent_flatten {listeners : List (List Call)}
    (h : ∀ calls ∈ listeners, ∀ c ∈ calls, Silent c) : ∀ c ∈ listeners.flatten, Silent c := by
  intro c hc
  obtain ⟨calls, hcalls, hmem⟩ := List.mem_flatten.mp hc
  exact h calls hcalls c hmem

/-! ## One response -/

/-- The call ends the request with one response, `doc` being the reply before it: of a
request of JSON-RPC that is done, only if it has its result already. -/
def Answers (rpc : Prop) (doc : Json) : Call → Prop
  | .done status => rpc → status = 200 ∧ doc.hasMember (ascii "result") = true
  | .setRpcError _ _ => True
  | .setRpcResult _ => True
  | _ => False

/-- One listener ends the request, once, and does not accept it behind that; or none
does, and a request of JSON-RPC is accepted and given its result in the reply. -/
def Once (rpc : Prop) (listeners : List (List Call)) : Prop :=
  (∃ pre before c after post, listeners = pre ++ (before ++ c :: after) :: post ∧
    (∀ calls ∈ pre, ∀ c ∈ calls, Silent c) ∧ (∀ c ∈ before, Silent c) ∧
    Answers rpc (replied (.object []) (pre.flatten ++ before)) c ∧
    ∀ c ∈ after, ∃ doc, c = .reply doc) ∨
  ((∀ calls ∈ listeners, ∀ c ∈ calls, Silent c) ∧
    (rpc → Call.accept ∈ listeners.flatten ∧
      (replied (.object []) listeners.flatten).hasMember (ascii "result") = true))

/-- A request of JSON-RPC that says what it asks for. -/
def WellFormed (req : HttpData) : Prop :=
  req.body ≠ [] ∧ ∃ body, env.parse (cstr req.body) = some body ∧
    (body.getString (ascii "method")).getD [] ≠ []

theorem answers_iff {r : HttpApiRequest} {doc : Json}
    (hdoc : r.type = .REQ_JSON_RPC → r.reply = doc) (c : Call) :
    Answers (r.type = .REQ_JSON_RPC) doc c ↔ responses r c = 1 := by
  cases c with
  | done status =>
    by_cases ht : r.type = .REQ_JSON_RPC
    · have hd := hdoc ht
      by_cases hok : status = 200 ∧ doc.hasMember (ascii "result") = true <;>
        simp [Answers, responses, ht, hd, hok]
    · simp [Answers, responses, ht]
  | _ => simp [Answers, responses]

theorem silent_of_replies {after : List Call} (h : ∀ c ∈ after, ∃ doc, c = .reply doc) :
    (∀ c ∈ after, Silent c) ∧ Call.accept ∉ after := by
  refine ⟨fun c hc => ?_, fun hc => ?_⟩
  · obtain ⟨doc, rfl⟩ := h c hc
    exact trivial
  · obtain ⟨doc, hdoc⟩ := h _ hc
    cases hdoc

theorem replies_of_silent {after : List Call} (h : ∀ c ∈ after, Silent c)
    (ha : Call.accept ∉ after) : ∀ c ∈ after, ∃ doc, c = .reply doc := by
  intro c hc
  cases c with
  | accept => exact absurd hc ha
  | reply doc => exact ⟨doc, rfl⟩
  | _ => exact absurd (h _ hc) (by simp [Silent])

/-- The listener that ends the request: one response, or two and more. -/
theorem dispatch_ends {r : HttpApiRequest} (ha : r.alive = true) {c : Call} (hc : ¬ Silent c)
    (after : List Call) (post : List (List Call)) :
    (dispatch env r ((c :: after) :: post)).written.length = r.written.length + 1 ↔
      responses r c = 1 ∧ ∀ c ∈ after, ∃ doc, c = .reply doc := by
  obtain ⟨hw, hst⟩ := wrote_call env ha c
  have hdone : (call env r c).state = .STATE_DONE := by
    rw [hst]
    cases c <;> first | rfl | exact absurd trivial hc
  have hpos : responses r c ≠ 0 := fun h => hc ((silent_iff r c).mpr h)
  have ha' := hw.alive.trans ha
  have hlen := hw.length
  rw [dispatch, List.foldl_cons]
  obtain ⟨-, hal, -⟩ := calls_mono env ha' after
  by_cases hsil : ∀ c ∈ after, Silent c
  · obtain ⟨hw', hst', -⟩ := calls_silent env ha' hsil
    have hlen' := hw'.length
    rcases state_silent hsil (call env r c).state with ⟨hacc, hs⟩ | ⟨hacc, hs⟩ <;> rw [hs] at hst'
    · -- accepted again: the request is answered again
      have hgrow := dispatch_grow env hal (by rw [hst']; exact State.noConfusion) post
      rw [if_neg (by simp [isDone, hst'])]
      constructor
      · intro h
        omega
      · rintro ⟨-, h⟩
        exact absurd hacc (silent_of_replies h).2
    · rw [if_pos (by simp [isDone, hst', hdone])]
      constructor
      · intro h
        exact ⟨by omega, replies_of_silent hsil hacc⟩
      · rintro ⟨h, -⟩
        omega
  · have hgrow := calls_grow env ha' hsil
    have hmore : r.written.length + 1 <
        (if (after.foldl (call env) (call env r c)).isDone = true then
          after.foldl (call env) (call env r c)
        else dispatch env (after.foldl (call env) (call env r c)) post).written.length := by
      split
      · omega
      · have := dispatch_mono env hal post
        omega
    constructor
    · intro h
      omega
    · rintro ⟨-, h⟩
      exact absurd (silent_of_replies h).1 hsil

/-- No listener ends the request: it is done behind them. -/
theorem dispatch_unended {r : HttpApiRequest} (ha : r.alive = true) (hs : r.state ≠ .STATE_DONE)
    (hnew : r.type = .REQ_JSON_RPC → r.state = .STATE_NEW ∧ r.reply = .object [])
    {listeners : List (List Call)} (hsil : ∀ calls ∈ listeners, ∀ c ∈ calls, Silent c) :
    (dispatch env r listeners).written.length = r.written.length + 1 ↔
      (r.type = .REQ_JSON_RPC → Call.accept ∈ listeners.flatten ∧
        (replied (.object []) listeners.flatten).hasMember (ascii "result") = true) := by
  have hflat := silent_flatten hsil
  obtain ⟨hw, hst, hdoc⟩ := calls_silent env ha hflat
  have hsplit := dispatch_silent env ha hs hsil []
  rw [List.append_nil, dispatch] at hsplit
  have hlen := (wrote_done env (hw.alive.trans ha)
    (if (listeners.flatten.foldl (call env) r).isNew then 404 else 200)).1.length
  rw [hsplit, hlen, hw.length, Nat.add_zero, Nat.add_right_inj, ← answers_iff (fun _ => rfl),
    hw.type]
  refine forall_congr' fun ht => ?_
  rw [hdoc ht, (hnew ht).2]
  refine and_congr_left fun _ => ?_
  rcases state_silent hflat r.state with ⟨hacc, hst'⟩ | ⟨hacc, hst'⟩
  · have hnew' : ¬ (listeners.flatten.foldl (call env) r).isNew = true := by
      simp [isNew, hst, hst']
    rw [if_neg hnew']
    exact iff_of_true rfl hacc
  · have hnew' : (listeners.flatten.foldl (call env) r).isNew = true :=
      decide_eq_true (hst.trans (hst'.trans (hnew ht).1))
    rw [if_pos hnew']
    exact iff_of_false (by decide) hacc

/-- A listener ends the request. -/
theorem dispatch_first {r : HttpApiRequest} (ha : r.alive = true) (hs : r.state ≠ .STATE_DONE)
    (hnew : r.type = .REQ_JSON_RPC → r.state = .STATE_NEW ∧ r.reply = .object [])
    {pre : List (List Call)} {before : List Call} {c : Call} (after : List Call)
    (post : List (List Call)) (hpre : ∀ calls ∈ pre, ∀ c ∈ calls, Silent c)
    (hb : ∀ c ∈ before, Silent c) (hc : ¬ Silent c) :
    (dispatch env r (pre ++ (before ++ c :: after) :: post)).written.length =
      r.written.length + 1 ↔
    Answers (r.type = .REQ_JSON_RPC) (replied (.object []) (pre.flatten ++ before)) c ∧
      ∀ c ∈ after, ∃ doc, c = .reply doc := by
  have hsil : ∀ c ∈ pre.flatten ++ before, Silent c :=
    List.forall_mem_append.mpr ⟨silent_flatten hpre, hb⟩
  obtain ⟨hw, -, hdoc⟩ := calls_silent env ha hsil
  have hsplit : dispatch env r (pre ++ (before ++ c :: after) :: post) =
      dispatch env ((pre.flatten ++ before).foldl (call env) r) ((c :: after) :: post) := by
    rw [dispatch_silent env ha hs hpre, dispatch, dispatch, List.foldl_append, List.foldl_append]
  have hlen : ((pre.flatten ++ before).foldl (call env) r).written.length = r.written.length :=
    hw.length
  have hreply (ht : ((pre.flatten ++ before).foldl (call env) r).type = .REQ_JSON_RPC) :
      ((pre.flatten ++ before).foldl (call env) r).reply =
        replied (.object []) (pre.flatten ++ before) := by
    rw [hw.type] at ht
    rw [hdoc ht, (hnew ht).2]
  rw [hsplit, ← hlen, dispatch_ends env (hw.alive.trans ha) hc, ← answers_iff hreply, hw.type]

/-- **The listeners**, on a request that is not done. -/
theorem dispatch_once {r : HttpApiRequest} (ha : r.alive = true) (hs : r.state ≠ .STATE_DONE)
    (hnew : r.type = .REQ_JSON_RPC → r.state = .STATE_NEW ∧ r.reply = .object [])
    (listeners : List (List Call)) :
    (dispatch env r listeners).written.length = r.written.length + 1 ↔
      Once (r.type = .REQ_JSON_RPC) listeners := by
  constructor
  · intro h
    rcases listeners_or listeners with hsil | ⟨pre, before, c, after, post, rfl, hpre, hb, hc⟩
    · exact .inr ⟨hsil, (dispatch_unended env ha hs hnew hsil).mp h⟩
    · obtain ⟨hans, hafter⟩ := (dispatch_first env ha hs hnew after post hpre hb hc).mp h
      exact .inl ⟨pre, before, c, after, post, rfl, hpre, hb, hans, hafter⟩
  · rintro (⟨pre, before, c, after, post, rfl, hpre, hb, hans, hafter⟩ | ⟨hsil, hrpc⟩)
    · have hc : ¬ Silent c := by
        cases c <;> first | exact id | exact hans.elim
      exact (dispatch_first env ha hs hnew after post hpre hb hc).mpr ⟨hans, hafter⟩
    · exact (dispatch_unended env ha hs hnew hsil).mpr hrpc

/-! ## What comes before the listeners -/

/-- A request of JSON-RPC that says what it asks for is new. -/
theorem create_rpc {req : HttpData} (hrpc : isJsonRpc req = true) (hwell : WellFormed env req)
    (restricted : Bool) :
    (create env req restricted).written = [] ∧ (create env req restricted).alive = true ∧
      (create env req restricted).type = .REQ_JSON_RPC ∧
      (create env req restricted).state = .STATE_NEW ∧
      (create env req restricted).reply = .object [] := by
  obtain ⟨hbody, body, hparse, hmethod⟩ := hwell
  simp [create, hrpc, accept, hbody, hparse, hasParseError, hmethod, reply]

/-- A request of JSON-RPC before it is accepted. -/
def rpcStart (req : HttpData) (restricted : Bool) : HttpApiRequest where
  req := req
  restricted := restricted
  type := .REQ_JSON_RPC
  url := cstr req.url

theorem create_eq {req : HttpData} (hrpc : isJsonRpc req = true) (restricted : Bool) :
    create env req restricted =
      let r := accept env (rpcStart req restricted)
      if r.hasParseError then done env r RPC_PARSE_ERROR
      else if (r.body.getString (ascii "method")).getD [] = [] then
        done env { r with rpcMethod := (r.body.getString (ascii "method")).getD [] }
          RPC_INVALID_REQUEST
      else { r with
        rpcMethod := (r.body.getString (ascii "method")).getD []
        state := .STATE_NEW } := by
  unfold create
  rw [if_pos hrpc]
  rfl

theorem accept_malformed {req : HttpData} (hbad : ¬ WellFormed env req) (restricted : Bool)
    (hparse : ¬ (accept env (rpcStart req restricted)).hasParseError = true) :
    ((accept env (rpcStart req restricted)).body.getString (ascii "method")).getD [] = [] := by
  by_contra hmethod
  refine hbad ?_
  by_cases hbody : req.body = []
  · simp only [accept, rpcStart, hbody] at hmethod
    exact absurd rfl hmethod
  · cases hp : env.parse (cstr req.body) with
    | none =>
      simp [accept, rpcStart, hbody, hp, hasParseError] at hparse
    | some body =>
      simp [accept, rpcStart, hbody, hp] at hmethod
      exact ⟨hbody, body, hp, by simpa using hmethod⟩

/-- One that does not is done, which takes two responses. -/
theorem create_malformed {req : HttpData} (hrpc : isJsonRpc req = true)
    (hbad : ¬ WellFormed env req) (restricted : Bool) :
    (create env req restricted).written.length = 2 ∧
      (create env req restricted).alive = true ∧
      (create env req restricted).type = .REQ_JSON_RPC := by
  have hdone (r : HttpApiRequest) (ha : r.alive = true) (ht : r.type = .REQ_JSON_RPC)
      (hw : r.written = []) (status : Int) (hs : status ≠ 200) :
      (done env r status).written.length = 2 ∧ (done env r status).alive = true ∧
        (done env r status).type = .REQ_JSON_RPC := by
    obtain ⟨hwrote, -⟩ := wrote_done env ha status
    refine ⟨?_, hwrote.alive.trans ha, hwrote.type.trans ht⟩
    rw [hwrote.length, hw, responses, if_pos ⟨ht, fun h => hs h.1⟩]
    rfl
  obtain ⟨hacc, -, -⟩ := wrote_accept env (rpcStart req restricted)
  have hnil := List.length_eq_zero_iff.mp hacc.length
  have ha := hacc.alive
  have ht := hacc.type
  have hwell := accept_malformed env hbad restricted
  rw [create_eq env hrpc]
  generalize accept env (rpcStart req restricted) = r at *
  by_cases hparse : r.hasParseError = true
  · rw [if_pos hparse]
    exact hdone r ha ht hnil RPC_PARSE_ERROR (by decide)
  · rw [if_neg hparse, if_pos (hwell hparse)]
    refine hdone _ ?_ ?_ ?_ RPC_INVALID_REQUEST (by decide)
    · exact ha
    · exact ht
    · exact hnil

/-- Any other request is new, or accepted for its summary. -/
theorem create_other {req : HttpData} (hrpc : ¬ isJsonRpc req = true) (restricted : Bool) :
    (create env req restricted).written = [] ∧ (create env req restricted).alive = true ∧
      (create env req restricted).type ≠ .REQ_JSON_RPC ∧
      (create env req restricted).state = .STATE_NEW := by
  unfold create
  dsimp only
  rw [if_neg hrpc]
  split <;> (refine ⟨rfl, rfl, ?_, rfl⟩; dsimp only; split <;> exact RequestType.noConfusion)

theorem exec_of_type {r : HttpApiRequest} (h : r.type ≠ .REQ_SUMMARY)
    (listeners : List (List Call)) : exec env r listeners = dispatch env r listeners := by
  unfold exec
  rw [if_neg h]

/-- The summary is members of the reply. -/
theorem wrote_summary (members : List (Bytes × Json)) (r : HttpApiRequest) :
    Wrote 0 r (members.foldl (fun r m => r.addMember m.1 m.2) r) ∧
      (members.foldl (fun r m => r.addMember m.1 m.2) r).state = r.state := by
  induction members generalizing r with
  | nil => exact ⟨⟨rfl, rfl, rfl⟩, rfl⟩
  | cons m members ih =>
    obtain ⟨hw, hs⟩ := ih (r.addMember m.1 m.2)
    exact ⟨⟨hw.length, hw.alive, hw.type⟩, hs⟩

/-- A library whose parser makes this object of every body. -/
def parsing (body : Option Json) : ApiEnv where
  parse _ := body
  parseError _ := []
  print _ := [123, 125]
  statusName _ := []
  summary _ := []

def rpcRequest : HttpData where
  method := METHOD_POST
  url := ascii "/json_rpc"
  body := [123, 125]

/-- What the miner does on `resume`: it accepts the request, which no listener ends. -/
def resume : List (List Call) := [[], [.accept], []]

end L4.ApiRequest

end Rxs
