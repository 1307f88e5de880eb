import Rxs.L4App.ApiRequest

/-!
# Who is let into the API

`Httpd` answers a request itself, or hands it to the API: behind a filter of methods, the
token, and, for what is no GET, the restricted mode and the type of the body. The API asks
its listeners, in the order they were added. What a listener does besides its reply is an
`Effect`; what it writes into the reply is the business of the `ApiHost`.

* `strncmp_iff`: a comparison of as many bytes as the token has is equality.
* `auth_iff`: who has the token, or needs none.
* `serve_effects`: the effects of a request are those of single listeners.
* **`access_control`**: no listener is called unless the request is allowed, and in restricted
  mode no request has an effect.
-/
namespace Rxs

open Rxs.Core

/-- As many bytes as `n`, up to the end of both; there is a zero behind a string.
The C function finds no difference. -/
def strncmp : Bytes → Bytes → Nat → Bool
  | _, _, 0 => true
  | s, t, n + 1 =>
    s.headD 0 = t.headD 0 && (s.headD 0 = 0 || strncmp s.tail t.tail n)

/-- Two strings of that length, one of which has no zero. -/
theorem strncmp_iff {s t : Bytes} (hs : 0 ∉ s) (h : s.length = t.length) :
    strncmp s t s.length = true ↔ s = t := by
  induction s generalizing t with
  | nil => simp [strncmp, (List.length_eq_zero_iff.mp h.symm)]
  | cons x s ih =>
    cases t with
    | nil => simp at h
    | cons y t =>
      have hx : x ≠ 0 := fun h0 => hs (by simp [h0])
      have hrest := ih (fun h0 => hs (List.mem_cons_of_mem x h0)) (Nat.succ.inj h)
      simp [strncmp, hx, hrest]

/-- The settings a request is judged by. A token is a C string. -/
structure Http where
  restricted : Bool := true
  token : Option Bytes := none
  token_cstr : ∀ t ∈ token, (0 : UInt8) ∉ t

namespace Http

theorem zero_not_mem_cstr (s : Bytes) : 0 ∉ cstr s := by
  intro h
  have hall : ∀ c ∈ cstr s, decide (c ≠ 0) = true := List.all_eq_true.mp List.all_takeWhile
  simpa using hall 0 h

def setToken (h : Http) (token : Option Bytes) : Http where
  restricted := h.restricted
  token := token.map cstr
  token_cstr := by
    intro t ht
    obtain ⟨s, -, rfl⟩ := Option.mem_map.mp ht
    exact zero_not_mem_cstr s

/-- mirrors src/base/net/http/Http.cpp:71-83 -/
def load (h : Http) (http : Json) : Http :=
  if http.isObject then
    ({ h with restricted := http.getBool (ascii "restricted") true } : Http).setToken
      (http.getString (ascii "access-token"))
  else h

/-- mirrors src/base/net/http/Http.h:41 -/
def isAuthRequired (h : Http) : Bool := !h.restricted || h.token.isSome

end Http

/-- What a listener does to the miner, or tells of it. -/
inductive Effect where
  | reload (json : Json)
  | getJSON
  | setEnabled (enabled : Bool)
  | stop

/-- What the listeners write into replies, and whether a configuration is taken. -/
structure ApiHost where
  getMiner : Nat → Json → Json
  getHashrate : Nat → Json → Json
  getBackends : Json
  hugePages : Nat → Json
  getResults : Nat → Json → Json
  getConnection : Nat → Json → Json
  dmi : Json → Json
  config : Json
  reload : Json → Bool

namespace ApiHost

open HttpApiRequest ApiRequest

variable (env : ApiEnv) (host : ApiHost)

def METHOD_PUT : Nat := 4

def kConfigPathV1 : Bytes := ascii "/1/config"
def kConfigPathV2 : Bytes := ascii "/2/config"

/-- mirrors src/base/api/requests/HttpApiRequest.cpp:131-138 -/
def json (r : HttpApiRequest) : Json :=
  if r.type = .REQ_JSON_RPC then r.body.getValue (ascii "params") else r.body

/-- The calls on the request, and what is done besides. -/
structure Reaction where
  calls : List Call := []
  effects : List Effect := []

abbrev Listener := HttpApiRequest → Reaction

/-- A reply made of the one there is when the request is accepted. -/
def replies (r : HttpApiRequest) (f : Json → Json) : List Call :=
  [.accept, .reply (f (accept env r).reply)]

/-- mirrors src/base/kernel/Base.cpp:317-340 -/
def baseOnRequest : Listener := fun r =>
  if r.req.method = METHOD_GET then
    if r.url = kConfigPathV1 ∨ r.url = kConfigPathV2 then
      if r.restricted then { calls := [.done 403] }
      else { calls := [.accept, .reply host.config], effects := [.getJSON] }
    else {}
  else if r.req.method = METHOD_PUT ∨ r.req.method = METHOD_POST then
    if r.url = kConfigPathV1 ∨ r.url = kConfigPathV2 then
      let config := json (accept env r)
      { calls := [.accept, .done (if host.reload config then 204 else 400)]
        effects := [.reload config] }
    else {}
  else {}

/-- mirrors src/net/Network.cpp:230-238 -/
def networkOnRequest : Listener := fun r =>
  if r.type = .REQ_SUMMARY then
    { calls := replies env r fun doc =>
        host.getConnection r.version (host.getResults r.version doc) }
  else {}

/-- mirrors src/hw/api/HwApi.cpp:30-44 -/
def hwOnRequest : Listener := fun r =>
  if r.req.method = METHOD_GET ∧ r.url = ascii "/2/dmi" then { calls := replies env r host.dmi }
  else {}

/-- What the CPU backend adds behind the calls.
mirrors src/backend/cpu/CpuBackend.cpp:441-446 -/
def handleRequest (r : HttpApiRequest) (doc : Json) : Json :=
  if r.type = .REQ_SUMMARY then doc.addMember (ascii "hugepages") (host.hugePages r.version)
  else doc

/-- mirrors src/core/Miner.cpp:647-683 -/
def minerOnRequest : Listener := fun r =>
  if r.req.method = METHOD_GET then
    if r.type = .REQ_SUMMARY then
      { calls := replies env r fun doc => host.handleRequest r
          (host.getHashrate r.version (host.getMiner r.version doc)) }
    else if r.url = ascii "/2/backends" then
      { calls := replies env r fun _ => host.getBackends }
    else {}
  else if r.type = .REQ_JSON_RPC then
    if r.rpcMethod = ascii "pause" then { calls := [.accept], effects := [.setEnabled false] }
    else if r.rpcMethod = ascii "resume" then
      { calls := [.accept], effects := [.setEnabled true] }
    else if r.rpcMethod = ascii "stop" then { calls := [.accept], effects := [.stop] }
    else {}
  else if r.type = .REQ_SUMMARY then
    { calls := [.reply (host.handleRequest r r.reply)] }
  else {}

/-- In the order they were added. -/
def listeners : List Listener :=
  [baseOnRequest env host, networkOnRequest env host, hwOnRequest env host,
    minerOnRequest env host]

/-- The listeners, each on the request the one before has left. -/
def serve (r : HttpApiRequest) : List Listener → HttpApiRequest × List Effect
  | [] => (done env r (if r.isNew then 404 else 200), [])
  | l :: ls =>
    let reaction := l r
    let r := reaction.calls.foldl (call env) r
    if r.isDone then (r, reaction.effects)
    else
      let rest := serve r ls
      (rest.1, reaction.effects ++ rest.2)

/-- The request as the first listener finds it. -/
def received (req : HttpData) (restricted : Bool) : HttpApiRequest :=
  let r := create env req restricted
  if r.type = .REQ_SUMMARY then
    (env.summary r.restricted).foldl (fun r m => r.addMember m.1 m.2) (accept env r)
  else r

/-- mirrors src/base/api/Api.cpp:111-116,176-219 -/
def request (req : HttpData) (restricted : Bool) : HttpApiRequest × List Effect :=
  serve env (received env req restricted) (listeners env host)

end ApiHost

namespace Httpd

open ApiHost ApiRequest

def HTTP_OPTIONS : Nat := 6
def HTTP_GET : Nat := 1

def kAuthorization : Bytes := ascii "authorization"
def bearer : Bytes := ascii "Bearer "

/-- mirrors src/base/api/Httpd.cpp:153-174 -/
def auth (http : Http) (req : HttpData) : Nat :=
  match req.headers.lookup kAuthorization with
  | none => if http.isAuthRequired then 401 else 200
  | some token =>
    match http.token with
    | none => 401
    | some configured =>
      if token.length < 8 ∨ configured.length ≠ token.length - 7 ∨ token.take 7 ≠ bearer then 403
      else if strncmp configured (token.drop 7) configured.length then 200 else 403

/-- The request is answered here, or it goes to the listeners. -/
inductive Answer where
  | status (code : Nat)
  | api (r : HttpApiRequest) (effects : List Effect)

def Answer.invoked : Answer → Bool
  | .status _ => false
  | .api _ _ => true

def Answer.effects : Answer → List Effect
  | .status _ => []
  | .api _ effects => effects

/-- mirrors src/base/api/Httpd.cpp:117-150 -/
def onHttpData (env : ApiEnv) (host : ApiHost) (http : Http) (req : HttpData) : Answer :=
  if req.method = HTTP_OPTIONS then .status 200
  else if req.method = HTTP_GET ∧ req.url = ascii "/favicon.ico" then .status 404
  else if req.method > 4 then .status 405
  else if auth http req ≠ 200 then .status (auth http req)
  else if req.method ≠ HTTP_GET ∧ http.restricted then .status 403
  else if req.method ≠ HTTP_GET ∧
      req.headers.lookup (ascii "content-type") ≠ some (ascii "application/json") then
    .status 415
  else
    let (r, effects) := request env host req http.restricted
    .api r effects

end Httpd

open HttpApiRequest ApiHost ApiRequest Httpd

namespace L4.ApiAccess

variable (env : ApiEnv) (host : ApiHost)

/-- The token, if there is one; without one, only a restricted API is open. -/
def Allowed (http : Http) (req : HttpData) : Prop :=
  match http.token with
  | some token => req.headers.lookup kAuthorization = some (bearer ++ token)
  | none => http.restricted = true ∧ req.headers.lookup kAuthorization = none

/-! ## The token -/

/-- A text is the word and the token: its length, its start and the comparison of the rest. -/
theorem bearer_iff {token configured : Bytes} (hzero : (0 : UInt8) ∉ configured) :
    (¬ (token.length < 8 ∨ configured.length ≠ token.length - 7 ∨ token.take 7 ≠ bearer) ∧
      strncmp configured (token.drop 7) configured.length = true) ↔
        token = bearer ++ configured ∧ configured ≠ [] := by
  have hbearer : bearer.length = 7 := rfl
  constructor
  · rintro ⟨h, hcmp⟩
    simp only [not_or, Nat.not_lt, not_not] at h
    obtain ⟨hlen, hsize, htake⟩ := h
    have hdrop := (strncmp_iff hzero (by rw [List.length_drop, hsize])).mp hcmp
    refine ⟨?_, fun hnil => ?_⟩
    · calc token = token.take 7 ++ token.drop 7 := (List.take_append_drop 7 token).symm
        _ = bearer ++ configured := by rw [htake, hdrop]
    · rw [hnil, List.length_nil] at hsize
      omega
  · rintro ⟨rfl, hne⟩
    have hpos : 0 < configured.length := List.length_pos_iff.mpr hne
    have hdrop : (bearer ++ configured).drop 7 = configured := List.drop_left' hbearer
    refine ⟨?_, ?_⟩
    · simp only [not_or, Nat.not_lt, not_not, List.length_append, hbearer]
      exact ⟨by omega, by omega, List.take_left' hbearer⟩
    · rw [hdrop]
      exact (strncmp_iff hzero rfl).mpr rfl

/-- **Who passes**; a token without bytes lets nobody in. -/
theorem auth_iff (http : Http) (req : HttpData) :
    auth http req = 200 ↔ Allowed http req ∧ http.token ≠ some [] := by
  unfold auth Allowed
  cases hconf : http.token with
  | none =>
    cases hreq : req.headers.lookup kAuthorization with
    | none => cases hr : http.restricted <;> simp [Http.isAuthRequired, hconf, hr]
    | some token => simp
  | some configured =>
    have hzero := http.token_cstr configured hconf
    cases hreq : req.headers.lookup kAuthorization with
    | none => simp [Http.isAuthRequired, hconf]
    | some token =>
      have hiff := @bearer_iff token configured hzero
      dsimp only
      split
      · rename_i h
        have hno : ¬ (token = bearer ++ configured ∧ configured ≠ []) := fun hyes =>
          (hiff.mpr hyes).1 h
        simpa using hno
      · rename_i h
        split
        · rename_i hcmp
          simpa using hiff.mp ⟨h, hcmp⟩
        · rename_i hcmp
          have hno : ¬ (token = bearer ++ configured ∧ configured ≠ []) := fun hyes =>
            hcmp (hiff.mpr hyes).2
          simpa using hno

/-! ## The listeners -/

/-- What the listeners look at stays: the message and the mode. -/
structure Same (r r' : HttpApiRequest) : Prop where
  req : r'.req = r.req
  restricted : r'.restricted = r.restricted

theorem Same.trans {r r' r'' : HttpApiRequest} (h : Same r r') (h' : Same r' r'') : Same r r'' :=
  ⟨h'.req.trans h.req, h'.restricted.trans h.restricted⟩

theorem same_httpEnd (r : HttpApiRequest) (data : Bytes) : Same r (httpEnd r data) := by
  unfold httpEnd
  split
  · exact ⟨rfl, rfl⟩
  · exact ⟨rfl, rfl⟩

theorem same_resEnd (r : HttpApiRequest) : Same r (resEnd env r) := by
  have hend (res : HttpApiResponse) (data : Bytes) :
      Same r (httpEnd { r with res := res } data) :=
    ⟨(same_httpEnd _ data).req, (same_httpEnd _ data).restricted⟩
  unfold resEnd
  dsimp only
  split
  · exact hend _ _
  · exact hend _ _

theorem same_rpcDone (r : HttpApiRequest) (key : Bytes) (value : Json) :
    Same r (rpcDone env r key value) := by
  unfold rpcDone
  exact ⟨(same_resEnd env _).req, (same_resEnd env _).restricted⟩

theorem same_done (r : HttpApiRequest) (status : Int) : Same r (done env r status) := by
  have hstart : Same r (({ r with state := .STATE_DONE } : HttpApiRequest).setStatus 200) :=
    ⟨rfl, rfl⟩
  unfold done
  dsimp only
  split
  · split
    · exact (hstart.trans (same_rpcDone env _ _ _)).trans (same_resEnd env _)
    · split
      · exact (hstart.trans (same_rpcDone env _ _ _)).trans (same_resEnd env _)
      · exact hstart.trans (same_resEnd env _)
  · exact ⟨(same_resEnd env _).req, (same_resEnd env _).restricted⟩

theorem same_accept (r : HttpApiRequest) : Same r (accept env r) := by
  unfold accept
  dsimp only
  split
  · split
    · exact ⟨rfl, rfl⟩
    · split
      · exact ⟨rfl, rfl⟩
      · exact ⟨rfl, rfl⟩
  · exact ⟨rfl, rfl⟩

theorem same_call (r : HttpApiRequest) (c : Call) : Same r (call env r c) := by
  cases c with
  | accept => exact same_accept env r
  | reply doc => exact ⟨rfl, rfl⟩
  | done status => exact same_done env r status
  | setRpcError code message => exact same_rpcDone env r _ _
  | setRpcResult result => exact same_rpcDone env r _ _

theorem same_calls (calls : List Call) (r : HttpApiRequest) :
    Same r (calls.foldl (call env) r) := by
  induction calls generalizing r with
  | nil => exact ⟨rfl, rfl⟩
  | cons c calls ih => exact (same_call env r c).trans (ih _)

theorem same_summary (members : List (Bytes × Json)) (r : HttpApiRequest) :
    Same r (members.foldl (fun r m => r.addMember m.1 m.2) r) := by
  induction members generalizing r with
  | nil => exact ⟨rfl, rfl⟩
  | cons m members ih =>
    have hadd : Same r (r.addMember m.1 m.2) := ⟨rfl, rfl⟩
    exact hadd.trans (ih _)

theorem create_same (req : HttpData) (restricted : Bool) :
    (create env req restricted).req = req ∧ (create env req restricted).restricted = restricted := by
  by_cases hrpc : isJsonRpc req = true
  · rw [ApiRequest.create_eq env hrpc]
    obtain ⟨hreq, hres⟩ := same_accept env (ApiRequest.rpcStart req restricted)
    dsimp only
    split
    · have hdone := same_done env (accept env (ApiRequest.rpcStart req restricted)) RPC_PARSE_ERROR
      exact ⟨hdone.req.trans hreq, hdone.restricted.trans hres⟩
    · split
      · exact ⟨(same_done env _ _).req.trans hreq, (same_done env _ _).restricted.trans hres⟩
      · exact ⟨hreq, hres⟩
  · unfold create
    dsimp only
    rw [if_neg hrpc]
    split
    · exact ⟨rfl, rfl⟩
    · exact ⟨rfl, rfl⟩

/-- The first listener is asked with the message and the mode. -/
theorem received_same (req : HttpData) (restricted : Bool) :
    (received env req restricted).req = req ∧
      (received env req restricted).restricted = restricted := by
  obtain ⟨hreq, hres⟩ := create_same env req restricted
  unfold received
  dsimp only
  split
  · have h := (same_accept env (create env req restricted)).trans (same_summary
      (env.summary (create env req restricted).restricted) _)
    exact ⟨h.req.trans hreq, h.restricted.trans hres⟩
  · exact ⟨hreq, hres⟩

/-- Listeners that do nothing on such a message do nothing one after the other. -/
theorem serve_effects {ls : List Listener} {req : HttpData} {restricted : Bool}
    (h : ∀ l ∈ ls, ∀ r, r.req = req → r.restricted = restricted → (l r).effects = [])
    {r : HttpApiRequest} (hreq : r.req = req) (hres : r.restricted = restricted) :
    (serve env r ls).2 = [] := by
  induction ls generalizing r with
  | nil => rfl
  | cons l ls ih =>
    have hl := h l List.mem_cons_self r hreq hres
    have hsame := same_calls env (l r).calls r
    have hrest := ih (fun l hl => h l (List.mem_cons_of_mem _ hl)) (hsame.req.trans hreq)
      (hsame.restricted.trans hres)
    unfold serve
    dsimp only
    split
    · exact hl
    · rw [hl, hrest]
      rfl

/-- **A GET in restricted mode** only reads, and not the configuration. -/
theorem restricted_get {l : Listener} (hl : l ∈ listeners env host) {r : HttpApiRequest}
    (hget : r.req.method = METHOD_GET) (hres : r.restricted = true) : (l r).effects = [] := by
  simp only [listeners, List.mem_cons, List.not_mem_nil, or_false] at hl
  rcases hl with rfl | rfl | rfl | rfl
  · rw [baseOnRequest, if_pos hget]
    by_cases hurl : r.url = kConfigPathV1 ∨ r.url = kConfigPathV2
    · rw [if_pos hurl, if_pos hres]
    · rw [if_neg hurl]
  · rw [networkOnRequest]
    split <;> rfl
  · rw [hwOnRequest]
    split <;> rfl
  · rw [minerOnRequest, if_pos hget]
    split
    · rfl
    · split <;> rfl

/-- **The API**: a listener is called only for a request that has the token, or that needs
none because the API is restricted; and a restricted API changes nothing and does not tell
its configuration. -/
theorem access_control (http : Http) (req : HttpData) :
    ((onHttpData env host http req).invoked = true → Allowed http req) ∧
      (http.restricted = true → (onHttpData env host http req).effects = []) := by
  unfold onHttpData
  split
  · exact ⟨nofun, fun _ => rfl⟩
  split
  · exact ⟨nofun, fun _ => rfl⟩
  split
  · exact ⟨nofun, fun _ => rfl⟩
  split
  · exact ⟨nofun, fun _ => rfl⟩
  rename_i hauth
  have hallowed := ((auth_iff http req).mp (not_not.mp hauth)).1
  split
  · exact ⟨nofun, fun _ => rfl⟩
  rename_i hmethod
  split
  · exact ⟨nofun, fun _ => rfl⟩
  refine ⟨fun _ => hallowed, fun hres => ?_⟩
  have hget : req.method = METHOD_GET := by
    by_contra hne
    exact hmethod ⟨hne, hres⟩
  obtain ⟨hreq, hmode⟩ := received_same env req http.restricted
  have hserve : (request env host req http.restricted).2 = [] :=
    serve_effects env (fun l hl r hr hr' =>
      restricted_get env host hl (hr ▸ hget) (hr'.trans hres)) hreq hmode
  exact hserve

end L4.ApiAccess

end Rxs
