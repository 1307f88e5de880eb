import Mathlib.Data.List.TakeWhile
import Rxs.L1Encoding.JsonAccess
import Rxs.L3Protocol.SelfSelect
import Rxs.L3Protocol.Session

/-!
# What the network clients access

The lines of a pool and the answers of a daemon, parsed with the accessors as they
are (`Run`): a member that is not there and a getter of the wrong type are
`Fault.access`, whatever else goes wrong is `Fault.other`. `quiet` is `isQuiet`, it
decides whether a line of the log is made.

* `Client.parse_guarded`, `SelfSelect.parseResponse_eq`: where no accessor is
  undefined, these are the clients of the other modules.
* `accesses`: exactly when no accessor is undefined.
-/
namespace Rxs.L3.Accesses

open Rxs.Core Rxs.Access Rxs.Checked

/-! ## Members of an error -/

/-- There is a text. -/
def HasMessage (error : Json) : Prop :=
  ∃ message, error.find (ascii "message") = some (.string message)

/-- There is a code that is an `int`. -/
def HasCode (error : Json) : Prop := ∃ code ∈ error.find (ascii "code"), code.isInt

theorem member_message {error : Json} (h : error.isObject) :
    (member error (ascii "message") >>= Access.getString) =
      match error.find (ascii "message") with
      | some (.string message) => .ok (cstr message)
      | _ => .error .access := by
  rw [member_eq h]
  cases error.find (ascii "message") with
  | none => rfl
  | some v => cases v <;> rfl

theorem getMessage_bare {error : Json} (h : error.isObject) (hm : ¬ HasMessage error) :
    (member error (ascii "message") >>= Access.getString) = .error .access := by
  rw [member_message h]
  split
  · rename_i message hf
    exact absurd ⟨message, hf⟩ hm
  · rfl

theorem getMessage {error : Json} (h : error.isObject) (hm : HasMessage error) :
    ∃ message, error.find (ascii "message") = some (.string message) ∧
      (member error (ascii "message") >>= Access.getString) = .ok (cstr message) := by
  obtain ⟨message, hf⟩ := hm
  refine ⟨message, hf, ?_⟩
  rw [member_message h, hf]

theorem getCode_bare {error : Json} (h : error.isObject) (hc : ¬ HasCode error) :
    (member error (ascii "code") >>= Access.getInt) = .error .access := by
  rw [member_eq h]
  cases hf : error.find (ascii "code") with
  | none => rfl
  | some v =>
    cases v with
    | int n =>
      have hi : ¬ (Json.int n).isInt = true := fun hi => hc ⟨_, hf, hi⟩
      exact if_neg hi
    | _ => rfl

theorem getCode {error : Json} (h : error.isObject) (hc : HasCode error) :
    ∃ n, (member error (ascii "code") >>= Access.getInt) = .ok n := by
  obtain ⟨v, hf, hi⟩ := hc
  rw [member_eq h, hf]
  cases v with
  | int n => exact ⟨n, if_pos hi⟩
  | _ => cases hi

/-! ## The stratum client -/

namespace Client

open Session

variable {s : Session} {env : Env} {quiet : Bool}

/-- mirrors src/base/net/stratum/Client.cpp:383,395-412 -/
def setInput (s : Session) (params : Json) (blobData : Option Bytes) (job : Job) :
    Run (Option (Job × Bytes)) := do
  if s.pool.selfSelect then
    let extraNonce ← getString params (ascii "extra_nonce")
    let poolWallet ← getString params (ascii "pool_wallet")
    match extraNonce, poolWallet with
    | some _, some wallet => pure (some (job, wallet))
    | _, _ => pure none
  else
    match job.setBlob blobData with
    | (job, true) => pure (some (job, []))
    | (_, false) => pure none

/-- The job of a notification, or the code of what is wrong with it.
mirrors src/base/net/stratum/Client.cpp:370-431 -/
def buildJob (s : Session) (env : Env) (params : Json) : Run (Except Int (Job × Bytes)) := do
  if ¬ params.isObject then pure (.error 2)
  else
    let job : Job := { nicehash := hasNicehash s, algorithm := s.pool.algorithm,
                       clientId := clientId s }
    match job.setId (← getString params (ascii "job_id")) with
    | (_, false) => pure (.error 3)
    | (job, true) =>
      let algo ← getString params (ascii "algo")
      let blobData ← getString params (ascii "blob")
      match ← setInput s params blobData (setAlgorithm s env job algo) with
      | none => pure (.error 4)
      | some (job, wallet) =>
        match job.setTarget (← getString params (ascii "target")) with
        | none => throw .other
        | some (_, false) => pure (.error 5)
        | some (job, true) =>
          -- the height is not a member of `Job`
          let _ ← getUint64 params (ascii "height")
          if ¬ verifyAlgorithm env job.algorithm then pure (.error 6)
          else if ¬ s.pool.selfSelect ∧ job.algorithm.isRandomX then
            match job.setSeedHash (← getString params (ascii "seed_hash")) with
            | (_, false) => pure (.error 7)
            | (job, true) =>
              let sigKey ← getString params (ascii "sig_key")
              pure (.ok (job.setSigKey sigKey, wallet))
          else
            let sigKey ← getString params (ascii "sig_key")
            pure (.ok (job.setSigKey sigKey, wallet))

/-- mirrors src/base/net/stratum/Client.cpp:368-451 -/
def parseJob (s : Session) (env : Env) (params : Json) (code : Int) :
    Run (Session × Bool × Int) := do
  match ← buildJob s env params with
  | .error code => pure (s, false, code)
  | .ok (job, wallet) =>
    let s := { s with job := { s.job with clientId := clientId s } }
    if ¬ s.job.isEqual job then
      pure ({ s with jobs := s.jobs + 1, job := job, poolWallet := wallet }, true, code)
    else if s.jobs = 0 then pure (s, false, code)
    else pure (close s, false, code)

/-- mirrors src/base/net/stratum/Client.cpp:772-797 -/
def addExtension (now : Nat) (s : Session) (ext : Json) : Run Session := do
  if ext.isString then
    let name ← Access.getString ext
    pure (Session.addExtension now s (.string name))
  else pure s

/-- mirrors src/base/net/stratum/Client.cpp:759-798 -/
def parseExtensions (s : Session) (result : Json) (now : Nat) : Run Session := do
  let s := { s with extensions := [], conn := { s.conn with extKeepAlive := false } }
  if ← hasMember result (ascii "extensions") then
    let extensions ← member result (ascii "extensions")
    if extensions.isArray then
      (← getArray extensions).foldlM (addExtension now) s
    else pure s
  else pure s

/-- mirrors src/base/net/stratum/Client.cpp:614-628 -/
def parseLogin (s : Session) (env : Env) (result : Json) (code : Int) :
    Run (Session × Bool × Int) := do
  let s := { s with rpcId := ← getString result (ascii "id") }
  if s.rpcId = none then pure (s, false, 1)
  else
    let s ← parseExtensions s result env.now
    let r ← parseJob s env (← getObject result (ascii "job")) code
    pure ({ r.1 with jobs := 0 }, r.2)

/-- The listener gets the job of the result.
mirrors src/base/net/stratum/Client.cpp:852-859 -/
def loggedIn (s : Session) (env : Env) (result : Json) : Run Session := do
  let s := tell { s with conn := { s.conn with failures := 0 } } .onLoginSuccess
  let s := if env.leaves then { s with conn := (Client.disconnect s.conn).2 } else s
  if isValid s then
    let _ ← getObject result (ascii "job")
    pure (tell s .onJobReceived)
  else pure s

/-- mirrors src/base/net/stratum/Client.cpp:817-863 -/
def parseResponse (s : Session) (env : Env) (quiet : Bool) (id : Int) (result error : Json) :
    Run Session := do
  match handleResponse s id result error env.now with
  | (true, s) => pure s
  | (false, s) =>
    if error.isObject then
      let message ← Access.getString (← member error (ascii "message"))
      match handleSubmitResponse s id (some message) env.now with
      | (submitted, s) =>
        if ¬ submitted ∧ ¬ quiet then
          let _ ← getInt error (ascii "code")
        pure (if s.id = 1 ∨ isCriticalError message then close s else s)
    else if ¬ result.isObject then pure s
    else if id = 1 then
      let r ← parseLogin s env result (-1)
      if r.2.1 then loggedIn r.1 env result else pure (close r.1)
    else pure (handleSubmitResponse s id none env.now).2

/-- mirrors src/base/net/stratum/Client.cpp:703-736 -/
def clientReconnect (s : Session) (env : Env) (params : Json) : Run Session := do
  if ¬ params.isArray then pure s
  else
    let arr ← getArray params
    if arr.isEmpty then pure s
    else if arr.length ≠ 2 then pure s
    else if ¬ (← element arr 0).isString then pure s
    else if ¬ (← element arr 1).isString then pure s
    else
      let host ← Access.getString (← element arr 0)
      let port ← Access.getString (← element arr 1)
      let url := host ++ ascii ":" ++ port
      pure { s with conn := Client.reconnect { s.conn with poolTLS := env.urlTLS url } env.now }

/-- mirrors src/base/net/stratum/Client.cpp:801-814 -/
def parseNotification (s : Session) (env : Env) (method : Bytes) (params : Json) :
    Run Session := do
  if method = ascii "job" then
    let r ← parseJob s env params (-1)
    pure (if r.2.1 then tell r.1 .onJobReceived else close r.1)
  else pure s

/-- mirrors src/base/net/stratum/Client.cpp:674-756 -/
def parse (s : Session) (env : Env) (quiet : Bool) (doc : Option Json) : Run Session := do
  match doc with
  | none => pure s
  | some doc =>
    if ¬ doc.isObject then pure s
    else
      let id ← getValue doc (ascii "id")
      let error ← getValue doc (ascii "error")
      let method ← getString doc (ascii "method")
      if method = some (ascii "client.reconnect") then
        clientReconnect s env (← getValue doc (ascii "params"))
      else if id.isInt64 then
        let result ← getValue doc (ascii "result")
        parseResponse s env quiet (← getInt64 id) result error
      else
        match method with
        | none => pure s
        | some method =>
          if error.isObject then
            if ¬ quiet then
              let _ ← getString error (ascii "message")
              let _ ← getInt error (ascii "code")
            pure s
          else parseNotification s env method (← getValue doc (ascii "params"))

/-! ### The accesses that are guarded -/

theorem setInput_eq (s : Session) (params : Json) (job : Job) :
    setInput s params (params.getString (ascii "blob")) job =
      .ok (Session.setInput s params job) := by
  unfold setInput Session.setInput
  split
  · simp only [getString_eq, Run.ok_bind]
    cases params.getString (ascii "extra_nonce") <;>
      cases params.getString (ascii "pool_wallet") <;> rfl
  · rcases job.setBlob (params.getString (ascii "blob")) with ⟨job, _ | _⟩ <;> rfl

theorem buildJob_eq (s : Session) (env : Env) (params : Json) :
    buildJob s env params = Run.ofOption (Session.buildJob s env params) := by
  unfold buildJob Session.buildJob
  split
  · rfl
  · simp only [getString_eq, getUint64_eq, Run.ok_bind]
    rcases Job.setId _ (params.getString (ascii "job_id")) with ⟨job, _ | _⟩
    · rfl
    · simp only [setInput_eq, Run.ok_bind]
      rcases Session.setInput s params _ with _ | ⟨job, wallet⟩
      · rfl
      · simp only []
        rcases job.setTarget (params.getString (ascii "target")) with _ | ⟨job, _ | _⟩
        · rfl
        · rfl
        · simp only []
          split
          · rfl
          · by_cases hn : s.pool.selfSelect = false ∧ job.algorithm.isRandomX = true
            · rcases job.setSeedHash (params.getString (ascii "seed_hash")) with ⟨job', _ | _⟩ <;>
                simp [hn, Run.ofOption]
            · simp [hn, Run.ofOption]

theorem parseJob_eq (s : Session) (env : Env) (params : Json) (code : Int) :
    parseJob s env params code = Run.ofOption (Session.parseJob s env params code) := by
  rw [parseJob, Session.parseJob, buildJob_eq]
  rcases Session.buildJob s env params with _ | code | ⟨job, wallet⟩
  · rfl
  · rfl
  · simp only [Run.ofOption, Run.ok_bind, Run.pure_eq]
    split
    · rfl
    · split <;> rfl

theorem addExtension_eq (now : Nat) (s : Session) (ext : Json) :
    addExtension now s ext = .ok (Session.addExtension now s ext) := by
  cases ext with
  | string name =>
    simp only [addExtension, Json.isString, if_true, Access.getString, Run.ok_bind, Run.pure_eq,
      Session.addExtension, cstr_cstr]
  | _ => rfl

theorem foldlM_addExtension (now : Nat) (s : Session) (exts : List Json) :
    exts.foldlM (addExtension now) s = .ok (exts.foldl (Session.addExtension now) s) := by
  induction exts generalizing s with
  | nil => rfl
  | cons ext exts ih => rw [List.foldlM_cons, addExtension_eq, Run.ok_bind, ih, List.foldl_cons]

/-- The result of a login is an object. -/
theorem parseExtensions_eq (s : Session) {result : Json} (h : result.isObject) (now : Nat) :
    parseExtensions s result now = .ok (Session.parseExtensions s result now) := by
  unfold parseExtensions Session.parseExtensions
  rw [hasMember_eq h, Run.ok_bind, member_eq h]
  cases result.find (ascii "extensions") with
  | none => rfl
  | some v =>
    cases v with
    | array extensions => exact foldlM_addExtension now _ extensions
    | _ => rfl

theorem parseLogin_eq (s : Session) (env : Env) {result : Json} (h : result.isObject)
    (code : Int) :
    parseLogin s env result code = Run.ofOption (Session.parseLogin s env result code) := by
  unfold parseLogin Session.parseLogin
  simp only [getString_eq, getObject_eq, Run.ok_bind, parseExtensions_eq _ h, parseJob_eq]
  split
  · rfl
  · exact Run.ofOption_map _ _

theorem loggedIn_eq (s : Session) (env : Env) (result : Json) :
    loggedIn s env result = .ok (Session.loggedIn s env) := by
  unfold loggedIn Session.loggedIn
  simp only [getObject_eq, Run.ok_bind, Run.pure_eq]
  split <;> (split <;> simp_all)

theorem clientReconnect_eq (s : Session) (env : Env) (params : Json) :
    clientReconnect s env params = .ok (Session.clientReconnect s env params) := by
  cases params with
  | array arr =>
    match arr with
    | [] => rfl
    | [_] => simp [clientReconnect, Session.clientReconnect, Json.isArray, getArray]
    | [host, port] =>
      cases host with
      | string host => cases port <;> rfl
      | _ => rfl
    | _ :: _ :: _ :: _ => simp [clientReconnect, Session.clientReconnect, Json.isArray, getArray]
  | _ => rfl

theorem parseNotification_eq (s : Session) (env : Env) (method : Bytes) (params : Json) :
    parseNotification s env method params =
      Run.ofOption (Session.parseNotification s env method params) := by
  unfold parseNotification Session.parseNotification
  split
  · rw [parseJob_eq]
    exact Run.ofOption_map _ _
  · rfl

/-! ### The access that is not -/

/-- No callback takes the response, and it has an error without a text. -/
def Bare (s : Session) (id : Int) (error : Json) : Prop :=
  (id ≤ 1 ∨ get s.callbacks id = none) ∧ error.isObject ∧ ¬ HasMessage error

/-- A response that no callback takes leaves the client as it is. -/
theorem handleResponse_false {s s' : Session} {id : Int} {result error : Json} {now : Nat}
    (h : handleResponse s id result error now = (false, s')) :
    s' = s ∧ (id ≤ 1 ∨ get s.callbacks id = none) := by
  unfold handleResponse at h
  split at h
  · rename_i hid
    cases h
    exact ⟨rfl, .inl hid⟩
  · split at h
    · cases h
    · rename_i hcb
      cases h
      exact ⟨rfl, .inr hcb⟩

theorem handleResponse_true {s s' : Session} {id : Int} {result error : Json} {now : Nat}
    (h : handleResponse s id result error now = (true, s')) :
    ¬ (id ≤ 1 ∨ get s.callbacks id = none) := by
  unfold handleResponse at h
  split at h
  · cases h
  · split at h
    · rename_i hid _ _ hcb
      simp [hid, hcb]
    · cases h

theorem parseResponse_bare {id : Int} {result error : Json} (h : Bare s id error) :
    parseResponse s env quiet id result error = .error .access := by
  obtain ⟨hcb, herr, hm⟩ := h
  unfold parseResponse
  rcases hr : handleResponse s id result error env.now with ⟨_ | _, s'⟩
  · simp only [herr, if_true, ← bind_assoc]
    rw [getMessage_bare herr hm]
    rfl
  · exact absurd hcb (handleResponse_true hr)

theorem parseResponse_guarded {id : Int} {result error : Json} (h : ¬ Bare s id error) :
    parseResponse s env quiet id result error =
      Run.ofOption (Session.parseResponse s env id result error) := by
  unfold parseResponse Session.parseResponse
  rcases hr : handleResponse s id result error env.now with ⟨_ | _, s'⟩
  · obtain ⟨rfl, hcb⟩ := handleResponse_false hr
    simp only []
    by_cases herr : error.isObject = true
    · have hm : HasMessage error := by
        by_contra hm
        exact h ⟨hcb, herr, hm⟩
      obtain ⟨message, hf, hm⟩ := getMessage herr hm
      simp only [herr, if_true, hf, ← bind_assoc]
      rw [hm, Run.ok_bind]
      split <;> simp [Run.ofOption, *]
    · rw [if_neg herr, if_neg herr]
      by_cases hres : result.isObject = true
      · have hn : ¬ ¬ result.isObject = true := not_not.mpr hres
        rw [if_neg hn, if_neg hn]
        split
        · simp only [parseLogin_eq _ _ hres, loggedIn_eq]
          cases Session.parseLogin s' env result (-1) with
          | none => rfl
          | some r => simp only [Run.ofOption, Run.ok_bind, Option.map_some]; split <;> rfl
        · rfl
      · rw [if_pos hres, if_pos hres]
        rfl
  · rfl

/-- The line as a response that no callback takes, with an error without a text. -/
def BareLine (s : Session) (doc : Option Json) : Prop :=
  ∃ d ∈ doc, d.isObject ∧ ∃ id result error, response d = some (id, result, error) ∧ Bare s id error

theorem getInt64_cases (v : Json) :
    (∃ n, v.isInt64 = true ∧ getInt64 v = .ok n ∧ v.int64 = some n) ∨
      (v.isInt64 = false ∧ v.int64 = none) := by
  cases v with
  | int n =>
    by_cases hn : -2 ^ 63 ≤ n ∧ n < 2 ^ 63
    · have hd : (Json.int n).isInt64 = true := decide_eq_true hn
      exact .inl ⟨n, hd, if_pos hd, if_pos hn⟩
    · exact .inr ⟨decide_eq_false hn, if_neg hn⟩
  | _ => exact .inr ⟨rfl, rfl⟩

/-- What a line makes of the client: as a response, or else nothing it accesses is
missing. -/
theorem parse_eq (s : Session) (env : Env) (quiet : Bool) (doc : Option Json) :
    (∃ d ∈ doc, d.isObject ∧ ∃ id result error, response d = some (id, result, error) ∧
      parse s env quiet doc = parseResponse s env quiet id result error ∧
      Session.parse s env doc = Session.parseResponse s env id result error) ∨
    (¬ BareLine s doc ∧ parse s env quiet doc = Run.ofOption (Session.parse s env doc)) := by
  cases doc with
  | none => exact .inr ⟨by simp [BareLine], rfl⟩
  | some d =>
    by_cases hd : d.isObject = true
    · have hn : ¬ ¬ d.isObject = true := not_not.mpr hd
      unfold parse Session.parse
      simp only [getValue_eq, getString_eq, Run.ok_bind, if_neg hn, clientReconnect_eq,
        parseNotification_eq, getInt_eq]
      by_cases hm : d.getString (ascii "method") = some (ascii "client.reconnect")
      · have hr : response d = none := if_pos hm
        right
        refine ⟨by simp [BareLine, hr], ?_⟩
        rw [if_pos hm, hr, hm]
        simp [Run.ofOption]
      · obtain ⟨n, h₁, h₂, h₃⟩ | ⟨h₁, h₂⟩ := getInt64_cases (d.getValue (ascii "id"))
        · have hr : response d = some (n, d.getValue (ascii "result"),
              d.getValue (ascii "error")) := by
            rw [response, if_neg hm, h₃]
            rfl
          left
          refine ⟨d, rfl, hd, _, _, _, hr, ?_, ?_⟩
          · rw [if_neg hm, if_pos h₁, h₂]
            rfl
          · rw [hr]
        · have hr : response d = none := by
            rw [response, if_neg hm, h₂]
            rfl
          right
          refine ⟨by simp [BareLine, hr], ?_⟩
          rw [if_neg hm, if_neg (by simp [h₁]), hr]
          cases hmm : d.getString (ascii "method") with
          | none => rfl
          | some method =>
            have hne : ¬ method = ascii "client.reconnect" := fun e => hm (by rw [hmm, e])
            simp only [if_neg hne]
            split
            · cases quiet <;> rfl
            · rfl
    · right
      refine ⟨?_, ?_⟩
      · rintro ⟨d', h, ho, _⟩
        cases h
        exact hd ho
      · unfold parse Session.parse
        simp only [if_pos hd]
        rfl

/-- Every line but those is what the client of the sessions makes of it. -/
theorem parse_guarded {doc : Option Json} (h : ¬ BareLine s doc) :
    parse s env quiet doc = Run.ofOption (Session.parse s env doc) := by
  obtain ⟨d, hdoc, hd, id, result, error, hr, h₁, h₂⟩ | ⟨-, h₂⟩ := parse_eq s env quiet doc
  · rw [h₁, h₂, parseResponse_guarded fun hb => h ⟨d, hdoc, hd, _, _, _, hr, hb⟩]
  · exact h₂

theorem parse_bare {doc : Option Json} (h : BareLine s doc) :
    parse s env quiet doc = .error .access := by
  obtain ⟨d', hdoc', ho, id', result', error', hr', hb⟩ := h
  obtain ⟨d, hdoc, hd, id, result, error, hr, h₁, -⟩ | ⟨hn, -⟩ := parse_eq s env quiet doc
  · cases hdoc.symm.trans hdoc'
    cases hr.symm.trans hr'
    rw [h₁, parseResponse_bare hb]
  · exact absurd ⟨d', hdoc', ho, _, _, _, hr', hb⟩ hn

end Client

/-! ## The daemon client -/

/-- With the keys of `m_results`; `asked` are the templates it asked for. -/
structure Daemon where
  client : DaemonClient := {}
  results : List Int := []
  zmq_port : Int := -1
  quiet : Bool := false
  asked : Nat := 0

namespace Daemon

open DaemonClient

/-- mirrors src/base/net/stratum/DaemonClient.cpp:550-575 -/
def getBlockTemplate (c : Daemon) : Daemon := { c with asked := c.asked + 1 }

/-- mirrors src/base/net/stratum/BaseClient.cpp:86-98 -/
def handleSubmitResponse (c : Daemon) (id : Int) : Bool × Daemon :=
  if id ∈ c.results then (true, { c with results := c.results.erase id }) else (false, c)

/-- The string of a JSON value has a length of 32 bits. -/
def jsonText (text : Bytes) : JsonText :=
  ⟨text.take (2 ^ 32 - 1), by rw [List.length_take]; omega⟩

/-- The members `parseJob` reads.
mirrors src/base/net/stratum/DaemonClient.cpp:393-395,418,483-485,492 -/
def readParams (params : Json) : Run Params := do
  let blocktemplate ← getString params (ascii "blocktemplate_blob")
  let blockhashing ← getString params (ascii "blockhashing_blob")
  let seedHash ← getString params (ascii "seed_hash")
  let height ← getUint64 params (ascii "height")
  let difficulty ← getUint64 params (ascii "difficulty")
  let prevHash ← getString params (ascii "prev_hash")
  pure { blocktemplate_blob := blocktemplate.map jsonText, blockhashing_blob := blockhashing,
         seed_hash := seedHash, height := height, difficulty := difficulty,
         prev_hash := prevHash }

section

variable (keys : Keys) (p : Platform) (outside : UInt8 → Option UInt64) (fuel : Nat)
  (jobId : String) (now : Nat)

/-- mirrors src/base/net/stratum/DaemonClient.cpp:379-501 -/
def parseJob (c : Daemon) (params : Json) : Run (Daemon × Bool) := do
  let params ← readParams params
  match DaemonClient.parseJob keys p outside fuel c.client params jobId now with
  | (client, .accepted) => pure ({ c with client := client }, true)
  | (client, .rejected _) => pure ({ c with client := client }, false)
  | (_, .undefined) | (_, .fuel) => throw .other

/-- mirrors src/base/net/stratum/DaemonClient.cpp:504-547 -/
def parseResponse (c : Daemon) (id : Int) (result error : Json) : Run (Daemon × Bool) := do
  if id = -1 then pure (c, false)
  else if error.isObject then
    let _ ← Access.getString (← member error (ascii "message"))
    match handleSubmitResponse c id with
    | (submitted, c) =>
      if ¬ submitted ∧ ¬ c.quiet then
        let _ ← Access.getInt (← member error (ascii "code"))
      pure (c, false)
  else if ¬ result.isObject then pure (c, false)
  else if ← hasMember result (ascii "top_block_hash") then
    let hash ← getString result (ascii "top_block_hash")
    pure (if c.client.prevHash ≠ hash then getBlockTemplate c else c, true)
  else
    let (c, taken) ←
      if ← hasMember result (ascii "blocktemplate_blob") then
        parseJob keys p outside fuel jobId now c result
      else pure (c, false)
    if taken then pure (c, true)
    else
      -- `error_msg` is null here
      match handleSubmitResponse c id with
      | (true, c) => pure (if c.zmq_port < 0 then getBlockTemplate c else c, true)
      | (false, c) => pure (c, false)

variable {keys p outside fuel jobId now}

theorem readParams_ok (params : Json) : ∃ r, readParams params = .ok r := by
  simp [readParams]

theorem parseJob_ne (c : Daemon) (params : Json) :
    parseJob keys p outside fuel jobId now c params ≠ .error .access := by
  obtain ⟨r, hr⟩ := readParams_ok params
  rw [parseJob, hr, Run.ok_bind]
  rcases DaemonClient.parseJob keys p outside fuel c.client r jobId now with ⟨c', _ | _ | _ | _⟩ <;>
    simp

/-- An error without a text, or one that goes to the log and has no code. -/
def Bare (c : Daemon) (id : Int) (error : Json) : Prop :=
  id ≠ -1 ∧ error.isObject ∧
    (¬ HasMessage error ∨ id ∉ c.results ∧ c.quiet = false ∧ ¬ HasCode error)

theorem parseResponse_iff (c : Daemon) (id : Int) (result error : Json) :
    parseResponse keys p outside fuel jobId now c id result error = .error .access ↔
      Bare c id error := by
  unfold parseResponse Bare
  by_cases hid : id = -1
  · simp [hid]
  rw [if_neg hid]
  by_cases herr : error.isObject = true
  · rw [if_pos herr]
    simp only [← bind_assoc, ne_eq, hid, not_false_eq_true, herr, true_and]
    by_cases hm : HasMessage error
    · obtain ⟨message, -, hm'⟩ := getMessage herr hm
      rw [hm', Run.ok_bind, handleSubmitResponse]
      by_cases hres : id ∈ c.results
      · simp [hres, hm]
      · cases hq : c.quiet with
        | true => simp [hres, hm, hq]
        | false =>
          by_cases hc : HasCode error
          · obtain ⟨n, hn⟩ := getCode herr hc
            simp [hres, hm, hq, hc, hn]
          · simp [hres, hm, hq, hc, getCode_bare herr hc]
    · simp [getMessage_bare herr hm, hm]
  · rw [if_neg herr]
    refine iff_of_false ?_ fun h => herr h.2.1
    by_cases hres : result.isObject = true
    · have hn : ¬ ¬ result.isObject = true := not_not.mpr hres
      simp only [if_neg hn, hasMember_eq hres, getString_eq, Run.ok_bind, Run.pure_eq]
      split
      · simp
      · split
        · refine Run.bind_ne (parseJob_ne c result) ?_
          rintro ⟨c', _ | _⟩
          · dsimp only
            rcases handleSubmitResponse c' id with ⟨_ | _, c''⟩ <;> simp
          · simp
        · rcases handleSubmitResponse c id with ⟨_ | _, c'⟩ <;> simp
    · simp [hres]

end

end Daemon

/-! ## The self-select client -/

namespace SelfSelect

open SelfSelectClient

/-- A value where a string is expected. -/
def asString : Json → Member Bytes
  | .string s => .value (cstr s)
  | _ => .other

def asUint64 (v : Json) : Member Nat :=
  match v with
  | .int n => if v.isUint64 then .value n.toNat else .other
  | _ => .other

/-- A member, as the typed getter sees it. -/
def memberOf {α : Type} (as : Json → Member α) (result : Json) (key : String) : Member α :=
  match result.find (ascii key) with
  | some v => as v
  | none => .missing

/-- The template in a result. -/
def templateOf (result : Json) : Template where
  blockhashingBlob := memberOf asString result "blockhashing_blob"
  blocktemplateBlob := memberOf asString result "blocktemplate_blob"
  difficulty := memberOf asUint64 result "difficulty"
  height := memberOf asUint64 result "height"
  prevHash := memberOf asString result "prev_hash"
  seedHash := memberOf asString result "seed_hash"
  nextSeedHash := memberOf asString result "next_seed_hash"

/-- mirrors src/base/net/stratum/SelfSelectClient.cpp:49-49 -/
def required_fields : List String :=
  ["blocktemplate_blob", "blockhashing_blob", "height", "difficulty", "prev_hash"]

/-- mirrors src/base/net/stratum/SelfSelectClient.cpp:218-259 -/
def submitBlockTemplate (s : SelfSelectClient) (result : Json) (sent : Bool) :
    Run SelfSelectClient := do
  let _ ← getString result (ascii "blocktemplate_blob")
  let _ ← getUint64 result (ascii "difficulty")
  let blob ← member result (ascii "blocktemplate_blob")
  let difficulty ← member result (ascii "difficulty")
  let prevHash ← member result (ascii "prev_hash")
  let seedHash ← member result (ascii "seed_hash")
  let nextSeedHash ← member result (ascii "next_seed_hash")
  pure (s.submitBlockTemplate
    { templateOf result with
      blocktemplateBlob := asString blob, difficulty := asUint64 difficulty,
      prevHash := asString prevHash, seedHash := asString seedHash,
      nextSeedHash := asString nextSeedHash } sent)

/-- The fields are looked for in order. -/
def hasFields (result : Json) : List String → Run Bool
  | [] => pure true
  | field :: fields => do
    if ← hasMember result (ascii field) then hasFields result fields else pure false

/-- mirrors src/base/net/stratum/SelfSelectClient.cpp:116-159 -/
def parseResponse (s : SelfSelectClient) (id : Int) (result error : Json) (sent : Bool) :
    Run (SelfSelectClient × Bool) := do
  if id = -1 then pure (s, false)
  else if error.isObject then
    let _ ← getString error (ascii "message")
    let _ ← getInt error (ascii "code")
    pure (s, false)
  else if ¬ result.isObject then pure (s, false)
  else if ← hasFields result required_fields then
    let blobData ← getString result (ascii "blockhashing_blob")
    match s.setJobBlob { templateOf result with
        blockhashingBlob := blobData.elim .other .value } with
    | (j, false) =>
      pure ({ s with
        job := { s.job with toJob := j }
        jobTemplate := if j.blob = s.job.blob then s.jobTemplate else none
        writes := s.writes + 1 }, false)
    | (j, true) =>
      let height ← getUint64 result (ascii "height")
      let seedHash ← getString result (ascii "seed_hash")
      let s ← submitBlockTemplate
        { s with
          job := { s.job with toJob := (j.setSeedHash seedHash).1, height := height }
          jobTemplate := some (templateOf result)
          writes := s.writes + 1 } result sent
      pure (s, true)
  else pure (s, false)

theorem hasFields_eq {result : Json} (h : result.isObject) (fields : List String) :
    hasFields result fields = .ok (fields.all fun field => (result.find (ascii field)).isSome) := by
  induction fields with
  | nil => rfl
  | cons field fields ih =>
    rw [hasFields, hasMember_eq h, Run.ok_bind, List.all_cons]
    cases (result.find (ascii field)).isSome with
    | false => rfl
    | true => simpa using ih

theorem isMissing_memberOf {α : Type} {as : Json → Member α} (h : ∀ v, (as v).isMissing = false)
    (result : Json) (key : String) :
    (memberOf as result key).isMissing = (result.find (ascii key)).isNone := by
  rw [memberOf]
  cases result.find (ascii key) with
  | none => rfl
  | some v => exact h v

theorem asString_isMissing (v : Json) : (asString v).isMissing = false := by cases v <;> rfl

theorem asUint64_isMissing (v : Json) : (asUint64 v).isMissing = false := by
  cases v with
  | int n => rw [asUint64]; split <;> rfl
  | _ => rfl

/-- The fields that are looked for are those of a complete template. -/
theorem complete_templateOf (result : Json) :
    (templateOf result).complete =
      required_fields.all fun field => (result.find (ascii field)).isSome := by
  simp [Template.complete, templateOf, required_fields, isMissing_memberOf asString_isMissing,
    isMissing_memberOf asUint64_isMissing, Bool.and_assoc]

theorem get?_string (result : Json) (key : String) :
    (memberOf asString result key).get? = result.getString (ascii key) := by
  rw [memberOf, Json.getString]
  cases result.find (ascii key) with
  | none => rfl
  | some v => cases v <;> rfl

theorem get?_uint64 (result : Json) (key : String) :
    (memberOf asUint64 result key).get?.getD 0 = result.getUint64 (ascii key) 0 := by
  rw [memberOf, Json.getUint64, Json.getIntegral]
  cases result.find (ascii key) with
  | none => rfl
  | some v =>
    cases v with
    | int n =>
      rw [apply_ite Int.toNat]
      simp only [asUint64, Json.isUint64, decide_eq_true_eq]
      split <;> rfl
    | _ => rfl

/-- The blob is all the job takes of the template. -/
theorem setJobBlob_eq (s : SelfSelectClient) (result : Json) :
    s.setJobBlob { templateOf result with
        blockhashingBlob := (result.getString (ascii "blockhashing_blob")).elim .other .value } =
      s.setJobBlob (templateOf result) := by
  unfold setJobBlob
  congr 1
  show Member.get? _ = (memberOf asString result "blockhashing_blob").get?
  rw [get?_string]
  cases result.getString (ascii "blockhashing_blob") <;> rfl

/-- The members that are passed on are those of the template, if they are there. -/
theorem submitBlockTemplate_eq (s : SelfSelectClient) {result : Json} (sent : Bool)
    (h : result.isObject) (hf : (templateOf result).complete) :
    submitBlockTemplate s result sent =
      if (result.find (ascii "seed_hash")).isSome ∧ (result.find (ascii "next_seed_hash")).isSome
      then .ok (s.submitBlockTemplate (templateOf result) sent) else .error .access := by
  rw [complete_templateOf] at hf
  simp only [required_fields, List.all_cons, List.all_nil, Bool.and_true, Bool.and_eq_true,
    Option.isSome_iff_exists] at hf
  obtain ⟨⟨blob, h₁⟩, -, -, ⟨difficulty, h₂⟩, prevHash, h₃⟩ := hf
  simp only [submitBlockTemplate, getString_eq, getUint64_eq, member_eq h, h₁, h₂, h₃, Run.ok_bind]
  cases h₄ : result.find (ascii "seed_hash") with
  | none => simp
  | some seedHash =>
    cases h₅ : result.find (ascii "next_seed_hash") with
    | none => simp
    | some nextSeedHash => simp [templateOf, memberOf, h₁, h₂, h₃, h₄, h₅]

/-- A complete template whose blob is taken, without one of the seed hashes. -/
def Seedless (s : SelfSelectClient) (id : Int) (result error : Json) : Prop :=
  id ≠ -1 ∧ ¬ error.isObject ∧ result.isObject ∧
    (∀ field ∈ required_fields, (result.find (ascii field)).isSome) ∧
    (s.setJobBlob (templateOf result)).2 = true ∧
    ¬ ((result.find (ascii "seed_hash")).isSome ∧ (result.find (ascii "next_seed_hash")).isSome)

/-- The result as the other model of the client has it. -/
def resultOf (result : Json) : Option Template :=
  if result.isObject then some (templateOf result) else none

theorem parseResponse_eq (s : SelfSelectClient) (id : Int) (result error : Json) (sent : Bool) :
    (Seedless s id result error ∧ parseResponse s id result error sent = .error .access) ∨
    (¬ Seedless s id result error ∧ parseResponse s id result error sent =
      .ok (s.parseResponse id error.isObject (resultOf result) sent)) := by
  unfold parseResponse SelfSelectClient.parseResponse
  by_cases hid : id = -1
  · exact .inr ⟨fun h => h.1 hid, by simp [hid]⟩
  rw [if_neg hid, if_neg hid]
  by_cases herr : error.isObject = true
  · exact .inr ⟨fun h => h.2.1 herr, by simp [herr]⟩
  rw [if_neg herr, if_neg herr, resultOf]
  by_cases hres : result.isObject = true
  · rw [if_neg (not_not.mpr hres), if_pos hres, hasFields_eq hres, Run.ok_bind,
      ← complete_templateOf]
    by_cases hc : (templateOf result).complete = true
    · simp only [if_pos hc, getString_eq, getUint64_eq, Run.ok_bind, setJobBlob_eq]
      rcases hb : s.setJobBlob (templateOf result) with ⟨j, _ | _⟩
      · refine .inr ⟨fun h => ?_, rfl⟩
        have := h.2.2.2.2.1
        rw [hb] at this
        cases this
      · have h₁ := get?_uint64 result "height"
        have h₂ := get?_string result "seed_hash"
        simp only [submitBlockTemplate_eq _ sent hres hc]
        by_cases hseed : (result.find (ascii "seed_hash")).isSome = true ∧
            (result.find (ascii "next_seed_hash")).isSome = true
        · refine .inr ⟨fun h => h.2.2.2.2.2 hseed, ?_⟩
          rw [if_pos hseed, ← h₁, ← h₂]
          rfl
        · rw [complete_templateOf, List.all_eq_true] at hc
          refine .inl ⟨⟨hid, herr, hres, hc, by rw [hb], hseed⟩, ?_⟩
          rw [if_neg hseed]
          rfl
    · refine .inr ⟨fun h => hc ?_, by simp [hc]⟩
      rw [complete_templateOf, List.all_eq_true]
      exact h.2.2.2.1
  · exact .inr ⟨fun h => hres h.2.2.1, by simp [hres]⟩

end SelfSelect

/-! ## Every accessor -/

section

variable (keys : DaemonClient.Keys) (p : Platform) (outside : UInt8 → Option UInt64) (fuel : Nat)
  (jobId : String) (now : Nat)

/-- **Guarded accesses.** No line of a pool makes an accessor undefined unless it is
a response that no callback takes, with an error without a text; no answer of a
daemon unless it has such an error, or one without a code that goes to the log; no
template unless its blob is taken and one of the seed hashes is not there. -/
theorem accesses :
    (∀ s env quiet doc, Client.parse s env quiet doc ≠ .error .access ↔ ¬ Client.BareLine s doc) ∧
    (∀ c id result error,
      Daemon.parseResponse keys p outside fuel jobId now c id result error ≠ .error .access ↔
        ¬ Daemon.Bare c id error) ∧
    ∀ s id result error sent,
      SelfSelect.parseResponse s id result error sent ≠ .error .access ↔
        ¬ SelfSelect.Seedless s id result error := by
  refine ⟨fun s env quiet doc => not_congr ⟨fun h => ?_, Client.parse_bare⟩,
    fun c id result error => not_congr (Daemon.parseResponse_iff c id result error),
    fun s id result error sent => not_congr ?_⟩
  · by_contra hb
    rw [Client.parse_guarded hb] at h
    exact Run.ofOption_ne_access _ h
  · obtain ⟨h₁, h₂⟩ | ⟨h₁, h₂⟩ := SelfSelect.parseResponse_eq s id result error sent
    · exact iff_of_true h₂ h₁
    · refine iff_of_false (fun h => ?_) h₁
      rw [h₂] at h
      cases h

end

/-- `{"id": 2, "error": {}}`. -/
def emptyError : Json := .object [(ascii "id", .int 2), (ascii "error", .object [])]

/-- A template as small as one can be, without the seed hashes. -/
def seedless : Json :=
  .object [(ascii "blocktemplate_blob", .string []), (ascii "height", .int 1),
    (ascii "blockhashing_blob", .string (List.replicate 152 48)), (ascii "difficulty", .int 1),
    (ascii "prev_hash", .string [])]

/-- An error without a text from a pool and from a daemon, an error without a code
from a daemon, and a template without seed hashes. -/
theorem accesses_fail :
    Client.parse {} {} false (some emptyError) = .error .access ∧
    (∀ keys p outside fuel jobId now,
      Daemon.parseResponse keys p outside fuel jobId now {} 1 .null (.object []) =
        .error .access ∧
      Daemon.parseResponse keys p outside fuel jobId now {} 1 .null
        (.object [(ascii "message", .string [])]) = .error .access) ∧
    SelfSelect.parseResponse { job := { algorithm := .RX_0 } } 1 seedless .null true =
      .error .access := by
  refine ⟨rfl, fun keys p outside fuel jobId now => ⟨rfl, rfl⟩, ?_⟩
  decide +kernel

end Rxs.L3.Accesses
