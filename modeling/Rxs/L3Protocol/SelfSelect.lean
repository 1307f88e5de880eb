import Rxs.Core.LTS
import Rxs.L2Machine.JobText

/-!
# The self-select client

`SelfSelectClient` mines pool jobs on block templates of its own daemon: a pool
job makes it ask the daemon for a template, the template is registered with the
pool, and the pool's acceptance hands the job to the miner. Results may go to the
daemon as well (`submitToOrigin`).

Three connections answer at their own pace, so `daemon` and `pool` hold the
requests that are not answered yet; an answer names one of them. `clientSequence`
is the request counter all stratum clients share, and `callbacks` are the ids
`BaseClient` calls back for: a request that could not be sent leaves its id
there. The stratum connection itself is the model in `Client`; what it passes on
arrives here as an event. Time is the `now` of an event, text is what precedes
its first zero byte.

* `step`: one callback of the client; `none` if nothing asked for it.
* `parseResponse_cases`, `setJobBlob_cases`: what an answer of the daemon does to
  `m_job`.
-/
namespace Rxs

open Rxs.Core

/-- A job with the members only self-select mode reads. -/
structure TemplateJob extends Job where
  height : Nat := 0
  extraNonce : String := ""
  poolWallet : String := ""
  deriving DecidableEq, Repr

/-- A job as the pool sends it: `Client::parseJob` reads neither a blob nor a seed
hash in self-select mode.
mirrors src/base/net/stratum/Client.cpp:368-448 -/
abbrev OpenJob := { j : TemplateJob // j.blob = [] ∧ j.seed = [] }

/-- A member of a JSON object, as one of the typed getters sees it. -/
inductive Member (α : Type) where
  | missing | other | value (a : α)
  deriving DecidableEq, Repr

namespace Member

variable {α : Type}

def get? : Member α → Option α
  | value a => some a
  | _ => none

def isMissing : Member α → Bool
  | missing => true
  | _ => false

end Member

/-- The result object of a daemon's answer. -/
structure Template where
  blockhashingBlob : Member Bytes := .missing
  blocktemplateBlob : Member Bytes := .missing
  difficulty : Member Nat := .missing
  height : Member Nat := .missing
  prevHash : Member Bytes := .missing
  seedHash : Member Bytes := .missing
  nextSeedHash : Member Bytes := .missing
  deriving DecidableEq, Repr

namespace Template

/-- No required field is missing.
mirrors src/base/net/stratum/SelfSelectClient.cpp:49-49 -/
def complete (t : Template) : Bool :=
  !t.blocktemplateBlob.isMissing && !t.blockhashingBlob.isMissing && !t.height.isMissing &&
    !t.difficulty.isMissing && !t.prevHash.isMissing

/-- `Json::getString` of the block template. -/
def text (t : Template) : Bytes := t.blocktemplateBlob.get?.getD []

end Template

namespace SelfSelectClient

/-- mirrors src/base/net/stratum/SelfSelectClient.h:90-94 -/
inductive State where
  | IdleState | WaitState | RetryState
  deriving DecidableEq, Repr

/-- A request to the daemon. -/
inductive Request where
  | getblocktemplate (wallet_address extra_nonce : String)
  | submitblock (block : Bytes)
  deriving DecidableEq, Repr

/-- The parameters of `block_template`. Ghosts: the template they are from, the
pool job it is registered for, and how often `m_job` had been written. -/
structure Registration where
  id : String
  job_id : String
  blob : Member Bytes
  height : Nat
  difficulty : Member Nat
  prev_hash : Member Bytes
  seed_hash : Member Bytes
  next_seed_hash : Member Bytes
  template : Template
  poolJob : Option OpenJob
  writes : Nat
  deriving DecidableEq, Repr

/-- A request to the pool. -/
inductive PoolRequest where
  | block_template (r : Registration)
  | other
  deriving DecidableEq, Repr

/-- The body of an answer is what the JSON parser makes of it, `id` is -1 without
one; `result` is `none` unless it is an object. -/
inductive Reply where
  | failed
  | body (id : Int) (error : Bool) (result : Option Template)
  deriving DecidableEq, Repr

inductive Report where
  | onLoginSuccess
  | onJobReceived (job : TemplateJob)
  | onClose (failures : Int)
  deriving DecidableEq, Repr

/-- The members of a result that are read here. -/
structure JobResult where
  nonce : Nat
  diff : Nat
  actualDiff : Nat
  deriving DecidableEq, Repr

/-- A job as the miner got it, with the template whose blob it has (`none` if it
is no template's) and the pool's request that was answered. -/
structure Forwarded where
  job : TemplateJob
  template : Option Template
  request : PoolRequest
  deriving DecidableEq, Repr

structure Config where
  submitToOrigin : Bool := false
  coin : Coin := .INVALID
  retries : Int := 5
  retryPause : Nat := 5000
  deriving DecidableEq, Repr

end SelfSelectClient

open SelfSelectClient in
/-- Ghosts: `template` is the template taken last and `jobTemplate` the one whose
blob `m_job` has; `poolJob` is the pool job received last and `writes` counts the
writes to `m_job`; `forwarded` are the jobs the miner got, `submitted` the blocks
the daemon got, each with the job and the nonce it is for, and `processed` the
requests whose answer was not ignored; `overrun`: a nonce was written behind the
end of the block template.
mirrors src/base/net/stratum/SelfSelectClient.h:105-122 -/
structure SelfSelectClient where
  config : Config := {}
  active : Bool := false
  failures : Int := 0
  sequence : Int := 1
  job : TemplateJob := {}
  state : State := .IdleState
  blocktemplate : Bytes := []
  blockDiff : Nat := 0
  timestamp : Nat := 0
  clientSequence : Int := 1
  callbacks : List Int := []
  daemon : List (Int × Request) := []
  pool : List (Int × PoolRequest) := []
  told : List Report := []
  template : Option Template := none
  jobTemplate : Option Template := none
  poolJob : Option OpenJob := none
  writes : Nat := 0
  forwarded : List Forwarded := []
  submitted : List (Forwarded × Nat × Bytes) := []
  processed : List Request := []
  overrun : Bool := false
  deriving DecidableEq, Repr

namespace SelfSelectClient

/-- mirrors src/base/net/stratum/SelfSelectClient.cpp:187-215 -/
def setState (s : SelfSelectClient) (state : State) (now : Nat) : SelfSelectClient :=
  if s.state = state then s
  else
    match state with
    | .IdleState => { s with timestamp := 0, failures := 0, state := .IdleState }
    | .WaitState => { s with timestamp := now, state := .WaitState }
    | .RetryState =>
      { s with
        timestamp := now
        told := if s.config.retries < s.failures then s.told ++ [.onClose s.failures] else s.told
        failures := s.failures + 1
        state := .RetryState }

/-- mirrors src/base/net/stratum/SelfSelectClient.cpp:181-184 -/
def retry (s : SelfSelectClient) (now : Nat) : SelfSelectClient := s.setState .RetryState now

/-- mirrors src/base/net/stratum/SelfSelectClient.cpp:162-178 -/
def getBlockTemplate (s : SelfSelectClient) (now : Nat) : SelfSelectClient :=
  let s := s.setState .WaitState now
  { s with
    daemon := (s.sequence, .getblocktemplate s.job.poolWallet s.job.extraNonce) :: s.daemon
    sequence := s.sequence + 1 }

/-- The counter moves only if the request leaves.
mirrors src/base/net/stratum/Client.cpp:147-172,542-570 -/
def send (s : SelfSelectClient) (request : PoolRequest) (sent : Bool) : SelfSelectClient :=
  if sent then
    { s with
      pool := (s.clientSequence, request) :: s.pool
      clientSequence := s.clientSequence + 1 }
  else s

/-- An id that has a callback keeps it; all callbacks here are the same.
mirrors src/base/net/stratum/Client.cpp:137-144 -/
def sendCallback (s : SelfSelectClient) (request : PoolRequest) (sent : Bool) :
    SelfSelectClient :=
  send { s with callbacks := s.callbacks.insert s.clientSequence } request sent

/-- mirrors src/base/net/stratum/SelfSelectClient.cpp:218-259 -/
def submitBlockTemplate (s : SelfSelectClient) (t : Template) (sent : Bool) : SelfSelectClient :=
  let s := { s with
    blocktemplate := t.text
    blockDiff := t.difficulty.get?.getD 0
    template := some t }
  s.sendCallback
    (.block_template
      { id := s.job.clientId, job_id := s.job.id, blob := t.blocktemplateBlob,
        height := s.job.height, difficulty := t.difficulty, prev_hash := t.prevHash,
        seed_hash := t.seedHash, next_seed_hash := t.nextSeedHash,
        template := t, poolJob := s.poolJob, writes := s.writes })
    sent

/-- The template's blob, with the pool's coin deciding the algorithm. -/
def setJobBlob (s : SelfSelectClient) (t : Template) : Job × Bool :=
  (if s.config.coin.isValid then { s.job.toJob with algorithm := s.config.coin.algorithm }
    else s.job.toJob).setBlob t.blockhashingBlob.get?

/-- mirrors src/base/net/stratum/SelfSelectClient.cpp:116-159 -/
def parseResponse (s : SelfSelectClient) (id : Int) (error : Bool) (result : Option Template)
    (sent : Bool) : SelfSelectClient × Bool :=
  if id = -1 then (s, false)
  else if error then (s, false)
  else
    match result with
    | none => (s, false)
    | some t =>
      if t.complete then
        match s.setJobBlob t with
        | (j, false) =>
          ({ s with
            job := { s.job with toJob := j }
            jobTemplate := if j.blob = s.job.blob then s.jobTemplate else none
            writes := s.writes + 1 }, false)
        | (j, true) =>
          -- the answer of `setSeedHash` is not looked at
          let j := (j.setSeedHash t.seedHash.get?).1
          (submitBlockTemplate
            { s with
              job := { s.job with toJob := j, height := t.height.get?.getD 0 }
              jobTemplate := some t
              writes := s.writes + 1 } t sent, true)
      else (s, false)

/-- mirrors src/base/net/stratum/SelfSelectClient.cpp:297-320 -/
def onHttpData (s : SelfSelectClient) (request : Request) (r : Reply) (sent : Bool) (now : Nat) :
    SelfSelectClient :=
  match r with
  | .failed => retry { s with processed := request :: s.processed } now
  | .body id error result =>
    if 0 < id ∧ s.sequence - id ≠ 1 then s
    else
      match parseResponse { s with processed := request :: s.processed } id error result sent with
      | (s, true) => s
      | (s, false) => s.retry now

/-- What `submitBlockTemplate` passes to `send`.
mirrors src/base/net/stratum/SelfSelectClient.cpp:240-258 -/
def registered (s : SelfSelectClient) (request : PoolRequest) (success : Bool) (now : Nat) :
    SelfSelectClient :=
  if success then
    if s.active then
      let s := if s.config.retries < s.failures then
        { s with told := s.told ++ [.onLoginSuccess] } else s
      let s := s.setState .IdleState now
      { s with
        told := s.told ++ [.onJobReceived s.job]
        forwarded := s.forwarded ++ [⟨s.job, s.jobTemplate, request⟩] }
    else s
  else s.retry now

/-- mirrors src/base/net/stratum/BaseClient.cpp:60-83 -/
def handleResponse (s : SelfSelectClient) (id : Int) (request : PoolRequest) (success : Bool)
    (now : Nat) : SelfSelectClient :=
  if 1 < id ∧ id ∈ s.callbacks then
    let s := s.registered request success now
    { s with callbacks := s.callbacks.erase id }
  else s

/-- `Cvt::toHex(data + 78, 8, &result.nonce, 4)`, whatever the job's nonce offset;
the request takes the next id and leaves the counter where it is.
mirrors src/base/net/stratum/SelfSelectClient.cpp:262-295 -/
def submitOriginDaemon (s : SelfSelectClient) (w : Forwarded) (r : JobResult) :
    SelfSelectClient :=
  if r.diff = 0 ∨ s.blockDiff = 0 then s
  else if r.actualDiff < s.blockDiff then s
  else
    let data := Bytes.writeAt s.blocktemplate 78 (Cvt.bin2hex (Bytes.le 4 r.nonce))
    { s with
      blocktemplate := data
      daemon := (s.sequence, .submitblock data) :: s.daemon
      submitted := s.submitted ++ [(w, r.nonce, data)]
      overrun := s.overrun || s.blocktemplate.length < 78 + 8 }

/-- mirrors src/base/net/stratum/SelfSelectClient.cpp:69-83 -/
def submit (s : SelfSelectClient) (w : Forwarded) (r : JobResult) (sent : Bool) (now : Nat) :
    SelfSelectClient :=
  if s.config.submitToOrigin then
    (send (s.submitOriginDaemon w r) .other sent).getBlockTemplate now
  else s.send .other sent

/-- mirrors src/base/net/stratum/SelfSelectClient.cpp:86-97 -/
def tick (s : SelfSelectClient) (now : Nat) : SelfSelectClient :=
  if s.state = .RetryState then
    if now - s.timestamp < s.config.retryPause then s else s.getBlockTemplate now
  else s

/-- mirrors src/base/net/stratum/SelfSelectClient.cpp:100-105 -/
def onJobReceived (s : SelfSelectClient) (job : OpenJob) (now : Nat) : SelfSelectClient :=
  getBlockTemplate
    { s with
      job := job.1
      jobTemplate := none
      poolJob := some job
      writes := s.writes + 1 } now

/-- mirrors src/base/net/stratum/SelfSelectClient.h:79-79 -/
def onLoginSuccess (s : SelfSelectClient) (now : Nat) : SelfSelectClient :=
  let s := setState { s with told := s.told ++ [.onLoginSuccess] } .IdleState now
  { s with active := true }

/-- mirrors src/base/net/stratum/SelfSelectClient.h:78-78 -/
def onClose (s : SelfSelectClient) (failures : Int) (now : Nat) : SelfSelectClient :=
  let s := setState { s with told := s.told ++ [.onClose failures] } .IdleState now
  { s with active := false }

/-- What can happen to the client: its stratum client passes on a job, a login or
a close; the daemon answers its `i`-th open request, the pool accepts or refuses
its; a result comes for the `i`-th job; the clock; `request` is any other request
that takes an id of the shared counter, of this client or of another one. `sent`
tells whether the stratum client can send at that moment. -/
inductive Callback where
  | onJobReceived (job : OpenJob) (now : Nat)
  | onLoginSuccess (now : Nat)
  | onClose (failures : Int) (now : Nat)
  | onHttpData (i : Nat) (r : Reply) (sent : Bool) (now : Nat)
  | handleResponse (i : Nat) (success : Bool) (now : Nat)
  | submit (i : Nat) (r : JobResult) (sent : Bool) (now : Nat)
  | tick (now : Nat)
  | request (own : Bool)
  deriving DecidableEq, Repr

def step (s : SelfSelectClient) : Callback → Option SelfSelectClient
  | .onJobReceived job now => some (s.onJobReceived job now)
  | .onLoginSuccess now => some (s.onLoginSuccess now)
  | .onClose failures now => some (s.onClose failures now)
  | .onHttpData i r sent now =>
    s.daemon[i]?.map fun q =>
      onHttpData { s with daemon := s.daemon.eraseIdx i } q.2 r sent now
  | .handleResponse i success now =>
    s.pool[i]?.map fun q =>
      handleResponse { s with pool := s.pool.eraseIdx i } q.1 q.2 success now
  | .submit i r sent now => s.forwarded[i]?.map fun w => s.submit w r sent now
  | .tick now => some (s.tick now)
  | .request own =>
    some (if own then s.send .other true else { s with clientSequence := s.clientSequence + 1 })

def lts (c : Config) : LTS SelfSelectClient Callback := LTS.ofFn { config := c } step

/-! ## What a piece of the client changes -/

theorem setState_eq (s : SelfSelectClient) (state : State) (now : Nat) :
    ∃ t f told, s.setState state now =
        { s with timestamp := t, failures := f, told := told, state := state } ∧
      ∀ j, Report.onJobReceived j ∈ told ↔ Report.onJobReceived j ∈ s.told := by
  unfold setState
  by_cases h : s.state = state
  · rw [if_pos h, ← h]
    exact ⟨_, _, _, rfl, fun _ => Iff.rfl⟩
  · rw [if_neg h]
    cases state with
    | IdleState => exact ⟨_, _, _, rfl, fun _ => Iff.rfl⟩
    | WaitState => exact ⟨_, _, _, rfl, fun _ => Iff.rfl⟩
    | RetryState =>
      refine ⟨_, _, _, rfl, fun j => ?_⟩
      split
      · simp
      · exact Iff.rfl

theorem getBlockTemplate_eq (s : SelfSelectClient) (now : Nat) :
    ∃ t f told, s.getBlockTemplate now =
        { s with
          timestamp := t, failures := f, told := told, state := .WaitState,
          daemon := (s.sequence, .getblocktemplate s.job.poolWallet s.job.extraNonce) :: s.daemon,
          sequence := s.sequence + 1 } ∧
      ∀ j, Report.onJobReceived j ∈ told ↔ Report.onJobReceived j ∈ s.told := by
  obtain ⟨t, f, told, h, ht⟩ := s.setState_eq .WaitState now
  exact ⟨t, f, told, by unfold getBlockTemplate; rw [h], ht⟩

/-- The job a template makes of `m_job`, once its blob is taken. -/
def templateJob (s : SelfSelectClient) (t : Template) : TemplateJob :=
  { s.job with
    toJob := ((s.setJobBlob t).1.setSeedHash t.seedHash.get?).1
    height := t.height.get?.getD 0 }

/-- An answer is refused before `m_job` is touched, or with its blob, or taken. -/
theorem parseResponse_cases (s : SelfSelectClient) (id : Int) (error : Bool)
    (result : Option Template) (sent : Bool) :
    s.parseResponse id error result sent = (s, false) ∨
      ∃ t, result = some t ∧
        (((s.setJobBlob t).2 = false ∧ s.parseResponse id error result sent =
          ({ s with
            job := { s.job with toJob := (s.setJobBlob t).1 }
            jobTemplate := if (s.setJobBlob t).1.blob = s.job.blob then s.jobTemplate else none
            writes := s.writes + 1 }, false)) ∨
        ((s.setJobBlob t).2 = true ∧ s.parseResponse id error result sent =
          (submitBlockTemplate
            { s with job := s.templateJob t, jobTemplate := some t, writes := s.writes + 1 }
            t sent, true))) := by
  unfold parseResponse
  by_cases h₁ : id = -1
  · exact .inl (if_pos h₁)
  · rw [if_neg h₁]
    by_cases h₂ : error = true
    · exact .inl (if_pos h₂)
    · rw [if_neg h₂]
      cases result with
      | none => exact .inl rfl
      | some t =>
        by_cases h₃ : t.complete = true
        · right
          refine ⟨t, rfl, ?_⟩
          simp only [h₃, if_true, templateJob]
          rcases s.setJobBlob t with ⟨j, _ | _⟩
          · exact .inl ⟨rfl, rfl⟩
          · exact .inr ⟨rfl, rfl⟩
        · exact .inl (if_neg h₃)

/-- The blob of `m_job` after `setJobBlob`: some other blob if it is refused, and
the template's if it is taken. -/
theorem setJobBlob_cases (s : SelfSelectClient) (t : Template) :
    ∃ a b n, (s.setJobBlob t).1 = { s.job.toJob with algorithm := a, blob := b, nicehash := n } ∧
      ((s.setJobBlob t).2 = true → ∃ hex, t.blockhashingBlob = .value hex ∧
        Cvt.pairs hex = some b) := by
  have hg : ∀ (m : Member Bytes) (hex : Bytes), m.get? = some hex → m = .value hex := by
    intro m hex h
    cases m with
    | missing => cases h
    | other => cases h
    | value a => cases h; rfl
  unfold setJobBlob
  by_cases hc : s.config.coin.isValid = true
  · rw [if_pos hc]
    rcases Job.setBlob_cases { s.job.toJob with algorithm := s.config.coin.algorithm }
      t.blockhashingBlob.get? with ⟨b, h⟩ | ⟨hex, w, n, he, hw, h⟩
    · exact ⟨_, b, _, by rw [h], by rw [h]; intro h'; cases h'⟩
    · exact ⟨_, w, n, by rw [h], fun _ => ⟨hex, hg _ _ he, hw⟩⟩
  · rw [if_neg hc]
    rcases Job.setBlob_cases s.job.toJob t.blockhashingBlob.get? with
      ⟨b, h⟩ | ⟨hex, w, n, he, hw, h⟩
    · exact ⟨_, b, _, by rw [h], by rw [h]; intro h'; cases h'⟩
    · exact ⟨_, w, n, by rw [h], fun _ => ⟨hex, hg _ _ he, hw⟩⟩

/-! ## A first job -/

def openJob (id : String) : OpenJob :=
  ⟨{ algorithm := .RX_0, id := id, clientId := "miner", target := 1000, extraNonce := "00",
     poolWallet := "4A" }, rfl, rfl⟩

/-- A template with a blob of 43 zero bytes and a seed of zeros; `c` is the
character its text is made of. -/
def zeros (c : UInt8) : Template where
  blockhashingBlob := .value (List.replicate 86 48)
  blocktemplateBlob := .value (List.replicate 100 c)
  difficulty := .value 5000
  height := .value 7
  prevHash := .value (List.replicate 64 48)
  seedHash := .value (List.replicate 64 48)

/-- A login, a job, and its template on the way to the pool. -/
def first : List Callback :=
  [.request true, .onLoginSuccess 0, .onJobReceived (openJob "a") 0,
   .onHttpData 0 (.body 1 false (some (zeros 48))) true 0]

end SelfSelectClient

end Rxs
