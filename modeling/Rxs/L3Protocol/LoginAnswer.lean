import Rxs.Core.LTS
import Rxs.L3Protocol.Session

/-!
# The answer to the login

A client that has sent its login waits for the response 1. `parseResponse` closes the
connection on an error if the client is the one with index 1 in its list of pools, or
if the error is critical; the condition was meant for the id of the response. It
returns without closing if there is neither an error nor a result object.

So a client with another index stays connected after a login that is refused, without
being logged in and without a deadline, and the client with index 1 closes its
connection after any share that is refused.

* `later_parse`: what a line does to the connection, one lemma for each function.
* **`login_answered`**: exactly when every answer to the login ends in a login or a
  close, and only critical errors of other requests close the connection.
* `login_answered_fails`: a refused login, and a refused share.
-/
namespace Rxs.L3.LoginAnswer

open Rxs.Core Rxs.Session

/-- A line, with what it gets from outside. -/
abbrev Received := Env × Option Json

def step (s : Session) (l : Received) : Option Session := parse s l.1 l.2

/-- What a line answers: id, result and error. -/
def answer (l : Received) : Option (Int × Json × Json) :=
  l.2.bind fun doc => if doc.isObject then response doc else none

/-- The client is connected and not closing: the login request has gone out. -/
structure Awaiting (s : Session) (h : Handle) : Prop where
  listening : s.conn.listening = true
  socket : s.conn.socket = some h
  state : s.conn.state = .ConnectedState

/-- `uv_close` was called for the client's socket. -/
def Closing (h : Handle) (s : Session) : Prop := s.conn.loop.isClosing h = true

/-- Since `s₀` the listener was told of a login. -/
def Reported (s₀ s : Session) : Prop :=
  ∃ more, s.conn.told = s₀.conn.told ++ more ∧ .onLoginSuccess ∈ more

def IsAnswer (l : Received) : Prop := ∃ r, answer l = some (1, r)

/-- After a line that answers the login the client is logged in or on its way out. -/
def NoHalfOpen (h : Handle) (s₀ : Session) (ls : List Received) : Prop :=
  ∀ pre s, pre <+: ls → LTS.exec step s₀ pre = some s → (∃ l ∈ pre, IsAnswer l) →
    Closing h s ∨ Reported s₀ s

/-- A line with an error of another request closes the connection only if the error is
critical. -/
def CriticalOnly (h : Handle) (s₀ : Session) (ls : List Received) : Prop :=
  ∀ pre l post s s', ls = pre ++ l :: post → LTS.exec step s₀ pre = some s →
    step s l = some s' → ¬ Closing h s → Closing h s' →
      ∀ id result error message, answer l = some (id, result, error) → id ≠ 1 →
        error.find (ascii "message") = some (.string message) →
          isCriticalError (cstr message) = true

/-! ## The conditions -/

/-- An answer to the login that neither logs in nor closes. -/
def undecided (index : Int) (result error : Json) : Bool :=
  if error.isObject then
    match error.find (ascii "message") with
    | some (.string message) => index ≠ 1 ∧ ¬ isCriticalError (cstr message)
    | _ => false
  else ¬ result.isObject

/-- The first answer to the login decides, if the client is not closing by then. -/
def Decided (h : Handle) (s₀ : Session) (ls : List Received) : Prop :=
  ∀ pre l post s result error, ls = pre ++ l :: post → (∀ l' ∈ pre, ¬ IsAnswer l') →
    LTS.exec step s₀ pre = some s → ¬ Closing h s → answer l = some (1, result, error) →
      undecided s₀.id result error = false

/-- The client with index 1 gets no error of another request that is not critical,
unless a callback takes it. -/
def Spared (h : Handle) (s₀ : Session) (ls : List Received) : Prop :=
  s₀.id = 1 → ∀ pre l post s id result error message, ls = pre ++ l :: post →
    LTS.exec step s₀ pre = some s → ¬ Closing h s → answer l = some (id, result, error) →
      id ≠ 1 → error.find (ascii "message") = some (.string message) →
        (1 < id ∧ (get s.callbacks id).isSome) ∨ isCriticalError (cstr message) = true

/-! ## The connection -/

/-- The socket of the client is there, and it is closing if the state says so. -/
structure Open (h : Handle) (c : Client) : Prop where
  listening : c.listening = true
  socket : c.socket = some h
  state : c.state ≠ .UnconnectedState
  closing : c.state = .ClosingState → c.loop.isClosing h = true

/-- What becomes of the connection; `P` holds of what the listener is told. -/
structure Later (P : Notice → Prop) (h : Handle) (c c' : Client) : Prop where
  opened : Open h c'
  told : ∃ more, c'.told = c.told ++ more ∧ ∀ n ∈ more, P n
  closing : c.loop.isClosing h = true → c'.loop.isClosing h = true

variable {P : Notice → Prop} {h : Handle} {c c' c'' : Client}

theorem later_refl (hc : Open h c) : Later P h c c :=
  ⟨hc, ⟨[], (List.append_nil _).symm, fun _ hn => absurd hn List.not_mem_nil⟩, id⟩

theorem Later.trans (h₁ : Later P h c c') (h₂ : Later P h c' c'') : Later P h c c'' := by
  obtain ⟨more₁, e₁, hp₁⟩ := h₁.told
  obtain ⟨more₂, e₂, hp₂⟩ := h₂.told
  refine ⟨h₂.opened, ⟨more₁ ++ more₂, ?_, fun n hn => ?_⟩, fun hc => h₂.closing (h₁.closing hc)⟩
  · rw [e₂, e₁, List.append_assoc]
  · rcases List.mem_append.mp hn with hn | hn
    · exact hp₁ n hn
    · exact hp₂ n hn

/-- The deadlines, the failures and the pool do not matter. -/
structure Alike (c c' : Client) : Prop where
  listening : c'.listening = c.listening
  socket : c'.socket = c.socket
  state : c'.state = c.state
  loop : c'.loop = c.loop
  told : c'.told = c.told

theorem Alike.refl (c : Client) : Alike c c := ⟨rfl, rfl, rfl, rfl, rfl⟩

theorem Alike.trans (h₁ : Alike c c') (h₂ : Alike c' c'') : Alike c c'' :=
  ⟨h₂.listening.trans h₁.listening, h₂.socket.trans h₁.socket, h₂.state.trans h₁.state,
    h₂.loop.trans h₁.loop, h₂.told.trans h₁.told⟩

theorem Alike.opened (ha : Alike c c') (hc : Open h c) : Open h c' where
  listening := ha.listening.trans hc.listening
  socket := ha.socket.trans hc.socket
  state := ha.state ▸ hc.state
  closing hst := by
    rw [ha.loop]
    exact hc.closing (ha.state ▸ hst)

theorem Alike.later (ha : Alike c c') (hc : Open h c) : Later P h c c' where
  opened := ha.opened hc
  told := ⟨[], ha.told.trans (List.append_nil _).symm, fun _ hn => absurd hn List.not_mem_nil⟩
  closing hcl := by
    rw [ha.loop]
    exact hcl

theorem alike_pool (c : Client) (tls : Bool) : Alike c { c with poolTLS := tls } :=
  ⟨rfl, rfl, rfl, rfl, rfl⟩

theorem alike_startTimeout (c : Client) (now : Nat) : Alike c (c.startTimeout now) := by
  unfold Client.startTimeout
  split <;> exact ⟨rfl, rfl, rfl, rfl, rfl⟩

theorem isClosing_uvClose (l : Loop) (h : Handle) : (l.uvClose h).isClosing h = true := by
  simp [Loop.uvClose, Loop.isClosing]

theorem later_close (hc : Open h c) :
    Later P h c (Client.close c).2 ∧ (Client.close c).2.loop.isClosing h = true := by
  unfold Client.close
  by_cases hst : c.state = .ClosingState
  · rw [if_pos hst]
    exact ⟨later_refl hc, hc.closing hst⟩
  · rw [if_neg hst, hc.socket]
    simp only [if_neg hc.state]
    have hcl : (if c.loop.isClosing h then c.loop else c.loop.uvClose h).isClosing h = true := by
      split
      · assumption
      · exact isClosing_uvClose _ _
    refine ⟨⟨⟨hc.listening, rfl, ?_, fun _ => hcl⟩, ?_, fun _ => hcl⟩, hcl⟩
    · exact SocketState.noConfusion
    · exact ⟨[], (List.append_nil _).symm, fun _ hn => absurd hn List.not_mem_nil⟩

theorem later_tell (hc : Open h c) {n : Notice} (hn : P n) : Later P h c (c.tell n) :=
  ⟨⟨hc.listening, hc.socket, hc.state, hc.closing⟩,
    ⟨[n], rfl, fun _ hm => List.mem_singleton.mp hm ▸ hn⟩, id⟩

theorem later_reconnect (hc : Open h c) (hP : ∀ f, P (.onClose f)) (now : Nat) :
    Later P h c (c.reconnect now) := by
  unfold Client.reconnect
  rw [if_neg (not_not.mpr hc.listening)]
  have ha : Alike c { c with keepAlive := 0 } := ⟨rfl, rfl, rfl, rfl, rfl⟩
  have h₁ := ha.opened hc
  by_cases hf : c.failures = -1
  · simp only [if_pos hf]
    exact ⟨(later_tell (P := P) h₁ (hP _)).opened, (later_tell h₁ (hP _)).told, id⟩
  · simp only [if_neg hf]
    have hst : ∃ e, Client.setState { c with keepAlive := 0 } .ReconnectingState now =
        { c with keepAlive := 0, state := .ReconnectingState, expire := e } := by
      unfold Client.setState
      split
      · rename_i hs
        exact ⟨c.expire, by rw [← hs]⟩
      · exact ⟨now + c.retryPause, rfl⟩
    obtain ⟨e, he⟩ := hst
    rw [he]
    refine ⟨⟨hc.listening, hc.socket, SocketState.noConfusion, SocketState.noConfusion⟩, ?_, id⟩
    exact ⟨[.onClose (c.failures + 1)], rfl, fun _ hm => List.mem_singleton.mp hm ▸ hP _⟩

theorem later_disconnect (hc : Open h c) : Later P h c (Client.disconnect c).2 := by
  have ha : Alike c { c with keepAlive := 0, expire := 0, failures := -1 } :=
    ⟨rfl, rfl, rfl, rfl, rfl⟩
  exact (ha.later hc).trans (later_close (ha.opened hc)).1

/-! ## One lemma for each function -/

/-- The client's index, and the connection. -/
structure Goes (P : Notice → Prop) (h : Handle) (s s' : Session) : Prop where
  id : s'.id = s.id
  conn : Later P h s.conn s'.conn

variable {s s' s'' : Session} {env : Env}

theorem goes_refl (hs : Open h s.conn) : Goes P h s s := ⟨rfl, later_refl hs⟩

theorem Goes.trans (h₁ : Goes P h s s') (h₂ : Goes P h s' s'') : Goes P h s s'' :=
  ⟨h₂.id.trans h₁.id, h₁.conn.trans h₂.conn⟩

theorem Goes.opened (hg : Goes P h s s') : Open h s'.conn := hg.conn.opened

/-- What only changes the session's own members. -/
theorem goes_same (hs : Open h s.conn) (hid : s'.id = s.id) (hc : s'.conn = s.conn) :
    Goes P h s s' := by
  refine ⟨hid, ?_⟩
  rw [hc]
  exact later_refl hs

theorem goes_close (hs : Open h s.conn) : Goes P h s (close s) ∧ Closing h (close s) :=
  ⟨⟨rfl, (later_close hs).1⟩, (later_close (P := P) hs).2⟩

theorem goes_tell (hs : Open h s.conn) {n : Notice} (hn : P n) : Goes P h s (tell s n) :=
  ⟨rfl, later_tell hs hn⟩

theorem goes_addExtension (hs : Open h s.conn) (now : Nat) (ext : Json) :
    Goes P h s (addExtension now s ext) := by
  unfold addExtension
  split
  · dsimp only
    split
    · exact goes_same hs rfl rfl
    · split
      · exact goes_same hs rfl rfl
      · split
        · exact goes_same hs rfl rfl
        · split
          · refine ⟨rfl, Alike.later ?_ hs⟩
            have ha : Alike s.conn { s.conn with extKeepAlive := true } :=
              ⟨rfl, rfl, rfl, rfl, rfl⟩
            exact ha.trans (alike_startTimeout _ _)
          · split
            · exact goes_same hs rfl rfl
            · exact goes_refl hs
  · exact goes_refl hs

theorem goes_extensions (hs : Open h s.conn) (now : Nat) (exts : List Json) :
    Goes P h s (exts.foldl (addExtension now) s) := by
  induction exts generalizing s with
  | nil => exact goes_refl hs
  | cons ext exts ih =>
    have h₁ := goes_addExtension (P := P) hs now ext
    exact h₁.trans (ih h₁.opened)

theorem goes_parseExtensions (hs : Open h s.conn) (result : Json) (now : Nat) :
    Goes P h s (parseExtensions s result now) := by
  have ha : Alike s.conn { s.conn with extKeepAlive := false } := ⟨rfl, rfl, rfl, rfl, rfl⟩
  have h₁ : Goes P h s
      { s with extensions := [], conn := { s.conn with extKeepAlive := false } } :=
    ⟨rfl, ha.later hs⟩
  unfold parseExtensions
  split
  · exact h₁.trans (goes_extensions h₁.opened now _)
  · exact h₁

theorem goes_parseJob (hs : Open h s.conn) {params : Json} {code : Int} {r : Session × Bool × Int}
    (hr : parseJob s env params code = some r) : Goes P h s r.1 := by
  unfold parseJob at hr
  split at hr
  · cases hr
  · cases hr
    exact goes_refl hs
  · simp only [] at hr
    split at hr
    · cases hr
      exact goes_same hs rfl rfl
    · split at hr
      · cases hr
        exact goes_same hs rfl rfl
      · cases hr
        exact ⟨rfl, (later_close hs).1⟩

theorem goes_parseLogin (hs : Open h s.conn) {result : Json} {code : Int}
    {r : Session × Bool × Int} (hr : parseLogin s env result code = some r) : Goes P h s r.1 := by
  unfold parseLogin at hr
  have h₀ : Goes P h s { s with rpcId := result.getString (ascii "id") } :=
    goes_same hs rfl rfl
  simp only [] at hr
  split at hr
  · cases hr
    exact h₀
  · obtain ⟨q, hq, rfl⟩ := Option.map_eq_some_iff.mp hr
    have h₁ := h₀.trans (goes_parseExtensions h₀.opened result env.now)
    have h₂ := h₁.trans (goes_parseJob h₁.opened hq)
    exact ⟨h₂.id, h₂.conn⟩

/-- A login is reported. -/
theorem goes_loggedIn (hs : Open h s.conn) (env : Env) (hP : ∀ n, P n) :
    Goes P h s (loggedIn s env) ∧ Reported s (loggedIn s env) := by
  have ha : Alike s.conn { s.conn with failures := 0 } := ⟨rfl, rfl, rfl, rfl, rfl⟩
  unfold loggedIn
  generalize ht : tell { s with conn := { s.conn with failures := 0 } } .onLoginSuccess = t
  dsimp only
  have h₁ : Goes P h s t := by
    rw [← ht]
    exact ⟨rfl, (ha.later hs).trans (later_tell (ha.opened hs) (hP _))⟩
  have htold : t.conn.told = s.conn.told ++ [.onLoginSuccess] := by
    rw [← ht]
    rfl
  have h₂ : Goes P h t
      (if env.leaves then { t with conn := (Client.disconnect t.conn).2 } else t) := by
    split
    · exact ⟨rfl, later_disconnect h₁.opened⟩
    · exact goes_refl h₁.opened
  generalize (if env.leaves then { t with conn := (Client.disconnect t.conn).2 } else t) = u at h₂
  have h₃ : Goes P h u (if isValid u then tell u .onJobReceived else u) := by
    split
    · exact goes_tell h₂.opened (hP _)
    · exact goes_refl h₂.opened
  refine ⟨h₁.trans (h₂.trans h₃), ?_⟩
  obtain ⟨more, he, -⟩ := (h₂.trans h₃).conn.told
  refine ⟨.onLoginSuccess :: more, ?_, List.mem_cons_self⟩
  rw [he, htold, List.append_assoc]
  rfl

theorem goes_handleResponse (hs : Open h s.conn) (id : Int) (result error : Json) (now : Nat) :
    Goes P h s (handleResponse s id result error now).2 := by
  unfold handleResponse
  split
  · exact goes_refl hs
  · split
    · exact goes_same hs rfl rfl
    · exact goes_refl hs

theorem handleSubmitResponse_conn (s : Session) (id : Int) (error : Option Bytes) (now : Nat) :
    (handleSubmitResponse s id error now).2.id = s.id ∧
      (handleSubmitResponse s id error now).2.conn = s.conn := by
  unfold handleSubmitResponse
  split <;> exact ⟨rfl, rfl⟩

theorem goes_handleSubmitResponse (hs : Open h s.conn) (id : Int) (error : Option Bytes)
    (now : Nat) : Goes P h s (handleSubmitResponse s id error now).2 := by
  unfold handleSubmitResponse
  split
  · exact goes_same hs rfl rfl
  · exact goes_refl hs

/-! ## A response -/

/-- A response that is no answer to the login, or one that is. -/
theorem goes_parseResponse (hs : Open h s.conn) {id : Int} {result error : Json}
    (hP : ∀ n, n ≠ .onLoginSuccess ∨ id = 1 → P n)
    (hr : parseResponse s env id result error = some s') : Goes P h s s' := by
  unfold parseResponse at hr
  have h₁ := goes_handleResponse (P := P) hs id result error env.now
  split at hr
  · rename_i t ht
    cases hr
    rw [ht] at h₁
    exact h₁
  · rename_i t ht
    rw [ht] at h₁
    split at hr
    · split at hr
      · rename_i message _
        cases hr
        have h₂ := h₁.trans
          (goes_handleSubmitResponse h₁.opened id (some (cstr message)) env.now)
        split
        · exact h₂.trans (goes_close h₂.opened).1
        · exact h₂
      · cases hr
    · split at hr
      · cases hr
        exact h₁
      · split at hr
        · rename_i hid
          obtain ⟨r, hr', rfl⟩ := Option.map_eq_some_iff.mp hr
          have h₂ := h₁.trans (goes_parseLogin h₁.opened hr')
          split
          · exact h₂.trans (goes_loggedIn h₂.opened env fun n => hP n (.inr hid)).1
          · exact h₂.trans (goes_close h₂.opened).1
        · cases hr
          exact h₁.trans (goes_handleSubmitResponse h₁.opened id none env.now)

theorem Reported.after {s₀ : Session} (hr : Reported s₀ s) (hg : Goes P h s s') :
    Reported s₀ s' := by
  obtain ⟨more, he, hm⟩ := hr
  obtain ⟨more', he', -⟩ := hg.conn.told
  exact ⟨more ++ more', by rw [he', he, List.append_assoc], List.mem_append_left _ hm⟩

theorem Reported.before {s₀ : Session} (hr : Reported s s') (hg : Goes P h s₀ s) :
    Reported s₀ s' := by
  obtain ⟨more, he, hm⟩ := hr
  obtain ⟨more', he', -⟩ := hg.conn.told
  exact ⟨more' ++ more, by rw [he, he', List.append_assoc], List.mem_append_right _ hm⟩

theorem handleResponse_one (result error : Json) (now : Nat) :
    handleResponse s 1 result error now = (false, s) := if_pos (Int.le_refl 1)

theorem undecided_error {index : Int} {result error : Json} (he : error.isObject = true)
    (hu : undecided index result error = true) :
    ∃ message, error.find (ascii "message") = some (.string message) ∧
      ¬ (index = 1 ∨ isCriticalError (cstr message) = true) := by
  unfold undecided at hu
  rw [if_pos he] at hu
  split at hu
  · rename_i message hm
    refine ⟨message, hm, ?_⟩
    rw [not_or]
    exact of_decide_eq_true hu
  · cases hu

/-- An answer to the login that decides nothing leaves the connection as it is. -/
theorem answer_undecided (env : Env) {result error : Json}
    (hu : undecided s.id result error = true) :
    ∃ s', parseResponse s env 1 result error = some s' ∧ s'.conn = s.conn := by
  unfold parseResponse
  rw [handleResponse_one]
  dsimp only
  by_cases he : error.isObject = true
  · obtain ⟨message, hm, hopen⟩ := undecided_error he hu
    obtain ⟨hid, hconn⟩ := handleSubmitResponse_conn s 1 (some (cstr message)) env.now
    rw [if_pos he, hm]
    simp only [hid, if_neg hopen]
    exact ⟨_, rfl, hconn⟩
  · unfold undecided at hu
    rw [if_neg he] at hu
    rw [if_neg he, if_pos (of_decide_eq_true hu)]
    exact ⟨s, rfl, rfl⟩

/-- **An answer to the login** that decides: the client is logged in or closing. -/
theorem answer_decided (hs : Open h s.conn) {result error : Json}
    (hu : undecided s.id result error = false)
    (hr : parseResponse s env 1 result error = some s') : Closing h s' ∨ Reported s s' := by
  unfold parseResponse at hr
  rw [handleResponse_one] at hr
  dsimp only at hr
  unfold undecided at hu
  by_cases he : error.isObject = true
  · rw [if_pos he] at hr hu
    split at hr
    · rename_i message hm
      rw [hm] at hu
      obtain ⟨hid, hconn⟩ := handleSubmitResponse_conn s 1 (some (cstr message)) env.now
      have hclose : s.id = 1 ∨ isCriticalError (cstr message) = true := by
        by_contra hno
        rw [not_or] at hno
        exact of_decide_eq_false hu hno
      simp only [hid, if_pos hclose, Option.some.injEq] at hr
      rw [← hr]
      exact .inl (later_close (P := fun _ => True) (hconn ▸ hs)).2
    · cases hr
  · rw [if_neg he] at hr hu
    rw [if_neg (of_decide_eq_false hu), if_pos rfl] at hr
    obtain ⟨r, hr', rfl⟩ := Option.map_eq_some_iff.mp hr
    have h₁ := goes_parseLogin (P := fun _ => True) hs hr'
    split
    · have h₂ := goes_loggedIn (P := fun _ => True) h₁.opened env fun _ => trivial
      exact .inr (h₂.2.before h₁)
    · exact .inl (later_close (P := fun _ => True) h₁.opened).2

/-- A callback is registered for the response. -/
def taken (s : Session) (id : Int) : Prop := 1 < id ∧ (get s.callbacks id).isSome = true

theorem handleResponse_free {id : Int} (hf : ¬ taken s id) (result error : Json) (now : Nat) :
    handleResponse s id result error now = (false, s) := by
  unfold handleResponse
  by_cases hid : id ≤ 1
  · exact if_pos hid
  · rw [if_neg hid]
    cases hcb : get s.callbacks id with
    | none => rfl
    | some cb => exact absurd ⟨not_le.mp hid, by rw [hcb]; rfl⟩ hf

theorem handleResponse_taken {id : Int} (ht : taken s id) (result error : Json) (now : Nat) :
    ∃ t, handleResponse s id result error now = (true, t) ∧ t.conn = s.conn := by
  obtain ⟨cb, hcb⟩ := Option.isSome_iff_exists.mp ht.2
  unfold handleResponse
  rw [if_neg (not_le.mpr ht.1), hcb]
  exact ⟨_, rfl, rfl⟩

/-- An error with a message is taken in any state. -/
theorem error_defined {error : Json} {message : Bytes}
    (hm : error.find (ascii "message") = some (.string message)) (env : Env) (id : Int)
    (result : Json) : ∃ s', parseResponse s env id result error = some s' := by
  have he : error.isObject = true := by
    cases error with
    | object members => rfl
    | _ => cases hm
  unfold parseResponse
  split
  · exact ⟨_, rfl⟩
  · rw [if_pos he, hm]
    exact ⟨_, rfl⟩

/-- **An error** closes the connection of the client with index 1, or if it is
critical, unless a callback takes it. -/
theorem answer_error (hs : Open h s.conn) {id : Int} {result error : Json} {message : Bytes}
    (hm : error.find (ascii "message") = some (.string message)) (hopen : ¬ Closing h s)
    (hr : parseResponse s env id result error = some s') :
    Closing h s' ↔ ¬ taken s id ∧ (s.id = 1 ∨ isCriticalError (cstr message) = true) := by
  have he : error.isObject = true := by
    cases error with
    | object members => rfl
    | _ => cases hm
  unfold parseResponse at hr
  by_cases ht : taken s id
  · obtain ⟨t, hresp, hconn⟩ := handleResponse_taken ht result error env.now
    rw [hresp] at hr
    cases hr
    unfold Closing at hopen ⊢
    rw [hconn]
    exact ⟨fun hc => absurd hc hopen, fun hc => absurd ht hc.1⟩
  · rw [handleResponse_free ht] at hr
    dsimp only at hr
    rw [if_pos he, hm] at hr
    obtain ⟨hid, hconn⟩ := handleSubmitResponse_conn s id (some (cstr message)) env.now
    simp only [hid, Option.some.injEq] at hr
    rw [← hr]
    by_cases hclose : s.id = 1 ∨ isCriticalError (cstr message) = true
    · rw [if_pos hclose]
      exact ⟨fun _ => ⟨ht, hclose⟩, fun _ => (later_close (P := fun _ => True) (hconn ▸ hs)).2⟩
    · rw [if_neg hclose]
      unfold Closing at hopen ⊢
      rw [hconn]
      exact ⟨fun hc => absurd hc hopen, fun hc => absurd hc.2 hclose⟩

/-! ## Lines -/

theorem parse_answer {l : Received} {id : Int} {result error : Json}
    (ha : answer l = some (id, result, error)) :
    step s l = parseResponse s l.1 id result error := by
  obtain ⟨env, doc⟩ := l
  obtain ⟨d, hd, hr⟩ := Option.bind_eq_some_iff.mp ha
  cases hd
  split at hr
  · rename_i ho
    unfold step parse
    dsimp only
    rw [if_neg (not_not.mpr ho), hr]
  · cases hr

theorem goes_clientReconnect (hs : Open h s.conn) (hP : ∀ f, P (.onClose f)) (params : Json) :
    Goes P h s (clientReconnect s env params) := by
  unfold clientReconnect
  split
  · rename_i host port
    have ha := alike_pool s.conn (env.urlTLS (cstr host ++ ascii ":" ++ cstr port))
    exact ⟨rfl, (ha.later hs).trans (later_reconnect (ha.opened hs) hP _)⟩
  · exact goes_refl hs

theorem goes_parseNotification (hs : Open h s.conn) (hP : P .onJobReceived) {method : Bytes}
    {params : Json} (hr : parseNotification s env method params = some s') : Goes P h s s' := by
  unfold parseNotification at hr
  split at hr
  · obtain ⟨r, hr', rfl⟩ := Option.map_eq_some_iff.mp hr
    have h₁ := goes_parseJob (P := P) hs hr'
    split
    · exact h₁.trans (goes_tell h₁.opened hP)
    · exact h₁.trans (goes_close h₁.opened).1
  · cases hr
    exact goes_refl hs

/-- **A line**: only an answer to the login reports one. -/
theorem goes_step (hs : Open h s.conn) {l : Received}
    (hP : ∀ n, n ≠ .onLoginSuccess ∨ IsAnswer l → P n) (hr : step s l = some s') :
    Goes P h s s' := by
  obtain ⟨env, doc⟩ := l
  cases hans : answer (env, doc) with
  | some r =>
    obtain ⟨id, result, error⟩ := r
    rw [parse_answer hans] at hr
    refine goes_parseResponse hs (fun n hn => hP n ?_) hr
    rcases hn with hn | hid
    · exact .inl hn
    · rw [hid] at hans
      exact .inr ⟨_, hans⟩
  | none =>
    unfold step parse at hr
    dsimp only at hr
    cases doc with
    | none =>
      cases hr
      exact goes_refl hs
    | some doc =>
      dsimp only at hr
      split at hr
      · cases hr
        exact goes_refl hs
      · rename_i ho
        have hresp : response doc = none := by
          unfold answer at hans
          rw [Option.bind_some, if_pos (not_not.mp ho)] at hans
          exact hans
        rw [hresp] at hr
        dsimp only at hr
        split at hr
        · cases hr
          exact goes_refl hs
        · split at hr
          · cases hr
            exact goes_clientReconnect hs (fun f => hP _ (.inl Notice.noConfusion)) _
          · split at hr
            · cases hr
              exact goes_refl hs
            · exact goes_parseNotification hs (hP _ (.inl Notice.noConfusion)) hr

/-- Any number of lines. -/
theorem goes_run {ls : List Received} (hs : Open h s.conn)
    (hP : ∀ n, n ≠ .onLoginSuccess ∨ (∃ l ∈ ls, IsAnswer l) → P n)
    (hr : LTS.exec step s ls = some s') : Goes P h s s' := by
  induction ls generalizing s with
  | nil =>
    cases hr
    exact goes_refl hs
  | cons l ls ih =>
    obtain ⟨s₁, h₁, h₂⟩ := Option.bind_eq_some_iff.mp hr
    have hg := goes_step (P := P) hs (fun n hn => hP n ?_) h₁
    · refine hg.trans (ih hg.opened (fun n hn => hP n ?_) h₂)
      exact hn.imp_right fun ⟨l', hl', ha⟩ => ⟨l', List.mem_cons_of_mem _ hl', ha⟩
    · exact hn.imp_right fun ha => ⟨l, List.mem_cons_self, ha⟩

/-! ## Runs -/

theorem Awaiting.opened (ha : Awaiting s h) : Open h s.conn where
  listening := ha.listening
  socket := ha.socket
  state := by
    rw [ha.state]
    exact SocketState.noConfusion
  closing hst := by
    rw [ha.state] at hst
    cases hst

instance (l : Received) : Decidable (IsAnswer l) :=
  match ha : answer l with
  | some (1, r) => isTrue ⟨r, ha⟩
  | some (.ofNat 0, _) => isFalse fun ⟨_, hr⟩ => by rw [ha] at hr; cases hr
  | some (.ofNat (_ + 2), _) => isFalse fun ⟨_, hr⟩ => by rw [ha] at hr; cases hr
  | some (.negSucc _, _) => isFalse fun ⟨_, hr⟩ => by rw [ha] at hr; cases hr
  | none => isFalse fun ⟨_, hr⟩ => by rw [ha] at hr; cases hr

/-- The first of some lines that answers the login. -/
theorem first_answer {ls : List Received} (ha : ∃ l ∈ ls, IsAnswer l) :
    ∃ pre l post, ls = pre ++ l :: post ∧ (∀ l' ∈ pre, ¬ IsAnswer l') ∧ IsAnswer l := by
  induction ls with
  | nil =>
    obtain ⟨l, hl, -⟩ := ha
    cases hl
  | cons l ls ih =>
    by_cases hl : IsAnswer l
    · exact ⟨[], l, ls, rfl, fun _ hm => absurd hm List.not_mem_nil, hl⟩
    · obtain ⟨l', hl', ha'⟩ := ha
      rcases List.mem_cons.mp hl' with rfl | hl'
      · exact absurd ha' hl
      · obtain ⟨pre, k, post, rfl, hpre, hk⟩ := ih ⟨l', hl', ha'⟩
        exact ⟨l :: pre, k, post, rfl, List.forall_mem_cons.mpr ⟨hl, hpre⟩, hk⟩

/-- A run splits where its lines do. -/
theorem run_split {pre post : List Received} {l : Received}
    (hr : LTS.exec step s (pre ++ l :: post) = some s'') :
    ∃ t t', LTS.exec step s pre = some t ∧ step t l = some t' ∧
      LTS.exec step t' post = some s'' := by
  rw [LTS.exec_append] at hr
  obtain ⟨t, ht, hr⟩ := Option.bind_eq_some_iff.mp hr
  obtain ⟨t', ht', hr⟩ := Option.bind_eq_some_iff.mp hr
  exact ⟨t, t', ht, ht', hr⟩

theorem run_snoc {pre : List Received} {l : Received} (hr : LTS.exec step s pre = some s')
    (hl : step s' l = some s'') : LTS.exec step s (pre ++ [l]) = some s'' := by
  rw [LTS.exec_append, hr]
  simp only [Option.bind_some, LTS.exec, hl]

theorem not_reported {ls : List Received} (hs : Open h s.conn)
    (hno : ∀ l ∈ ls, ¬ IsAnswer l) (hr : LTS.exec step s ls = some s') : ¬ Reported s s' := by
  intro hrep
  have hg := goes_run (P := fun n => n ≠ .onLoginSuccess) hs (fun n hn => ?_) hr
  · obtain ⟨more, he, hm⟩ := hg.conn.told
    obtain ⟨more', he', hin⟩ := hrep
    rw [he, List.append_cancel_left_eq] at he'
    exact hm _ (he' ▸ hin) rfl
  · exact hn.resolve_right fun ⟨l, hl, ha⟩ => hno l hl ha

/-- **No half-open session**: the first answer decides. -/
theorem noHalfOpen_iff (ha : Awaiting s h) {ls : List Received} :
    NoHalfOpen h s ls ↔ Decided h s ls := by
  constructor
  · intro hn pre l post t result error hls hno hr hopen hans
    have hg := goes_run (P := fun _ => True) ha.opened (fun _ _ => trivial) hr
    by_contra hu
    rw [Bool.not_eq_false, ← hg.id] at hu
    obtain ⟨t', ht', hconn⟩ := answer_undecided l.1 hu
    rw [← parse_answer hans] at ht'
    have hpre : pre ++ [l] <+: ls := ⟨post, by rw [hls, List.append_assoc]; rfl⟩
    have hl : l ∈ pre ++ [l] := List.mem_append_right _ (List.mem_singleton.mpr rfl)
    have hend := hn (pre ++ [l]) t' hpre (run_snoc hr ht') ⟨l, hl, _, hans⟩
    unfold Closing Reported at hend
    rw [hconn] at hend
    exact hend.elim hopen (not_reported ha.opened hno hr)
  · intro hd pre t hpre hr hex
    obtain ⟨rest, rfl⟩ := hpre
    obtain ⟨p, l, q, rfl, hno, ⟨result, error⟩, hans⟩ := first_answer hex
    obtain ⟨t₀, t₁, hp, hl, hq⟩ := run_split hr
    have hg₀ := goes_run (P := fun _ => True) ha.opened (fun _ _ => trivial) hp
    have hg₁ := goes_step (P := fun _ => True) hg₀.opened (fun _ _ => trivial) hl
    have hg₂ := goes_run (P := fun _ => True) hg₁.opened (fun _ _ => trivial) hq
    by_cases hcl : Closing h t₀
    · exact .inl (hg₂.conn.closing (hg₁.conn.closing hcl))
    · have hu := hd p l (q ++ rest) t₀ result error
        (by rw [List.append_assoc]; rfl) hno hp hcl hans
      rw [parse_answer hans] at hl
      rcases answer_decided hg₀.opened (hg₀.id ▸ hu) hl with hcl' | hrep
      · exact .inl (hg₂.conn.closing hcl')
      · exact .inr ((hrep.before hg₀).after hg₂)

/-- **Errors of other requests** close the connection of the client with index 1. -/
theorem criticalOnly_iff (ha : Awaiting s h) {ls : List Received} :
    CriticalOnly h s ls ↔ Spared h s ls := by
  constructor
  · intro hc hid₁ pre l post t id result error message hls hr hopen hans hid hm
    have hg := goes_run (P := fun _ => True) ha.opened (fun _ _ => trivial) hr
    by_cases ht : taken t id
    · exact .inl ht
    · obtain ⟨t', ht'⟩ := error_defined (s := t) hm l.1 id result
      have hclosed := (answer_error hg.opened hm hopen ht').mpr ⟨ht, .inl (hg.id.trans hid₁)⟩
      rw [← parse_answer hans] at ht'
      exact .inr (hc pre l post t t' hls hr ht' hopen hclosed id result error message hans hid hm)
  · intro hsp pre l post t t' hls hr hl hopen hclosed id result error message hans hid hm
    have hg := goes_run (P := fun _ => True) ha.opened (fun _ _ => trivial) hr
    have hl' := hl
    rw [parse_answer hans] at hl'
    obtain ⟨hfree, hwhy⟩ := (answer_error hg.opened hm hopen hl').mp hclosed
    rcases hwhy with hid₁ | hcrit
    · exact (hsp (hg.id ▸ hid₁) pre l post t id result error message hls hr hopen hans hid
        hm).resolve_left hfree
    · exact hcrit

/-- **The answer to the login**, for any client and any lines: no session stays half
open and only critical errors of other requests close the connection, if and only if
the first answer to the login decides and the client with index 1 is spared. -/
theorem login_answered (ha : Awaiting s h) (ls : List Received) :
    NoHalfOpen h s ls ∧ CriticalOnly h s ls ↔ Decided h s ls ∧ Spared h s ls :=
  and_congr (noHalfOpen_iff ha) (criticalOnly_iff ha)

/-- A client that has sent its login, with the given index. -/
def waiting (index : Int) : Session :=
  { id := index
    conn := { state := .ConnectedState, socket := some 0,
              loop := { next := 1, active := [0], reading := [0] } } }

theorem awaiting_waiting (index : Int) : Awaiting (waiting index) 0 := ⟨rfl, rfl, rfl⟩

/-- An error as `error` has it. -/
def errorOf (message : String) : Json :=
  .object [(ascii "code", .int (-1)), (ascii "message", .string (ascii message))]

/-- An error reply. -/
def refusal (id : Int) (message : String) : Received :=
  ({}, some (.object [(ascii "id", .int id), (ascii "error", errorOf message)]))

theorem answer_refusal_one (message : String) :
    answer (refusal 1 message) = some (1, .null, errorOf message) := rfl

/-- A critical error as the answer: the client closes the connection, whatever its
index. -/
theorem login_answered_banned : NoHalfOpen 0 (waiting 0) [refusal 1 "Your IP is banned"] ∧
    CriticalOnly 0 (waiting 0) [refusal 1 "Your IP is banned"] := by
  apply (login_answered (awaiting_waiting 0) _).mpr
  constructor
  · intro pre l post t result error hls hno hr hopen hans
    obtain ⟨-, rfl, -⟩ : pre = [] ∧ l = refusal 1 "Your IP is banned" ∧ post = [] := by
      cases pre with
      | nil =>
        cases hls
        exact ⟨rfl, rfl, rfl⟩
      | cons a pre =>
        have := congrArg List.length hls
        simp at this
    rw [answer_refusal_one] at hans
    cases hans
    decide
  · intro hid
    cases hid

/-- A refused login leaves a client with index 0 connected, and a refused share closes
the connection of a client with index 1. -/
theorem login_answered_fails :
    ¬ NoHalfOpen 0 (waiting 0) [refusal 1 "Invalid address"] ∧
      ¬ CriticalOnly 0 (waiting 1) [refusal 7 "Low difficulty share"] := by
  constructor
  · intro hn
    have hopen : ¬ Closing 0 (waiting 0) := by
      unfold Closing
      decide
    have hu := (noHalfOpen_iff (awaiting_waiting 0)).mp hn [] _ [] _ _ _ rfl
      (fun _ hm => absurd hm List.not_mem_nil) rfl hopen (answer_refusal_one _)
    exact absurd hu (by decide)
  · intro hc
    have hopen : ¬ Closing 0 (waiting 1) := by
      unfold Closing
      decide
    have hcrit := (criticalOnly_iff (awaiting_waiting 1)).mp hc rfl [] _ [] _ 7 .null
      (errorOf "Low difficulty share") _ rfl rfl hopen rfl (by decide) rfl
    rcases hcrit with ⟨-, hcb⟩ | hcrit
    · exact absurd hcb (by decide)
    · exact absurd hcrit (by decide)

end Rxs.L3.LoginAnswer
