import Rxs.Core.LTS
import Rxs.L3Protocol.Client

/-!
# A pool that stays silent

`send` sets the deadline for an answer, `m_expire`, and then calls `startTimeout`,
which sets it to zero. A deadline of zero is none: `tick` closes a connection only
when the deadline is there and has passed.

`Watch` is a client with the time of its last request, as long as the connection it
went out on is up and no line came since.

* `request_expire`: a request leaves the client connected and without a deadline.
* `undetected`: after that no number of ticks and requests closes the connection.
* **`silence_detected`**: a run keeps the promise of the deadline if and only if no
  request is sent in it.
* `silence_detected_fails`: a login that nobody answers.
-/
namespace Rxs.L3.Silence

open Rxs.Core Rxs.Client

/-- `send(size)` in the state `s` writes and returns the sequence number. -/
def goesOut (s : Client) (w : Write) : Bool := s.state = .ConnectedState ∧ w = .sent

/-- When the event sends a request: a share or another object, a ping of `tick`, or
the login after a connect, after the proxy's last answer or after the TLS handshake. -/
def request (s : Client) : Client.Event → Option Nat
  | .submit zero w now => if ¬ zero ∧ goesOut s w then some now else none
  | .send big w now => if ¬ big ∧ goesOut s w then some now else none
  | .tick _ w now =>
    if goesOut s w ∧ ¬ (s.expire ≠ 0 ∧ s.expire < now) ∧ s.keepAlive ≠ 0 ∧ s.keepAlive < now then
      some now
    else none
  | .connected _ ok w now =>
    if ok ∧ s.state ≠ .ConnectedState ∧ s.socks5 = none ∧ ¬ isTLS s ∧ w = .sent then some now
    else none
  | .read _ (some c) w now =>
    if ¬ s.listening then none
    else match s.socks5 with
      | some k =>
        let s := readProxy s k c w
        if s.socks5.any (·.state = .Ready) ∧ ¬ s.poolTLS ∧ goesOut s w then some now else none
      | none => if isTLS s ∧ c.tls = .verified ∧ goesOut s w then some now else none
  | _ => none

/-- The event brings a line. -/
def heard (s : Client) : Client.Event → Bool
  | .read _ (some c) _ _ =>
    s.listening ∧ s.socks5 = none ∧ (isTLS s → c.tls = .data) ∧ c.lines ≠ []
  | _ => false

/-- `sent` is when the last request went out, if it went out on the connection that
is up and no line came since; `requests` are the times of all requests. -/
structure Watch where
  client : Client
  sent : Option Nat := none
  requests : List Nat := []
  deriving DecidableEq, Repr

/-- The client after an event, and what there is to watch then. -/
def Watch.next (x : Watch) (e : Client.Event) (s : Client) : Watch :=
  { client := s
    sent :=
      if s.state ≠ .ConnectedState then none
      else match request x.client e with
        | some t => some t
        | none => if heard x.client e then none else x.sent
    requests := (request x.client e).toList ++ x.requests }

def step (x : Watch) (e : Client.Event) : Option Watch :=
  (Client.step x.client e).map (x.next e)

/-- While a request is unanswered there is a deadline, it is not later than the
response timeout allows, and `tick` closes the connection after it. -/
def Detected (x : Watch) : Prop :=
  ∀ t, x.sent = some t →
    (x.client.expire ≠ 0 ∧ x.client.expire ≤ t + kResponseTimeout) ∧
      ∀ cached w now, t + kResponseTimeout < now →
        (tick x.client cached w now).state ≠ .ConnectedState

/-- The promise holds in every state of the run. -/
def Detects (c : Config) (es : List Client.Event) : Prop :=
  ∀ pre x, pre <+: es → LTS.exec step { client := init c } pre = some x → Detected x

/-! ## A request and the deadline -/

@[simp] theorem startTimeout_expire (s : Client) (now : Nat) :
    (startTimeout s now).expire = 0 := by
  unfold startTimeout
  split <;> rfl

@[simp] theorem startTimeout_state (s : Client) (now : Nat) :
    (startTimeout s now).state = s.state := by
  unfold startTimeout
  split <;> rfl

/-- Connected, and no deadline. -/
def Unwatched (s : Client) : Prop := s.state = .ConnectedState ∧ s.expire = 0

theorem goesOut_iff {s : Client} {w : Write} :
    goesOut s w = true ↔ s.state = .ConnectedState ∧ w = .sent := by
  unfold goesOut
  exact decide_eq_true_iff

/-- The deadline of `send` does not outlive its own call. -/
theorem unwatched_send {s : Client} {w : Write} (h : goesOut s w = true) (now : Nat) :
    Unwatched (send s w now) := by
  obtain ⟨hst, rfl⟩ := goesOut_iff.mp h
  unfold send
  rw [if_neg fun hno => hno.1 hst]
  exact ⟨(startTimeout_state _ _).trans hst, startTimeout_expire _ _⟩

theorem unwatched_login {s : Client} (h : s.state = .ConnectedState) (h₅ : s.socks5 = none)
    (htls : isTLS s = false) (now : Nat) : Unwatched (handshake s .sent now) := by
  unfold handshake
  rw [h₅]
  simp only [htls, Bool.false_eq_true, if_false]
  exact unwatched_send (goesOut_iff.mpr ⟨h, rfl⟩) now

theorem setState_connected (s : Client) (now : Nat) :
    setState s .ConnectedState now = { s with state := .ConnectedState } := by
  unfold setState
  split
  · rename_i h
    rw [← h]
  · rfl

/-- **A request leaves the client without a deadline.** -/
theorem request_expire {s s' : Client} {e : Client.Event} {t : Nat} (hs : Client.step s e = some s')
    (hr : request s e = some t) : Unwatched s' := by
  cases e with
  | submit zero w now =>
    simp only [request, Option.ite_none_right_eq_some] at hr
    simp only [Client.step, Option.ite_none_right_eq_some, Option.some.injEq] at hs
    obtain ⟨⟨hz, hw⟩, -⟩ := hr
    rw [← hs.2, submit, if_neg (not_not.mpr (goesOut_iff.mp hw).1), if_neg hz]
    exact unwatched_send hw now
  | send big w now =>
    simp only [request, Option.ite_none_right_eq_some] at hr
    simp only [Client.step, Option.ite_none_right_eq_some, Option.some.injEq] at hs
    obtain ⟨⟨hb, hw⟩, -⟩ := hr
    rw [← hs.2, sendObj, if_neg hb]
    exact unwatched_send hw now
  | tick cached w now =>
    simp only [request, Option.ite_none_right_eq_some] at hr
    simp only [Client.step, Option.ite_none_right_eq_some, Option.some.injEq] at hs
    obtain ⟨⟨hw, he, hk⟩, -⟩ := hr
    rw [← hs.2, tick, if_pos (goesOut_iff.mp hw).1, if_neg he, if_pos hk]
    exact unwatched_send hw now
  | connected h ok w now =>
    simp only [request, Option.ite_none_right_eq_some] at hr
    simp only [Client.step, Option.ite_none_right_eq_some, Option.some.injEq] at hs
    obtain ⟨⟨hok, hst, h₅, htls, rfl⟩, -⟩ := hr
    have hst' : ¬ (answered s h).state = .ConnectedState := hst
    rw [← hs.2, onConnect, if_neg (not_not.mpr hok), if_neg hst', setState_connected]
    apply unwatched_login
    · rfl
    · exact h₅
    · exact Bool.eq_false_iff.mpr htls
  | read h c w now =>
    cases c with
    | none => cases hr
    | some c =>
      simp only [Client.step, Option.ite_none_right_eq_some, Option.some.injEq] at hs
      simp only [request] at hr
      rw [← hs.2, Client.read]
      by_cases hl : ¬ s.listening
      · rw [if_pos hl] at hr
        cases hr
      · rw [if_neg hl] at hr ⊢
        cases h₅ : s.socks5 with
        | some k =>
          simp only [h₅, Option.ite_none_right_eq_some] at hr ⊢
          obtain ⟨⟨hready, htls, hw⟩, -⟩ := hr
          obtain ⟨hst, rfl⟩ := goesOut_iff.mp hw
          rw [if_pos hready]
          apply unwatched_login
          · exact hst
          · rfl
          · unfold isTLS
            rw [Bool.eq_false_iff.mpr htls, Bool.false_and]
        | none =>
          simp only [h₅, Option.ite_none_right_eq_some] at hr ⊢
          obtain ⟨⟨htls, hc, hw⟩, -⟩ := hr
          rw [if_pos htls, hc]
          exact unwatched_send hw now
  | connect cached now => cases hr
  | disconnect => cases hr
  | deleteLater => cases hr
  | resolved ok now => cases hr
  | closed h now => cases hr

/-! ## Silence -/

/-- What goes on while the pool is silent: ticks and requests, none of which fails. -/
def Quiet : Client.Event → Prop
  | .tick _ w _ => w ≠ .failed
  | .submit zero w _ => zero = false ∧ w ≠ .failed
  | .send big w _ => big = false ∧ w ≠ .failed
  | _ => False

theorem unwatched_send' {s : Client} {w : Write} (hs : Unwatched s) (hw : w ≠ .failed) (now : Nat) :
    Unwatched (send s w now) := by
  cases w with
  | sent => exact unwatched_send (goesOut_iff.mpr ⟨hs.1, rfl⟩) now
  | refused =>
    unfold send
    rw [if_neg fun hno => hno.1 hs.1]
    exact hs
  | failed => exact absurd rfl hw

theorem unwatched_step {s s' : Client} {e : Client.Event} (hs : Unwatched s) (he : Quiet e)
    (hstep : Client.step s e = some s') : Unwatched s' := by
  cases e with
  | tick cached w now =>
    simp only [Client.step, Option.ite_none_right_eq_some, Option.some.injEq] at hstep
    rw [← hstep.2, tick, if_pos hs.1, if_neg fun hno => hno.1 hs.2]
    split
    · exact unwatched_send' hs he now
    · exact hs
  | submit zero w now =>
    simp only [Client.step, Option.ite_none_right_eq_some, Option.some.injEq] at hstep
    rw [← hstep.2, submit, if_neg (not_not.mpr hs.1), he.1, if_neg Bool.false_ne_true]
    exact unwatched_send' hs he.2 now
  | send big w now =>
    simp only [Client.step, Option.ite_none_right_eq_some, Option.some.injEq] at hstep
    rw [← hstep.2, sendObj, he.1, if_neg Bool.false_ne_true]
    exact unwatched_send' hs he.2 now
  | _ => exact absurd he not_false

/-- **Never found out**: after a request the connection stays up through any number
of ticks and requests. -/
theorem undetected {s s' : Client} {es : List Client.Event} (hs : Unwatched s)
    (hes : ∀ e ∈ es, Quiet e) (hrun : LTS.exec Client.step s es = some s') : Unwatched s' := by
  induction es generalizing s with
  | nil =>
    cases hrun
    exact hs
  | cons e es ih =>
    obtain ⟨s₁, h₁, h₂⟩ := Option.bind_eq_some_iff.mp hrun
    exact ih (unwatched_step hs (hes e (List.mem_cons_self ..)) h₁)
      (fun e he => hes e (List.mem_cons_of_mem _ he)) h₂

/-! ## Runs -/

/-- What the request of an event leaves to watch. -/
theorem watch_request {x x' : Watch} {e : Client.Event} {t : Nat} (h : step x e = some x')
    (hr : request x.client e = some t) : x'.sent = some t ∧ Unwatched x'.client := by
  obtain ⟨s, hs, rfl⟩ := Option.map_eq_some_iff.mp h
  have hu := request_expire hs hr
  refine ⟨?_, hu⟩
  unfold Watch.next
  simp only [hr, hu.1, ne_eq, not_true_eq_false, if_false]

theorem watch_quiet {x x' : Watch} {e : Client.Event} (h : step x e = some x')
    (hr : x'.requests = []) : x.requests = [] ∧ (x.sent = none → x'.sent = none) := by
  obtain ⟨s, hs, rfl⟩ := Option.map_eq_some_iff.mp h
  obtain ⟨hnow, hx⟩ := List.append_eq_nil_iff.mp hr
  have hnone : request x.client e = none := by
    cases hq : request x.client e with
    | none => rfl
    | some t =>
      rw [hq] at hnow
      cases hnow
  refine ⟨hx, fun hsent => ?_⟩
  unfold Watch.next
  simp only [hnone, hsent, ite_self]

/-- Without a request there is nothing to watch. -/
theorem unsent {x x' : Watch} {es : List Client.Event} (h : LTS.exec step x es = some x')
    (hr : x'.requests = []) : x.requests = [] ∧ (x.sent = none → x'.sent = none) := by
  induction es generalizing x with
  | nil =>
    cases h
    exact ⟨hr, id⟩
  | cons e es ih =>
    obtain ⟨x₁, h₁, h₂⟩ := Option.bind_eq_some_iff.mp h
    obtain ⟨hr₁, hs₁⟩ := ih h₂
    obtain ⟨hx, hs⟩ := watch_quiet h₁ hr₁
    exact ⟨hx, fun hsent => hs₁ (hs hsent)⟩

/-- With a request there is a state right after one. -/
theorem sent_once {x x' : Watch} {es : List Client.Event} (h : LTS.exec step x es = some x')
    (hx : x.requests = []) (hr : x'.requests ≠ []) :
    ∃ pre y t, pre <+: es ∧ LTS.exec step x pre = some y ∧ y.sent = some t ∧
      Unwatched y.client := by
  induction es generalizing x with
  | nil =>
    cases h
    exact absurd hx hr
  | cons e es ih =>
    obtain ⟨x₁, h₁, h₂⟩ := Option.bind_eq_some_iff.mp h
    cases hq : request x.client e with
    | some t =>
      obtain ⟨hsent, hu⟩ := watch_request h₁ hq
      refine ⟨[e], x₁, t, ⟨es, rfl⟩, ?_, hsent, hu⟩
      simp only [LTS.exec, h₁, Option.bind_some]
    | none =>
      have hx₁ : x₁.requests = [] := by
        obtain ⟨s, -, rfl⟩ := Option.map_eq_some_iff.mp h₁
        unfold Watch.next
        rw [hq, hx]
        rfl
      obtain ⟨pre, y, t, hpre, hy, hsent, hu⟩ := ih h₂ hx₁
      refine ⟨e :: pre, y, t, List.cons_prefix_cons.mpr ⟨rfl, hpre⟩, ?_, hsent, hu⟩
      simp only [LTS.exec, h₁, Option.bind_some]
      exact hy

/-- **The promise of the deadline** is kept by a run of the client, for any pool, if
and only if the client sends no request in it. -/
theorem silence_detected {c : Config} {es : List Client.Event} {x : Watch}
    (h : LTS.exec step { client := init c } es = some x) : Detects c es ↔ x.requests = [] := by
  constructor
  · intro hd
    by_contra hr
    obtain ⟨pre, y, t, hpre, hy, hsent, hu⟩ := sent_once h rfl hr
    exact (hd pre y hpre hy t hsent).1.1 hu.2
  · intro hr pre y hpre hy t hsent
    obtain ⟨post, rfl⟩ := hpre
    rw [LTS.exec_append, hy] at h
    have hy₀ := (unsent h hr).1
    rw [(unsent hy hy₀).2 rfl] at hsent
    cases hsent

/-- A lookup that fails: no request, and the promise holds. -/
theorem silence_detected_lookup : Detects {} [.connect none 0, .resolved false 10] := by
  obtain ⟨x, hx⟩ : ∃ x, LTS.exec step { client := init {} }
      [.connect none 0, .resolved false 10] = some x := Option.isSome_iff_exists.mp (by decide)
  have he : (LTS.exec step { client := init {} } [.connect none 0, .resolved false 10]).map
      (·.requests) = some [] := by decide
  simp only [hx, Option.map_some, Option.some.injEq] at he
  exact (silence_detected hx).mpr he

/-- The login goes out, and no line comes. -/
def silent : List Client.Event :=
  [.connect none 0, .resolved true 10, .connected 0 true .sent 20]

/-- The login has no deadline, and a tick an hour later does not close the
connection. -/
theorem silence_detected_fails : ¬ (∀ c es, Detects c es) ∧
    ((LTS.exec step { client := init {} } silent).map fun x =>
      (x.sent, x.client.expire, (tick x.client none .sent 3600000).state)) =
        some (some 20, 0, .ConnectedState) := by
  constructor
  · intro h
    obtain ⟨x, hx⟩ : ∃ x, LTS.exec step { client := init {} } silent = some x :=
      Option.isSome_iff_exists.mp (by decide)
    have he : (LTS.exec step { client := init {} } silent).map
        (fun x => (x.sent, x.client.expire)) = some (some 20, 0) := by decide
    simp only [hx, Option.map_some, Option.some.injEq, Prod.mk.injEq] at he
    exact (h {} silent silent x (List.prefix_refl _) hx 20 he.1).1.1 he.2
  · decide

end Rxs.L3.Silence
