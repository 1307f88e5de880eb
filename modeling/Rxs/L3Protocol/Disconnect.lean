import Rxs.Core.LTS
import Rxs.L3Protocol.Lined
import Rxs.L3Protocol.DaemonLife

/-!
# Disconnect is final

`disconnect` sets the failure count to -1 and closes what there is to close; a lookup,
a request or a line that is on its way still calls back. Final means that after it,
until the next `connect`, no login is sent and the listener is told nothing but
`onClose(-1)`.

A listener may disconnect the stratum client from inside a callback, so its lines are
taken one at a time.

* `parted_step`: what is left of a stratum client that was disconnected, kept by
  every event but `connect`.
* `idle_step`: the same for the daemon client.
* **`disconnect_final`**: in every run of either client whose steps meet its condition.
* `disconnect_final_fails`: a lookup that is answered later logs in, a job comes after
  the login success that disconnected the client, and a failed HTTP reply is reported
  as `onClose(0)`.
-/
namespace Rxs.L3.Disconnect

open Rxs.Core

section Stratum

open Rxs.Client

/-- After a disconnect no login was sent, and the listener was told only of closes
without a failure count. -/
def Final (x : Lined) : Prop :=
  ∀ q ∈ x.quit, x.logins = q.2 ∧ ∀ n ∈ x.client.told.drop q.1, n = .onClose (-1)

/-- A login that is accepted, or a valid job. -/
def welcome : Line → Bool
  | .login (some _) true _ | .job true => true
  | _ => false

/-- The socket that `close` closes. -/
def closable (s : Client) (h : Handle) : Prop :=
  s.socket = some h ∧ s.state ≠ .ClosingState ∧ s.state ≠ .UnconnectedState ∧
    ¬ s.loop.isClosing h

/-- The condition on a step: at a disconnect no lookup is pending, each socket that
reads or connects is the one that is closed, and no login or job is left to hand on. -/
def Ok (x : Lined) : Lined.Event → Prop
  | .call .disconnect =>
    x.client.loop.lookup = false ∧
      (∀ h ∈ x.client.loop.reading, closable x.client h) ∧
      (∀ h ∈ x.client.loop.requests, h ∈ x.client.loop.active → closable x.client h) ∧
      ∀ l ∈ x.rest, welcome l = false
  | _ => True

instance (s : Client) (h : Handle) : Decidable (closable s h) := by
  unfold closable
  infer_instance

instance (x : Lined) (e : Lined.Event) : Decidable (Ok x e) := by
  unfold Ok
  split <;> infer_instance

def lts (c : Config) : LTS Lined Lined.Event := LTS.ofFn { client := init c } Lined.step

/-! ## A stratum client that was disconnected -/

/-- The listener knew `n` notices at the disconnect. -/
structure Parted (s : Client) (n : Nat) : Prop where
  failures : s.failures = -1
  expire : s.expire = 0
  lookup : s.loop.lookup = false
  reading : s.loop.reading = []
  requests : ∀ h ∈ s.loop.requests, h ∉ s.loop.active
  told : ∀ m ∈ s.told.drop n, m = .onClose (-1)
  known : n ≤ s.told.length

variable {s : Client} {n : Nat}

theorem Parted.close (h : Parted s n) : Parted (close s).2 n := by
  unfold Client.close
  split
  · exact h
  · split
    · exact h
    · split
      · exact h
      · dsimp only
        split
        · exact ⟨h.failures, h.expire, h.lookup, h.reading, h.requests, h.told, h.known⟩
        · rename_i x _ _ _
          refine ⟨h.failures, h.expire, h.lookup, ?_, ?_, h.told, h.known⟩
          · show s.loop.reading.filter (· ≠ x) = []
            rw [h.reading]
            rfl
          · intro y hy hact
            exact h.requests y hy (List.mem_filter.mp hact).1

theorem Parted.remove (h : Parted s n) : Parted (remove s) n :=
  ⟨h.failures, h.expire, rfl, h.reading, h.requests, h.told, h.known⟩

theorem Parted.startTimeout (h : Parted s n) (now : Nat) : Parted (startTimeout s now) n := by
  unfold Client.startTimeout
  split
  · exact ⟨h.failures, rfl, h.lookup, h.reading, h.requests, h.told, h.known⟩
  · exact ⟨h.failures, rfl, h.lookup, h.reading, h.requests, h.told, h.known⟩

/-- A close without a failure count may be told. -/
theorem Parted.reconnect (h : Parted s n) (now : Nat) : Parted (reconnect s now) n := by
  unfold Client.reconnect
  split
  · exact h.remove
  · dsimp only
    rw [if_pos h.failures]
    refine ⟨h.failures, h.expire, h.lookup, h.reading, h.requests, ?_, ?_⟩
    · intro m hm
      have hdrop : (s.told ++ [Notice.onClose (-1)]).drop n = s.told.drop n ++ [.onClose (-1)] :=
        List.drop_append_of_le_length h.known
      rw [show (tell { s with keepAlive := 0 } (.onClose (-1))).told.drop n = _ from hdrop] at hm
      rcases List.mem_append.mp hm with hm | hm
      · exact h.told m hm
      · exact List.mem_singleton.mp hm
    · have := h.known
      show n ≤ (s.told ++ [Notice.onClose (-1)]).length
      rw [List.length_append]
      omega

theorem Parted.send (h : Parted s n) (w : Write) (now : Nat) : Parted (send s w now) n := by
  unfold Client.send
  split
  · exact h
  · cases w with
    | refused => exact h
    | failed =>
      dsimp only
      split
      · exact h.close
      · exact h
    | sent =>
      -- the deadline of the request is gone again
      unfold Client.startTimeout
      dsimp only
      split
      · exact ⟨h.failures, rfl, h.lookup, h.reading, h.requests, h.told, h.known⟩
      · exact ⟨h.failures, rfl, h.lookup, h.reading, h.requests, h.told, h.known⟩

theorem Parted.tick (h : Parted s n) (cached : Option Bool) (w : Write) (now : Nat) :
    Parted (tick s cached w now) n := by
  unfold Client.tick
  split
  · rw [if_neg fun hno => hno.1 h.expire]
    split
    · exact h.send w now
    · exact h
  · rw [if_neg fun hno => hno.2.1 h.expire, if_neg fun hno => hno.2.1 h.expire]
    exact h

/-- A line that is neither a login nor a job. -/
theorem Parted.parseLine (h : Parted s n) (now : Nat) {l : Line} (hl : welcome l = false) :
    Parted (parseLine s now l) n := by
  cases l with
  | reconnect tls =>
    have h' : Parted { s with poolTLS := tls } n :=
      ⟨h.failures, h.expire, h.lookup, h.reading, h.requests, h.told, h.known⟩
    exact h'.reconnect now
  | login ext ok job =>
    cases ext with
    | none => exact h.close
    | some ext =>
      have hok : ok = false := by
        cases ok with
        | true => cases hl
        | false => rfl
      subst hok
      have h' : Parted { s with extKeepAlive := ext } n :=
        ⟨h.failures, h.expire, h.lookup, h.reading, h.requests, h.told, h.known⟩
      unfold Client.parseLine
      dsimp only
      rw [if_neg Bool.false_ne_true]
      split
      · exact (h'.startTimeout now).close
      · exact h'.close
  | error critical =>
    unfold Client.parseLine
    dsimp only
    split
    · exact h.close
    · exact h
  | job ok =>
    cases ok with
    | true => cases hl
    | false => exact h.close
  | other => exact h

theorem Parted.takeLine (h : Parted s n) (now : Nat) {l : Line} (hl : welcome l = false) :
    Parted (Lined.takeLine s now l).1 n ∧ (Lined.takeLine s now l).2 = [] := by
  unfold Lined.takeLine
  split
  · cases hl
  · exact ⟨h.parseLine now hl, rfl⟩

theorem Parted.ended (h : Parted s n) (x : Handle) (now : Nat) :
    Parted (onClose (finished s x) now) n := by
  have h' : Parted { finished s x with socket := none } n :=
    ⟨h.failures, h.expire, h.lookup, h.reading, h.requests, h.told, h.known⟩
  unfold Client.onClose
  apply Parted.reconnect
  unfold setState
  split
  · exact ⟨h'.failures, h'.expire, h'.lookup, h'.reading, h'.requests, h'.told, h'.known⟩
  · exact ⟨h'.failures, h'.expire, h'.lookup, h'.reading, h'.requests, h'.told, h'.known⟩

/-- **Only a connect** takes a client out of it, and nothing logs in. -/
theorem parted_step {s' : Client} {e : Client.Event} (h : Parted s n)
    (hs : Client.step s (Lined.bare e) = some s') (he : ∀ cached now, e ≠ .connect cached now) :
    Parted s' n ∧ Lined.logsIn s e = false ∧ Lined.brought s e = [] := by
  cases e with
  | connect cached now => exact absurd rfl (he cached now)
  | disconnect =>
    simp only [Lined.bare, Client.step, Option.ite_none_right_eq_some, Option.some.injEq] at hs
    rw [← hs.2]
    have h' : Parted { s with keepAlive := 0, expire := 0, failures := -1 } n :=
      ⟨rfl, rfl, h.lookup, h.reading, h.requests, h.told, h.known⟩
    exact ⟨h'.close, rfl, rfl⟩
  | deleteLater =>
    simp only [Lined.bare, Client.step, Option.ite_none_right_eq_some, Option.some.injEq] at hs
    rw [← hs.2]
    refine ⟨?_, rfl, rfl⟩
    have h' : Parted { s with listening := false, keepAlive := 0, expire := 0, failures := -1 } n :=
      ⟨rfl, rfl, h.lookup, h.reading, h.requests, h.told, h.known⟩
    unfold Client.deleteLater
    split
    · exact h
    · dsimp only
      split
      · exact h'.close
      · exact h'.close.remove
  | submit zero w now =>
    simp only [Lined.bare, Client.step, Option.ite_none_right_eq_some, Option.some.injEq] at hs
    rw [← hs.2]
    refine ⟨?_, rfl, rfl⟩
    unfold Client.submit
    split
    · exact h
    · split
      · exact h.close
      · exact h.send w now
  | send big w now =>
    simp only [Lined.bare, Client.step, Option.ite_none_right_eq_some, Option.some.injEq] at hs
    rw [← hs.2]
    refine ⟨?_, rfl, rfl⟩
    unfold Client.sendObj
    split
    · exact h.close
    · exact h.send w now
  | tick cached w now =>
    simp only [Lined.bare, Client.step, Option.ite_none_right_eq_some, Option.some.injEq] at hs
    rw [← hs.2]
    exact ⟨h.tick cached w now, rfl, rfl⟩
  | resolved ok now =>
    simp only [Lined.bare, Client.step, Option.ite_none_right_eq_some, Option.some.injEq] at hs
    rw [h.lookup] at hs
    exact absurd hs.1.2 Bool.false_ne_true
  | connected x ok w now =>
    simp only [Lined.bare, Client.step, Option.ite_none_right_eq_some, Option.some.injEq] at hs
    obtain ⟨⟨-, hx, hact⟩, rfl⟩ := hs
    cases ok with
    | true => exact absurd (hact rfl) (h.requests x hx)
    | false =>
      have h' : Parted (answered s x) n := by
        refine ⟨h.failures, h.expire, h.lookup, h.reading, ?_, h.told, h.known⟩
        intro y hy
        exact h.requests y (List.mem_filter.mp hy).1
      refine ⟨?_, rfl, rfl⟩
      unfold onConnect
      rw [if_pos Bool.false_ne_true]
      split
      · exact h'.close
      · exact h'
  | read x c w now =>
    cases c with
    | none =>
      simp only [Lined.bare, Client.step, h.reading, Option.ite_none_right_eq_some] at hs
      cases hs.1.2
    | some c =>
      simp only [Lined.bare, Client.step, h.reading, Option.ite_none_right_eq_some] at hs
      cases hs.1.2
  | closed x now =>
    simp only [Lined.bare, Client.step, Option.ite_none_right_eq_some, Option.some.injEq] at hs
    rw [← hs.2]
    exact ⟨h.ended x now, rfl, rfl⟩

/-- A client whose pending work is gone, at a disconnect. -/
theorem parted_disconnect (hl : s.loop.lookup = false)
    (hread : ∀ h ∈ s.loop.reading, closable s h)
    (hreq : ∀ h ∈ s.loop.requests, h ∈ s.loop.active → closable s h) :
    Parted (disconnect s).2 s.told.length := by
  have hnone : ∀ m ∈ s.told.drop s.told.length, m = Notice.onClose (-1) := by
    intro m hm
    rw [List.drop_length] at hm
    cases hm
  -- where nothing is closed, nothing was closable
  have hkeep (hno : ∀ h, ¬ closable s h) :
      Parted { s with keepAlive := 0, expire := 0, failures := -1 } s.told.length := by
    refine ⟨rfl, rfl, hl, ?_, ?_, hnone, Nat.le_refl _⟩
    · exact List.eq_nil_iff_forall_not_mem.mpr fun h hh => hno h (hread h hh)
    · intro h hh hact
      exact hno h (hreq h hh hact)
  unfold disconnect Client.close
  dsimp only
  split
  · rename_i hst
    exact hkeep fun h hc => hc.2.1 hst
  · split
    · rename_i hsock
      apply hkeep
      intro h hc
      cases hsock.symm.trans hc.1
    · rename_i x hsock
      split
      · rename_i hst
        exact hkeep fun h hc => hc.2.2.1 hst
      · dsimp only
        split
        · rename_i hcl
          have hnot : ∀ h, ¬ closable s h := by
            intro h hc
            cases hsock.symm.trans hc.1
            exact hc.2.2.2 hcl
          have h' := hkeep hnot
          exact ⟨rfl, rfl, hl, h'.reading, h'.requests, hnone, Nat.le_refl _⟩
        · refine ⟨rfl, rfl, hl, ?_, ?_, hnone, Nat.le_refl _⟩
          · apply List.filter_eq_nil_iff.mpr
            intro h hh
            cases hsock.symm.trans (hread h hh).1
            simp
          · intro h hh hact
            obtain ⟨hact, hne⟩ := List.mem_filter.mp hact
            cases hsock.symm.trans (hreq h hh hact).1
            simp at hne

/-- What holds of a run whose disconnects meet the condition. -/
structure Inv (x : Lined) : Prop where
  parted : ∀ q ∈ x.quit, Parted x.client q.1
  logins : ∀ q ∈ x.quit, x.logins = q.2
  rest : x.quit ≠ none → ∀ l ∈ x.rest, welcome l = false

theorem Inv.final {x : Lined} (h : Inv x) : Final x := by
  intro q hq
  exact ⟨h.logins q hq, (h.parted q hq).told⟩

theorem inv_line {x x' : Lined} {now : Nat} (h : Inv x)
    (hs : Lined.step x (.line now) = some x') : Inv x' := by
  unfold Lined.step at hs
  cases hr : x.rest with
  | nil =>
    simp only [hr] at hs
    cases hs
  | cons l rest =>
    simp only [hr, Option.some.injEq] at hs
    subst hs
    constructor
    · intro q hq
      have hl := h.rest (by rw [show x.quit = some q from hq]; exact Option.some_ne_none q) l
        (by rw [hr]; exact List.mem_cons_self ..)
      exact ((h.parted q hq).takeLine now hl).1
    · exact h.logins
    · intro hq l' hl'
      have hrest := h.rest hq
      rw [hr] at hrest
      obtain ⟨q, hq'⟩ := Option.ne_none_iff_exists'.mp hq
      have hmore := ((h.parted q hq').takeLine now (hrest l (List.mem_cons_self ..))).2
      rw [hmore] at hl'
      exact hrest l' (List.mem_cons_of_mem _ hl')

theorem inv_call {x x' : Lined} {e : Client.Event} (h : Inv x) (hok : Ok x (.call e))
    (hs : Lined.step x (.call e) = some x') : Inv x' := by
  simp only [Lined.step, Option.ite_none_right_eq_some, Option.map_eq_some_iff] at hs
  obtain ⟨-, s', hs, rfl⟩ := hs
  by_cases hc : ∃ cached now, e = .connect cached now
  · obtain ⟨cached, now, rfl⟩ := hc
    constructor
    · intro q hq
      cases hq
    · intro q hq
      cases hq
    · intro hq
      exact absurd rfl hq
  have hc' : ∀ cached now, e ≠ .connect cached now := fun cached now he => hc ⟨cached, now, he⟩
  have hstep {n : Nat} (hp : Parted x.client n) := parted_step hp hs hc'
  by_cases hd : e = .disconnect ∧ x.quit = none
  · obtain ⟨rfl, hq⟩ := hd
    obtain ⟨hl, hread, hreq, hrest⟩ := hok
    simp only [Lined.bare, Client.step, Option.ite_none_right_eq_some, Option.some.injEq] at hs
    constructor
    · intro q hq'
      simp only [Lined.mark, hq, Option.getD_none, Option.mem_some_iff] at hq'
      subst hq'
      rw [← hs.2]
      exact parted_disconnect hl hread hreq
    · intro q hq'
      simp only [Lined.mark, hq, Option.getD_none, Option.mem_some_iff] at hq'
      subst hq'
      rfl
    · intro _
      exact hrest
  · -- the disconnect that counts was earlier
    have hmark : Lined.mark x e = x.quit := by
      cases e with
      | connect cached now => exact absurd rfl (hc' cached now)
      | disconnect =>
        cases hq : x.quit with
        | none => exact absurd ⟨rfl, hq⟩ hd
        | some q =>
          unfold Lined.mark
          rw [hq]
          rfl
      | _ => rfl
    constructor
    · intro q hq
      rw [hmark] at hq
      exact (hstep (h.parted q hq)).1
    · intro q hq
      rw [hmark] at hq
      show x.logins + _ = q.2
      rw [(hstep (h.parted q hq)).2.1]
      exact h.logins q hq
    · intro hq
      rw [hmark] at hq
      obtain ⟨q, hq'⟩ := Option.ne_none_iff_exists'.mp hq
      show ∀ l ∈ Lined.brought x.client e ++ x.rest, welcome l = false
      rw [(hstep (h.parted q hq')).2.2]
      exact h.rest hq

theorem inductive_inv (c : Config) : ((lts c).restrict Ok).Inductive Inv where
  init x hx := by
    cases hx
    constructor
    · intro q hq
      cases hq
    · intro q hq
      cases hq
    · intro hq
      exact absurd rfl hq
  step x e x' h hs := by
    cases e with
    | call e => exact inv_call h hs.1 hs.2
    | line now => exact inv_line h hs.2

end Stratum

/-! ## The daemon client -/

namespace Daemon

open DaemonLife

def Final (s : DaemonLife) : Prop := ∀ q ∈ s.quit, ∀ n ∈ s.told.drop q, n = .onClose (-1)

/-- The condition on a step: at a disconnect nothing is on its way, and if the client
was not connected no timer runs that asks the daemon; the listener does not disconnect
the client from inside `onLoginSuccess`; nothing is submitted after a disconnect. -/
def Ok (s : DaemonLife) : DaemonLife.Event → Prop
  | .disconnect =>
    s.requests = 0 ∧ s.dns = false ∧ s.connecting = [] ∧ s.reading = [] ∧
      (s.state = .UnconnectedState → s.timer = true → s.zmqPort < 0)
  | .http (.job leaves) => s.state = .ConnectingState → leaves = false
  | .submit => s.quit = none
  | _ => True

instance (s : DaemonLife) (e : DaemonLife.Event) : Decidable (Ok s e) := by
  unfold Ok
  split <;> infer_instance

def lts (zmqPort : Int) : LTS DaemonLife DaemonLife.Event :=
  LTS.ofFn { zmqPort := zmqPort } step

/-- Nothing that could call back, or the callback finds nothing to do. -/
structure Idle (s : DaemonLife) (n : Nat) : Prop where
  state : s.state = .UnconnectedState
  requests : s.requests = 0
  dns : s.dns = false
  connecting : s.connecting = []
  reading : s.reading = []
  timer : s.timer = true → s.zmqPort < 0
  told : s.told.drop n = []

theorem Idle.remove {s : DaemonLife} {n : Nat} (h : Idle s n) : Idle (remove s) n := by
  have hfree : s.toZmqLink.free.connecting = s.connecting ∧
      s.toZmqLink.free.reading = s.reading := by
    unfold ZmqLink.free
    split <;> exact ⟨rfl, rfl⟩
  refine ⟨h.state, h.requests, rfl, hfree.1.trans h.connecting, hfree.2.trans h.reading, ?_, h.told⟩
  intro ht
  cases ht

theorem Idle.uvClose {s : DaemonLife} {n : Nat} (h : Idle s n) :
    Idle (onLink s (·.uvClose true)) n := by
  have hlink : (s.toZmqLink.uvClose true).connecting = [] ∧
      (s.toZmqLink.uvClose true).reading = [] := by
    unfold ZmqLink.uvClose
    split
    · exact ⟨h.connecting, h.reading⟩
    · refine ⟨h.connecting, ?_⟩
      dsimp only
      rw [h.reading]
      rfl
  exact ⟨h.state, h.requests, h.dns, hlink.1, hlink.2, h.timer, h.told⟩

/-- **Only a connect** takes a client out of it. -/
theorem idle_step {s s' : DaemonLife} {e : DaemonLife.Event} {n : Nat} (h : Idle s n)
    (hs : step s e = some s') (he : ∀ ok cached, e ≠ .connect ok cached) (hsub : e ≠ .submit) :
    Idle s' n := by
  cases e with
  | connect ok cached => exact absurd rfl (he ok cached)
  | submit => exact absurd rfl hsub
  | disconnect =>
    simp only [step, Option.ite_none_right_eq_some, Option.some.injEq] at hs
    rw [← hs.2, disconnect, if_pos h.state]
    exact ⟨h.state, h.requests, h.dns, h.connecting, h.reading, h.timer, h.told⟩
  | deleteLater =>
    simp only [step, Option.ite_none_right_eq_some, Option.some.injEq] at hs
    rw [← hs.2]
    have h' : Idle { s with zmq := { s.zmq with state := .DISCONNECTING } } n :=
      ⟨h.state, h.requests, h.dns, h.connecting, h.reading, h.timer, h.told⟩
    unfold deleteLater
    split
    · unfold shutdown
      split
      · exact h.remove
      · dsimp only
        split
        · exact h'
        · exact h'.uvClose
    · exact h.remove
  | timer ok cached =>
    simp only [step, Option.ite_none_right_eq_some, Option.some.injEq] at hs
    obtain ⟨⟨-, ht⟩, rfl⟩ := hs
    have hp := h.timer ht
    unfold onTimer
    dsimp only
    rw [if_neg (by omega), if_neg (by rw [h.state]; decide), if_neg (by rw [h.state]; decide)]
    exact ⟨h.state, h.requests, h.dns, h.connecting, h.reading, fun _ => hp, h.told⟩
  | http r =>
    simp only [step, h.requests, Option.ite_none_right_eq_some] at hs
    exact absurd hs.1.2 (Nat.lt_irrefl 0)
  | resolved ok =>
    simp only [step, h.dns, Option.ite_none_right_eq_some] at hs
    exact absurd hs.1.2 Bool.false_ne_true
  | connected x ok w =>
    simp only [step, h.connecting, Option.ite_none_right_eq_some] at hs
    cases hs.1.2.1
  | read x c =>
    simp only [step, h.reading, Option.ite_none_right_eq_some] at hs
    cases hs.1.2
  | closed x b =>
    simp only [step, Option.ite_none_right_eq_some, Option.some.injEq] at hs
    rw [← hs.2]
    have h' : Idle { onLink s (·.finished x b) with
        zmq := { s.zmq with state := .NOT_CONNECTED } } n :=
      ⟨h.state, h.requests, h.dns, h.connecting, h.reading, h.timer, h.told⟩
    unfold onZMQClose
    cases b with
    | true => exact h'.remove
    | false => exact h'

theorem idle_disconnect {s : DaemonLife} (h : Ok s .disconnect) :
    Idle (disconnect s) s.told.length := by
  obtain ⟨hreq, hdns, hconn, hread, htimer⟩ := h
  unfold disconnect
  dsimp only
  split
  · rename_i hst
    exact ⟨hst, hreq, hdns, hconn, hread, htimer hst, List.drop_length⟩
  · refine ⟨rfl, hreq, hdns, hconn, hread, ?_, List.drop_length⟩
    intro ht
    cases ht

theorem disconnect_quit (s : DaemonLife) :
    (disconnect s).quit = some (s.quit.getD s.told.length) := by
  unfold disconnect
  dsimp only
  split <;> rfl

/-! `quit` is set by `disconnect` alone. -/

@[simp] theorem retry_quit (s : DaemonLife) : (retry s).quit = s.quit := by
  unfold retry DaemonLife.tell
  dsimp only
  split
  · rfl
  · split <;> split <;> rfl

@[simp] theorem applied_quit (s : DaemonLife) (z : Zmq) : (applied s z).quit = s.quit := by
  unfold applied
  split
  · exact retry_quit _
  · rfl

@[simp] theorem onResolved_quit (s : DaemonLife) (ok : Bool) : (onResolved s ok).quit = s.quit := by
  unfold onResolved
  dsimp only
  split
  · exact retry_quit _
  · split <;> rfl

@[simp] theorem connect_quit (s : DaemonLife) (ok : Bool) (cached : Option Bool) :
    (connect s ok cached).quit = s.quit := by
  unfold connect
  dsimp only
  split
  · exact retry_quit _
  · split
    · cases cached with
      | none => rfl
      | some a => exact onResolved_quit _ a
    · rfl

theorem deleteLater_quit (s : DaemonLife) : (deleteLater s).quit = s.quit := by
  unfold deleteLater shutdown
  split
  · split
    · rfl
    · dsimp only
      split <;> rfl
  · rfl

theorem onTimer_quit (s : DaemonLife) (ok : Bool) (cached : Option Bool) :
    (onTimer s ok cached).quit = s.quit := by
  unfold onTimer
  dsimp only
  split
  · rfl
  · split
    · exact connect_quit _ ok cached
    · split <;> rfl

theorem onZMQConnect_quit (s : DaemonLife) (ok w : Bool) : (onZMQConnect s ok w).quit = s.quit := by
  unfold onZMQConnect
  split
  · exact retry_quit s
  · dsimp only
    split <;> exact applied_quit _ _

theorem onZMQRead_quit (s : DaemonLife) (c : Option (Bytes × Zmq.Writes)) :
    (onZMQRead s c).quit = s.quit := by
  cases c with
  | none => exact applied_quit s _
  | some p =>
    unfold onZMQRead
    dsimp only
    split <;> exact applied_quit _ _

theorem onHttpData_quit {s : DaemonLife} {r : Reply}
    (hok : ∀ leaves, r = .job leaves → s.state = .ConnectingState → leaves = false) :
    (onHttpData s r).quit = s.quit := by
  cases r with
  | failed => exact retry_quit s
  | nothing => rfl
  | again => rfl
  | job leaves =>
    unfold onHttpData DaemonLife.tell
    dsimp only
    split
    · rename_i hst
      rw [hok leaves rfl hst]
      unfold setConnected
      split <;> rfl
    · rfl

theorem quit_step {s s' : DaemonLife} {e : DaemonLife.Event} (hok : Ok s e)
    (hs : step s e = some s') (he : ∀ ok cached, e ≠ .connect ok cached) (hd : e ≠ .disconnect) :
    s'.quit = s.quit := by
  cases e with
  | connect ok cached => exact absurd rfl (he ok cached)
  | disconnect => exact absurd rfl hd
  | deleteLater =>
    simp only [step, Option.ite_none_right_eq_some, Option.some.injEq] at hs
    rw [← hs.2, deleteLater_quit]
  | submit =>
    simp only [step, Option.ite_none_right_eq_some, Option.some.injEq] at hs
    rw [← hs.2]
  | timer ok cached =>
    simp only [step, Option.ite_none_right_eq_some, Option.some.injEq] at hs
    rw [← hs.2, onTimer_quit]
  | http r =>
    simp only [step, Option.ite_none_right_eq_some, Option.some.injEq] at hs
    rw [← hs.2, onHttpData_quit]
    intro leaves hr hst
    subst hr
    exact hok hst
  | resolved ok =>
    simp only [step, Option.ite_none_right_eq_some, Option.some.injEq] at hs
    rw [← hs.2, onResolved_quit]
  | connected x ok w =>
    simp only [step, Option.ite_none_right_eq_some, Option.some.injEq] at hs
    rw [← hs.2, onZMQConnect_quit]
    rfl
  | read x c =>
    simp only [step, Option.ite_none_right_eq_some, Option.some.injEq] at hs
    rw [← hs.2, onZMQRead_quit]
  | closed x b =>
    simp only [step, Option.ite_none_right_eq_some, Option.some.injEq] at hs
    rw [← hs.2]
    cases b <;> rfl

/-- What holds of a run whose steps meet the condition. -/
def Inv (s : DaemonLife) : Prop := ∀ q ∈ s.quit, Idle s q

theorem inv_step {s s' : DaemonLife} {e : DaemonLife.Event} (h : Inv s) (hok : Ok s e)
    (hs : step s e = some s') : Inv s' := by
  by_cases hc : ∃ ok cached, e = .connect ok cached
  · obtain ⟨ok, cached, rfl⟩ := hc
    simp only [step, Option.ite_none_right_eq_some, Option.some.injEq] at hs
    intro q hq
    rw [← hs.2, connect_quit] at hq
    cases hq
  have hc' : ∀ ok cached, e ≠ .connect ok cached := fun ok cached he => hc ⟨ok, cached, he⟩
  intro q hq
  cases hquit : s.quit with
  | none =>
    by_cases hd : e = .disconnect
    · subst hd
      simp only [step, Option.ite_none_right_eq_some, Option.some.injEq] at hs
      rw [← hs.2, disconnect_quit, hquit] at hq
      cases hq
      rw [← hs.2]
      exact idle_disconnect hok
    · rw [quit_step hok hs hc' hd, hquit] at hq
      cases hq
  | some q' =>
    have hidle := h q' hquit
    have hsub : e ≠ .submit := by
      intro he
      subst he
      cases hquit.symm.trans hok
    have hq' : q' = q := by
      by_cases hd : e = .disconnect
      · subst hd
        simp only [step, Option.ite_none_right_eq_some, Option.some.injEq] at hs
        rw [← hs.2, disconnect_quit, hquit] at hq
        exact Option.some.inj hq
      · rw [quit_step hok hs hc' hd, hquit] at hq
        exact Option.some.inj hq
    rw [← hq']
    exact idle_step hidle hs hc' hsub

theorem inductive_inv (zmqPort : Int) : ((lts zmqPort).restrict Ok).Inductive Inv where
  init s hs := by
    cases hs
    intro q hq
    cases hq
  step _ _ _ h hs := inv_step h hs.1 hs.2

theorem Inv.final {s : DaemonLife} (h : Inv s) : Final s := by
  intro q hq n hn
  rw [(h q hq).told] at hn
  cases hn

end Daemon

/-- **Disconnect is final**, for a stratum client of any pool and a daemon client with
any ZMQ port, in every run whose steps meet the condition. -/
theorem disconnect_final (c : Client.Config) (p : Int) :
    (∀ x, ((lts c).restrict Ok).Reachable x → Final x) ∧
    ∀ s, ((Daemon.lts p).restrict Daemon.Ok).Reachable s → Daemon.Final s := by
  constructor
  · intro x h
    exact ((inductive_inv c).reachable h).final
  · intro s h
    exact ((Daemon.inductive_inv p).reachable h).final

/-- A connection that is up, a disconnect, and the close callback. -/
def hangUp : List Lined.Event :=
  [.call (.connect none 0), .call (.resolved true 10), .call (.connected 0 true .sent 20),
    .call .disconnect, .call (.closed 0 30), .call (.tick none .sent 60000)]

/-- A job, and a disconnect after it. -/
def hangUpDaemon : List DaemonLife.Event :=
  [.connect true none, .http (.job false), .disconnect]

theorem disconnect_final_hangUp :
    (∃ x, ((lts {}).restrict Ok).Reachable x ∧ x.quit = some (0, 1) ∧
      x.client.told = [.onClose (-1)] ∧ Final x) ∧
    ∃ s, ((Daemon.lts (-1)).restrict Daemon.Ok).Reachable s ∧ s.quit = some 2 ∧
      Daemon.Final s := by
  constructor
  · obtain ⟨x, hx⟩ : ∃ x, LTS.execOk Lined.step Ok { client := Client.init {} } hangUp = some x :=
      Option.isSome_iff_exists.mp (by decide)
    have he : (LTS.execOk Lined.step Ok { client := Client.init {} } hangUp).map
        (fun x => (x.quit, x.client.told)) = some (some (0, 1), [.onClose (-1)]) := by decide
    simp only [hx, Option.map_some, Option.some.injEq, Prod.mk.injEq] at he
    have hr : ((lts {}).restrict Ok).Reachable x := LTS.reachable_of_execOk hx
    exact ⟨x, hr, he.1, he.2, (disconnect_final {} (-1)).1 x hr⟩
  · obtain ⟨s, hs⟩ : ∃ s, LTS.execOk DaemonLife.step Daemon.Ok { zmqPort := -1 } hangUpDaemon =
        some s := Option.isSome_iff_exists.mp (by decide)
    have he : (LTS.execOk DaemonLife.step Daemon.Ok { zmqPort := -1 } hangUpDaemon).map
        (·.quit) = some (some 2) := by decide
    simp only [hs, Option.map_some, Option.some.injEq] at he
    have hr : ((Daemon.lts (-1)).restrict Daemon.Ok).Reachable s := LTS.reachable_of_execOk hs
    exact ⟨s, hr, he, (disconnect_final {} (-1)).2 s hr⟩

/-- A disconnect while the lookup is pending; the answer, the connect, and the login. -/
def lookedUp : List Lined.Event :=
  [.call (.connect none 0), .call .disconnect, .call (.resolved true 10),
    .call (.connected 0 true .sent 20),
    .call (.read 0 (some { lines := [.login (some false) true true] }) .sent 30), .line 30,
    .line 30]

/-- A disconnect from inside `onLoginSuccess`. -/
def fromInside : List Lined.Event :=
  [.call (.connect none 0), .call (.resolved true 10), .call (.connected 0 true .sent 20),
    .call (.read 0 (some { lines := [.login (some false) true true] }) .sent 30), .line 30,
    .call .disconnect, .line 30]

/-- A disconnect while the daemon has not answered. -/
def unanswered : List DaemonLife.Event := [.connect true none, .disconnect, .http .failed]

/-- A stratum client logs in after the disconnect, or delivers a job; a daemon client
reports a failure count of 0. -/
theorem disconnect_final_fails :
    (¬ ∀ x, (lts {}).Reachable x → Final x) ∧ (¬ ∀ s, (Daemon.lts (-1)).Reachable s →
      Daemon.Final s) ∧
    (LTS.exec Lined.step { client := Client.init {} } lookedUp).map
        (fun x => (x.quit, x.logins, x.client.told)) =
      some (some (0, 0), 1, [.onLoginSuccess, .onJobReceived]) ∧
    (LTS.exec Lined.step { client := Client.init {} } fromInside).map
        (fun x => (x.quit, x.logins, x.client.told)) =
      some (some (1, 1), 1, [.onLoginSuccess, .onJobReceived]) ∧
    (LTS.exec DaemonLife.step { zmqPort := -1 } unanswered).map (fun s => (s.quit, s.told)) =
      some (some 0, [.onClose 0]) := by
  refine ⟨?_, ?_, by decide, by decide, by decide⟩
  · intro h
    obtain ⟨x, hx⟩ : ∃ x, LTS.exec Lined.step { client := Client.init {} } lookedUp = some x :=
      Option.isSome_iff_exists.mp (by decide)
    have he : (LTS.exec Lined.step { client := Client.init {} } lookedUp).map
        (fun x => (x.quit, x.logins)) = some (some (0, 0), 1) := by decide
    simp only [hx, Option.map_some, Option.some.injEq, Prod.mk.injEq] at he
    have hlogins := (h x (LTS.reachable_of_exec hx) (0, 0) he.1).1
    rw [he.2] at hlogins
    cases hlogins
  · intro h
    obtain ⟨s, hs⟩ : ∃ s, LTS.exec DaemonLife.step { zmqPort := -1 } unanswered = some s :=
      Option.isSome_iff_exists.mp (by decide)
    have he : (LTS.exec DaemonLife.step { zmqPort := -1 } unanswered).map
        (fun s => (s.quit, s.told)) = some (some 0, [.onClose 0]) := by decide
    simp only [hs, Option.map_some, Option.some.injEq, Prod.mk.injEq] at he
    have htold := h s (LTS.reachable_of_exec hs) 0 he.1 (.onClose 0)
    rw [he.2] at htold
    cases htold (List.mem_singleton.mpr rfl)

end Rxs.L3.Disconnect
