import Mathlib.Data.Int.Init
import Rxs.Core.LTS

/-!
# One request

`HttpClient` asks for the address of a host, connects, writes the request and reads
the reply; `close` ends all of it. It deletes itself in the close callback of its
socket. The timer, if the request has a timeout, fires once.

What the reply parser makes of a read are the messages it completes, each with its
status code, and whether it goes on. `connect` has the resolver's answer if that has
one at once. A connect request is answered before the close callback.

* `step`: one event; `none` if the loop cannot cause it now.
* `Complete`: what is asked of a request.
* `inv_step`: what every event keeps.
* **`complete`**: every request completes once if a failed lookup, and a connection
  refused at once, come to a request with a timer.
* `complete_fails`: a failed lookup without a timer.
-/
namespace Rxs

open Rxs.Core

/-- Codes of the event loop. -/
def UV_ETIMEDOUT : Int := -110
def UV_ECANCELED : Int := -125
def UV_EPROTO : Int := -71

/-- `listener`: `m_listener` was not reset; `alive`: the listener is still there;
`stored`: the context is in the table of contexts. `called`, `timer`, `dns`,
`connecting`, `reading` and `closing` are what the event loop has for it. Ghost:
`told` are the statuses the listener was called with. -/
structure HttpClient where
  timeout : Nat := 0
  status : Int := 0
  listener : Bool := true
  alive : Bool := true
  stored : Bool := true
  called : Bool := false
  timer : Bool := false
  dns : Bool := false
  connecting : Bool := false
  reading : Bool := false
  closing : Bool := false
  destroyed : Bool := false
  told : List Int := []
  deriving DecidableEq, Repr

namespace HttpClient

/-- mirrors src/base/net/http/HttpClient.cpp:44-57 -/
def init (timeout : Nat) : HttpClient := { timeout := timeout, timer := timeout ≠ 0 }

/-- What the resolver returned: a failure, or a host, and what `uv_tcp_connect`
returns for it. -/
structure Lookup where
  status : Int
  isEmpty : Bool
  rc : Int := 0
  deriving DecidableEq, Repr

def tell (s : HttpClient) (status : Int) : HttpClient :=
  { s with status := status, told := s.told ++ [status] }

/-- mirrors src/base/net/http/HttpContext.cpp:155-173 -/
def close (s : HttpClient) (status : Int) : HttpClient :=
  if ¬ s.stored then s
  else
    let s := if status < 0 ∧ s.listener ∧ s.alive then tell s status else s
    { s with stored := false, closing := true, reading := false }

/-- Nothing calls back a connection that is refused at once.
mirrors src/base/net/http/HttpClient.cpp:68-85 -/
def onResolved (s : HttpClient) (a : Lookup) : HttpClient :=
  let s := { s with status := a.status, dns := false }
  if a.status < 0 ∧ a.isEmpty then s
  else if a.rc = 0 then { s with connecting := true }
  else s

/-- mirrors src/base/net/http/HttpClient.cpp:60-65 -/
def connect (s : HttpClient) (cached : Option Lookup) : HttpClient :=
  let s := { s with called := true }
  match cached with
  | some a => onResolved s a
  | none => { s with dns := true }

/-- mirrors src/base/net/http/HttpClient.cpp:88-91 -/
def onTimer (s : HttpClient) : HttpClient := close { s with timer := false } UV_ETIMEDOUT

/-- The request is written by `handshake`; whether it could be is not looked at.
mirrors src/base/net/http/HttpClient.cpp:128-168 -/
def onConnect (s : HttpClient) (status : Int) : HttpClient :=
  let s := { s with connecting := false }
  if status < 0 then close s (if status = UV_ECANCELED then UV_ETIMEDOUT else status)
  else { s with reading := true }

/-- A message is complete.
mirrors src/base/net/http/HttpContext.cpp:266-277 -/
def onMessageComplete (s : HttpClient) (code : Nat) : HttpClient :=
  let s := { s with status := code }
  if s.listener ∧ s.alive then { tell s code with listener := false } else s

/-- mirrors src/base/net/http/HttpClient.cpp:120-125 and
src/base/net/http/HttpContext.cpp:121-128 -/
def read (s : HttpClient) (messages : List Nat) (ok : Bool) : HttpClient :=
  let s := messages.foldl onMessageComplete s
  if ok then s else close s UV_EPROTO

inductive Event where
  | connect (cached : Option Lookup)
  | onResolved (a : Lookup)
  | onTimer
  | onConnect (status : Int)
  | read (messages : List Nat) (ok : Bool)
  | readError (nread : Int)
  | closed
  | expire
  deriving DecidableEq, Repr

def step (s : HttpClient) : Event → Option HttpClient
  | .connect cached => if s.called then none else some (connect s cached)
  | .onResolved a => if s.dns ∧ ¬ s.destroyed then some (onResolved s a) else none
  | .onTimer => if s.timer ∧ ¬ s.destroyed then some (onTimer s) else none
  | .onConnect status =>
    if s.connecting ∧ ¬ s.destroyed ∧ (s.closing → status < 0) then some (onConnect s status) else none
  | .read messages ok => if s.reading then some (read s messages ok) else none
  | .readError nread => if s.reading ∧ nread < 0 then some (close s nread) else none
  | .closed =>
    if s.closing ∧ ¬ s.connecting then some { s with closing := false, destroyed := true } else none
  | .expire => some { s with alive := false }

/-- A request, from its construction on. -/
def lts (timeout : Nat) : LTS HttpClient Event := .ofFn (init timeout) step

end HttpClient

namespace L3.HttpClient

open Rxs.HttpClient

/-! ## What is asked of a request -/

/-- Something will still call the context. -/
def Pending (s : HttpClient) : Prop :=
  s.dns = true ∨ s.connecting = true ∨ s.reading = true ∨ s.timer = true

/-- The listener, if it is still there, is called at most once, before the context is
destroyed, and as long as it was not called something will. -/
structure Complete (s : HttpClient) : Prop where
  once : s.told.length ≤ 1
  before : s.destroyed = true → s.alive = true → s.told.length = 1
  pending : s.called = true → s.alive = true → s.told = [] → Pending s ∧ s.destroyed = false

/-- The lookup gave no connection that will call back. -/
def Fails (a : Lookup) : Prop := a.status < 0 ∧ a.isEmpty = true ∨ a.rc ≠ 0

/-- A lookup that fails, or a connection refused at once, comes to a request with a
timer that has not fired. -/
def Ok (s : HttpClient) : HttpClient.Event → Prop
  | .connect (some a) => Fails a → s.timer = true
  | .onResolved a => Fails a → s.timer = true
  | _ => True

/-! ## What every event keeps -/

/-- The listener was called once when the context is gone or the listener reset, and
not before. -/
structure Told (s : HttpClient) : Prop where
  once : s.told.length ≤ 1
  heard : s.told ≠ [] → s.listener = false ∨ s.stored = false
  unheard : s.alive = true → s.told = [] → s.listener = true ∧ s.stored = true
  stored : s.stored = true → s.closing = false ∧ s.destroyed = false
  reading : s.stored = false → s.reading = false
  gone : s.stored = false → s.closing = true ∨ s.destroyed = true

/-- As long as the context is there something will call it. -/
def Waiting (s : HttpClient) : Prop := s.called = true → s.stored = true → Pending s

theorem told_init (timeout : Nat) : Told (init timeout) :=
  ⟨Nat.zero_le _, fun h => absurd rfl h, fun _ _ => ⟨rfl, rfl⟩, fun _ => ⟨rfl, rfl⟩, nofun, nofun⟩

theorem tell_ne_nil (s : HttpClient) (status : Int) : (tell s status).told ≠ [] :=
  List.append_ne_nil_of_right_ne_nil _ (List.cons_ne_nil _ _)

/-- A listener that may be called was not. -/
theorem Told.nil {s : HttpClient} (h : Told s) (hl : s.listener = true) (hs : s.stored = true) :
    s.told = [] := by
  by_contra hne
  rcases h.heard hne with hf | hf
  · rw [hl] at hf
    cases hf
  · rw [hs] at hf
    cases hf

/-- After `close` the context is gone, and its listener, if it is still there, was
called. -/
theorem told_close {s : HttpClient} (h : Told s) {status : Int} (hneg : status < 0) :
    Told (close s status) ∧ (close s status).stored = false := by
  unfold close
  by_cases hs : s.stored = true
  · rw [if_neg (not_not.mpr hs)]
    by_cases hl : status < 0 ∧ s.listener = true ∧ s.alive = true
    · simp only [if_pos hl]
      refine ⟨⟨?_, fun _ => .inr rfl, fun _ hn => absurd hn (tell_ne_nil s status), nofun,
        fun _ => rfl, fun _ => .inl rfl⟩, trivial⟩
      show (s.told ++ [status]).length ≤ 1
      rw [h.nil hl.2.1 hs]
      exact Nat.le_refl 1
    · simp only [if_neg hl]
      refine ⟨⟨h.once, fun _ => .inr rfl, fun ha hn => ?_, nofun, fun _ => rfl,
        fun _ => .inl rfl⟩, trivial⟩
      exact absurd ⟨hneg, (h.unheard ha hn).1, ha⟩ hl
  · rw [if_pos hs]
    exact ⟨h, Bool.not_eq_true _ |>.mp hs⟩

theorem told_onMessageComplete {s : HttpClient} (h : Told s) (hs : s.stored = true) (code : Nat) :
    let s' := onMessageComplete s code
    Told s' ∧ s'.stored = true ∧ s'.reading = s.reading := by
  unfold onMessageComplete
  by_cases hl : s.listener = true ∧ s.alive = true
  · simp only [if_pos hl]
    refine ⟨⟨?_, fun _ => .inl rfl, fun _ hn => absurd hn (tell_ne_nil _ _), h.stored, h.reading,
      h.gone⟩, hs, rfl⟩
    show (s.told ++ [(code : Int)]).length ≤ 1
    rw [h.nil hl.1 hs]
    exact Nat.le_refl 1
  · simp only [if_neg hl]
    exact ⟨⟨h.once, h.heard, h.unheard, h.stored, h.reading, h.gone⟩, hs, trivial⟩

/-- All messages of a read. -/
theorem told_messages {s : HttpClient} (h : Told s) (hs : s.stored = true) (messages : List Nat) :
    let s' := messages.foldl onMessageComplete s
    Told s' ∧ s'.stored = true ∧ s'.reading = s.reading := by
  induction messages generalizing s with
  | nil => exact ⟨h, hs, rfl⟩
  | cons code messages ih =>
    obtain ⟨h', hs', hr'⟩ := told_onMessageComplete h hs code
    obtain ⟨h'', hs'', hr''⟩ := ih h' hs'
    exact ⟨h'', hs'', hr''.trans hr'⟩

/-- The context is gone, so that nothing need call it. -/
theorem waiting_of_gone {s : HttpClient} (h : s.stored = false) : Waiting s := by
  intro _ hs
  rw [h] at hs
  cases hs

theorem waiting_onResolved {s : HttpClient} {a : Lookup} (hok : Fails a → s.timer = true) :
    Waiting (onResolved s a) := by
  intro _ _
  unfold onResolved
  by_cases hf : a.status < 0 ∧ a.isEmpty = true
  · simp only [if_pos hf]
    exact .inr (.inr (.inr (hok (.inl hf))))
  · simp only [if_neg hf]
    by_cases hrc : a.rc = 0
    · rw [if_pos hrc]
      exact .inr (.inl rfl)
    · rw [if_neg hrc]
      exact .inr (.inr (.inr (hok (.inr hrc))))

theorem told_onResolved {s : HttpClient} (h : Told s) (a : Lookup) : Told (onResolved s a) := by
  have h' : Told { s with status := a.status, dns := false } :=
    ⟨h.once, h.heard, h.unheard, h.stored, h.reading, h.gone⟩
  unfold onResolved
  simp only
  split
  · exact h'
  · split
    · exact ⟨h.once, h.heard, h.unheard, h.stored, h.reading, h.gone⟩
    · exact h'

theorem told_step {s s' : HttpClient} {e : HttpClient.Event} (h : Told s) (hw : Waiting s) (hok : Ok s e)
    (hs : step s e = some s') : Told s' ∧ Waiting s' := by
  cases e with
  | connect cached =>
    simp only [step] at hs
    split at hs
    · cases hs
    · cases hs
      have h' : Told { s with called := true } :=
        ⟨h.once, h.heard, h.unheard, h.stored, h.reading, h.gone⟩
      cases cached with
      | none =>
        refine ⟨⟨h.once, h.heard, h.unheard, h.stored, h.reading, h.gone⟩, fun _ _ => .inl rfl⟩
      | some a => exact ⟨told_onResolved h' a, waiting_onResolved hok⟩
  | onResolved a =>
    simp only [step] at hs
    split at hs
    · cases hs
      exact ⟨told_onResolved h a, waiting_onResolved hok⟩
    · cases hs
  | onTimer =>
    simp only [step] at hs
    split at hs
    · cases hs
      have h' : Told { s with timer := false } :=
        ⟨h.once, h.heard, h.unheard, h.stored, h.reading, h.gone⟩
      obtain ⟨ht, hgone⟩ := told_close h' (show UV_ETIMEDOUT < 0 by decide)
      exact ⟨ht, waiting_of_gone hgone⟩
    · cases hs
  | onConnect status =>
    simp only [step] at hs
    split at hs
    · rename_i hg
      cases hs
      have h' : Told { s with connecting := false } :=
        ⟨h.once, h.heard, h.unheard, h.stored, h.reading, h.gone⟩
      unfold onConnect
      by_cases hneg : status < 0
      · rw [if_pos hneg]
        have hneg' : (if status = UV_ECANCELED then UV_ETIMEDOUT else status) < 0 := by
          split
          · decide
          · exact hneg
        obtain ⟨ht, hgone⟩ := told_close h' hneg'
        exact ⟨ht, waiting_of_gone hgone⟩
      · rw [if_neg hneg]
        have hstored : s.stored = true := by
          -- a context that is gone is closing, and its connect request is cancelled
          by_contra hno
          rcases h.gone (Bool.not_eq_true _ |>.mp hno) with hc | hd
          · exact hneg (hg.2.2 hc)
          · exact hg.2.1 hd
        refine ⟨⟨h.once, h.heard, h.unheard, h.stored, fun hf => ?_, h.gone⟩,
          fun _ _ => .inr (.inr (.inl rfl))⟩
        have hf : s.stored = false := hf
        rw [hstored] at hf
        cases hf
    · cases hs
  | read messages ok =>
    simp only [step] at hs
    split at hs
    · rename_i hr
      cases hs
      have hstored : s.stored = true := by
        by_contra hno
        have := h.reading (Bool.not_eq_true _ |>.mp hno)
        rw [hr] at this
        cases this
      obtain ⟨hm, hsm, hrm⟩ := told_messages h hstored messages
      unfold HttpClient.read
      cases ok with
      | true =>
        refine ⟨hm, fun _ _ => .inr (.inr (.inl ?_))⟩
        exact hrm.trans hr
      | false =>
        obtain ⟨ht, hgone⟩ := told_close hm (show UV_EPROTO < 0 by decide)
        exact ⟨ht, waiting_of_gone hgone⟩
    · cases hs
  | readError nread =>
    simp only [step] at hs
    split at hs
    · rename_i hg
      cases hs
      obtain ⟨ht, hgone⟩ := told_close h hg.2
      exact ⟨ht, waiting_of_gone hgone⟩
    · cases hs
  | closed =>
    simp only [step] at hs
    split at hs
    · rename_i hg
      cases hs
      have hgone : s.stored = false := by
        by_contra hno
        have := (h.stored (Bool.not_eq_false _ |>.mp hno)).1
        rw [hg.1] at this
        cases this
      refine ⟨⟨h.once, h.heard, h.unheard, fun hs => ?_, h.reading, fun _ => .inr rfl⟩,
        waiting_of_gone hgone⟩
      have hs : s.stored = true := hs
      rw [hgone] at hs
      cases hs
    · cases hs
  | expire =>
    simp only [step] at hs
    cases hs
    exact ⟨⟨h.once, h.heard, fun ha => (by cases ha), h.stored, h.reading, h.gone⟩, hw⟩

/-! ## The law -/

theorem told_reachable {timeout : Nat} {s : HttpClient}
    (h : ((lts timeout).restrict Ok).Reachable s) :
    Told s ∧ Waiting s := by
  refine LTS.reachable_induction (P := fun s => Told s ∧ Waiting s) (fun s hs => ?_)
    (fun s e s' _ hi hs => ?_) h
  · cases hs
    exact ⟨told_init timeout, nofun⟩
  · exact told_step hi.1 hi.2 hs.1 hs.2

/-- **Every request completes once**: in every run in which a lookup that fails, or a
connection refused at once, comes to a request with a timer. -/
theorem complete {timeout : Nat} {s : HttpClient} (h : ((lts timeout).restrict Ok).Reachable s) :
    Complete s := by
  obtain ⟨ht, hw⟩ := told_reachable h
  refine ⟨ht.once, fun hd ha => ?_, fun hc ha hn => ?_⟩
  · have hne : s.told ≠ [] := by
      intro hn
      have := (ht.stored (ht.unheard ha hn).2).2
      rw [hd] at this
      cases this
    have := List.length_pos_iff.mpr hne
    have := ht.once
    omega
  · have hs := (ht.unheard ha hn).2
    exact ⟨hw hc hs, (ht.stored hs).2⟩

/-- A reply in two reads, and the end of the stream. -/
def reply : List HttpClient.Event :=
  [.connect none, .onResolved ⟨0, false, 0⟩, .onConnect 0, .read [] true, .read [200] true,
    .readError (-4095), .closed]

instance (a : Lookup) : Decidable (Fails a) := by
  unfold Fails
  infer_instance

instance (s : HttpClient) (e : HttpClient.Event) : Decidable (Ok s e) := by
  cases e with
  | connect cached => cases cached <;> (unfold Ok; infer_instance)
  | _ => unfold Ok; infer_instance

theorem complete_reply :
    ∃ s, LTS.execOk step Ok (init 0) reply = some s ∧ s.told = [200] ∧ Complete s := by
  obtain ⟨s, hs⟩ : ∃ s, LTS.execOk step Ok (init 0) reply = some s :=
    Option.isSome_iff_exists.mp (by decide)
  have he : (LTS.execOk step Ok (init 0) reply).map (·.told) = some [200] := by decide
  simp only [hs, Option.map_some, Option.some.injEq] at he
  have hr : ((lts 0).restrict Ok).Reachable s := LTS.reachable_of_execOk hs
  exact ⟨s, hs, he, complete hr⟩

/-- A failed lookup of a request without a timer. -/
theorem complete_fails : ¬ ∀ timeout s, (lts timeout).Reachable s → Complete s := by
  intro h
  have hrun : LTS.exec step (init 0) [.connect none, .onResolved ⟨-3008, true, 0⟩] =
      some { init 0 with called := true, status := -3008 } := by decide
  have hr : (lts 0).Reachable { init 0 with called := true, status := -3008 } :=
    LTS.reachable_of_exec hrun
  have hp := ((h 0 _ hr).pending rfl rfl rfl).1
  unfold Pending at hp
  exact absurd hp (by decide)

end L3.HttpClient

end Rxs
