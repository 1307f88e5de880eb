import Rxs.Core.LTS

/-!
# The failover strategy

`FailoverStrategy` keeps one client for each pool, an index of the pool it
connects to and the id of the active one. It acts in the callbacks of its
clients: a login makes a pool active (the primary always, a backup if none is)
and disconnects the other backups; a close takes the active pool down and, once
the primary has failed often enough, moves on to the next one.

`Effect` is a call the strategy makes, of a client or of its own listener; jobs
and results pass through unchanged. `St` adds the trace of all effects, latest
first, each with the active pool at the time of the call, and whether the
strategy runs, after `connect` and before `stop`.

The clients are free: any client may report anything at any time. `Ok` only
excludes two reports while the strategy is stopped: a login, and a failure of
the primary that counts and is one too many.

* `inv_step`: the invariant, one lemma for each function of the strategy.
* **`failover`**: the strategy's law, in every run of `Ok` steps.
-/
namespace Rxs

open Rxs.Core

/-- mirrors src/base/net/stratum/strategies/FailoverStrategy.h:77-84 -/
structure FailoverStrategy where
  pools : Nat
  retries : Int
  index : Nat := 0
  active : Option Nat := none
  deriving DecidableEq, Repr

namespace FailoverStrategy

inductive Effect where
  | connect (i : Nat)
  | disconnect (i : Nat)
  | submit (i : Nat)
  | onJob (i : Nat)
  | onActive (i : Nat)
  | onPause
  deriving DecidableEq, Repr

/-- mirrors src/base/net/stratum/strategies/FailoverStrategy.cpp:68-75 -/
def submit (s : FailoverStrategy) : List Effect := s.active.toList.map .submit

/-- mirrors src/base/net/stratum/strategies/FailoverStrategy.cpp:78-81 -/
def connect (s : FailoverStrategy) : List Effect := [.connect s.index]

/-- mirrors src/base/net/stratum/strategies/FailoverStrategy.cpp:84-91 -/
def resume (s : FailoverStrategy) : List Effect := s.active.toList.map .onJob

/-- mirrors src/base/net/stratum/strategies/FailoverStrategy.cpp:110-120 -/
def stop (s : FailoverStrategy) : FailoverStrategy × List Effect :=
  ({ s with index := 0, active := none }, (List.range s.pools).map .disconnect ++ [.onPause])

/-- mirrors src/base/net/stratum/strategies/FailoverStrategy.cpp:131-149 -/
def onClose (s : FailoverStrategy) (i : Nat) (failures : Int) : FailoverStrategy × List Effect :=
  if failures = -1 then (s, [])
  else
    let (s, pause) := if s.active = some i then ({ s with active := none }, [Effect.onPause])
      else (s, [])
    if s.index = 0 ∧ failures < s.retries then (s, pause)
    else if s.index = i ∧ 1 < s.pools - s.index then
      ({ s with index := s.index + 1 }, pause ++ [.connect (s.index + 1)])
    else (s, pause)

/-- mirrors src/base/net/stratum/strategies/FailoverStrategy.cpp:158-163 -/
def onJobReceived (s : FailoverStrategy) (i : Nat) : List Effect :=
  if s.active = some i then [.onJob i] else []

/-- The backups that shall not be active.
mirrors src/base/net/stratum/strategies/FailoverStrategy.cpp:174-178 -/
def others (pools : Nat) (active : Option Nat) : List Effect :=
  ((List.range' 1 (pools - 1)).filter (fun i => active ≠ some i)).map .disconnect

/-- mirrors src/base/net/stratum/strategies/FailoverStrategy.cpp:166-184 -/
def onLoginSuccess (s : FailoverStrategy) (i : Nat) : FailoverStrategy × List Effect :=
  let active := if i = 0 ∨ s.active = none then some i else s.active
  if active ≠ s.active then
    ({ s with index := active.getD 0, active := active }, others s.pools active ++ [.onActive i])
  else (s, others s.pools active)

/-- The calls of the owner and the reports of the clients. -/
inductive Event where
  | connect
  | stop
  | resume
  | submit
  | login (i : Nat)
  | close (i : Nat) (failures : Int)
  | job (i : Nat)
  deriving DecidableEq, Repr

def handle (s : FailoverStrategy) : Event → FailoverStrategy × List Effect
  | .connect => (s, connect s)
  | .stop => stop s
  | .resume => (s, resume s)
  | .submit => (s, submit s)
  | .login i => onLoginSuccess s i
  | .close i failures => onClose s i failures
  | .job i => (s, onJobReceived s i)

/-- A strategy with its past. -/
structure St where
  s : FailoverStrategy
  running : Bool := false
  trace : List (Option Nat × Effect) := []
  deriving DecidableEq, Repr

/-- Only the strategy's own clients report. -/
def Event.known (n : Nat) : Event → Bool
  | .login i | .close i _ | .job i => i < n
  | _ => true

def step (st : St) (e : Event) : Option St :=
  if e.known st.s.pools then
    let (s, out) := handle st.s e
    some { s := s,
           running := if e = .connect then true else if e = .stop then false else st.running,
           trace := (out.map fun x => (st.s.active, x)).reverse ++ st.trace }
  else none

def lts (n : Nat) (retries : Int) : LTS St Event :=
  LTS.ofFn { s := { pools := n, retries := retries } } step

/-- The effect asks client `i` to connect or disconnects it. -/
def about (i : Nat) (p : Option Nat × Effect) : Bool := p.2 = .connect i || p.2 = .disconnect i

/-- The client was asked to connect and not disconnected since. -/
def asked (i : Nat) (trace : List (Option Nat × Effect)) : Bool :=
  (trace.find? (about i)).any fun p => p.2 = .connect i

def announces (p : Option Nat × Effect) : Option Nat :=
  match p.2 with
  | .onActive i => some i
  | _ => none

/-- The pool announced last. -/
def announced (trace : List (Option Nat × Effect)) : Option Nat := trace.findSome? announces

/-- A job is forwarded from, and a result submitted to, the pool that is active. -/
def Forwards (p : Option Nat × Effect) : Prop :=
  ∀ i, p.2 = .onJob i ∨ p.2 = .submit i → p.1 = some i

end FailoverStrategy

namespace L3.Failover

open FailoverStrategy

/-- What holds of the strategy at any time. -/
structure Sound (st : St) : Prop where
  index : st.s.index < st.s.pools
  active : ∀ a, st.s.active = some a → a = st.s.index ∧ announced st.trace = some a
  forwards : ∀ p ∈ st.trace, Forwards p
  stranded : st.running = true → st.s.active = none → ∃ i < st.s.pools, asked i st.trace = true

/-- A login on the primary makes it active and disconnects the backups. -/
def Primary (st : St) : Prop :=
  ∀ st', step st (.login 0) = some st' → st'.s.active = some 0 ∧
    ∀ i, 0 < i → i < st.s.pools → asked i st'.trace = false

/-- The condition on a step: while stopped no login, and no failure of the
primary that moves the index on. -/
def Ok (st : St) : FailoverStrategy.Event → Prop
  | .login _ => st.running = true
  | .close i failures =>
    st.running = true ∨ failures = -1 ∨ i ≠ 0 ∨ failures < st.s.retries
  | _ => True

instance (st : St) (e : FailoverStrategy.Event) : Decidable (Ok st e) := by
  unfold Ok; split <;> infer_instance

/-! ## The trace -/

theorem asked_skip (i : Nat) {new : List (Option Nat × Effect)} (t : List (Option Nat × Effect))
    (h : ∀ p ∈ new, about i p = false) : asked i (new ++ t) = asked i t := by
  have hn : new.find? (about i) = none := by
    rw [List.find?_eq_none]
    intro p hp
    rw [h p hp]
    decide
  unfold asked
  rw [List.find?_append, hn, Option.none_or]

theorem asked_disconnect (i : Nat) {new : List (Option Nat × Effect)}
    (t : List (Option Nat × Effect)) (h : ∀ p ∈ new, p.2 ≠ .connect i)
    (hd : ∃ a, (a, .disconnect i) ∈ new) : asked i (new ++ t) = false := by
  obtain ⟨a, ha⟩ := hd
  obtain ⟨p, hp⟩ : ∃ p, new.find? (about i) = some p := by
    rw [← Option.isSome_iff_exists, List.find?_isSome]
    exact ⟨_, ha, by simp [about]⟩
  unfold asked
  rw [List.find?_append, hp, Option.some_or, Option.any_some, decide_eq_false_iff_not]
  exact h p (List.mem_of_find?_eq_some hp)

theorem announced_skip {new : List (Option Nat × Effect)} (t : List (Option Nat × Effect))
    (h : ∀ p ∈ new, announces p = none) : announced (new ++ t) = announced t := by
  have hn : new.findSome? announces = none := by
    rw [List.findSome?_eq_none_iff]
    exact h
  unfold announced
  rw [List.findSome?_append, hn, Option.none_or]

/-- What a call added. -/
def entries (a : Option Nat) (out : List Effect) : List (Option Nat × Effect) :=
  (out.map fun x => (a, x)).reverse

theorem mem_entries {a : Option Nat} {out : List Effect} {p : Option Nat × Effect} :
    p ∈ entries a out ↔ p.1 = a ∧ p.2 ∈ out := by
  obtain ⟨b, x⟩ := p
  simp only [entries, List.mem_reverse, List.mem_map, Prod.mk.injEq]
  constructor
  · rintro ⟨y, hy, rfl, rfl⟩
    exact ⟨rfl, hy⟩
  · rintro ⟨rfl, hx⟩
    exact ⟨x, hx, rfl, rfl⟩

/-! ## Invariant -/

structure Inv (st : St) : Prop where
  index : st.s.index < st.s.pools
  active : ∀ a, st.s.active = some a → a = st.s.index ∧ announced st.trace = some a
  forwards : ∀ p ∈ st.trace, Forwards p
  asked : st.running = true → asked 0 st.trace = true
  stopped : st.running = false → st.s.index = 0 ∧ st.s.active = none

theorem mem_others {n : Nat} {active : Option Nat} {x : Effect} :
    x ∈ others n active ↔ ∃ j, (0 < j ∧ j < n ∧ active ≠ some j) ∧ x = .disconnect j := by
  simp only [others, List.mem_map, List.mem_filter, List.mem_range'_1, decide_eq_true_eq]
  constructor
  · rintro ⟨j, ⟨hj, ha⟩, rfl⟩
    exact ⟨j, ⟨by omega, by omega, ha⟩, rfl⟩
  · rintro ⟨j, ⟨h0, hn, ha⟩, rfl⟩
    exact ⟨j, ⟨by omega, ha⟩, rfl⟩

/-- A call that leaves the strategy alone and forwards from the active pool only. -/
theorem inv_forward {st : St} (hi : Inv st) {out : List Effect}
    (h : ∀ x ∈ out, ∃ i, st.s.active = some i ∧ (x = .onJob i ∨ x = .submit i)) :
    Inv { st with trace := entries st.s.active out ++ st.trace } where
  index := hi.index
  active a ha := by
    refine ⟨(hi.active a ha).1, Eq.trans (announced_skip _ ?_) (hi.active a ha).2⟩
    intro p hp
    obtain ⟨i, -, hx | hx⟩ := h _ (mem_entries.mp hp).2 <;> rw [announces, hx]
  forwards p hp := by
    rcases List.mem_append.mp hp with hp | hp
    · obtain ⟨ha, hx⟩ := mem_entries.mp hp
      obtain ⟨i, hact, hx⟩ := h _ hx
      intro j hj
      have hij : i = j := by
        rcases hx with hx | hx <;> rcases hj with hj | hj <;> rw [hx] at hj <;> cases hj <;> rfl
      rw [ha, hact, hij]
    · exact hi.forwards p hp
  asked hr := by
    refine Eq.trans (asked_skip 0 _ ?_) (hi.asked hr)
    intro p hp
    obtain ⟨i, -, hx | hx⟩ := h _ (mem_entries.mp hp).2 <;> simp [about, hx]
  stopped := hi.stopped

theorem forwards_of {p : Option Nat × Effect} (h : ∀ i, p.2 ≠ .onJob i ∧ p.2 ≠ .submit i) :
    Forwards p := by
  intro i hp
  rcases hp with hp | hp
  · exact absurd hp (h i).1
  · exact absurd hp (h i).2

theorem inv_connect {st : St} (hi : Inv st) :
    Inv { st with running := true, trace := entries st.s.active (connect st.s) ++ st.trace } where
  index := hi.index
  active a ha := by
    refine ⟨(hi.active a ha).1, Eq.trans (announced_skip _ ?_) (hi.active a ha).2⟩
    intro p hp
    have hx := List.mem_singleton.mp (mem_entries.mp hp).2
    rw [announces, hx]
  forwards p hp := by
    rcases List.mem_append.mp hp with hp | hp
    · have hx := List.mem_singleton.mp (mem_entries.mp hp).2
      exact forwards_of fun i => by rw [hx]; exact ⟨nofun, nofun⟩
    · exact hi.forwards p hp
  asked _ := by
    by_cases h0 : st.s.index = 0
    · simp [entries, connect, h0, FailoverStrategy.asked, about]
    · have hr : st.running = true := by
        by_contra hr
        exact h0 (hi.stopped (by simpa using hr)).1
      refine Eq.trans (asked_skip 0 _ ?_) (hi.asked hr)
      intro p hp
      have hx := List.mem_singleton.mp (mem_entries.mp hp).2
      simp [about, hx, h0]
  stopped hr := by cases hr

theorem inv_stop {st : St} (hi : Inv st) :
    Inv { s := (stop st.s).1, running := false,
          trace := entries st.s.active (stop st.s).2 ++ st.trace } where
  index := Nat.lt_of_le_of_lt (Nat.zero_le _) hi.index
  active a ha := by cases ha
  forwards p hp := by
    rcases List.mem_append.mp hp with hp | hp
    · have hx := (mem_entries.mp hp).2
      refine forwards_of fun i => ?_
      rcases List.mem_append.mp hx with hx | hx
      · obtain ⟨j, -, hj⟩ := List.mem_map.mp hx
        rw [← hj]; exact ⟨nofun, nofun⟩
      · rw [List.mem_singleton.mp hx]; exact ⟨nofun, nofun⟩
    · exact hi.forwards p hp
  asked hr := by cases hr
  stopped _ := ⟨rfl, rfl⟩

/-- A close never takes the primary's request back. -/
theorem inv_close {st : St} (hi : Inv st) {i : Nat} {failures : Int}
    (hok : Ok st (.close i failures)) :
    Inv { st with s := (onClose st.s i failures).1,
                  trace := entries st.s.active (onClose st.s i failures).2 ++ st.trace } := by
  unfold onClose
  split
  · exact hi
  · rename_i hf
    -- down: what the strategy is and did once the active pool is taken down
    have hdown : ∃ s pause, (if st.s.active = some i then
          ({ st.s with active := none }, [Effect.onPause]) else (st.s, [])) = (s, pause) ∧
        s.pools = st.s.pools ∧ s.index = st.s.index ∧ s.retries = st.s.retries ∧
        (s.active = st.s.active ∨ s.active = none) ∧
        (s.active ≠ none → s.active ≠ some i) ∧ ∀ x ∈ pause, x = .onPause := by
      split
      · exact ⟨_, _, rfl, rfl, rfl, rfl, .inr rfl, fun h => absurd rfl h, by simp⟩
      · rename_i ha
        exact ⟨_, _, rfl, rfl, rfl, rfl, .inl rfl, fun _ => ha, by simp⟩
    obtain ⟨s, pause, he, hpools, hindex, hretries, hactive, hne, hpause⟩ := hdown
    rw [he]
    dsimp only
    have hquiet : ∀ p ∈ entries st.s.active pause, p.2 = .onPause := fun p hp =>
      hpause _ (mem_entries.mp hp).2
    have hkeep : Inv { st with s := s, trace := entries st.s.active pause ++ st.trace } := by
      refine ⟨by rw [hpools, hindex]; exact hi.index, fun a ha => ?_, fun p hp => ?_,
        fun hr => ?_, fun hr => ?_⟩
      · have ha' : st.s.active = some a := by
          rcases hactive with h | h
          · rw [← h]; exact ha
          · rw [h] at ha; cases ha
        refine ⟨by rw [hindex]; exact (hi.active a ha').1,
          Eq.trans (announced_skip _ fun p hp => ?_) (hi.active a ha').2⟩
        rw [announces, hquiet p hp]
      · rcases List.mem_append.mp hp with hp | hp
        · exact forwards_of fun i => by rw [hquiet p hp]; exact ⟨nofun, nofun⟩
        · exact hi.forwards p hp
      · refine Eq.trans (asked_skip 0 _ fun p hp => ?_) (hi.asked hr)
        simp [about, hquiet p hp]
      · obtain ⟨h0, hn⟩ := hi.stopped hr
        refine ⟨by rw [hindex]; exact h0, ?_⟩
        rcases hactive with h | h
        · rw [h]; exact hn
        · exact h
    split
    · exact hkeep
    · rename_i hkept
      split
      · -- the next pool
        rename_i hnext
        rw [hindex, hpools] at hnext
        have hnone : s.active = none := by
          by_contra h
          obtain ⟨a, ha⟩ := Option.ne_none_iff_exists'.mp h
          have := (hkeep.active a ha).1
          have hai : a ≠ i := fun e => hne h (by rw [ha, e])
          exact hai (this.trans (by rw [hindex]; exact hnext.1))
        have hrun : st.running = true := by
          by_contra hr
          have hr : st.running = false := by simpa using hr
          have h0 := (hi.stopped hr).1
          rcases hok with h | h | h | h
          · rw [hr] at h; cases h
          · exact hf h
          · exact h (hnext.1.symm.trans h0)
          · exact hkept ⟨by rw [hindex]; exact h0, by rw [hretries]; exact h⟩
        have hnew : ∀ p ∈ entries st.s.active (pause ++ [.connect (s.index + 1)]),
            p.2 = .onPause ∨ p.2 = .connect (s.index + 1) := by
          intro p hp
          rcases List.mem_append.mp (mem_entries.mp hp).2 with hx | hx
          · exact .inl (hpause _ hx)
          · exact .inr (List.mem_singleton.mp hx)
        refine ⟨?_, fun a ha => ?_, fun p hp => ?_, fun hr => ?_, fun hr => ?_⟩
        · show s.index + 1 < s.pools
          rw [hindex, hpools]; omega
        · change s.active = some a at ha
          rw [hnone] at ha
          cases ha
        · rcases List.mem_append.mp hp with hp | hp
          · refine forwards_of fun i => ?_
            rcases hnew p hp with hx | hx <;> rw [hx] <;> exact ⟨nofun, nofun⟩
          · exact hi.forwards p hp
        · refine Eq.trans (asked_skip 0 _ fun p hp => ?_) (hi.asked hr)
          rcases hnew p hp with hx | hx <;> simp [about, hx]
        · change st.running = false at hr
          rw [hrun] at hr
          cases hr
      · exact hkeep

/-- A login changes the active pool to the one that logged in, or nothing. -/
theorem onLoginSuccess_cases (s : FailoverStrategy) (i : Nat) :
    (∃ a, s.active = some a ∧ (i = 0 → a = 0) ∧
      onLoginSuccess s i = (s, others s.pools (some a))) ∨
    ((i = 0 ∨ s.active = none) ∧
      onLoginSuccess s i = ({ s with index := i, active := some i },
        others s.pools (some i) ++ [.onActive i])) := by
  unfold onLoginSuccess
  by_cases h : i = 0 ∨ s.active = none
  · rw [if_pos h]
    by_cases ha : some i ≠ s.active
    · right
      rw [if_pos ha]
      exact ⟨h, rfl⟩
    · left
      rw [if_neg ha]
      have ha : some i = s.active := by simpa using ha
      exact ⟨i, ha.symm, id, rfl⟩
  · left
    rw [if_neg h, if_neg (by simp)]
    obtain ⟨a, ha⟩ := Option.ne_none_iff_exists'.mp fun hn => h (.inr hn)
    exact ⟨a, ha, fun h0 => absurd (.inl h0) h, by rw [ha]⟩

theorem inv_login {st : St} (hi : Inv st) {i : Nat} (hn : i < st.s.pools)
    (hrun : st.running = true) :
    Inv { st with s := (onLoginSuccess st.s i).1,
                  trace := entries st.s.active (onLoginSuccess st.s i).2 ++ st.trace } := by
  rcases onLoginSuccess_cases st.s i with ⟨a, ha, -, he⟩ | ⟨-, he⟩
  · rw [he]
    have hnew : ∀ p ∈ entries st.s.active (others st.s.pools (some a)),
        ∃ j, 0 < j ∧ p.2 = .disconnect j := by
      intro p hp
      obtain ⟨j, hj, hx⟩ := mem_others.mp (mem_entries.mp hp).2
      exact ⟨j, hj.1, hx⟩
    refine ⟨hi.index, fun b hb => ⟨(hi.active b hb).1, Eq.trans (announced_skip _ fun p hp => ?_)
      (hi.active b hb).2⟩, fun p hp => ?_, fun hr => ?_, hi.stopped⟩
    · obtain ⟨j, -, hx⟩ := hnew p hp
      rw [announces, hx]
    · rcases List.mem_append.mp hp with hp | hp
      · obtain ⟨j, -, hx⟩ := hnew p hp
        exact forwards_of fun i => by rw [hx]; exact ⟨nofun, nofun⟩
      · exact hi.forwards p hp
    · refine Eq.trans (asked_skip 0 _ fun p hp => ?_) (hi.asked hr)
      obtain ⟨j, hj, hx⟩ := hnew p hp
      have hj0 : j ≠ 0 := by omega
      simp [about, hx, hj0]
  · rw [he]
    have hnew : ∀ p ∈ entries st.s.active (others st.s.pools (some i) ++ [.onActive i]),
        (∃ j, 0 < j ∧ p.2 = .disconnect j) ∨ p.2 = .onActive i := by
      intro p hp
      rcases List.mem_append.mp (mem_entries.mp hp).2 with hx | hx
      · obtain ⟨j, hj, hx⟩ := mem_others.mp hx
        exact .inl ⟨j, hj.1, hx⟩
      · exact .inr (List.mem_singleton.mp hx)
    refine ⟨hn, fun b hb => ?_, fun p hp => ?_, fun hr => ?_, fun hr => ?_⟩
    · cases hb
      refine ⟨rfl, ?_⟩
      show announced (entries _ (_ ++ [.onActive i]) ++ _) = some i
      rw [entries, List.map_append, List.reverse_append]
      rfl
    · rcases List.mem_append.mp hp with hp | hp
      · refine forwards_of fun k => ?_
        rcases hnew p hp with ⟨j, -, hx⟩ | hx <;> rw [hx] <;> exact ⟨nofun, nofun⟩
      · exact hi.forwards p hp
    · refine Eq.trans (asked_skip 0 _ fun p hp => ?_) (hi.asked hr)
      rcases hnew p hp with ⟨j, hj, hx⟩ | hx
      · have hj0 : j ≠ 0 := by omega
        simp [about, hx, hj0]
      · simp [about, hx]
    · change st.running = false at hr
      rw [hrun] at hr
      cases hr

theorem inv_step {st st' : St} {e : FailoverStrategy.Event} (hi : Inv st) (hok : Ok st e)
    (h : step st e = some st') : Inv st' := by
  unfold step at h
  split at h
  swap
  · cases h
  · rename_i hk
    cases h
    cases e with
    | connect => exact inv_connect hi
    | stop => exact inv_stop hi
    | resume =>
      refine inv_forward hi fun x hx => ?_
      obtain ⟨a, ha, rfl⟩ := List.mem_map.mp hx
      exact ⟨a, by simpa using ha, .inl rfl⟩
    | submit =>
      refine inv_forward hi fun x hx => ?_
      obtain ⟨a, ha, rfl⟩ := List.mem_map.mp hx
      exact ⟨a, by simpa using ha, .inr rfl⟩
    | login i => exact inv_login hi (by simpa [FailoverStrategy.Event.known] using hk) hok
    | close i failures => exact inv_close hi hok
    | job i =>
      refine inv_forward hi fun x hx => ?_
      change x ∈ onJobReceived st.s i at hx
      unfold onJobReceived at hx
      split at hx
      · rename_i ha
        exact ⟨i, ha, .inl (List.mem_singleton.mp hx)⟩
      · cases hx

theorem inv_init {n : Nat} (hn : 0 < n) (retries : Int) :
    Inv { s := { pools := n, retries := retries } } where
  index := hn
  active a ha := by cases ha
  forwards p hp := by cases hp
  asked hr := by cases hr
  stopped _ := ⟨rfl, rfl⟩

theorem inv_inductive {n : Nat} (hn : 0 < n) (retries : Int) :
    ((lts n retries).restrict Ok).Inductive Inv where
  init st hs := by rw [hs]; exact inv_init hn retries
  step st e st' hi hs := inv_step hi hs.1 hs.2

/-- The primary's login holds in any state. -/
theorem primary (st : St) : Primary st := by
  intro st' h
  unfold step at h
  split at h
  swap
  · cases h
  · cases h
    have hdis : ∀ {out : List Effect} (t : List (Option Nat × Effect)) (i : Nat), 0 < i →
        i < st.s.pools → (∀ x ∈ others st.s.pools (some 0), x ∈ out) →
        (∀ x ∈ out, x ∈ others st.s.pools (some 0) ∨ x = .onActive 0) →
        asked i (entries st.s.active out ++ t) = false := by
      intro out t i h0 hi hsub hout
      refine asked_disconnect i t (fun p hp hc => ?_) ⟨st.s.active, mem_entries.mpr ⟨rfl, ?_⟩⟩
      · rcases hout _ (mem_entries.mp hp).2 with hx | hx
        · obtain ⟨j, -, hj⟩ := mem_others.mp hx
          rw [hc] at hj
          cases hj
        · rw [hc] at hx
          cases hx
      · refine hsub _ (mem_others.mpr ⟨i, ⟨h0, hi, fun he => ?_⟩, rfl⟩)
        cases he
        exact Nat.lt_irrefl _ h0
    change (onLoginSuccess st.s 0).1.active = some 0 ∧ ∀ i, 0 < i → i < st.s.pools →
      asked i (entries st.s.active (onLoginSuccess st.s 0).2 ++ st.trace) = false
    rcases onLoginSuccess_cases st.s 0 with ⟨a, ha, h0, he⟩ | ⟨-, he⟩
    · cases h0 rfl
      rw [he]
      exact ⟨ha, fun i h0 hi => hdis _ i h0 hi (fun _ => id) fun _ => .inl⟩
    · rw [he]
      refine ⟨rfl, fun i h0 hi => hdis _ i h0 hi (fun _ hx => List.mem_append_left _ hx) ?_⟩
      intro x hx
      rcases List.mem_append.mp hx with hx | hx
      · exact .inl hx
      · exact .inr (List.mem_singleton.mp hx)

/-- **The failover law**, for any number of pools, in every run in which a
stopped strategy gets no login and no failure of the primary that moves it on. -/
theorem failover {n : Nat} (hn : 0 < n) (retries : Int) {st : St}
    (h : ((lts n retries).restrict Ok).Reachable st) : Sound st ∧ Primary st := by
  have hi := (inv_inductive hn retries).reachable h
  refine ⟨⟨hi.index, hi.active, hi.forwards, fun hr _ => ?_⟩, primary st⟩
  exact ⟨0, Nat.lt_of_le_of_lt (Nat.zero_le _) hi.index, hi.asked hr⟩

/-- The primary and the first backup fail, the second one takes over until the
primary is back. -/
def recover : List FailoverStrategy.Event :=
  [.connect, .close 0 1, .close 0 2, .close 1 1, .login 2, .job 2, .submit, .login 0, .job 0]

theorem failover_recover : ∃ st,
    LTS.execOk step Ok { s := { pools := 3, retries := 2 } } recover = some st ∧
      st.s.active = some 0 ∧ Sound st ∧ Primary st := by
  obtain ⟨st, hs⟩ : ∃ st,
      LTS.execOk step Ok { s := { pools := 3, retries := 2 } } recover = some st :=
    Option.isSome_iff_exists.mp (by decide)
  have he : (LTS.execOk step Ok { s := { pools := 3, retries := 2 } } recover).map
      (·.s.active) = some (some 0) := by decide
  simp only [hs, Option.map_some, Option.some.injEq] at he
  have h := failover (n := 3) (by decide) 2 (LTS.reachable_of_execOk hs)
  exact ⟨st, hs, he, h.1, h.2⟩

end L3.Failover

end Rxs
