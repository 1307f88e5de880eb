import Rxs.L3Protocol.Client
import Rxs.L3Protocol.Failover

/-!
# The failover strategy over stratum clients

The strategy together with its clients, one for each pool. A step is a call of
the owner or one event of one client; what the client tells its listener goes to
the strategy, and the calls the strategy makes go to the clients. A connect the
strategy asks for is answered by the resolver in a later step.

* `strategy_run`: what the strategy does in the system is a run of its own.
* **`failover_fails`**: the clients can strand the strategy. `Client::disconnect`
  does not end a pending lookup, so a client may log in after `stop`; the strategy
  then takes its pool as the one to connect to, and the primary, which is still
  connecting on its own, was never asked again.
-/
namespace Rxs

open Rxs.Core

structure Pools where
  st : FailoverStrategy.St
  clients : List Client
  deriving DecidableEq, Repr

namespace Pools

/-- A call the strategy makes of its clients. -/
def call (now : Nat) (zero : Bool) (w : Client.Write) (cs : List Client) :
    FailoverStrategy.Effect → List Client
  | .connect i => cs.modify i fun c => c.connect none now
  | .disconnect i => cs.modify i fun c => c.disconnect.2
  | .submit i => cs.modify i fun c => c.submit zero w now
  | _ => cs

/-- The strategy handles an event. -/
def strategy (s : Pools) (e : FailoverStrategy.Event) (now : Nat) (zero : Bool)
    (w : Client.Write) : Option Pools :=
  (FailoverStrategy.step s.st e).map fun st =>
    { st := st, clients := (s.st.s.handle e).2.foldl (call now zero w) s.clients }

def report (i : Nat) : Notice → FailoverStrategy.Event
  | .onLoginSuccess => .login i
  | .onJobReceived => .job i
  | .onClose failures => .close i failures

/-- The strategy is told what the client told its listener. -/
def deliver (i : Nat) (now : Nat) : List Notice → Pools → Option Pools
  | [], s => some s
  | n :: ns, s => (strategy s (report i n) now false .sent).bind (deliver i now ns)

/-- What the event loop and the timer do with a client. -/
def ofLoop : Client.Event → Bool
  | .tick .. | .resolved .. | .connected .. | .read .. | .closed .. => true
  | _ => false

inductive Label where
  | connect (now : Nat)
  | stop (now : Nat)
  | resume (now : Nat)
  | submit (zero : Bool) (w : Client.Write) (now : Nat)
  | client (i : Nat) (e : Client.Event) (now : Nat)
  deriving DecidableEq, Repr

def step (s : Pools) : Label → Option Pools
  | .connect now => strategy s .connect now false .sent
  | .stop now => strategy s .stop now false .sent
  | .resume now => strategy s .resume now false .sent
  | .submit zero w now => strategy s .submit now zero w
  | .client i e now =>
    if ofLoop e then
      (s.clients[i]?.bind (·.step e)).bind fun c =>
        deliver i now c.told { s with clients := s.clients.set i { c with told := [] } }
    else none

def init (n : Nat) (retries : Int) : Pools :=
  { st := { s := { pools := n, retries := retries } }, clients := List.replicate n {} }

def lts (n : Nat) (retries : Int) : LTS Pools Label := LTS.ofFn (init n retries) step

/-! ## The strategy's part -/

variable {n : Nat} {retries : Int}

theorem strategy_st {s s' : Pools} {e : FailoverStrategy.Event} {now : Nat} {zero : Bool}
    {w : Client.Write} (h : strategy s e now zero w = some s') :
    (FailoverStrategy.lts n retries).step s.st e s'.st := by
  obtain ⟨st, hst, rfl⟩ := Option.map_eq_some_iff.mp h
  exact hst

theorem deliver_run {i now : Nat} {ns : List Notice} {s s' : Pools}
    (h : deliver i now ns s = some s') :
    ∃ es, (FailoverStrategy.lts n retries).Run s.st es s'.st := by
  induction ns generalizing s with
  | nil => cases h; exact ⟨[], .nil _⟩
  | cons m ns ih =>
    obtain ⟨s₁, h₁, h₂⟩ := Option.bind_eq_some_iff.mp h
    obtain ⟨es, r⟩ := ih h₂
    exact ⟨_, .cons (strategy_st h₁) r⟩

theorem strategy_run {s s' : Pools} {l : Label} (h : step s l = some s') :
    ∃ es, (FailoverStrategy.lts n retries).Run s.st es s'.st := by
  cases l with
  | client i e now =>
    simp only [step] at h
    split at h
    · obtain ⟨c, -, h⟩ := Option.bind_eq_some_iff.mp h
      have r := @deliver_run n retries i now c.told _ s' h
      exact r
    · cases h
  | _ => exact ⟨_, .cons (strategy_st h) (.nil _)⟩

/-- Every reachable state of the system holds a reachable state of the strategy. -/
theorem strategy_reachable {s : Pools} (h : (lts n retries).Reachable s) :
    (FailoverStrategy.lts n retries).Reachable s.st := by
  refine LTS.reachable_induction (M := lts n retries)
    (P := fun s => (FailoverStrategy.lts n retries).Reachable s.st) ?_ ?_ h
  · intro s hs
    cases hs
    exact .init rfl
  · intro s l s' _ ih hs
    obtain ⟨es, r⟩ := @strategy_run n retries _ _ _ hs
    exact ih.run r

/-! ## A disconnected client that goes on -/

/-- The primary fails twice, the backup looks up its host, the primary again;
then `stop`. The backup logs in, the owner connects, and the primary logs in
and is lost. -/
def late : List Label :=
  [.connect 0, .client 0 (.resolved false 10) 10, .client 0 (.tick none .sent 6000) 6000,
   .client 0 (.resolved false 6010) 6010, .client 0 (.tick none .sent 12000) 12000,
   .stop 12010,
   .client 1 (.resolved true 12020) 12020, .client 1 (.connected 0 true .sent 12030) 12030,
   .client 1 (.read 0 (some { lines := [.login (some false) true true] }) .sent 12040) 12040,
   .connect 12050,
   .client 0 (.resolved true 12060) 12060, .client 0 (.connected 0 true .sent 12070) 12070,
   .client 0 (.read 0 (some { lines := [.login (some false) true true] }) .sent 12080) 12080,
   .client 0 (.read 0 none .sent 12090) 12090, .client 0 (.closed 0 12100) 12100]

theorem failover_fails :
    ¬ ∀ s, (lts 2 2).Reachable s → s.st.running = true → s.st.s.active = none →
      ∃ i < 2, FailoverStrategy.asked i s.st.trace = true := by
  intro h
  obtain ⟨s, hs⟩ : ∃ s, LTS.exec step (init 2 2) late = some s :=
    Option.isSome_iff_exists.mp (by decide +kernel)
  have he : (LTS.exec step (init 2 2) late).map (fun s => (s.st.running, s.st.s.active,
      (List.range 2).map fun i => FailoverStrategy.asked i s.st.trace)) =
    some (true, none, [false, false]) := by decide +kernel
  simp only [hs, Option.map_some, Option.some.injEq, Prod.mk.injEq] at he
  obtain ⟨i, hi, ha⟩ := h s (LTS.reachable_of_exec hs) he.1 he.2.1
  have hmem : FailoverStrategy.asked i s.st.trace ∈
      (List.range 2).map fun i => FailoverStrategy.asked i s.st.trace :=
    List.mem_map.mpr ⟨i, List.mem_range.mpr hi, rfl⟩
  rw [he.2.2, ha] at hmem
  exact absurd hmem (by decide)

end Pools

end Rxs
