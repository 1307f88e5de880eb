import Rxs.Core.LTS
import Rxs.L3Protocol.Client

/-!
# The stratum client, line by line

A chunk of bytes may hold several lines, and a listener may call the client from
inside a callback, between two of them. `Lined` takes the lines one at a time;
`read_lines` says that without such a call it does what `Client` does.
-/
namespace Rxs

open Rxs.Core Rxs.Client

/-- `rest` is what the line reader has still to hand on; the job that came with a
login is one line more. Ghosts: `logins` counts the calls of `login`; `quit` is how
much the listener was told and how often the client had logged in when it was
disconnected. -/
structure Lined where
  client : Client
  rest : List Line := []
  logins : Nat := 0
  quit : Option (Nat × Nat) := none
  deriving DecidableEq, Repr

namespace Lined

/-- An event of the loop or a call of the owner, or the next line. -/
inductive Event where
  | call (e : Client.Event)
  | line (now : Nat)
  deriving DecidableEq, Repr

/-- The owner may call from inside a callback, when lines are left. -/
def owners : Client.Event → Bool
  | .connect _ _ | .disconnect | .deleteLater | .submit _ _ _ | .send _ _ _ => true
  | _ => false

/-- The line reader gets the bytes of the chunk. -/
def toReader (s : Client) (c : Chunk) : Bool :=
  s.listening ∧ s.socks5 = none ∧ (isTLS s → c.tls = .data)

/-- The lines that the event brings to the line reader. -/
def brought (s : Client) : Client.Event → List Line
  | .read _ (some c) _ _ => if toReader s c then c.lines else []
  | _ => []

/-- The event without its lines. -/
def bare : Client.Event → Client.Event
  | .read h (some c) w now => .read h (some { c with lines := [] }) w now
  | e => e

/-- The event calls `login`: after a connect, after the proxy's last answer or after
the TLS handshake. -/
def logsIn (s : Client) : Client.Event → Bool
  | .connected _ ok _ _ => ok ∧ s.state ≠ .ConnectedState ∧ s.socks5 = none ∧ ¬ isTLS s
  | .read _ (some c) w _ =>
    s.listening && match s.socks5 with
      | some k => (readProxy s k c w).socks5.any (·.state = .Ready) && !s.poolTLS
      | none => isTLS s && c.tls = .verified
  | _ => false

/-- What is known of a disconnect after the event. -/
def mark (x : Lined) : Client.Event → Option (Nat × Nat)
  | .disconnect => some (x.quit.getD (x.client.told.length, x.logins))
  | .connect _ _ => none
  | _ => x.quit

/-- A line, and what it leaves to do: `onJobReceived` of a login is a step of its own. -/
def takeLine (s : Client) (now : Nat) : Line → Client × List Line
  | .login (some ext) true true => (parseLine s now (.login (some ext) true false), [.job true])
  | l => (parseLine s now l, [])

def step (x : Lined) : Event → Option Lined
  | .call e =>
    if x.rest = [] ∨ owners e then
      (Client.step x.client (bare e)).map fun s =>
        { client := s, rest := brought x.client e ++ x.rest,
          logins := x.logins + (if logsIn x.client e then 1 else 0), quit := mark x e }
    else none
  | .line now =>
    match x.rest with
    | [] => none
    | l :: rest =>
      let (s, more) := takeLine x.client now l
      some { x with client := s, rest := more ++ rest }

/-- The lines of a read, one at a time. -/
theorem lines_done (now : Nat) (x : Lined) : ∃ m,
    LTS.exec step x (List.replicate m (.line now)) =
      some { x with client := x.rest.foldl (fun s l => parseLine s now l) x.client, rest := [] } := by
  obtain ⟨s, rest, k, q⟩ := x
  induction rest generalizing s with
  | nil => exact ⟨0, rfl⟩
  | cons l rest ih =>
    obtain ⟨m, hm⟩ := ih (parseLine s now l)
    by_cases hl : ∃ ext, l = .login (some ext) true true
    · obtain ⟨ext, rfl⟩ := hl
      exact ⟨m + 2, hm⟩
    · refine ⟨m + 1, ?_⟩
      have htake : takeLine s now l = (parseLine s now l, []) := by
        unfold takeLine
        split
        · rename_i ext
          exact absurd ⟨ext, rfl⟩ hl
        · rfl
      simp only [List.replicate_succ, LTS.exec, step, htake, List.nil_append,
        Option.bind_some]
      exact hm

theorem read_bare (s : Client) (h : Handle) (c : Chunk) (w : Write) (now : Nat) :
    Client.read s h (some c) w now =
      (brought s (.read h (some c) w now)).foldl (fun s l => parseLine s now l)
        (Client.read s h (some { c with lines := [] }) w now) := by
  unfold brought
  dsimp only
  by_cases hb : toReader s c = true
  · rw [if_pos hb]
    obtain ⟨hl, h₅, htls⟩ := of_decide_eq_true hb
    unfold Client.read
    dsimp only
    rw [if_neg (not_not.mpr hl), if_neg (not_not.mpr hl), h₅]
    dsimp only
    by_cases ht : isTLS s = true
    · rw [if_pos ht, if_pos ht, htls ht]
      rfl
    · rw [if_neg ht, if_neg ht]
      rfl
  · rw [if_neg hb]
    unfold Client.read
    dsimp only [List.foldl_nil]
    by_cases hl : s.listening = true
    · rw [if_neg (not_not.mpr hl), if_neg (not_not.mpr hl)]
      cases h₅ : s.socks5 with
      | some k => rfl
      | none =>
        dsimp only
        have ht : isTLS s = true := by
          by_contra hno
          exact hb (decide_eq_true ⟨hl, h₅, fun hyes => absurd hyes hno⟩)
        rw [if_pos ht, if_pos ht]
        cases hc : c.tls with
        | data => exact absurd (decide_eq_true ⟨hl, h₅, fun _ => hc⟩) hb
        | wait => rfl
        | verified => rfl
        | rejected => rfl
    · rw [if_pos hl, if_pos hl]

/-- **Line by line**: a read, and then its lines without a call in between, do what
the client does in one event. -/
theorem read_lines {s s' : Client} {h : Handle} {c : Chunk} {w : Write} {now : Nat}
    (hs : Client.step s (.read h (some c) w now) = some s') (k : Nat) (q : Option (Nat × Nat)) :
    ∃ m k', LTS.exec step { client := s, logins := k, quit := q }
        (.call (.read h (some c) w now) :: List.replicate m (.line now)) =
      some { client := s', logins := k', quit := q } := by
  simp only [Client.step, Option.ite_none_right_eq_some, Option.some.injEq] at hs
  obtain ⟨hg, rfl⟩ := hs
  obtain ⟨m, hm⟩ := lines_done now
    { client := Client.read s h (some { c with lines := [] }) w now,
      rest := brought s (.read h (some c) w now) ++ [],
      logins := k + (if logsIn s (.read h (some c) w now) then 1 else 0), quit := q }
  refine ⟨m, k + (if logsIn s (.read h (some c) w now) then 1 else 0), ?_⟩
  rw [read_bare]
  rw [List.append_nil] at hm
  simp only [LTS.exec, step, true_or, if_true, bare, Client.step, if_pos hg,
    Option.map_some, Option.bind_some, mark, List.append_nil]
  exact hm

end Lined

end Rxs
