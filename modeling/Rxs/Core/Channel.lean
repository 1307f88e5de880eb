import Rxs.Core.LTS

/-!
# Channels

Any number of senders put messages into a channel, one receiver takes them out, one at a time
and the oldest first. What is lost or comes twice would show in `received`.

* `received_eq`: what was received is the beginning of what was sent.
* `fromSender_take`: of each sender, too, and in the order in which it was sent.
-/
namespace Rxs.Core

structure Channel (ω ρ : Type) where
  sent : List (ω × ρ) := []
  received : List ρ := []

namespace Channel

variable {ω ρ : Type}

inductive Act (ω ρ : Type) where
  | put (i : ω) (message : ρ)
  | take

def step (c : Channel ω ρ) : Act ω ρ → Option (Channel ω ρ)
  | .put i message => some { c with sent := c.sent ++ [(i, message)] }
  | .take => c.sent[c.received.length]?.map fun x => { c with received := c.received ++ [x.2] }

def lts (ω ρ : Type) : LTS (Channel ω ρ) (Act ω ρ) := LTS.ofFn {} step

variable {c : Channel ω ρ}

theorem received_inductive : (lts ω ρ).Inductive fun c => c.received <+: c.sent.map Prod.snd where
  init := by
    rintro c rfl
    exact List.prefix_rfl
  step := by
    intro c l c' hc hst
    cases l with
    | put i message =>
      obtain rfl := Option.some.inj hst
      rw [List.map_append]
      exact hc.trans (List.prefix_append _ _)
    | take =>
      obtain ⟨x, hx, rfl⟩ := Option.map_eq_some_iff.mp hst
      obtain ⟨rest, hrest⟩ := hc
      have hhead : rest[0]? = some x.2 := by
        have hget : (c.sent.map Prod.snd)[c.received.length]? = some x.2 := by
          rw [List.getElem?_map, hx]
          rfl
        rw [← hrest, List.getElem?_append_right (Nat.le_refl _), Nat.sub_self] at hget
        exact hget
      cases rest with
      | nil => cases hhead
      | cons y rest =>
        obtain rfl := Option.some.inj hhead
        exact ⟨rest, by rw [← hrest, List.append_assoc]; rfl⟩

/-- **What was received is what was sent first.** -/
theorem received_eq (h : (lts ω ρ).Reachable c) :
    c.received = (c.sent.take c.received.length).map Prod.snd := by
  rw [List.map_take]
  exact List.prefix_iff_eq_take.mp (received_inductive.reachable h)

/-! ## One sender -/

variable [DecidableEq ω]

def fromSender (i : ω) (l : List (ω × ρ)) : List ρ :=
  l.filterMap fun x => if x.1 = i then some x.2 else none

@[simp] theorem fromSender_nil (i : ω) : fromSender i ([] : List (ω × ρ)) = [] := rfl

theorem fromSender_append (i : ω) (l l' : List (ω × ρ)) :
    fromSender i (l ++ l') = fromSender i l ++ fromSender i l' :=
  List.filterMap_append

theorem fromSender_self (i : ω) (message : ρ) : fromSender i [(i, message)] = [message] := by
  simp [fromSender]

theorem fromSender_of_ne {i j : ω} (h : i ≠ j) (message : ρ) :
    fromSender j [(i, message)] = [] := by
  simp [fromSender, h]

/-- What was received of a sender is what it sent first. -/
theorem fromSender_take (i : ω) (l : List (ω × ρ)) (n : Nat) :
    fromSender i (l.take n) <+: fromSender i l :=
  (List.take_prefix n l).filterMap _

end Channel

end Rxs.Core
