import Mathlib.Data.List.TakeWhile
import Mathlib.Tactic.Common

/-!
# Escape sequences in a text

A sequence is an introducer of two letters, any number of parameters and a last letter.
`remove` takes the complete sequences out of a text, all at once. Whoever looks for the first
introducer and erases what follows, again and again, does the same where no introducer is
left: such a text is `Clean`.

* `Clean.cases`: a clean text has no introducer, or its first one begins a complete sequence,
  without which it is still clean.
* `remove_append`: a text in front of which there is nothing that could begin a sequence.
-/
namespace Rxs.Core

structure Escapes (α : Type*) where
  esc : α
  bracket : α
  final : α
  param : α → Bool
  bracket_ne : bracket ≠ esc
  final_ne : final ≠ esc
  final_ne_bracket : final ≠ bracket
  param_esc : param esc = false
  param_final : param final = false

namespace Escapes

variable {α : Type*} [DecidableEq α] (g : Escapes α)

/-- At the front there is an introducer. -/
def introduces : List α → Bool
  | a :: b :: _ => a = g.esc && b = g.bracket
  | _ => false

def hasIntroducer : List α → Bool
  | [] => false
  | a :: s => g.introduces (a :: s) || hasIntroducer s

/-- The length of the complete sequence at the front. -/
def sequence (s : List α) : Option Nat :=
  let params := (s.drop 2).takeWhile g.param
  if g.introduces s ∧ (s.drop 2)[params.length]? = some g.final then some (params.length + 3)
  else none

/-- `skip` letters are left of a sequence. -/
def removeFrom : Nat → List α → List α
  | _, [] => []
  | skip + 1, _ :: s => removeFrom skip s
  | 0, a :: s =>
    match g.sequence (a :: s) with
    | some n => removeFrom (n - 1) s
    | none => a :: removeFrom 0 s

/-- The text without its complete sequences. -/
def remove (s : List α) : List α := g.removeFrom 0 s

/-- No introducer is left. -/
def Clean (s : List α) : Prop := g.hasIntroducer (g.remove s) = false

/-- The first introducer begins a complete sequence, which is taken out. -/
inductive Erases : List α → List α → Prop where
  | here {params t : List α} (hp : ∀ c ∈ params, g.param c = true) :
      Erases (g.esc :: g.bracket :: (params ++ g.final :: t)) t
  | cons {a : α} {s s' : List α} (ha : g.introduces (a :: s) = false) (h : Erases s s') :
      Erases (a :: s) (a :: s')

attribute [grind =] introduces hasIntroducer sequence removeFrom remove

variable {g} {a : α} {s s' t params : List α}

/-! ## Removing -/

theorem introduces_iff : g.introduces s = true ↔ ∃ t, s = g.esc :: g.bracket :: t := by
  match s with
  | [] => simp [introduces]
  | [_] => simp [introduces]
  | a :: b :: t => simp [introduces]

theorem introduces_of_ne (h : a ≠ g.esc) (s : List α) : g.introduces (a :: s) = false := by
  rw [Bool.eq_false_iff]
  intro hi
  obtain ⟨t, ht⟩ := introduces_iff.mp hi
  exact h (List.cons.inj ht).1

theorem sequence_eq_some {n : Nat} : g.sequence s = some n ↔
    ∃ params t, (∀ c ∈ params, g.param c = true) ∧ n = params.length + 3 ∧
      s = g.esc :: g.bracket :: (params ++ g.final :: t) := by
  unfold sequence
  dsimp only
  constructor
  · intro h
    split at h
    case isFalse => cases h
    case isTrue hc =>
      obtain ⟨hintro, hfinal⟩ := hc
      obtain ⟨u, rfl⟩ := introduces_iff.mp hintro
      simp only [List.drop_succ_cons, List.drop_zero] at h hfinal
      have hsplit := List.takeWhile_append_dropWhile (p := g.param) (l := u)
      have hp : ∀ c ∈ u.takeWhile g.param, g.param c = true := fun c hc =>
        List.mem_takeWhile_imp hc
      generalize u.takeWhile g.param = x at hsplit hp h hfinal
      generalize u.dropWhile g.param = y at hsplit
      rw [← hsplit, List.getElem?_append_right (Nat.le_refl _), Nat.sub_self] at hfinal
      cases y with
      | nil => cases hfinal
      | cons c t =>
        obtain rfl := Option.some.inj hfinal
        exact ⟨x, t, hp, (Option.some.inj h).symm, by rw [← hsplit]⟩
  · rintro ⟨params, t, hp, rfl, rfl⟩
    have hparams : (params ++ g.final :: t).takeWhile g.param = params := by
      rw [List.takeWhile_append_of_pos hp, List.takeWhile_cons_of_neg (by simp [g.param_final])]
      exact List.append_nil _
    simp only [List.drop_succ_cons, List.drop_zero, hparams]
    rw [if_pos ⟨introduces_iff.mpr ⟨_, rfl⟩, by simp⟩]

theorem removeFrom_eq (n : Nat) (s : List α) : g.removeFrom n s = g.remove (s.drop n) := by
  induction n generalizing s with
  | zero => rfl
  | succ n ih =>
    cases s with
    | nil => rfl
    | cons a s => exact ih s

theorem remove_sequence (hp : ∀ c ∈ params, g.param c = true) (t : List α) :
    g.remove (g.esc :: g.bracket :: (params ++ g.final :: t)) = g.remove t := by
  have hseq : g.sequence (g.esc :: g.bracket :: (params ++ g.final :: t)) =
      some (params.length + 3) := sequence_eq_some.mpr ⟨params, t, hp, rfl, rfl⟩
  rw [remove, removeFrom, hseq]
  dsimp only
  rw [removeFrom_eq]
  congr 1
  simp

theorem remove_cons (h : g.sequence (a :: s) = none) : g.remove (a :: s) = a :: g.remove s := by
  rw [remove, removeFrom, h]
  rfl

/-- What is left keeps its order. -/
theorem removeFrom_sublist (n : Nat) (s : List α) : (g.removeFrom n s).Sublist s := by
  induction s generalizing n with
  | nil => cases n <;> exact .slnil
  | cons a s ih =>
    cases n with
    | succ n => exact (ih n).cons a
    | zero =>
      rw [removeFrom]
      cases g.sequence (a :: s) with
      | some n => exact (ih (n - 1)).cons a
      | none => exact (ih 0).cons_cons a

theorem remove_sublist : (g.remove s).Sublist s := removeFrom_sublist 0 s

theorem sequence_of_introduces (h : g.introduces s = false) : g.sequence s = none := by
  simp [sequence, h]

/-- An introducer is one in the text that is left, unless it begins a sequence. -/
theorem introduces_remove (h : g.introduces (a :: s) = true) :
    g.introduces (a :: g.remove s) = true := by
  obtain ⟨t, ht⟩ := introduces_iff.mp h
  obtain ⟨rfl, rfl⟩ := List.cons.inj ht
  rw [remove_cons (sequence_of_introduces (introduces_of_ne g.bracket_ne t))]
  exact introduces_iff.mpr ⟨_, rfl⟩

theorem Erases.length_lt (h : g.Erases s s') : s'.length < s.length := by
  induction h with
  | here hp =>
    simp only [List.length_cons, List.length_append]
    omega
  | cons ha h ih =>
    simp only [List.length_cons]
    omega

/-- **The first introducer.** A clean text has none, or the sequence it begins is taken out
and the text is still clean. -/
theorem Clean.cases (h : g.Clean s) : g.hasIntroducer s = false ∧ g.remove s = s ∨
    ∃ s', g.Erases s s' ∧ g.Clean s' ∧ g.remove s' = g.remove s := by
  induction s with
  | nil => exact .inl ⟨rfl, rfl⟩
  | cons a s ih =>
    cases hseq : g.sequence (a :: s) with
    | some n =>
      obtain ⟨params, t, hp, -, hs⟩ := sequence_eq_some.mp hseq
      have hrem := remove_sequence hp t
      rw [← hs] at hrem
      refine .inr ⟨t, hs ▸ .here hp, ?_, hrem.symm⟩
      rw [Clean, ← hrem]
      exact h
    | none =>
      rw [Clean, remove_cons hseq, hasIntroducer, Bool.or_eq_false_iff] at h
      obtain ⟨hfront, hs⟩ := h
      -- what stands behind `a` stays there, so `a` does not begin an introducer before either
      have hnot : ∀ u, g.remove u = g.remove s → g.introduces (a :: u) = false := by
        intro u hu
        rw [Bool.eq_false_iff]
        intro hi
        rw [← hu, introduces_remove hi] at hfront
        cases hfront
      rcases ih hs with ⟨hno, heq⟩ | ⟨s', he, hclean, heq⟩
      · refine .inl ⟨?_, ?_⟩
        · rw [hasIntroducer, hnot s rfl, hno]
          rfl
        · rw [remove_cons hseq, heq]
      · have hcons := remove_cons (sequence_of_introduces (hnot s' heq))
        refine .inr ⟨a :: s', .cons (hnot s rfl) he, ?_, ?_⟩
        · rw [Clean, hcons, heq, hasIntroducer, hfront, hs]
          rfl
        · rw [hcons, heq, remove_cons hseq]

/-! ## Texts one behind the other -/

/-- Nothing in front can begin a sequence. -/
theorem remove_append (h : g.esc ∉ s) (t : List α) : g.remove (s ++ t) = s ++ g.remove t := by
  induction s with
  | nil => rfl
  | cons a s ih =>
    rw [List.mem_cons, not_or] at h
    have hfront := introduces_of_ne (g := g) (Ne.symm h.1) (s ++ t)
    rw [List.cons_append, remove_cons (sequence_of_introduces hfront), ih h.2]
    rfl

theorem length_of_sequence {n : Nat} (h : g.sequence s = some n) : 3 ≤ n ∧ n ≤ s.length := by
  obtain ⟨params, t, -, rfl, rfl⟩ := sequence_eq_some.mp h
  simp only [List.length_cons, List.length_append]
  omega

/-- No sequence goes on behind the first letter of another. -/
theorem sequence_append_esc (hs : s ≠ []) (t : List α) :
    g.sequence (s ++ g.esc :: t) = g.sequence s := by
  ext n
  rw [sequence_eq_some, sequence_eq_some]
  constructor
  · rintro ⟨params, u, hp, rfl, heq⟩
    have hsplit : s ++ g.esc :: t = (g.esc :: g.bracket :: (params ++ [g.final])) ++ u := by
      simpa using heq
    rcases List.append_eq_append_iff.mp hsplit with ⟨v, hv, htail⟩ | ⟨v, hv, -⟩
    · cases v with
      | nil => exact ⟨params, [], hp, rfl, by simpa using hv.symm⟩
      | cons c v =>
        -- the letter would stand inside the sequence, behind its first one
        obtain ⟨rfl, -⟩ := List.cons.inj htail
        obtain ⟨b, s, rfl⟩ := List.exists_cons_of_ne_nil hs
        obtain ⟨-, htl⟩ := List.cons.inj hv
        have hmem : g.esc ∈ g.bracket :: (params ++ [g.final]) := by
          rw [htl]
          simp
        rcases List.mem_cons.mp hmem with hb | hmem
        · exact absurd hb.symm g.bracket_ne
        · rcases List.mem_append.mp hmem with hq | hf
          · have := hp _ hq
            rw [g.param_esc] at this
            cases this
          · exact absurd (List.mem_singleton.mp hf).symm g.final_ne
    · exact ⟨params, v, hp, rfl, by simpa using hv⟩
  · rintro ⟨params, u, hp, rfl, rfl⟩
    exact ⟨params, u ++ g.esc :: t, hp, rfl, by simp⟩

theorem removeFrom_append_esc {n : Nat} (h : n ≤ s.length) (t : List α) :
    g.removeFrom n (s ++ g.esc :: t) = g.removeFrom n s ++ g.remove (g.esc :: t) := by
  induction s generalizing n with
  | nil =>
    obtain rfl : n = 0 := Nat.le_zero.mp h
    rfl
  | cons a s ih =>
    cases n with
    | succ n => exact ih (Nat.le_of_succ_le_succ h)
    | zero =>
      have hseq := sequence_append_esc (g := g) (List.cons_ne_nil a s) t
      rw [List.cons_append] at hseq ⊢
      rw [removeFrom, removeFrom, hseq]
      cases hlen : g.sequence (a :: s) with
      | none =>
        dsimp only
        rw [ih (Nat.zero_le _)]
        rfl
      | some n =>
        have hn := length_of_sequence hlen
        rw [List.length_cons] at hn
        exact ih (by omega)

/-- A text in front of a sequence. -/
theorem remove_append_esc (s t : List α) :
    g.remove (s ++ g.esc :: t) = g.remove s ++ g.remove (g.esc :: t) :=
  removeFrom_append_esc (Nat.zero_le _) t

theorem hasIntroducer_append (h : g.esc ∉ s) (t : List α) :
    g.hasIntroducer (s ++ t) = g.hasIntroducer t := by
  induction s with
  | nil => rfl
  | cons a s ih =>
    rw [List.mem_cons, not_or] at h
    rw [List.cons_append, hasIntroducer, introduces_of_ne (Ne.symm h.1), ih h.2]
    rfl

theorem hasIntroducer_concat (h : a ≠ g.bracket) (s : List α) :
    g.hasIntroducer (s ++ [a]) = g.hasIntroducer s := by
  induction s with
  | nil => simp [hasIntroducer, introduces]
  | cons b s ih =>
    rw [List.cons_append, hasIntroducer, hasIntroducer, ih]
    cases s with
    | nil => simp [introduces, h]
    | cons c s => rfl

end Escapes

end Rxs.Core
