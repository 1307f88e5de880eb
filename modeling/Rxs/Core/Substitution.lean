import Mathlib.Data.List.Basic
import Mathlib.Tactic.Common
import Mathlib.Tactic.Ring

/-!
# Replacing a pattern

`replaceAll t v` puts `v` in place of every occurrence of `t`, from left to right, and goes
on behind what it put in. A text with gaps that is filled with `t` is meant to have `v` in
the gaps. It does, where `t` does not occur anywhere else.

* `scan_induction`: a text with gaps is read as replacing reads it.
* `replaceAll_fill_iff`: what replacing fills, for a pattern that does not overlap itself.
-/
namespace Rxs.Core.Substitution

variable {α : Type*}

/-! ## Texts with gaps -/

def fill (v : List α) (q : List (Option α)) : List α :=
  q.flatMap fun
    | none => v
    | some c => [c]

@[simp] theorem fill_nil (v : List α) : fill v [] = [] := rfl

@[simp] theorem fill_none (v : List α) (q : List (Option α)) :
    fill v (none :: q) = v ++ fill v q := rfl

@[simp] theorem fill_some (v : List α) (c : α) (q : List (Option α)) :
    fill v (some c :: q) = c :: fill v q := rfl

@[simp] theorem fill_append (v : List α) (q r : List (Option α)) :
    fill v (q ++ r) = fill v q ++ fill v r := List.flatMap_append

@[simp] theorem fill_map (v s : List α) : fill v (s.map some) = s := by
  induction s with
  | nil => rfl
  | cons c s ih => simp [ih]

/-- Where `t` stands in the text filled with it, there is a gap. -/
def OnlyGaps (t : List α) (q : List (Option α)) : Prop :=
  ∀ pre post, fill t q = pre ++ t ++ post →
    ∃ q₁ q₂, q = q₁ ++ none :: q₂ ∧ fill t q₁ = pre ∧ fill t q₂ = post

/-- No end of the pattern is a beginning of it. -/
structure Unbordered (t : List α) : Prop where
  ne_nil : t ≠ []
  unbordered : ∀ x y z, t = x ++ y → t = y ++ z → x = [] ∨ y = []

/-- The last letter occurs only there. -/
theorem unbordered_append_singleton {init : List α} {c : α} (h : c ∉ init) :
    Unbordered (init ++ [c]) where
  ne_nil := by simp
  unbordered x y z hx hz := by
    rcases y.eq_nil_or_concat with rfl | ⟨u, d, rfl⟩
    · exact Or.inr rfl
    · left
      rw [List.concat_eq_append] at hx hz
      have hlen := congrArg List.length hx
      rw [← List.append_assoc] at hx
      have hcd : c = d := by simpa using (List.append_inj' hx rfl).2
      subst hcd
      rcases z.eq_nil_or_concat with rfl | ⟨w, e, rfl⟩
      · have hlen' := congrArg List.length hz
        simp only [List.append_nil, List.length_append] at hlen hlen'
        exact List.length_eq_zero_iff.mp (by omega)
      · rw [List.concat_eq_append, ← List.append_assoc] at hz
        have hinit : init = u ++ [c] ++ w := (List.append_inj' hz rfl).1
        exact absurd (by simp [hinit]) h

section Gaps

variable {t : List α}

theorem eq_nil_of_fill {q : List (Option α)} (ht : t ≠ []) (h : fill t q = []) : q = [] := by
  cases q with
  | nil => rfl
  | cons g q =>
    cases g with
    | none => simp [ht] at h
    | some c => simp at h

theorem onlyGaps_nil (ht : t ≠ []) : OnlyGaps t [] := by
  intro pre post h
  have := congrArg List.length h
  have := List.length_pos_iff.mpr ht
  simp at *
  omega

theorem onlyGaps_some (ht : t ≠ []) (c : α) (q : List (Option α)) :
    OnlyGaps t (some c :: q) ↔ ¬t <+: c :: fill t q ∧ OnlyGaps t q := by
  constructor
  · intro h
    constructor
    · rintro ⟨post, hpost⟩
      obtain ⟨q₁, q₂, hq, hpre, -⟩ := h [] post (by simpa using hpost.symm)
      rw [eq_nil_of_fill ht hpre] at hq
      simp at hq
    · intro pre post hocc
      obtain ⟨q₁, q₂, hq, hpre, hpost⟩ := h (c :: pre) post (by simp [hocc])
      cases q₁ with
      | nil => simp at hpre
      | cons g q₁ =>
        obtain ⟨rfl, rfl⟩ := List.cons.inj hq
        exact ⟨q₁, q₂, rfl, by simpa using hpre, hpost⟩
  · rintro ⟨hfront, h⟩ pre post hocc
    cases pre with
    | nil => exact absurd ⟨post, by simpa using hocc.symm⟩ hfront
    | cons d pre =>
      simp only [fill_some, List.cons_append] at hocc
      obtain ⟨rfl, hrest⟩ := List.cons.inj hocc
      obtain ⟨q₁, q₂, rfl, hpre, hpost⟩ := h pre post hrest
      exact ⟨some c :: q₁, q₂, rfl, by simp [hpre], hpost⟩

theorem onlyGaps_none (U : Unbordered t) (q : List (Option α)) :
    OnlyGaps t (none :: q) ↔ OnlyGaps t q := by
  constructor
  · intro h pre post hocc
    obtain ⟨q₁, q₂, hq, hpre, hpost⟩ := h (t ++ pre) post (by simp [hocc])
    cases q₁ with
    | nil => simp [U.ne_nil] at hpre
    | cons g q₁ =>
      obtain ⟨rfl, rfl⟩ := List.cons.inj hq
      exact ⟨q₁, q₂, rfl, by simpa using hpre, hpost⟩
  · intro h pre post hocc
    rw [fill_none, List.append_assoc] at hocc
    rcases List.append_eq_append_iff.mp hocc with ⟨mid, rfl, hmid⟩ | ⟨mid, hmid, htail⟩
    · obtain ⟨q₁, q₂, rfl, hpre, hpost⟩ := h mid post (by simpa using hmid)
      exact ⟨none :: q₁, q₂, rfl, by simp [hpre], hpost⟩
    · -- the occurrence begins inside the gap
      have hlen := congrArg List.length hmid
      rw [List.length_append] at hlen
      obtain ⟨z, hz⟩ : ∃ z, t = mid ++ z := by
        rcases List.append_eq_append_iff.mp htail with ⟨z, hz, -⟩ | ⟨z, hz, -⟩
        · have := congrArg List.length hz
          rw [List.length_append] at this
          have hnil : z = [] := List.length_eq_zero_iff.mp (by omega)
          exact ⟨[], by simpa [hnil] using hz.symm⟩
        · exact ⟨z, hz⟩
      rcases U.unbordered pre mid z hmid hz with rfl | rfl
      · exact ⟨[], q, rfl, rfl, by simpa using hocc⟩
      · have hpre : pre = t := by simpa using hmid.symm
        subst hpre
        obtain ⟨q₁, q₂, rfl, hpre, hpost⟩ := h [] post (by simpa using htail.symm)
        exact ⟨none :: q₁, q₂, rfl, by simp [hpre], hpost⟩

/-- An occurrence that begins with a letter has no gap in it. -/
theorem eq_map_append (U : Unbordered t) {x y : List α} (hxy : t = x ++ y) (hx : x ≠ [])
    {q : List (Option α)} {post : List α} (h : fill t q = y ++ post) :
    ∃ q', q = y.map some ++ q' ∧ fill t q' = post := by
  induction y generalizing x q with
  | nil => exact ⟨q, rfl, by simpa using h⟩
  | cons a y ih =>
    cases q with
    | nil => simp at h
    | cons g q =>
      cases g with
      | none =>
        have hlen := congrArg List.length hxy
        rw [List.length_append] at hlen
        have hx' := List.length_pos_iff.mpr hx
        rw [fill_none] at h
        exfalso
        rcases List.append_eq_append_iff.mp h with ⟨z, hz, -⟩ | ⟨z, hz, -⟩
        · have := congrArg List.length hz
          rw [List.length_append] at this
          omega
        · rcases U.unbordered x (a :: y) z hxy hz with h' | h'
          · exact hx h'
          · simp at h'
      | some b =>
        simp only [fill_some, List.cons_append] at h
        obtain ⟨rfl, hrest⟩ := List.cons.inj h
        obtain ⟨q', rfl, hq'⟩ := ih (x := x ++ [b]) (by simpa using hxy) (by simp) hrest
        exact ⟨q', rfl, hq'⟩

/-- A text with gaps is read from left to right: gaps, letters where `t` does not begin, and
whole occurrences of `t` beside the gaps. -/
theorem scan_induction (U : Unbordered t) {motive : List (Option α) → Prop}
    (nil : motive [])
    (gap : ∀ q, motive q → motive (none :: q))
    (letter : ∀ c q, ¬t <+: c :: fill t q → motive q → motive (some c :: q))
    (extra : ∀ q, motive q → motive (t.map some ++ q)) (q : List (Option α)) : motive q := by
  induction hn : q.length using Nat.strongRecOn generalizing q with
  | ind n ih =>
    cases q with
    | nil => exact nil
    | cons g q =>
      rw [List.length_cons] at hn
      cases g with
      | none => exact gap q (ih q.length (by omega) q rfl)
      | some c =>
        by_cases hfront : t <+: c :: fill t q
        · obtain ⟨post, hpost⟩ := hfront
          obtain ⟨d, y, rfl⟩ := List.exists_cons_of_ne_nil U.ne_nil
          obtain ⟨rfl, hfill⟩ := List.cons.inj hpost
          obtain ⟨q', rfl, -⟩ := eq_map_append U (x := [d]) rfl (by simp) hfill.symm
          have hlt : q'.length < n := by
            simp only [List.length_append, List.length_map] at hn
            omega
          exact extra q' (ih q'.length hlt q' rfl)
        · exact letter c q hfront (ih q.length (by omega) q rfl)

end Gaps

/-! ## Replacing -/

section Replace

variable [DecidableEq α]

/-- `skip` letters are left of an occurrence that was replaced. -/
def replaceFrom (t v : List α) : Nat → List α → List α
  | _, [] => []
  | skip + 1, _ :: s => replaceFrom t v skip s
  | 0, c :: s =>
    if t.isPrefixOf (c :: s) then v ++ replaceFrom t v (t.length - 1) s
    else c :: replaceFrom t v 0 s

def replaceAll (t v s : List α) : List α := replaceFrom t v 0 s

variable {t v : List α}

theorem replaceFrom_eq (skip : Nat) (s : List α) :
    replaceFrom t v skip s = replaceAll t v (s.drop skip) := by
  induction skip generalizing s with
  | zero => rfl
  | succ skip ih =>
    cases s with
    | nil => rfl
    | cons c s => exact ih s

@[simp] theorem replaceAll_nil : replaceAll t v [] = [] := rfl

theorem replaceAll_append (ht : t ≠ []) (s : List α) :
    replaceAll t v (t ++ s) = v ++ replaceAll t v s := by
  obtain ⟨c, y, rfl⟩ := List.exists_cons_of_ne_nil ht
  have hfront : (c :: y).isPrefixOf (c :: (y ++ s)) = true :=
    List.isPrefixOf_iff_prefix.mpr ⟨s, rfl⟩
  rw [replaceAll, List.cons_append, replaceFrom, if_pos hfront, replaceFrom_eq]
  simp

theorem replaceAll_cons {c : α} {s : List α} (h : ¬t <+: c :: s) :
    replaceAll t v (c :: s) = c :: replaceAll t v s := by
  have hfront : ¬t.isPrefixOf (c :: s) = true := fun h' =>
    h (List.isPrefixOf_iff_prefix.mp h')
  rw [replaceAll, replaceFrom, if_neg hfront]
  rfl

theorem replaceAll_self (U : Unbordered t) (q : List (Option α)) :
    replaceAll t t (fill t q) = fill t q := by
  induction q using scan_induction U with
  | nil => rfl
  | gap q ih => rw [fill_none, replaceAll_append U.ne_nil, ih]
  | letter c q hfront ih => rw [fill_some, replaceAll_cons hfront, ih]
  | extra q ih => rw [fill_append, fill_map, replaceAll_append U.ne_nil, ih]

theorem replaceAll_fill (U : Unbordered t) (v : List α) {q : List (Option α)}
    (h : OnlyGaps t q) : replaceAll t v (fill t q) = fill v q := by
  induction q with
  | nil => rfl
  | cons g q ih =>
    cases g with
    | none =>
      rw [fill_none, fill_none, replaceAll_append U.ne_nil, ih ((onlyGaps_none U q).mp h)]
    | some c =>
      obtain ⟨hfront, h⟩ := (onlyGaps_some U.ne_nil c q).mp h
      rw [fill_some, fill_some, replaceAll_cons hfront, ih h]

/-- The lengths differ by the occurrences that are no gaps. -/
theorem exists_extra (U : Unbordered t) (v : List α) (q : List (Option α)) :
    ∃ k, (replaceAll t v (fill t q)).length + k * t.length = (fill v q).length + k * v.length ∧
      (k = 0 → OnlyGaps t q) := by
  induction q using scan_induction U with
  | nil => exact ⟨0, by simp, fun _ => onlyGaps_nil U.ne_nil⟩
  | gap q ih =>
    obtain ⟨k, hlen, hk⟩ := ih
    refine ⟨k, ?_, fun h0 => (onlyGaps_none U q).mpr (hk h0)⟩
    rw [fill_none, fill_none, replaceAll_append U.ne_nil, List.length_append,
      List.length_append]
    omega
  | letter c q hfront ih =>
    obtain ⟨k, hlen, hk⟩ := ih
    refine ⟨k, ?_, fun h0 => (onlyGaps_some U.ne_nil c q).mpr ⟨hfront, hk h0⟩⟩
    rw [fill_some, fill_some, replaceAll_cons hfront, List.length_cons, List.length_cons]
    omega
  | extra q ih =>
    obtain ⟨k, hlen, -⟩ := ih
    refine ⟨k + 1, ?_, fun h0 => by omega⟩
    rw [fill_append, fill_append, fill_map, fill_map, replaceAll_append U.ne_nil,
      List.length_append, List.length_append, Nat.add_mul, Nat.add_mul]
    omega

theorem onlyGaps_of_length_eq (U : Unbordered t) (hlen : v.length = t.length)
    {q : List (Option α)} (h : replaceAll t v (fill t q) = fill v q) :
    v = t ∨ OnlyGaps t q := by
  induction q using scan_induction U with
  | nil => exact Or.inr (onlyGaps_nil U.ne_nil)
  | gap q ih =>
    rw [fill_none, fill_none, replaceAll_append U.ne_nil] at h
    exact (ih (List.append_cancel_left h)).imp_right (onlyGaps_none U q).mpr
  | letter c q hfront ih =>
    rw [fill_some, fill_some, replaceAll_cons hfront] at h
    exact (ih (List.cons.inj h).2).imp_right fun h' =>
      (onlyGaps_some U.ne_nil c q).mpr ⟨hfront, h'⟩
  | extra q _ =>
    rw [fill_append, fill_append, fill_map, fill_map, replaceAll_append U.ne_nil] at h
    exact Or.inl (List.append_inj_left h hlen)

/-- Replacing fills the gaps and changes nothing else, exactly where the pattern stands in
no other place, or is put in its own place. -/
theorem replaceAll_fill_iff (U : Unbordered t) (v : List α) (q : List (Option α)) :
    replaceAll t v (fill t q) = fill v q ↔ v = t ∨ OnlyGaps t q := by
  constructor
  · intro h
    by_cases hlen : v.length = t.length
    · exact onlyGaps_of_length_eq U hlen h
    · obtain ⟨k, hk, hgaps⟩ := exists_extra U v q
      rw [h] at hk
      have h0 : k = 0 := by
        by_contra hne
        exact hlen (Nat.eq_of_mul_eq_mul_left (Nat.pos_of_ne_zero hne) (by omega)).symm
      exact Or.inr (hgaps h0)
  · rintro (rfl | h)
    · exact replaceAll_self U q
    · exact replaceAll_fill U v h

end Replace

end Rxs.Core.Substitution
