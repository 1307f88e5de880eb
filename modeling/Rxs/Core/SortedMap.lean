import Mathlib.Data.List.Basic
import Mathlib.Tactic.Common

/-!
# Ordered maps

A map is the list of its entries in the order of the keys. A key is looked for at the first
entry that is not before it, and found there unless it is before that entry. The comparison
is transitive and irreflexive only: of two keys that it does not tell apart, the map keeps
the one that came first.

* `find_insert_self`, `find_insert_of_lt`: what is found after an insertion.
* `foldl_insert`: the entries, inserted in their order, make the map again.
-/
namespace Rxs.Core

structure StrictOrder {κ : Type*} (lt : κ → κ → Bool) : Prop where
  irrefl : ∀ a, lt a a = false
  trans : ∀ a b c, lt a b = true → lt b c = true → lt a c = true

theorem StrictOrder.asymm {κ : Type*} {lt : κ → κ → Bool} (O : StrictOrder lt) {a b : κ}
    (h : lt a b = true) : lt b a = false := by
  rw [Bool.eq_false_iff]
  intro h'
  have := O.trans a b a h h'
  simp [O.irrefl] at this

namespace SortedMap

variable {κ υ : Type*} {lt : κ → κ → Bool}

def Sorted (lt : κ → κ → Bool) (m : List (κ × υ)) : Prop :=
  m.Pairwise fun a b => lt a.1 b.1 = true

def find (lt : κ → κ → Bool) : List (κ × υ) → κ → Option (κ × υ)
  | [], _ => none
  | e :: m, k => if lt e.1 k then find lt m k else if lt k e.1 then none else some e

/-- An entry that is there stays. -/
def insert (lt : κ → κ → Bool) : List (κ × υ) → κ → υ → List (κ × υ)
  | [], k, v => [(k, v)]
  | e :: m, k, v =>
    if lt e.1 k then e :: insert lt m k v
    else if lt k e.1 then (k, v) :: e :: m
    else e :: m

/-- An entry that is there gets the value. -/
def assign (lt : κ → κ → Bool) : List (κ × υ) → κ → υ → List (κ × υ)
  | [], k, v => [(k, v)]
  | e :: m, k, v =>
    if lt e.1 k then e :: assign lt m k v
    else if lt k e.1 then (k, v) :: e :: m
    else (e.1, v) :: m

attribute [grind =] find insert assign

theorem mem_of_find {m : List (κ × υ)} {k : κ} {e : κ × υ} (h : find lt m k = some e) :
    e ∈ m ∧ lt e.1 k = false ∧ lt k e.1 = false := by
  induction m with
  | nil => simp [find] at h
  | cons d m ih =>
    rw [find] at h
    split at h
    · have := ih h
      exact ⟨List.mem_cons_of_mem _ this.1, this.2⟩
    · split at h
      · simp at h
      · cases h
        exact ⟨List.mem_cons_self, by simp_all, by simp_all⟩

theorem mem_insert {m : List (κ × υ)} {k : κ} {v : υ} {e : κ × υ} (h : e ∈ insert lt m k v) :
    e = (k, v) ∨ e ∈ m := by
  induction m with
  | nil => exact Or.inl (List.mem_singleton.mp h)
  | cons d m ih =>
    rw [insert] at h
    split at h
    · rcases List.mem_cons.mp h with rfl | h
      · exact Or.inr List.mem_cons_self
      · exact (ih h).imp_right (List.mem_cons_of_mem _)
    · split at h
      · exact List.mem_cons.mp h
      · exact Or.inr h

theorem sorted_insert (O : StrictOrder lt) {m : List (κ × υ)} (hs : Sorted lt m) (k : κ) (v : υ) :
    Sorted lt (insert lt m k v) := by
  induction m with
  | nil => exact List.pairwise_singleton _ _
  | cons d m ih =>
    obtain ⟨hd, hm⟩ := List.pairwise_cons.mp hs
    rw [insert]
    split
    case isTrue hdk =>
      refine List.pairwise_cons.mpr ⟨?_, ih hm⟩
      intro e he
      rcases mem_insert he with rfl | he
      · exact hdk
      · exact hd e he
    case isFalse =>
      split
      case isTrue hkd =>
        refine List.pairwise_cons.mpr ⟨?_, hs⟩
        intro e he
        rcases List.mem_cons.mp he with rfl | he
        · exact hkd
        · exact O.trans _ _ _ hkd (hd e he)
      case isFalse => exact hs

/-- What is there is found. -/
theorem find_of_mem (O : StrictOrder lt) {m : List (κ × υ)} (hs : Sorted lt m) {e : κ × υ}
    (he : e ∈ m) : (find lt m e.1).isSome := by
  induction m with
  | nil => simp at he
  | cons d m ih =>
    obtain ⟨hd, hm⟩ := List.pairwise_cons.mp hs
    rw [find]
    rcases List.mem_cons.mp he with rfl | he
    · simp [O.irrefl]
    · rw [if_pos (hd e he)]
      exact ih hm he

/-- A new entry comes between two parts of the map. -/
theorem insert_of_find {m : List (κ × υ)} {k : κ} (v : υ) (h : find lt m k = none) :
    ∃ m₁ m₂, m = m₁ ++ m₂ ∧ insert lt m k v = m₁ ++ (k, v) :: m₂ := by
  induction m with
  | nil => exact ⟨[], [], rfl, rfl⟩
  | cons d m ih =>
    rw [find] at h
    rw [insert]
    split
    case isTrue hdk =>
      rw [if_pos hdk] at h
      obtain ⟨m₁, m₂, rfl, hins⟩ := ih h
      exact ⟨d :: m₁, m₂, rfl, by rw [hins]; rfl⟩
    case isFalse hdk =>
      rw [if_neg hdk] at h
      split
      case isTrue => exact ⟨[], d :: m, rfl, rfl⟩
      case isFalse hkd => simp [hkd] at h

theorem find_insert_self (O : StrictOrder lt) (m : List (κ × υ)) (k : κ) (v : υ) :
    (find lt (insert lt m k v) k).isSome := by
  induction m with
  | nil => simp [insert, find, O.irrefl]
  | cons d m ih =>
    rw [insert]
    split
    case isTrue hdk =>
      rw [find, if_pos hdk]
      exact ih
    case isFalse hdk =>
      split
      case isTrue => simp [find, O.irrefl]
      case isFalse hkd => simp [find, hdk, hkd]

/-- A key the comparison tells from the new one is found as before. -/
theorem find_insert_of_lt (O : StrictOrder lt) (m : List (κ × υ)) {k k' : κ} (v : υ)
    (h : lt k k' = true ∨ lt k' k = true) : find lt (insert lt m k v) k' = find lt m k' := by
  induction m with
  | nil =>
    rcases h with h | h
    · simp [insert, find, h]
    · simp [insert, find, h, O.asymm h]
  | cons d m ih =>
    rw [insert]
    split
    · rw [find, find, ih]
    · split
      case isTrue hkd =>
        rcases h with h | h
        · rw [find, if_pos h]
        · have hd := O.trans _ _ _ h hkd
          simp [find, h, O.asymm h, hd, O.asymm hd]
      case isFalse => rfl

/-- No insertion hides an entry. -/
theorem find_insert_of_isSome (O : StrictOrder lt) (m : List (κ × υ)) {k k' : κ} (v : υ)
    (h : (find lt m k').isSome) : (find lt (insert lt m k v) k').isSome := by
  by_cases hk : lt k k' = true ∨ lt k' k = true
  · rwa [find_insert_of_lt O m v hk]
  · rw [not_or, Bool.not_eq_true, Bool.not_eq_true] at hk
    induction m with
    | nil => simp [find] at h
    | cons d m ih =>
      rw [insert]
      rw [find] at h
      split
      case isTrue =>
        rw [find]
        split
        case isTrue hd' =>
          rw [if_pos hd'] at h
          exact ih h
        case isFalse hd' => rwa [if_neg hd'] at h
      case isFalse =>
        split
        case isTrue => simp [find, hk.1, hk.2]
        case isFalse => rwa [find]

theorem insert_of_isSome {m : List (κ × υ)} {k : κ} (v : υ) (h : (find lt m k).isSome) :
    insert lt m k v = m := by
  induction m with
  | nil => simp [find] at h
  | cons d m ih =>
    rw [find] at h
    rw [insert]
    split
    case isTrue hdk =>
      rw [if_pos hdk] at h
      rw [ih h]
    case isFalse hdk =>
      rw [if_neg hdk] at h
      split
      case isTrue hkd => simp [hkd] at h
      case isFalse => rfl

theorem find_assign_self (O : StrictOrder lt) (m : List (κ × υ)) (k : κ) (v : υ) :
    (find lt (assign lt m k v) k).map (·.2) = some v := by
  induction m with
  | nil => simp [assign, find, O.irrefl]
  | cons d m ih =>
    rw [assign]
    split
    case isTrue hdk =>
      rw [find, if_pos hdk]
      exact ih
    case isFalse hdk =>
      split
      case isTrue => simp [find, O.irrefl]
      case isFalse hkd => simp [find, hdk, hkd]

theorem find_assign_of_lt (O : StrictOrder lt) {m : List (κ × υ)} (hnone : find lt m k = none)
    {k' : κ} (v : υ) (h : lt k k' = true ∨ lt k' k = true) :
    find lt (assign lt m k v) k' = find lt m k' := by
  have heq : assign lt m k v = insert lt m k v := by
    induction m with
    | nil => rfl
    | cons d m ih =>
      rw [find] at hnone
      rw [assign, insert]
      split
      case isTrue hdk =>
        rw [if_pos hdk] at hnone
        rw [ih hnone]
      case isFalse hdk =>
        rw [if_neg hdk] at hnone
        split
        case isTrue => rfl
        case isFalse hkd => simp [hkd] at hnone
  rw [heq, find_insert_of_lt O m v h]

theorem insert_last {m : List (κ × υ)} {k : κ} (v : υ) (h : ∀ e ∈ m, lt e.1 k = true) :
    insert lt m k v = m ++ [(k, v)] := by
  induction m with
  | nil => rfl
  | cons d m ih =>
    rw [insert, if_pos (h d List.mem_cons_self), List.cons_append,
      ih fun e he => h e (List.mem_cons_of_mem _ he)]

theorem foldl_insert_append {m n : List (κ × υ)} (h : Sorted lt (m ++ n)) :
    n.foldl (fun m e => insert lt m e.1 e.2) m = m ++ n := by
  induction n generalizing m with
  | nil => simp
  | cons e n ih =>
    have hlast : ∀ d ∈ m, lt d.1 e.1 = true := fun d hd =>
      (List.pairwise_append.mp h).2.2 d hd e List.mem_cons_self
    rw [List.foldl_cons, insert_last e.2 hlast, ih (by simpa using h)]
    simp

/-- The entries of a map, inserted in their order. -/
theorem foldl_insert {m : List (κ × υ)} (h : Sorted lt m) :
    m.foldl (fun m e => insert lt m e.1 e.2) [] = m := by
  simpa using foldl_insert_append (m := []) h

end SortedMap

end Rxs.Core
