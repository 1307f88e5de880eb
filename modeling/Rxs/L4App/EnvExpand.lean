import Mathlib.Data.List.Induction
import Mathlib.Data.List.Nodup
import Mathlib.Data.List.TakeWhile
import Rxs.Core.Substitution
import Rxs.L2Machine.CString

/-!
# Placeholders in settings

`Env::expand` finds the placeholders `${name}` of a text, looks their names up, and then
replaces one after the other, in the order of a map, each wherever it stands in the text as
it is by then.

* `process_eq_iff`: one more placeholder is replaced where it stood in the text, exactly if
  it stands nowhere else by then.
* **`expand_simultaneous_iff`**: when all placeholders are replaced as if at once, whatever
  the order.
-/
namespace Rxs.L4.EnvExpand

open Rxs.Core Rxs.Core.Substitution Rxs.CString

/-! ## The text and its placeholders -/

/-- `\$\{([^}]+)\}` at the front. -/
def placeholderAt : Bytes → Option Bytes
  | 36 :: 123 :: rest =>
    let name := rest.takeWhile (· ≠ 125)
    if name ≠ [] ∧ name.length < rest.length then some name else none
  | _ => none

def token (name : Bytes) : Bytes := 36 :: 123 :: name ++ [125]

inductive Piece where
  | letter (c : UInt8)
  | placeholder (name : Bytes)
  deriving DecidableEq, Repr

/-- The matches of the iterator and what is between them; `skip` bytes are left of a match. -/
def piecesFrom : Nat → Bytes → List Piece
  | _, [] => []
  | skip + 1, _ :: s => piecesFrom skip s
  | 0, c :: s =>
    match placeholderAt (c :: s) with
    | some name => .placeholder name :: piecesFrom (name.length + 2) s
    | none => .letter c :: piecesFrom 0 s

def pieces (text : Bytes) : List Piece := piecesFrom 0 text

def placeholders (text : Bytes) : List Bytes :=
  (pieces text).filterMap fun
    | .letter _ => none
    | .placeholder name => some name

/-! ## The code -/

/-- Where names are looked up; a string is none where its data is null. -/
structure Env where
  m_variables : List (Bytes × Option Bytes)
  extra : List (Bytes × Option Bytes)
  getenv : Bytes → Option Bytes

/-- mirrors src/base/io/Env.cpp:120-141 -/
def get (env : Env) (name : Bytes) : Option Bytes :=
  match SortedMap.find strLt env.m_variables name with
  | some it => it.2
  | none =>
    match SortedMap.find strLt env.extra name with
    | some it => it.2
    | none => env.getenv name

/-- `std::less<std::string>`. -/
def textLt (s t : Bytes) : Bool := s < t

/-- mirrors src/base/io/Env.cpp:86-99 -/
def createVars (env : Env) (text : Bytes) : List (Bytes × Option Bytes) :=
  (placeholders text).foldl
    (fun vars name => SortedMap.insert textLt vars (token name) (get env name)) []

/-- mirrors src/base/io/Env.cpp:101-111 -/
def process (vars : List (Bytes × Option Bytes)) (text : Bytes) : Bytes :=
  vars.foldl
    (fun text kv =>
      match kv.2 with
      | none => text
      | some value => replaceAll kv.1 value text)
    text

/-- mirrors src/base/io/Env.cpp:74-117 -/
def expand (env : Env) (input : Option Bytes) : Option Bytes :=
  match input with
  | none => none
  | some input =>
    let text := cstr input
    if text.length < 4 then some text else some (process (createVars env text) text)

/-! ## What it is for -/

/-- The placeholders of the names have their values, the others and the names without one
are left. -/
def substitute (env : Env) (names : List Bytes) (text : Bytes) : Bytes :=
  (pieces text).flatMap fun
    | .letter c => [c]
    | .placeholder name => if name ∈ names then (get env name).getD (token name) else token name

/-- After any of the placeholders were replaced, in any order, the text has their values in
their places and is what it was elsewhere. So is the result. -/
structure Simultaneous (env : Env) (text : Bytes) : Prop where
  result : expand env (some text) = some (substitute env (placeholders (cstr text)) (cstr text))
  order : ∀ names : List Bytes, names.Nodup → names ⊆ placeholders (cstr text) →
    process (names.map fun name => (token name, get env name)) (cstr text) =
      substitute env names (cstr text)

/-- The text where others were replaced, with a gap in the place of each `name`. -/
def gaps (env : Env) (others : List Bytes) (name text : Bytes) : List (Option UInt8) :=
  (pieces text).flatMap fun
    | .letter c => [some c]
    | .placeholder n =>
      if n = name then [none]
      else
        (if n ∈ others then (get env n).getD (token n) else token n).map some

/-- Whatever others are replaced, `${name}` stands only where it stood, for every name with a
value of its own. -/
def Separate (env : Env) (text : Bytes) : Prop :=
  ∀ name ∈ placeholders text, ∀ value, get env name = some value → value ≠ token name →
    ∀ others : List Bytes, others.Nodup → others ⊆ placeholders text → name ∉ others →
      OnlyGaps (token name) (gaps env others name text)

/-! ## Placeholders -/

theorem placeholderAt_eq {s name : Bytes} (h : placeholderAt s = some name) :
    name ≠ [] ∧ 125 ∉ name ∧ ∃ rest, s = token name ++ rest := by
  unfold placeholderAt at h
  split at h
  case h_1 rest =>
    dsimp only at h
    split at h
    case isTrue hcond =>
      cases h
      have hname : ∀ c ∈ rest.takeWhile (· ≠ 125), c ≠ 125 := fun c hc => by
        simpa using List.mem_takeWhile_imp hc
      refine ⟨hcond.1, fun hmem => hname _ hmem rfl, ?_⟩
      have hsplit := List.takeWhile_append_dropWhile (p := (· ≠ (125 : UInt8))) (l := rest)
      cases hdrop : rest.dropWhile (· ≠ 125) with
      | nil =>
        rw [hdrop, List.append_nil] at hsplit
        have := congrArg List.length hsplit
        omega
      | cons c rest' =>
        have hc : c = 125 := by
          have := List.head?_dropWhile_not (p := (· ≠ (125 : UInt8))) (l := rest)
          rw [hdrop] at this
          simpa using this
        subst hc
        refine ⟨rest', ?_⟩
        rw [hdrop] at hsplit
        simp only [token, List.cons_append, List.append_assoc, List.nil_append, hsplit]
    case isFalse => cases h
  case h_2 => cases h

theorem length_token (name : Bytes) : (token name).length = name.length + 3 := by
  simp [token]

theorem token_inj {m n : Bytes} (h : token m = token n) : m = n := by
  simpa [token] using h

theorem unbordered_token {name : Bytes} (h : 125 ∉ name) : Unbordered (token name) := by
  have hinit : 125 ∉ 36 :: 123 :: name := by simp [h]
  exact unbordered_append_singleton hinit

/-- The pieces are those of the text. -/
theorem substitute_piecesFrom (skip : Nat) (s : Bytes) :
    ((piecesFrom skip s).flatMap fun
      | .letter c => [c]
      | .placeholder name => token name) = s.drop skip := by
  induction s generalizing skip with
  | nil => simp [piecesFrom]
  | cons c s ih =>
    cases skip with
    | succ skip => exact ih skip
    | zero =>
      rw [piecesFrom]
      split
      case h_1 name hat =>
        obtain ⟨-, -, rest, hrest⟩ := placeholderAt_eq hat
        have hs : s = 123 :: name ++ [125] ++ rest := (List.cons.inj hrest).2
        rw [List.flatMap_cons, ih, List.drop_zero, hrest, hs]
        have hlen : name.length + 2 = (123 :: name ++ [125]).length := by simp
        rw [hlen, List.drop_left]
      case h_2 =>
        rw [List.flatMap_cons, ih]
        rfl

theorem not_mem_of_mem_piecesFrom {skip : Nat} {s name : Bytes}
    (h : Piece.placeholder name ∈ piecesFrom skip s) : 125 ∉ name := by
  induction s generalizing skip with
  | nil => simp [piecesFrom] at h
  | cons c s ih =>
    cases skip with
    | succ skip => exact ih h
    | zero =>
      rw [piecesFrom] at h
      split at h
      case h_1 n hat =>
        rcases List.mem_cons.mp h with heq | h
        · cases heq
          exact (placeholderAt_eq hat).2.1
        · exact ih h
      case h_2 =>
        rcases List.mem_cons.mp h with heq | h
        · cases heq
        · exact ih h

theorem length_of_mem_piecesFrom {skip : Nat} {s name : Bytes}
    (h : Piece.placeholder name ∈ piecesFrom skip s) : 4 ≤ s.length := by
  induction s generalizing skip with
  | nil => simp [piecesFrom] at h
  | cons c s ih =>
    rw [List.length_cons]
    cases skip with
    | succ skip =>
      have := ih h
      omega
    | zero =>
      rw [piecesFrom] at h
      split at h
      case h_1 n hat =>
        obtain ⟨hne, -, rest, hrest⟩ := placeholderAt_eq hat
        have hlen := congrArg List.length hrest
        have := List.length_pos_iff.mpr hne
        rw [List.length_append, length_token, List.length_cons] at hlen
        omega
      case h_2 =>
        rcases List.mem_cons.mp h with heq | h
        · cases heq
        · have := ih h
          omega

theorem mem_placeholders {text name : Bytes} :
    name ∈ placeholders text ↔ Piece.placeholder name ∈ pieces text := by
  unfold placeholders
  rw [List.mem_filterMap]
  constructor
  · rintro ⟨p, hp, heq⟩
    cases p with
    | letter c => cases heq
    | placeholder n =>
      cases heq
      exact hp
  · intro h
    exact ⟨_, h, rfl⟩

theorem unbordered_of_mem {text name : Bytes} (h : name ∈ placeholders text) :
    Unbordered (token name) :=
  unbordered_token (not_mem_of_mem_piecesFrom (mem_placeholders.mp h))

theorem substitute_nil (env : Env) (text : Bytes) : substitute env [] text = text := by
  simpa [substitute, pieces] using substitute_piecesFrom 0 text

theorem placeholders_of_short {text : Bytes} (h : text.length < 4) : placeholders text = [] := by
  by_contra hne
  obtain ⟨name, names, hcons⟩ := List.exists_cons_of_ne_nil hne
  have := length_of_mem_piecesFrom (mem_placeholders.mp (hcons ▸ List.mem_cons_self))
  omega

/-! ## One placeholder -/

theorem fill_gaps (env : Env) {others : List Bytes} {name : Bytes} (h : name ∉ others)
    (text : Bytes) : fill (token name) (gaps env others name text) = substitute env others text := by
  unfold gaps substitute
  induction pieces text with
  | nil => rfl
  | cons p ps ih =>
    rw [List.flatMap_cons, List.flatMap_cons, fill_append, ih]
    congr 1
    cases p with
    | letter c => rfl
    | placeholder n =>
      dsimp only
      split
      case isTrue heq =>
        subst heq
        rw [if_neg h]
        simp
      case isFalse => simp

theorem fill_gaps_value {env : Env} {others : List Bytes} {name value : Bytes}
    (hv : get env name = some value) (text : Bytes) :
    fill value (gaps env others name text) = substitute env (others ++ [name]) text := by
  unfold gaps substitute
  induction pieces text with
  | nil => rfl
  | cons p ps ih =>
    rw [List.flatMap_cons, List.flatMap_cons, fill_append, ih]
    congr 1
    cases p with
    | letter c => rfl
    | placeholder n =>
      dsimp only
      split
      case isTrue heq =>
        subst heq
        simp [hv]
      case isFalse hne => simp [hne]

theorem substitute_unknown {env : Env} (others : List Bytes) {name : Bytes}
    (hv : get env name = none) (text : Bytes) :
    substitute env (others ++ [name]) text = substitute env others text := by
  unfold substitute
  congr 1
  funext p
  cases p with
  | letter c => rfl
  | placeholder n =>
    by_cases heq : n = name
    · subst heq
      simp [hv]
    · simp [heq]

/-- One more placeholder is replaced, exactly where it stands in no other place. -/
theorem process_eq_iff {env : Env} {text : Bytes} {others : List Bytes} {name value : Bytes}
    (hname : name ∈ placeholders text) (h : name ∉ others) (hv : get env name = some value) :
    replaceAll (token name) value (substitute env others text) =
        substitute env (others ++ [name]) text ↔
      value = token name ∨ OnlyGaps (token name) (gaps env others name text) := by
  rw [← fill_gaps env h, ← fill_gaps_value hv]
  exact replaceAll_fill_iff (unbordered_of_mem hname) value _

/-! ## All of them -/

theorem process_append (vars : List (Bytes × Option Bytes)) (kv : Bytes × Option Bytes)
    (text : Bytes) :
    process (vars ++ [kv]) text =
      match kv.2 with
      | none => process vars text
      | some value => replaceAll kv.1 value (process vars text) := by
  simp [process, List.foldl_append]

theorem textLt_order : StrictOrder textLt where
  irrefl s := by simp [textLt, List.lt_irrefl]
  trans s t u h h' := by
    simp only [textLt, decide_eq_true_eq] at h h' ⊢
    exact List.lt_trans h h'

theorem textLt_eq {s t : Bytes} (h : textLt s t = false) (h' : textLt t s = false) : s = t := by
  simp only [textLt, decide_eq_false_iff_not] at h h'
  rcases Std.lt_trichotomy s t with hlt | heq | hgt
  · exact absurd hlt h
  · exact heq
  · exact absurd hgt h'

/-- The map has every placeholder once. -/
theorem createVars_eq (env : Env) (text : Bytes) :
    ∃ names : List Bytes, names.Nodup ∧ (∀ name, name ∈ names ↔ name ∈ placeholders text) ∧
      createVars env text = names.map fun name => (token name, get env name) := by
  have key : ∀ seen : List Bytes, ∃ names : List Bytes, names.Nodup ∧
      (∀ name, name ∈ names ↔ name ∈ seen) ∧
      SortedMap.Sorted textLt (names.map fun name => (token name, get env name)) ∧
      seen.foldl (fun vars name => SortedMap.insert textLt vars (token name) (get env name)) [] =
        names.map fun name => (token name, get env name) := by
    intro seen
    induction seen using List.reverseRecOn with
    | nil => exact ⟨[], List.nodup_nil, fun _ => Iff.rfl, List.Pairwise.nil, rfl⟩
    | append_singleton seen n ih =>
      obtain ⟨names, hnodup, hmem, hsorted, hfold⟩ := ih
      have hsorted' := SortedMap.sorted_insert textLt_order hsorted (token n) (get env n)
      rw [List.foldl_append, List.foldl_cons, List.foldl_nil, hfold]
      cases hfind : SortedMap.find textLt
          (names.map fun name => (token name, get env name)) (token n) with
      | some e =>
        obtain ⟨he, hlt, hgt⟩ := SortedMap.mem_of_find hfind
        obtain ⟨m, hm, rfl⟩ := List.mem_map.mp he
        have heq : m = n := token_inj (textLt_eq hlt hgt)
        subst heq
        rw [SortedMap.insert_of_isSome _ (by rw [hfind]; rfl)] at hsorted' ⊢
        refine ⟨names, hnodup, fun name => ?_, hsorted', rfl⟩
        have hseen : m ∈ seen := (hmem m).mp hm
        rw [hmem, List.mem_append, List.mem_singleton]
        constructor
        · exact Or.inl
        · rintro (h | rfl)
          · exact h
          · exact hseen
      | none =>
        obtain ⟨m₁, m₂, hsplit, hins⟩ := SortedMap.insert_of_find (get env n) hfind
        obtain ⟨a, b, rfl, rfl, rfl⟩ := List.map_eq_append_iff.mp hsplit
        have hnot : n ∉ a ++ b := by
          intro hn
          have := SortedMap.find_of_mem textLt_order hsorted (List.mem_map_of_mem hn)
          rw [hfind] at this
          cases this
        rw [hins] at hsorted' ⊢
        refine ⟨a ++ n :: b, List.nodup_middle.mpr (List.nodup_cons.mpr ⟨hnot, hnodup⟩),
          fun name => ?_, by simpa using hsorted', by simp⟩
        have := hmem name
        simp only [List.mem_append, List.mem_cons] at this ⊢
        rw [← this]
        tauto
  obtain ⟨names, hnodup, hmem, -, hfold⟩ := key (placeholders text)
  exact ⟨names, hnodup, hmem, hfold⟩

theorem expand_eq (env : Env) (text : Bytes) :
    expand env (some text) = some (process (createVars env (cstr text)) (cstr text)) := by
  unfold expand
  dsimp only
  split
  case isTrue h => simp [createVars, placeholders_of_short h, process]
  case isFalse => rfl

/-- Any placeholders are replaced as if at once, where each stands in no other place by then. -/
theorem process_of_separate {env : Env} {text : Bytes} (h : Separate env text)
    {names : List Bytes} (hnodup : names.Nodup) (hsub : names ⊆ placeholders text) :
    process (names.map fun name => (token name, get env name)) text =
      substitute env names text := by
  induction names using List.reverseRecOn with
  | nil => exact (substitute_nil env text).symm
  | append_singleton names name ih =>
    have hnames := (List.nodup_append.mp hnodup).1
    have hnot : name ∉ names := fun hmem =>
      (List.nodup_append.mp hnodup).2.2 name hmem name (by simp) rfl
    have hsub' : names ⊆ placeholders text := fun n hn => hsub (List.mem_append_left _ hn)
    have hname : name ∈ placeholders text := hsub (by simp)
    rw [List.map_append, List.map_singleton, process_append, ih hnames hsub']
    cases hv : get env name with
    | none => exact (substitute_unknown names hv text).symm
    | some value =>
      refine (process_eq_iff hname hnot hv).mpr ?_
      by_cases hown : value = token name
      · exact Or.inl hown
      · exact Or.inr (h name hname value hv hown names hnames hsub' hnot)

theorem separate_of_order {env : Env} {text : Bytes}
    (h : ∀ names : List Bytes, names.Nodup → names ⊆ placeholders text →
      process (names.map fun name => (token name, get env name)) text =
        substitute env names text) : Separate env text := by
  intro name hname value hv hown others hnodup hsub hnot
  have hnodup' : (others ++ [name]).Nodup :=
    List.nodup_append.mpr ⟨hnodup, by simp, by simp; rintro a ha rfl; exact hnot ha⟩
  have hsub' : others ++ [name] ⊆ placeholders text := by
    intro n hn
    rcases List.mem_append.mp hn with hn | hn
    · exact hsub hn
    · exact List.mem_singleton.mp hn ▸ hname
  have hall := h _ hnodup' hsub'
  rw [List.map_append, List.map_singleton, process_append, hv, h others hnodup hsub] at hall
  exact ((process_eq_iff hname hnot hv).mp hall).resolve_left hown

/-- For any text and any values: the placeholders are replaced as if at once, in whatever
order, exactly where no replacing makes one that is still to be replaced. -/
theorem expand_simultaneous_iff (env : Env) (text : Bytes) :
    Simultaneous env text ↔ Separate env (cstr text) := by
  constructor
  · intro h
    exact separate_of_order h.order
  · intro h
    refine ⟨?_, fun names => process_of_separate h⟩
    obtain ⟨names, hnodup, hmem, hvars⟩ := createVars_eq env (cstr text)
    rw [expand_eq, hvars, process_of_separate h hnodup fun n => (hmem n).mp]
    congr 1
    unfold substitute
    congr 1
    funext p
    cases p with
    | letter c => rfl
    | placeholder n => simp only [hmem]

/-- `A` has the value `${B}`, `B` has `x`. -/
def twoNames : Env where
  m_variables := [(ascii "A", some (ascii "$\x7bB\x7d")), (ascii "B", some (ascii "x"))]
  extra := []
  getenv := fun _ => none

/-- Text that came from a value is expanded, and so is what stands in a placeholder that has
no value. -/
theorem expand_nested :
    (¬Simultaneous twoNames (ascii "$\x7bA\x7d$\x7bB\x7d")) ∧
      ¬Simultaneous twoNames (ascii "$\x7ba$\x7bB\x7d $\x7bB\x7d") := by
  constructor
  · intro h
    exact absurd h.result (by decide)
  · intro h
    exact absurd h.result (by decide)

end Rxs.L4.EnvExpand
