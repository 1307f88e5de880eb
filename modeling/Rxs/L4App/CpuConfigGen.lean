import Rxs.L4App.ThreadProfiles

/-!
# Automatic profiles

After the `cpu` section is read, profiles are made for the algorithms it says nothing of:
one for `rx/arq`, or the profile of `rx/wow` in its place if that is the same, one for
`rx/wow`, and one named `rx` for all others.

* `has_generate`, `alias_generate`: which profiles and names come in.
* `resolves_iff`: when an algorithm finds a profile.
* **`covered_iff`**: every algorithm the section says nothing of finds a profile, exactly
  unless `rx/arq` gets the name of a profile that is not made, or `rx` is not made because
  the section says something of `rx/0`.
-/
namespace Rxs.L4.CpuConfigGen

open Rxs.Core Rxs.CString Rxs.L4.AlgorithmName Rxs.L4.ThreadProfiles

/-! ## The configuration -/

/-- `ICpuInfo::threads`, of an algorithm and a limit. -/
abbrev CpuInfo := Algorithm → Nat → CpuThreads

/-- mirrors src/backend/cpu/CpuConfig_gen.h:31-38 -/
def generateOne (cpuInfo : CpuInfo) (key : Bytes) (threads : Threads CpuThreads)
    (algorithm : Algorithm) (limit : Nat) : Threads CpuThreads × Nat :=
  if threads.isExist algorithm || threads.has key then (threads, 0)
  else threads.move key (cpuInfo algorithm limit)

/-- The part of `generate<RANDOM_X>` for `rx/arq`.
mirrors src/backend/cpu/CpuConfig_gen.h:50-59 -/
def generateArq (cpuInfo : CpuInfo) (threads : Threads CpuThreads) (limit : Nat) :
    Threads CpuThreads × Nat :=
  let wow := cpuInfo .RX_WOW limit
  if !threads.isExist .RX_ARQ then
    let arq := cpuInfo .RX_ARQ limit
    if arq.isEqual wow then (threads.setAlias .RX_ARQ (name .RX_WOW), 1)
    else threads.move (name .RX_ARQ) arq
  else (threads, 0)

/-- The part for `rx/wow`.
mirrors src/backend/cpu/CpuConfig_gen.h:61-63 -/
def generateWow (cpuInfo : CpuInfo) (threads : Threads CpuThreads) (limit : Nat) :
    Threads CpuThreads × Nat :=
  if !threads.isExist .RX_WOW then threads.move (name .RX_WOW) (cpuInfo .RX_WOW limit)
  else (threads, 0)

/-- `generate<RANDOM_X>`.
mirrors src/backend/cpu/CpuConfig_gen.h:45-70 -/
def generateRandomX (cpuInfo : CpuInfo) (threads : Threads CpuThreads) (limit : Nat) :
    Threads CpuThreads × Nat :=
  let arq := generateArq cpuInfo threads limit
  let wow := generateWow cpuInfo arq.1 limit
  let rx := generateOne cpuInfo (ascii "rx") wow.1 .RX_0 limit
  (rx.1, arq.2 + wow.2 + rx.2)

/-- The fields that matter to the profiles.
mirrors src/backend/cpu/CpuConfig.h:86-98 -/
structure CpuConfig where
  m_enabled : Bool := true
  m_shouldSave : Bool := false
  m_threads : Threads CpuThreads := {}
  m_limit : Nat := 100

/-- mirrors src/backend/cpu/CpuConfig.cpp:150-161 -/
def generate (cpuInfo : CpuInfo) (c : CpuConfig) : CpuConfig :=
  if !c.m_enabled || c.m_threads.has (ascii "*") then c
  else
    let r := generateRandomX cpuInfo c.m_threads c.m_limit
    { c with m_threads := r.1, m_shouldSave := c.m_shouldSave || 0 < r.2 }

/-- What `CpuConfig::read` takes from the section, before it generates.
mirrors src/backend/cpu/CpuConfig.cpp:118-138 -/
def load (raw : Bytes → Raw) (c : CpuConfig) (value : Json) : CpuConfig :=
  match value with
  | .object members =>
    { c with
      m_enabled := value.getBool (ascii "enabled") c.m_enabled
      m_limit := value.getUint (ascii "max-threads-hint") c.m_limit
      m_threads := c.m_threads.read raw members }
  | .bool enabled => { c with m_enabled := enabled }
  | _ => c

/-- mirrors src/backend/cpu/CpuConfig.cpp:118-147 -/
def read (cpuInfo : CpuInfo) (raw : Bytes → Raw) (c : CpuConfig) (value : Json) : CpuConfig :=
  generate cpuInfo (load raw c value)

/-! ## What is asked -/

/-- The algorithm finds a profile that is there and has threads. -/
def Resolves (t : Threads CpuThreads) (algo : Algorithm) : Prop :=
  ∃ profile, t.get (t.profileName algo false) = some profile ∧ profile.isEmpty = false

/-- So does every algorithm the section `t` says nothing of. -/
def Covered (t t' : Threads CpuThreads) : Prop :=
  ∀ algo, algo ≠ .INVALID → t.isExist algo = false → Resolves t' algo

/-- The two profiles for `rx/arq` and `rx/wow` are the same. -/
def Same (cpuInfo : CpuInfo) (limit : Nat) : Bool :=
  (cpuInfo .RX_ARQ limit).isEqual (cpuInfo .RX_WOW limit)

/-- The profile `rx/arq` is named to use is made or there already, and `rx` is made or there
already unless nothing needs it. -/
def Generated (cpuInfo : CpuInfo) (t : Threads CpuThreads) (limit : Nat) : Prop :=
  (t.isExist .RX_ARQ = false → Same cpuInfo limit = true →
    t.has (name .RX_WOW) = true ∨ t.isExist .RX_WOW = false) ∧
  (t.isExist .RX_0 = false ∨ t.has (ascii "rx") = true ∨
    ∀ algo ∈ [Algorithm.RX_V2, .RX_GRAFT, .RX_SFX, .RX_YADA], t.isExist algo = true)

/-- What makes it so. With a profile for all, nothing has to be made; a disabled backend
makes nothing. -/
def Suffices (cpuInfo : CpuInfo) (c : CpuConfig) : Prop :=
  c.m_threads.has (ascii "*") = true ∨
    if c.m_enabled then Generated cpuInfo c.m_threads c.m_limit
    else c.m_threads.has (ascii "rx") = true ∨
      ∀ algo, algo ≠ .INVALID → c.m_threads.isExist algo = true

/-! ## Names -/

theorem name_ne_nil (a : Algorithm) : name a ≠ [] := by cases a <;> decide

theorem name_inj {a b : Algorithm} (h : name a = name b) : a = b := by
  revert h
  cases a <;> cases b <;> decide

theorem name_eq_iff (a b : Algorithm) : name a = name b ↔ a = b := ⟨name_inj, congrArg name⟩

theorem name_ne_rx (a : Algorithm) : name a ≠ ascii "rx" := by cases a <;> decide

theorem base_name {a : Algorithm} (h : a ≠ .INVALID) :
    (if 47 ∈ name a then (split 47 (name a)).head? else none) = some (ascii "rx") := by
  revert h
  cases a <;> decide

theorem idLt_of_ne {a b : Algorithm} (h : a ≠ b) : idLt a b = true ∨ idLt b a = true := by
  revert h
  cases a <;> cases b <;> decide

/-! ## Profiles that come in -/

theorem has_move (t : Threads CpuThreads) {p p' : Bytes} {threads : CpuThreads}
    (hne : threads.isEmpty = false) (hp : p ≠ []) (hp' : p' ≠ []) :
    (t.move p threads).1.has p' = (t.has p' || decide (p' = p)) := by
  rw [Threads.move_eq t p hne]
  by_cases heq : p' = p
  · subst heq
    simpa [Threads.has] using SortedMap.find_insert_self strLt_order t.m_profiles p' threads
  · have hlt : strLt p p' = true ∨ strLt p' p = true := by
      rcases strLt_total hp hp' with h | h | h
      · exact Or.inl h
      · exact Or.inr h
      · exact absurd h.symm heq
    simp [Threads.has, SortedMap.find_insert_of_lt strLt_order t.m_profiles threads hlt, heq]

@[simp] theorem isDisabled_move (t : Threads CpuThreads) (p : Bytes) (threads : CpuThreads)
    (algo : Algorithm) : (t.move p threads).1.isDisabled algo = t.isDisabled algo := by
  unfold Threads.move
  split
  · rfl
  · split <;> rfl

@[simp] theorem m_aliases_move (t : Threads CpuThreads) (p : Bytes) (threads : CpuThreads) :
    (t.move p threads).1.m_aliases = t.m_aliases := by
  unfold Threads.move
  split
  · rfl
  · split <;> rfl

theorem isExist_move_of_ne (t : Threads CpuThreads) {p : Bytes} {threads : CpuThreads}
    {algo : Algorithm} (hne : threads.isEmpty = false) (hp : p ≠ []) (hname : name algo ≠ p) :
    (t.move p threads).1.isExist algo = t.isExist algo := by
  rw [Threads.isExist, Threads.isExist, isDisabled_move, m_aliases_move,
    has_move t hne hp (name_ne_nil algo)]
  simp [hname]

section Generate

variable {cpuInfo : CpuInfo} (hinfo : ∀ algo limit, (cpuInfo algo limit).isEmpty = false)
  (t : Threads CpuThreads) (limit : Nat)

include hinfo

theorem has_generateArq {p : Bytes} (hp : p ≠ []) :
    (generateArq cpuInfo t limit).1.has p =
      (t.has p || (decide (p = name .RX_ARQ) && !t.isExist .RX_ARQ && !Same cpuInfo limit)) := by
  unfold generateArq Same
  cases t.isExist .RX_ARQ with
  | true => simp
  | false =>
    cases hsame : (cpuInfo .RX_ARQ limit).isEqual (cpuInfo .RX_WOW limit) with
    | true => simp [hsame, Threads.setAlias, Threads.has]
    | false => simp [hsame, has_move t (hinfo _ _) (name_ne_nil _) hp]

theorem has_generateWow {p : Bytes} (hp : p ≠ []) :
    (generateWow cpuInfo t limit).1.has p =
      (t.has p || (decide (p = name .RX_WOW) && !t.isExist .RX_WOW)) := by
  unfold generateWow
  cases t.isExist .RX_WOW with
  | true => simp
  | false => simp [has_move t (hinfo _ _) (name_ne_nil _) hp]

theorem has_generateOne {key p : Bytes} (hkey : key ≠ []) (hp : p ≠ []) (algo : Algorithm) :
    (generateOne cpuInfo key t algo limit).1.has p =
      (t.has p || (decide (p = key) && !t.isExist algo)) := by
  unfold generateOne
  cases t.isExist algo with
  | true => simp
  | false =>
    cases hk : t.has key with
    | true =>
      by_cases heq : p = key
      · simp [heq, hk]
      · simp [heq]
    | false => simp [has_move t (hinfo _ _) hkey hp]

theorem isExist_generateArq {algo : Algorithm} (hne : algo ≠ .RX_ARQ) :
    (generateArq cpuInfo t limit).1.isExist algo = t.isExist algo := by
  unfold generateArq
  cases hexist : t.isExist .RX_ARQ with
  | true => simp
  | false =>
    cases hsame : (cpuInfo .RX_ARQ limit).isEqual (cpuInfo .RX_WOW limit) with
    | true =>
      have hnone : SortedMap.find idLt t.m_aliases .RX_ARQ = none := by
        simp only [Threads.isExist, Bool.or_eq_false_iff, Option.isSome_eq_false_iff,
          Option.isNone_iff_eq_none] at hexist
        exact hexist.1.2
      have hfind := SortedMap.find_assign_of_lt idLt_order hnone (name .RX_WOW)
        (idLt_of_ne hne.symm)
      simp [hsame, Threads.isExist, Threads.setAlias, Threads.has, Threads.isDisabled, hfind]
    | false =>
      simp [hsame, isExist_move_of_ne t (hinfo _ _) (name_ne_nil _) fun h => hne (name_inj h)]

theorem isExist_generateWow {algo : Algorithm} (hne : algo ≠ .RX_WOW) :
    (generateWow cpuInfo t limit).1.isExist algo = t.isExist algo := by
  unfold generateWow
  cases t.isExist .RX_WOW with
  | true => simp
  | false => simp [isExist_move_of_ne t (hinfo _ _) (name_ne_nil _) fun h => hne (name_inj h)]

/-- The profiles after all three steps. -/
theorem has_generate {p : Bytes} (hp : p ≠ []) :
    (generateRandomX cpuInfo t limit).1.has p =
      (t.has p || (decide (p = name .RX_ARQ) && !t.isExist .RX_ARQ && !Same cpuInfo limit) ||
        (decide (p = name .RX_WOW) && !t.isExist .RX_WOW) ||
        (decide (p = ascii "rx") && !t.isExist .RX_0)) := by
  unfold generateRandomX
  rw [has_generateOne hinfo _ limit (by decide) hp, has_generateWow hinfo _ limit hp,
    has_generateArq hinfo t limit hp, isExist_generateWow hinfo _ limit (by decide),
    isExist_generateArq hinfo t limit (by decide), isExist_generateArq hinfo t limit (by decide)]

end Generate

/-! ## Names that come in -/

/-- The name a configuration or the generator gives to an algorithm. -/
def aliasOf (t : Threads CpuThreads) (algo : Algorithm) : Option Bytes :=
  (SortedMap.find idLt t.m_aliases algo).map (·.2)

theorem aliasOf_eq_none {t : Threads CpuThreads} {algo : Algorithm}
    (h : t.isExist algo = false) : SortedMap.find idLt t.m_aliases algo = none := by
  simp only [Threads.isExist, Bool.or_eq_false_iff, Option.isSome_eq_false_iff,
    Option.isNone_iff_eq_none] at h
  exact h.1.2

theorem m_aliases_generate (cpuInfo : CpuInfo) (t : Threads CpuThreads) (limit : Nat) :
    (generateRandomX cpuInfo t limit).1.m_aliases =
      (generateArq cpuInfo t limit).1.m_aliases := by
  have hwow : ∀ t : Threads CpuThreads,
      (generateWow cpuInfo t limit).1.m_aliases = t.m_aliases := by
    intro t
    unfold generateWow
    split
    · exact m_aliases_move _ _ _
    · rfl
  have hone : ∀ t : Threads CpuThreads,
      (generateOne cpuInfo (ascii "rx") t .RX_0 limit).1.m_aliases = t.m_aliases := by
    intro t
    unfold generateOne
    split
    · rfl
    · exact m_aliases_move _ _ _
  exact (hone _).trans (hwow _)

theorem alias_generate (cpuInfo : CpuInfo) (t : Threads CpuThreads) (limit : Nat)
    {algo : Algorithm} (h : t.isExist algo = false) :
    aliasOf (generateRandomX cpuInfo t limit).1 algo =
      if algo = .RX_ARQ ∧ Same cpuInfo limit = true then some (name .RX_WOW) else none := by
  have hnone := aliasOf_eq_none h
  unfold aliasOf
  rw [m_aliases_generate]
  unfold generateArq Same
  cases hexist : t.isExist .RX_ARQ with
  | true =>
    have hne : algo ≠ .RX_ARQ := by
      rintro rfl
      simp [h] at hexist
    simp [hne, hnone]
  | false =>
    cases hsame : (cpuInfo .RX_ARQ limit).isEqual (cpuInfo .RX_WOW limit) with
    | true =>
      by_cases heq : algo = .RX_ARQ
      · subst heq
        have hself := SortedMap.find_assign_self idLt_order t.m_aliases .RX_ARQ (name .RX_WOW)
        simp only [Bool.not_false, if_true, hsame, Threads.setAlias, hself, and_self]
      · have hfind := SortedMap.find_assign_of_lt idLt_order (aliasOf_eq_none hexist)
          (name .RX_WOW) (idLt_of_ne (Ne.symm heq))
        simp [hsame, Threads.setAlias, hfind, hnone, heq]
    | false => simp [hsame, hnone]

theorem isDisabled_generate (cpuInfo : CpuInfo) (t : Threads CpuThreads) (limit : Nat)
    (algo : Algorithm) :
    (generateRandomX cpuInfo t limit).1.isDisabled algo = t.isDisabled algo := by
  have harq : ∀ t : Threads CpuThreads,
      (generateArq cpuInfo t limit).1.isDisabled algo = t.isDisabled algo := by
    intro t
    unfold generateArq
    dsimp only
    split
    · split
      · rfl
      · exact isDisabled_move _ _ _ _
    · rfl
  have hwow : ∀ t : Threads CpuThreads,
      (generateWow cpuInfo t limit).1.isDisabled algo = t.isDisabled algo := by
    intro t
    unfold generateWow
    split
    · exact isDisabled_move _ _ _ _
    · rfl
  have hone : ∀ t : Threads CpuThreads,
      (generateOne cpuInfo (ascii "rx") t .RX_0 limit).1.isDisabled algo = t.isDisabled algo := by
    intro t
    unfold generateOne
    split
    · rfl
    · exact isDisabled_move _ _ _ _
  exact (hone _).trans ((hwow _).trans (harq _))

/-! ## Profiles with threads -/

def Filled (t : Threads CpuThreads) : Prop := ∀ e ∈ t.m_profiles, e.2.isEmpty = false

theorem filled_move {t : Threads CpuThreads} (h : Filled t) (p : Bytes) (threads : CpuThreads) :
    Filled (t.move p threads).1 := by
  unfold Threads.move
  split
  · exact h
  · split
    case isTrue hne =>
      intro e he
      rcases SortedMap.mem_insert he with rfl | he
      · exact (Bool.not_eq_true' _).mp hne
      · exact h e he
    case isFalse => exact h

theorem filled_generate (cpuInfo : CpuInfo) {t : Threads CpuThreads} (h : Filled t)
    (limit : Nat) : Filled (generateRandomX cpuInfo t limit).1 := by
  have harq : Filled (generateArq cpuInfo t limit).1 := by
    unfold generateArq
    dsimp only
    split
    · split
      · exact h
      · exact filled_move h _ _
    · exact h
  have hwow : ∀ {t : Threads CpuThreads}, Filled t → Filled (generateWow cpuInfo t limit).1 := by
    intro t h
    unfold generateWow
    split
    · exact filled_move h _ _
    · exact h
  have hone : ∀ {t : Threads CpuThreads}, Filled t →
      Filled (generateOne cpuInfo (ascii "rx") t .RX_0 limit).1 := by
    intro t h
    unfold generateOne
    split
    · exact h
    · exact filled_move h _ _
  exact hone (hwow harq)

theorem resolves_iff_has {t : Threads CpuThreads} (h : Filled t) (algo : Algorithm) :
    Resolves t algo ↔ ∃ p, t.profileName algo false = some p ∧ t.has p = true := by
  unfold Resolves Threads.get Threads.has
  constructor
  · rintro ⟨profile, hget, -⟩
    obtain ⟨p, hp, hfind⟩ := Option.bind_eq_some_iff.mp hget
    obtain ⟨e, he, -⟩ := Option.map_eq_some_iff.mp hfind
    exact ⟨p, hp, by simp [he]⟩
  · rintro ⟨p, hp, hhas⟩
    obtain ⟨e, he⟩ := Option.isSome_iff_exists.mp hhas
    refine ⟨e.2, ?_, h e (SortedMap.mem_of_find he).1⟩
    simp [hp, he]

/-- When an algorithm that is not disabled finds a profile: one of its name, that of the name
given to it, or without such a name the base or the profile for all. -/
theorem resolves_iff {t : Threads CpuThreads} (h : Filled t) {algo : Algorithm}
    (hv : algo ≠ .INVALID) (hd : t.isDisabled algo = false) :
    Resolves t algo ↔
      t.has (name algo) = true ∨
        match aliasOf t algo with
        | some p => t.has p = true
        | none => t.has (ascii "rx") = true ∨ t.has (ascii "*") = true := by
  rw [resolves_iff_has h]
  unfold Threads.profileName aliasOf
  rw [if_neg (by simp [hd]), base_name hv]
  cases hname : t.has (name algo) with
  | true => simp [hname]
  | false =>
    cases SortedMap.find idLt t.m_aliases algo with
    | some e => simp
    | none =>
      cases hrx : t.has (ascii "rx") with
      | true => simp [Option.filter, hrx]
      | false =>
        cases hstar : t.has (ascii "*") with
        | true => simp [Option.filter, hrx, hstar]
        | false => simp [Option.filter, hrx]

/-! ## After the generation -/

theorem not_disabled {t : Threads CpuThreads} {algo : Algorithm} (h : t.isExist algo = false) :
    t.isDisabled algo = false ∧ t.has (name algo) = false := by
  simp only [Threads.isExist, Bool.or_eq_false_iff] at h
  exact ⟨h.1.1, h.2⟩

/-- Without generation. -/
theorem resolves_left {t : Threads CpuThreads} (hf : Filled t) {algo : Algorithm}
    (hv : algo ≠ .INVALID) (h : t.isExist algo = false) :
    Resolves t algo ↔ t.has (ascii "rx") = true ∨ t.has (ascii "*") = true := by
  obtain ⟨hd, hname⟩ := not_disabled h
  rw [resolves_iff hf hv hd]
  simp [aliasOf, aliasOf_eq_none h, hname]

/-- With it: `rx/arq` has a profile or a name, `rx/wow` a profile, and the others share one. -/
theorem resolves_generate {cpuInfo : CpuInfo}
    (hinfo : ∀ algo limit, (cpuInfo algo limit).isEmpty = false) {t : Threads CpuThreads}
    (hf : Filled t) (limit : Nat) (hstar : t.has (ascii "*") = false) {algo : Algorithm}
    (hv : algo ≠ .INVALID) (h : t.isExist algo = false) :
    Resolves (generateRandomX cpuInfo t limit).1 algo ↔
      if algo = .RX_ARQ then
        Same cpuInfo limit = false ∨ t.has (name .RX_WOW) = true ∨ t.isExist .RX_WOW = false
      else algo = .RX_WOW ∨ t.has (ascii "rx") = true ∨ t.isExist .RX_0 = false := by
  obtain ⟨hd, hname⟩ := not_disabled h
  rw [resolves_iff (filled_generate cpuInfo hf limit) hv (by rw [isDisabled_generate, hd]),
    alias_generate cpuInfo t limit h, has_generate hinfo t limit (name_ne_nil algo)]
  have hrx : ascii "rx" ≠ [] := by decide
  have hast : ascii "*" ≠ [] := by decide
  have hrx_arq : ascii "rx" ≠ name .RX_ARQ := by decide
  have hrx_wow : ascii "rx" ≠ name .RX_WOW := by decide
  have hast_arq : ascii "*" ≠ name .RX_ARQ := by decide
  have hast_wow : ascii "*" ≠ name .RX_WOW := by decide
  have hast_rx : ascii "*" ≠ ascii "rx" := by decide
  by_cases harq : algo = .RX_ARQ
  · subst harq
    cases hsame : Same cpuInfo limit with
    | true =>
      have hwow := has_generate hinfo t limit (name_ne_nil .RX_WOW)
      simp [hname, hsame, name_eq_iff, name_ne_rx, hwow]
    | false => simp [h]
  · simp only [harq, false_and, if_false]
    rw [has_generate hinfo t limit hrx, has_generate hinfo t limit hast]
    by_cases hwow : algo = .RX_WOW
    · subst hwow
      simp [h]
    · simp [hname, name_eq_iff, harq, hwow, name_ne_rx, hrx_arq, hrx_wow, hast_arq, hast_wow,
        hast_rx, hstar]

theorem covered_disabled {t : Threads CpuThreads} (hf : Filled t)
    (hstar : t.has (ascii "*") = false) :
    Covered t t ↔
      t.has (ascii "rx") = true ∨ ∀ algo, algo ≠ .INVALID → t.isExist algo = true := by
  constructor
  · intro hcov
    by_contra hnot
    rw [not_or] at hnot
    apply hnot.2
    intro algo hv
    by_contra hexist
    have hexist := Bool.eq_false_iff.mpr hexist
    have := (resolves_left hf hv hexist).mp (hcov algo hv hexist)
    simp [hstar, hnot.1] at this
  · rintro (hrx | hall) algo hv h
    · exact (resolves_left hf hv h).mpr (Or.inl hrx)
    · simp [hall algo hv] at h

theorem covered_generated {cpuInfo : CpuInfo}
    (hinfo : ∀ algo limit, (cpuInfo algo limit).isEmpty = false) {t : Threads CpuThreads}
    (hf : Filled t) (limit : Nat) (hstar : t.has (ascii "*") = false) :
    Covered t (generateRandomX cpuInfo t limit).1 ↔ Generated cpuInfo t limit := by
  have hresolve := fun {algo} => @resolves_generate cpuInfo hinfo t hf limit hstar algo
  constructor
  · intro hcov
    refine ⟨fun harq hsame => ?_, ?_⟩
    · have := (hresolve (by decide) harq).mp (hcov .RX_ARQ (by decide) harq)
      simpa [hsame] using this
    · by_contra hnot
      rw [not_or, not_or] at hnot
      apply hnot.2.2
      intro algo hmem
      by_contra hexist
      have hexist := Bool.eq_false_iff.mpr hexist
      have hne : algo ≠ .INVALID ∧ algo ≠ .RX_ARQ ∧ algo ≠ .RX_WOW := by
        revert hmem
        cases algo <;> decide
      have := (hresolve hne.1 hexist).mp (hcov algo hne.1 hexist)
      simp [hne.2.1, hne.2.2, hnot.1, hnot.2.1] at this
  · rintro ⟨harq, hrx⟩ algo hv h
    rw [hresolve hv h]
    split
    case isTrue heq =>
      subst heq
      cases hsame : Same cpuInfo limit with
      | true => exact Or.inr (harq h hsame)
      | false => exact Or.inl rfl
    case isFalse hne =>
      rcases hrx with hrx | hrx | hall
      · exact Or.inr (Or.inr hrx)
      · exact Or.inr (Or.inl hrx)
      · by_cases hwow : algo = .RX_WOW
        · exact Or.inl hwow
        · by_cases h0 : algo = .RX_0
          · exact Or.inr (Or.inr (h0 ▸ h))
          · have hmem : algo ∈ [Algorithm.RX_V2, .RX_GRAFT, .RX_SFX, .RX_YADA] := by
              revert hv hne hwow h0
              cases algo <;> decide
            simp [hall algo hmem] at h

theorem covered_generate {cpuInfo : CpuInfo}
    (hinfo : ∀ algo limit, (cpuInfo algo limit).isEmpty = false) {c : CpuConfig}
    (hf : Filled c.m_threads) :
    Covered c.m_threads (generate cpuInfo c).m_threads ↔ Suffices cpuInfo c := by
  unfold Suffices generate
  cases hstar : c.m_threads.has (ascii "*") with
  | true =>
    simp only [Bool.or_true, if_true, true_or, iff_true]
    intro algo hv h
    exact (resolves_left hf hv h).mpr (Or.inr hstar)
  | false =>
    cases hen : c.m_enabled with
    | false => simpa using covered_disabled hf hstar
    | true => simpa using covered_generated hinfo hf c.m_limit hstar

theorem filled_load (raw : Bytes → Raw) (value : Json) :
    Filled (load raw {} value).m_threads := by
  unfold load
  split
  · intro e he
    exact ((Threads.inv_read raw stable Threads.inv_empty _).stable e he).2.nonempty
  · simp [Filled]
  · simp [Filled]

/-- For any section and any recommendation with threads for every algorithm: after it is read,
every algorithm it says nothing of finds a profile with threads, exactly where `Suffices`
says so of what was read. -/
theorem covered_iff (cpuInfo : CpuInfo) (raw : Bytes → Raw) (value : Json)
    (hinfo : ∀ algo limit, (cpuInfo algo limit).isEmpty = false) :
    Covered (load raw {} value).m_threads (read cpuInfo raw {} value).m_threads ↔
      Suffices cpuInfo (load raw {} value) :=
  covered_generate hinfo (filled_load raw value)

/-- One thread for every algorithm. -/
def oneThread : CpuInfo := fun _ _ => { m_data := [{}] }

theorem load_disabled {s : Bytes} {algo : Algorithm} (hs : cstr s = name algo)
    (hv : algo ≠ .INVALID) (hen : s ≠ ascii "enabled") (hlimit : s ≠ ascii "max-threads-hint") :
    load (fun _ _ _ => 0) {} (.object [(s, .bool false)]) =
      { m_threads := { m_disabled := [(algo, ())] } } := by
  simp [load, Threads.read, Threads.readProfile, Threads.readAlgorithm, isContainer, hs,
    parse_name hv, hv, Threads.disable, SortedMap.insert, Json.getBool, Json.getUint,
    Json.getIntegral, Json.find, hen, hlimit]

theorem not_resolves {t : Threads CpuThreads} {algo : Algorithm}
    (h : t.get (t.profileName algo false) = none) : ¬Resolves t algo := by
  rintro ⟨profile, hget, -⟩
  rw [h] at hget
  cases hget

/-- With `rx/wow` disabled, `rx/arq` is given its name and has no profile. With `rx/0`
disabled, there is none for the others. -/
theorem uncovered :
    (¬Covered (load (fun _ _ _ => 0) {} (.object [(ascii "rx/wow", .bool false)])).m_threads
      (read oneThread (fun _ _ _ => 0) {} (.object [(ascii "rx/wow", .bool false)])).m_threads) ∧
    ¬Covered (load (fun _ _ _ => 0) {} (.object [(ascii "rx/0", .bool false)])).m_threads
      (read oneThread (fun _ _ _ => 0) {} (.object [(ascii "rx/0", .bool false)])).m_threads := by
  constructor
  · intro h
    unfold read at h
    rw [@load_disabled _ .RX_WOW (by decide) (by decide) (by decide) (by decide)] at h
    exact not_resolves (by decide) (h .RX_ARQ (by decide) (by decide))
  · intro h
    unfold read at h
    rw [@load_disabled _ .RX_0 (by decide) (by decide) (by decide) (by decide)] at h
    exact not_resolves (by decide) (h .RX_V2 (by decide) (by decide))

/-- Nothing is said of any algorithm. -/
theorem covered_iff_empty :
    Covered (load (fun _ _ _ => 0) {} (.object [])).m_threads
      (read oneThread (fun _ _ _ => 0) {} (.object [])).m_threads :=
  (covered_iff oneThread (fun _ _ _ => 0) (.object []) fun _ _ => rfl).mpr
    (Or.inr ⟨fun _ _ => Or.inr (by decide), Or.inl (by decide)⟩)

end Rxs.L4.CpuConfigGen
