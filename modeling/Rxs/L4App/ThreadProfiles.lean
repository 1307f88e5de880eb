import Mathlib.Data.List.TakeWhile
import Rxs.L2Machine.CString
import Rxs.L4App.AlgorithmName
import Rxs.L4App.HwlocCpuInfo

/-!
# Profiles of threads

The `cpu` section of a configuration has profiles of threads by name, and names of
algorithms with a profile each to use, or with `false`. `Threads::read` reads the profiles
first, then the algorithms.

* `stable`: a profile that is written and read is the same.
* `inv_read`: what holds of all that was read.
* **`read_toJSON`**: what was read, written and read again, is the same.
-/
namespace Rxs.L4.ThreadProfiles

open Rxs.Core Rxs.CString Rxs.L4.HwlocCpuInfo Rxs.L4.AlgorithmName

/-! ## A profile -/

/-- What a value that is no integer holds where one is taken from it, by its place. -/
abbrev Raw := Nat → Nat → UInt32

/-- The low 32 bits of an integer. -/
def low (raw : UInt32) : Json → Nat
  | .int n => (n % 2 ^ 32).toNat
  | _ => raw.toNat

/-- `Value::GetUint` and `Value::GetInt`, which do not check the type. -/
def getUint (raw : UInt32) (v : Json) : Nat := low raw v

def getInt (raw : UInt32) (v : Json) : Int :=
  if low raw v < 2 ^ 31 then low raw v else low raw v - 2 ^ 32

namespace CpuThread

/-- mirrors src/backend/cpu/CpuThread.cpp:31-42 -/
def ofJson (raw : Nat → UInt32) : Json → CpuThread
  | .array (v₀ :: v₁ :: _) => { intensity := getUint (raw 0) v₀, affinity := getInt (raw 1) v₁ }
  | .int n => if -2 ^ 31 ≤ n ∧ n < 2 ^ 31 then { intensity := 0, affinity := n } else {}
  | _ => {}

/-- mirrors src/backend/cpu/CpuThread.h:43 -/
def isValid (t : CpuThread) : Bool := t.intensity ≤ 8

/-- `CpuThread::intensity`. -/
def getIntensity (t : CpuThread) : Nat := if t.intensity = 0 then 1 else t.intensity

/-- mirrors src/backend/cpu/CpuThread.cpp:45-58 -/
def toJSON (t : CpuThread) : Json :=
  if t.intensity = 0 then .int t.affinity
  else .array [.int t.intensity, .int t.affinity]

end CpuThread

inductive Format where
  | ArrayFormat | ObjectFormat
  deriving DecidableEq, Repr

/-- mirrors src/backend/cpu/CpuThreads.h:60-68 -/
structure CpuThreads where
  m_format : Format := .ArrayFormat
  m_affinity : Int := -1
  m_data : List CpuThread := []
  deriving DecidableEq, Repr

namespace CpuThreads

/-- mirrors src/backend/cpu/CpuThreads.cpp:35-49 -/
def getAffinityMask : Json → Int
  | .int n => if -2 ^ 63 ≤ n ∧ n < 2 ^ 63 then n else -1
  | .string arg =>
    match Stratum.strstr (ascii "0x") (cstr arg) with
    | some p => strtoll 16 p
    | none => strtoll 10 (cstr arg)
  | _ => -1

/-- The `index`-th of the bits that are set.
mirrors src/backend/cpu/CpuThreads.cpp:52-75 -/
def getAffinity (index : Nat) (affinity : Int) : Int :=
  if affinity = -1 then -1
  else
    let mask := (affinity % 2 ^ 64).toNat
    match ((List.range 64).filter fun i => mask.testBit i)[index]? with
    | some i => i
    | none => -1

/-- mirrors src/backend/cpu/CpuThreads.cpp:81-106 -/
def ofJson (raw : Raw) : Json → CpuThreads
  | .array elements =>
    { m_data := (elements.zipIdx.map fun v => CpuThread.ofJson (raw v.2) v.1).filter
        CpuThread.isValid }
  | .object members =>
    let value := Json.object members
    let intensity := value.getUint (ascii "intensity") 1
    let threads := min (value.getUint (ascii "threads") 0) 1024
    let affinity := getAffinityMask (value.getValue (ascii "affinity"))
    let intensity := if intensity < 1 ∨ intensity > 5 then 1 else intensity
    { m_format := .ObjectFormat
      m_affinity := affinity
      m_data := (List.range threads).map fun i => ⟨getAffinity i affinity, intensity⟩ }
  | _ => {}

def isEmpty (t : CpuThreads) : Bool := t.m_data.isEmpty

def count (t : CpuThreads) : Nat := t.m_data.length

/-- mirrors src/backend/cpu/CpuThreads.cpp:119-126 -/
def isEqual (t other : CpuThreads) : Bool := t.m_data = other.m_data

/-- mirrors src/backend/cpu/CpuThreads.cpp:129-149 -/
def toJSON (t : CpuThreads) : Json :=
  match t.m_format with
  | .ArrayFormat => .array (t.m_data.map CpuThread.toJSON)
  | .ObjectFormat =>
    .object
      [(ascii "intensity",
          .int (match t.m_data with | [] => 1 | t :: _ => CpuThread.getIntensity t)),
        (ascii "threads", .int (t.m_data.length % 2 ^ 32)), (ascii "affinity", .int t.m_affinity)]

end CpuThreads

/-! ## Profiles -/

/-- What `Threads` needs of the type of its profiles. -/
class Profile (T : Type) where
  ofJson : Raw → Json → T
  isEmpty : T → Bool
  count : T → Nat
  toJSON : T → Json

instance : Profile CpuThreads where
  ofJson := CpuThreads.ofJson
  isEmpty := CpuThreads.isEmpty
  count := CpuThreads.count
  toJSON := CpuThreads.toJSON

/-- `std::map` and `std::set` by the id. -/
def idLt (a b : Algorithm) : Bool := a.id < b.id

/-- mirrors src/backend/common/Threads.h:67-70 -/
structure Threads (T : Type) where
  m_aliases : List (Algorithm × Bytes) := []
  m_profiles : List (Bytes × T) := []
  m_disabled : List (Algorithm × Unit) := []
  deriving DecidableEq, Repr

/-- `IsArray` or `IsObject`. -/
def isContainer : Json → Bool
  | .array _ => true
  | .object _ => true
  | _ => false

namespace Threads

variable {T : Type} [Profile T]

/-- mirrors src/backend/common/Threads.h:40-47 -/
def has (t : Threads T) (profile : Bytes) : Bool :=
  (SortedMap.find strLt t.m_profiles profile).isSome

def isDisabled (t : Threads T) (algo : Algorithm) : Bool :=
  (SortedMap.find idLt t.m_disabled algo).isSome

def isExist (t : Threads T) (algo : Algorithm) : Bool :=
  t.isDisabled algo || (SortedMap.find idLt t.m_aliases algo).isSome || t.has (name algo)

def disable (t : Threads T) (algo : Algorithm) : Threads T :=
  { t with m_disabled := SortedMap.insert idLt t.m_disabled algo () }

def setAlias (t : Threads T) (algo : Algorithm) (profile : Bytes) : Threads T :=
  { t with m_aliases := SortedMap.assign idLt t.m_aliases algo profile }

/-- mirrors src/backend/common/Threads.h:49-61 -/
def move (t : Threads T) (profile : Bytes) (threads : T) : Threads T × Nat :=
  if t.has profile then (t, 0)
  else
    (if !Profile.isEmpty threads then
      { t with m_profiles := SortedMap.insert strLt t.m_profiles profile threads }
    else t, Profile.count threads)

/-- A profile of the section. -/
def readProfile (raw : Bytes → Raw) (t : Threads T) (member : Bytes × Json) : Threads T :=
  if isContainer member.2 then
    let threads := Profile.ofJson (raw member.1) member.2
    if !Profile.isEmpty threads then (t.move (cstr member.1) threads).1 else t
  else t

/-- An algorithm of the section. -/
def readAlgorithm (t : Threads T) (member : Bytes × Json) : Threads T :=
  if isContainer member.2 then t
  else
    let algo := AlgorithmName.parse (cstr member.1)
    if algo = .INVALID then t
    else
      match member.2 with
      | .bool false => t.disable algo
      | .string s =>
        if t.has (cstr s) then
          { t with m_aliases := SortedMap.insert idLt t.m_aliases algo (cstr s) }
        else t.disable algo
      | _ => t

/-- mirrors src/backend/common/Threads.cpp:46-87 -/
def read (raw : Bytes → Raw) (t : Threads T) (members : List (Bytes × Json)) : Threads T :=
  members.foldl readAlgorithm (members.foldl (readProfile raw) t)

/-- No name is the null string.
mirrors src/backend/common/Threads.cpp:90-123 -/
def profileName (t : Threads T) (algorithm : Algorithm) (strict : Bool) : Option Bytes :=
  if t.isDisabled algorithm then none
  else if t.has (name algorithm) then some (name algorithm)
  else
    match SortedMap.find idLt t.m_aliases algorithm with
    | some alias_it => some alias_it.2
    | none =>
      if strict then none
      else
        let base := if 47 ∈ name algorithm then (split 47 (name algorithm)).head? else none
        match base.filter t.has with
        | some base => some base
        | none => if t.has (ascii "*") then some (ascii "*") else none

/-- mirrors src/backend/common/Threads.cpp:34-43 -/
def get (t : Threads T) (profileName : Option Bytes) : Option T :=
  profileName.bind fun profileName => (SortedMap.find strLt t.m_profiles profileName).map (·.2)

/-- mirrors src/backend/common/Threads.cpp:126-143 -/
def toJSON (t : Threads T) : List (Bytes × Json) :=
  t.m_profiles.map (fun kv => (kv.1, Profile.toJSON kv.2)) ++
    t.m_disabled.map (fun algo => (name algo.1, .bool false)) ++
    t.m_aliases.map (fun kv => (name kv.1, .string kv.2))

end Threads

/-! ## One profile, written and read -/

theorem low_lt (raw : UInt32) (v : Json) : low raw v < 2 ^ 32 := by
  unfold low
  split
  · omega
  · exact raw.toNat_lt

theorem getInt_bounds (raw : UInt32) (v : Json) :
    -2 ^ 31 ≤ getInt raw v ∧ getInt raw v < 2 ^ 31 := by
  have := low_lt raw v
  unfold getInt
  split <;> omega

theorem getUint_int (raw : UInt32) {n : Nat} (h : n < 2 ^ 32) : getUint raw (.int n) = n := by
  simp only [getUint, low]
  omega

theorem getInt_int (raw : UInt32) {n : Int} (h : -2 ^ 31 ≤ n ∧ n < 2 ^ 31) :
    getInt raw (.int n) = n := by
  have hlow : low raw (.int n) = (n % 2 ^ 32).toNat := rfl
  unfold getInt
  split <;> omega

theorem CpuThread.bounds (raw : Nat → UInt32) (v : Json) :
    -2 ^ 31 ≤ (ofJson raw v).affinity ∧ (ofJson raw v).affinity < 2 ^ 31 := by
  unfold ofJson
  split
  · exact getInt_bounds _ _
  · split
    · assumption
    · decide
  · decide

theorem CpuThread.ofJson_toJSON (raw : Nat → UInt32) {t : CpuThread} (hv : isValid t = true)
    (ha : -2 ^ 31 ≤ t.affinity ∧ t.affinity < 2 ^ 31) : ofJson raw (toJSON t) = t := by
  have hi : t.intensity ≤ 8 := by simpa [isValid] using hv
  unfold toJSON
  split
  case isTrue h0 =>
    rw [ofJson, if_pos ha, ← h0]
  case isFalse =>
    rw [ofJson, getUint_int _ (by omega), getInt_int _ ha]

/-- Read back, a profile is the same. -/
structure Stable {T : Type} [Profile T] (t : T) : Prop where
  nonempty : Profile.isEmpty t = false
  container : isContainer (Profile.toJSON t) = true
  back : ∀ raw, Profile.ofJson raw (Profile.toJSON t) = t

theorem getAffinityMask_bounds (v : Json) :
    -2 ^ 63 ≤ CpuThreads.getAffinityMask v ∧ CpuThreads.getAffinityMask v < 2 ^ 63 := by
  unfold CpuThreads.getAffinityMask
  split
  · split
    · assumption
    · decide
  · split
    · exact strtoll_bounds _ _
    · exact strtoll_bounds _ _
  · decide

theorem back_array (raw : Raw) {data : List CpuThread}
    (h : ∀ t ∈ data, CpuThread.isValid t = true ∧ -2 ^ 31 ≤ t.affinity ∧ t.affinity < 2 ^ 31) :
    CpuThreads.ofJson raw (.array (data.map CpuThread.toJSON)) = { m_data := data } := by
  have hmap : (data.map CpuThread.toJSON).zipIdx.map
      (fun v => CpuThread.ofJson (raw v.2) v.1) = data := by
    rw [List.zipIdx_map, List.map_map]
    conv_rhs => rw [← List.zipIdx_map_fst 0 data]
    refine List.map_congr_left fun e he => ?_
    obtain ⟨hv, ha⟩ := h e.1 (List.fst_mem_of_mem_zipIdx he)
    exact CpuThread.ofJson_toJSON _ hv ha
  rw [CpuThreads.ofJson, hmap, List.filter_eq_self.mpr fun t ht => (h t ht).1]

section Members

variable (a b c : Json)

theorem find_intensity : (Json.object [(ascii "intensity", a), (ascii "threads", b),
    (ascii "affinity", c)]).find (ascii "intensity") = some a := rfl

theorem find_threads : (Json.object [(ascii "intensity", a), (ascii "threads", b),
    (ascii "affinity", c)]).find (ascii "threads") = some b := rfl

theorem find_affinity : (Json.object [(ascii "intensity", a), (ascii "threads", b),
    (ascii "affinity", c)]).find (ascii "affinity") = some c := rfl

end Members

theorem back_object (raw : Raw) {affinity : Int} {intensity threads : Nat}
    (ha : -2 ^ 63 ≤ affinity ∧ affinity < 2 ^ 63) (hi : 1 ≤ intensity ∧ intensity ≤ 5)
    (ht : threads ≤ 1024) :
    CpuThreads.ofJson raw (.object [(ascii "intensity", .int intensity),
        (ascii "threads", .int threads), (ascii "affinity", .int affinity)]) =
      { m_format := .ObjectFormat
        m_affinity := affinity
        m_data := (List.range threads).map fun i =>
          ⟨CpuThreads.getAffinity i affinity, intensity⟩ } := by
  have hmin : min threads 1024 = threads := Nat.min_eq_left ht
  have hmask : CpuThreads.getAffinityMask (.int affinity) = affinity := if_pos ha
  have hsize : ∀ {n : Nat}, n ≤ 1024 → ((0 : Int) ≤ n ∧ (n : Int) < 2 ^ 32) := by
    intro n hn
    omega
  simp only [CpuThreads.ofJson, Json.getUint, Json.getIntegral, Json.getValue, find_intensity,
    find_threads, find_affinity, Option.getD_some, hmask, if_pos (hsize ht),
    if_pos (hsize (show intensity ≤ 1024 by omega)), Int.toNat_natCast, hmin]
  rw [if_neg (by omega)]

theorem toJSON_object {affinity : Int} {intensity threads : Nat} (hi : 1 ≤ intensity)
    (hpos : 0 < threads) (ht : threads ≤ 1024) :
    CpuThreads.toJSON
      { m_format := .ObjectFormat
        m_affinity := affinity
        m_data := (List.range threads).map fun i =>
          ⟨CpuThreads.getAffinity i affinity, intensity⟩ } =
      .object [(ascii "intensity", .int intensity), (ascii "threads", .int threads),
        (ascii "affinity", .int affinity)] := by
  obtain ⟨n, rfl⟩ : ∃ n, threads = n + 1 := ⟨threads - 1, by omega⟩
  have hsize : (((n + 1 : Nat) : Int) % 2 ^ 32) = (n + 1 : Nat) := by omega
  simp only [CpuThreads.toJSON, List.range_succ_eq_map, List.map_cons, List.length_cons,
    List.length_map, List.length_range, CpuThread.getIntensity, hsize]
  rw [if_neg (by omega)]

/-- A profile that is written and read is the same. -/
theorem stable (raw : Raw) (v : Json)
    (hne : Profile.isEmpty (Profile.ofJson raw v : CpuThreads) = false) :
    Stable (Profile.ofJson raw v : CpuThreads) := by
  cases v with
  | array elements =>
    refine ⟨hne, rfl, fun raw' => back_array raw' fun t ht => ?_⟩
    obtain ⟨hmem, hv⟩ := List.mem_filter.mp ht
    obtain ⟨e, -, rfl⟩ := List.mem_map.mp hmem
    exact ⟨hv, CpuThread.bounds _ _⟩
  | object members =>
    have hobject : ∃ affinity intensity threads, (-2 ^ 63 ≤ affinity ∧ affinity < 2 ^ 63) ∧
        (1 ≤ intensity ∧ intensity ≤ 5) ∧ threads ≤ 1024 ∧
        (Profile.ofJson raw (.object members) : CpuThreads) =
          { m_format := .ObjectFormat
            m_affinity := affinity
            m_data := (List.range threads).map fun i =>
              ⟨CpuThreads.getAffinity i affinity, intensity⟩ } := by
      refine ⟨_, _, _, getAffinityMask_bounds _, ?_, Nat.min_le_right _ _, rfl⟩
      split <;> omega
    obtain ⟨affinity, intensity, threads, ha, hi, ht, heq⟩ := hobject
    rw [heq] at hne ⊢
    have hpos : 0 < threads := by
      rcases Nat.eq_zero_or_pos threads with rfl | h
      · cases hne
      · exact h
    refine ⟨hne, rfl, fun raw' => ?_⟩
    have hjson := @toJSON_object affinity _ _ hi.1 hpos ht
    change CpuThreads.ofJson raw' (CpuThreads.toJSON _) = _
    rw [hjson, back_object raw' ha hi ht]
  | _ => cases hne

/-! ## What was read -/

theorem idLt_order : StrictOrder idLt where
  irrefl a := by simp [idLt]
  trans a b c h h' := by
    simp only [idLt, decide_eq_true_eq] at h h' ⊢
    omega

namespace Threads

variable {T : Type} [Profile T]

/-- Profiles that can be read again, and names of them. -/
structure Inv (t : Threads T) : Prop where
  profiles : SortedMap.Sorted strLt t.m_profiles
  stable : ∀ e ∈ t.m_profiles, cstr e.1 = e.1 ∧ Stable e.2
  disabled : SortedMap.Sorted idLt t.m_disabled
  disabled_valid : ∀ e ∈ t.m_disabled, e.1 ≠ .INVALID
  aliases : SortedMap.Sorted idLt t.m_aliases
  aliases_valid : ∀ e ∈ t.m_aliases, e.1 ≠ .INVALID ∧ cstr e.2 = e.2 ∧ t.has e.2 = true

theorem inv_empty : Inv ({} : Threads T) where
  profiles := List.Pairwise.nil
  stable := by simp
  disabled := List.Pairwise.nil
  disabled_valid := by simp
  aliases := List.Pairwise.nil
  aliases_valid := by simp

/-- A profile that is moved in is inserted, if it is not empty. -/
theorem move_eq (t : Threads T) (profile : Bytes) {threads : T}
    (hne : Profile.isEmpty threads = false) :
    (t.move profile threads).1 =
      { t with m_profiles := SortedMap.insert strLt t.m_profiles profile threads } := by
  unfold move
  split
  case isTrue h => rw [SortedMap.insert_of_isSome threads h]
  case isFalse => rw [hne]; rfl

theorem readProfile_eq (raw : Bytes → Raw) (t : Threads T) (member : Bytes × Json)
    (hc : isContainer member.2 = true)
    (hne : Profile.isEmpty (Profile.ofJson (raw member.1) member.2 : T) = false) :
    t.readProfile raw member =
      { t with
        m_profiles := SortedMap.insert strLt t.m_profiles (cstr member.1)
          (Profile.ofJson (raw member.1) member.2) } := by
  unfold readProfile
  rw [if_pos hc]
  simp only [hne, Bool.not_false, if_true]
  exact move_eq t _ hne

theorem inv_readProfile (raw : Bytes → Raw)
    (hlaw : ∀ (raw : Raw) (v : Json), Profile.isEmpty (Profile.ofJson raw v : T) = false →
      Stable (Profile.ofJson raw v : T))
    {t : Threads T} (I : Inv t) (member : Bytes × Json) : Inv (t.readProfile raw member) := by
  by_cases hc : isContainer member.2 = true
  case neg =>
    rw [readProfile, if_neg hc]
    exact I
  case pos =>
    cases hne : Profile.isEmpty (Profile.ofJson (raw member.1) member.2 : T) with
    | true =>
      rw [readProfile, if_pos hc]
      simpa [hne] using I
    | false =>
      rw [readProfile_eq raw t member hc hne]
      exact
        { I with
          profiles := SortedMap.sorted_insert strLt_order I.profiles _ _
          stable := by
            intro e he
            rcases SortedMap.mem_insert he with rfl | he
            · exact ⟨cstr_cstr _, hlaw _ _ hne⟩
            · exact I.stable e he
          aliases_valid := by
            intro e he
            obtain ⟨hv, hs, hhas⟩ := I.aliases_valid e he
            exact ⟨hv, hs, SortedMap.find_insert_of_isSome strLt_order _ _ hhas⟩ }

theorem inv_disable {t : Threads T} (I : Inv t) {algo : Algorithm} (h : algo ≠ .INVALID) :
    Inv (t.disable algo) :=
  { I with
    disabled := SortedMap.sorted_insert idLt_order I.disabled _ _
    disabled_valid := by
      intro e he
      rcases SortedMap.mem_insert he with rfl | he
      · exact h
      · exact I.disabled_valid e he }

theorem inv_readAlgorithm {t : Threads T} (I : Inv t) (member : Bytes × Json) :
    Inv (t.readAlgorithm member) := by
  unfold readAlgorithm
  split
  · exact I
  · dsimp only
    split
    · exact I
    · rename_i hvalid
      split
      · exact inv_disable I hvalid
      · split
        case isTrue hhas =>
          exact
            { I with
              aliases := SortedMap.sorted_insert idLt_order I.aliases _ _
              aliases_valid := by
                intro e he
                rcases SortedMap.mem_insert he with rfl | he
                · exact ⟨hvalid, cstr_cstr _, hhas⟩
                · exact I.aliases_valid e he }
        case isFalse => exact inv_disable I hvalid
      · exact I

theorem inv_read (raw : Bytes → Raw)
    (hlaw : ∀ (raw : Raw) (v : Json), Profile.isEmpty (Profile.ofJson raw v : T) = false →
      Stable (Profile.ofJson raw v : T))
    {t : Threads T} (I : Inv t) (members : List (Bytes × Json)) : Inv (t.read raw members) := by
  have hprofiles : Inv (members.foldl (readProfile raw) t) := by
    refine List.foldlRecOn members _ I fun s hs m _ => ?_
    exact inv_readProfile raw hlaw hs m
  unfold read
  refine List.foldlRecOn members _ hprofiles fun s hs m _ => ?_
  exact inv_readAlgorithm hs m

/-! ## Read again -/

theorem foldl_profiles (raw : Bytes → Raw) {es : List (Bytes × T)}
    (h : ∀ e ∈ es, cstr e.1 = e.1 ∧ Stable e.2) (t : Threads T) :
    (es.map fun kv => (kv.1, Profile.toJSON kv.2)).foldl (readProfile raw) t =
      { t with
        m_profiles := es.foldl (fun m e => SortedMap.insert strLt m e.1 e.2) t.m_profiles } := by
  induction es generalizing t with
  | nil => rfl
  | cons e es ih =>
    obtain ⟨hname, hs⟩ := h e List.mem_cons_self
    have hne : Profile.isEmpty (Profile.ofJson (raw e.1) (Profile.toJSON e.2) : T) = false := by
      rw [hs.back]
      exact hs.nonempty
    rw [List.map_cons, List.foldl_cons, readProfile_eq raw t _ hs.container hne,
      ih fun e he => h e (List.mem_cons_of_mem _ he)]
    simp [hname, hs.back]

omit [Profile T] in
theorem foldl_disabled {es : List (Algorithm × Unit)} (h : ∀ e ∈ es, e.1 ≠ .INVALID)
    (t : Threads T) :
    (es.map fun algo => (name algo.1, Json.bool false)).foldl readAlgorithm t =
      { t with
        m_disabled := es.foldl (fun m e => SortedMap.insert idLt m e.1 e.2) t.m_disabled } := by
  induction es generalizing t with
  | nil => rfl
  | cons e es ih =>
    have hstep : t.readAlgorithm (name e.1, .bool false) = t.disable e.1 := by
      simp [readAlgorithm, isContainer, cstr_name, parse_name (h e List.mem_cons_self),
        h e List.mem_cons_self]
    rw [List.map_cons, List.foldl_cons, hstep, ih fun e he => h e (List.mem_cons_of_mem _ he)]
    rfl

omit [Profile T] in
theorem foldl_aliases {es : List (Algorithm × Bytes)} (t : Threads T)
    (h : ∀ e ∈ es, e.1 ≠ .INVALID ∧ cstr e.2 = e.2 ∧ t.has e.2 = true) :
    (es.map fun kv => (name kv.1, Json.string kv.2)).foldl readAlgorithm t =
      { t with
        m_aliases := es.foldl (fun m e => SortedMap.insert idLt m e.1 e.2) t.m_aliases } := by
  induction es generalizing t with
  | nil => rfl
  | cons e es ih =>
    obtain ⟨hv, hs, hhas⟩ := h e List.mem_cons_self
    have hstep : t.readAlgorithm (name e.1, .string e.2) =
        { t with m_aliases := SortedMap.insert idLt t.m_aliases e.1 e.2 } := by
      simp [readAlgorithm, isContainer, cstr_name, parse_name hv, hv, hs, hhas]
    rw [List.map_cons, List.foldl_cons, hstep, ih]
    · rfl
    · exact fun e he => h e (List.mem_cons_of_mem _ he)

theorem foldl_id {α β : Type*} {f : β → α → β} {b : β} {l : List α} (h : ∀ a ∈ l, f b a = b) :
    l.foldl f b = b := by
  induction l with
  | nil => rfl
  | cons a l ih =>
    rw [List.foldl_cons, h a List.mem_cons_self]
    exact ih fun a ha => h a (List.mem_cons_of_mem _ ha)

/-- What was read and written is read as it was. -/
theorem Inv.back {t : Threads T} (I : Inv t) (raw : Bytes → Raw) : read raw {} t.toJSON = t := by
  have hfirst : t.toJSON.foldl (readProfile raw) {} = { m_profiles := t.m_profiles } := by
    unfold toJSON
    rw [List.append_assoc, List.foldl_append, foldl_profiles raw I.stable,
      SortedMap.foldl_insert I.profiles]
    refine foldl_id fun m hm => ?_
    rcases List.mem_append.mp hm with hm | hm
    · obtain ⟨e, -, rfl⟩ := List.mem_map.mp hm
      rfl
    · obtain ⟨e, -, rfl⟩ := List.mem_map.mp hm
      rfl
  have hskip : (t.m_profiles.map fun kv => (kv.1, Profile.toJSON kv.2)).foldl readAlgorithm
      { m_profiles := t.m_profiles } = ({ m_profiles := t.m_profiles } : Threads T) := by
    refine foldl_id fun m hm => ?_
    obtain ⟨e, he, rfl⟩ := List.mem_map.mp hm
    rw [readAlgorithm, if_pos (I.stable e he).2.container]
  unfold read
  rw [hfirst]
  unfold toJSON
  rw [List.foldl_append, List.foldl_append, hskip, foldl_disabled I.disabled_valid,
    SortedMap.foldl_insert I.disabled]
  have haliases := foldl_aliases
    ({ m_profiles := t.m_profiles, m_disabled := t.m_disabled } : Threads T) I.aliases_valid
  rw [SortedMap.foldl_insert I.aliases] at haliases
  exact haliases

end Threads

/-- For any `cpu` section, whatever stands in place of integers, what is read of it is the
same after it is written and read again: for every algorithm the name and the profile, and
what is aliased or disabled. The second text is the first. -/
theorem read_toJSON (raw raw' : Bytes → Raw) (members : List (Bytes × Json)) :
    let t : Threads CpuThreads := Threads.read raw {} members
    let t' : Threads CpuThreads := Threads.read raw' {} t.toJSON
    t' = t ∧ t'.toJSON = t.toJSON ∧
    (∀ profile, t'.get profile = t.get profile) ∧
    ∀ algorithm strict, t'.profileName algorithm strict = t.profileName algorithm strict ∧
      t'.get (t'.profileName algorithm strict) = t.get (t.profileName algorithm strict) ∧
      t'.isDisabled algorithm = t.isDisabled algorithm ∧
      t'.isExist algorithm = t.isExist algorithm := by
  intro t t'
  have heq : t' = t := (Threads.inv_read raw stable Threads.inv_empty members).back raw'
  rw [heq]
  exact ⟨rfl, rfl, fun _ => rfl, fun _ _ => ⟨rfl, rfl, rfl, rfl⟩⟩

end Rxs.L4.ThreadProfiles
