import Rxs.L2Machine.MsrItem
import Rxs.L4App.HwlocCpuInfo
import Rxs.L4App.PoolRoundTrip

/-!
# The RandomX section, saved and loaded

`RxConfig::read` takes the `randomx` section of a configuration and `RxConfig::toJSON`
writes it. A preset of model specific registers is a flag, a number or a list of texts.

* `reload_toJSON`: the configuration that is loaded from a saved one.
* **`reload_iff`**: when it is the one that was saved.
-/
namespace Rxs.L4

open Rxs.Core Rxs.L2 Rxs.L4.HwlocCpuInfo

/-! ## The configuration -/

inductive RxConfig.Mode where
  | AutoMode | FastMode | LightMode
  deriving DecidableEq, Repr

inductive RxConfig.ScratchpadPrefetchMode where
  | ScratchpadPrefetchOff | ScratchpadPrefetchT0 | ScratchpadPrefetchNTA | ScratchpadPrefetchMov
  deriving DecidableEq, Repr

def RxConfig.ScratchpadPrefetchMode.toInt : RxConfig.ScratchpadPrefetchMode → Int
  | .ScratchpadPrefetchOff => 0
  | .ScratchpadPrefetchT0 => 1
  | .ScratchpadPrefetchNTA => 2
  | .ScratchpadPrefetchMov => 3

/-- mirrors src/crypto/rx/RxConfig.h:97-123 -/
structure RxConfig where
  m_wrmsr : Bool := true
  m_msrPreset : List MsrItem := []
  m_cacheQoS : Bool := false
  m_oneGbPages : Bool := false
  m_rdmsr : Bool := true
  m_threads : Int := -1
  m_initDatasetAVX2 : Int := -1
  m_mode : RxConfig.Mode := .AutoMode
  m_scratchpadPrefetchMode : RxConfig.ScratchpadPrefetchMode := .ScratchpadPrefetchT0
  m_numa : Bool := true
  m_nodeset : List Nat := []
  deriving DecidableEq, Repr

namespace RxConfig

/-! ## The reader -/

/-- mirrors src/crypto/rx/RxConfig.cpp:288-307 -/
def readMode : Json → Mode
  | .int n =>
    if 0 ≤ n ∧ n < 2 ^ 32 then
      if n = 0 then .AutoMode else if n = 1 then .FastMode else .LightMode
    else .AutoMode
  | .string mode =>
    if strcasecmp (cstr mode) "auto" then .AutoMode
    else if strcasecmp (cstr mode) "fast" then .FastMode
    else if strcasecmp (cstr mode) "light" then .LightMode
    else .AutoMode
  | _ => .AutoMode

/-- mirrors src/crypto/rx/RxConfig.cpp:253-285 -/
def readMSR (vendor : Vendor) (c : RxConfig) : Json → RxConfig
  | .bool b => { c with m_wrmsr := b }
  | .int n =>
    if -2 ^ 31 ≤ n ∧ n < 2 ^ 31 then
      let i := min n 15
      if i ≥ 0 then
        if vendor = .VENDOR_INTEL then
          { c with
            m_msrPreset := c.m_msrPreset ++
              [{ m_reg := 0x1a4, m_value := UInt64.ofNat i.toNat }] }
        else c
      else { c with m_wrmsr := false }
    else c
  | .array elements =>
    let m_msrPreset := c.m_msrPreset ++ (elements.map MsrItem.ofJson).filter MsrItem.isValid
    { c with m_msrPreset := m_msrPreset, m_wrmsr := !m_msrPreset.isEmpty }
  | _ => c

/-- `IsUint`, with the value. -/
def uint : Json → Option Nat
  | .int n => if 0 ≤ n ∧ n < 2 ^ 32 then some n.toNat else none
  | _ => none

/-- mirrors src/crypto/rx/RxConfig.cpp:102-115 -/
def readNUMA (c : RxConfig) : Json → RxConfig
  | .array elements => { c with m_nodeset := c.m_nodeset ++ elements.filterMap uint }
  | .bool b => { c with m_numa := b }
  | _ => c

/-- The value of a `uint32_t`, if it is a mode.
mirrors src/crypto/rx/RxConfig.cpp:118-121 -/
def readPrefetch (n : Int) (m : ScratchpadPrefetchMode) : ScratchpadPrefetchMode :=
  match n with
  | 0 => .ScratchpadPrefetchOff
  | 1 => .ScratchpadPrefetchT0
  | 2 => .ScratchpadPrefetchNTA
  | 3 => .ScratchpadPrefetchMov
  | _ => m

/-- What is read in every mode.
mirrors src/crypto/rx/RxConfig.cpp:80-93 -/
def readCommon (vendor : Vendor) (c : RxConfig) (value : Json) : RxConfig :=
  let c := { c with
    m_threads := value.getInt (ascii "init") c.m_threads
    m_initDatasetAVX2 := value.getInt (ascii "init-avx2") c.m_initDatasetAVX2
    m_mode := readMode (value.getValue (ascii "mode"))
    m_rdmsr := value.getBool (ascii "rdmsr") c.m_rdmsr }
  let c := readMSR vendor c (value.getValue (ascii "wrmsr"))
  { c with
    m_cacheQoS := value.getBool (ascii "cache_qos") c.m_cacheQoS
    m_oneGbPages := value.getBool (ascii "1gb-pages") c.m_oneGbPages }

/-- mirrors src/crypto/rx/RxConfig.cpp:77-127 -/
def read (vendor : Vendor) (c : RxConfig) (value : Json) : Bool × RxConfig :=
  if value.isObject then
    let c := readCommon vendor c value
    if c.m_mode = .LightMode then (true, { c with m_numa := false })
    else
      let c := readNUMA c (value.getValue (ascii "numa"))
      let mode := value.getInt (ascii "scratchpad_prefetch_mode") c.m_scratchpadPrefetchMode.toInt
      (true, { c with m_scratchpadPrefetchMode := readPrefetch mode c.m_scratchpadPrefetchMode })
  else (false, c)

/-! ## The writer -/

/-- mirrors src/crypto/rx/RxConfig.cpp:52,204-207 -/
def modeName : Mode → Bytes
  | .AutoMode => ascii "auto"
  | .FastMode => ascii "fast"
  | .LightMode => ascii "light"

/-- mirrors src/crypto/rx/RxConfig.cpp:130-179 -/
def toJSON (c : RxConfig) : Json :=
  .object
    [(ascii "init", .int c.m_threads), (ascii "init-avx2", .int c.m_initDatasetAVX2),
      (ascii "mode", .string (modeName c.m_mode)), (ascii "1gb-pages", .bool c.m_oneGbPages),
      (ascii "rdmsr", .bool c.m_rdmsr),
      (ascii "wrmsr",
        if !c.m_msrPreset.isEmpty then .array (c.m_msrPreset.map MsrItem.toJSON)
        else .bool c.m_wrmsr),
      (ascii "cache_qos", .bool c.m_cacheQoS),
      (ascii "numa",
        if !c.m_nodeset.isEmpty then .array (c.m_nodeset.map fun i : Nat => .int i)
        else .bool c.m_numa),
      (ascii "scratchpad_prefetch_mode", .int c.m_scratchpadPrefetchMode.toInt)]

/-! ## What is asked -/

def load (vendor : Vendor) (object : Json) : RxConfig := (read vendor {} object).2

/-- The section has no text of a wide item. -/
def Narrow (object : Json) : Prop :=
  ∀ elements, object.getValue (ascii "wrmsr") = .array elements →
    ∀ x ∈ elements, ¬MsrItem.Wide x

/-! ## A configuration that was loaded -/

/-- What holds of a configuration that was loaded. -/
structure Loaded (c : RxConfig) : Prop where
  threads : -2 ^ 31 ≤ c.m_threads ∧ c.m_threads < 2 ^ 31
  initDatasetAVX2 : -2 ^ 31 ≤ c.m_initDatasetAVX2 ∧ c.m_initDatasetAVX2 < 2 ^ 31
  wrmsr : c.m_msrPreset ≠ [] → c.m_wrmsr = true
  valid : ∀ i ∈ c.m_msrPreset, i.isValid = true
  numa : c.m_nodeset ≠ [] → c.m_numa = true
  nodeset : ∀ n ∈ c.m_nodeset, n < 2 ^ 32
  light : c.m_mode = .LightMode →
    c.m_numa = false ∧ c.m_scratchpadPrefetchMode = .ScratchpadPrefetchT0

/-- The preset is read into a configuration that has none, whatever else it has. -/
theorem readMSR_fresh (vendor : Vendor) {c : RxConfig} (hw : c.m_wrmsr = true)
    (hp : c.m_msrPreset = []) (j : Json) :
    readMSR vendor c j = { c with
      m_wrmsr := (readMSR vendor {} j).m_wrmsr
      m_msrPreset := (readMSR vendor {} j).m_msrPreset } := by
  obtain ⟨w, p⟩ := c
  cases hw
  cases hp
  cases j with
  | int n =>
    simp only [readMSR]
    split_ifs <;> rfl
  | _ => rfl

/-- A preset that was read has a flag that is set, and items that are valid. -/
theorem readMSR_spec (vendor : Vendor) (j : Json) :
    ((readMSR vendor {} j).m_msrPreset ≠ [] → (readMSR vendor {} j).m_wrmsr = true) ∧
      ∀ i ∈ (readMSR vendor {} j).m_msrPreset, i.isValid = true := by
  cases j with
  | int n =>
    simp only [readMSR]
    split_ifs
    · exact ⟨fun _ => rfl, by simp [MsrItem.isValid]⟩
    · exact ⟨fun _ => rfl, by simp⟩
    · exact ⟨fun h => absurd rfl h, by simp⟩
    · exact ⟨fun _ => rfl, by simp⟩
  | array elements =>
    refine ⟨fun h => ?_, fun i hi => ?_⟩
    · simpa [readMSR, List.isEmpty_eq_false_iff] using h
    · simp only [readMSR, List.nil_append, List.mem_filter] at hi
      exact hi.2
  | _ => exact ⟨fun h => absurd rfl h, by simp [readMSR]⟩

/-- What was read of the nodes. -/
theorem readNUMA_spec {c : RxConfig} (hn : c.m_numa = true) (hs : c.m_nodeset = []) (j : Json) :
    ∃ numa nodeset, readNUMA c j = { c with m_numa := numa, m_nodeset := nodeset } ∧
      (nodeset ≠ [] → numa = true) ∧ ∀ n ∈ nodeset, n < 2 ^ 32 := by
  cases j with
  | array elements =>
    refine ⟨true, elements.filterMap uint, ?_, fun _ => rfl, fun n hmem => ?_⟩
    · simp only [readNUMA, hs, List.nil_append, ← hn]
    · obtain ⟨x, -, hx⟩ := List.mem_filterMap.mp hmem
      unfold uint at hx
      split at hx
      · split at hx
        · cases hx
          omega
        · cases hx
      · cases hx
  | bool b => exact ⟨b, [], by simp only [readNUMA, ← hs], fun h => absurd rfl h, by simp⟩
  | _ => exact ⟨true, [], by simp only [readNUMA, ← hn, ← hs], fun h => absurd rfl h, by simp⟩

/-- What is read in every mode, by field. -/
theorem readCommon_fresh (vendor : Vendor) (object : Json) :
    readCommon vendor {} object =
      { m_wrmsr := (readMSR vendor {} (object.getValue (ascii "wrmsr"))).m_wrmsr
        m_msrPreset := (readMSR vendor {} (object.getValue (ascii "wrmsr"))).m_msrPreset
        m_cacheQoS := object.getBool (ascii "cache_qos") false
        m_oneGbPages := object.getBool (ascii "1gb-pages") false
        m_rdmsr := object.getBool (ascii "rdmsr") true
        m_threads := object.getInt (ascii "init") (-1)
        m_initDatasetAVX2 := object.getInt (ascii "init-avx2") (-1)
        m_mode := readMode (object.getValue (ascii "mode")) } := by
  unfold readCommon
  dsimp only
  rw [readMSR_fresh vendor rfl rfl]

theorem load_object (vendor : Vendor) {object : Json} (h : object.isObject = true) :
    load vendor object =
      if readMode (object.getValue (ascii "mode")) = .LightMode then
        { readCommon vendor {} object with m_numa := false }
      else
        { readNUMA (readCommon vendor {} object) (object.getValue (ascii "numa")) with
          m_scratchpadPrefetchMode := readPrefetch
            (object.getInt (ascii "scratchpad_prefetch_mode") 1) .ScratchpadPrefetchT0 } := by
  have hprefetch : ∀ j, (readNUMA (readCommon vendor {} object) j).m_scratchpadPrefetchMode =
      .ScratchpadPrefetchT0 := by
    intro j
    rw [readCommon_fresh]
    cases j <;> rfl
  have hmode : (readCommon vendor {} object).m_mode =
      readMode (object.getValue (ascii "mode")) := by rw [readCommon_fresh]
  unfold load read
  simp only [h, if_true, hmode, hprefetch]
  split <;> rfl

theorem loaded (vendor : Vendor) (object : Json) : Loaded (load vendor object) := by
  cases h : object.isObject with
  | false =>
    have heq : load vendor object = {} := by
      unfold load read
      rw [h]
      rfl
    rw [heq]
    exact ⟨by decide, by decide, by decide, by decide, by decide, by decide, by decide⟩
  | true =>
    have hbounds := fun key => 
      @PoolRoundTrip.getIntegral_bounds (-2 ^ 31) (2 ^ 31) (-1) (by omega) object key
    have hmsr := readMSR_spec vendor (object.getValue (ascii "wrmsr"))
    rw [load_object vendor h]
    split
    case isTrue hlight =>
      rw [readCommon_fresh]
      exact ⟨hbounds _, hbounds _, hmsr.1, hmsr.2, fun hn => absurd rfl hn, by simp,
        fun _ => ⟨rfl, rfl⟩⟩
    case isFalse hlight =>
      obtain ⟨numa, nodeset, heq, hnuma, hnodes⟩ := readNUMA_spec
        (c := readCommon vendor {} object) (by rw [readCommon_fresh]) (by rw [readCommon_fresh])
        (object.getValue (ascii "numa"))
      rw [heq, readCommon_fresh]
      exact ⟨hbounds _, hbounds _, hmsr.1, hmsr.2, hnuma, hnodes, fun hm => absurd hm hlight⟩

/-! ## Saved and loaded -/

theorem readMode_modeName (m : Mode) : readMode (.string (modeName m)) = m := by
  cases m <;> decide

theorem readPrefetch_toInt (m m' : ScratchpadPrefetchMode) : readPrefetch m.toInt m' = m := by
  cases m <;> rfl

theorem find_toJSON (c : RxConfig) :
    (toJSON c).find (ascii "init") = some (.int c.m_threads) ∧
    (toJSON c).find (ascii "init-avx2") = some (.int c.m_initDatasetAVX2) ∧
    (toJSON c).find (ascii "mode") = some (.string (modeName c.m_mode)) ∧
    (toJSON c).find (ascii "1gb-pages") = some (.bool c.m_oneGbPages) ∧
    (toJSON c).find (ascii "rdmsr") = some (.bool c.m_rdmsr) ∧
    (toJSON c).find (ascii "wrmsr") = some
      (if !c.m_msrPreset.isEmpty then .array (c.m_msrPreset.map MsrItem.toJSON)
        else .bool c.m_wrmsr) ∧
    (toJSON c).find (ascii "cache_qos") = some (.bool c.m_cacheQoS) ∧
    (toJSON c).find (ascii "numa") = some
      (if !c.m_nodeset.isEmpty then .array (c.m_nodeset.map fun i : Nat => .int i)
        else .bool c.m_numa) ∧
    (toJSON c).find (ascii "scratchpad_prefetch_mode") =
      some (.int c.m_scratchpadPrefetchMode.toInt) :=
  ⟨rfl, rfl, rfl, rfl, rfl, rfl, rfl, rfl, rfl⟩

/-- What is read of the items that were written. -/
theorem readMSR_toJSON {c : RxConfig} (L : Loaded c) (vendor : Vendor) :
    (readMSR vendor {} ((toJSON c).getValue (ascii "wrmsr"))).m_wrmsr = c.m_wrmsr ∧
      (readMSR vendor {} ((toJSON c).getValue (ascii "wrmsr"))).m_msrPreset =
        c.m_msrPreset.map fun i => .ofJson i.toJSON := by
  obtain ⟨-, -, -, -, -, hfind, -⟩ := find_toJSON c
  rw [Json.getValue, hfind, Option.getD_some]
  cases hp : c.m_msrPreset with
  | nil => exact ⟨rfl, rfl⟩
  | cons i items =>
    have hvalid : ((i :: items).map fun i => MsrItem.ofJson i.toJSON).filter MsrItem.isValid =
        (i :: items).map fun i => MsrItem.ofJson i.toJSON := by
      rw [List.filter_eq_self]
      intro j hj
      obtain ⟨i', hi', rfl⟩ := List.mem_map.mp hj
      rw [MsrItem.isValid_back]
      exact L.valid i' (hp ▸ hi')
    have hitems : (((i :: items).map MsrItem.toJSON).map MsrItem.ofJson).filter MsrItem.isValid =
        (i :: items).map fun i => MsrItem.ofJson i.toJSON := by
      rw [List.map_map]
      exact hvalid
    simp only [List.isEmpty_cons, Bool.not_false, if_true, readMSR, List.nil_append, hitems]
    exact ⟨(L.wrmsr (by simp [hp])).symm, trivial⟩

theorem uint_natCast {n : Nat} (h : n < 2 ^ 32) : uint (.int n) = some n := by
  have hn : 0 ≤ (n : Int) ∧ (n : Int) < 2 ^ 32 := by omega
  simp only [uint, if_pos hn, Int.toNat_natCast]

/-- What is read of the nodes that were written. -/
theorem readNUMA_toJSON {c d : RxConfig} (L : Loaded c) (hn : d.m_numa = true)
    (hs : d.m_nodeset = []) :
    readNUMA d ((toJSON c).getValue (ascii "numa")) =
      { d with m_numa := c.m_numa, m_nodeset := c.m_nodeset } := by
  obtain ⟨-, -, -, -, -, -, -, hfind, -⟩ := find_toJSON c
  rw [Json.getValue, hfind, Option.getD_some]
  cases hc : c.m_nodeset with
  | nil => simp only [List.isEmpty_nil, Bool.not_true, Bool.false_eq_true, if_false, readNUMA, hs]
  | cons n ns =>
    have hnodes : ((n :: ns).map fun i : Nat => Json.int i).filterMap uint = n :: ns := by
      rw [List.filterMap_map]
      have hnodeset := L.nodeset
      rw [hc] at hnodeset
      have hsome : ∀ i ∈ n :: ns, (uint ∘ fun i : Nat => Json.int i) i = some i := by
        intro i hi
        rw [Function.comp_apply, uint_natCast (hnodeset i hi)]
      rw [List.filterMap_congr hsome, List.filterMap_some]
    simp only [List.isEmpty_cons, Bool.not_false, if_true, readNUMA, hs, List.nil_append, hnodes]
    rw [L.numa (by simp [hc]), ← hn]

/-- The configuration that is loaded from a saved one. -/
theorem reload_toJSON {c : RxConfig} (L : Loaded c) (vendor : Vendor) :
    load vendor (toJSON c) =
      { c with m_msrPreset := c.m_msrPreset.map fun i => .ofJson i.toJSON } := by
  obtain ⟨hinit, havx, hmode, hpages, hrdmsr, -, hqos, -, hprefetch⟩ := find_toJSON c
  obtain ⟨hwrmsr, hpreset⟩ := readMSR_toJSON L vendor
  have hinit := PoolRoundTrip.getInt_of_find (d := -1) L.threads hinit
  have havx := PoolRoundTrip.getInt_of_find (d := -1) L.initDatasetAVX2 havx
  have hprefetch := PoolRoundTrip.getInt_of_find (d := 1)
    (by cases c.m_scratchpadPrefetchMode <;> decide) hprefetch
  have hmode : readMode ((toJSON c).getValue (ascii "mode")) = c.m_mode := by
    rw [Json.getValue, hmode]
    exact readMode_modeName c.m_mode
  have hcommon : readCommon vendor {} (toJSON c) = { c with
      m_msrPreset := c.m_msrPreset.map fun i => .ofJson i.toJSON
      m_scratchpadPrefetchMode := .ScratchpadPrefetchT0
      m_numa := true
      m_nodeset := [] } := by
    simp only [readCommon_fresh, hwrmsr, hpreset, hinit, havx, hmode, Json.getBool, hpages,
      hrdmsr, hqos]
  rw [load_object vendor rfl, hmode, hprefetch, readPrefetch_toInt,
    readNUMA_toJSON L (by rw [hcommon]) (by rw [hcommon]), hcommon]
  split
  case isTrue hlight =>
    obtain ⟨hnuma, hscratch⟩ := L.light hlight
    have hnodes : c.m_nodeset = [] := by
      by_contra hne
      simp [L.numa hne] at hnuma
    rw [← hnuma, ← hnodes, ← hscratch]
  case isFalse => rfl

/-- The items of a section, and their texts. -/
theorem fits_preset (vendor : Vendor) (j : Json) :
    (∀ i ∈ (readMSR vendor {} j).m_msrPreset, i.Fits) ↔
      ∀ elements, j = .array elements → ∀ x ∈ elements, ¬MsrItem.Wide x := by
  cases j with
  | array elements =>
    simp only [readMSR, List.nil_append, List.mem_filter, List.mem_map, Json.array.injEq]
    constructor
    · rintro hfits _ rfl x hx
      rw [← MsrItem.fits_ofJson]
      -- an item that is not valid has no register, and so no digits
      by_cases hvalid : (MsrItem.ofJson x).isValid = true
      · exact hfits _ ⟨⟨x, hx, rfl⟩, hvalid⟩
      · right
        left
        have hreg : (MsrItem.ofJson x).m_reg.toNat = 0 := by
          simpa [MsrItem.isValid, UInt32.lt_iff_toNat_lt] using hvalid
        omega
    · rintro hnarrow _ ⟨⟨x, hx, rfl⟩, -⟩
      exact (MsrItem.fits_ofJson x).mpr (hnarrow elements rfl x hx)
  | int n =>
    refine iff_of_true ?_ fun _ heq => by cases heq
    simp only [readMSR]
    split_ifs <;> simp [MsrItem.Fits, MsrItem.kNoMask]
  | _ => exact iff_of_true (by simp [readMSR]) fun _ heq => by cases heq

theorem load_preset (vendor : Vendor) (object : Json) :
    (load vendor object).m_msrPreset =
      (readMSR vendor {} (object.getValue (ascii "wrmsr"))).m_msrPreset := by
  cases h : object.isObject with
  | false =>
    have hnull : object.getValue (ascii "wrmsr") = .null := by
      cases object <;> first | rfl | cases h
    rw [hnull]
    unfold load read
    rw [h]
    rfl
  | true =>
    have hnuma : ∀ j, (readNUMA (readCommon vendor {} object) j).m_msrPreset =
        (readCommon vendor {} object).m_msrPreset := by
      intro j
      cases j <;> rfl
    rw [load_object vendor h]
    split
    · rw [readCommon_fresh]
    · rw [hnuma, readCommon_fresh]

/-- For any value as the section and any vendor: what is loaded from the saved configuration
is the configuration, exactly where no item has more digits than are printed. -/
theorem reload_iff (vendor : Vendor) (object : Json) :
    load vendor (toJSON (load vendor object)) = load vendor object ↔ Narrow object := by
  have hitems : load vendor (toJSON (load vendor object)) = load vendor object ↔
      ∀ i ∈ (load vendor object).m_msrPreset, MsrItem.ofJson i.toJSON = i := by
    have hmap : ((load vendor object).m_msrPreset.map fun i => MsrItem.ofJson i.toJSON) =
        (load vendor object).m_msrPreset ↔
          ∀ i ∈ (load vendor object).m_msrPreset, MsrItem.ofJson i.toJSON = i := by
      conv_lhs => rw [← List.map_id (load vendor object).m_msrPreset, List.map_map]
      exact List.map_inj_left
    rw [reload_toJSON (loaded vendor object) vendor, ← hmap]
    constructor
    · intro heq
      exact congrArg m_msrPreset heq
    · intro heq
      rw [heq]
  rw [hitems]
  simp only [MsrItem.back_iff]
  rw [load_preset, fits_preset]
  rfl

/-- The last digit of the mask is lost: a bit that was to be left alone is set, and others are
left alone. -/
theorem roundTrip_loses :
    load .VENDOR_AMD (toJSON (load .VENDOR_AMD (.object [(ascii "wrmsr",
        .array [.string (ascii "0xc0011020:0xf000000000000000:0xfffffffffffffffe")])]))) ≠
      load .VENDOR_AMD (.object [(ascii "wrmsr",
        .array [.string (ascii "0xc0011020:0xf000000000000000:0xfffffffffffffffe")])]) := by
  decide

end RxConfig

end Rxs.L4
