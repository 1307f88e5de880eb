import Mathlib.Data.List.Find
import Rxs.Core.BinarySearch
import Rxs.L4App.PoolEdit

/-!
# Names of algorithms

`Algorithm::parse` looks a name up by halves, in a table of lower case names. The
comparison makes lower case of the name only. It is told apart by its length first.

* `suits`: the table is sorted for the comparison with any name.
* **`parse_refines`**: the lookup is a scan of the table that ignores the case.
-/
namespace Rxs.L4.AlgorithmName

open Rxs.Core

structure AliasEntry where
  aliasName : Bytes
  id : Algorithm
  deriving DecidableEq, Repr

/-- mirrors src/base/crypto/Algorithm.cpp:48-68 -/
def kAliases : List AliasEntry :=
  [⟨ascii "randomarq", .RX_ARQ⟩, ⟨ascii "randomgraft", .RX_GRAFT⟩,
    ⟨ascii "randomsfx", .RX_SFX⟩, ⟨ascii "randomwow", .RX_WOW⟩, ⟨ascii "randomx", .RX_0⟩,
    ⟨ascii "randomyada", .RX_YADA⟩, ⟨ascii "rx", .RX_0⟩, ⟨ascii "rx/0", .RX_0⟩,
    ⟨ascii "rx/2", .RX_V2⟩, ⟨ascii "rx/arq", .RX_ARQ⟩, ⟨ascii "rx/graft", .RX_GRAFT⟩,
    ⟨ascii "rx/sfx", .RX_SFX⟩, ⟨ascii "rx/wow", .RX_WOW⟩, ⟨ascii "rx/yada", .RX_YADA⟩]

/-- mirrors src/base/crypto/Algorithm.cpp:82-87 -/
def kMaxAliasLen : Nat :=
  kAliases.foldl (fun m e => if e.aliasName.length > m then e.aliasName.length else m) 0

/-- mirrors src/base/crypto/Algorithm.cpp:90-94 -/
def asciiLower (c : UInt8) : UInt8 := if c ≥ 65 ∧ c ≤ 90 then c ||| 0x20 else c

/-- Only `a` is made lower case.
mirrors src/base/crypto/Algorithm.cpp:97-108 -/
def ciCompare : Bytes → Bytes → Int
  | [], [] => 0
  | [], _ :: _ => -1
  | _ :: _, [] => 1
  | a :: as, b :: bs =>
    let d : Int := (asciiLower a).toNat - b.toNat
    if d ≠ 0 then d else ciCompare as bs

/-- mirrors src/base/crypto/Algorithm.cpp:153-166 -/
def parse (name : Bytes) : Algorithm :=
  if name.length < 2 ∨ name.length > kMaxAliasLen then .INVALID
  else
    ((binarySearch (fun e => ciCompare name e.aliasName) kAliases 0 kAliases.length).map
      AliasEntry.id).getD .INVALID

/-! ## The comparison -/

theorem asciiLower_eq (c : UInt8) : asciiLower c = lower c := by
  have key : ∀ n < 256, asciiLower (UInt8.ofNat n) = lower (UInt8.ofNat n) := by decide +kernel
  simpa using key c.toNat c.toNat_lt

theorem ciCompare_eq_zero (a b : Bytes) : ciCompare a b = 0 ↔ a.map lower = b := by
  fun_induction ciCompare a b with
  | case1 => simp
  | case2 => simp
  | case3 => simp
  | case4 a as b bs d hd =>
    have : lower a ≠ b := by
      rintro rfl
      simp [d, asciiLower_eq] at hd
    simp [hd, this]
  | case5 a as b bs d hd ih =>
    have hab : asciiLower a = b := by
      apply UInt8.toNat_inj.mp
      simp only [d] at hd
      omega
    simp [ih, ← hab, asciiLower_eq]

/-- What is not behind a name is before all greater ones. -/
theorem ciCompare_lt {a b c : Bytes} (hbc : b < c) (hab : ciCompare a b ≤ 0) :
    ciCompare a c < 0 := by
  induction a generalizing b c with
  | nil =>
    cases c with
    | nil => simp at hbc
    | cons c cs => simp [ciCompare]
  | cons x xs ih =>
    cases b with
    | nil => simp [ciCompare] at hab
    | cons y ys =>
      cases c with
      | nil => simp at hbc
      | cons z zs =>
        simp only [ciCompare] at hab ⊢
        rcases List.cons_lt_cons_iff.mp hbc with hyz | ⟨rfl, htail⟩
        · have hyz : y.toNat < z.toNat := hyz
          split at hab <;> split <;> omega
        · split at hab
          · rw [if_pos ‹_›]
            omega
          · rw [if_neg ‹_›]
            exact ih htail hab

theorem sorted : kAliases.Pairwise fun a b => a.aliasName < b.aliasName := by decide

theorem suits (name : Bytes) : Suits (fun e => ciCompare name e.aliasName) kAliases :=
  sorted.imp fun h => ciCompare_lt h

/-! ## The lengths -/

theorem length_of_mem : ∀ e ∈ kAliases, 2 ≤ e.aliasName.length ∧ e.aliasName.length ≤ kMaxAliasLen := by
  decide

theorem lower_of_mem : ∀ e ∈ kAliases, e.aliasName.map lower = e.aliasName := by decide

/-- A scan that ignores the case. -/
def scan (name : Bytes) : Option AliasEntry :=
  kAliases.find? fun e => name.map lower = e.aliasName.map lower

theorem scan_eq (name : Bytes) :
    scan name = kAliases.find? fun e => ciCompare name e.aliasName = 0 := by
  have heq : ∀ e ∈ kAliases, decide (name.map lower = e.aliasName.map lower) =
      decide (ciCompare name e.aliasName = 0) := by
    intro e he
    rw [lower_of_mem e he]
    simp [ciCompare_eq_zero]
  exact List.find?_congr heq

theorem length_of_scan {name : Bytes} {e : AliasEntry} (h : scan name = some e) :
    2 ≤ name.length ∧ name.length ≤ kMaxAliasLen := by
  have heq : name.map lower = e.aliasName.map lower := by simpa using List.find?_some h
  have hl := congrArg List.length heq
  simp only [List.length_map] at hl
  rw [hl]
  exact length_of_mem e (List.mem_of_find?_eq_some h)

theorem parse_eq_scan (name : Bytes) :
    parse name = ((scan name).map AliasEntry.id).getD .INVALID := by
  unfold parse
  split
  case isTrue h =>
    cases hs : scan name with
    | none => rfl
    | some e =>
      have := length_of_scan hs
      omega
  case isFalse => rw [binarySearch_eq_find? (suits name), scan_eq]

/-- The lookup of the other models. -/
theorem parse_eq (name : Bytes) : Algorithm.parse (some name) = parse name := by
  have key : ∀ aliases : List (String × Algorithm),
      kAliases = aliases.map (fun e => ⟨ascii e.1, e.2⟩) →
      ((aliases.find? fun e => name.map lower = ascii e.1).map (·.2)).getD .INVALID =
        ((kAliases.find? fun e => name.map lower = e.aliasName).map AliasEntry.id).getD
          .INVALID := by
    intro aliases h
    rw [h, List.find?_map, Option.map_map]
    rfl
  rw [parse_eq_scan, scan_eq]
  simp only [ciCompare_eq_zero]
  exact key _ rfl

theorem unique : ∀ e ∈ kAliases, ∀ e' ∈ kAliases, e.aliasName = e'.aliasName → e = e' := by
  decide

theorem scan_eq_some (name : Bytes) (e : AliasEntry) :
    scan name = some e ↔ e ∈ kAliases ∧ name.map lower = e.aliasName.map lower := by
  constructor
  · intro h
    exact ⟨List.mem_of_find?_eq_some h, by simpa using List.find?_some h⟩
  · rintro ⟨he, hn⟩
    cases hs : scan name with
    | none => exact absurd (by simpa using hn) (List.find?_eq_none.mp hs e he)
    | some e' =>
      have he' := List.mem_of_find?_eq_some hs
      have hn' : name.map lower = e'.aliasName.map lower := by simpa using List.find?_some hs
      rw [lower_of_mem e he] at hn
      rw [lower_of_mem e' he', hn] at hn'
      rw [unique e he e' he' hn']

theorem id_of_mem : ∀ e ∈ kAliases, e.id ≠ .INVALID := by decide

/-! ## Names of algorithms -/

/-- mirrors src/base/crypto/Algorithm.cpp:38-46 and src/base/crypto/Algorithm.h:61-70 -/
def kNames : List (Algorithm × Bytes) :=
  [(.RX_ARQ, ascii "rx/arq"), (.RX_WOW, ascii "rx/wow"), (.RX_0, ascii "rx/0"),
    (.RX_V2, ascii "rx/2"), (.RX_GRAFT, ascii "rx/graft"), (.RX_SFX, ascii "rx/sfx"),
    (.RX_YADA, ascii "rx/yada")]

/-- mirrors src/base/crypto/Algorithm.cpp:122-138 -/
def name (a : Algorithm) : Bytes := ((kNames.find? (·.1 = a)).map (·.2)).getD (ascii "invalid")

theorem parse_name {a : Algorithm} (ha : a ≠ .INVALID) : parse (name a) = a := by
  rw [parse_eq_scan]
  revert ha
  cases a <;> decide

theorem cstr_name (a : Algorithm) : cstr (name a) = name a := by cases a <;> decide

/-! ## The result -/

/-- The table is sorted, the bounds on the length leave no name out, and for any text the
lookup is the scan: it is an algorithm exactly where the text is a name of it, up to the
case. -/
theorem parse_refines :
    (kAliases.Pairwise fun a b => a.aliasName < b.aliasName) ∧
    (∀ e ∈ kAliases, 2 ≤ e.aliasName.length ∧ e.aliasName.length ≤ kMaxAliasLen) ∧
    (∀ name, parse name = ((scan name).map AliasEntry.id).getD .INVALID) ∧
    ∀ name algorithm, parse name = algorithm ∧ algorithm ≠ .INVALID ↔
      ∃ e ∈ kAliases, e.id = algorithm ∧ name.map lower = e.aliasName.map lower := by
  refine ⟨sorted, length_of_mem, parse_eq_scan, ?_⟩
  intro name algorithm
  rw [parse_eq_scan]
  constructor
  · rintro ⟨h, hv⟩
    cases hs : scan name with
    | none =>
      rw [hs] at h
      exact absurd h.symm hv
    | some e =>
      rw [hs] at h
      obtain ⟨he, hn⟩ := (scan_eq_some name e).mp hs
      exact ⟨e, he, h, hn⟩
  · rintro ⟨e, he, rfl, hn⟩
    rw [(scan_eq_some name e).mpr ⟨he, hn⟩]
    exact ⟨rfl, id_of_mem e he⟩

end Rxs.L4.AlgorithmName
