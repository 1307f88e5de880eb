import Mathlib.Logic.Function.Basic
import Rxs.Core.LTS
import Rxs.L2Machine.Nonce

/-!
# The ranges of `Nonce::next`

Threads call `Nonce::next` on one counter, with one mask and any counts; between two
`fetch_add`s of a call other threads come in. A call that meets the seam of the low 32 bits
of the counter fetches again, and drops its range.

* `word_write`: the two words that are written are the nonce with the start below the mask.
* `Inv`: ranges that were fetched lie below the counter, apart from one another.
* **`next_reserves`**: what calls have got are ranges inside the mask that meet no seam and are
  apart; each nonce has its start, and its other bits; a call is never stuck and takes a
  bounded number of steps.
-/
namespace Rxs

open Rxs.Core

namespace Nonce

/-- The second word, behind a mask of more than 32 bits.
mirrors src/crypto/common/Nonce.cpp:59-61 -/
def mergeHigh (old mask counter : Nat) : Nat :=
  if mask63 mask > 0xFFFFFFFF then
    ((old &&& (0xFFFFFFFFFFFFFFFF - mask63 mask) / 2 ^ 32) ||| counter / 2 ^ 32) % 2 ^ 32
  else old

/-- The words at `nonce` and `nonce + 1`.
mirrors src/crypto/common/Nonce.cpp:57-61 -/
def write (mask counter : Nat) (nonce : Nat × Nat) : Nat × Nat :=
  (merge nonce.1 mask counter, mergeHigh nonce.2 mask counter)

inductive Pc where
  | idle
  | fetch
  | decide (counter : Nat)
  deriving DecidableEq, Repr

/-- A thread, with the nonce of its call. -/
structure Caller where
  pc : Pc := .idle
  reserveCount : Nat := 0
  nonce : Nat × Nat := (0, 0)
  returned : Option Bool := none
  deriving DecidableEq, Repr

/-- A call that returned true: its range, and the nonce before and after. -/
structure Grant where
  start : Nat
  count : Nat
  before : Nat × Nat
  after : Nat × Nat
  deriving DecidableEq, Repr

/-- The counter, the threads, and what they have got so far, latest first. -/
structure Callers (T : Type) where
  shared : Nonce
  caller : T → Caller
  granted : List Grant := []

inductive Label (T : Type) where
  | call (t : T) (reserveCount : Nat) (nonce : Nat × Nat)
  | step (t : T)
  deriving DecidableEq, Repr

/-- A call returns. -/
def Caller.return (c : Caller) (nonce : Nat × Nat) (rc : Bool) : Caller :=
  { c with pc := .idle, nonce := nonce, returned := some rc }

section
variable {T : Type} [DecidableEq T]

def Callers.put (s : Callers T) (t : T) (c : Caller) : Callers T :=
  { s with caller := Function.update s.caller t c }

/-- mirrors src/crypto/common/Nonce.cpp:40 -/
def Callers.fetch (s : Callers T) (t : T) : Callers T :=
  let c := s.caller t
  { s with
    shared := { s.shared with counter := (s.shared.counter + c.reserveCount) % 2 ^ 64 },
    caller := Function.update s.caller t { c with pc := .decide s.shared.counter } }

/-- mirrors src/crypto/common/Nonce.cpp:41-65 -/
def Callers.turn (mask : Nat) (s : Callers T) (t : T) (counter : Nat) : Callers T :=
  let c := s.caller t
  match decision c.reserveCount mask counter with
  | .fail p =>
    { s.put t (c.return c.nonce false) with
      shared := if p then s.shared.pause true else s.shared }
  | .again => s.put t { c with pc := .fetch }
  | .ok p =>
    let after := write mask counter c.nonce
    { s.put t (c.return after true) with
      shared := if p then s.shared.pause true else s.shared,
      granted := ⟨counter, c.reserveCount, c.nonce, after⟩ :: s.granted }

/-- mirrors src/crypto/common/Nonce.cpp:33-66 -/
def next (mask : Nat) (s : Callers T) : Label T → Option (Callers T)
  | .call t reserveCount nonce =>
    match (s.caller t).pc with
    | .idle =>
      if refuses reserveCount mask then
        some (s.put t ⟨.idle, reserveCount, nonce, some false⟩)
      else some (s.put t ⟨.fetch, reserveCount, nonce, none⟩)
    | _ => none
  | .step t =>
    match (s.caller t).pc with
    | .idle => none
    | .fetch => some (s.fetch t)
    | .decide counter => some (s.turn mask t counter)

end

end Nonce

namespace L5.NonceRange

open Nonce

/-! ## The words -/

theorem mask63_pow {k : Nat} (hk : k ≤ 63) : mask63 (2 ^ k - 1) = 2 ^ k - 1 := by
  have hpow : 2 ^ k ≤ 2 ^ 63 := Nat.pow_le_pow_right (by decide) hk
  have hpos := Nat.two_pow_pos k
  have h63 : (0x7FFFFFFFFFFFFFFF : Nat) = 2 ^ 63 - 1 := by decide
  rw [mask63, h63, Nat.and_two_pow_sub_one_eq_mod, Nat.mod_eq_of_lt (by omega)]

/-- The nonce of two words. -/
def word (nonce : Nat × Nat) : Nat := nonce.1 + 2 ^ 32 * nonce.2

theorem write_low {k c : Nat} (hk : k ≤ 32) (hc : c < 2 ^ k) {nonce : Nat × Nat}
    (h₁ : nonce.1 < 2 ^ 32) :
    write (2 ^ k - 1) c nonce = (nonce.1 / 2 ^ k * 2 ^ k + c, nonce.2) := by
  have hpow : 2 ^ k ≤ 2 ^ 32 := Nat.pow_le_pow_right (by decide) hk
  have hle := Masks.high_add_lt hk h₁ hc
  unfold write merge mergeHigh
  rw [mask63_pow (by omega), and_compl_eq hk h₁, Masks.or_high hc, Nat.mod_eq_of_lt hle,
    if_neg (by omega)]

theorem write_high {k c : Nat} (hk : 32 < k) (hk' : k ≤ 63) (hc : c < 2 ^ k) {nonce : Nat × Nat}
    (h₁ : nonce.1 < 2 ^ 32) (h₂ : nonce.2 < 2 ^ 32) :
    write (2 ^ k - 1) c nonce =
      (c % 2 ^ 32, nonce.2 / 2 ^ (k - 32) * 2 ^ (k - 32) + c / 2 ^ 32) := by
  have hsplit : 2 ^ k = 2 ^ 32 * 2 ^ (k - 32) := by
    rw [← Nat.pow_add]
    congr 1
    omega
  have hmask : 0xFFFFFFFFFFFFFFFF - (2 ^ k - 1) = 2 ^ 64 - 2 ^ k := by
    have := Nat.two_pow_pos k
    omega
  have hpow : 2 ^ 33 ≤ 2 ^ k := Nat.pow_le_pow_right (by decide) hk
  have hbound : 2 ^ (k - 32) ≤ 2 ^ 31 := Nat.pow_le_pow_right (by decide) (by omega)
  have hhalf : (2 ^ 64 - 2 ^ k) / 2 ^ 32 = 2 ^ 32 - 2 ^ (k - 32) := by
    have h64 : (2 : Nat) ^ 64 = 2 ^ 32 * 2 ^ 32 := by decide
    rw [h64, hsplit, ← Nat.mul_sub, Nat.mul_div_cancel_left _ (by decide)]
  have hlow : nonce.1 &&& (2 ^ 64 - 2 ^ k) = 0 := by
    rw [Masks.and_high (by omega) (by omega), Nat.div_eq_of_lt (by omega), Nat.zero_mul]
  have hcarry : c / 2 ^ 32 < 2 ^ (k - 32) := by
    rw [Nat.div_lt_iff_lt_mul (by decide), Nat.mul_comm, ← hsplit]
    exact hc
  have hle := Masks.high_add_lt (by omega) h₂ hcarry
  unfold write merge mergeHigh
  rw [mask63_pow hk', hmask, hlow, if_pos (by omega), hhalf, Masks.and_high (by omega) h₂,
    Masks.or_high hcarry, Nat.mod_eq_of_lt hle, Nat.zero_or]

/-- **The nonce that is written**: the start below the mask, the other bits as they were. -/
theorem word_write {k c : Nat} (hk : k ≤ 63) (hc : c < 2 ^ k) {nonce : Nat × Nat}
    (h₁ : nonce.1 < 2 ^ 32) (h₂ : nonce.2 < 2 ^ 32) :
    word (write (2 ^ k - 1) c nonce) = word nonce / 2 ^ k * 2 ^ k + c := by
  unfold word
  by_cases hlow : k ≤ 32
  · have hsplit : 2 ^ 32 = 2 ^ k * 2 ^ (32 - k) := by
      rw [← Nat.pow_add]
      congr 1
      omega
    have hdiv : (nonce.1 + 2 ^ 32 * nonce.2) / 2 ^ k =
        nonce.1 / 2 ^ k + 2 ^ (32 - k) * nonce.2 := by
      rw [hsplit, Nat.mul_assoc, Nat.add_mul_div_left _ _ (Nat.two_pow_pos k)]
    rw [write_low hlow hc h₁, hdiv, Nat.add_mul, hsplit]
    ring
  · have hsplit : 2 ^ k = 2 ^ 32 * 2 ^ (k - 32) := by
      rw [← Nat.pow_add]
      congr 1
      omega
    have hdiv : (nonce.1 + 2 ^ 32 * nonce.2) / 2 ^ k = nonce.2 / 2 ^ (k - 32) := by
      rw [hsplit, ← Nat.div_div_eq_div_mul, Nat.add_mul_div_left _ _ (by decide),
        Nat.div_eq_of_lt h₁, Nat.zero_add]
    have hc' := Nat.mod_add_div c (2 ^ 32)
    rw [write_high (by omega) hk hc h₁ h₂, hdiv, hsplit, Nat.mul_add]
    calc c % 2 ^ 32 + (2 ^ 32 * (nonce.2 / 2 ^ (k - 32) * 2 ^ (k - 32)) + 2 ^ 32 * (c / 2 ^ 32))
        = nonce.2 / 2 ^ (k - 32) * (2 ^ 32 * 2 ^ (k - 32)) +
            (c % 2 ^ 32 + 2 ^ 32 * (c / 2 ^ 32)) := by ring
      _ = _ := by rw [hc']

/-! ## Ranges -/

/-- The ranges `[a, a + m)` and `[b, b + n)`. -/
def Apart (a m b n : Nat) : Prop := a + m ≤ b ∨ b + n ≤ a

/-- A range inside the mask, in one block of `2^32`, and the nonce it was written to. -/
structure Reserves (k : Nat) (g : Grant) : Prop where
  inside : g.start + g.count ≤ 2 ^ k
  seam : g.start / 2 ^ 32 = (g.start + (g.count - 1)) / 2 ^ 32
  written : word g.after % 2 ^ k = g.start
  kept : word g.after / 2 ^ k = word g.before / 2 ^ k
  behind : k ≤ 32 → g.after.2 = g.before.2

theorem decision_range {k n c : Nat} {p : Bool} (hk : k ≤ 63) (hn : 1 ≤ n) (hn' : n ≤ 2 ^ 31)
    (h : decision n (2 ^ k - 1) c = .ok p) :
    c + n ≤ 2 ^ k ∧ c / 2 ^ 32 = (c + (n - 1)) / 2 ^ 32 := by
  have hpos := Nat.two_pow_pos k
  unfold decision at h
  rw [mask63_pow hk] at h
  split at h
  · cases h
  · split at h
    · split at h
      · cases h
      · -- the last range ends with the mask
        refine ⟨by omega, ?_⟩
        by_cases hlow : k ≤ 32
        · have hpow : 2 ^ k ≤ 2 ^ 32 := Nat.pow_le_pow_right (by decide) hlow
          omega
        · have hsplit : 2 ^ k = 2 ^ 32 * 2 ^ (k - 32) := by
            rw [← Nat.pow_add]
            congr 1
            omega
          generalize 2 ^ (k - 32) = q at hsplit
          omega
    · split at h
      · cases h
      · exact ⟨by omega, by omega⟩

theorem reserves {k n c : Nat} {p : Bool} (hk : k ≤ 63) (hn : 1 ≤ n) (hn' : n ≤ 2 ^ 31)
    (h : decision n (2 ^ k - 1) c = .ok p) {nonce : Nat × Nat} (h₁ : nonce.1 < 2 ^ 32)
    (h₂ : nonce.2 < 2 ^ 32) : Reserves k ⟨c, n, nonce, write (2 ^ k - 1) c nonce⟩ := by
  obtain ⟨hle, hseam⟩ := decision_range hk hn hn' h
  have hc : c < 2 ^ k := by omega
  have hword := word_write hk hc h₁ h₂
  have hpos := Nat.two_pow_pos k
  refine ⟨hle, hseam, ?_, ?_, ?_⟩
  · rw [hword, Nat.mul_comm, Nat.mul_add_mod, Nat.mod_eq_of_lt hc]
  · rw [hword, Nat.mul_comm, Nat.mul_add_div hpos, Nat.div_eq_of_lt hc, Nat.add_zero]
  · intro hlow
    rw [write_low hlow hc h₁]

/-! ## Steps -/

section
variable {T : Type} [DecidableEq T] {k : Nat} {s s' : Callers T}

/-- The calls of the law; the counter does not wrap. -/
def Ok (s : Callers T) : Label T → Prop
  | .call _ reserveCount nonce =>
    1 ≤ reserveCount ∧ reserveCount ≤ 2 ^ 31 ∧ nonce.1 < 2 ^ 32 ∧ nonce.2 < 2 ^ 32
  | .step t => (s.caller t).pc = .fetch →
    s.shared.counter + (s.caller t).reserveCount < 2 ^ 64

instance (s : Callers T) (l : Label T) : Decidable (Ok s l) := by
  cases l <;> unfold Ok <;> infer_instance

def lts (T : Type) [DecidableEq T] (k : Nat) (shared : Nonce) : LTS (Callers T) (Label T) :=
  (LTS.ofFn ⟨shared, fun _ => {}, []⟩ (next (2 ^ k - 1))).restrict Ok

theorem put_self (s : Callers T) (t : T) (c : Caller) : (s.put t c).caller t = c :=
  Function.update_self ..

theorem put_of_ne (s : Callers T) {t u : T} (c : Caller) (h : u ≠ t) :
    (s.put t c).caller u = s.caller u :=
  Function.update_of_ne h ..

/-- What was fetched lies below the counter, and apart. -/
structure Inv (k : Nat) (s : Callers T) : Prop where
  count : ∀ t, (s.caller t).pc ≠ .idle →
    1 ≤ (s.caller t).reserveCount ∧ (s.caller t).reserveCount ≤ 2 ^ 31
  nonce : ∀ t, (s.caller t).nonce.1 < 2 ^ 32 ∧ (s.caller t).nonce.2 < 2 ^ 32
  pending : ∀ t c, (s.caller t).pc = .decide c → c + (s.caller t).reserveCount ≤ s.shared.counter
  apart : ∀ t u c d, t ≠ u → (s.caller t).pc = .decide c → (s.caller u).pc = .decide d →
    Apart c (s.caller t).reserveCount d (s.caller u).reserveCount
  below : ∀ g ∈ s.granted, g.start + g.count ≤ s.shared.counter
  fresh : ∀ g ∈ s.granted, ∀ t c, (s.caller t).pc = .decide c →
    Apart g.start g.count c (s.caller t).reserveCount
  disjoint : s.granted.Pairwise fun g h => Apart g.start g.count h.start h.count
  reserves : ∀ g ∈ s.granted, Reserves k g

/-- A thread that holds no range afterwards. -/
theorem Inv.put (I : Inv k s) (t : T) (c : Caller) (shared : Nonce)
    (hshared : shared.counter = s.shared.counter) (hpc : ∀ d, c.pc ≠ .decide d)
    (hcount : c.pc ≠ .idle → 1 ≤ c.reserveCount ∧ c.reserveCount ≤ 2 ^ 31)
    (hnonce : c.nonce.1 < 2 ^ 32 ∧ c.nonce.2 < 2 ^ 32) :
    Inv k { s.put t c with shared := shared } := by
  have hne : ∀ u d, ((s.put t c).caller u).pc = .decide d → u ≠ t := by
    intro u d hu h
    rw [h, put_self] at hu
    exact hpc d hu
  refine ⟨fun u hu => ?_, fun u => ?_, fun u d hu => ?_, fun u v d e huv hu hv => ?_,
    fun g hg => ?_, fun g hg u d hu => ?_, I.disjoint, I.reserves⟩
  · by_cases h : u = t
    · subst h
      simp only [put_self] at hu ⊢
      exact hcount hu
    · simp only [put_of_ne s c h] at hu ⊢
      exact I.count u hu
  · by_cases h : u = t
    · subst h
      simp only [put_self]
      exact hnonce
    · simp only [put_of_ne s c h]
      exact I.nonce u
  · have h := hne u d hu
    simp only [put_of_ne s c h] at hu ⊢
    rw [hshared]
    exact I.pending u d hu
  · have h := hne u d hu
    have h' := hne v e hv
    simp only [put_of_ne s c h, put_of_ne s c h'] at hu hv ⊢
    exact I.apart u v d e huv hu hv
  · exact hshared ▸ I.below g hg
  · have h := hne u d hu
    simp only [put_of_ne s c h] at hu ⊢
    exact I.fresh g hg u d hu

/-- A fetch draws a range above all others. -/
theorem Inv.fetch (I : Inv k s) {t : T} (hpc : (s.caller t).pc = .fetch)
    (hwrap : s.shared.counter + (s.caller t).reserveCount < 2 ^ 64) : Inv k (s.fetch t) := by
  have hcounter : (s.fetch t).shared.counter =
      s.shared.counter + (s.caller t).reserveCount := Nat.mod_eq_of_lt hwrap
  have hself : (s.fetch t).caller t = { s.caller t with pc := .decide s.shared.counter } :=
    put_self ..
  have hother : ∀ u, u ≠ t → (s.fetch t).caller u = s.caller u := fun u h => put_of_ne s _ h
  refine ⟨fun u hu => ?_, fun u => ?_, fun u d hu => ?_, fun u v d e huv hu hv => ?_,
    fun g hg => ?_, fun g hg u d hu => ?_, I.disjoint, I.reserves⟩
  · by_cases h : u = t
    · subst h
      rw [hself]
      exact I.count u (by rw [hpc]; nofun)
    · rw [hother u h] at hu ⊢
      exact I.count u hu
  · by_cases h : u = t
    · subst h
      rw [hself]
      exact I.nonce u
    · rw [hother u h]
      exact I.nonce u
  · rw [hcounter]
    by_cases h : u = t
    · subst h
      rw [hself] at hu ⊢
      cases hu
      exact Nat.le_refl _
    · rw [hother u h] at hu ⊢
      have := I.pending u d hu
      omega
  · by_cases h : u = t
    · subst h
      have hv' := hother v (Ne.symm huv)
      rw [hself] at hu ⊢
      rw [hv'] at hv ⊢
      cases hu
      exact .inr (I.pending v e hv)
    · rw [hother u h] at hu ⊢
      by_cases h' : v = t
      · subst h'
        rw [hself] at hv ⊢
        cases hv
        exact .inl (I.pending u d hu)
      · rw [hother v h'] at hv ⊢
        exact I.apart u v d e huv hu hv
  · have := I.below g hg
    rw [hcounter]
    omega
  · by_cases h : u = t
    · subst h
      rw [hself] at hu ⊢
      cases hu
      exact .inl (I.below g hg)
    · rw [hother u h] at hu ⊢
      exact I.fresh g hg u d hu

omit [DecidableEq T] in
/-- A range that is apart from all others. -/
theorem Inv.add (I : Inv k s) {g : Grant} (hbelow : g.start + g.count ≤ s.shared.counter)
    (hfresh : ∀ t c, (s.caller t).pc = .decide c →
      Apart g.start g.count c (s.caller t).reserveCount)
    (hdisjoint : ∀ h ∈ s.granted, Apart g.start g.count h.start h.count) (hres : Reserves k g) :
    Inv k { s with granted := g :: s.granted } :=
  { I with
    below := List.forall_mem_cons.mpr ⟨hbelow, I.below⟩
    fresh := List.forall_mem_cons.mpr ⟨hfresh, I.fresh⟩
    disjoint := List.pairwise_cons.mpr ⟨hdisjoint, I.disjoint⟩
    reserves := List.forall_mem_cons.mpr ⟨hres, I.reserves⟩ }

theorem write_lt (mask c : Nat) (nonce : Nat × Nat) (h : nonce.2 < 2 ^ 32) :
    (write mask c nonce).1 < 2 ^ 32 ∧ (write mask c nonce).2 < 2 ^ 32 := by
  refine ⟨Nat.mod_lt _ (by decide), ?_⟩
  unfold write mergeHigh
  split
  · exact Nat.mod_lt _ (by decide)
  · exact h

theorem counter_pause (n : Nonce) (p : Bool) :
    (if p then n.pause true else n).counter = n.counter := by
  cases p <;> rfl

/-- A call that returns. -/
theorem Inv.return (I : Inv k s) (t : T) {nonce : Nat × Nat} (rc p : Bool)
    (hnonce : nonce.1 < 2 ^ 32 ∧ nonce.2 < 2 ^ 32) :
    Inv k { s.put t ((s.caller t).return nonce rc) with
      shared := if p then s.shared.pause true else s.shared } :=
  I.put t _ _ (counter_pause _ _) (fun _ h => nomatch h) (fun h => absurd rfl h) hnonce

/-- A turn of the loop gives the range up, drops it or has it granted. -/
theorem Inv.turn (hk : k ≤ 63) (I : Inv k s) {t : T} {c : Nat}
    (hpc : (s.caller t).pc = .decide c) : Inv k (s.turn (2 ^ k - 1) t c) := by
  obtain ⟨hn, hn'⟩ := I.count t (by rw [hpc]; nofun)
  obtain ⟨h₁, h₂⟩ := I.nonce t
  unfold Callers.turn
  cases hd : decision (s.caller t).reserveCount (2 ^ k - 1) c with
  | fail p =>
    simp only [hd]
    exact I.return t false p ⟨h₁, h₂⟩
  | again =>
    simp only [hd]
    exact I.put t _ s.shared rfl (fun _ h => nomatch h) (fun _ => ⟨hn, hn'⟩) ⟨h₁, h₂⟩
  | ok p =>
    simp only [hd]
    have hwrite := write_lt (2 ^ k - 1) c (s.caller t).nonce h₂
    refine (I.return t true p hwrite).add ?_ ?_ ?_ (NonceRange.reserves hk hn hn' hd h₁ h₂)
    · show c + (s.caller t).reserveCount ≤ (if p then s.shared.pause true else s.shared).counter
      rw [counter_pause]
      exact I.pending t c hpc
    · intro u d hu
      by_cases hut : u = t
      · subst hut
        simp only [put_self] at hu
        cases hu
      · simp only [put_of_ne s _ hut] at hu ⊢
        exact I.apart t u c d (Ne.symm hut) hpc hu
    · intro g hg
      exact (I.fresh g hg t c hpc).symm

/-- **One step** of a thread. -/
theorem Inv.step (hk : k ≤ 63) (I : Inv k s) {l : Label T} (hok : Ok s l)
    (h : next (2 ^ k - 1) s l = some s') : Inv k s' := by
  cases l with
  | call t n nonce =>
    unfold next at h
    cases hpc : (s.caller t).pc with
    | idle =>
      simp only [hpc] at h
      split at h
      · cases h
        exact I.put t _ s.shared rfl (fun _ h => nomatch h) (fun h => absurd rfl h)
          hok.2.2
      · cases h
        exact I.put t _ s.shared rfl (fun _ h => nomatch h)
          (fun _ => ⟨hok.1, hok.2.1⟩) hok.2.2
    | fetch => simp [hpc] at h
    | decide c => simp [hpc] at h
  | step t =>
    unfold next at h
    cases hpc : (s.caller t).pc with
    | idle => simp [hpc] at h
    | fetch =>
      simp only [hpc] at h
      cases h
      exact I.fetch hpc (hok hpc)
    | decide c =>
      simp only [hpc] at h
      cases h
      exact I.turn hk hpc

theorem inv_inductive (hk : k ≤ 63) (shared : Nonce) : (lts T k shared).Inductive (Inv k) where
  init s hs := by
    cases hs
    have hzero : (0 : Nat) < 2 ^ 32 := by decide
    exact ⟨fun t h => absurd rfl h, fun _ => ⟨hzero, hzero⟩, nofun, nofun, nofun, nofun,
      .nil, nofun⟩
  step _ _ _ I h := I.step hk h.1 h.2

/-! ## Turns -/

/-- The steps a call has left. -/
def left (k : Nat) (s : Callers T) (t : T) : Nat :=
  match (s.caller t).pc with
  | .idle => 0
  | .fetch => 2 * (2 ^ k - s.shared.counter) + 2
  | .decide c => 2 * (2 ^ k - c) + 1

/-- A range is dropped below the mask only. -/
theorem lt_of_again {n c : Nat} (hk : k ≤ 63) (h : decision n (2 ^ k - 1) c = .again) :
    c < 2 ^ k := by
  have hpos := Nat.two_pow_pos k
  unfold decision at h
  rw [mask63_pow hk] at h
  split at h
  · cases h
  · omega

omit [DecidableEq T] in
theorem left_le {t : T} (hcaller : s'.caller t = s.caller t)
    (hcounter : s.shared.counter ≤ s'.shared.counter) : left k s' t ≤ left k s t := by
  unfold left
  rw [hcaller]
  split <;> omega

theorem counter_fetch {t : T}
    (hwrap : s.shared.counter + (s.caller t).reserveCount < 2 ^ 64) :
    (s.fetch t).shared.counter = s.shared.counter + (s.caller t).reserveCount :=
  Nat.mod_eq_of_lt hwrap

/-- A turn leaves the counter and the other threads alone. -/
theorem turn_frame (mask : Nat) (s : Callers T) (t : T) (c : Nat) :
    (s.turn mask t c).shared.counter = s.shared.counter ∧
      ∀ u, u ≠ t → (s.turn mask t c).caller u = s.caller u := by
  unfold Callers.turn
  cases hd : decision (s.caller t).reserveCount mask c with
  | fail p =>
    simp only [hd]
    exact ⟨counter_pause _ _, fun u h => put_of_ne s _ h⟩
  | again =>
    simp only [hd]
    exact ⟨rfl, fun u h => put_of_ne s _ h⟩
  | ok p =>
    simp only [hd]
    exact ⟨counter_pause _ _, fun u h => put_of_ne s _ h⟩

/-- After a turn the call has returned, or fetches again. -/
theorem turn_pc (mask : Nat) (s : Callers T) (t : T) (c : Nat) :
    ((s.turn mask t c).caller t).pc =
      if decision (s.caller t).reserveCount mask c = .again then .fetch else .idle := by
  unfold Callers.turn
  cases hd : decision (s.caller t).reserveCount mask c with
  | fail p =>
    simp only [hd, put_self]
    rfl
  | again =>
    simp only [hd, put_self]
    rfl
  | ok p =>
    simp only [hd, put_self]
    rfl

/-- **Own steps** use up what is left, those of others leave it. -/
theorem left_step (hk : k ≤ 63) (I : Inv k s) (t : T) {l : Label T} (hok : Ok s l)
    (hcall : ∀ n nonce, l ≠ .call t n nonce) (h : next (2 ^ k - 1) s l = some s') :
    left k s' t ≤ left k s t ∧ (l = .step t → left k s' t < left k s t) := by
  cases l with
  | call u n nonce =>
    have hut : t ≠ u := fun h => hcall n nonce (by rw [h])
    refine ⟨?_, nofun⟩
    unfold next at h
    cases hpc : (s.caller u).pc with
    | idle =>
      simp only [hpc] at h
      split at h <;> cases h <;> exact left_le (put_of_ne s _ hut) (Nat.le_refl _)
    | fetch => simp [hpc] at h
    | decide c => simp [hpc] at h
  | step u =>
    unfold next at h
    cases hpc : (s.caller u).pc with
    | idle => simp [hpc] at h
    | fetch =>
      simp only [hpc] at h
      cases h
      have hcounter := counter_fetch (hok hpc)
      by_cases hut : t = u
      · subst hut
        have hself : (s.fetch t).caller t = { s.caller t with pc := .decide s.shared.counter } :=
          put_self ..
        have hlt : left k (s.fetch t) t < left k s t := by
          unfold left
          rw [hself, hpc]
          show 2 * (2 ^ k - s.shared.counter) + 1 < 2 * (2 ^ k - s.shared.counter) + 2
          omega
        exact ⟨Nat.le_of_lt hlt, fun _ => hlt⟩
      · refine ⟨left_le (put_of_ne s _ hut) (by omega), ?_⟩
        intro heq
        cases heq
        exact absurd rfl hut
    | decide c =>
      simp only [hpc] at h
      cases h
      obtain ⟨hcounter, hother⟩ := turn_frame (2 ^ k - 1) s u c
      by_cases hut : t = u
      · subst hut
        have hpend := I.pending t c hpc
        have hn := (I.count t (by rw [hpc]; nofun)).1
        have hlt : left k (s.turn (2 ^ k - 1) t c) t < left k s t := by
          unfold left
          rw [turn_pc, hpc, hcounter]
          by_cases hagain : decision (s.caller t).reserveCount (2 ^ k - 1) c = .again
          · -- the next fetch is beyond `c`
            have hc := lt_of_again hk hagain
            rw [if_pos hagain]
            show 2 * (2 ^ k - s.shared.counter) + 2 < 2 * (2 ^ k - c) + 1
            omega
          · rw [if_neg hagain]
            exact Nat.succ_pos _
        exact ⟨Nat.le_of_lt hlt, fun _ => hlt⟩
      · refine ⟨left_le (hother t hut) (Nat.le_of_eq hcounter.symm), ?_⟩
        intro heq
        cases heq
        exact absurd rfl hut

omit [DecidableEq T] in
theorem left_bound (k : Nat) (s : Callers T) (t : T) : left k s t ≤ 2 ^ (k + 1) + 2 := by
  have hpow : 2 ^ (k + 1) = 2 ^ k * 2 := Nat.pow_succ ..
  unfold left
  split <;> omega

/-! ## The law -/

/-- The call of `t` is never stuck, and takes a bounded number of steps, whatever the others do. -/
structure Ends (k : Nat) (shared : Nonce) (s : Callers T) (t : T) : Prop where
  runs : (s.caller t).pc ≠ .idle → ∃ s', next (2 ^ k - 1) s (.step t) = some s'
  bound : ∀ ls s', (lts T k shared).Run s ls s' → (∀ n nonce, .call t n nonce ∉ ls) →
    ls.countP (· = .step t) ≤ 2 ^ (k + 1) + 2

theorem next_step {t : T} (h : (s.caller t).pc ≠ .idle) (mask : Nat) :
    ∃ s', next mask s (.step t) = some s' := by
  cases hpc : (s.caller t).pc with
  | idle => exact absurd hpc h
  | fetch => exact ⟨s.fetch t, by simp only [next, hpc]⟩
  | decide c => exact ⟨s.turn mask t c, by simp only [next, hpc]⟩

/-- The steps of a run without calls of `t`. -/
theorem count_steps (hk : k ≤ 63) (shared : Nonce) (I : Inv k s) (t : T) {ls : List (Label T)}
    (r : ((lts T k shared).restrict fun _ l => ∀ n nonce, l ≠ .call t n nonce).Run s ls s') :
    ls.countP (· = .step t) + left k s' t ≤ left k s t := by
  refine r.count_le_measure (fun s => left k s t) (fun l => decide (l = .step t)) ?_ ?_ ?_ I
  · intro s l s' I h
    exact I.step hk h.2.1 h.2.2
  · intro s l s' I h
    exact (left_step hk I t h.2.1 h.1 h.2.2).1
  · intro s l s' I h hl
    exact (left_step hk I t h.2.1 h.1 h.2.2).2 (of_decide_eq_true hl)

theorem ends (hk : k ≤ 63) (shared : Nonce) (I : Inv k s) (t : T) : Ends k shared s t where
  runs hpc := next_step hpc _
  bound ls s' r hcall := by
    have hlabels : ∀ l ∈ ls, ∀ n nonce, l ≠ .call t n nonce := by
      intro l hl n nonce h
      exact hcall n nonce (h ▸ hl)
    have hcount := count_steps hk shared I t (r.restrict hlabels)
    have hbound := left_bound k s t
    omega

/-- **`Nonce::next` reserves ranges of its own**: in every state that any calls by any threads
lead to, from any counter that does not wrap. -/
theorem next_reserves (k : Nat) (hk : 24 ≤ k ∧ k ≤ 63) (shared : Nonce) (s : Callers T)
    (h : (lts T k shared).Reachable s) :
    (∀ g ∈ s.granted, Reserves k g) ∧
      (s.granted.Pairwise fun g h => Apart g.start g.count h.start h.count) ∧
      ∀ t, Ends k shared s t := by
  have I := (inv_inductive hk.2 shared).reachable h
  exact ⟨I.reserves, I.disjoint, fun t => ends hk.2 shared I t⟩

end

/-- Two calls at the seam: the first one drops its range there. -/
def seam : List (Label Bool) :=
  [.call true 16 (7, 5), .call false 4 (0, 3), .step true, .step true, .step false, .step false,
    .step true, .step true]

theorem seam_runs : (LTS.execOk (next (2 ^ 33 - 1)) Ok
    ⟨{ counter := 2 ^ 32 - 10 }, fun _ => {}, []⟩ seam).isSome = true := by decide +kernel

def atSeam : Callers Bool := Option.get _ seam_runs

theorem next_reserves_seam :
    atSeam.granted.map (fun g => (g.start, g.count)) = [(2 ^ 32 + 10, 16), (2 ^ 32 + 6, 4)] ∧
      (∀ g ∈ atSeam.granted, Reserves 33 g) ∧
      (atSeam.granted.Pairwise fun g h => Apart g.start g.count h.start h.count) ∧
      ∀ t, Ends 33 { counter := 2 ^ 32 - 10 } atSeam t :=
  ⟨by decide +kernel, next_reserves 33 (by decide) { counter := 2 ^ 32 - 10 } atSeam
    (LTS.reachable_of_execOk (Option.some_get seam_runs).symm)⟩

end L5.NonceRange

end Rxs
