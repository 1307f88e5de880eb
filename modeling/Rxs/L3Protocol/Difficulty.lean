import Rxs.L2Machine.JobText
import Rxs.L3Protocol.Daemon

/-!
# Targets and difficulties

A pool gives a target, a daemon a difficulty; each is the quotient of `2^64 - 1` by the
other, rounded down. A target of four bytes is the quotient of `2^64 - 1` by that of
`2^32 - 1` by the bytes, so that an encoding of zero divides by zero.

`RatedJob` is a job with the difficulty that `setTarget` and `setDiff` keep beside the
target. `toJob_setTarget` says that the target is that of `Job.setTarget`.

* **`difficulty_sound`**: a hash below the target is worth the difficulty of the job, however
  it was set.
* **`setTarget_safe`**: `setTarget` is defined, true exactly for the targets that are not
  zero, and false without a trace, if and only if no four zero bytes come, and a text that is
  refused for its target finds the target at zero.
* `setTarget_safe_fails`: four zero bytes.
-/
namespace Rxs

open Rxs.Core

/-- A job with its difficulty. -/
structure RatedJob extends Job where
  diff : Nat := 0
  deriving DecidableEq, Repr

namespace RatedJob

/-- mirrors src/base/net/stratum/Job.cpp:111-152 -/
def setTarget (j : RatedJob) (target : Option Bytes) : Option (RatedJob × Bool) :=
  match target with
  | none => some (j, false)
  | some target =>
    if target.length < 4 then some (j, false)
    else (Job.parseTarget j.algorithm target).map fun t =>
      if t = 0 then ({ j with target := t }, false)
      else ({ j with target := t, diff := Job.toDiff t }, true)

/-- mirrors src/base/net/stratum/Job.cpp:165-173 -/
def setDiff (j : RatedJob) (diff : UInt64) : RatedJob :=
  { j with diff := diff.toNat, target := Job.toDiff diff.toNat }

/-- The job is the one of `Job.setTarget`. -/
theorem toJob_setTarget (j : RatedJob) (target : Option Bytes) :
    (j.setTarget target).map (fun r => (r.1.toJob, r.2)) = j.toJob.setTarget target := by
  cases target with
  | none => rfl
  | some target =>
    unfold setTarget Job.setTarget
    by_cases h : target.length < 4
    · simp [h]
    · simp only [if_neg h]
      cases Job.parseTarget j.algorithm target with
      | none => rfl
      | some t => by_cases ht : t = 0 <;> simp [ht]

end RatedJob

namespace JobResult

/-- The word of a hash that is compared with a target.
mirrors src/backend/cpu/CpuWorker.cpp:199 -/
def value (result : Bytes) : Nat := Bytes.readLE (Bytes.slice result 24 8)

/-- mirrors src/net/JobResult.h:91 -/
def actualDiff (result : Bytes) : Nat := Job.toDiff (value result)

end JobResult

namespace L3.Difficulty

open JobResult (value actualDiff)

/-! ## Rounding -/

/-- The quotient by a quotient by a small number is the number. -/
theorem div_div_eq {m q : Nat} (hq : 0 < q) (h : q * q ≤ m) : m / (m / q) = q := by
  have hle : q * (m / q) ≤ m := Nat.mul_div_le m q
  have hlt : m < q * (m / q) + q := Nat.lt_mul_div_succ m hq
  have hdiv : q ≤ m / q := (Nat.le_div_iff_mul_le hq).mpr h
  refine Nat.div_eq_of_lt_le hle ?_
  rw [Nat.add_mul, Nat.one_mul]
  omega

theorem mul_toDiff_le {v target : Nat} (h : v < target) :
    (v + 1) * Job.toDiff target ≤ 2 ^ 64 - 1 := by
  unfold Job.toDiff
  rw [if_neg (by omega)]
  calc (v + 1) * ((2 ^ 64 - 1) / target)
      ≤ target * ((2 ^ 64 - 1) / target) := Nat.mul_le_mul_right _ h
    _ ≤ 2 ^ 64 - 1 := Nat.mul_div_le _ _

theorem mul_le_of_lt_toDiff {v diff : Nat} (h : v < Job.toDiff diff) :
    (v + 1) * diff ≤ 2 ^ 64 - 1 := by
  unfold Job.toDiff at h
  split at h
  · omega
  · calc (v + 1) * diff ≤ (2 ^ 64 - 1) / diff * diff := Nat.mul_le_mul_right _ h
      _ ≤ 2 ^ 64 - 1 := Nat.div_mul_le_self _ _

theorem le_toDiff {v diff : Nat} (hv : 1 ≤ v) (h : (v + 1) * diff ≤ 2 ^ 64 - 1) :
    diff ≤ Job.toDiff v := by
  unfold Job.toDiff
  rw [if_neg (by omega), Nat.le_div_iff_mul_le hv, Nat.mul_comm]
  exact Nat.le_trans (Nat.mul_le_mul_right _ (Nat.le_succ v)) h

/-- The difficulty of a target of four bytes. -/
theorem toDiff_word {t : Nat} (h0 : t ≠ 0) (h : t < 2 ^ 32) :
    Job.toDiff ((2 ^ 64 - 1) / ((2 ^ 32 - 1) / t)) = (2 ^ 32 - 1) / t := by
  have hpos : 0 < (2 ^ 32 - 1) / t := Nat.div_pos (by omega) (by omega)
  have hle : (2 ^ 32 - 1) / t ≤ 2 ^ 32 - 1 := Nat.div_le_self _ _
  have htarget : 0 < (2 ^ 64 - 1) / ((2 ^ 32 - 1) / t) := Nat.div_pos (by omega) hpos
  have hsq := Nat.mul_le_mul hle hle
  rw [Job.toDiff, if_neg (by omega), div_div_eq hpos (by omega)]

/-! ## Shares -/

theorem readLE_append (a b : Bytes) :
    Bytes.readLE (a ++ b) = Bytes.readLE a + 256 ^ a.length * Bytes.readLE b := by
  induction a with
  | nil => simp [Bytes.readLE]
  | cons x a ih =>
    rw [List.cons_append, Bytes.readLE, Bytes.readLE, ih, List.length_cons, Nat.pow_succ]
    ring

/-- A hash by its last word. -/
theorem readLE_lt_value {hash : Bytes} (h : hash.length = 32) :
    Bytes.readLE hash < 2 ^ 192 * (value hash + 1) := by
  have hsplit := readLE_append (hash.take 24) (hash.drop 24)
  have hlow := Bytes.readLE_lt (hash.take 24)
  have hlen : (hash.take 24).length = 24 := by
    rw [List.length_take]
    omega
  have hvalue : value hash = Bytes.readLE (hash.drop 24) := by
    unfold value Bytes.slice
    rw [List.take_of_length_le (by rw [List.length_drop]; omega)]
  rw [List.take_append_drop, hlen, ← hvalue] at hsplit
  rw [hlen] at hlow
  have hpow : (256 : Nat) ^ 24 = 2 ^ 192 := by decide
  rw [hsplit, hpow, Nat.mul_add]
  omega

/-- The target was set by a call that took it. -/
inductive SetBy : RatedJob → Prop where
  | target {j₀ j : RatedJob} {s : Bytes} (h : j₀.setTarget (some s) = some (j, true)) : SetBy j
  | diff (j : RatedJob) {d : UInt64} (h : 1 ≤ d) : SetBy (j.setDiff d)

/-- What target and difficulty have to do with each other. -/
structure Sound (j : RatedJob) : Prop where
  share : ∀ hash, value hash < j.target → (value hash + 1) * j.diff ≤ 2 ^ 64 - 1
  whole : ∀ hash, hash.length = 32 → value hash < j.target → Bytes.readLE hash * j.diff < 2 ^ 256
  actual : ∀ hash, value hash < j.target → 1 ≤ value hash → j.diff ≤ actualDiff hash
  word : ∀ (j₀ : RatedJob) s raw, j₀.setTarget (some s) = some (j, true) →
    j₀.algorithm ≠ .RX_YADA → Cvt.pairs s = some raw → raw.length = 4 →
    j.diff = (2 ^ 32 - 1) / Bytes.readLE raw

/-- A call that is true. -/
theorem setTarget_true {j₀ j : RatedJob} {s : Bytes} (h : j₀.setTarget (some s) = some (j, true)) :
    ∃ t, Job.parseTarget j₀.algorithm s = some t ∧ t ≠ 0 ∧
      j = { j₀ with target := t, diff := Job.toDiff t } := by
  unfold RatedJob.setTarget at h
  by_cases hlen : s.length < 4
  · simp [hlen] at h
  · simp only [if_neg hlen] at h
    obtain ⟨t, ht, hr⟩ := Option.map_eq_some_iff.mp h
    by_cases h0 : t = 0
    · rw [if_pos h0] at hr
      cases congrArg Prod.snd hr
    · rw [if_neg h0] at hr
      exact ⟨t, ht, h0, (congrArg Prod.fst hr).symm⟩

theorem share_of_setBy {j : RatedJob} (h : SetBy j) {v : Nat} (hv : v < j.target) :
    (v + 1) * j.diff ≤ 2 ^ 64 - 1 := by
  cases h with
  | target h =>
    obtain ⟨t, -, -, rfl⟩ := setTarget_true h
    exact mul_toDiff_le hv
  | diff j h => exact mul_le_of_lt_toDiff hv

/-! ## The text of a target -/

/-- The text spells a target other than zero. -/
def Spells (algorithm : Algorithm) (s : Bytes) : Prop :=
  if algorithm = .RX_YADA then Job.strtoull16 s ≠ 0
  else ∃ raw, Cvt.pairs s = some raw ∧ (raw.length = 4 ∨ raw.length = 8) ∧ Bytes.readLE raw ≠ 0

/-- Four zero bytes. -/
def ZeroWord (algorithm : Algorithm) (s : Bytes) : Prop :=
  algorithm ≠ .RX_YADA ∧ Cvt.pairs s = some [0, 0, 0, 0]

theorem ZeroWord.not_spells {algorithm : Algorithm} {s : Bytes} (h : ZeroWord algorithm s) :
    ¬ Spells algorithm s := by
  unfold Spells
  rw [if_neg h.1]
  rintro ⟨raw, hraw, -, hne⟩
  rw [h.2] at hraw
  cases hraw
  exact hne rfl

theorem parseTarget_yada (s : Bytes) :
    Job.parseTarget .RX_YADA s = some (Job.strtoull16 s) := if_pos rfl

/-- The bytes of a text decide. -/
theorem parseTarget_pairs {algorithm : Algorithm} (ha : algorithm ≠ .RX_YADA) {s raw : Bytes}
    (hs : s ≠ []) (h : Cvt.pairs s = some raw) :
    Job.parseTarget algorithm s =
      if raw.length = 4 then
        if Bytes.readLE raw = 0 then none
        else some ((2 ^ 64 - 1) / ((2 ^ 32 - 1) / Bytes.readLE raw))
      else if raw.length = 8 then some (Bytes.readLE raw)
      else some 0 := by
  have hlen := Cvt.length_pairs h
  have hhex : Cvt.fromHex (s.length / 2) s = (raw, true) :=
    Cvt.fromHex_eq.mpr ⟨hs, h, by omega⟩
  unfold Job.parseTarget
  rw [if_neg ha, hhex]

theorem parseTarget_other {algorithm : Algorithm} (ha : algorithm ≠ .RX_YADA) {s : Bytes}
    (h : Cvt.pairs s = none) : Job.parseTarget algorithm s = some 0 := by
  unfold Job.parseTarget
  rw [if_neg ha]
  cases hhex : Cvt.fromHex (s.length / 2) s with
  | mk raw ok =>
    cases ok with
    | false => rfl
    | true =>
      have := (Cvt.fromHex_eq.mp hhex).2.1
      rw [h] at this
      cases this

/-- **A text that is long enough**: four zero bytes divide by zero, another one gives a target,
which is zero if the text spells none. -/
theorem parseTarget_cases (algorithm : Algorithm) {s : Bytes} (hs : 4 ≤ s.length) :
    (Job.parseTarget algorithm s = none ∧ ZeroWord algorithm s) ∨
      ∃ t, Job.parseTarget algorithm s = some t ∧ ¬ ZeroWord algorithm s ∧
        (t ≠ 0 ↔ Spells algorithm s) := by
  by_cases ha : algorithm = .RX_YADA
  · subst ha
    refine .inr ⟨_, parseTarget_yada s, fun h => h.1 rfl, ?_⟩
    unfold Spells
    rw [if_pos rfl]
  · unfold Spells ZeroWord
    rw [if_neg ha]
    cases hraw : Cvt.pairs s with
    | none =>
      refine .inr ⟨0, parseTarget_other ha hraw, by simp, by simp⟩
    | some raw =>
      have heq := parseTarget_pairs ha (by intro h; rw [h] at hs; cases hs) hraw
      by_cases h4 : raw.length = 4
      · have hlt := Bytes.readLE_lt raw
        rw [if_pos h4] at heq
        by_cases h0 : Bytes.readLE raw = 0
        · have hzero := Bytes.le_readLE raw
          rw [h0, h4] at hzero
          rw [if_pos h0] at heq
          exact .inl ⟨heq, ha, congrArg some hzero.symm⟩
        · rw [if_neg h0] at heq
          have hpos : 0 < (2 ^ 32 - 1) / Bytes.readLE raw :=
            Nat.div_pos (by rw [h4] at hlt; omega) (by omega)
          have hle : (2 ^ 32 - 1) / Bytes.readLE raw ≤ 2 ^ 32 - 1 := Nat.div_le_self _ _
          have htarget : 0 < (2 ^ 64 - 1) / ((2 ^ 32 - 1) / Bytes.readLE raw) :=
            Nat.div_pos (by omega) hpos
          refine .inr ⟨_, heq, fun h => h0 ?_, fun _ => ⟨raw, rfl, .inl h4, h0⟩, fun _ => by omega⟩
          cases h.2
          rfl
      · rw [if_neg h4] at heq
        have hnot : ¬ (algorithm ≠ .RX_YADA ∧ some raw = some [0, 0, 0, 0]) := by
          intro h
          cases h.2
          exact h4 rfl
        by_cases h8 : raw.length = 8
        · rw [if_pos h8] at heq
          exact .inr ⟨_, heq, hnot, by simp [h8]⟩
        · rw [if_neg h8] at heq
          exact .inr ⟨_, heq, hnot, by simp [h4, h8]⟩

/-! ## The laws -/

/-- **The difficulty is sound**, however it was set. -/
theorem difficulty_sound (j : RatedJob) (h : SetBy j) : Sound j where
  share _ hv := share_of_setBy h hv
  whole hash hlen hv := by
    have hshare := share_of_setBy h hv
    have hhash := readLE_lt_value hlen
    by_cases hdiff : j.diff = 0
    · rw [hdiff, Nat.mul_zero]
      exact Nat.two_pow_pos 256
    · calc Bytes.readLE hash * j.diff
          < 2 ^ 192 * (value hash + 1) * j.diff := Nat.mul_lt_mul_of_pos_right hhash (by omega)
        _ = 2 ^ 192 * ((value hash + 1) * j.diff) := Nat.mul_assoc _ _ _
        _ ≤ 2 ^ 192 * 2 ^ 64 := Nat.mul_le_mul_left _ (by omega)
        _ = 2 ^ 256 := (Nat.pow_add 2 192 64).symm
  actual _ hv hpos := le_toDiff hpos (share_of_setBy h hv)
  word j₀ s raw hset ha hraw hlen := by
    obtain ⟨t, ht, h0, rfl⟩ := setTarget_true hset
    have hlt := Bytes.readLE_lt raw
    rw [hlen] at hlt
    have hs : s ≠ [] := by
      intro hnil
      have := Cvt.length_pairs hraw
      rw [hnil, hlen] at this
      cases this
    rw [parseTarget_pairs ha hs hraw, if_pos hlen] at ht
    by_cases hzero : Bytes.readLE raw = 0
    · rw [if_pos hzero] at ht
      cases ht
    · rw [if_neg hzero] at ht
      cases ht
      exact toDiff_word hzero (by omega)

/-- A job after the target `b88d0600` of a pool. -/
def pooled : RatedJob := { target := 1844674407370955, diff := 10000 }

theorem difficulty_sound_pooled : Sound pooled :=
  difficulty_sound pooled
    (@SetBy.target {} pooled [98, 56, 56, 100, 48, 54, 48, 48] (by decide +kernel))

/-- The call is defined, true exactly for a target that is not zero, and false without a trace. -/
def Safe (j : RatedJob) (target : Option Bytes) : Prop :=
  ∃ r, j.setTarget target = some r ∧
    (r.2 = true ↔ ∃ s, target = some s ∧ 4 ≤ s.length ∧ Spells j.algorithm s) ∧
    (r.2 = false → r.1.target = j.target ∧ r.1.diff = j.diff)

/-- **`setTarget` is safe** if and only if a text that spells no target is not that of four zero
bytes, and finds the target of the job at zero. -/
theorem setTarget_safe (j : RatedJob) (target : Option Bytes) :
    Safe j target ↔ ∀ s, target = some s → 4 ≤ s.length → ¬ Spells j.algorithm s →
      ¬ ZeroWord j.algorithm s ∧ j.target = 0 := by
  cases target with
  | none => exact ⟨nofun, fun _ => ⟨(j, false), rfl, by simp, fun _ => ⟨rfl, rfl⟩⟩⟩
  | some s =>
    by_cases hlen : s.length < 4
    · have heq : j.setTarget (some s) = some (j, false) := if_pos hlen
      constructor
      · intro _ s' hs'
        cases hs'
        omega
      · intro _
        refine ⟨(j, false), heq, ⟨nofun, ?_⟩, fun _ => ⟨rfl, rfl⟩⟩
        rintro ⟨s', hs', hlen', -⟩
        cases hs'
        omega
    · have heq : j.setTarget (some s) = _ := if_neg hlen
      obtain ⟨hparse, hzero⟩ | ⟨t, hparse, hzero, ht⟩ := parseTarget_cases j.algorithm
        (show 4 ≤ s.length by omega)
      · rw [hparse] at heq
        constructor
        · intro ⟨r, hr, _⟩
          rw [heq] at hr
          cases hr
        · intro h
          exact absurd hzero (h s rfl (by omega) hzero.not_spells).1
      · rw [hparse, Option.map_some] at heq
        by_cases h0 : t = 0
        · rw [if_pos h0] at heq
          have hnot : ¬ Spells j.algorithm s := mt ht.mpr (not_not.mpr h0)
          constructor
          · rintro ⟨r, hr, -, hkept⟩ s' hs' _ _
            rw [heq] at hr
            cases hr
            cases hs'
            exact ⟨hzero, h0 ▸ (hkept rfl).1.symm⟩
          · intro h
            refine ⟨_, heq, ⟨nofun, ?_⟩, fun _ => ⟨h0.trans (h s rfl (by omega) hnot).2.symm, rfl⟩⟩
            rintro ⟨s', hs', -, hspells⟩
            cases hs'
            exact absurd hspells hnot
        · rw [if_neg h0] at heq
          have hspells := ht.mp h0
          constructor
          · intro _ s' hs' _ hnot
            cases hs'
            exact absurd hspells hnot
          · intro _
            exact ⟨_, heq, ⟨fun _ => ⟨s, rfl, by omega, hspells⟩, fun _ => rfl⟩, nofun⟩

/-- A pool sends a target of four zero bytes. -/
theorem setTarget_safe_fails : ¬ Safe {} (some (List.replicate 8 48)) := by
  intro h
  obtain ⟨r, hr, -⟩ := h
  have hnone : ({} : RatedJob).setTarget (some (List.replicate 8 48)) = none := by decide
  rw [hnone] at hr
  cases hr

end L3.Difficulty

end Rxs
