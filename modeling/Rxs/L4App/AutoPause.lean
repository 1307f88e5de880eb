import Rxs.Core.LTS

/-!
# Why the miner is paused

The miner pauses by itself on battery power and while the user is at the machine, where
the configuration asks for it: the timer keeps a flag for each cause and counts the
flags that are set. The same field `enabled` is written for these causes and by the
commands of the user, so nothing remembers who has paused the miner.

* `tally_inductive`: the counter is the number of flags.
* `autoPause_enabled`, `observe_enabled`: what an observation does to `enabled`.
* `law_step`: one event keeps the law exactly under `Ok`.
* **`auto_pause`**: runs of such events.
* `auto_pause_fails`: the user pauses the miner, and a change of the power supply
  resumes it.
-/
namespace Rxs

open Rxs.Core

/-- What is read of the configuration. -/
structure PauseConfig where
  pauseOnBattery : Bool
  idleTime : BitVec 32
  deriving DecidableEq, Repr

namespace AutoPause

inductive Cause where
  | battery
  | active
  deriving DecidableEq, Repr

end AutoPause

namespace PauseConfig

def isPauseOnBattery (c : PauseConfig) : Bool := c.pauseOnBattery

/-- In milliseconds, on 32 bits.
mirrors src/core/config/Config.cpp:115-118 and Config.h:59 -/
def isPauseOnActive (c : PauseConfig) : Bool := 0 < c.idleTime * 1000

def watches (c : PauseConfig) : AutoPause.Cause → Bool
  | .battery => c.isPauseOnBattery
  | .active => c.isPauseOnActive

end PauseConfig

/-- The members of `MinerPrivate` that are about pauses. Ghost: `manual` from a pause of
the user to the next resume.
mirrors src/core/Miner.cpp:338-342 -/
structure AutoPause where
  config : PauseConfig
  battery_power : Bool := false
  user_active : Bool := false
  auto_pause : Int := 0
  enabled : Bool := true
  manual : Bool := false
  deriving DecidableEq, Repr

namespace AutoPause

def flag (s : AutoPause) : Cause → Bool
  | .battery => s.battery_power
  | .active => s.user_active

def setFlag (s : AutoPause) (k : Cause) (pause : Bool) : AutoPause :=
  match k with
  | .battery => { s with battery_power := pause }
  | .active => { s with user_active := pause }

/-- mirrors src/core/Miner.cpp:472-504 -/
def setEnabled (s : AutoPause) (enabled : Bool) : AutoPause :=
  if s.enabled = enabled then s
  else if s.config.isPauseOnBattery ∧ s.battery_power ∧ enabled then s
  else { s with enabled := enabled }

/-- A flag changes, and is counted. -/
def mark (s : AutoPause) (k : Cause) (pause : Bool) : AutoPause :=
  { s.setFlag k pause with auto_pause := s.auto_pause + if pause then 1 else -1 }

/-- The lambda of the timer.
mirrors src/core/Miner.cpp:620-630 -/
def autoPause (s : AutoPause) (k : Cause) (pause : Bool) : AutoPause :=
  if s.flag k = pause then s
  else (s.mark k pause).setEnabled ((s.mark k pause).auto_pause = 0)

/-- A cause is observed where the configuration asks for it. -/
def observe (s : AutoPause) (k : Cause) (observed : Bool) : AutoPause :=
  if s.config.watches k then s.autoPause k observed else s

inductive Event where
  /-- The key `p`, or `pause` of the API. -/
  | pause
  /-- The key `r`, or `resume` of the API. -/
  | resume
  | config (c : PauseConfig)
  | timer (isOnBatteryPower isUserActive : Bool)
  deriving DecidableEq, Repr

/-- mirrors src/core/Miner.cpp:436-444, 632-638 and 663-672 -/
def step (s : AutoPause) : Event → AutoPause
  | .pause => { s.setEnabled false with manual := true }
  | .resume => { s.setEnabled true with manual := false }
  | .config c => { s with config := c }
  | .timer isOnBatteryPower isUserActive =>
    (s.observe .battery isOnBatteryPower).observe .active isUserActive

def lts (c : PauseConfig) : LTS AutoPause Event := .ofFn { config := c } fun s e => some (s.step e)

/-! ## The counter -/

def tally (f : Cause → Bool) : Int := (if f .battery then 1 else 0) + if f .active then 1 else 0

/-- The counter counts the flags, whatever the configuration is. -/
def Tally (s : AutoPause) : Prop := s.auto_pause = tally s.flag

theorem tally_eq_zero_iff (f : Cause → Bool) : tally f = 0 ↔ ∀ k, f k = false := by
  constructor
  · intro h k
    unfold tally at h
    cases k <;> split at h <;> split at h <;> simp_all
  · intro h
    simp [tally, h]

@[simp] theorem setEnabled_flag (s : AutoPause) (e : Bool) : (s.setEnabled e).flag = s.flag := by
  unfold setEnabled
  split
  · rfl
  · split <;> (funext k; cases k <;> rfl)

@[simp] theorem setEnabled_auto_pause (s : AutoPause) (e : Bool) :
    (s.setEnabled e).auto_pause = s.auto_pause := by
  unfold setEnabled
  split
  · rfl
  · split <;> rfl

@[simp] theorem setEnabled_config (s : AutoPause) (e : Bool) :
    (s.setEnabled e).config = s.config := by
  unfold setEnabled
  split
  · rfl
  · split <;> rfl

@[simp] theorem setEnabled_manual (s : AutoPause) (e : Bool) :
    (s.setEnabled e).manual = s.manual := by
  unfold setEnabled
  split
  · rfl
  · split <;> rfl

theorem setEnabled_false (s : AutoPause) : (s.setEnabled false).enabled = false := by
  unfold setEnabled
  split
  · assumption
  · simp

theorem setEnabled_true {s : AutoPause} (h : s.flag .battery = false) :
    (s.setEnabled true).enabled = true := by
  have hb : s.battery_power = false := h
  unfold setEnabled
  split
  · assumption
  · simp [hb]

theorem mark_flag (s : AutoPause) (k : Cause) (pause : Bool) :
    (s.mark k pause).flag = Function.update s.flag k pause := by
  funext j
  cases k <;> cases j <;> rfl

theorem mark_tally {s : AutoPause} {k : Cause} {pause : Bool} (h : Tally s)
    (hk : s.flag k ≠ pause) : Tally (s.mark k pause) := by
  obtain ⟨c, b, u, n, e, m⟩ := s
  have hn : n = tally (flag ⟨c, b, u, 0, e, m⟩) := h
  have hk' : flag ⟨c, b, u, n, e, m⟩ k = !pause := by
    cases pause <;> simpa using hk
  subst hn
  cases k <;> cases pause <;> cases b <;> cases u <;> first | rfl | cases hk'

/-- A flag that changes decides about the miner, whoever has paused it. -/
theorem mark_enabled {s : AutoPause} {k : Cause} {pause : Bool} (h : Tally (s.mark k pause)) :
    ((s.mark k pause).setEnabled ((s.mark k pause).auto_pause = 0)).enabled = true ↔
      ∀ j, (s.mark k pause).flag j = false := by
  rw [← tally_eq_zero_iff, ← h]
  by_cases hzero : (s.mark k pause).auto_pause = 0
  · have hclear := (tally_eq_zero_iff _).mp (h.symm.trans hzero)
    simp [hzero, setEnabled_true (hclear .battery)]
  · simp [hzero, setEnabled_false]

/-- The flags after the timer has looked. -/
def seen (s : AutoPause) (onBattery userActive : Bool) : Cause → Bool
  | .battery => if s.config.watches .battery then onBattery else s.flag .battery
  | .active => if s.config.watches .active then userActive else s.flag .active

/-- What `s'` has of `s` where the flags have become `f`: `enabled` changes with a flag
only, and is then what the flags say. -/
structure Observed (s s' : AutoPause) (f : Cause → Bool) : Prop where
  flag : s'.flag = f
  tally : Tally s'
  config : s'.config = s.config
  manual : s'.manual = s.manual
  same : f = s.flag → s'.enabled = s.enabled
  changed : f ≠ s.flag → (s'.enabled = true ↔ ∀ k, f k = false)

theorem observed_observe {s : AutoPause} (h : Tally s) (k : Cause) (o : Bool) :
    Observed s (s.observe k o)
      (Function.update s.flag k (if s.config.watches k then o else s.flag k)) := by
  unfold observe
  by_cases hw : s.config.watches k = true
  · simp only [hw, if_true]
    unfold autoPause
    by_cases hk : s.flag k = o
    · rw [if_pos hk, ← hk, Function.update_eq_self]
      exact ⟨rfl, h, rfl, rfl, fun _ => rfl, fun hne => absurd rfl hne⟩
    · rw [if_neg hk]
      have htally := mark_tally h hk
      refine ⟨?_, ?_, ?_, ?_, fun heq => ?_, fun _ => ?_⟩
      · rw [setEnabled_flag, mark_flag]
      · rw [Tally, setEnabled_auto_pause, setEnabled_flag]
        exact htally
      · rw [setEnabled_config]
        cases k <;> rfl
      · rw [setEnabled_manual]
        cases k <;> rfl
      · rw [← heq, Function.update_self] at hk
        exact absurd rfl hk
      · rw [mark_enabled htally, mark_flag]
  · simp only [hw]
    rw [if_neg Bool.false_ne_true, if_neg Bool.false_ne_true, Function.update_eq_self]
    exact ⟨rfl, h, rfl, rfl, fun _ => rfl, fun hne => absurd rfl hne⟩

/-- **The timer.** The second cause has the last word: where both change, what the first
has done to `enabled` does not matter. -/
theorem observed_timer {s : AutoPause} (h : Tally s) (onBattery userActive : Bool) :
    Observed s (s.step (.timer onBattery userActive)) (s.seen onBattery userActive) := by
  have h₁ := observed_observe h .battery onBattery
  have h₂ := observed_observe h₁.tally .active userActive
  have hf : Function.update (s.observe .battery onBattery).flag .active
      (if (s.observe .battery onBattery).config.watches .active then userActive
        else (s.observe .battery onBattery).flag .active) = s.seen onBattery userActive := by
    rw [h₁.flag, h₁.config]
    funext k
    cases k <;> simp [seen]
  have hbattery : s.seen onBattery userActive = s.flag →
      (s.observe .battery onBattery).flag = s.flag := by
    intro heq
    have hx := congrFun heq .battery
    rw [h₁.flag, show (if s.config.watches .battery then onBattery else s.flag .battery) =
      s.flag .battery from hx, Function.update_eq_self]
  rw [hf] at h₂
  refine ⟨h₂.flag, h₂.tally, h₂.config.trans h₁.config, h₂.manual.trans h₁.manual, ?_, ?_⟩
  · intro heq
    have hsame := hbattery heq
    exact (h₂.same (heq.trans hsame.symm)).trans (h₁.same (h₁.flag.symm.trans hsame))
  · intro hne
    by_cases hlast : s.seen onBattery userActive = (s.observe .battery onBattery).flag
    · -- only the first cause has changed
      have hfirst := h₁.changed (by rw [← h₁.flag, ← hlast]; exact hne)
      have henabled : (s.step (.timer onBattery userActive)).enabled =
          (s.observe .battery onBattery).enabled := h₂.same hlast
      rw [henabled, hlast, h₁.flag]
      exact hfirst
    · exact h₂.changed hlast

/-! ## The law -/

/-- The counter is that of the causes which the configuration watches, none of these is there
while the miner is enabled, and what the user has paused is not. -/
structure Law (s : AutoPause) : Prop where
  counted : s.auto_pause = tally fun k => s.flag k && s.config.watches k
  quiet : s.enabled = true → ∀ k, (s.flag k && s.config.watches k) = false
  manual : s.manual = true → s.enabled = false

/-- The condition on an event. A resume finds the user away, or is refused on battery power;
a new configuration watches the causes that are there; and the last cause does not go away
while the pause is also the user's. -/
def Ok (s : AutoPause) : Event → Prop
  | .pause => True
  | .resume => s.flag .active = true → s.flag .battery = true
  | .config c => ∀ k, s.flag k = true → c.watches k = true
  | .timer onBattery userActive => s.manual = true → (∃ k, s.flag k = true) →
      (onBattery = true ∧ s.config.watches .battery = true) ∨
        (userActive = true ∧ s.config.watches .active = true)

theorem forall_cause {p : Cause → Prop} : (∀ k, p k) ↔ p .battery ∧ p .active :=
  ⟨fun h => ⟨h _, h _⟩, fun h k => by cases k; exacts [h.1, h.2]⟩

theorem tally_and_iff (f g : Cause → Bool) :
    (tally f = tally fun k => f k && g k) ↔ ∀ k, f k = true → g k = true := by
  rw [forall_cause]
  cases hb : f .battery <;> cases ha : f .active <;> cases hc : g .battery <;>
    cases hd : g .active <;> simp [tally, hb, ha, hc, hd]

theorem counted_iff {s : AutoPause} (h : Tally s) :
    (s.auto_pause = tally fun k => s.flag k && s.config.watches k) ↔
      ∀ k, s.flag k = true → s.config.watches k = true := by
  rw [h, tally_and_iff]

theorem manual_flag (s : AutoPause) (m : Bool) :
    ({ s with manual := m } : AutoPause).flag = s.flag := by
  funext k
  cases k <;> rfl

theorem config_flag (s : AutoPause) (c : PauseConfig) :
    ({ s with config := c } : AutoPause).flag = s.flag := by
  funext k
  cases k <;> rfl

theorem tally_setEnabled {s : AutoPause} (h : Tally s) (e m : Bool) :
    Tally { s.setEnabled e with manual := m } := by
  rw [Tally, manual_flag, setEnabled_flag]
  exact (setEnabled_auto_pause s e).trans h

theorem tally_step {s : AutoPause} (h : Tally s) (e : Event) : Tally (s.step e) := by
  cases e with
  | pause => exact tally_setEnabled h false true
  | resume => exact tally_setEnabled h true false
  | config c =>
    rw [Tally, step, config_flag]
    exact h
  | timer onBattery userActive => exact (observed_timer h onBattery userActive).tally

theorem tally_inductive (c : PauseConfig) : (lts c).Inductive Tally where
  init s hs := by cases hs; rfl
  step s e s' h hs := by cases hs; exact tally_step h e

/-- The law, where the counter counts the flags: no flag is set that the configuration does
not watch. -/
theorem law_iff {s : AutoPause} (ht : Tally s) :
    Law s ↔ (∀ k, s.flag k = true → s.config.watches k = true) ∧
      (s.enabled = true → ∀ k, s.flag k = false) ∧ (s.manual = true → s.enabled = false) := by
  constructor
  · intro h
    have hwatch := (counted_iff ht).mp h.counted
    refine ⟨hwatch, fun he k => ?_, h.manual⟩
    by_contra hk
    have hk : s.flag k = true := by simpa using hk
    have := h.quiet he k
    simp [hk, hwatch k hk] at this
  · rintro ⟨hwatch, hquiet, hmanual⟩
    exact ⟨(counted_iff ht).mpr hwatch, fun he k => by rw [hquiet he k, Bool.false_and], hmanual⟩

theorem setEnabled_refused {s : AutoPause} (h : s.flag .battery = true)
    (hw : s.config.watches .battery = true) : (s.setEnabled true).enabled = s.enabled := by
  have hb : s.battery_power = true := h
  have hc : s.config.isPauseOnBattery = true := hw
  unfold setEnabled
  split
  · rfl
  · rw [if_pos ⟨hc, hb, rfl⟩]

theorem law_pause {s : AutoPause} (ht : Tally s) (h : Law s) : Law (s.step .pause) := by
  obtain ⟨hwatch, -, -⟩ := (law_iff ht).mp h
  have hfalse : (s.step .pause).enabled = false := setEnabled_false s
  rw [law_iff (tally_step ht _), hfalse]
  refine ⟨fun k hk => ?_, nofun, fun _ => rfl⟩
  rw [step, manual_flag, setEnabled_flag] at hk
  rw [step, setEnabled_config]
  exact hwatch k hk

theorem law_resume {s : AutoPause} (ht : Tally s) (h : Law s) :
    Law (s.step .resume) ↔ (s.flag .active = true → s.flag .battery = true) := by
  obtain ⟨hwatch, hquiet, -⟩ := (law_iff ht).mp h
  have hflag : (s.step .resume).flag = s.flag := by rw [step, manual_flag, setEnabled_flag]
  have hconfig : (s.step .resume).config = s.config := setEnabled_config s true
  have henabled : (s.step .resume).enabled = (s.setEnabled true).enabled := rfl
  have hmanual : (s.step .resume).manual = false := rfl
  rw [law_iff (tally_step ht _), hflag, hconfig, henabled, hmanual]
  cases hb : s.flag .battery with
  | true =>
    rw [setEnabled_refused hb (hwatch _ hb)]
    exact ⟨fun _ _ => rfl, fun _ => ⟨hwatch, hquiet, nofun⟩⟩
  | false =>
    rw [setEnabled_true hb]
    constructor
    · rintro ⟨-, hclear, -⟩ ha
      rw [hclear rfl .active] at ha
      exact ha
    · intro ha
      refine ⟨hwatch, fun _ => forall_cause.mpr ⟨hb, ?_⟩, nofun⟩
      simpa using ha

theorem law_config {s : AutoPause} (ht : Tally s) (h : Law s) (c : PauseConfig) :
    Law (s.step (.config c)) ↔ ∀ k, s.flag k = true → c.watches k = true := by
  obtain ⟨-, hquiet, hmanual⟩ := (law_iff ht).mp h
  rw [law_iff (tally_step ht _), step, config_flag]
  exact ⟨fun h => h.1, fun h => ⟨h, hquiet, hmanual⟩⟩

theorem law_timer {s : AutoPause} (ht : Tally s) (h : Law s) (onBattery userActive : Bool) :
    Law (s.step (.timer onBattery userActive)) ↔ Ok s (.timer onBattery userActive) := by
  obtain ⟨hwatch, hquiet, hmanual⟩ := (law_iff ht).mp h
  have ho := observed_timer ht onBattery userActive
  have hseen (k : Cause) : s.seen onBattery userActive k = true → s.config.watches k = true := by
    intro hk
    by_contra hw
    cases k <;> (unfold seen at hk; rw [if_neg hw] at hk; exact hw (hwatch _ hk))
  have hfinal : (∃ k, s.seen onBattery userActive k = true) ↔
      (onBattery = true ∧ s.config.watches .battery = true) ∨
        (userActive = true ∧ s.config.watches .active = true) := by
    have hb : s.seen onBattery userActive .battery = true ↔
        onBattery = true ∧ s.config.watches .battery = true := by
      refine ⟨fun hk => ⟨?_, hseen _ hk⟩, fun hk => ?_⟩
      · rwa [seen, if_pos (hseen .battery hk)] at hk
      · rw [seen, if_pos hk.2, hk.1]
    have ha : s.seen onBattery userActive .active = true ↔
        userActive = true ∧ s.config.watches .active = true := by
      refine ⟨fun hk => ⟨?_, hseen _ hk⟩, fun hk => ?_⟩
      · rwa [seen, if_pos (hseen .active hk)] at hk
      · rw [seen, if_pos hk.2, hk.1]
    rw [← hb, ← ha]
    constructor
    · rintro ⟨k, hk⟩
      cases k
      exacts [.inl hk, .inr hk]
    · rintro (hk | hk)
      exacts [⟨_, hk⟩, ⟨_, hk⟩]
  have hclear : (s.step (.timer onBattery userActive)).enabled = true →
      ∀ k, s.seen onBattery userActive k = false := by
    intro he
    by_cases heq : s.seen onBattery userActive = s.flag
    · rw [heq]
      exact hquiet ((ho.same heq).symm.trans he)
    · exact (ho.changed heq).mp he
  rw [law_iff ho.tally, ho.flag, ho.config, ho.manual, Ok, ← hfinal]
  constructor
  · rintro ⟨-, -, hpaused⟩ hm ⟨k, hk⟩
    by_contra hnone
    have hgone : ∀ j, s.seen onBattery userActive j = false := by simpa using hnone
    have hne : s.seen onBattery userActive ≠ s.flag := by
      intro heq
      rw [← heq, hgone k] at hk
      cases hk
    have he := (ho.changed hne).mpr hgone
    rw [hpaused hm] at he
    cases he
  · intro hok
    refine ⟨hseen, hclear, fun hm => ?_⟩
    by_contra he
    have he : (s.step (.timer onBattery userActive)).enabled = true := by simpa using he
    by_cases heq : s.seen onBattery userActive = s.flag
    · rw [ho.same heq, hmanual hm] at he
      cases he
    · have hflag : ∃ k, s.flag k = true := by
        by_contra hnone
        have hnone : ∀ k, s.flag k = false := by simpa using hnone
        exact heq (funext fun k => (hclear he k).trans (hnone k).symm)
      obtain ⟨k, hk⟩ := hok hm hflag
      rw [hclear he k] at hk
      cases hk

/-- **One event.** -/
theorem law_step {s : AutoPause} (ht : Tally s) (h : Law s) (e : Event) :
    Law (s.step e) ↔ Ok s e := by
  cases e with
  | pause => exact ⟨fun _ => trivial, fun _ => law_pause ht h⟩
  | resume => exact law_resume ht h
  | config c => exact law_config ht h c
  | timer onBattery userActive => exact law_timer ht h onBattery userActive

end AutoPause

namespace L4.AutoPause

open Rxs.AutoPause

/-- **The causes are accounted for**, in every run whose events are `Ok`; and the first event
that is not breaks the law. -/
theorem auto_pause (c : PauseConfig) :
    (∀ s, ((lts c).restrict Ok).Reachable s → Law s) ∧
      ∀ s e, ((lts c).restrict Ok).Reachable s → (Law (s.step e) ↔ Ok s e) := by
  have I : ((lts c).restrict Ok).Inductive fun s => Tally s ∧ Law s :=
    { init := by
        rintro s rfl
        exact ⟨rfl, rfl, fun _ k => by cases k <;> rfl, nofun⟩
      step := by
        rintro s e s' ⟨ht, h⟩ ⟨hok, hs⟩
        cases hs
        exact ⟨tally_step ht e, (law_step ht h e).mpr hok⟩ }
  refine ⟨fun s hs => (I.reachable hs).2, fun s e hs => ?_⟩
  obtain ⟨ht, h⟩ := I.reachable hs
  exact law_step ht h e

/-- Power is lost, the user pauses, and power is back. -/
def resumed : List Rxs.AutoPause.Event := [.timer true false, .pause, .timer false false]

theorem auto_pause_fails :
    ¬ ∀ c s, (lts c).Reachable s → Law s := by
  intro h
  have hs := h ⟨true, 0⟩ _ (@LTS.reachable_of_exec _ _ _ _ _ resumed rfl)
  exact absurd (hs.manual rfl) (by decide)

end L4.AutoPause

end Rxs
