import Rxs.L3Protocol.SelfSelect

/-!
# The template of a self-select job

What the self-select client hands to the miner is `m_job` as it stands when the
pool accepts a template: blob, seed hash and height of the template taken last, id
and target of the pool job received last. It is one unit only if nothing wrote
to `m_job` since the template was sent to the pool, and if the answer the callback
took for the pool's acceptance is that. Apart from that, a template without a
proper seed hash leaves the seed of an earlier one in `m_job`.

* `Carries`: a job is that of a registration.
* `inv_step`: the invariant, by the function that is called.
* **`template_agreement`**: in every run of `Ok` steps.
* `template_agreement_fails`: a pool job that arrives while a registration is
  open is forwarded without a blob when the pool accepts the registration.
-/
namespace Rxs.L5.TemplateAgreement

open Rxs.Core Rxs.SelfSelectClient

/-- `j` is the pool job `p` as far as the pool is concerned. -/
def OfPool (j : TemplateJob) (p : OpenJob) : Prop :=
  j.id = p.1.id ∧ j.clientId = p.1.clientId ∧ j.target = p.1.target

/-- The job is made of the template and the pool job of one registration. -/
structure Carries (j : TemplateJob) (r : Registration) : Prop where
  blob : ∃ hex, r.template.blockhashingBlob = .value hex ∧ Cvt.pairs hex = some j.blob
  seed : j.seed = Job.seedOf r.template.seedHash.get?
  height : j.height = r.template.height.get?.getD 0
  ofPool : ∃ p, r.poolJob = some p ∧ OfPool j p
  sent : r.id = j.clientId ∧ r.job_id = j.id ∧ r.blob = r.template.blocktemplateBlob ∧
    r.height = j.height ∧ r.seed_hash = r.template.seedHash

/-- The answer that made the client forward the job was to its registration. -/
def Agrees (w : Forwarded) : Prop := ∃ r, w.request = .block_template r ∧ Carries w.job r

/-- A template leaves no earlier seed in the job. -/
def Seeded (s : SelfSelectClient) (t : Template) : Prop :=
  s.job.seed = [] ∨ t.seedHash.get?.map List.length = some (Job.kMaxSeedSize * 2)

/-- The answer is to a registration, and `m_job` was not written since. -/
def Current (s : SelfSelectClient) : PoolRequest → Prop
  | .block_template r => r.writes = s.writes
  | .other => False

/-- The condition on a step. A template that is taken has a seed hash of 64
characters, unless the job has no seed. When the pool answers with success and
there is a callback for the answer, it is to a `block_template` request and no pool
job and no template have come since that request. -/
def Ok (s : SelfSelectClient) : Callback → Prop
  | .onHttpData _ (.body id _ (some t)) _ _ =>
    ¬ (0 < id ∧ s.sequence - id ≠ 1) → (s.setJobBlob t).2 = true → Seeded s t
  | .handleResponse i true _ =>
    ∀ q ∈ s.pool[i]?, 1 < q.1 → q.1 ∈ s.callbacks → s.active = true → Current s q.2
  | _ => True

instance (s : SelfSelectClient) (t : Template) : Decidable (Seeded s t) := by
  unfold Seeded; infer_instance

instance (s : SelfSelectClient) (q : PoolRequest) : Decidable (Current s q) := by
  cases q <;> unfold Current <;> infer_instance

instance (s : SelfSelectClient) (e : Callback) : Decidable (Ok s e) := by
  unfold Ok; split <;> infer_instance

/-! ## Invariant -/

/-- `asked`: nothing happens before the first pool job. -/
structure Inv (s : SelfSelectClient) : Prop where
  asked : s.poolJob = none →
    s.daemon = [] ∧ s.callbacks = [] ∧ s.forwarded = [] ∧ s.state ≠ .RetryState
  ofPool : ∀ p, s.poolJob = some p → OfPool s.job p
  registered : ∀ q ∈ s.pool, ∀ r, q.2 = .block_template r →
    r.writes ≤ s.writes ∧ (r.writes = s.writes → Carries s.job r)
  agrees : ∀ w ∈ s.forwarded, Agrees w
  told : ∀ j, Report.onJobReceived j ∈ s.told → ∃ w ∈ s.forwarded, w.job = j

variable {s : SelfSelectClient}

theorem inv_init (c : Config) : Inv { config := c } where
  asked _ := ⟨rfl, rfl, rfl, nofun⟩
  ofPool _ h := by cases h
  registered _ h := by cases h
  agrees _ h := by cases h
  told _ h := by cases h

theorem inv_setState (hi : Inv s) (state : State) (hst : s.poolJob = none → state ≠ .RetryState)
    (now : Nat) : Inv (s.setState state now) := by
  obtain ⟨t, f, told, h, ht⟩ := s.setState_eq state now
  rw [h]
  refine ⟨fun hp => ?_, hi.ofPool, hi.registered, hi.agrees, fun j hj => hi.told j ((ht j).mp hj)⟩
  obtain ⟨h₁, h₂, h₃, -⟩ := hi.asked hp
  exact ⟨h₁, h₂, h₃, hst hp⟩

theorem inv_retry (hi : Inv s) (hp : s.poolJob ≠ none) (now : Nat) : Inv (s.retry now) :=
  inv_setState hi .RetryState (fun h => absurd h hp) now

theorem inv_getBlockTemplate (hi : Inv s) (hp : s.poolJob ≠ none) (now : Nat) :
    Inv (s.getBlockTemplate now) := by
  obtain ⟨t, f, told, h, ht⟩ := s.getBlockTemplate_eq now
  rw [h]
  exact ⟨fun h => absurd h hp, hi.ofPool, hi.registered, hi.agrees,
    fun j hj => hi.told j ((ht j).mp hj)⟩

theorem inv_send_other (hi : Inv s) (sent : Bool) : Inv (s.send .other sent) := by
  unfold send
  by_cases h : sent = true
  · rw [if_pos h]
    refine ⟨hi.asked, hi.ofPool, fun q hq r hr => ?_, hi.agrees, hi.told⟩
    rcases List.mem_cons.mp hq with rfl | hq
    · cases hr
    · exact hi.registered q hq r hr
  · rw [if_neg h]
    exact hi

/-- A write to `m_job` outdates all open registrations. -/
theorem inv_write (hi : Inv s) (hp : s.poolJob ≠ none) {j : TemplateJob}
    (hj : ∀ p, s.poolJob = some p → OfPool j p) (t : Option Template) :
    Inv { s with job := j, jobTemplate := t, writes := s.writes + 1 } where
  asked h := absurd h hp
  ofPool := hj
  registered q hq r hr := by
    have h := (hi.registered q hq r hr).1
    refine ⟨Nat.le_succ_of_le h, fun e => ?_⟩
    have e : r.writes = s.writes + 1 := e
    omega
  agrees := hi.agrees
  told := hi.told

theorem inv_submitBlockTemplate (hi : Inv s) (hp : s.poolJob ≠ none) {t : Template}
    (hb : ∃ hex, t.blockhashingBlob = .value hex ∧ Cvt.pairs hex = some s.job.blob)
    (hs : s.job.seed = Job.seedOf t.seedHash.get?) (hh : s.job.height = t.height.get?.getD 0)
    (sent : Bool) : Inv (s.submitBlockTemplate t sent) := by
  have hc : ∀ r, r.template = t → r.poolJob = s.poolJob → r.id = s.job.clientId →
      r.job_id = s.job.id → r.blob = t.blocktemplateBlob → r.height = s.job.height →
      r.seed_hash = t.seedHash → Carries s.job r := by
    rintro r rfl h₁ h₂ h₃ h₄ h₅ h₆
    obtain ⟨p, hpj⟩ := Option.ne_none_iff_exists'.mp hp
    exact ⟨hb, hs, hh, ⟨p, h₁.trans hpj, hi.ofPool p hpj⟩, h₂, h₃, h₄, h₅, h₆⟩
  unfold submitBlockTemplate sendCallback send
  by_cases h : sent = true
  · rw [if_pos h]
    refine ⟨fun h => absurd h hp, hi.ofPool, fun q hq r hr => ?_, hi.agrees, hi.told⟩
    rcases List.mem_cons.mp hq with rfl | hq
    · cases hr
      exact ⟨Nat.le_refl _, fun _ => hc _ rfl rfl rfl rfl rfl rfl rfl⟩
    · exact hi.registered q hq r hr
  · rw [if_neg h]
    exact ⟨fun h => absurd h hp, hi.ofPool, hi.registered, hi.agrees, hi.told⟩

/-! ## Steps -/

theorem inv_onHttpData (hi : Inv s) (hp : s.poolJob ≠ none) {q : Request} {r : Reply}
    (hok : ∀ id error t, r = .body id error (some t) → ¬ (0 < id ∧ s.sequence - id ≠ 1) →
      (s.setJobBlob t).2 = true → Seeded s t) (sent : Bool) (now : Nat) :
    Inv (s.onHttpData q r sent now) := by
  have hi' : Inv { s with processed := q :: s.processed } :=
    ⟨hi.asked, hi.ofPool, hi.registered, hi.agrees, hi.told⟩
  unfold onHttpData
  cases r with
  | failed => exact inv_retry hi' hp now
  | body id error result =>
    simp only
    by_cases hid : 0 < id ∧ s.sequence - id ≠ 1
    · rw [if_pos hid]; exact hi
    · rw [if_neg hid]
      rcases parseResponse_cases { s with processed := q :: s.processed } id error result sent with
        h | ⟨t, rfl, ⟨hb, h⟩ | ⟨hb, h⟩⟩
      · rw [h]
        exact inv_retry hi' hp now
      · rw [h]
        obtain ⟨a, b, n, hj, -⟩ := setJobBlob_cases { s with processed := q :: s.processed } t
        refine inv_retry (inv_write hi' hp (fun p hpj => ?_) _) hp now
        rw [hj]
        exact hi.ofPool p hpj
      · rw [h]
        obtain ⟨a, b, n, hj, hw⟩ := setJobBlob_cases { s with processed := q :: s.processed } t
        have hseed : Seeded s t := hok id error t rfl hid hb
        have hset : (Job.setSeedHash { s.job.toJob with algorithm := a, blob := b, nicehash := n }
            t.seedHash.get?).1 = { s.job.toJob with
              algorithm := a, blob := b, nicehash := n, seed := Job.seedOf t.seedHash.get? } := by
          refine Job.setSeedHash_eq ?_
          rcases hseed with h₀ | h₀
          · exact .inl h₀
          · obtain ⟨x, hx, hl⟩ := Option.map_eq_some_iff.mp h₀
            exact .inr ⟨x, hx, hl⟩
        have ht : ({ s with processed := q :: s.processed } : SelfSelectClient).templateJob t =
            { s.job with
              algorithm := a, blob := b, nicehash := n, seed := Job.seedOf t.seedHash.get?,
              height := t.height.get?.getD 0 } := by
          unfold templateJob
          rw [hj, hset]
        rw [ht]
        have hjob := inv_write hi' hp (j := { s.job with
          algorithm := a, blob := b, nicehash := n, seed := Job.seedOf t.seedHash.get?,
          height := t.height.get?.getD 0 }) (fun p hpj => hi.ofPool p hpj) (some t)
        exact inv_submitBlockTemplate hjob hp (hw hb) rfl rfl sent

/-- A further callback that only tells the listener something. -/
theorem inv_tell (hi : Inv s) {told : List Report}
    (ht : ∀ j, Report.onJobReceived j ∈ told ↔ Report.onJobReceived j ∈ s.told) :
    Inv { s with told := told } :=
  ⟨hi.asked, hi.ofPool, hi.registered, hi.agrees, fun j hj => hi.told j ((ht j).mp hj)⟩

theorem inv_forward (hi : Inv s) {q : PoolRequest} (hq : Agrees ⟨s.job, s.jobTemplate, q⟩)
    (hp : s.poolJob ≠ none) :
    Inv { s with
      told := s.told ++ [.onJobReceived s.job]
      forwarded := s.forwarded ++ [⟨s.job, s.jobTemplate, q⟩] } := by
  refine ⟨fun h => absurd h hp, hi.ofPool, hi.registered, ?_, ?_⟩
  · intro w hw
    rcases List.mem_append.mp hw with hw | hw
    · exact hi.agrees w hw
    · rw [List.mem_singleton.mp hw]
      exact hq
  · intro j hj
    rcases List.mem_append.mp hj with hj | hj
    · obtain ⟨w, hw, hwj⟩ := hi.told j hj
      exact ⟨w, List.mem_append_left _ hw, hwj⟩
    · have hj : Report.onJobReceived j = .onJobReceived s.job := List.mem_singleton.mp hj
      cases hj
      exact ⟨_, List.mem_append_right _ (List.mem_singleton.mpr rfl), rfl⟩

theorem inv_registered (hi : Inv s) (hp : s.poolJob ≠ none) {q : PoolRequest} {success : Bool}
    (hq : success = true → s.active = true → Agrees ⟨s.job, s.jobTemplate, q⟩) (now : Nat) :
    Inv (s.registered q success now) ∧ (s.registered q success now).poolJob ≠ none := by
  unfold registered
  by_cases hs : success = true
  · rw [if_pos hs]
    by_cases ha : s.active = true
    · rw [if_pos ha]
      have hw := hq hs ha
      by_cases hf : s.config.retries < s.failures
      · simp only [if_pos hf]
        obtain ⟨t, f, told, h, ht⟩ :=
          setState_eq { s with told := s.told ++ [.onLoginSuccess] } .IdleState now
        have ht' : ∀ j, Report.onJobReceived j ∈ s.told ++ [.onLoginSuccess] ↔
            Report.onJobReceived j ∈ s.told := fun j => by simp
        have hi' := inv_setState (inv_tell hi ht') .IdleState (fun _ => nofun) now
        rw [h] at hi' ⊢
        exact ⟨inv_forward hi' hw hp, hp⟩
      · simp only [if_neg hf]
        obtain ⟨t, f, told, h, ht⟩ := s.setState_eq .IdleState now
        have hi' := inv_setState hi .IdleState (fun _ => nofun) now
        rw [h] at hi' ⊢
        exact ⟨inv_forward hi' hw hp, hp⟩
    · rw [if_neg ha]
      exact ⟨hi, hp⟩
  · rw [if_neg hs]
    obtain ⟨t, f, told, h, -⟩ := s.setState_eq .RetryState now
    have hr : (s.retry now).poolJob = s.poolJob := by unfold retry; rw [h]
    exact ⟨inv_retry hi hp now, by rw [hr]; exact hp⟩

theorem inv_handleResponse (hi : Inv s) {q : Int × PoolRequest} {success : Bool}
    (hq : ∀ r, q.2 = .block_template r → r.writes = s.writes → Carries s.job r)
    (hok : success = true → 1 < q.1 → q.1 ∈ s.callbacks → s.active = true → Current s q.2)
    (now : Nat) : Inv (s.handleResponse q.1 q.2 success now) := by
  unfold handleResponse
  by_cases hc : 1 < q.1 ∧ q.1 ∈ s.callbacks
  · rw [if_pos hc]
    have hp : s.poolJob ≠ none := by
      intro h
      rw [(hi.asked h).2.1] at hc
      cases hc.2
    have hw : success = true → s.active = true → Agrees ⟨s.job, s.jobTemplate, q.2⟩ := by
      intro hs ha
      have h := hok hs hc.1 hc.2 ha
      cases hr : q.2 with
      | block_template r =>
        rw [hr] at h
        exact ⟨r, rfl, hq r hr h⟩
      | other =>
        rw [hr] at h
        exact h.elim
    obtain ⟨h, hp'⟩ := inv_registered hi hp hw now
    exact ⟨fun h' => absurd h' hp', h.ofPool, h.registered, h.agrees, h.told⟩
  · rw [if_neg hc]
    exact hi

theorem inv_submit (hi : Inv s) (hp : s.poolJob ≠ none) (w : Forwarded) (r : JobResult)
    (sent : Bool) (now : Nat) : Inv (s.submit w r sent now) := by
  have hpool : ∀ t : SelfSelectClient, (t.send .other sent).poolJob = t.poolJob := by
    intro t
    unfold send
    split <;> rfl
  have ho : Inv (s.submitOriginDaemon w r) ∧ (s.submitOriginDaemon w r).poolJob = s.poolJob := by
    unfold submitOriginDaemon
    split
    · exact ⟨hi, rfl⟩
    · split
      · exact ⟨hi, rfl⟩
      · exact ⟨⟨fun h => absurd h hp, hi.ofPool, hi.registered, hi.agrees, hi.told⟩, rfl⟩
  unfold submit
  by_cases hc : s.config.submitToOrigin = true
  · rw [if_pos hc]
    refine inv_getBlockTemplate (inv_send_other ho.1 sent) ?_ now
    rw [hpool, ho.2]
    exact hp
  · rw [if_neg hc]
    exact inv_send_other hi sent

theorem inv_tick (hi : Inv s) (now : Nat) : Inv (s.tick now) := by
  unfold tick
  by_cases hr : s.state = .RetryState
  · rw [if_pos hr]
    by_cases ht : now - s.timestamp < s.config.retryPause
    · rw [if_pos ht]; exact hi
    · rw [if_neg ht]
      exact inv_getBlockTemplate hi (fun h => (hi.asked h).2.2.2 hr) now
  · rw [if_neg hr]; exact hi

theorem inv_onJobReceived (hi : Inv s) (job : OpenJob) (now : Nat) :
    Inv (s.onJobReceived job now) := by
  unfold onJobReceived
  have hi' : Inv { s with
      job := job.1, jobTemplate := none, poolJob := some job, writes := s.writes + 1 } := by
    refine ⟨fun h => absurd h (Option.some_ne_none job), ?_, ?_, hi.agrees, hi.told⟩
    · intro p hp
      cases hp
      exact ⟨rfl, rfl, rfl⟩
    · intro q hq r hr
      have h := (hi.registered q hq r hr).1
      refine ⟨Nat.le_succ_of_le h, fun e => ?_⟩
      have e : r.writes = s.writes + 1 := e
      omega
  exact inv_getBlockTemplate hi' (Option.some_ne_none job) now

/-- A login and a close only change what the client tells and its state. -/
theorem inv_told (hi : Inv s) {n : Report} (hn : ∀ j, n ≠ .onJobReceived j) (now : Nat) (a : Bool) :
    Inv { setState { s with told := s.told ++ [n] } .IdleState now with active := a } := by
  have ht : ∀ j, Report.onJobReceived j ∈ s.told ++ [n] ↔ Report.onJobReceived j ∈ s.told := by
    intro j
    simp [(hn j).symm]
  have h := inv_setState (inv_tell hi ht) .IdleState (fun _ => nofun) now
  exact ⟨h.asked, h.ofPool, h.registered, h.agrees, h.told⟩

theorem inv_step {s' : SelfSelectClient} {e : Callback} (hi : Inv s) (hok : Ok s e)
    (h : step s e = some s') : Inv s' := by
  cases e with
  | onJobReceived job now => cases h; exact inv_onJobReceived hi job now
  | onLoginSuccess now => cases h; exact inv_told hi (fun _ h => by cases h) now true
  | onClose failures now => cases h; exact inv_told hi (fun _ h => by cases h) now false
  | onHttpData i r sent now =>
    obtain ⟨q, hq, rfl⟩ := Option.map_eq_some_iff.mp h
    have hp : s.poolJob ≠ none := by
      intro h
      rw [(hi.asked h).1] at hq
      cases hq
    have hi' : Inv { s with daemon := s.daemon.eraseIdx i } :=
      ⟨fun h => absurd h hp, hi.ofPool, hi.registered, hi.agrees, hi.told⟩
    refine inv_onHttpData hi' hp ?_ sent now
    rintro id error t rfl
    exact hok
  | handleResponse i success now =>
    obtain ⟨q, hq, rfl⟩ := Option.map_eq_some_iff.mp h
    have hi' : Inv { s with pool := s.pool.eraseIdx i } :=
      ⟨hi.asked, hi.ofPool, fun q hq => hi.registered q (List.mem_of_mem_eraseIdx hq),
        hi.agrees, hi.told⟩
    refine inv_handleResponse hi' ?_ ?_ now
    · intro r hr hw
      exact (hi.registered q (List.mem_of_getElem? hq) r hr).2 hw
    · rintro rfl
      exact hok q hq
  | submit i r sent now =>
    obtain ⟨w, hw, rfl⟩ := Option.map_eq_some_iff.mp h
    refine inv_submit hi (fun h => ?_) w r sent now
    rw [(hi.asked h).2.2.1] at hw
    cases hw
  | tick now => cases h; exact inv_tick hi now
  | request own =>
    cases h
    by_cases ho : own = true
    · rw [if_pos ho]; exact inv_send_other hi true
    · rw [if_neg ho]
      exact ⟨hi.asked, hi.ofPool, hi.registered, hi.agrees, hi.told⟩

theorem inv_inductive (c : Config) : ((lts c).restrict Ok).Inductive Inv where
  init s hs := by rw [hs]; exact inv_init c
  step s e s' hi hs := inv_step hi hs.1 hs.2

/-- **The template of a job**, in every run whose templates come with a seed hash
and whose registrations are accepted before `m_job` changes. -/
theorem template_agreement {c : Config} {s : SelfSelectClient}
    (h : ((lts c).restrict Ok).Reachable s) :
    (∀ w ∈ s.forwarded, Agrees w) ∧
      ∀ j, Report.onJobReceived j ∈ s.told → ∃ w ∈ s.forwarded, w.job = j := by
  have hi := (inv_inductive c).reachable h
  exact ⟨hi.agrees, hi.told⟩

/-! ## A pool job that comes too early -/

/-- The pool accepts, and the next job is accepted as well. -/
def twice : List Callback :=
  first ++ [.handleResponse 0 true 1, .onJobReceived (openJob "b") 2,
    .onHttpData 0 (.body 2 false (some (zeros 48))) true 3, .handleResponse 0 true 4]

theorem template_agreement_twice : ∃ s, LTS.execOk step Ok {} twice = some s ∧
    s.forwarded.map (·.job.id) = ["a", "b"] ∧ ∀ w ∈ s.forwarded, Agrees w := by
  obtain ⟨s, hs⟩ : ∃ s, LTS.execOk step Ok {} twice = some s :=
    Option.isSome_iff_exists.mp (by decide +kernel)
  have he : (LTS.execOk step Ok {} twice).map (fun s => s.forwarded.map (·.job.id)) =
    some ["a", "b"] := by decide +kernel
  simp only [hs, Option.map_some, Option.some.injEq] at he
  have hr : ((lts {}).restrict Ok).Reachable s := LTS.reachable_of_execOk hs
  exact ⟨s, hs, he, (template_agreement hr).1⟩

/-- A job arrives before the pool accepts the template of the one before. -/
def early : List Callback := first ++ [.onJobReceived (openJob "b") 1, .handleResponse 0 true 2]

theorem template_agreement_fails :
    ¬ ∀ c s, (lts c).Reachable s → ∀ w ∈ s.forwarded, Agrees w := by
  intro h
  obtain ⟨s, hs⟩ : ∃ s, LTS.exec step {} early = some s :=
    Option.isSome_iff_exists.mp (by decide +kernel)
  have he : (LTS.exec step {} early).map (fun s => s.forwarded.map fun w => (w.job.blob,
      match w.request with
      | .block_template r => r.template.blockhashingBlob
      | .other => .missing)) = some [([], .value (List.replicate 86 48))] := by decide +kernel
  simp only [hs, Option.map_some, Option.some.injEq] at he
  obtain ⟨w, l, hw, hw', -⟩ := List.map_eq_cons_iff.mp he
  obtain ⟨r, hr, hc⟩ := h {} s (LTS.reachable_of_exec hs) w (by rw [hw]; exact List.mem_cons_self)
  rw [hr, Prod.mk.injEq] at hw'
  obtain ⟨hex, hx, hb⟩ := hc.blob
  have hx : Member.value hex = .value (List.replicate 86 48) := hx.symm.trans hw'.2
  cases hx
  have hl := Cvt.length_pairs hb
  rw [hw'.1] at hl
  exact absurd hl (by decide)

end Rxs.L5.TemplateAgreement
