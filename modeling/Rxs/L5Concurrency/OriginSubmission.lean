import Rxs.L3Protocol.SelfSelect

/-!
# Results for the origin daemon

With `submitToOrigin` the self-select client writes the nonce of a result into the
block template it holds and sends that to its daemon. It holds one template, the
one taken last; a result may be for a job made of an earlier one. The nonce goes
to character 78, which is the nonce of all algorithms but YADA.

The request takes the id of the next template request, and both kinds of answers
have one handler.

* **`origin_submission`**: the block is the job's template with the result's nonce,
  in every run in which it is sent for the template that is held.
* **`request_matching`**: ids are distinct and no answer to a block is taken for a
  template, in the runs that send no block; sending one always breaks the first.
* `origin_submission_fails`, `request_matching_fails`: a result for the job before,
  and a block whose acceptance makes the client retry.
-/
namespace Rxs.L5.OriginSubmission

open Rxs.Core Rxs.SelfSelectClient

/-- The result is sent to the daemon. -/
def Sends (s : SelfSelectClient) (r : JobResult) : Prop :=
  s.config.submitToOrigin = true ∧ r.diff ≠ 0 ∧ s.blockDiff ≠ 0 ∧ s.blockDiff ≤ r.actualDiff

instance (s : SelfSelectClient) (r : JobResult) : Decidable (Sends s r) := by
  unfold Sends; infer_instance

variable {s : SelfSelectClient}

theorem submitOriginDaemon_eq (w : Forwarded) (r : JobResult)
    (hc : s.config.submitToOrigin = true) :
    (¬ Sends s r ∧ s.submitOriginDaemon w r = s) ∨
      (Sends s r ∧ ∃ data,
        data = Bytes.writeAt s.blocktemplate 78 (Cvt.bin2hex (Bytes.le 4 r.nonce)) ∧
        s.submitOriginDaemon w r =
          { s with
            blocktemplate := data
            daemon := (s.sequence, .submitblock data) :: s.daemon
            submitted := s.submitted ++ [(w, r.nonce, data)]
            overrun := s.overrun || s.blocktemplate.length < 78 + 8 }) := by
  unfold submitOriginDaemon
  by_cases h₁ : r.diff = 0 ∨ s.blockDiff = 0
  · rw [if_pos h₁]
    refine .inl ⟨fun h => ?_, rfl⟩
    rcases h₁ with h₁ | h₁
    · exact h.2.1 h₁
    · exact h.2.2.1 h₁
  · rw [if_neg h₁]
    by_cases h₂ : r.actualDiff < s.blockDiff
    · rw [if_pos h₂]
      exact .inl ⟨fun h => absurd h.2.2.2 (by omega), rfl⟩
    · rw [if_neg h₂]
      exact .inr ⟨⟨hc, fun h => h₁ (.inl h), fun h => h₁ (.inr h), by omega⟩, _, rfl, rfl⟩

/-! ## The block of a result -/

/-- The condition on a step: a block is sent for a job of the template that is held,
which is long enough, and the job's nonce is where the block's is written. -/
def Held (s : SelfSelectClient) : Callback → Prop
  | .submit i r _ _ => ∀ w ∈ s.forwarded[i]?, Sends s r →
    w.template = s.template ∧ 86 ≤ s.blocktemplate.length ∧ w.job.algorithm ≠ .RX_YADA
  | _ => True

instance (s : SelfSelectClient) (e : Callback) : Decidable (Held s e) := by
  unfold Held; split <;> infer_instance

/-- The job's blob is the hashing blob of the template. -/
def MadeOf (j : TemplateJob) (t : Template) : Prop :=
  ∃ hex, t.blockhashingBlob = .value hex ∧ Cvt.pairs hex = some j.blob

/-- A block sent to the daemon: the template the result's job was made of, with the
result's nonce in the job's nonce field. -/
structure Block (w : Forwarded) (nonce : Nat) (block : Bytes) : Prop where
  text : ∃ t, w.template = some t ∧ MadeOf w.job t ∧
    block = Bytes.writeAt t.text (2 * w.job.nonceOffset) (Cvt.bin2hex (Bytes.le 4 nonce)) ∧
    ∀ b, Cvt.pairs t.text = some b →
      Cvt.pairs block = some (Bytes.writeAt b w.job.nonceOffset (Bytes.le 4 nonce))

/-- The template as it is held: at most a nonce was written to it. -/
def Patched (t : Template) (b : Bytes) : Prop :=
  b = t.text ∨ 86 ≤ t.text.length ∧ ∃ d, d.length = 8 ∧ b = Bytes.writeAt t.text 78 d

structure Inv (s : SelfSelectClient) : Prop where
  none : s.template = none → s.blockDiff = 0
  held : ∀ t, s.template = some t → Patched t s.blocktemplate
  made : ∀ t, s.jobTemplate = some t → MadeOf s.job t
  forwarded : ∀ w ∈ s.forwarded, ∀ t, w.template = some t → MadeOf w.job t
  submitted : ∀ p ∈ s.submitted, Block p.1 p.2.1 p.2.2
  sent : ∀ q ∈ s.daemon, ∀ b, q.2 = .submitblock b → ∃ p ∈ s.submitted, p.2.2 = b
  overrun : s.overrun = false

theorem inv_init (c : Config) : Inv { config := c } where
  none _ := rfl
  held _ h := by cases h
  made _ h := by cases h
  forwarded _ h := by cases h
  submitted _ h := by cases h
  sent _ h := by cases h
  overrun := rfl

/-- What the client tells its listener takes no part. -/
theorem inv_told (hi : Inv s) (told : List Report) : Inv { s with told := told } :=
  ⟨hi.none, hi.held, hi.made, hi.forwarded, hi.submitted, hi.sent, hi.overrun⟩

theorem inv_setState (hi : Inv s) (state : State) (now : Nat) : Inv (s.setState state now) := by
  obtain ⟨t, f, told, h, -⟩ := s.setState_eq state now
  rw [h]
  exact ⟨hi.none, hi.held, hi.made, hi.forwarded, hi.submitted, hi.sent, hi.overrun⟩

theorem inv_getBlockTemplate (hi : Inv s) (now : Nat) : Inv (s.getBlockTemplate now) := by
  obtain ⟨t, f, told, h, -⟩ := s.getBlockTemplate_eq now
  rw [h]
  refine ⟨hi.none, hi.held, hi.made, hi.forwarded, hi.submitted, fun q hq b hb => ?_, hi.overrun⟩
  rcases List.mem_cons.mp hq with rfl | hq
  · cases hb
  · exact hi.sent q hq b hb

theorem inv_send (hi : Inv s) (q : PoolRequest) (sent : Bool) : Inv (s.send q sent) := by
  unfold send
  split
  · exact ⟨hi.none, hi.held, hi.made, hi.forwarded, hi.submitted, hi.sent, hi.overrun⟩
  · exact hi

/-- Writes `le 4` as text. -/
theorem length_nonce (n : Nat) : (Cvt.bin2hex (Bytes.le 4 n)).length = 8 := by
  rw [Cvt.length_bin2hex, Bytes.length_le]

/-- A nonce over a nonce. -/
theorem patched_writeAt {t : Template} {b d : Bytes} (h : Patched t b) (hb : 86 ≤ b.length)
    (hd : d.length = 8) :
    86 ≤ t.text.length ∧ Bytes.writeAt b 78 d = Bytes.writeAt t.text 78 d := by
  rcases h with rfl | ⟨ht, e, he, rfl⟩
  · exact ⟨hb, rfl⟩
  · refine ⟨ht, List.ext_getElem? fun i => ?_⟩
    have hl : (Bytes.writeAt t.text 78 e).length = t.text.length :=
      Bytes.length_writeAt (by omega)
    rw [Bytes.getElem?_writeAt (by omega), Bytes.getElem?_writeAt (by omega),
      Bytes.getElem?_writeAt (by omega), hd, he]
    split <;> rfl

theorem inv_submitOriginDaemon (hi : Inv s) {w : Forwarded} {r : JobResult}
    (hw : w ∈ s.forwarded) (hc : s.config.submitToOrigin = true)
    (hok : Sends s r → w.template = s.template ∧ 86 ≤ s.blocktemplate.length ∧
      w.job.algorithm ≠ .RX_YADA) : Inv (s.submitOriginDaemon w r) := by
  rcases submitOriginDaemon_eq w r hc with ⟨-, h⟩ | ⟨hs, data, hdata, h⟩
  · rw [h]; exact hi
  · rw [h]
    obtain ⟨ht, hl, ha⟩ := hok hs
    obtain ⟨t, hst⟩ : ∃ t, s.template = some t := by
      refine Option.ne_none_iff_exists'.mp fun h => ?_
      exact hs.2.2.1 (hi.none h)
    have hn := length_nonce r.nonce
    obtain ⟨hlt, hp⟩ := patched_writeAt (hi.held t hst) hl hn
    have ho : w.job.nonceOffset = 39 := if_neg ha
    have hb : Block w r.nonce data := by
      refine ⟨t, ht.trans hst, hi.forwarded w hw t (ht.trans hst), ?_, fun b hb => ?_⟩
      · rw [hdata, hp, ho]
      · have hlb := Cvt.length_pairs hb
        rw [hdata, hp, ho]
        show Cvt.pairs (Bytes.writeAt t.text (2 * 39) _) = _
        refine Cvt.hex2bin_writeAt hb ?_
        rw [Bytes.length_le]
        omega
    refine ⟨hi.none, fun t' ht' => ?_, hi.made, hi.forwarded, fun p hp' => ?_, ?_, ?_⟩
    · rw [hst] at ht'
      cases ht'
      exact .inr ⟨hlt, _, hn, hdata.trans hp⟩
    · rcases List.mem_append.mp hp' with hp' | hp'
      · exact hi.submitted p hp'
      · rw [List.mem_singleton.mp hp']
        exact hb
    · intro q hq b hb'
      rcases List.mem_cons.mp hq with rfl | hq
      · cases hb'
        exact ⟨_, List.mem_append_right _ (List.mem_singleton.mpr rfl), rfl⟩
      · obtain ⟨p, hp', he⟩ := hi.sent q hq b hb'
        exact ⟨p, List.mem_append_left _ hp', he⟩
    · show (s.overrun || decide (s.blocktemplate.length < 78 + 8)) = false
      rw [hi.overrun, decide_eq_false (by omega)]
      rfl

theorem inv_write (hi : Inv s) {j : TemplateJob} {o : Option Template}
    (hj : ∀ t, o = some t → MadeOf j t) (n : Nat) :
    Inv { s with job := j, jobTemplate := o, writes := n } :=
  ⟨hi.none, hi.held, hj, hi.forwarded, hi.submitted, hi.sent, hi.overrun⟩

theorem inv_submitBlockTemplate (hi : Inv s) (t : Template) (sent : Bool) :
    Inv (s.submitBlockTemplate t sent) := by
  have h : Inv { s with
      blocktemplate := t.text, blockDiff := t.difficulty.get?.getD 0, template := some t,
      callbacks := s.callbacks.insert s.clientSequence } := by
    refine ⟨fun h => absurd h (Option.some_ne_none t), fun t' ht' => ?_, hi.made, hi.forwarded,
      hi.submitted, hi.sent, hi.overrun⟩
    cases ht'
    exact .inl rfl
  exact inv_send h _ sent

theorem inv_onHttpData (hi : Inv s) (q : Request) (r : Reply) (sent : Bool) (now : Nat) :
    Inv (s.onHttpData q r sent now) := by
  have hi' : Inv { s with processed := q :: s.processed } :=
    ⟨hi.none, hi.held, hi.made, hi.forwarded, hi.submitted, hi.sent, hi.overrun⟩
  unfold onHttpData
  cases r with
  | failed => exact inv_setState hi' _ now
  | body id error result =>
    simp only
    by_cases hid : 0 < id ∧ s.sequence - id ≠ 1
    · rw [if_pos hid]; exact hi
    · rw [if_neg hid]
      rcases parseResponse_cases { s with processed := q :: s.processed } id error result sent with
        h | ⟨t, rfl, ⟨-, h⟩ | ⟨hb, h⟩⟩
      · rw [h]
        exact inv_setState hi' _ now
      · rw [h]
        refine inv_setState (inv_write hi' (fun t' ht' => ?_) _) _ now
        by_cases he : (setJobBlob { s with processed := q :: s.processed } t).1.blob = s.job.blob
        · simp only [if_pos he] at ht'
          obtain ⟨hex, hx, hp⟩ := hi.made t' ht'
          exact ⟨hex, hx, hp.trans (congrArg some he.symm)⟩
        · simp only [if_neg he] at ht'
          cases ht'
      · rw [h]
        refine inv_submitBlockTemplate (inv_write hi' (fun t' ht' => ?_) _) t sent
        cases ht'
        obtain ⟨a, b, n, hj, hw⟩ := setJobBlob_cases { s with processed := q :: s.processed } t
        obtain ⟨seed, hs⟩ := Job.setSeedHash_frame
          (setJobBlob { s with processed := q :: s.processed } t).1 t.seedHash.get?
        obtain ⟨hex, hx, hp⟩ := hw hb
        refine ⟨hex, hx, ?_⟩
        unfold templateJob
        rw [hs, hj]
        exact hp

theorem inv_registered (hi : Inv s) (q : PoolRequest) (success : Bool) (now : Nat) :
    Inv (s.registered q success now) := by
  unfold registered
  by_cases hs : success = true
  · rw [if_pos hs]
    by_cases ha : s.active = true
    · rw [if_pos ha]
      have hf : ∀ t : SelfSelectClient, Inv t → Inv { t with
          told := t.told ++ [.onJobReceived t.job]
          forwarded := t.forwarded ++ [⟨t.job, t.jobTemplate, q⟩] } := by
        intro t h
        refine ⟨h.none, h.held, h.made, fun w hw => ?_, h.submitted, h.sent, h.overrun⟩
        rcases List.mem_append.mp hw with hw | hw
        · exact h.forwarded w hw
        · rw [List.mem_singleton.mp hw]
          exact h.made
      by_cases hr : s.config.retries < s.failures
      · simp only [if_pos hr]
        exact hf _ (inv_setState (inv_told hi _) .IdleState now)
      · simp only [if_neg hr]
        exact hf _ (inv_setState hi .IdleState now)
    · rw [if_neg ha]; exact hi
  · rw [if_neg hs]
    exact inv_setState hi _ now

theorem inv_step {s' : SelfSelectClient} {e : Callback} (hi : Inv s) (hok : Held s e)
    (h : step s e = some s') : Inv s' := by
  cases e with
  | onJobReceived job now =>
    cases h
    refine inv_getBlockTemplate ?_ now
    exact ⟨hi.none, hi.held, fun t ht => (by cases ht), hi.forwarded, hi.submitted, hi.sent,
      hi.overrun⟩
  | onLoginSuccess now =>
    cases h
    have h := inv_setState (inv_told hi (s.told ++ [.onLoginSuccess])) .IdleState now
    exact ⟨h.none, h.held, h.made, h.forwarded, h.submitted, h.sent, h.overrun⟩
  | onClose failures now =>
    cases h
    have h := inv_setState (inv_told hi (s.told ++ [.onClose failures])) .IdleState now
    exact ⟨h.none, h.held, h.made, h.forwarded, h.submitted, h.sent, h.overrun⟩
  | onHttpData i r sent now =>
    obtain ⟨q, -, rfl⟩ := Option.map_eq_some_iff.mp h
    have hi' : Inv { s with daemon := s.daemon.eraseIdx i } :=
      ⟨hi.none, hi.held, hi.made, hi.forwarded, hi.submitted,
        fun q hq => hi.sent q (List.mem_of_mem_eraseIdx hq), hi.overrun⟩
    exact inv_onHttpData hi' q.2 r sent now
  | handleResponse i success now =>
    obtain ⟨q, -, rfl⟩ := Option.map_eq_some_iff.mp h
    have hi' : Inv { s with pool := s.pool.eraseIdx i } :=
      ⟨hi.none, hi.held, hi.made, hi.forwarded, hi.submitted, hi.sent, hi.overrun⟩
    unfold handleResponse
    split
    · have h := inv_registered hi' q.2 success now
      exact ⟨h.none, h.held, h.made, h.forwarded, h.submitted, h.sent, h.overrun⟩
    · exact hi'
  | submit i r sent now =>
    obtain ⟨w, hw, rfl⟩ := Option.map_eq_some_iff.mp h
    unfold submit
    by_cases hc : s.config.submitToOrigin = true
    · rw [if_pos hc]
      have ho := inv_submitOriginDaemon hi (List.mem_of_getElem? hw) hc (hok w hw)
      exact inv_getBlockTemplate (inv_send ho .other sent) now
    · rw [if_neg hc]
      exact inv_send hi .other sent
  | tick now =>
    cases h
    unfold tick
    split
    · split
      · exact hi
      · exact inv_getBlockTemplate hi now
    · exact hi
  | request own =>
    cases h
    by_cases ho : own = true
    · rw [if_pos ho]; exact inv_send hi .other true
    · rw [if_neg ho]
      exact ⟨hi.none, hi.held, hi.made, hi.forwarded, hi.submitted, hi.sent, hi.overrun⟩

theorem inv_inductive (c : Config) : ((lts c).restrict Held).Inductive Inv where
  init s hs := by rw [hs]; exact inv_init c
  step s e s' hi hs := inv_step hi hs.1 hs.2

/-- **The block of a result** is the template of the result's job with the result's
nonce, in every run that sends blocks only for the template that is held. -/
theorem origin_submission {c : Config} {s : SelfSelectClient}
    (h : ((lts c).restrict Held).Reachable s) :
    (∀ p ∈ s.submitted, Block p.1 p.2.1 p.2.2) ∧ s.overrun = false ∧
      ∀ q ∈ s.daemon, ∀ b, q.2 = .submitblock b → ∃ p ∈ s.submitted, p.2.2 = b := by
  have hi := (inv_inductive c).reachable h
  exact ⟨hi.submitted, hi.overrun, hi.sent⟩

/-- The first job, a result for it, and one more for the same template. -/
def same : List Callback :=
  first ++ [.handleResponse 0 true 1, .submit 0 ⟨0x01020304, 1000, 6000⟩ true 2,
    .submit 0 ⟨0x0a0b0c0d, 1000, 6000⟩ true 3]

theorem origin_submission_same :
    ∃ s, LTS.execOk step Held { config := { submitToOrigin := true } } same = some s ∧
      s.submitted.map (·.2.1) = [0x01020304, 0x0a0b0c0d] ∧
      ∀ p ∈ s.submitted, Block p.1 p.2.1 p.2.2 := by
  obtain ⟨s, hs⟩ : ∃ s, LTS.execOk step Held { config := { submitToOrigin := true } } same =
      some s := Option.isSome_iff_exists.mp (by decide +kernel)
  have he : (LTS.execOk step Held { config := { submitToOrigin := true } } same).map
      (fun s => s.submitted.map (·.2.1)) = some [0x01020304, 0x0a0b0c0d] := by decide +kernel
  simp only [hs, Option.map_some, Option.some.injEq] at he
  have hr : ((lts { submitToOrigin := true }).restrict Held).Reachable s :=
    LTS.reachable_of_execOk hs
  exact ⟨s, hs, he, (origin_submission hr).1⟩

/-- The next job has its template when a result for the first one comes. -/
def late : List Callback :=
  first ++ [.handleResponse 0 true 1, .onJobReceived (openJob "b") 2,
    .onHttpData 0 (.body 2 false (some (zeros 49))) true 3,
    .submit 0 ⟨0, 1000, 6000⟩ true 4]

theorem origin_submission_fails :
    ¬ ∀ c s, (lts c).Reachable s → ∀ p ∈ s.submitted, Block p.1 p.2.1 p.2.2 := by
  intro h
  obtain ⟨s, hs⟩ : ∃ s, LTS.exec step { config := { submitToOrigin := true } } late = some s :=
    Option.isSome_iff_exists.mp (by decide +kernel)
  have he : (LTS.exec step { config := { submitToOrigin := true } } late).map
      (fun s => s.submitted.map fun p => (p.1.template, p.2.2[0]?)) =
    some [(some (zeros 48), some 49)] := by decide +kernel
  simp only [hs, Option.map_some, Option.some.injEq] at he
  obtain ⟨p, l, hp, hp', -⟩ := List.map_eq_cons_iff.mp he
  rw [Prod.mk.injEq] at hp'
  obtain ⟨t, ht, -, hb, -⟩ :=
    (h _ s (LTS.reachable_of_exec hs) p (by rw [hp]; exact List.mem_cons_self)).text
  have ht : zeros 48 = t := Option.some.inj (hp'.1.symm.trans ht)
  have ho : 1 ≤ 2 * p.1.job.nonceOffset := by
    unfold Job.nonceOffset
    split <;> omega
  have h0 : p.2.2[0]? = (zeros 48).text[0]? := by
    rw [hb, ← ht]
    unfold Bytes.writeAt
    rw [List.append_assoc, List.getElem?_append_left (by
      rw [List.length_take]
      exact lt_min ho (by decide)), List.getElem?_take_of_lt ho]
  rw [hp'.2] at h0
  exact absurd h0 (by decide)

/-! ## Requests to the daemon -/

/-- The condition on a step: no result is sent to the daemon. -/
def Keeps (s : SelfSelectClient) : Callback → Prop
  | .submit i r _ _ => s.forwarded[i]?.isSome → ¬ Sends s r
  | _ => True

instance (s : SelfSelectClient) (e : Callback) : Decidable (Keeps s e) := by
  unfold Keeps; split <;> infer_instance

def isTemplate : Request → Bool
  | .getblocktemplate _ _ => true
  | .submitblock _ => false

/-- No two open requests have one id, and no answer to a block was looked at. -/
structure Matched (s : SelfSelectClient) : Prop where
  ids : (s.daemon.map (·.1)).Nodup
  processed : ∀ q ∈ s.processed, isTemplate q = true

/-- All ids were counted. -/
structure Asks (s : SelfSelectClient) : Prop where
  ids : (s.daemon.map (·.1)).Nodup
  lt : ∀ q ∈ s.daemon, q.1 < s.sequence
  template : ∀ q ∈ s.daemon, isTemplate q.2 = true
  processed : ∀ q ∈ s.processed, isTemplate q = true

theorem asks_of_eq {s' : SelfSelectClient} (hi : Asks s) (hd : s'.daemon = s.daemon)
    (hs : s'.sequence = s.sequence) (hp : s'.processed = s.processed) : Asks s' := by
  obtain ⟨h₁, h₂, h₃, h₄⟩ := hi
  rw [← hd] at h₁ h₂ h₃
  rw [← hs] at h₂
  rw [← hp] at h₄
  exact ⟨h₁, h₂, h₃, h₄⟩

theorem asks_write (hi : Asks s) (j : TemplateJob) (o : Option Template) (n : Nat) :
    Asks { s with job := j, jobTemplate := o, writes := n } :=
  asks_of_eq hi rfl rfl rfl

theorem asks_setState (hi : Asks s) (state : State) (now : Nat) : Asks (s.setState state now) := by
  obtain ⟨t, f, told, h, -⟩ := s.setState_eq state now
  rw [h]
  exact asks_of_eq hi rfl rfl rfl

theorem asks_send (hi : Asks s) (q : PoolRequest) (sent : Bool) : Asks (s.send q sent) := by
  unfold send
  split
  · exact asks_of_eq hi rfl rfl rfl
  · exact hi

theorem asks_submitBlockTemplate (hi : Asks s) (t : Template) (sent : Bool) :
    Asks (s.submitBlockTemplate t sent) := by
  have h : Asks { s with
      blocktemplate := t.text, blockDiff := t.difficulty.get?.getD 0, template := some t,
      callbacks := s.callbacks.insert s.clientSequence } := asks_of_eq hi rfl rfl rfl
  exact asks_send h _ sent

theorem asks_getBlockTemplate (hi : Asks s) (now : Nat) : Asks (s.getBlockTemplate now) := by
  obtain ⟨t, f, told, h, -⟩ := s.getBlockTemplate_eq now
  rw [h]
  refine ⟨?_, ?_, ?_, hi.processed⟩
  · show (s.sequence :: s.daemon.map (·.1)).Nodup
    refine List.nodup_cons.mpr ⟨fun hm => ?_, hi.ids⟩
    obtain ⟨q, hq, he⟩ := List.mem_map.mp hm
    have := hi.lt q hq
    omega
  · intro q hq
    rcases List.mem_cons.mp hq with rfl | hq
    · exact Int.lt_succ s.sequence
    · exact Int.lt_trans (hi.lt q hq) (Int.lt_succ s.sequence)
  · intro q hq
    rcases List.mem_cons.mp hq with rfl | hq
    · rfl
    · exact hi.template q hq

theorem asks_onHttpData (hi : Asks s) {q : Request} (hq : isTemplate q = true) (r : Reply)
    (sent : Bool) (now : Nat) : Asks (s.onHttpData q r sent now) := by
  have hi' : Asks { s with processed := q :: s.processed } := by
    refine ⟨hi.ids, hi.lt, hi.template, fun q' hq' => ?_⟩
    rcases List.mem_cons.mp hq' with rfl | hq'
    · exact hq
    · exact hi.processed q' hq'
  unfold onHttpData
  cases r with
  | failed => exact asks_setState hi' _ now
  | body id error result =>
    simp only
    by_cases hid : 0 < id ∧ s.sequence - id ≠ 1
    · rw [if_pos hid]; exact hi
    · rw [if_neg hid]
      rcases parseResponse_cases { s with processed := q :: s.processed } id error result sent with
        h | ⟨t, rfl, ⟨-, h⟩ | ⟨-, h⟩⟩
      · rw [h]; exact asks_setState hi' _ now
      · rw [h]; exact asks_setState (asks_write hi' _ _ _) _ now
      · rw [h]; exact asks_submitBlockTemplate (asks_write hi' _ _ _) t sent

theorem asks_registered (hi : Asks s) (q : PoolRequest) (success : Bool) (now : Nat) :
    Asks (s.registered q success now) := by
  unfold registered
  split
  · split
    · refine asks_of_eq (asks_setState ?_ .IdleState now) rfl rfl rfl
      split
      · exact asks_of_eq hi rfl rfl rfl
      · exact hi
    · exact hi
  · exact asks_setState hi _ now

theorem asks_step {s' : SelfSelectClient} {e : Callback} (hi : Asks s) (hok : Keeps s e)
    (h : step s e = some s') : Asks s' := by
  cases e with
  | onJobReceived job now =>
    cases h
    have h : Asks { s with
        job := job.1, jobTemplate := none, poolJob := some job, writes := s.writes + 1 } :=
      asks_of_eq hi rfl rfl rfl
    exact asks_getBlockTemplate h now
  | onLoginSuccess now =>
    cases h
    have h : Asks { s with told := s.told ++ [.onLoginSuccess] } := asks_of_eq hi rfl rfl rfl
    have h' := asks_setState h .IdleState now
    exact ⟨h'.ids, h'.lt, h'.template, h'.processed⟩
  | onClose failures now =>
    cases h
    have h : Asks { s with told := s.told ++ [.onClose failures] } := asks_of_eq hi rfl rfl rfl
    have h' := asks_setState h .IdleState now
    exact ⟨h'.ids, h'.lt, h'.template, h'.processed⟩
  | onHttpData i r sent now =>
    obtain ⟨q, hq, rfl⟩ := Option.map_eq_some_iff.mp h
    have hi' : Asks { s with daemon := s.daemon.eraseIdx i } := by
      refine ⟨?_, fun q hq => hi.lt q (List.mem_of_mem_eraseIdx hq),
        fun q hq => hi.template q (List.mem_of_mem_eraseIdx hq), hi.processed⟩
      exact ((List.eraseIdx_sublist s.daemon i).map (·.1)).nodup hi.ids
    exact asks_onHttpData hi' (hi.template q (List.mem_of_getElem? hq)) r sent now
  | handleResponse i success now =>
    obtain ⟨q, -, rfl⟩ := Option.map_eq_some_iff.mp h
    have hi' : Asks { s with pool := s.pool.eraseIdx i } := asks_of_eq hi rfl rfl rfl
    unfold handleResponse
    split
    · have h := asks_registered hi' q.2 success now
      exact ⟨h.ids, h.lt, h.template, h.processed⟩
    · exact hi'
  | submit i r sent now =>
    obtain ⟨w, hw, rfl⟩ := Option.map_eq_some_iff.mp h
    unfold submit
    by_cases hc : s.config.submitToOrigin = true
    · rw [if_pos hc]
      rcases submitOriginDaemon_eq w r hc with ⟨-, h⟩ | ⟨hs, -⟩
      · rw [h]
        exact asks_getBlockTemplate (asks_send hi _ sent) now
      · exact absurd hs (hok (by rw [hw]; rfl))
    · rw [if_neg hc]
      exact asks_send hi _ sent
  | tick now =>
    cases h
    unfold tick
    split
    · split
      · exact hi
      · exact asks_getBlockTemplate hi now
    · exact hi
  | request own =>
    cases h
    by_cases ho : own = true
    · rw [if_pos ho]; exact asks_send hi _ true
    · rw [if_neg ho]
      exact asks_of_eq hi rfl rfl rfl

theorem asks_inductive (c : Config) : ((lts c).restrict Keeps).Inductive Asks where
  init s hs := by
    rw [hs]
    exact ⟨List.nodup_nil, nofun, nofun, nofun⟩
  step s e s' hi hs := asks_step hi hs.1 hs.2

/-- **Requests and answers**: they match in every run that sends no block to the
daemon, and a step that sends one leaves two requests with one id. -/
theorem request_matching (c : Config) :
    (∀ s, ((lts c).restrict Keeps).Reachable s → Matched s) ∧
      ∀ s e s', (lts c).Reachable s → (lts c).step s e s' → ¬ Keeps s e → ¬ Matched s' := by
  refine ⟨fun s h => ?_, fun s e s' _ h hk hm => ?_⟩
  · have hi := (asks_inductive c).reachable h
    exact ⟨hi.ids, hi.processed⟩
  · cases e with
    | submit i r sent now =>
      obtain ⟨w, hw, rfl⟩ := Option.map_eq_some_iff.mp h
      have hs : Sends s r := by
        by_contra hs
        exact hk fun _ => hs
      rcases submitOriginDaemon_eq w r hs.1 with ⟨h, -⟩ | ⟨-, data, -, h⟩
      · exact h hs
      · have hids := hm.ids
        unfold submit at hids
        rw [if_pos hs.1, h] at hids
        obtain ⟨t, f, told, hg, -⟩ := getBlockTemplate_eq (send { s with
          blocktemplate := data
          daemon := (s.sequence, .submitblock data) :: s.daemon
          submitted := s.submitted ++ [(w, r.nonce, data)]
          overrun := s.overrun || s.blocktemplate.length < 78 + 8 } .other sent) now
        rw [hg] at hids
        -- the template request right after the block has the same id
        cases sent with
        | true => exact (List.nodup_cons.mp hids).1 (List.mem_cons_self)
        | false => exact (List.nodup_cons.mp hids).1 (List.mem_cons_self)
    | _ => exact hk trivial

/-- Two jobs with their templates, and a result that is too weak for the daemon. -/
def weak : List Callback :=
  first ++ [.handleResponse 0 true 1, .onJobReceived (openJob "b") 2,
    .submit 0 ⟨0, 1000, 4000⟩ true 3]

theorem request_matching_weak :
    ∃ s, LTS.execOk step Keeps { config := { submitToOrigin := true } } weak = some s ∧
      s.daemon.map (·.1) = [3, 2] ∧ Matched s := by
  obtain ⟨s, hs⟩ : ∃ s, LTS.execOk step Keeps { config := { submitToOrigin := true } } weak =
      some s := Option.isSome_iff_exists.mp (by decide +kernel)
  have he : (LTS.execOk step Keeps { config := { submitToOrigin := true } } weak).map
      (fun s => s.daemon.map (·.1)) = some [3, 2] := by decide +kernel
  simp only [hs, Option.map_some, Option.some.injEq] at he
  have hr : ((lts { submitToOrigin := true }).restrict Keeps).Reachable s :=
    LTS.reachable_of_execOk hs
  exact ⟨s, hs, he, (request_matching _).1 s hr⟩

/-- The daemon accepts the block of a result: its answer has no template in it. -/
def asked : List Callback :=
  first ++ [.handleResponse 0 true 1, .submit 0 ⟨0, 1000, 6000⟩ true 2]

def accepted : List Callback := asked ++ [.onHttpData 1 (.body 2 false (some {})) true 3]

theorem request_matching_fails :
    (¬ ∀ c s, (lts c).Reachable s → (s.daemon.map (·.1)).Nodup) ∧
      (¬ ∀ c s, (lts c).Reachable s → ∀ q ∈ s.processed, isTemplate q = true) ∧
      ∃ c s, (lts c).Reachable s ∧ s.state = .RetryState ∧
        s.processed.head? = some (.submitblock (zeros 48).text) := by
  obtain ⟨s, hs⟩ : ∃ s, LTS.exec step { config := { submitToOrigin := true } } accepted =
      some s := Option.isSome_iff_exists.mp (by decide +kernel)
  obtain ⟨t, ht⟩ : ∃ t, LTS.exec step { config := { submitToOrigin := true } } asked =
      some t := Option.isSome_iff_exists.mp (by decide +kernel)
  have he : (LTS.exec step { config := { submitToOrigin := true } } accepted).map
      (fun s => (s.state, s.processed.head?)) =
    some (.RetryState, some (.submitblock (zeros 48).text)) := by decide +kernel
  have hd : (LTS.exec step { config := { submitToOrigin := true } } asked).map
      (fun s => s.daemon.map (·.1)) = some [2, 2] := by decide +kernel
  simp only [hs, Option.map_some, Option.some.injEq, Prod.mk.injEq] at he
  simp only [ht, Option.map_some, Option.some.injEq] at hd
  have hr : (lts { submitToOrigin := true }).Reachable s := LTS.reachable_of_exec hs
  refine ⟨fun h => ?_, fun h => ?_, _, s, hr, he.1, he.2⟩
  · have := h _ t (LTS.reachable_of_exec ht)
    rw [hd] at this
    exact absurd this (by decide)
  · have := h _ s hr _ (List.mem_of_mem_head? he.2)
    exact absurd this (by decide)

end Rxs.L5.OriginSubmission
