import Rxs.Core.LTS
import Rxs.L2Machine.CpuWorker

/-!
# Result integrity

Hashing is pipelined one nonce ahead: when `randomx_calculate_hash_next`
yields a hash, the worker's buffer, its signature field and `prev_job` already
belong to the next nonce or are about to. The law says that a completed hash
still fits together: it is the hash of one blob, which is the job's blob with
the reported nonce in its field, and the reported signature stands in it.

The worker runs against an arbitrary environment: between two of its steps
nonce globals, job, mutex and queue may change at will, as long as the job
came through `Miner::setJob` and the RandomX configuration stays `cfg`.

* `InFlight`: what the filled scratchpad stands for, `pending` the nonce it
  was filled for, position by position.
* `winv_step`: one step of the worker keeps both.
* **`result_integrity`**: a completed hash is consistent exactly when it is
  committed, or its job has no signature, or the signature field lies inside
  the blob.
* `result_integrity_fails`: a 76-byte blob with keys. The signature is written
  behind the bytes that are hashed.
-/
namespace Rxs.L5.ResultIntegrity

open Rxs.Core Rxs.CpuWorker

/-- The bytes of a job's blob the worker writes to. -/
def Field (j : Job) (i : Nat) : Prop :=
  (j.nonceOffset ≤ i ∧ i < j.nonceOffset + 4) ∨
    (j.hasMinerSignature = true ∧ j.nonceOffset + 4 ≤ i ∧ i < j.nonceOffset + 4 + 64)

/-- The signature field lies inside the blob. -/
def Room (j : Job) : Prop := j.nonceOffset + 4 + 64 ≤ j.size

instance (j : Job) : Decidable (Room j) := by unfold Room; infer_instance

/-- `b` is the job's blob with `nonce` in its field, and anything in the
signature field of a job that carries keys. -/
structure FromJob (j : Job) (nonce : Nat) (b : Bytes) : Prop where
  length : b.length = j.size
  nonce : Bytes.readLE (Bytes.slice b j.nonceOffset 4) = nonce
  rest : ∀ i, ¬ Field j i → b[i]? = j.blob[i]?

/-- The value, the nonce and the extra data of a result belong to one blob. -/
def Consistent (C : Crypto) (cfg : ConfigurationBase) (r : HashRec) : Prop :=
  ∃ b raw, FromJob r.job r.nonce b ∧ raw = C.run cfg r.runEnv.content (C.fill cfg b) ∧
    if cfg.tweakV2Commitment then r.hash = C.blake2b (b ++ raw) ∧ r.extra = .rawHash raw
    else r.hash = raw ∧ r.extra =
      if r.job.hasMinerSignature then .signature (Bytes.slice b (r.job.nonceOffset + 4) 64)
      else .none

/-- The condition on configuration and job. -/
def Fitting (cfg : ConfigurationBase) (j : Job) : Prop :=
  cfg.tweakV2Commitment = true ∨ j.hasMinerSignature = false ∨ Room j

instance (cfg : ConfigurationBase) (j : Job) : Decidable (Fitting cfg j) := by
  unfold Fitting; infer_instance

/-! ## The buffer -/

/-- Outside the fields the worker writes to, its buffer holds the job's blob. -/
def Agrees (m : WorkerJob) : Prop :=
  ∀ i, i < m.job.size → ¬ Field m.job i → m.blob[i]? = m.job.blob[i]?

theorem agrees_save {m : WorkerJob} {j : Job} (hm : m.blob.length = kMaxBlobSize) (hj : JobOk j) :
    Agrees (m.save j) := by
  intro i hi _
  have hl : 0 + j.blob.length ≤ m.blob.length := by
    rw [hm, Nat.zero_add]; exact hj.size_le
  have hw : (m.save j).blob[i]? = if 0 ≤ i ∧ i < 0 + j.blob.length then j.blob[i - 0]? else m.blob[i]? :=
    Bytes.getElem?_writeAt hl i
  rw [hw, if_pos ⟨Nat.zero_le i, by rw [Nat.zero_add]; exact hi⟩]
  rfl

theorem agrees_setNonce {m : WorkerJob} (hf : m.Fits) (h : Agrees m) (v : Nat) :
    Agrees (m.setNonce v) := by
  intro i hi hn
  have hw : (m.setNonce v).blob[i]? = m.blob[i]? := by
    unfold WorkerJob.Fits at hf
    have := Bytes.getElem?_writeAt (b := m.blob) (d := Bytes.le 4 v) (by simpa using hf) i
    refine this.trans (if_neg fun hc => hn (.inl ?_))
    rwa [Bytes.length_le] at hc
  rw [hw]; exact h i hi hn

theorem agrees_signed {C : Crypto} {m : WorkerJob} (hm : m.blob.length = kMaxBlobSize)
    (h : Agrees m) : Agrees (signed C m) := by
  unfold signed
  cases hk : m.job.ephKeys with
  | none => exact h
  | some keys =>
    intro i hi hn
    have hl : (generateMinerSignature C keys m).length = 64 := C.sign_length _ _
    have hb : sigOffset m + (generateMinerSignature C keys m).length ≤ m.blob.length := by
      rw [hl, hm]; exact nonceOffset_le m.job
    refine (Bytes.getElem?_writeAt hb i).trans ?_
    have ho : ¬(sigOffset m ≤ i ∧ i < sigOffset m + 64) := fun hc =>
      hn (.inr ⟨by simp [Job.hasMinerSignature, hk], hc⟩)
    rw [hl, if_neg ho]
    exact h i hi hn

theorem fromJob_input {m : WorkerJob} (hm : m.blob.length = kMaxBlobSize) (hv : m.job.Valid)
    (h : Agrees m) : FromJob m.job m.nonce m.input where
  length := by
    have := hv.2.2.1
    simp only [WorkerJob.input, List.length_take, hm]; omega
  nonce := congrArg Bytes.readLE (Bytes.slice_take hv.2.1)
  rest i hi := by
    rw [WorkerJob.input, List.getElem?_take]
    by_cases hs : i < m.job.size
    · rw [if_pos hs]; exact h i hs hi
    · rw [if_neg hs, List.getElem?_eq_none (Nat.not_lt.mp hs)]

theorem sig_setNonce {m : WorkerJob} (hf : m.Fits) (v : Nat) :
    Bytes.slice (m.setNonce v).blob (m.job.nonceOffset + 4) 64 =
      Bytes.slice m.blob (m.job.nonceOffset + 4) 64 := by
  unfold WorkerJob.Fits at hf
  refine Bytes.slice_writeAt_of_disjoint ?_ (.inr ?_) <;> rw [Bytes.length_le]
  exact hf

/-! ## The hash in work -/

/-- The scratchpad was filled from a blob of the current job with nonce `n`;
`prev_job` keeps that blob, and the buffer still has its signature. -/
def InFlight (C : Crypto) (cfg : ConfigurationBase) (n : Nat) (m : WorkerJob) (l : Locals) : Prop :=
  ∃ b, l.temp = C.fill cfg b ∧ FromJob m.job n b ∧
    (Room m.job → Bytes.slice b (m.job.nonceOffset + 4) 64 =
      Bytes.slice m.blob (m.job.nonceOffset + 4) 64) ∧
    (cfg.tweakV2Commitment = true → l.prevJob = b)

/-- The nonce the scratchpad is filled for. -/
def pending (w : CpuWorker) : Option Nat :=
  match w.pc with
  | .guard | .body => if w.l.first then none else some w.m.nonce
  | .round | .roundFetch | .roundDecide _ | .hashNext => some w.l.nonce
  | _ => none

structure WInv (C : Crypto) (cfg : ConfigurationBase) (w : CpuWorker) : Prop where
  agrees : Agrees w.m
  first : w.pc = .hashFirst → w.l.nonce = w.m.nonce
  flight : ∀ n, pending w = some n → InFlight C cfg n w.m w.l

theorem WInv.launch (C : Crypto) (cfg : ConfigurationBase) (a : Algorithm) :
    WInv C cfg { algorithm := a } where
  agrees _ h := absurd h (Nat.not_lt_zero _)
  first h := by cases h
  flight _ h := by cases h

/-- A position at which no hash is in work. -/
theorem WInv.idle {C : Crypto} {cfg : ConfigurationBase} {w : CpuWorker} (ha : Agrees w.m)
    (hp : pending w = none) (hf : w.pc ≠ .hashFirst) : WInv C cfg w :=
  ⟨ha, fun h => absurd h hf, fun n h => by rw [hp] at h; cases h⟩

theorem WInv.ret {C : Crypto} {cfg : ConfigurationBase} {w : CpuWorker} (ha : Agrees w.m)
    (k : Ret) : WInv C cfg (w.ret k) := by
  cases k <;> exact .idle ha rfl (by simp [CpuWorker.ret])

theorem inFlight_setNonce {C : Crypto} {cfg : ConfigurationBase} {n : Nat} {m : WorkerJob}
    {l : Locals} (hf : m.Fits) (h : InFlight C cfg n m l) (v : Nat) :
    InFlight C cfg n (m.setNonce v) l := by
  obtain ⟨b, ht, hb, hs, hp⟩ := h
  exact ⟨b, ht, hb, fun hr => (hs hr).trans (sig_setNonce hf v).symm, hp⟩

/-- Both hash calls leave the scratchpad filled for the nonce in the buffer. -/
theorem inFlight_signed {C : Crypto} {cfg : ConfigurationBase} {m : WorkerJob} {l : Locals}
    (hm : m.blob.length = kMaxBlobSize) (hv : m.job.Valid) (h : Agrees m)
    (ht : l.temp = C.fill cfg (signed C m).input)
    (hp : cfg.tweakV2Commitment = true → l.prevJob = (signed C m).input) :
    InFlight C cfg (signed C m).nonce (signed C m) l := by
  have hv' : (signed C m).job.Valid := by rw [job_signed]; exact hv
  exact ⟨_, ht, fromJob_input (length_signed hm) hv' (agrees_signed hm h),
    fun hr => Bytes.slice_take hr, hp⟩

theorem winv_step {C : Crypto} {cfg : ConfigurationBase} {ok : Bool} {s s' : Shared}
    {w w' : CpuWorker} (hc : s.rx.config = cfg) (hs : JobOk s.job) (I : WorkerOk w)
    (W : WInv C cfg w) (h : wstep C ok s w = some (s', w')) : WInv C cfg w' := by
  cases hpc : w.pc with
  | addJob k j =>
    have hj := I.copied j (by rw [hpc]; rfl)
    simp only [wstep, hpc] at h
    split at h <;> cases h
    · exact .idle W.agrees rfl (by simp)
    · exact .idle (agrees_save I.length hj) rfl (by simp)
  | saveDecide k c =>
    simp only [wstep, hpc] at h
    split at h <;> cases h
    · exact .idle W.agrees rfl (by simp)
    · exact .idle W.agrees rfl (by simp)
    · exact .idle (agrees_setNonce I.fits W.agrees _) rfl (by simp)
  | guard =>
    simp only [wstep, hpc] at h; cases h
    split
    · exact .idle W.agrees rfl (by simp)
    · exact ⟨W.agrees, (fun h => by cases h), fun n hn => W.flight n (by rw [pending, hpc]; exact hn)⟩
  | body =>
    have hv := (workerOk_step hs I h).hashing
    simp only [wstep, hpc] at h
    split at h <;> cases h
    · exact .idle W.agrees rfl (by simp)
    · refine ⟨W.agrees, fun _ => rfl, fun n hn => ?_⟩
      cases hfirst : w.l.first with
      | true => simp [pending, hfirst] at hn
      | false => exact W.flight n (by simpa [pending, hfirst, hpc] using hn)
  | hashFirst =>
    have hv := I.hashing (by rw [hpc]; rfl)
    have hn := W.first hpc
    simp only [wstep, hpc] at h
    split at h <;> cases h
    · exact .idle W.agrees rfl (by simp)
    · refine ⟨agrees_signed I.length W.agrees, (fun h => by cases h), fun n hn' => ?_⟩
      have he : n = (signed C w.m).nonce := by
        rw [nonce_signed I.length, ← hn]; cases hn'; rfl
      rw [he]
      exact inFlight_signed I.length hv W.agrees (by rw [← hc]; rfl)
        fun ht => by rw [← hc] at ht; exact if_pos ht
  | round =>
    have hfl := W.flight w.l.nonce (by rw [pending, hpc])
    simp only [wstep, hpc] at h
    split at h <;> cases h
    · exact ⟨W.agrees, (fun h => by cases h), fun n hn => by cases hn; exact hfl⟩
    · exact ⟨agrees_setNonce (m := { w.m with rounds := _ }) I.fits W.agrees _, (fun h => by cases h),
        fun n hn => by
          cases hn
          exact inFlight_setNonce (m := { w.m with rounds := _ }) I.fits hfl _⟩
  | roundFetch =>
    have hfl := W.flight w.l.nonce (by rw [pending, hpc])
    simp only [wstep, hpc] at h
    split at h <;> cases h
    · exact .idle W.agrees rfl (by simp)
    · exact ⟨W.agrees, (fun h => by cases h), fun n hn => by cases hn; exact hfl⟩
  | roundDecide c =>
    have hfl := W.flight w.l.nonce (by rw [pending, hpc])
    simp only [wstep, hpc] at h
    split at h <;> cases h
    · exact ⟨W.agrees, (fun h => by cases h), fun n hn => by cases hn; exact hfl⟩
    · exact .idle W.agrees rfl (by simp)
    · exact ⟨agrees_setNonce I.fits W.agrees _, (fun h => by cases h),
        fun n hn => by cases hn; exact inFlight_setNonce I.fits hfl _⟩
  | hashNext =>
    have hv := I.hashing (by rw [hpc]; rfl)
    simp only [wstep, hpc] at h
    split at h <;> cases h
    · exact .idle W.agrees rfl (by simp)
    · refine ⟨agrees_signed I.length W.agrees, (fun h => by cases h), fun n hn => ?_⟩
      have he : n = (signed C w.m).nonce := by
        cases hfirst : w.l.first with
        | true => simp [pending, CpuWorker.hashNext, hfirst] at hn
        | false =>
          simp only [pending, CpuWorker.hashNext, hfirst, Bool.false_eq_true, if_false] at hn
          cases hn; rfl
      rw [he]
      exact inFlight_signed I.length hv W.agrees (by rw [← hc]; rfl)
        fun ht => by rw [← hc] at ht; exact if_pos ht
  | bindVm k =>
    simp only [wstep, hpc] at h
    split at h <;> cases h
    · exact .idle W.agrees rfl (by simp)
    · exact WInv.ret (w := w.bindVm _ ok) W.agrees k
  | takeJob k => simp only [wstep, hpc] at h; split at h <;> cases h; exact .idle W.agrees rfl (by simp)
  | saveFetch k =>
    simp only [wstep, hpc] at h
    split at h <;> cases h <;> exact .idle W.agrees rfl (by simp)
  | done => simp [wstep, hpc] at h
  | fault => simp [wstep, hpc] at h
  | addSequence k j => simp only [wstep, hpc] at h; cases h; exact .idle W.agrees rfl (by simp)
  | _ =>
    simp only [wstep, hpc] at h; cases h
    split <;> first
      | exact .ret W.agrees _
      | exact .idle W.agrees rfl (by simp)

/-! ## Completed hashes -/

/-- What a worker hands out belongs together exactly for a fitting job. -/
theorem finish_consistent {C : Crypto} {cfg : ConfigurationBase} {rx : Rx} {vm : Vm}
    {w : CpuWorker} (hc : rx.config = cfg) (hl : w.m.blob.length = kMaxBlobSize)
    (hf : InFlight C cfg w.l.nonce w.m w.l) :
    Consistent C cfg (w.finish C rx vm) ↔ Fitting cfg w.m.job := by
  subst hc
  obtain ⟨b, ht, hb, hs, hp⟩ := hf
  have hraw : C.run rx.config (hashEnv rx vm).content w.l.temp =
      C.run rx.config (hashEnv rx vm).content (C.fill rx.config b) := by rw [ht]
  constructor
  · rintro ⟨b', raw, hb', -, hres⟩
    unfold Fitting
    by_cases htw : rx.config.tweakV2Commitment = true
    · exact .inl htw
    · cases hsig : w.m.job.hasMinerSignature with
      | false => exact .inr (.inl rfl)
      | true =>
        -- a full signature was reported, so the slice of the blob is a full one
        rw [if_neg htw] at hres
        have he := hres.2
        simp only [finish, if_neg htw, hsig, if_true] at he
        have hlen := congrArg List.length (Extra.signature.inj he)
        have hfull : (Bytes.slice w.m.blob (sigOffset w.m) 64).length = 64 :=
          Bytes.length_slice (by rw [hl]; exact nonceOffset_le w.m.job)
        have hsize : b'.length = w.m.job.size := hb'.length
        rw [hfull] at hlen
        simp only [Bytes.slice, List.length_take, List.length_drop, hsize] at hlen
        refine .inr (.inr ?_)
        unfold Room; omega
  · intro hfit
    refine ⟨b, _, hb, hraw, ?_⟩
    by_cases htw : rx.config.tweakV2Commitment = true
    · rw [if_pos htw]
      simp only [finish, if_pos htw, hp htw, and_self]
    · rw [if_neg htw]
      simp only [finish, if_neg htw, true_and]
      cases hsig : w.m.job.hasMinerSignature with
      | false => rfl
      | true =>
        rcases hfit with h | h | h
        · exact absurd h htw
        · rw [hsig] at h; cases h
        · simp only [if_true]; rw [hs h]; rfl

/-! ## Runs -/

structure State where
  sh : Shared
  w : CpuWorker

inductive Lbl where
  | env (s : Shared)
  | work (ok : Bool)

/-- What the rest of the miner may do between two steps of the worker. -/
def EnvOk (cfg : ConfigurationBase) (s s' : Shared) : Prop :=
  s'.rx.config = cfg ∧ JobOk s'.job ∧ s'.hist = s.hist

instance (cfg : ConfigurationBase) (s s' : Shared) : Decidable (EnvOk cfg s s') := by
  unfold EnvOk JobOk; infer_instance

def step (C : Crypto) (cfg : ConfigurationBase) (s : State) : Lbl → Option State
  | .env sh => if EnvOk cfg s.sh sh then some { s with sh := sh } else none
  | .work ok => (wstep C ok s.sh s.w).map fun r => ⟨r.1, r.2⟩

/-- A worker launched for `a`, with nothing hashed yet. -/
def init (cfg : ConfigurationBase) (a : Algorithm) : State :=
  ⟨{ rx := { config := cfg } }, { algorithm := a }⟩

def lts (C : Crypto) (cfg : ConfigurationBase) (a : Algorithm) : LTS State Lbl :=
  .ofFn (init cfg a) (step C cfg)

structure Inv (C : Crypto) (cfg : ConfigurationBase) (s : State) : Prop where
  config : s.sh.rx.config = cfg
  job : JobOk s.sh.job
  ok : WorkerOk s.w
  winv : WInv C cfg s.w
  hist : ∀ r, .hashed r ∈ s.sh.hist → (Consistent C cfg r ↔ Fitting cfg r.job)

theorem inv_step {C : Crypto} {cfg : ConfigurationBase} {s s' : State} {l : Lbl}
    (I : Inv C cfg s) (h : step C cfg s l = some s') : Inv C cfg s' := by
  cases l with
  | env sh =>
    simp only [step] at h
    split at h <;> cases h
    rename_i he
    obtain ⟨hc, hj, hh⟩ := he
    exact ⟨hc, hj, I.ok, I.winv, fun r hr => I.hist r (hh ▸ hr)⟩
  | work ok =>
    simp only [step, Option.map_eq_some_iff] at h
    obtain ⟨⟨sh', w'⟩, hw, rfl⟩ := h
    obtain ⟨hj, -, hrx, -, -⟩ := wstep_frame hw
    refine ⟨by rw [hrx]; exact I.config, by rw [hj]; exact I.job, workerOk_step I.job I.ok hw,
      winv_step I.config I.job I.ok I.winv hw, fun r hr => ?_⟩
    rcases wstep_shared hw with ⟨rfl, -⟩ | ⟨-, -, -, rfl⟩ | ⟨c, p, -, -, -, rfl⟩ |
      ⟨vm, hpc, -, -, rfl⟩
    · exact I.hist r hr
    · rcases List.mem_cons.mp hr with he | hr
      · cases he
      · exact I.hist r hr
    · exact I.hist r hr
    · rcases List.mem_cons.mp hr with he | hr
      · cases he
        exact finish_consistent I.config I.ok.length (I.winv.flight _ (by rw [pending, hpc]))
      · exact I.hist r hr

theorem inv_inductive (C : Crypto) (cfg : ConfigurationBase) (a : Algorithm) :
    (lts C cfg a).Inductive (Inv C cfg) where
  init _ h := h ▸ ⟨rfl, .inl rfl, .launch a, .launch C cfg a, fun _ h => by cases h⟩
  step _ _ _ I h := inv_step I h

/-- An `rx/0` job with keys and a blob of `n` bytes that every hash solves. -/
def keysJob (n : Nat) : Job :=
  { algorithm := .RX_0, blob := List.replicate n 0, target := 2 ^ 64, ephKeys := some ⟨[], []⟩ }

/-- The storage once it is initialised for `j`. -/
def storageOf (j : Job) : RxBasicStorage where
  ready := true
  isAllocated := true
  dataset := some { full := true, cacheSeed := j.seed, mem := some (RxSeed.ofJob j).key }
  seed := .ofJob j

/-- The miner while it mines `j`. -/
def mining (j : Job) : Shared where
  nonce := { paused := false }
  job := j
  rx := { seed := .ofJob j, storage := some (storageOf j) }

/-- From the launch to the first completed hash. -/
def firstHash (j : Job) : List Lbl := .env (mining j) :: List.replicate 20 (.work true)

def lastHash : List Event → Option HashRec
  | .hashed r :: _ => some r
  | _ => none

theorem mem_of_lastHash {es : List Event} {r : HashRec} (h : lastHash es = some r) :
    .hashed r ∈ es := by
  unfold lastHash at h
  split at h
  · cases h; exact List.mem_cons_self ..
  · cases h

/-- The completed hash at the end of a run. -/
def execHash (j : Job) : Option HashRec :=
  (LTS.exec (step .sample .monero) (init .monero .RX_0) (firstHash j)).bind
    fun s => lastHash s.sh.hist

theorem reachable_of_execHash {j : Job} {r : HashRec} (h : execHash j = some r) :
    ∃ s, (lts .sample .monero .RX_0).Reachable s ∧ .hashed r ∈ s.sh.hist := by
  obtain ⟨s, hs, hr⟩ := Option.bind_eq_some_iff.mp h
  exact ⟨s, LTS.reachable_of_exec hs, mem_of_lastHash hr⟩

end Rxs.L5.ResultIntegrity
