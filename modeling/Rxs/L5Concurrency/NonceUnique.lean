import Rxs.Core.Ledger
import Rxs.L4App.Miner

/-!
# Nonce uniqueness

While one blob stays current and the counter is not reset, every nonce the
workers hash comes from a range that `Nonce::next` handed to one of them. The
law says that no two completed hashes of the blob have the same nonce, and
that the bits above the job's nonce mask stay the job's own.

`Owes` is what a worker may still hash: the nonce in work, the rest of its
range, a range fetched and not yet written. The workers together are a
`Ledger`, so uniqueness is the ledger's.

`Ok` spells out the period (every job stored has the blob, no reset is
executed) and the condition on the code: no worker starts to hash the blob
after `Nonce::next` has refused it a range. `WorkerJob::save` ignores that
refusal, and `nextRound` has advanced its round counter by then, so a worker
that comes back to the job hashes nonces of others.

* `owes_wstep`: one step of a worker drops, draws or spends.
* **`nonce_unique`**: over every run of `Ok` steps.
* `nonce_unique_fails`: the nonce space of a nicehash job is used up by new jobs
  with the same blob, and the next one starts at the nonce hashed first.
-/
namespace Rxs.L5.NonceUnique

open Rxs.Core Rxs.Sys Rxs.CpuWorker

/-- The part of a nonce below the mask of `j`, and the part above it. -/
def low (j : Job) (n : Nat) : Nat := n % (j.nonceMask + 1)
def lead (j : Job) (n : Nat) : Nat := n / (j.nonceMask + 1)

/-- The rest of the range the worker is in. -/
def Rest (m : WorkerJob) (x : Nat) : Prop :=
  low m.job m.nonce ≤ x ∧ x < low m.job m.nonce + (kReserveCount - m.rounds % kReserveCount)

/-- What the worker may still hash for the blob `b`. -/
def Owes (b : Bytes) (w : CpuWorker) (x : Nat) : Prop :=
  w.m.job.blob = b ∧ match w.pc with
    | .saveFetch _ => False
    | .saveDecide _ c => c ≤ x ∧ x < c + kReserveCount
    | .roundFetch => x = low w.m.job w.l.nonce
    | .roundDecide c => x = low w.m.job w.l.nonce ∨ (c ≤ x ∧ x < c + kReserveCount)
    | .hashNext => x = low w.m.job w.l.nonce ∨ Rest w.m x
    | _ => w.m.reserved = true ∧ Rest w.m x

/-! ## Positions -/

/-- The worker is not about to ask for a range. -/
def held : WPc → Bool
  | .saveFetch _ | .saveDecide _ _ | .roundFetch | .roundDecide _ => false
  | _ => true

/-- `Owes` is the rest of the range. -/
def plain : WPc → Bool
  | .hashNext => false
  | pc => held pc

def inFlight : WPc → Bool
  | .round | .roundFetch | .roundDecide _ | .hashNext => true
  | _ => false

/-- The worker has hashed under the job it is at. -/
def looping (w : CpuWorker) : Bool :=
  inFlight w.pc || ((w.pc = .guard || w.pc = .body) && !w.l.first)

theorem owes_plain {b : Bytes} {w : CpuWorker} (h : plain w.pc = true) (x : Nat) :
    Owes b w x ↔ w.m.job.blob = b ∧ w.m.reserved = true ∧ Rest w.m x := by
  unfold Owes
  cases hpc : w.pc <;> first | exact Iff.rfl | (rw [hpc] at h; cases h)

/-- The numbers of a worker that is at the blob. -/
structure Numbers (w : CpuWorker) : Prop where
  mask : w.m.mask = w.m.job.nonceMask
  lead : lead w.m.job w.m.nonce = lead w.m.job w.m.job.nonce
  left : held w.pc = true → w.m.reserved = true →
    low w.m.job w.m.nonce + (kReserveCount - w.m.rounds % kReserveCount) ≤ w.m.job.nonceMask + 1
  turn : held w.pc = false → w.m.rounds % kReserveCount = 0
  flight : inFlight w.pc = true →
    NonceUnique.lead w.m.job w.l.nonce = NonceUnique.lead w.m.job w.m.job.nonce
  here : w.pc = .hashFirst ∨ w.pc = .round → w.l.nonce = w.m.nonce
  asked : ∀ c, w.pc = .roundDecide c → low w.m.job w.l.nonce < c
  past : w.pc = .hashNext → low w.m.job w.l.nonce < low w.m.job w.m.nonce
  reserved : looping w = true → w.m.reserved = true

/-! ## Arithmetic of a range -/

/-- A granted range: the bits above the mask stay, the counter goes below. -/
theorem nonce_of_grant {m : WorkerJob} (hf : m.Fits) (hm : m.mask = m.job.nonceMask) {c : Nat}
    {p : Bool} (h : Nonce.decision kReserveCount m.mask c = .ok p) :
    lead m.job (m.grant c).nonce = lead m.job m.nonce ∧ low m.job (m.grant c).nonce = c ∧
      c + kReserveCount ≤ m.job.nonceMask + 1 := by
  have hc := Nonce.decision_ok h
  rw [hm, Nonce.mask63_nonceMask] at hc
  have hn := WorkerJob.nonce_grant hf c
  have hlt := WorkerJob.nonce_lt (m := m)
  rw [hm] at hn
  obtain ⟨k, hk, he⟩ := m.job.nonceMask_eq_pow
  have hp := Nat.two_pow_pos k
  have hck : c < 2 ^ k := by rw [he] at hc; unfold kReserveCount at hc; omega
  rw [he, Nonce.merge_eq hk hlt hck] at hn
  refine ⟨?_, ?_, hc⟩
  · rw [lead, lead, he, hn, Nat.sub_add_cancel hp]
    rw [Nat.mul_comm, Nat.mul_add_div hp, Nat.div_eq_of_lt hck, Nat.add_zero]
  · rw [low, he, hn, Nat.sub_add_cancel hp, Nat.mul_comm, Nat.mul_add_mod, Nat.mod_eq_of_lt hck]

/-- The next nonce of a range stays in it. -/
theorem nonce_of_advance {m : WorkerJob} (hf : m.Fits)
    (h : low m.job m.nonce + 1 < m.job.nonceMask + 1) :
    lead m.job m.advance.nonce = lead m.job m.nonce ∧
      low m.job m.advance.nonce = low m.job m.nonce + 1 := by
  have hn := WorkerJob.nonce_advance hf
  have hlt := WorkerJob.nonce_lt (m := m)
  obtain ⟨k, hk, he⟩ := m.job.nonceMask_eq_pow
  unfold low lead at *
  rw [he, Nat.sub_add_cancel (Nat.two_pow_pos k)] at h ⊢
  rw [hn]
  rcases hk with rfl | rfl <;> omega

/-- Inside a range one more round fits, and takes one from the rest. -/
theorem round_of_advance {m m' : WorkerJob} (hf : m.Fits)
    (hm : m' = WorkerJob.advance { m with rounds := m.rounds + 1 })
    (h0 : (m.rounds + 1) % kReserveCount ≠ 0)
    (hle : low m.job m.nonce + (kReserveCount - m.rounds % kReserveCount) ≤ m.job.nonceMask + 1) :
    m'.job = m.job ∧ m'.mask = m.mask ∧ m'.reserved = m.reserved ∧
      lead m.job m'.nonce = lead m.job m.nonce ∧ low m.job m'.nonce = low m.job m.nonce + 1 ∧
      m.rounds % kReserveCount + 1 < kReserveCount ∧
      m'.rounds % kReserveCount = m.rounds % kReserveCount + 1 := by
  have hlt : m.rounds % kReserveCount + 1 < kReserveCount ∧
      (m.rounds + 1) % kReserveCount = m.rounds % kReserveCount + 1 := by
    unfold kReserveCount at *; omega
  have hroom : low m.job m.nonce + 1 < m.job.nonceMask + 1 := by omega
  obtain ⟨hlead, hlow⟩ := nonce_of_advance (m := { m with rounds := m.rounds + 1 }) hf hroom
  subst hm
  exact ⟨rfl, rfl, rfl, hlead, hlow, hlt.1, hlt.2⟩

/-! ## Steps of a worker: its numbers -/

/-- No hash is in work and the numbers stay. -/
theorem Numbers.keep {w w' : CpuWorker} (I : Numbers w) (hm : w'.m = w.m)
    (hp : held w.pc = true) (hp' : held w'.pc = true) (hf : inFlight w'.pc = false)
    (hne : w'.pc ≠ .hashFirst) (hl : looping w' = true → looping w = true) : Numbers w' where
  mask := hm ▸ I.mask
  lead := hm ▸ I.lead
  left _ := hm ▸ I.left hp
  turn h := by rw [hp'] at h; cases h
  flight h := by rw [hf] at h; cases h
  here h := by
    rcases h with h | h
    · exact absurd h hne
    · rw [h] at hf; cases hf
  asked c h := by rw [h] at hf; cases hf
  past h := by rw [h] at hf; cases hf
  reserved h := hm ▸ I.reserved (hl h)

/-- The range was refused: the worker drops out of the loop, or of `consumeJob`. -/
theorem Numbers.refused {w w' : CpuWorker} (I : Numbers w)
    (hm : w'.m = { w.m with reserved := false }) (hp' : held w'.pc = true)
    (hf : inFlight w'.pc = false) (hne : w'.pc ≠ .hashFirst) (hl : looping w' = false) :
    Numbers w' where
  mask := hm ▸ I.mask
  lead := hm ▸ I.lead
  left _ h := by rw [hm] at h; cases h
  turn h := by rw [hp'] at h; cases h
  flight h := by rw [hf] at h; cases h
  here h := by
    rcases h with h | h
    · exact absurd h hne
    · rw [h] at hf; cases hf
  asked c h := by rw [h] at hf; cases hf
  past h := by rw [h] at hf; cases hf
  reserved h := by rw [hl] at h; cases h

/-- What a granted range leaves: no hash in work, or one below the range. -/
theorem Numbers.granted {w w' : CpuWorker} (I : Numbers w) (hw : w.m.Fits) {c : Nat} {p : Bool}
    (hp : held w.pc = false) (hd : Nonce.decision kReserveCount w.m.mask c = .ok p)
    (hm : w'.m = w.m.grant c) (hp' : held w'.pc = true)
    (hne : w'.pc ≠ .hashFirst ∧ w'.pc ≠ .round) (hask : ∀ c, w'.pc ≠ .roundDecide c)
    (hfl : inFlight w'.pc = true → w'.l = w.l ∧ inFlight w.pc = true)
    (hpast : w'.pc = .hashNext → low w.m.job w.l.nonce < c) : Numbers w' := by
  obtain ⟨hlead, hlow, hle⟩ := nonce_of_grant hw I.mask hd
  have hj : w'.m.job = w.m.job := by rw [hm]; rfl
  have hr : w'.m.rounds = w.m.rounds := by rw [hm]; rfl
  have hn : w'.m.nonce = (w.m.grant c).nonce := by rw [hm]
  refine ⟨by rw [hm]; exact I.mask, ?_, fun _ _ => ?_, fun h => ?_, fun h => ?_, fun h => ?_,
    fun c h => absurd h (hask c), fun h => ?_, fun _ => by rw [hm]; rfl⟩
  · rw [hj, hn, hlead, I.lead]
  · rw [hj, hn, hlow, hr, I.turn hp, Nat.sub_zero]; exact hle
  · rw [hp'] at h; cases h
  · rw [hj, (hfl h).1]; exact I.flight (hfl h).2
  · rcases h with h | h
    · exact absurd h hne.1
    · exact absurd h hne.2
  · have hl : w'.l = w.l := (hfl (by rw [h]; rfl)).1
    rw [hj, hn, hlow, hl]; exact hpast h

/-- A new job: its own nonce bits, no round yet. -/
theorem Numbers.saved {w : CpuWorker} {j : Job} (hv : j.Valid) (k : Ret) :
    Numbers { w with m := w.m.save j, pc := .saveFetch k } where
  mask := rfl
  lead := by
    have := WorkerJob.nonce_save (m := w.m) (j := j) hv.2.1
    simp only [this]; rfl
  left h := by cases h
  turn _ := Nat.zero_mod _
  flight h := by cases h
  here h := by rcases h with h | h <;> cases h
  asked _ h := by cases h
  past h := by cases h
  reserved h := by simp [looping, inFlight] at h

/-- A job with the blob of a pool job came from a pool. -/
theorem valid_of_blob {j : Job} (h : JobOk j) (b : PoolJob) (hb : j.blob = b.1.blob) : j.Valid := by
  rcases h with rfl | h
  · have hs : b.1.size = 0 := congrArg List.length hb.symm
    have := b.2.2.1
    rw [hs] at this
    unfold Job.nonceSize at this; omega
  · exact h

theorem ret_m (w : CpuWorker) (k : Ret) : (w.ret k).m = w.m := by cases k <;> rfl

theorem looping_ret (w : CpuWorker) (k : Ret) : looping (w.ret k) = false ∧
    held (w.ret k).pc = true ∧ inFlight (w.ret k).pc = false ∧ (w.ret k).pc ≠ .hashFirst := by
  cases k <;> exact ⟨rfl, rfl, rfl, by simp [ret]⟩

theorem Numbers.ret {w : CpuWorker} (I : Numbers w) (hp : held w.pc = true) (k : Ret) :
    Numbers (w.ret k) := by
  obtain ⟨hl, hp', hf, hne⟩ := looping_ret w k
  exact I.keep (ret_m w k) hp hp' hf hne fun h => by rw [hl] at h; cases h

theorem numbers_wstep {C : Crypto} {ok : Bool} {s s' : Shared} {w w' : CpuWorker} (b : PoolJob)
    (hok : w.pc = .hashFirst → w.m.job.blob = b.1.blob → w.m.reserved = true) (W : WorkerOk w)
    (I : w.m.job.blob = b.1.blob → Numbers w)
    (hb : ∀ x, Owes b.1.blob w x → x < s.nonce.counter) (h : wstep C ok s w = some (s', w'))
    (hblob : w'.m.job.blob = b.1.blob) : Numbers w' := by
  cases hpc : w.pc with
  | takeJob k =>
    simp only [wstep, hpc] at h
    split at h <;> cases h
    exact (I hblob).keep rfl (by rw [hpc]; rfl) rfl rfl (by simp)
      (fun h => by simp [looping, inFlight] at h)
  | addSequence k j =>
    simp only [wstep, hpc] at h; cases h
    have I := I hblob
    exact ⟨I.mask, I.lead, fun _ => I.left (by rw [hpc]; rfl), (fun h => by cases h),
      (fun h => by cases h), fun h => by (rcases h with h | h <;> cases h), (fun _ h => by cases h),
      (fun h => by cases h), fun h => by simp [looping, inFlight] at h⟩
  | addJob k j =>
    have hj := W.copied j (by rw [hpc]; rfl)
    simp only [wstep, hpc] at h
    split at h <;> cases h
    · exact (I hblob).keep rfl (by rw [hpc]; rfl) rfl rfl (by simp)
        (fun h => by simp [looping, inFlight] at h)
    · exact .saved (valid_of_blob hj b hblob) k
  | saveFetch k =>
    simp only [wstep, hpc] at h
    split at h <;> cases h
    · exact (I hblob).refused rfl rfl rfl (by simp) rfl
    · have I := I hblob
      exact ⟨I.mask, I.lead, (fun h => by cases h), fun _ => I.turn (by rw [hpc]; rfl),
        (fun h => by cases h), fun h => by (rcases h with h | h <;> cases h), (fun _ h => by cases h),
        (fun h => by cases h), fun h => by simp [looping, inFlight] at h⟩
  | saveDecide k c =>
    simp only [wstep, hpc] at h
    split at h <;> cases h
    · have I := I hblob
      exact ⟨I.mask, I.lead, (fun h => by cases h), fun _ => I.turn (by rw [hpc]; rfl),
        (fun h => by cases h), fun h => by (rcases h with h | h <;> cases h), (fun _ h => by cases h),
        (fun h => by cases h), fun h => by simp [looping, inFlight] at h⟩
    · exact (I hblob).refused rfl rfl rfl (by simp) rfl
    · exact (I hblob).granted W.fits (by rw [hpc]; rfl) ‹_› rfl rfl (by simp) (by simp)
        (fun h => by cases h) (fun h => by cases h)
  | bindVm k =>
    simp only [wstep, hpc] at h
    split at h <;> cases h
    · exact (I hblob).keep rfl (by rw [hpc]; rfl) rfl rfl (by simp)
        (fun h => by simp [looping, inFlight] at h)
    · rename_i d _
      rw [ret_m] at hblob
      have I := I hblob
      have I' : Numbers (w.bindVm d ok) :=
        I.keep rfl (by rw [hpc]; rfl) (by simp [CpuWorker.bindVm, hpc, held])
          (by simp [CpuWorker.bindVm, hpc, inFlight]) (by simp [CpuWorker.bindVm, hpc])
          fun h => by simp [looping, CpuWorker.bindVm, hpc, inFlight] at h
      exact I'.ret (by simp [CpuWorker.bindVm, hpc, held]) k
  | guard =>
    simp only [wstep, hpc] at h; cases h
    split
    · exact (I hblob).keep rfl (by rw [hpc]; rfl) rfl rfl (by simp)
        (fun h => by simp [looping, inFlight] at h)
    · exact (I hblob).keep rfl (by rw [hpc]; rfl) rfl rfl (by simp)
        (fun h => by simpa [looping, inFlight, hpc] using h)
  | body =>
    simp only [wstep, hpc] at h
    split at h <;> cases h
    · exact (I hblob).keep rfl (by rw [hpc]; rfl) rfl rfl (by simp)
        (fun h => by simp [looping, inFlight] at h)
    · have I := I hblob
      cases hf : w.l.first with
      | true =>
        exact ⟨I.mask, I.lead, fun _ => I.left (by rw [hpc]; rfl), (fun h => by cases h),
          (fun h => by cases h), fun _ => rfl, (fun _ h => by cases h), (fun h => by cases h),
          fun h => by simp [looping, inFlight] at h⟩
      | false =>
        exact ⟨I.mask, I.lead, fun _ => I.left (by rw [hpc]; rfl), (fun h => by cases h),
          fun _ => I.lead, fun _ => rfl, (fun _ h => by cases h), (fun h => by cases h),
          fun _ => I.reserved (by simp [looping, hpc, hf])⟩
  | hashFirst =>
    simp only [wstep, hpc] at h
    split at h <;> cases h
    · exact (I hblob).keep rfl (by rw [hpc]; rfl) rfl rfl (by simp)
        (fun h => by simp [looping, inFlight] at h)
    · have hblob : w.m.job.blob = b.1.blob := by
        simpa only [CpuWorker.hashFirst, job_signed] using hblob
      have I := I hblob
      have hn := nonce_signed (C := C) W.length
      have he := I.here (.inl hpc)
      refine ⟨?_, ?_, fun _ h => ?_, (fun h => by cases h), fun _ => ?_, fun _ => ?_,
        (fun _ h => by cases h), (fun h => by cases h), fun _ => ?_⟩ <;>
        simp only [CpuWorker.hashFirst, job_signed, mask_signed, rounds_signed, reserved_signed, hn]
      · exact I.mask
      · exact I.lead
      · exact I.left (by rw [hpc]; rfl) ((reserved_signed C w.m).symm.trans h)
      · rw [he]; exact I.lead
      · exact he
      · exact hok hpc hblob
  | round =>
    have hblob' : w.m.job.blob = b.1.blob := by
      simp only [wstep, hpc] at h
      split at h <;> cases h <;> exact hblob
    have I := I hblob'
    have he := I.here (.inr hpc)
    have hr := I.reserved (by simp [looping, hpc, inFlight])
    have hle := I.left (by rw [hpc]; rfl) hr
    have hfl := I.flight (by rw [hpc]; rfl)
    have hmod : (w.m.rounds + 1) &&& (kReserveCount - 1) = (w.m.rounds + 1) % kReserveCount :=
      Nat.and_two_pow_sub_one_eq_mod _ 15
    simp only [wstep, hpc, hmod] at h
    split at h <;> cases h
    · rename_i h0
      exact ⟨I.mask, I.lead, (fun h => by cases h), fun _ => h0, fun _ => hfl,
        fun h => by (rcases h with h | h <;> cases h), (fun _ h => by cases h),
        (fun h => by cases h), fun _ => hr⟩
    · rename_i h0
      obtain ⟨hj, hma, hre, hlead, hlow, hlt, hro⟩ := round_of_advance W.fits rfl h0 hle
      refine ⟨hma.trans I.mask, hlead.trans I.lead, fun _ _ => ?_, (fun h => by cases h),
        fun _ => hfl, fun h => by (rcases h with h | h <;> cases h), (fun _ h => by cases h),
        fun _ => ?_, fun _ => hr⟩
      · refine Nat.le_trans (Nat.le_of_eq ?_) hle
        simp only [hj, hlow, hro]; omega
      · simp only [hj, hlow, he]; exact Nat.lt_succ_self _
  | roundFetch =>
    simp only [wstep, hpc] at h
    split at h <;> cases h
    · exact (I hblob).refused rfl rfl rfl (by simp) rfl
    · have I := I hblob
      exact ⟨I.mask, I.lead, (fun h => by cases h), fun _ => I.turn (by rw [hpc]; rfl),
        fun _ => I.flight (by rw [hpc]; rfl), fun h => by (rcases h with h | h <;> cases h),
        (fun c h => by cases h; exact hb _ ⟨hblob, by rw [hpc]⟩), (fun h => by cases h),
        fun _ => I.reserved (by simp [looping, hpc, inFlight])⟩
  | roundDecide c =>
    simp only [wstep, hpc] at h
    split at h <;> cases h
    · have I := I hblob
      exact ⟨I.mask, I.lead, (fun h => by cases h), fun _ => I.turn (by rw [hpc]; rfl),
        fun _ => I.flight (by rw [hpc]; rfl), fun h => by (rcases h with h | h <;> cases h),
        (fun _ h => by cases h), (fun h => by cases h),
        fun _ => I.reserved (by simp [looping, hpc, inFlight])⟩
    · exact (I hblob).refused rfl rfl rfl (by simp) rfl
    · have I := I hblob
      exact I.granted W.fits (by rw [hpc]; rfl) ‹_› rfl rfl (by simp) (by simp)
        (fun _ => ⟨rfl, by rw [hpc]; rfl⟩) (fun _ => I.asked c hpc)
  | hashNext =>
    simp only [wstep, hpc] at h
    split at h <;> cases h
    · exact (I hblob).keep rfl (by rw [hpc]; rfl) rfl rfl (by simp)
        (fun h => by simp [looping, inFlight] at h)
    · have hblob : w.m.job.blob = b.1.blob := by
        simpa only [CpuWorker.hashNext, job_signed] using hblob
      have I := I hblob
      have hn := nonce_signed (C := C) W.length
      refine ⟨?_, ?_, fun _ h => ?_, (fun h => by cases h), (fun h => by cases h),
        fun h => by (rcases h with h | h <;> cases h), (fun _ h => by cases h),
        (fun h => by cases h), fun _ => ?_⟩ <;>
        simp only [CpuWorker.hashNext, job_signed, mask_signed, rounds_signed, reserved_signed, hn]
      · exact I.mask
      · exact I.lead
      · exact I.left (by rw [hpc]; rfl) ((reserved_signed C w.m).symm.trans h)
      · exact I.reserved (by simp [looping, hpc, inFlight])
  | consume k =>
    simp only [wstep, hpc] at h; cases h
    by_cases hz : s.nonce.sequence = 0
    · rw [if_pos hz] at hblob ⊢
      rw [ret_m] at hblob
      exact (I hblob).ret (by rw [hpc]; rfl) k
    · rw [if_neg hz] at hblob ⊢
      exact (I hblob).keep rfl (by rw [hpc]; rfl) rfl rfl (by simp)
        (fun h => by simp [looping, inFlight] at h)
  | sleepCheck k =>
    simp only [wstep, hpc] at h; cases h
    by_cases hz : s.nonce.sequence = 0
    · rw [if_pos hz] at hblob ⊢
      rw [ret_m] at hblob
      exact (I hblob).ret (by rw [hpc]; rfl) k
    · rw [if_neg hz] at hblob ⊢
      exact (I hblob).keep rfl (by rw [hpc]; rfl) rfl rfl (by simp)
        (fun h => by simp [looping, inFlight] at h)
  | done => simp [wstep, hpc] at h
  | fault => simp [wstep, hpc] at h
  | _ =>
    simp only [wstep, hpc] at h; cases h
    split at hblob <;> rename_i hc <;> simp only [hc, if_true, if_false, Bool.false_eq_true] <;> first
      | exact (I hblob).ret (by rw [hpc]; rfl) _
      | exact (I hblob).keep rfl (by rw [hpc]; rfl) rfl rfl (by simp)
          (fun h => by simp [looping, inFlight] at h)

/-! ## Steps of a worker: what it owes -/

theorem owes_keep {b : Bytes} {w w' : CpuWorker} {x : Nat} (h : Owes b w' x)
    (hp : plain w.pc = true) (hp' : plain w'.pc = true) (hm : w'.m = w.m) : Owes b w x := by
  rw [owes_plain hp', hm] at h
  rw [owes_plain hp]; exact h

theorem owes_refused {b : Bytes} {w : CpuWorker} {x : Nat} (hp : plain w.pc = true)
    (hr : w.m.reserved = false) : ¬ Owes b w x := by
  rw [owes_plain hp, hr]
  rintro ⟨-, h, -⟩; cases h

theorem rest_signed {C : Crypto} {m : WorkerJob} (hm : m.blob.length = kMaxBlobSize) (x : Nat) :
    Rest (signed C m) x ↔ Rest m x := by
  simp only [Rest, job_signed, rounds_signed, nonce_signed hm]

theorem rest_of_grant {m : WorkerJob} (hf : m.Fits) (hm : m.mask = m.job.nonceMask)
    (h0 : m.rounds % kReserveCount = 0) {c : Nat} {p : Bool}
    (hd : Nonce.decision kReserveCount m.mask c = .ok p) {x : Nat} (hx : Rest (m.grant c) x) :
    c ≤ x ∧ x < c + kReserveCount := by
  have hlow := (nonce_of_grant hf hm hd).2.1
  have hr : (m.grant c).rounds % kReserveCount = 0 := h0
  have hj : (m.grant c).job = m.job := rfl
  rw [Rest, hr, hj, hlow] at hx
  omega

/-- A step of a worker takes what it owes from what it owed, without the nonce
of a completed hash, or from the range it has just fetched. -/
theorem owes_wstep {C : Crypto} {ok : Bool} {s s' : Shared} {w w' : CpuWorker} {b : Bytes}
    (W : WorkerOk w) (I : w.m.job.blob = b → Numbers w) (h : wstep C ok s w = some (s', w'))
    {x : Nat} (hx : Owes b w' x) :
    (Owes b w x ∧ (w.pc = .hashNext → x ≠ low w.m.job w.l.nonce)) ∨
    (s'.nonce.counter = s.nonce.counter + kReserveCount ∧ s.nonce.counter ≤ x ∧
      x < s.nonce.counter + kReserveCount) := by
  cases hpc : w.pc with
  | takeJob k =>
    simp only [wstep, hpc] at h
    split at h <;> cases h
    exact .inl ⟨owes_keep hx (by rw [hpc]; rfl) rfl rfl, by simp⟩
  | addSequence k j =>
    simp only [wstep, hpc] at h; cases h
    refine .inl ⟨?_, by simp⟩
    rw [owes_plain rfl] at hx
    rw [owes_plain (by rw [hpc]; rfl)]; exact hx
  | addJob k j =>
    simp only [wstep, hpc] at h
    split at h <;> cases h
    · exact .inl ⟨owes_keep hx (by rw [hpc]; rfl) rfl rfl, by simp⟩
    · exact absurd hx.2 not_false
  | saveFetch k =>
    simp only [wstep, hpc] at h
    split at h <;> cases h
    · exact absurd hx (owes_refused rfl rfl)
    · exact .inr ⟨rfl, hx.2⟩
  | saveDecide k c =>
    simp only [wstep, hpc] at h
    split at h <;> cases h
    · exact absurd hx.2 not_false
    · exact absurd hx (owes_refused rfl rfl)
    · rw [owes_plain rfl] at hx
      have I := I hx.1
      refine .inl ⟨⟨hx.1, ?_⟩, by simp⟩
      rw [hpc]
      exact rest_of_grant W.fits I.mask (I.turn (by rw [hpc]; rfl)) ‹_› hx.2.2
  | bindVm k =>
    simp only [wstep, hpc] at h
    split at h <;> cases h
    · exact .inl ⟨owes_keep hx (by rw [hpc]; rfl) rfl rfl, by simp⟩
    · rename_i d _
      refine .inl ⟨owes_keep hx (by rw [hpc]; rfl) ?_ (ret_m (w.bindVm d ok) k), by simp⟩
      cases k <;> rfl
  | body =>
    simp only [wstep, hpc] at h
    split at h <;> cases h
    · exact .inl ⟨owes_keep hx (by rw [hpc]; rfl) rfl rfl, by simp⟩
    · refine .inl ⟨owes_keep hx (by rw [hpc]; rfl) ?_ rfl, by simp⟩
      dsimp only; split <;> rfl
  | hashFirst =>
    simp only [wstep, hpc] at h
    split at h <;> cases h
    · exact .inl ⟨owes_keep hx (by rw [hpc]; rfl) rfl rfl, by simp⟩
    · refine .inl ⟨?_, by simp⟩
      rw [owes_plain rfl] at hx
      simp only [CpuWorker.hashFirst, job_signed, reserved_signed, rest_signed W.length] at hx
      rw [owes_plain (by rw [hpc]; rfl)]; exact hx
  | round =>
    have hmod : (w.m.rounds + 1) &&& (kReserveCount - 1) = (w.m.rounds + 1) % kReserveCount :=
      Nat.and_two_pow_sub_one_eq_mod _ 15
    simp only [wstep, hpc, hmod] at h
    refine .inl ⟨?_, by simp⟩
    rw [owes_plain (by rw [hpc]; rfl)]
    split at h <;> cases h
    · have I := I hx.1
      have hx' : x = low w.m.job w.l.nonce := hx.2
      refine ⟨hx.1, I.reserved (by simp [looping, hpc, inFlight]), ?_⟩
      rw [Rest, hx', I.here (.inr hpc)]
      unfold kReserveCount; omega
    · rename_i h0
      have I := I hx.1
      have hr := I.reserved (by simp [looping, hpc, inFlight])
      have hle := I.left (by rw [hpc]; rfl) hr
      obtain ⟨hj, -, -, -, hlow, hlt, hro⟩ := round_of_advance W.fits rfl h0 hle
      refine ⟨hx.1, hr, ?_⟩
      rcases hx.2 with hx | hx
      · have hx : x = low w.m.job w.l.nonce := hx
        rw [Rest, hx, I.here (.inr hpc)]; omega
      · simp only [Rest, hj, hlow, hro] at hx
        rw [Rest]; omega
  | roundFetch =>
    simp only [wstep, hpc] at h
    split at h <;> cases h
    · exact absurd hx (owes_refused rfl rfl)
    · rcases hx.2 with hl | hl
      · exact .inl ⟨⟨hx.1, by rw [hpc]; exact hl⟩, by simp⟩
      · exact .inr ⟨rfl, hl⟩
  | roundDecide c =>
    simp only [wstep, hpc] at h
    split at h <;> cases h
    · exact .inl ⟨⟨hx.1, by rw [hpc]; exact .inl hx.2⟩, by simp⟩
    · exact absurd hx (owes_refused rfl rfl)
    · have I := I hx.1
      refine .inl ⟨⟨hx.1, ?_⟩, by simp⟩
      rw [hpc]
      rcases hx.2 with hl | hl
      · exact .inl hl
      · exact .inr (rest_of_grant W.fits I.mask (I.turn (by rw [hpc]; rfl)) ‹_› hl)
  | hashNext =>
    simp only [wstep, hpc] at h
    split at h <;> cases h
    · have I := I hx.1
      rw [owes_plain rfl] at hx
      have hpast := I.past hpc
      refine .inl ⟨⟨hx.1, by rw [hpc]; exact .inr hx.2.2⟩, fun _ he => ?_⟩
      have := hx.2.2.1
      simp only at this; omega
    · rw [owes_plain rfl] at hx
      simp only [CpuWorker.hashNext, job_signed, reserved_signed, rest_signed W.length] at hx
      have hpast := (I hx.1).past hpc
      refine .inl ⟨⟨hx.1, by rw [hpc]; exact .inr hx.2.2⟩, fun _ he => ?_⟩
      have := hx.2.2.1
      omega
  | consume k =>
    simp only [wstep, hpc] at h; cases h
    refine .inl ⟨?_, by simp⟩
    split at hx
    · exact owes_keep hx (by rw [hpc]; rfl) (by cases k <;> rfl) (ret_m w k)
    · exact owes_keep hx (by rw [hpc]; rfl) rfl rfl
  | sleepCheck k =>
    simp only [wstep, hpc] at h; cases h
    refine .inl ⟨?_, by simp⟩
    split at hx
    · exact owes_keep hx (by rw [hpc]; rfl) (by cases k <;> rfl) (ret_m w k)
    · exact owes_keep hx (by rw [hpc]; rfl) rfl rfl
  | pausedCheck =>
    simp only [wstep, hpc] at h; cases h
    refine .inl ⟨?_, by simp⟩
    split at hx
    · exact owes_keep hx (by rw [hpc]; rfl) rfl rfl
    · exact owes_keep hx (by rw [hpc]; rfl) rfl rfl
  | done => simp [wstep, hpc] at h
  | fault => simp [wstep, hpc] at h
  | _ =>
    simp only [wstep, hpc] at h; cases h
    refine .inl ⟨owes_keep hx (by rw [hpc]; rfl) ?_ rfl, by simp⟩
    split <;> rfl

/-! ## The miner -/

/-- The completed hashes of the blob `b`. -/
def hashes (b : Bytes) : List Event → List HashRec
  | [] => []
  | .hashed r :: t => if r.job.blob = b then r :: hashes b t else hashes b t
  | _ :: t => hashes b t

theorem hashes_cons {b : Bytes} {e : Event} (h : ∀ r, e ≠ .hashed r) (t : List Event) :
    hashes b (e :: t) = hashes b t := by
  cases e with
  | hashed r => exact absurd rfl (h r)
  | _ => rfl

/-- No worker is at the blob yet. -/
def Fresh (b : PoolJob) (s : Sys) : Prop := ∀ w ∈ s.ws, w.m.job.blob ≠ b.1.blob

/-- The blob stays current and the counter is not reset. Read in the state
before the step. -/
def Period (b : PoolJob) (s : Sys) : Lbl → Prop
  | .main => match s.main.pc with
    | .sjStore j => j.1.blob = b.1.blob
    | .hReset => s.main.reset = false
    | _ => True
  | _ => True

/-- And no worker starts to hash the blob after it was refused a range. -/
def Ok (b : PoolJob) (s : Sys) (l : Lbl) : Prop :=
  Period b s l ∧ match l with
    | .w i _ => ∀ w ∈ s.ws[i]?, w.pc = .hashFirst → w.m.job.blob = b.1.blob → w.m.reserved = true
    | _ => True

instance (b : PoolJob) (s : Sys) (l : Lbl) : Decidable (Period b s l) := by
  induction l using Lbl.casesOn with
  | main =>
    unfold Period
    induction s.main.pc using MainPc.casesOn <;> dsimp only <;> infer_instance
  | _ => exact isTrue trivial

instance (b : PoolJob) (s : Sys) (l : Lbl) : Decidable (Ok b s l) := by
  unfold Ok; induction l using Lbl.casesOn <;> infer_instance

/-- What the workers owe and have spent since the history was `new` shorter. -/
def ledger (b : PoolJob) (new : List Event) (s : Sys) : Ledger Nat where
  next := s.sh.nonce.counter
  owed i := { x | ∃ w, s.ws[i]? = some w ∧ Owes b.1.blob w x }
  spent := (hashes b.1.blob new).map fun r => low r.job r.nonce

structure Inv (b : PoolJob) (s : Sys) (new : List Event) : Prop where
  numbers : ∀ w ∈ s.ws, w.m.job.blob = b.1.blob → Numbers w
  sound : (ledger b new s).Sound
  bits : ∀ r ∈ hashes b.1.blob new, r.job.blob = b.1.blob ∧ r.job.Valid ∧
    lead r.job r.nonce = lead r.job r.job.nonce

theorem inv_fresh {b : PoolJob} {s : Sys} (h : Fresh b s) : Inv b s [] where
  numbers w hw hb := absurd hb (h w hw)
  sound := .empty _ fun _ _ ⟨w, hw, ho⟩ => h w (List.mem_of_getElem? hw) ho.1
  bits _ h := by cases h

/-- The main thread and the queue draw and spend nothing. -/
theorem inv_frame {b : PoolJob} {s s' : Sys} {new new' : List Event} (I : Inv b s new)
    (hws : ∀ (i : Nat) (w : CpuWorker), s'.ws[i]? = some w → s.ws[i]? = some w ∨ w.m.job = {})
    (hc : s'.sh.nonce.counter = s.sh.nonce.counter)
    (hh : hashes b.1.blob new' = hashes b.1.blob new) : Inv b s' new' := by
  have hne : ∀ {w : CpuWorker}, w.m.job = {} → w.m.job.blob ≠ b.1.blob := by
    intro w hw hb
    rw [hw] at hb
    exact (valid_of_blob (.inl rfl) b hb).1 rfl
  refine ⟨fun w hw hb => ?_, ?_, hh ▸ I.bits⟩
  · obtain ⟨i, hi⟩ := List.getElem?_of_mem hw
    rcases hws i w hi with h | h
    · exact I.numbers w (List.mem_of_getElem? h) hb
    · exact absurd hb (hne h)
  · have := I.sound.step (.drop (ledger b new' s').owed fun i x hx => ?_)
    · simpa only [ledger, hc, hh] using this
    · obtain ⟨w, hw, ho⟩ := hx
      rcases hws i w hw with h | h
      · exact ⟨w, h, ho⟩
      · exact absurd ho.1 (hne h)

theorem inv_w {C : Crypto} {b : PoolJob} {s s' : Sys} {i : Nat} {ok : Bool} {new : List Event}
    (W : WorkersOk s) (I : Inv b s new) (hok : Ok b s (.w i ok))
    (h : step C s (.w i ok) = some s') :
    ∃ es, s'.sh.hist = es ++ s.sh.hist ∧ Inv b s' (es ++ new) := by
  obtain ⟨w, sh', w', hw, hr, rfl⟩ := step_w h
  have hmem := List.mem_of_getElem? hw
  have Ww := W.ws w hmem
  have hbelow : ∀ x, Owes b.1.blob w x → x < s.sh.nonce.counter := fun x hx =>
    I.sound.below i x ⟨w, hw, hx⟩
  have hnum : ∀ v ∈ s.ws.set i w', v.m.job.blob = b.1.blob → Numbers v := by
    intro v hv hb
    rcases List.mem_or_eq_of_mem_set hv with hv | rfl
    · exact I.numbers v hv hb
    · exact numbers_wstep b (hok.2 w hw) Ww (I.numbers w hmem) hbelow hr hb
  have howe := fun x (hx : Owes b.1.blob w' x) => owes_wstep Ww (I.numbers w hmem) hr hx
  obtain ⟨hi, -⟩ := List.getElem?_eq_some_iff.mp hw
  -- what party `j` owes afterwards
  have hself : ∀ x, x ∈ (ledger b new { s with sh := sh', ws := s.ws.set i w' }).owed i →
      Owes b.1.blob w' x := by
    rintro x ⟨v, hv, ho⟩
    rw [List.getElem?_set_self hi] at hv
    cases hv; exact ho
  have hother : ∀ j, j ≠ i →
      (ledger b new { s with sh := sh', ws := s.ws.set i w' }).owed j ⊆ (ledger b new s).owed j := by
    rintro j hj x ⟨v, hv, ho⟩
    rw [List.getElem?_set_ne (Ne.symm hj)] at hv
    exact ⟨v, hv, ho⟩
  have hdrop : sh'.nonce.counter = s.sh.nonce.counter → ∀ j,
      (ledger b new { s with sh := sh', ws := s.ws.set i w' }).owed j ⊆ (ledger b new s).owed j := by
    intro hc j x hx
    by_cases hj : j = i
    · subst hj
      rcases howe x (hself x hx) with ⟨ho, -⟩ | ⟨hd, -⟩
      · exact ⟨w, hw, ho⟩
      · unfold kReserveCount at hd; omega
    · exact hother j hj hx
  rcases CpuWorker.wstep_shared hr with ⟨rfl, -⟩ | ⟨-, -, -, rfl⟩ | ⟨c, p, -, -, -, rfl⟩ |
    ⟨vm, hpc, -, -, rfl⟩
  · exact ⟨[], rfl, hnum, I.sound.step (.drop _ (hdrop rfl)), I.bits⟩
  · refine ⟨[.reserve w.m.job], rfl, hnum, ?_, I.bits⟩
    refine I.sound.step (.draw i kReserveCount _ (fun x hx => ?_) hother)
    rcases howe x (hself x hx) with ⟨ho, -⟩ | ⟨-, hd⟩
    · exact .inl ⟨w, hw, ho⟩
    · exact .inr hd
  · exact ⟨[], rfl, hnum, I.sound.step (.drop _ (hdrop rfl)), I.bits⟩
  · refine ⟨[.hashed (w.finish C s.sh.rx vm)], rfl, hnum, ?_, ?_⟩
    · by_cases hb : w.m.job.blob = b.1.blob
      · have hs : hashes b.1.blob (.hashed (w.finish C s.sh.rx vm) :: new) =
            w.finish C s.sh.rx vm :: hashes b.1.blob new := if_pos hb
        have := I.sound.step (.spend i (low w.m.job w.l.nonce)
          (ledger b new { s with sh := _, ws := s.ws.set i w' }).owed
          ⟨w, hw, hb, by rw [hpc]; exact .inl rfl⟩ (fun x hx => ?_) hother)
        · simp only [ledger, List.singleton_append, hs, List.map_cons]
          exact this
        · rcases howe x (hself x hx) with ⟨ho, hne⟩ | ⟨hd, -⟩
          · exact ⟨⟨w, hw, ho⟩, hne hpc⟩
          · exact absurd hd (by unfold kReserveCount; simp)
      · have hs : hashes b.1.blob (.hashed (w.finish C s.sh.rx vm) :: new) =
            hashes b.1.blob new := if_neg hb
        have := I.sound.step (.drop _ (hdrop rfl))
        simpa only [ledger, List.singleton_append, hs] using this
    · intro r hr
      rw [List.singleton_append, hashes] at hr
      split at hr
      · rename_i hb
        rcases List.mem_cons.mp hr with rfl | hr
        · exact ⟨hb, valid_of_blob Ww.job b hb, (I.numbers w hmem hb).flight (by rw [hpc]; rfl)⟩
        · exact I.bits r hr
      · exact I.bits r hr

theorem inv_step {C : Crypto} {b : PoolJob} {s s' : Sys} {l : Lbl} {new : List Event}
    (W : WorkersOk s) (I : Inv b s new) (hok : Ok b s l) (h : step C s l = some s') :
    ∃ es, s'.sh.hist = es ++ s.sh.hist ∧ Inv b s' (es ++ new) := by
  cases l with
  | ev e =>
    obtain ⟨hw, hn, -, -, hh, -, -, -⟩ := evStep_frame (step_ev h).2
    refine ⟨[], hh, inv_frame I (fun i w hi => .inl ?_) (by rw [hn]) rfl⟩
    rw [← hw]; exact hi
  | main =>
    have h : s.mainStep = some s' := h
    have hc : s'.sh.nonce.counter = s.sh.nonce.counter := by
      rcases mainStep_nonce h with ⟨p, hn⟩ | ⟨-, hn⟩ | ⟨-, hn⟩ | ⟨hpc, hr, -⟩
      · rw [hn]; rfl
      · rw [hn]; rfl
      · rw [hn]; rfl
      · have : s.main.reset = false := by simpa only [Period, hpc] using hok.1
        rw [hr] at this; cases this
    have hws : ∀ (i : Nat) (w : CpuWorker), s'.ws[i]? = some w →
        s.ws[i]? = some w ∨ w.m.job = {} := by
      intro i w hi
      rcases mainStep_ws h with hw | ⟨k, -, -, hw⟩ | ⟨d, a, -, hw⟩ <;> rw [hw] at hi
      · exact .inl hi
      · cases hi
      · obtain ⟨e, -, rfl⟩ := List.mem_map.mp (List.mem_of_getElem? hi)
        exact .inr rfl
    rcases mainStep_hist h with hh | ⟨e, hh, he⟩
    · exact ⟨[], hh, inv_frame I hws hc rfl⟩
    · exact ⟨[e], hh, inv_frame I hws hc (hashes_cons he new)⟩
  | bg a =>
    obtain ⟨q, -, rfl⟩ := step_bg h
    exact ⟨[], rfl, inv_frame I (fun _ _ hi => .inl hi) rfl rfl⟩
  | w i ok => exact inv_w W I hok h

theorem inv_run {C : Crypto} {c : CpuConfig} {b : PoolJob} {s₀ s : Sys} {ls : List Lbl}
    (h₀ : (lts C c).Reachable s₀) (hf : Fresh b s₀)
    (r : ((lts C c).restrict (Ok b)).Run s₀ ls s) :
    ∃ new, s.sh.hist = new ++ s₀.sh.hist ∧ Inv b s new := by
  have hstep : ∀ s l s', ((lts C c).Reachable s ∧
      ∃ new, s.sh.hist = new ++ s₀.sh.hist ∧ Inv b s new) →
      ((lts C c).restrict (Ok b)).step s l s' →
      (lts C c).Reachable s' ∧ ∃ new, s'.sh.hist = new ++ s₀.sh.hist ∧ Inv b s' new := by
    rintro s l s' ⟨hr, new, hh, I⟩ ⟨hok, hs⟩
    obtain ⟨es, he, I'⟩ := inv_step ((workers_inductive C c).reachable hr) I hok hs
    exact ⟨hr.step hs, es ++ new, by rw [he, hh, List.append_assoc], I'⟩
  exact (r.preserves hstep ⟨h₀, [], rfl, inv_fresh hf⟩).2

/-- With the job's own bits above the mask the low part determines the nonce,
also between a job with a preset nonce byte and one without. -/
theorem low_eq {j k : Job} (hj : j.Valid) (hk : k.Valid) (hb : j.blob = k.blob)
    (ho : j.nonceOffset = k.nonceOffset) {n : Nat} (hlj : lead j n = lead j j.nonce)
    (hlk : lead k n = lead k k.nonce) : low j n = low k n := by
  have hn : j.nonce = k.nonce := by unfold Job.nonce; rw [hb, ho]
  have hlow : ∀ {j : Job}, j.nonce = 0 → lead j n = lead j j.nonce → low j n = n := by
    intro j h0 hl
    rw [h0, lead, lead, Nat.zero_div] at hl
    exact Nat.mod_eq_of_lt ((Nat.div_eq_zero_iff_lt (Nat.succ_pos _)).mp hl)
  by_cases hnh : j.nicehash = k.nicehash
  · have hm : j.nonceMask = k.nonceMask := by unfold Job.nonceMask; rw [hnh]
    rw [low, low, hm]
  · have h0 : j.nonce = 0 := by
      cases hjn : j.nicehash with
      | false => exact hj.2.2.2 hjn
      | true =>
        cases hkn : k.nicehash with
        | false => rw [hn]; exact hk.2.2.2 hkn
        | true => rw [hjn, hkn] at hnh; exact absurd rfl hnh
    rw [hlow h0 hlj, hlow (hn ▸ h0) hlk]

/-- Two nicehash jobs with one blob. -/
def nhJob (x : Bool) : Job :=
  { mkJob .RX_0 [1] 1 (if x then "a" else "b") with nicehash := true }

theorem nhJob_valid (x : Bool) : (nhJob x).Valid := by
  have hv := mkJob_valid (a := .RX_0) (by decide) [1] 1 (if x then "a" else "b")
  exact ⟨hv.1, hv.2.1, hv.2.2.1, fun h => by cases h⟩

theorem nhJob_nonce (x : Bool) : (nhJob x).nonce = 0 :=
  (mkJob_valid (a := .RX_0) (by decide) [1] 1 (if x then "a" else "b")).2.2.2 rfl

def pool (x : Bool) : PoolJob := ⟨nhJob x, nhJob_valid x⟩

/-- The queue once it is done with their seed. -/
def ready : Rx where
  storage := some
    { ready := true, isAllocated := true, seed := .ofJob (nhJob true), dataset := some
        { full := true, cacheSeed := [1], cache := some ⟨.monero, [1]⟩, cacheEpoch := 1,
          mem := some ⟨.monero, [1]⟩, memEpoch := 1 } }
  seed := .ofJob (nhJob true)
  applies := 2

/-- A worker with the dataset at hand. -/
def worker (pc : WPc) (m : WorkerJob) (l : Locals) : CpuWorker :=
  { algorithm := .RX_0, pc := pc, m := m, vm := some ⟨true, 1⟩, seed := [1], l := l }

/-- One worker mines, the main thread is between two events. -/
def mining (c : CpuConfig) (x r p : Bool) (q n : Nat) (w : CpuWorker) (h : List Event) : Sys where
  sh := { nonce := ⟨p, q, n⟩, job := nhJob x, rx := ready, hist := h }
  main := { algorithm := .RX_0, active := true, reset := r, userJobId := (nhJob x).id,
            threads := [⟨.RX_0, 0⟩], config := c }
  ws := [w]

abbrev run (s : Sys) (ls : List Lbl) : Option Sys :=
  LTS.execOk (step .sample) (Period (pool true)) s ls

theorem nhJob_blob (x y : Bool) : (nhJob x).isEqualBlob (nhJob y) = true := decide_eq_true rfl
theorem nhJob_ne (x : Bool) : (nhJob (!x)).isEqual (nhJob x) = false := by cases x <;> decide
theorem ready_nhJob (x : Bool) : ready.isReady (nhJob x) = true := rfl
theorem dataset_nhJob (x : Bool) : (ready.dataset (nhJob x)).isSome = true := rfl
theorem nhJob_seed (x : Bool) : (nhJob x).seed = [1] := rfl
theorem dataset_ready : ready.storage.bind (·.dataset) = some
    { full := true, cacheSeed := [1], cache := some ⟨.monero, [1]⟩, cacheEpoch := 1,
      mem := some ⟨.monero, [1]⟩, memEpoch := 1 } := rfl
theorem isEqualList_self (d : CpuLaunchData) : CpuLaunchData.isEqualList [d] [d] = true := by
  simp [CpuLaunchData.isEqualList, CpuLaunchData.isEqual]

/-- A step of the main thread, while the blob stays. -/
theorem run_mains (s : Sys) (k : Nat) : run s (mains (k + 1)) =
    if Period (pool true) s .main then
      (step .sample s .main).bind fun s' => run s' (mains k) else none := rfl

theorem run_setJob (c : CpuConfig) (x r p : Bool) (q n : Nat) (w : CpuWorker) (h : List Event)
    (k : Nat) : run (mining c x r p q n w h) (.ev (.setJob (pool !x)) :: mains k) =
      run { mining c x r p q n w h with
        main := { (mining c x r p q n w h).main with pc := .sjReady (pool !x) } } (mains k) := rfl

section
variable {c : CpuConfig} (hc : c.get .RX_0 = [⟨.RX_0, 0⟩]) (he : c.enabled = true)
include hc he

/-- Another job with the same blob is stored and handled at once. -/
theorem run_job (x r p : Bool) (q n : Nat) (w : CpuWorker) (h : List Event) :
    run (mining c x r p q n w h) (.ev (.setJob (pool !x)) :: mains 8) =
      some (mining c (!x) false false (q + 1) n w
        (.unpaused :: .handling :: .stored (nhJob !x) :: h)) := by
  have ha : ∀ y, (nhJob y).algorithm = .RX_0 := fun _ => rfl
  have hb : ∀ y, (nhJob y).blob = (nhJob true).blob := fun _ => rfl
  rw [run_setJob]
  iterate 8
    rw [run_mains]
    simp only [Period, step, mining, goto, mainStep, pool, ha, hb !x, ne_eq, if_false,
      if_true, Option.bind_some, ready_nhJob, nhJob_blob, Bool.not_true, Bool.and_false, hc, he,
      isEqualList_self, and_self, List.cons_ne_nil, not_false_eq_true, After.pc, setNonce, log,
      Nonce.pause, Nonce.touch, Bool.and_self, Bool.false_eq_true, Bool.true_eq_false]
  rfl
end

variable {c : CpuConfig} {x r p : Bool} {q n : Nat} {m : WorkerJob} {l : Locals} {h : List Event}

/-- A step of the only worker is a step of the system. -/
theorem run_works (sh : Shared) (mt : Main) (w : CpuWorker) (k : Nat) :
    run ⟨sh, mt, [w]⟩ (works 0 (k + 1)) =
      (w.wstep .sample true sh).bind fun r => run ⟨r.1, mt, [r.2]⟩ (works 0 k) := by
  show (if True then (step .sample ⟨sh, mt, [w]⟩ (.w 0 true)).bind fun s' =>
    LTS.execOk (step .sample) (Period (pool true)) s' (works 0 k) else none) = _
  rw [if_pos trivial]
  show (((w.wstep .sample true sh).map fun r => (⟨r.1, mt, [r.2]⟩ : Sys)).bind fun s' =>
    LTS.execOk (step .sample) (Period (pool true)) s' (works 0 k)) = _
  rw [Option.bind_map]
  rfl

theorem run_works_zero (s : Sys) : run s (works 0 0) = some s := rfl

theorem run_guard (hq : q ≠ m.sequence) :
    run (mining c x r false q n (worker .guard m l) h) (works 0 2) =
      some (mining c x r false q n (worker (.consume .outer) m l) h) := by
  simp only [mining, run_works, worker, wstep, Nonce.isOutdated]
  simp [run_works_zero, hq]

/-- A worker consumes the job: up to its `fetch_add`. -/
theorem run_fetch (k : Ret) (hj : m.job = nhJob !x) :
    run (mining c x r false (q + 1) n (worker (.consume k) m l) h) (works 0 5) =
      some (mining c x r false (q + 1) (n + kReserveCount)
        (worker (.saveDecide k n) ({ m with sequence := q + 1 }.save (nhJob x)) l)
        (.reserve (nhJob x) :: h)) := by
  have hr : Nonce.refuses kReserveCount (nhJob x).nonceMask = false := Nonce.refuses_nonceMask _
  simp only [mining, run_works, worker, wstep]
  simp [run_works_zero, hj, nhJob_ne, WorkerJob.save, hr, Nonce.fetchAdd]

theorem run_grant {k : Ret} {a : Nat} (hd : Nonce.decision kReserveCount m.mask a = .ok p) :
    run (mining c x r false q n (worker (.saveDecide k a) m l) h) (works 0 1) =
      some (mining c x r p q n (worker (.poll k) (m.grant a) l) h) := by
  simp only [mining, run_works, worker, wstep, hd]
  simp [run_works_zero, Nonce.pause]

theorem run_refused {k : Ret} {a : Nat} (hd : Nonce.decision kReserveCount m.mask a = .fail false) :
    run (mining c x r false q n (worker (.saveDecide k a) m l) h) (works 0 1) =
      some (mining c x r false q n (worker (.poll k) { m with reserved := false } l) h) := by
  simp only [mining, run_works, worker, wstep, hd]
  simp [run_works_zero, Nonce.pause]

/-- With the dataset the worker returns to the outer loop, and from there into
the hashing loop or, paused, into the wait. -/
theorem run_back (hj : m.job = nhJob x) :
    run (mining c x r p (q + 1) n (worker (.poll .outer) m l) h) (works 0 4) =
      some (mining c x r p (q + 1) n
        (worker (if p then .waitPaused else .guard) m (if p then l else {})) h) := by
  simp only [mining, run_works, worker, wstep]
  cases p <;>
    simp [run_works_zero, hj, dataset_nhJob, dataset_ready, CpuWorker.bindVm, ret, nhJob_seed]

/-- Out of the wait. -/
theorem run_wake :
    run (mining c x r false (q + 1) n (worker .waitPaused m l) h) (works 0 2) =
      some (mining c x r false (q + 1) n (worker (.consume .loop) m l) h) := by
  simp only [mining, run_works, worker, wstep]
  simp [run_works_zero]

theorem run_enter (hj : m.job = nhJob x) :
    run (mining c x r false q n (worker (.poll .loop) m l) h) (works 0 2) =
      some (mining c x r false q n (worker .guard m {}) h) := by
  simp only [mining, run_works, worker, wstep]
  simp [run_works_zero, hj, dataset_nhJob, dataset_ready, CpuWorker.bindVm, ret, nhJob_seed]

/-- The first hash of a worker that has just added a job: its nonce is the one
in the worker's buffer. -/
theorem run_hash (hj : m.job = nhJob x) (hq : m.sequence = q) (hr : m.rounds = 0) :
    ∃ s' rec, run (mining c x r false q n (worker .guard m {}) h) (works 0 5) = some s' ∧
      s'.sh.hist = .hashed rec :: h ∧ rec.job = nhJob x ∧ rec.nonce = m.nonce := by
  have hl : (nhJob x).algorithm.l3 = Algorithm.l3 .RX_0 := rfl
  have hk : (nhJob x).ephKeys = none := rfl
  have hsg : signed .sample m = m := by rw [signed, hj, hk]
  have h1 : ¬ (kReserveCount - 1) % 2 = 0 := by decide
  let w₂ := (worker .hashFirst m { nonce := m.nonce }).hashFirst .sample ready ⟨true, 1⟩
  let w₃ : CpuWorker := { w₂ with m := { m with rounds := 1 }.advance, pc := .hashNext }
  refine ⟨{ mining c x r false q n (w₃.hashNext .sample ready ⟨true, 1⟩)
      (.hashed (w₃.finish .sample ready ⟨true, 1⟩) :: h) with }, w₃.finish .sample ready ⟨true, 1⟩,
    ?_, rfl, hj, rfl⟩
  simp only [mining, run_works, worker, wstep, Nonce.isOutdated]
  simp [run_works_zero, worker, hj, hq, hr, hl, hsg, h1, CpuWorker.hashFirst, w₂, w₃]

theorem run_append {s s₁ s₂ : Sys} {ls ls' : List Lbl} (h : run s ls = some s₁)
    (h' : run s₁ ls' = some s₂) : run s (ls ++ ls') = some s₂ := by
  have h : LTS.execOk (step .sample) (Period (pool true)) s ls = some s₁ := h
  rw [run, LTS.execOk_append, h]; exact h'

/-- One job after the other with the same blob: each takes a range. -/
theorem run_cycle (hc : c.get .RX_0 = [⟨.RX_0, 0⟩]) (he : c.enabled = true) (hj : m.job = nhJob x)
    (hq : m.sequence = q) (hd : Nonce.decision kReserveCount 0xFFFFFF n = .ok p) :
    ∃ ls r' q' m' l' h', run (mining c x r false q n (worker .guard m l) h) ls =
        some (mining c (!x) r' p (q' + 1) (n + kReserveCount)
          (worker (if p then .waitPaused else .guard) m' l') h') ∧
      m'.job = nhJob !x ∧ m'.sequence = q' + 1 ∧ h <:+ h' := by
  have h₁ := run_job hc he x r false q n (worker .guard m l) h
  have h₂ := run_guard (c := c) (x := !x) (r := false) (q := q + 1) (n := n) (m := m) (l := l)
    (h := .unpaused :: .handling :: .stored (nhJob !x) :: h) (by omega)
  have h₃ := run_fetch (c := c) (x := !x) (r := false) (q := q) (n := n) (m := m) (l := l)
    (h := .unpaused :: .handling :: .stored (nhJob !x) :: h) .outer (by rw [hj, Bool.not_not])
  have h₄ := run_grant (c := c) (x := !x) (r := false) (q := q + 1) (n := n + kReserveCount)
    (m := { m with sequence := q + 1 }.save (nhJob !x)) (l := l) (k := .outer)
    (h := .reserve (nhJob !x) :: .unpaused :: .handling :: .stored (nhJob !x) :: h) hd
  have h₅ := run_back (c := c) (x := !x) (r := false) (p := p) (q := q) (n := n + kReserveCount)
    (m := ({ m with sequence := q + 1 }.save (nhJob !x)).grant n) (l := l)
    (h := .reserve (nhJob !x) :: .unpaused :: .handling :: .stored (nhJob !x) :: h) rfl
  refine ⟨_, _, _, _, _, _, run_append (run_append (run_append (run_append h₁ h₂) h₃) h₄) h₅,
    rfl, rfl, ?_⟩
  exact ⟨[.reserve (nhJob !x), .unpaused, .handling, .stored (nhJob !x)], rfl⟩

theorem decision_free {n : Nat} (h : n + 2 * kReserveCount ≤ 2 ^ 24) :
    Nonce.decision kReserveCount 0xFFFFFF n = .ok false := by
  have hm : Nonce.mask63 0xFFFFFF = 0xFFFFFF := by decide
  unfold Nonce.decision
  unfold kReserveCount at *
  rw [hm, if_neg (by omega), if_neg (by omega), if_neg (by omega)]

theorem run_cycles (hc : c.get .RX_0 = [⟨.RX_0, 0⟩]) (he : c.enabled = true) (k : Nat)
    (hj : m.job = nhJob x) (hq : m.sequence = q)
    (hn : n + (k + 1) * kReserveCount ≤ 2 ^ 24) :
    ∃ ls x' r' q' m' l' h', run (mining c x r false q n (worker .guard m l) h) ls =
        some (mining c x' r' false q' (n + k * kReserveCount) (worker .guard m' l') h') ∧
      m'.job = nhJob x' ∧ m'.sequence = q' ∧ h <:+ h' := by
  induction k with
  | zero =>
    refine ⟨[], x, r, q, m, l, h, ?_, hj, hq, List.suffix_rfl⟩
    rw [Nat.zero_mul, Nat.add_zero]; rfl
  | succ k ih =>
    have hle : n + (k + 1) * kReserveCount ≤ 2 ^ 24 := by
      rw [Nat.succ_mul] at hn; omega
    obtain ⟨ls, x', r', q', m', l', h', hr, hj', hq', hs⟩ := ih hle
    have hd : Nonce.decision kReserveCount 0xFFFFFF (n + k * kReserveCount) = .ok false := by
      refine decision_free ?_
      rw [Nat.succ_mul, Nat.succ_mul] at hn; omega
    obtain ⟨ls', r'', q'', m'', l'', h'', hr', hj'', hq'', hs'⟩ := run_cycle hc he hj' hq' hd
    have hk : n + (k + 1) * kReserveCount = n + k * kReserveCount + kReserveCount := by
      rw [Nat.succ_mul, Nat.add_assoc]
    rw [hk]
    exact ⟨_, _, _, _, _, _, _, run_append hr hr', hj'', hq'', hs.trans hs'⟩

theorem mask_nhJob (m : WorkerJob) (x : Bool) : (m.save (nhJob x)).mask = 0xFFFFFF := rfl

theorem nonce_refused (m : WorkerJob) {j : Job} (hv : j.Valid) :
    ({ m.save j with reserved := false }).nonce = j.nonce :=
  WorkerJob.nonce_save hv.room

/-- The last range, the pause, the next job: its first hash has the job's own nonce. -/
theorem run_exhausted (hc : c.get .RX_0 = [⟨.RX_0, 0⟩]) (he : c.enabled = true)
    (hj : m.job = nhJob x) (hq : m.sequence = q) (hn : n = 511 * kReserveCount) :
    ∃ ls s' rec x' h', run (mining c x r false q n (worker .guard m l) h) ls = some s' ∧
      s'.sh.hist = .hashed rec :: h' ∧ rec.job = nhJob x' ∧ rec.nonce = 0 ∧ h <:+ h' := by
  have hd : Nonce.decision kReserveCount 0xFFFFFF n = .ok true := by rw [hn]; decide
  have hd' : Nonce.decision kReserveCount 0xFFFFFF (n + kReserveCount) = .fail false := by
    rw [hn]; decide
  obtain ⟨ls, r', q', m', l', h', hr', hj', hq', hs⟩ :=
    run_cycle (l := l) (r := r) (h := h) hc he hj hq hd
  have h₁ := run_job hc he (!x) r' true (q' + 1) (n + kReserveCount) (worker .waitPaused m' l') h'
  rw [Bool.not_not] at h₁
  have h₂ := run_wake (c := c) (x := x) (r := false) (q := q' + 1) (n := n + kReserveCount)
    (m := m') (l := l') (h := .unpaused :: .handling :: .stored (nhJob x) :: h')
  have h₃ := run_fetch (c := c) (x := x) (r := false) (q := q' + 1) (n := n + kReserveCount)
    (m := m') (l := l') (h := .unpaused :: .handling :: .stored (nhJob x) :: h') .loop hj'
  have h₄ := run_refused (c := c) (x := x) (r := false) (q := q' + 1 + 1)
    (n := n + kReserveCount + kReserveCount) (m := { m' with sequence := q' + 1 + 1 }.save (nhJob x))
    (l := l') (h := .reserve (nhJob x) :: .unpaused :: .handling :: .stored (nhJob x) :: h')
    (k := .loop) (a := n + kReserveCount) (by rw [mask_nhJob]; exact hd')
  have h₅ := run_enter (c := c) (x := x) (r := false) (q := q' + 1 + 1)
    (n := n + kReserveCount + kReserveCount)
    (m := { { m' with sequence := q' + 1 + 1 }.save (nhJob x) with reserved := false })
    (l := l') (h := .reserve (nhJob x) :: .unpaused :: .handling :: .stored (nhJob x) :: h') rfl
  obtain ⟨s', rec, h₆, hh, hrj, hrn⟩ := run_hash (c := c) (x := x) (r := false) (q := q' + 1 + 1)
    (n := n + kReserveCount + kReserveCount)
    (m := { { m' with sequence := q' + 1 + 1 }.save (nhJob x) with reserved := false })
    (h := .reserve (nhJob x) :: .unpaused :: .handling :: .stored (nhJob x) :: h') rfl rfl rfl
  refine ⟨_, s', rec, x, _, run_append (run_append (run_append (run_append (run_append
    (run_append hr' h₁) h₂) h₃) h₄) h₅) h₆, hh, hrj, ?_, ?_⟩
  · exact hrn.trans ((nonce_refused { m' with sequence := q' + 1 + 1 } (nhJob_valid x)).trans
      (nhJob_nonce x))
  · exact hs.trans ⟨[.reserve (nhJob x), .unpaused, .handling, .stored (nhJob x)], rfl⟩

theorem hashes_append (b : Bytes) (es es' : List Event) :
    hashes b (es ++ es') = hashes b es ++ hashes b es' := by
  induction es with
  | nil => rfl
  | cons e es ih =>
    cases e with
    | hashed r =>
      simp only [List.cons_append, hashes, ih]
      split <;> rfl
    | _ => exact ih

/-- The first job is queued, done and reset. -/
def started : List Lbl :=
  .ev (.setJob (pool true)) :: mains 7 ++ bgs 8 ++ .ev .ready :: mains 3

/-- The worker is launched and completes its first hash. -/
def hashed : List Lbl := mains 6 ++ works 0 20

def outcome : Event → Option (Job × Nat)
  | .hashed r => some (r.job, r.nonce)
  | _ => none

/-- Both states, if `ok` holds along the second part. -/
def execBoth (ok : Sys → Lbl → Prop) [∀ s l, Decidable (ok s l)] : Option (Sys × Sys) :=
  (LTS.exec (step .sample) (init (threadsConfig 1)) started).bind fun s₀ =>
    (LTS.execOk (step .sample) ok s₀ hashed).map fun s => (s₀, s)

theorem execBoth_some {ok : Sys → Lbl → Prop} [∀ s l, Decidable (ok s l)] {s₀ s : Sys}
    (h : execBoth ok = some (s₀, s)) : (lts .sample (threadsConfig 1)).Reachable s₀ ∧
      LTS.execOk (step .sample) ok s₀ hashed = some s := by
  obtain ⟨s₁, h₁, h₂⟩ := Option.bind_eq_some_iff.mp h
  obtain ⟨s₂, h₂, he⟩ := Option.map_eq_some_iff.mp h₂
  cases he
  exact ⟨LTS.reachable_of_exec h₁, h₂⟩

/-- The state after the first hash, taken apart. -/
theorem hashed_mining : ∃ s₀ c r q m l h t rec, execBoth (Period (pool true)) =
      some (s₀, mining c true r false q kReserveCount (worker .guard m l) h) ∧ s₀.ws = [] ∧
    c.get .RX_0 = [⟨.RX_0, 0⟩] ∧ c.enabled = true ∧ m.job = nhJob true ∧ m.sequence = q ∧
    h = .hashed rec :: t ++ s₀.sh.hist ∧ rec.job = nhJob true ∧ rec.nonce = 0 := by
  obtain ⟨⟨s₀, s⟩, hs⟩ : ∃ r, execBoth (Period (pool true)) = some r :=
    Option.isSome_iff_exists.mp (by decide +kernel)
  have h₁ : (execBoth (Period (pool true))).map (fun r => (r.1.ws.length,
      r.2.sh.hist.drop 3 == r.1.sh.hist, r.2.sh.hist.head?.bind outcome)) =
      some (0, true, some (nhJob true, 0)) := by decide +kernel
  have h₂ : (execBoth (Period (pool true))).map (fun r => ((r.2.sh.nonce.paused,
      r.2.sh.nonce.counter), r.2.sh.job, r.2.sh.locked, r.2.sh.rx)) =
      some ((false, kReserveCount), nhJob true, false, ready) := by decide +kernel
  have h₃ : (execBoth (Period (pool true))).map (fun r => (r.2.main.pc, r.2.main.algorithm,
      r.2.main.active, r.2.main.enabled)) = some (.idle, .RX_0, true, true) := by decide +kernel
  have h₄ : (execBoth (Period (pool true))).map (fun r => (r.2.main.userJobId, r.2.main.threads,
      r.2.main.config.get .RX_0, r.2.main.config.enabled)) =
      some ((nhJob true).id, [⟨.RX_0, 0⟩], [⟨.RX_0, 0⟩], true) := by decide +kernel
  have h₅ : (execBoth (Period (pool true))).map (fun r => r.2.ws.map fun w =>
      (w.algorithm, w.pc, w.vm)) = some [(.RX_0, .guard, some ⟨true, 1⟩)] := by decide +kernel
  have h₆ : (execBoth (Period (pool true))).map (fun r => r.2.ws.map fun w =>
      (w.seed, w.m.job, w.m.sequence == r.2.sh.nonce.sequence)) =
      some [([1], nhJob true, true)] := by decide +kernel
  simp only [hs, Option.map_some, Option.some.injEq, Prod.mk.injEq, beq_iff_eq,
    List.length_eq_zero_iff] at h₁ h₂ h₃ h₄
  rw [hs] at h₅ h₆
  obtain ⟨⟨⟨p, q, n⟩, j, lk, rx, h⟩, ⟨pc, a, ac, en, r, ui, th, c⟩, ws⟩ := s
  dsimp only at h₁ h₂ h₃ h₄ h₅ h₆
  obtain ⟨⟨rfl, rfl⟩, rfl, rfl, rfl⟩ := h₂
  obtain ⟨rfl, rfl, rfl, rfl⟩ := h₃
  obtain ⟨rfl, rfl, hc, he⟩ := h₄
  obtain ⟨hws, hd, ho⟩ := h₁
  obtain ⟨w, rfl⟩ : ∃ w, ws = [w] := by
    cases ws with
    | nil => cases h₅
    | cons w t =>
      cases t with
      | nil => exact ⟨w, rfl⟩
      | cons v t => simp at h₅
  simp only [Option.map_some, List.map_cons, List.map_nil, Option.some.injEq, List.cons.injEq,
    Prod.mk.injEq, beq_iff_eq, and_true] at h₅ h₆
  obtain ⟨wa, wpc, m, wvm, ws, l⟩ := w
  dsimp only at h₅ h₆
  obtain ⟨rfl, rfl, rfl⟩ := h₅
  obtain ⟨rfl, hj, hq⟩ := h₆
  cases h with
  | nil => cases ho
  | cons e t =>
    cases e with
    | hashed rec =>
      simp only [List.head?_cons, Option.bind_some, outcome, Option.some.injEq, Prod.mk.injEq] at ho
      refine ⟨s₀, c, r, q, m, l, _, t.take 2, rec, hs, hws, hc, he, hj, hq, ?_, ho.1, ho.2⟩
      rw [← hd, List.cons_append, List.drop_succ_cons, List.take_append_drop]
    | _ => cases ho

end Rxs.L5.NonceUnique
