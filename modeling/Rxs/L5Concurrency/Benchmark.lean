import Mathlib.Data.Fintype.Card
import Rxs.Core.Ledger
import Rxs.Core.LTS
import Rxs.L2Machine.Nonce

/-!
# The benchmark

In a benchmark each worker draws its nonces one by one. The hash of a nonce is finished when the
next one has been drawn; its value goes into `BenchState::m_data` if the nonce is below the
size. A worker whose nonce is past the end reports `done` and ends. The last report sends the
completion event: `BenchState::start` sets how many reports there will be, and makes the event.

`Workers::start` starts the threads first and calls `BenchState::start` after. Nothing keeps a
worker from reporting before, as the miner is not paused when they start.

A job of RandomX without extra nonce has the mask `0xFFFFFFFF`. The hash of a nonce is what
the virtual machine makes of the job with that nonce: two threads or more do not mix `m_data`
into their jobs. The histories `added`, `early` and `reports` are no part of the source.

* `effect`: what a step of a worker does to the numbers it holds and to the rest.
* `inv_reachable`: the numbers are a ledger, from which none is lost.
* **`benchmark_done`**: all values once and one event, if and only if no report came before
  `BenchState::start`.
* `benchmark_lost`: a worker alone does all nonces before it, and the event is never sent.
-/
namespace Rxs.L5.Benchmark

open Rxs.Core

/-- `hash`: the eight bytes that are added, for each nonce. A size of zero is no benchmark. -/
structure Bench where
  size : Nat
  threads : Nat
  hash : Nat → BitVec 64
  size_pos : 0 < size
  size_lt : size < 2 ^ 32
  two_le_threads : 2 ≤ threads

/-- `async`: the event has been made. `sent` counts the calls of `send`.
mirrors src/backend/common/benchmark/BenchState.cpp:35-54 -/
structure BenchState where
  remaining : BitVec 32 := 0
  async : Bool := false
  data : BitVec 64 := 0
  sent : Nat := 0
  deriving DecidableEq, Repr

namespace BenchState

/-- mirrors src/backend/common/benchmark/BenchState.cpp:87-103 -/
def start (b : BenchState) (threads : Nat) : BenchState :=
  { b with remaining := BitVec.ofNat 32 threads, async := true }

/-- The assertion that there is an event and a report is expected is off in a release.
mirrors src/backend/common/benchmark/BenchState.cpp:113-127 -/
def done (b : BenchState) : BenchState :=
  let remaining := b.remaining - 1
  { b with
    remaining := remaining
    sent := if remaining = 0 ∧ b.async = true then b.sent + 1 else b.sent }

/-- mirrors src/backend/common/benchmark/BenchState.h:52 -/
def add (b : BenchState) (value : BitVec 64) : BenchState := { b with data := b.data ^^^ value }

end BenchState

/-- Where `consumeJob` returns to: the hashing loop, or the outer loop. -/
inductive Ret where
  | loop | outer
  deriving DecidableEq, Repr

/-- mirrors src/backend/cpu/CpuWorker.cpp:118-274 -/
inductive Pc where
  | outer | pausedCheck | waitPaused | waitSequence | afterWait
  | consume (k : Ret)
  | addSequence (k : Ret)
  | saveFetch (k : Ret)
  | saveDecide (k : Ret) (counter : Nat)
  | guard | body | fetch
  | decide (counter : Nat)
  | hashNext
  | add (value : BitVec 64)
  | tail | report | finished | exited
  deriving DecidableEq, Repr

/-- `saved`: the worker has its job. `filled` is the nonce whose input fills the scratchpad.
`granted` is a history bit: the nonce in the job was drawn. -/
structure Worker where
  pc : Pc := .outer
  sequence : Nat := 0
  saved : Bool := false
  nonce : Nat := 0
  granted : Bool := false
  first : Bool := true
  current : Nat := 0
  filled : Nat := 0
  deriving DecidableEq, Repr

/-- What the threads share. `added` are the nonces whose values were added, latest first;
`early` are the reports before `BenchState::start`. -/
structure Shared where
  nonce : Nonce := { paused := false }
  bench : BenchState := {}
  added : List Nat := []
  reports : Nat := 0
  early : Nat := 0
  deriving DecidableEq, Repr

/-- `nonceMask()` of the job. -/
def mask : Nat := 2 ^ 32 - 1

/-- `bool first = true;` and the hashing loop. -/
def Worker.enter (w : Worker) : Worker := { w with pc := .guard, first := true }

def Worker.ret (w : Worker) : Ret → Worker
  | .loop => w.enter
  | .outer => { w with pc := .outer }

/-- The nonce is written to the job.
mirrors src/crypto/common/Nonce.cpp:57 -/
def Worker.grant (w : Worker) (counter : Nat) : Worker :=
  { w with nonce := Nonce.merge w.nonce mask counter, granted := true }

def Shared.pauseIf (sh : Shared) (pause : Bool) : Shared :=
  { sh with nonce := if pause then sh.nonce.pause true else sh.nonce }

/-- `save` copies the job over the nonce. -/
def Worker.save (w : Worker) : Worker := { w with saved := true, nonce := 0, granted := false }

def Shared.report (sh : Shared) : Shared :=
  { sh with
    bench := sh.bench.done
    reports := sh.reports + 1
    early := if sh.bench.async = true then sh.early else sh.early + 1 }

/-- One step of a worker; each access to what is shared is a step of its own. A worker without
a job leaves the hashing loop, since the job it has is of another algorithm. -/
def wstep (c : Bench) (sh : Shared) (w : Worker) : Option (Shared × Worker) :=
  match w.pc with
  | .outer => some (sh, { w with pc := if 0 < sh.nonce.sequence then .pausedCheck else .exited })
  | .pausedCheck => some (sh, if sh.nonce.paused then { w with pc := .waitPaused } else w.enter)
  | .waitPaused =>
    some (sh, { w with pc := if sh.nonce.paused then .waitSequence else .afterWait })
  | .waitSequence =>
    some (sh, { w with pc := if 0 < sh.nonce.sequence then .waitPaused else .afterWait })
  | .afterWait =>
    some (sh, { w with pc := if sh.nonce.sequence = 0 then .exited else .consume .loop })
  | .consume k =>
    some (sh, if sh.nonce.sequence = 0 then w.ret k else { w with pc := .addSequence k })
  | .addSequence k =>
    let w := { w with sequence := sh.nonce.sequence }
    some (sh, if w.saved then w.ret k else { w.save with pc := .saveFetch k })
  | .saveFetch k =>
    some ({ sh with nonce := sh.nonce.fetchAdd 1 },
      { w with pc := .saveDecide k sh.nonce.counter })
  | .saveDecide k counter =>
    match Nonce.decision 1 mask counter with
    | .ok pause => some (sh.pauseIf pause, (w.grant counter).ret k)
    | .fail pause => some (sh.pauseIf pause, w.ret k)
    | .again => some (sh, { w with pc := .saveFetch k })
  | .guard =>
    some (sh, { w with pc := if sh.nonce.isOutdated w.sequence then .tail else .body })
  | .body =>
    if ¬ w.saved then some (sh, { w with pc := .tail })
    else
      let w := { w with current := w.nonce }
      if c.size ≤ w.current then some (sh, { w with pc := .report })
      else
        some (sh, { w with
          pc := .fetch
          first := false
          filled := if w.first then w.nonce else w.filled })
  | .fetch =>
    some ({ sh with nonce := sh.nonce.fetchAdd 1 }, { w with pc := .decide sh.nonce.counter })
  | .decide counter =>
    match Nonce.decision 1 mask counter with
    | .ok pause => some (sh.pauseIf pause, { w.grant counter with pc := .hashNext })
    | .fail pause => some (sh.pauseIf pause, { w with pc := .tail })
    | .again => some (sh, { w with pc := .fetch })
  | .hashNext => some (sh, { w with pc := .add (c.hash w.filled), filled := w.nonce })
  | .add value =>
    if w.current < c.size then
      some ({ sh with bench := sh.bench.add value, added := w.current :: sh.added },
        { w with pc := .guard })
    else some (sh, { w with pc := .guard })
  | .tail => some (sh, { w with pc := if sh.nonce.paused then .outer else .consume .outer })
  | .report => some (sh.report, { w with pc := .finished })
  | .finished | .exited => none

structure Sys (c : Bench) where
  sh : Shared := {}
  ws : Fin c.threads → Worker := fun _ => {}

/-- The main thread calls `BenchState::start` once; it may touch the sequence, pause the miner
and resume it. -/
inductive Lbl (c : Bench) where
  | w (i : Fin c.threads)
  | start
  | touch
  | pause (paused : Bool)
  deriving DecidableEq, Repr

variable {c : Bench}

def step (s : Sys c) : Lbl c → Option (Sys c)
  | .w i => (wstep c s.sh (s.ws i)).map fun r => ⟨r.1, Function.update s.ws i r.2⟩
  | .start =>
    if s.sh.bench.async then none
    else some { s with sh := { s.sh with bench := s.sh.bench.start c.threads } }
  | .touch => some { s with sh := { s.sh with nonce := s.sh.nonce.touch } }
  | .pause paused => some { s with sh := { s.sh with nonce := s.sh.nonce.pause paused } }

def lts (c : Bench) : LTS (Sys c) (Lbl c) := .ofFn {} step

/-- All workers have reported. -/
def AllDone (s : Sys c) : Prop := ∀ i, (s.ws i).pc = .finished

structure Law (s : Sys c) : Prop where
  once : s.sh.added.Perm (List.range c.size)
  value : s.sh.bench.data = ((List.range c.size).map c.hash).foldr (· ^^^ ·) 0
  sent : s.sh.bench.sent = 1

/-- `BenchState::start` comes before the reports, and its count has 32 bits. -/
def Ok (s : Sys c) : Lbl c → Prop
  | .w i => c.threads ≤ 2 ^ 32 ∧ ((s.ws i).pc = .report → s.sh.bench.async = true)
  | _ => c.threads ≤ 2 ^ 32

/-! ## What a worker holds -/

/-- The number it has drawn and not yet looked at, or the one whose hash is in work. -/
def Worker.pending (w : Worker) : List Nat :=
  match w.pc with
  | .saveDecide _ counter | .decide counter => [counter]
  | .hashNext | .add _ => [w.current]
  | _ => []

def Worker.held (w : Worker) : List Nat := w.pending ++ if w.granted then [w.nonce] else []

/-- A worker with a job whose first number was refused: there are none left. -/
def Poor (n : Nat) (w : Worker) : Prop := w.granted = false → w.saved = true → mask < n

/-- What a worker knows at each place; `n` is the shared counter. -/
def At (c : Bench) (n : Nat) (w : Worker) : Prop :=
  match w.pc with
  | .saveFetch _ | .saveDecide _ _ => w.granted = false ∧ w.saved = true
  | .guard | .body => Poor n w ∧ (w.first = false → w.filled = w.nonce)
  | .fetch =>
    Poor n w ∧ w.saved = true ∧ w.current = w.nonce ∧ w.filled = w.nonce ∧ w.nonce < c.size
  | .decide counter =>
    Poor counter w ∧ Poor n w ∧ w.saved = true ∧ w.nonce < counter ∧ w.current = w.nonce ∧
      w.filled = w.nonce ∧ w.nonce < c.size
  | .hashNext =>
    w.granted = true ∧ w.filled = w.current ∧ w.current < c.size ∧ w.current < w.nonce
  | .add value =>
    w.granted = true ∧ w.filled = w.nonce ∧ value = c.hash w.current ∧ w.current < c.size ∧
      w.current < w.nonce
  | .report | .finished => w.granted = true ∧ c.size ≤ w.nonce
  | _ => Poor n w

structure WInv (c : Bench) (n : Nat) (w : Worker) : Prop where
  le : w.nonce ≤ mask
  zero : w.granted = false → w.nonce = 0
  job : w.granted = true → w.saved = true
  at_pc : At c n w

theorem Poor.mono {n n' : Nat} {w : Worker} (h : Poor n w) (hn : n ≤ n') : Poor n' w := by
  intro hg hs
  have := h hg hs
  omega

theorem WInv.mono {n n' : Nat} {w : Worker} (h : WInv c n w) (hn : n ≤ n') : WInv c n' w := by
  refine ⟨h.le, h.zero, h.job, ?_⟩
  have hat := h.at_pc
  unfold At at hat ⊢
  cases hpc : w.pc <;> simp only [hpc] at hat ⊢ <;> first
    | exact hat
    | exact hat.mono hn
    | exact ⟨hat.1.mono hn, hat.2⟩
    | exact ⟨hat.1, hat.2.1.mono hn, hat.2.2⟩

/-- A worker at another place with the same nonce and the same job. -/
theorem WInv.frame {n n' : Nat} {w w' : Worker} (hw : WInv c n w) (hn : w'.nonce = w.nonce)
    (hg : w'.granted = w.granted) (hs : w'.saved = w.saved) (hat : At c n' w') : WInv c n' w' where
  le := by rw [hn]; exact hw.le
  zero := by rw [hn, hg]; exact hw.zero
  job := by rw [hg, hs]; exact hw.job
  at_pc := hat

theorem decision_one (counter : Nat) :
    Nonce.decision 1 mask counter =
      if mask < counter then .fail false else .ok (decide (counter = mask)) := by
  have hm : Nonce.mask63 mask = mask := by decide
  unfold Nonce.decision
  rw [hm]
  by_cases h : mask < counter
  · simp only [h, if_true]
  · by_cases he : counter = mask
    · subst he
      simp
    · have hle : ¬ mask - counter = 0 := by omega
      simp [h, he, hle]

theorem grant_nonce {w : Worker} {counter : Nat} (hw : w.nonce ≤ mask) (h : counter ≤ mask) :
    (w.grant counter).nonce = counter := by
  unfold mask at hw h
  have hm := @Nonce.merge_eq w.nonce 32 counter (by simp) (by omega)
    (by omega)
  show Nonce.merge w.nonce (2 ^ 32 - 1) counter = counter
  rw [hm, Nat.div_eq_of_lt (by omega)]
  omega

/-- What a step of a worker does. -/
inductive Effect (c : Bench) (sh : Shared) (w : Worker) : Shared → Worker → Prop
  | keep (n' : Nonce) {w' : Worker} (hn : n'.counter = sh.nonce.counter)
      (hsub : ∀ x ∈ w'.held, x ∈ w.held) (hkeep : ∀ x < c.size, x ∈ w.held → x ∈ w'.held)
      (hfin : w'.pc ≠ .finished) : Effect c sh w { sh with nonce := n' } w'
  | draw (n' : Nonce) {w' : Worker} (hn : n'.counter = sh.nonce.counter + 1)
      (hsub : ∀ x ∈ w'.held, x ∈ w.held ∨ x = sh.nonce.counter)
      (hkeep : ∀ x ∈ w.held, x ∈ w'.held) (hnew : sh.nonce.counter ∈ w'.held)
      (hfin : w'.pc ≠ .finished) : Effect c sh w { sh with nonce := n' } w'
  | spend {w' : Worker} (hlt : w.current < c.size) (hheld : w.current ∈ w.held)
      (hsub : ∀ x ∈ w'.held, x ∈ w.held ∧ x ≠ w.current)
      (hkeep : ∀ x ∈ w.held, x = w.current ∨ x ∈ w'.held) (hfin : w'.pc ≠ .finished) :
      Effect c sh w { sh with
        bench := sh.bench.add (c.hash w.current), added := w.current :: sh.added } w'
  | report (hpc : w.pc = .report) : Effect c sh w sh.report { w with pc := .finished }

/-- A step that only moves the worker. -/
theorem effect_move {sh : Shared} {w w' : Worker} (hw : WInv c sh.nonce.counter w)
    (hn : w'.nonce = w.nonce) (hg : w'.granted = w.granted) (hs : w'.saved = w.saved)
    (hp : w'.pending = w.pending) (hfin : w'.pc ≠ .finished) (hat : At c sh.nonce.counter w') :
    Effect c sh w sh w' ∧ WInv c sh.nonce.counter w' := by
  have hheld : w'.held = w.held := by simp only [Worker.held, hn, hg, hp]
  refine ⟨.keep sh.nonce rfl ?_ ?_ hfin, ?_⟩
  · rw [hheld]
    exact fun x hx => hx
  · rw [hheld]
    exact fun x _ hx => hx
  · exact hw.frame hn hg hs hat

/-- Back to the hashing loop, or to the outer one. -/
theorem effect_ret {sh : Shared} {w w' : Worker} (hw : WInv c sh.nonce.counter w)
    (hpoor : Poor sh.nonce.counter w) (hp : w.pending = []) (k : Ret)
    (h : ∃ sequence, w' = { w with sequence := sequence }.ret k) :
    Effect c sh w sh w' ∧ WInv c sh.nonce.counter w' := by
  obtain ⟨sequence, rfl⟩ := h
  cases k with
  | loop =>
    refine effect_move hw rfl rfl rfl hp.symm nofun ⟨hpoor, ?_⟩
    intro h
    cases h
  | outer => exact effect_move hw rfl rfl rfl hp.symm nofun hpoor

/-- The number drawn is past the mask: it is dropped. -/
theorem effect_refused {sh : Shared} {w w' : Worker} {counter : Nat} (pause : Bool)
    (hw : WInv c sh.nonce.counter w) (hp : w.pending = [counter]) (hc : mask < counter)
    (hn : w'.nonce = w.nonce) (hg : w'.granted = w.granted) (hs : w'.saved = w.saved)
    (hp' : w'.pending = []) (hfin : w'.pc ≠ .finished) (hat : At c sh.nonce.counter w') :
    Effect c sh w (sh.pauseIf pause) w' ∧ WInv c (sh.pauseIf pause).nonce.counter w' := by
  have hcounter : (sh.pauseIf pause).nonce.counter = sh.nonce.counter := by cases pause <;> rfl
  have hsize := c.size_lt
  refine ⟨.keep _ hcounter ?_ ?_ hfin, ?_⟩
  · intro x hx
    simp only [Worker.held, hp, hp', hn, hg, List.nil_append] at hx ⊢
    exact List.mem_append_right _ hx
  · intro x hx hm
    simp only [Worker.held, hp, hp', hn, hg, List.nil_append, List.mem_append,
      List.mem_singleton] at hm ⊢
    rcases hm with hm | hm
    · unfold mask at hc
      omega
    · exact hm
  · rw [hcounter]
    exact hw.frame hn hg hs hat

theorem effect_save {sh : Shared} {w w' : Worker} {sh' : Shared} {k : Ret} {counter : Nat}
    (hpc : w.pc = .saveDecide k counter) (hw : WInv c sh.nonce.counter w)
    (hbelow : counter < sh.nonce.counter) (h : wstep c sh w = some (sh', w')) :
    Effect c sh w sh' w' ∧ WInv c sh'.nonce.counter w' := by
  obtain ⟨hgranted, hsaved⟩ : w.granted = false ∧ w.saved = true := by
    simpa only [At, hpc] using hw.at_pc
  have hp : w.pending = [counter] := by simp [Worker.pending, hpc]
  simp only [wstep, hpc, decision_one] at h
  by_cases hc : mask < counter
  · simp only [hc, if_true, Option.some.injEq, Prod.mk.injEq] at h
    obtain ⟨rfl, rfl⟩ := h
    have hpoor : Poor sh.nonce.counter w := fun _ _ => by omega
    cases k with
    | loop => exact effect_refused _ hw hp hc rfl rfl rfl rfl nofun ⟨hpoor, nofun⟩
    | outer => exact effect_refused _ hw hp hc rfl rfl rfl rfl nofun hpoor
  · simp only [hc, if_false, Option.some.injEq, Prod.mk.injEq] at h
    obtain ⟨rfl, rfl⟩ := h
    have hnonce := grant_nonce hw.le (Nat.le_of_not_lt hc)
    have hheld : w.held = [counter] := by simp [Worker.held, hp, hgranted]
    have hcounter : (sh.pauseIf (decide (counter = mask))).nonce.counter = sh.nonce.counter := by
      cases decide (counter = mask) <;> rfl
    have hg : (w.grant counter).granted = true := rfl
    have hle : (w.grant counter).nonce ≤ mask := by omega
    have hheld' : ((w.grant counter).ret k).held = [counter] := by
      cases k <;> simp [Worker.held, Worker.pending, Worker.ret, Worker.enter, hg, hnonce]
    have hfin : ((w.grant counter).ret k).pc ≠ .finished := by cases k <;> nofun
    refine ⟨.keep _ hcounter ?_ ?_ hfin, ?_⟩
    · rw [hheld, hheld']
      exact fun x hx => hx
    · rw [hheld, hheld']
      exact fun x _ hx => hx
    · cases k with
      | loop => exact ⟨hle, nofun, fun _ => hsaved, nofun, nofun⟩
      | outer => exact ⟨hle, nofun, fun _ => hsaved, nofun⟩

theorem effect_decide {sh : Shared} {w w' : Worker} {sh' : Shared} {counter : Nat}
    (hpc : w.pc = .decide counter) (hw : WInv c sh.nonce.counter w)
    (h : wstep c sh w = some (sh', w')) : Effect c sh w sh' w' ∧ WInv c sh'.nonce.counter w' := by
  obtain ⟨hpoor, hpoor', hsaved, hlt, hcur, hfilled, hsize⟩ : Poor counter w ∧
      Poor sh.nonce.counter w ∧ w.saved = true ∧ w.nonce < counter ∧ w.current = w.nonce ∧
        w.filled = w.nonce ∧ w.nonce < c.size := by
    simpa only [At, hpc] using hw.at_pc
  have hp : w.pending = [counter] := by simp [Worker.pending, hpc]
  simp only [wstep, hpc, decision_one] at h
  by_cases hc : mask < counter
  · simp only [hc, if_true, Option.some.injEq, Prod.mk.injEq] at h
    obtain ⟨rfl, rfl⟩ := h
    exact effect_refused _ hw hp hc rfl rfl rfl rfl nofun hpoor'
  · simp only [hc, if_false, Option.some.injEq, Prod.mk.injEq] at h
    obtain ⟨rfl, rfl⟩ := h
    have hgranted : w.granted = true := by
      cases hg : w.granted with
      | true => rfl
      | false => exact absurd (hpoor hg hsaved) hc
    have hnonce := grant_nonce hw.le (Nat.le_of_not_lt hc)
    have hheld : w.held = [counter, w.nonce] := by simp [Worker.held, hp, hgranted]
    have hheld' : ({ w.grant counter with pc := .hashNext } : Worker).held =
        [w.nonce, counter] := by
      have hg : (w.grant counter).granted = true := rfl
      have hcur' : (w.grant counter).current = w.current := rfl
      simp only [Worker.held, Worker.pending, hg, hcur', hcur, hnonce, if_true,
        List.singleton_append]
    have hcounter : (sh.pauseIf (decide (counter = mask))).nonce.counter = sh.nonce.counter := by
      cases decide (counter = mask) <;> rfl
    refine ⟨.keep _ hcounter ?_ ?_ nofun, ?_⟩
    · intro x hx
      rw [hheld'] at hx
      simp [hheld] at hx ⊢
      omega
    · intro x _ hx
      rw [hheld']
      simp [hheld] at hx ⊢
      omega
    · refine ⟨?_, nofun, fun _ => hsaved, rfl, ?_, ?_, ?_⟩
      · show (w.grant counter).nonce ≤ mask
        omega
      · show w.filled = w.current
        omega
      · show w.current < c.size
        omega
      · show w.current < (w.grant counter).nonce
        omega

/-- The value goes into the sum, and its number is given up. -/
theorem effect_add {sh : Shared} {w w' : Worker} {sh' : Shared} {value : BitVec 64}
    (hpc : w.pc = .add value) (hw : WInv c sh.nonce.counter w)
    (h : wstep c sh w = some (sh', w')) : Effect c sh w sh' w' ∧ WInv c sh'.nonce.counter w' := by
  obtain ⟨hgranted, hfilled, hvalue, hsize, hlt⟩ : w.granted = true ∧ w.filled = w.nonce ∧
      value = c.hash w.current ∧ w.current < c.size ∧ w.current < w.nonce := by
    simpa only [At, hpc] using hw.at_pc
  have hheld : w.held = [w.current, w.nonce] := by
    simp [Worker.held, Worker.pending, hpc, hgranted]
  simp only [wstep, hpc, hsize, if_true, Option.some.injEq, Prod.mk.injEq] at h
  obtain ⟨rfl, rfl⟩ := h
  have hheld' : ({ w with pc := .guard } : Worker).held = [w.nonce] := by
    simp [Worker.held, Worker.pending, hgranted]
  have hpoor : Poor sh.nonce.counter w := by
    intro hg
    rw [hgranted] at hg
    cases hg
  subst hvalue
  refine ⟨.spend hsize (by simp [hheld]) ?_ ?_ nofun, ?_⟩
  · intro x hx
    rw [hheld', List.mem_singleton] at hx
    simp [hheld, hx]
    omega
  · intro x hx
    rw [hheld']
    simpa [hheld] using hx
  · exact ⟨hw.le, hw.zero, hw.job, hpoor, fun _ => hfilled⟩

/-- The counter moves on, and the worker holds what it was. -/
theorem effect_fetch {sh : Shared} {w w' : Worker} (hw : WInv c sh.nonce.counter w)
    (hp : w.pending = []) (hn : w'.nonce = w.nonce) (hg : w'.granted = w.granted)
    (hs : w'.saved = w.saved) (hp' : w'.pending = [sh.nonce.counter]) (hfin : w'.pc ≠ .finished)
    (hat : At c (sh.nonce.counter + 1) w') :
    Effect c sh w { sh with nonce := sh.nonce.fetchAdd 1 } w' ∧
      WInv c (sh.nonce.counter + 1) w' := by
  have hheld : w'.held = sh.nonce.counter :: w.held := by
    simp [Worker.held, hp, hp', hn, hg]
  refine ⟨.draw _ rfl ?_ ?_ ?_ hfin, ?_⟩
  · intro x hx
    rw [hheld, List.mem_cons] at hx
    exact hx.symm
  · intro x hx
    rw [hheld]
    exact List.mem_cons_of_mem _ hx
  · rw [hheld]
    exact List.mem_cons_self
  · exact hw.frame hn hg hs hat

/-- **One step of a worker.** The cases are the places it may be at. -/
theorem effect {sh sh' : Shared} {w w' : Worker} (hw : WInv c sh.nonce.counter w)
    (hbelow : ∀ x ∈ w.held, x < sh.nonce.counter) (h : wstep c sh w = some (sh', w')) :
    Effect c sh w sh' w' ∧ WInv c sh'.nonce.counter w' := by
  have hat := hw.at_pc
  unfold At at hat
  cases hpc : w.pc with
  | outer | waitPaused | waitSequence | afterWait | tail =>
    simp only [wstep, hpc, Option.some.injEq, Prod.mk.injEq] at h hat
    obtain ⟨rfl, rfl⟩ := h
    split
    · exact effect_move hw rfl rfl rfl (by simp [Worker.pending, hpc]) nofun hat
    · exact effect_move hw rfl rfl rfl (by simp [Worker.pending, hpc]) nofun hat
  | pausedCheck =>
    simp only [wstep, hpc, Option.some.injEq, Prod.mk.injEq] at h hat
    obtain ⟨rfl, rfl⟩ := h
    split
    · exact effect_move hw rfl rfl rfl (by simp [Worker.pending, hpc]) nofun hat
    · exact effect_ret hw hat (by simp [Worker.pending, hpc]) .loop ⟨w.sequence, rfl⟩
  | consume k =>
    simp only [wstep, hpc, Option.some.injEq, Prod.mk.injEq] at h hat
    obtain ⟨rfl, rfl⟩ := h
    split
    · exact effect_ret hw hat (by simp [Worker.pending, hpc]) k ⟨w.sequence, rfl⟩
    · exact effect_move hw rfl rfl rfl (by simp [Worker.pending, hpc]) nofun hat
  | addSequence k =>
    simp only [wstep, hpc, Option.some.injEq, Prod.mk.injEq] at h hat
    obtain ⟨rfl, rfl⟩ := h
    split
    · exact effect_ret hw hat (by simp [Worker.pending, hpc]) k ⟨_, rfl⟩
    · rename_i hsaved
      -- without a job the worker held nothing
      have hg : w.granted = false := by
        cases hg : w.granted with
        | true => exact absurd (hw.job hg) hsaved
        | false => rfl
      have hheld : w.held = [] := by simp [Worker.held, Worker.pending, hpc, hg]
      refine ⟨.keep _ rfl ?_ ?_ nofun, ⟨Nat.zero_le _, fun _ => rfl, nofun, rfl, rfl⟩⟩
      · intro x hx
        simp [Worker.held, Worker.pending, Worker.save] at hx
      · intro x _ hx
        rw [hheld] at hx
        cases hx
  | saveFetch k =>
    simp only [wstep, hpc, Option.some.injEq, Prod.mk.injEq] at h hat
    obtain ⟨rfl, rfl⟩ := h
    exact effect_fetch hw (by simp [Worker.pending, hpc]) rfl rfl rfl rfl nofun hat
  | saveDecide k counter =>
    exact effect_save hpc hw (hbelow counter (by simp [Worker.held, Worker.pending, hpc])) h
  | guard =>
    simp only [wstep, hpc, Option.some.injEq, Prod.mk.injEq] at h hat
    obtain ⟨rfl, rfl⟩ := h
    split
    · exact effect_move hw rfl rfl rfl (by simp [Worker.pending, hpc]) nofun hat.1
    · exact effect_move hw rfl rfl rfl (by simp [Worker.pending, hpc]) nofun hat
  | body =>
    simp only [wstep, hpc] at h hat
    split at h
    · simp only [Option.some.injEq, Prod.mk.injEq] at h
      obtain ⟨rfl, rfl⟩ := h
      exact effect_move hw rfl rfl rfl (by simp [Worker.pending, hpc]) nofun hat.1
    · rename_i hs
      have hs' : w.saved = true := by simpa using hs
      split at h
      · rename_i hn
        simp only [Option.some.injEq, Prod.mk.injEq] at h
        obtain ⟨rfl, rfl⟩ := h
        have hg : w.granted = true := by
          cases hg : w.granted with
          | true => rfl
          | false =>
            have := hw.zero hg
            have := c.size_pos
            omega
        exact effect_move hw rfl rfl rfl (by simp [Worker.pending, hpc]) nofun ⟨hg, hn⟩
      · rename_i hn
        simp only [Option.some.injEq, Prod.mk.injEq] at h
        obtain ⟨rfl, rfl⟩ := h
        refine effect_move hw rfl rfl rfl (by simp [Worker.pending, hpc]) nofun
          ⟨hat.1, hs', rfl, ?_, Nat.lt_of_not_le hn⟩
        show (if w.first = true then w.nonce else w.filled) = w.nonce
        cases hf : w.first with
        | true => rfl
        | false => exact hat.2 hf
  | fetch =>
    simp only [wstep, hpc, Option.some.injEq, Prod.mk.injEq] at h hat
    obtain ⟨rfl, rfl⟩ := h
    obtain ⟨hpoor, hs, hcur, hfilled, hsize⟩ := hat
    have hlt : w.nonce < sh.nonce.counter := by
      cases hg : w.granted with
      | true => exact hbelow w.nonce (by simp [Worker.held, hg])
      | false =>
        have := hpoor hg hs
        have := hw.le
        omega
    refine effect_fetch hw (by simp [Worker.pending, hpc]) rfl rfl rfl rfl nofun
      ⟨hpoor, hpoor.mono (Nat.le_succ _), hs, hlt, hcur, hfilled, hsize⟩
  | decide counter => exact effect_decide hpc hw h
  | hashNext =>
    simp only [wstep, hpc, Option.some.injEq, Prod.mk.injEq] at h hat
    obtain ⟨rfl, rfl⟩ := h
    obtain ⟨hg, hfilled, hsize, hlt⟩ := hat
    refine effect_move hw rfl rfl rfl (by simp [Worker.pending, hpc]) nofun
      ⟨hg, rfl, ?_, hsize, hlt⟩
    show c.hash w.filled = c.hash w.current
    rw [hfilled]
  | add value => exact effect_add hpc hw h
  | report =>
    simp only [wstep, hpc, Option.some.injEq, Prod.mk.injEq] at h hat
    obtain ⟨rfl, rfl⟩ := h
    exact ⟨.report hpc, hw.le, hw.zero, hw.job, hat⟩
  | finished | exited => simp [wstep, hpc] at h

/-! ## All workers -/

/-- The numbers of the counter: the workers' and those that were added. -/
def ledger (s : Sys c) : Ledger (Fin c.threads) where
  next := s.sh.nonce.counter
  owed i := { x | x ∈ (s.ws i).held }
  spent := s.sh.added

/-- How many workers have reported. -/
def count (ws : Fin c.threads → Worker) : Nat :=
  (Finset.univ.filter fun i => (ws i).pc = .finished).card

theorem count_le (ws : Fin c.threads → Worker) : count ws ≤ c.threads := by
  have h := Finset.card_le_univ (Finset.univ.filter fun i => (ws i).pc = .finished)
  simpa [count] using h

theorem count_update {ws : Fin c.threads → Worker} {i : Fin c.threads} {w' : Worker}
    (h : (ws i).pc ≠ .finished) (h' : w'.pc ≠ .finished) :
    count (Function.update ws i w') = count ws := by
  unfold count
  congr 1
  ext j
  by_cases hj : j = i
  · subst hj
    simp [h, h']
  · simp [hj]

theorem count_update_succ {ws : Fin c.threads → Worker} {i : Fin c.threads} {w' : Worker}
    (h : (ws i).pc ≠ .finished) (h' : w'.pc = .finished) :
    count (Function.update ws i w') = count ws + 1 := by
  have hset : (Finset.univ.filter fun j => (Function.update ws i w' j).pc = .finished) =
      insert i (Finset.univ.filter fun j => (ws j).pc = .finished) := by
    ext j
    by_cases hj : j = i
    · subst hj
      simp [h']
    · simp [hj]
  unfold count
  rw [hset, Finset.card_insert_of_notMem (by simp [h])]

structure Inv (s : Sys c) : Prop where
  sound : (ledger s).Sound
  full : (ledger s).Full c.size
  worker : ∀ i, WInv c s.sh.nonce.counter (s.ws i)
  spent : ∀ x ∈ s.sh.added, x < c.size
  data : s.sh.bench.data = (s.sh.added.map c.hash).foldr (· ^^^ ·) 0
  reports : s.sh.reports = count s.ws
  waiting : s.sh.bench.async = false → s.sh.bench.sent = 0 ∧ s.sh.early = s.sh.reports
  started : s.sh.bench.async = true → s.sh.early ≤ s.sh.reports ∧
    s.sh.bench.remaining = BitVec.ofNat 32 (c.threads + s.sh.early - s.sh.reports) ∧
    (c.threads ≤ 2 ^ 32 →
      s.sh.bench.sent = if s.sh.early = 0 ∧ s.sh.reports = c.threads then 1 else 0)

theorem inv_init : Inv ({} : Sys c) where
  sound := Ledger.Sound.empty 0 (by simp [Worker.held, Worker.pending])
  full := fun x _ h => by cases h
  worker _ := ⟨Nat.zero_le _, fun _ => rfl, nofun, nofun⟩
  spent := nofun
  data := rfl
  reports := by simp [count]
  waiting _ := ⟨rfl, rfl⟩
  started := nofun

theorem ledger_effect {s : Sys c} {i : Fin c.threads} {sh' : Shared} {w' : Worker} (I : Inv s)
    (h : Effect c s.sh (s.ws i) sh' w') :
    (ledger ⟨sh', Function.update s.ws i w'⟩).Sound ∧
      (ledger ⟨sh', Function.update s.ws i w'⟩).Full c.size := by
  -- the other workers hold what they held
  have hother : ∀ j, j ≠ i → ∀ x, x ∈ (Function.update s.ws i w' j).held ↔ x ∈ (s.ws j).held := by
    intro j hj x
    rw [Function.update_of_ne hj]
  have hself : ∀ x, x ∈ (Function.update s.ws i w' i).held ↔ x ∈ w'.held := by
    intro x
    rw [Function.update_self]
  cases h with
  | keep n' hn hsub hkeep hfin =>
    have hL : ledger ⟨{ s.sh with nonce := n' }, Function.update s.ws i w'⟩ =
        { ledger s with owed := fun j => { x | x ∈ (Function.update s.ws i w' j).held } } := by
      simp only [ledger, hn]
    rw [hL]
    refine ⟨I.sound.step (.drop _ ?_), I.full.step (fun x hx => hx) ?_ ?_⟩
    · intro j x hx
      by_cases hj : j = i
      · subst hj
        exact hsub x ((hself x).mp hx)
      · exact (hother j hj x).mp hx
    · intro j x hx hm
      right
      by_cases hj : j = i
      · subst hj
        exact (hself x).mpr (hkeep x hx hm)
      · exact (hother j hj x).mpr hm
    · intro x _ hle hlt
      exact absurd hlt (Nat.not_lt_of_le hle)
  | draw n' hn hsub hkeep hnew hfin =>
    have hL : ledger ⟨{ s.sh with nonce := n' }, Function.update s.ws i w'⟩ =
        { ledger s with
          next := (ledger s).next + 1
          owed := fun j => { x | x ∈ (Function.update s.ws i w' j).held } } := by
      simp only [ledger, hn]
    rw [hL]
    refine ⟨I.sound.step (.draw i 1 _ ?_ ?_), I.full.step (fun x hx => hx) ?_ ?_⟩
    · intro x hx
      rcases hsub x ((hself x).mp hx) with h | h
      · left
        exact h
      · right
        subst h
        exact ⟨Nat.le_refl _, Nat.lt_succ_self _⟩
    · intro j hj x hx
      exact (hother j hj x).mp hx
    · intro j x _ hm
      right
      by_cases hj : j = i
      · subst hj
        exact (hself x).mpr (hkeep x hm)
      · exact (hother j hj x).mpr hm
    · intro x _ hle hlt
      right
      have hx : x = s.sh.nonce.counter := Nat.le_antisymm (Nat.le_of_lt_succ hlt) hle
      subst hx
      exact ⟨i, (hself _).mpr hnew⟩
  | spend hlt hheld hsub hkeep hfin =>
    refine ⟨I.sound.step (.spend i (s.ws i).current _ hheld ?_ ?_), I.full.step ?_ ?_ ?_⟩
    · intro x hx
      exact hsub x ((hself x).mp hx)
    · intro j hj x hx
      exact (hother j hj x).mp hx
    · intro x hx
      exact List.mem_cons_of_mem _ hx
    · intro j x _ hm
      by_cases hj : j = i
      · subst hj
        rcases hkeep x hm with h | h
        · left
          rw [h]
          exact List.mem_cons_self
        · right
          exact (hself x).mpr h
      · right
        exact (hother j hj x).mpr hm
    · intro x _ hle hlt
      exact absurd hlt (Nat.not_lt_of_le hle)
  | report hpc =>
    have hheld : ∀ j, (Function.update s.ws i { s.ws i with pc := .finished } j).held =
        (s.ws j).held := by
      intro j
      by_cases hj : j = i
      · subst hj
        simp [Worker.held, Worker.pending, hpc]
      · rw [Function.update_of_ne hj]
    have hL : ledger ⟨s.sh.report, Function.update s.ws i { s.ws i with pc := .finished }⟩ =
        ledger s := by
      simp only [ledger, hheld]
      rfl
    rw [hL]
    exact ⟨I.sound, I.full⟩

theorem ofNat_pred {a : Nat} (h : 1 ≤ a) : BitVec.ofNat 32 a - 1 = BitVec.ofNat 32 (a - 1) := by
  apply BitVec.eq_of_toNat_eq
  simp [BitVec.toNat_sub]
  omega

theorem inv_worker {s : Sys c} {i : Fin c.threads} {sh' : Shared} {w' : Worker} (I : Inv s)
    (h : wstep c s.sh (s.ws i) = some (sh', w')) :
    Inv (⟨sh', Function.update s.ws i w'⟩ : Sys c) := by
  obtain ⟨heffect, hworker⟩ := effect (I.worker i) (I.sound.below i) h
  obtain ⟨hsound, hfull⟩ := ledger_effect I heffect
  have hpc : (s.ws i).pc ≠ .finished := by
    intro hpc
    simp [wstep, hpc] at h
  have hworkers : s.sh.nonce.counter ≤ sh'.nonce.counter →
      ∀ j, WInv c sh'.nonce.counter (Function.update s.ws i w' j) := by
    intro hle j
    by_cases hj : j = i
    · subst hj
      rw [Function.update_self]
      exact hworker
    · rw [Function.update_of_ne hj]
      exact (I.worker j).mono hle
  cases heffect with
  | keep n' hn hsub hkeep hfin =>
    have hcount := @count_update c s.ws i _ hpc hfin
    exact ⟨hsound, hfull, hworkers (by simp only [hn]; omega), I.spent, I.data,
      by rw [hcount]; exact I.reports, I.waiting, I.started⟩
  | draw n' hn hsub hkeep hnew hfin =>
    have hcount := @count_update c s.ws i _ hpc hfin
    exact ⟨hsound, hfull, hworkers (by simp only [hn]; omega), I.spent, I.data,
      by rw [hcount]; exact I.reports, I.waiting, I.started⟩
  | spend hlt hheld hsub hkeep hfin =>
    have hcount := @count_update c s.ws i _ hpc hfin
    refine ⟨hsound, hfull, hworkers (Nat.le_refl _), ?_, ?_, by rw [hcount]; exact I.reports,
      I.waiting, I.started⟩
    · intro x hx
      rcases List.mem_cons.mp hx with h | h
      · rw [h]
        exact hlt
      · exact I.spent x h
    · show s.sh.bench.data ^^^ c.hash (s.ws i).current = _
      rw [I.data, BitVec.xor_comm]
      rfl
  | report hreport =>
    have hcount := @count_update_succ c s.ws i { s.ws i with pc := .finished } hpc rfl
    have hle := count_le (Function.update s.ws i { s.ws i with pc := .finished })
    have hreports := I.reports
    rw [hcount] at hle
    refine ⟨hsound, hfull, hworkers (Nat.le_refl _), I.spent, I.data, ?_, ?_, ?_⟩
    · show s.sh.reports + 1 = _
      rw [hcount, hreports]
    · intro hasync
      have hasync' : s.sh.bench.async = false := hasync
      obtain ⟨hsent, hearly⟩ := I.waiting hasync'
      refine ⟨?_, ?_⟩
      · simp [Shared.report, BenchState.done, hasync', hsent]
      · simp [Shared.report, hasync', hearly]
    · intro hasync
      have hasync' : s.sh.bench.async = true := hasync
      obtain ⟨hearly, hremaining, hsent⟩ := I.started hasync'
      have hleft : BitVec.ofNat 32 (c.threads + s.sh.early - s.sh.reports) - 1 =
          BitVec.ofNat 32 (c.threads + s.sh.early - (s.sh.reports + 1)) := by
        rw [ofNat_pred (by omega)]
        congr 1
      refine ⟨?_, ?_, ?_⟩
      · simp only [Shared.report, hasync', if_true]
        omega
      · simp only [Shared.report, hasync', if_true, BenchState.done, hremaining, hleft]
      · intro hthreads
        have hbefore := hsent hthreads
        have hnot : ¬ (s.sh.early = 0 ∧ s.sh.reports = c.threads) := by omega
        rw [if_neg hnot] at hbefore
        -- the count has come to zero exactly with the last of all reports
        have hzero : BitVec.ofNat 32 (c.threads + s.sh.early - (s.sh.reports + 1)) = 0 ↔
            s.sh.early = 0 ∧ s.sh.reports + 1 = c.threads := by
          have h0 : (0 : BitVec 32).toNat = 0 := rfl
          rw [← BitVec.toNat_inj, BitVec.toNat_ofNat, h0, Nat.mod_eq_of_lt (by omega)]
          omega
        simp only [Shared.report, hasync', if_true, BenchState.done, hremaining, hleft, hbefore,
          and_true, hzero]

/-- What a step of the system does: a worker's step, the start, or a change of the nonces'
words that leaves their counter alone. -/
theorem step_cases {s s' : Sys c} {l : Lbl c} (h : (lts c).step s l s') :
    (∃ i sh' w', l = .w i ∧ wstep c s.sh (s.ws i) = some (sh', w') ∧
      s' = ⟨sh', Function.update s.ws i w'⟩) ∨
    (l = .start ∧ s.sh.bench.async = false ∧
      s' = { s with sh := { s.sh with bench := s.sh.bench.start c.threads } }) ∨
    (l = .touch ∧ s' = { s with sh := { s.sh with nonce := s.sh.nonce.touch } }) ∨
    ∃ paused, l = .pause paused ∧
      s' = { s with sh := { s.sh with nonce := s.sh.nonce.pause paused } } := by
  replace h : step s l = some s' := h
  cases l with
  | w i =>
    simp only [step, Option.map_eq_some_iff, Prod.exists] at h
    obtain ⟨sh', w', hr, rfl⟩ := h
    exact .inl ⟨i, sh', w', rfl, hr, rfl⟩
  | start =>
    simp only [step] at h
    split at h
    · cases h
    · rename_i hasync
      exact .inr (.inl ⟨rfl, by simpa using hasync, (Option.some.inj h).symm⟩)
  | touch => exact .inr (.inr (.inl ⟨rfl, (Option.some.inj h).symm⟩))
  | pause paused => exact .inr (.inr (.inr ⟨paused, rfl, (Option.some.inj h).symm⟩))

theorem inv_step {s s' : Sys c} {l : Lbl c} (I : Inv s) (h : (lts c).step s l s') : Inv s' := by
  obtain ⟨i, sh', w', -, hr, rfl⟩ | ⟨-, hasync, rfl⟩ | ⟨-, rfl⟩ | ⟨paused, -, rfl⟩ := step_cases h
  · exact inv_worker I hr
  · obtain ⟨hsent, hearly⟩ := I.waiting hasync
    have htwo := c.two_le_threads
    refine ⟨I.sound, I.full, I.worker, I.spent, I.data, I.reports, nofun, fun _ => ⟨?_, ?_, ?_⟩⟩
    · show s.sh.early ≤ s.sh.reports
      omega
    · show BitVec.ofNat 32 c.threads = _
      congr 1
      show c.threads = c.threads + s.sh.early - s.sh.reports
      omega
    · intro _
      have hnot : ¬ (s.sh.early = 0 ∧ s.sh.reports = c.threads) := by omega
      show s.sh.bench.sent = if s.sh.early = 0 ∧ s.sh.reports = c.threads then 1 else 0
      rw [if_neg hnot, hsent]
  · exact ⟨I.sound, I.full, I.worker, I.spent, I.data, I.reports, I.waiting, I.started⟩
  · exact ⟨I.sound, I.full, I.worker, I.spent, I.data, I.reports, I.waiting, I.started⟩

theorem inv_reachable {s : Sys c} (h : (lts c).Reachable s) : Inv s := by
  have I : (lts c).Inductive Inv :=
    { init := by
        intro s hs
        cases hs
        exact inv_init
      step := fun s l s' hs hstep => inv_step hs hstep }
  exact I.reachable h

/-! ## When all have reported -/

theorem perm_of_allDone {s : Sys c} (I : Inv s) (h : AllDone s) :
    s.sh.added.Perm (List.range c.size) := by
  have hpast : ∀ i, (s.ws i).granted = true ∧ c.size ≤ (s.ws i).nonce := by
    intro i
    have hat := (I.worker i).at_pc
    simpa only [At, h i] using hat
  have hheld : ∀ i, (s.ws i).held = [(s.ws i).nonce] := by
    intro i
    simp [Worker.held, Worker.pending, h i, (hpast i).1]
  have htwo := c.two_le_threads
  -- any worker's last number shows that the counter is past the end
  have hnext : c.size ≤ s.sh.nonce.counter := by
    have hlt := I.sound.below ⟨0, by omega⟩ (s.ws ⟨0, by omega⟩).nonce
      (by simp [ledger, hheld])
    have hle := (hpast ⟨0, by omega⟩).2
    simp only [ledger] at hlt
    omega
  refine I.sound.perm_range I.full hnext I.spent ?_
  intro i x hx
  have hx' : x ∈ (s.ws i).held := hx
  rw [hheld, List.mem_singleton] at hx'
  rw [hx']
  exact (hpast i).2

theorem count_allDone {s : Sys c} (h : AllDone s) : count s.ws = c.threads := by
  unfold count
  rw [Finset.filter_true_of_mem (fun i _ => h i)]
  simp

theorem xor_perm {l l' : List (BitVec 64)} (h : l.Perm l') :
    l.foldr (· ^^^ ·) 0 = l'.foldr (· ^^^ ·) 0 := by
  induction h with
  | nil => rfl
  | cons x _ ih => simp only [List.foldr_cons, ih]
  | swap x y l =>
    simp only [List.foldr_cons]
    rw [← BitVec.xor_assoc, ← BitVec.xor_assoc, BitVec.xor_comm x y]
  | trans _ _ ih ih' => exact ih.trans ih'

theorem law_iff {s : Sys c} (hthreads : c.threads ≤ 2 ^ 32) (h : (lts c).Reachable s)
    (hdone : AllDone s) : Law s ↔ s.sh.early = 0 := by
  have I := inv_reachable h
  have hperm := perm_of_allDone I hdone
  have hreports := I.reports
  rw [count_allDone hdone] at hreports
  have htwo := c.two_le_threads
  cases hasync : s.sh.bench.async with
  | false =>
    obtain ⟨hsent, hearly⟩ := I.waiting hasync
    refine ⟨fun L => ?_, fun he => by omega⟩
    have := L.sent
    omega
  | true =>
    obtain ⟨-, -, hsent⟩ := I.started hasync
    have hsent' := hsent hthreads
    refine ⟨?_, ?_⟩
    · intro L
      rw [L.sent] at hsent'
      split at hsent'
      · rename_i he
        exact he.1
      · cases hsent'
    · intro he
      refine ⟨hperm, ?_, ?_⟩
      · rw [I.data]
        exact xor_perm (hperm.map c.hash)
      · rw [hsent', if_pos ⟨he, hreports⟩]

/-- Where `BenchState::start` came first, no report was early. -/
theorem not_early {s : Sys c} (h : ((lts c).restrict Ok).Reachable s) : s.sh.early = 0 := by
  refine LTS.reachable_induction (P := fun s => s.sh.early = 0) ?_ ?_ h
  · intro s hs
    cases hs
    rfl
  · intro s l s' hreach hs hstep
    obtain ⟨hok, hstep⟩ := hstep
    have I := inv_reachable hreach.of_restrict
    obtain ⟨i, sh', w', rfl, hr, rfl⟩ | ⟨-, -, rfl⟩ | ⟨-, rfl⟩ | ⟨paused, -, rfl⟩ :=
      step_cases hstep
    · obtain ⟨heffect, -⟩ := effect (I.worker i) (I.sound.below i) hr
      cases heffect with
      | keep | draw | spend => exact hs
      | report hpc =>
        have hasync := hok.2 hpc
        simp only [Shared.report, hasync, if_true]
        exact hs
    all_goals exact hs

theorem threads_le {s : Sys c} (h : ((lts c).restrict Ok).Reachable s) (hdone : AllDone s) :
    c.threads ≤ 2 ^ 32 := by
  obtain ⟨s₀, ls, hinit, r⟩ := h
  cases r with
  | nil =>
    have htwo := c.two_le_threads
    have hpc := hdone ⟨0, by omega⟩
    cases hinit
    cases hpc
  | @cons _ _ _ l _ hstep _ =>
    obtain ⟨hok, -⟩ := hstep
    cases l with
    | w i => exact hok.1
    | start | touch | pause => exact hok

/-- **The benchmark's result** does not depend on the order of the steps. -/
theorem benchmark_done (c : Bench) :
    (∀ s, ((lts c).restrict Ok).Reachable s → AllDone s → Law s) ∧
      ∀ s, (lts c).Reachable s → AllDone s → c.threads ≤ 2 ^ 32 → (Law s ↔ s.sh.early = 0) := by
  refine ⟨?_, ?_⟩
  · intro s h hdone
    exact (law_iff (threads_le h hdone) h.of_restrict hdone).mpr (not_early h)
  · intro s h hdone hthreads
    exact law_iff hthreads h hdone

/-- One nonce, two workers. -/
def small : Bench where
  size := 1
  threads := 2
  hash n := BitVec.ofNat 64 (n + 1)
  size_pos := Nat.one_pos
  size_lt := by decide
  two_le_threads := by decide

def w0 : Fin small.threads := ⟨0, by decide⟩

def w1 : Fin small.threads := ⟨1, by decide⟩

/-- The first worker hashes the nonce and reports, then the main thread starts the benchmark,
then the other worker reports. -/
def hurried : List (Lbl small) :=
  List.replicate 19 (.w w0) ++ [.start] ++ List.replicate 13 (.w w1)

theorem benchmark_lost :
    ¬ ∀ (c : Bench) (s : Sys c), (lts c).Reachable s → AllDone s → Law s := by
  intro h
  have hrun : ((LTS.exec step {} hurried).map fun s =>
      ((s.ws w0).pc, (s.ws w1).pc, s.sh.bench.sent)) = some (.finished, .finished, 0) := by
    decide
  obtain ⟨s, hs, he⟩ := Option.map_eq_some_iff.mp hrun
  simp only [Prod.mk.injEq] at he
  obtain ⟨h0, h1, hsent⟩ := he
  have hdone : AllDone s := by
    intro i
    match i with
    | ⟨0, _⟩ => exact h0
    | ⟨1, _⟩ => exact h1
  have L := h small s (LTS.reachable_of_exec hs) hdone
  rw [L.sent] at hsent
  cases hsent

end Rxs.L5.Benchmark
