import Mathlib.Data.List.Basic
import Mathlib.Logic.Function.Iterate
import Mathlib.Tactic.Ring

/-!
# Straight code with loops that do not nest

A machine runs `n` instructions in order. Some are branches: behind the branch at `i`
it goes on at `i + 1`, or again at `start i ≤ i`. The loops `start i .. i` are disjoint.
`left i c s` says that from `s` on the branch at `i` is taken no more than `c` times in
a row, for whatever reason: the instructions of the loop keep it, a branch that is
taken spends one.

* `Loops.loop`: one loop, from its start to behind its branch.
* **`Loops.reaches`**: the end of the code is reached, in `(k + 1) * n` steps, and no
  branch is taken more than `k` times.
-/
namespace Rxs.Core

variable {σ : Type*}

/-- The states that `m` steps start from. -/
def trace (step : σ → σ) : Nat → σ → List σ
  | 0, _ => []
  | m + 1, s => s :: trace step m (step s)

theorem trace_add (step : σ → σ) (a b : Nat) (s : σ) :
    trace step (a + b) s = trace step a s ++ trace step b (step^[a] s) := by
  induction a generalizing s with
  | zero => rw [Nat.zero_add]; rfl
  | succ a ih => rw [Nat.succ_add, trace, ih]; rfl

/-- The code: how many instructions, and where the loop of a branch starts. -/
structure Loops (σ : Type*) where
  n : Nat
  pc : σ → Nat
  step : σ → σ
  start : Nat → Option Nat
  left : Nat → Nat → σ → Prop

namespace Loops

variable (L : Loops σ) {k : Nat}

/-- What the code has to be for its loops to end. -/
structure Bounded (k : Nat) : Prop where
  start_le : ∀ {i b}, L.start i = some b → b ≤ i
  start_lt : ∀ {i b}, L.start i = some b → i < L.n
  disjoint : ∀ {i b j c}, L.start i = some b → L.start j = some c → i < j → i < c
  next : ∀ {s}, L.pc s < L.n → L.start (L.pc s) = none → L.pc (L.step s) = L.pc s + 1
  branch : ∀ {s b}, L.pc s < L.n → L.start (L.pc s) = some b →
    L.pc (L.step s) = L.pc s + 1 ∨ L.pc (L.step s) = b
  all : ∀ i s, L.left i k s
  keep : ∀ {s i b c}, L.start i = some b → b ≤ L.pc s → L.pc s < i →
    L.left i c s → L.left i c (L.step s)
  spend : ∀ {s b c}, L.pc s < L.n → L.start (L.pc s) = some b →
    L.pc (L.step s) ≠ L.pc s + 1 → L.left (L.pc s) c s →
    ∃ c', c = c' + 1 ∧ L.left (L.pc s) c' (L.step s)

/-- The branch at `i` is executed and taken. -/
def Taken (i : Nat) (s : σ) : Prop := L.pc s = i ∧ L.pc (L.step s) ≠ i + 1

instance (i : Nat) : DecidablePred (L.Taken i) := fun _ => instDecidableAnd

/-- How often the branch at `i` is taken in `m` steps. -/
def taken (i m : Nat) (s : σ) : Nat := (trace L.step m s).countP (L.Taken i)

theorem taken_add (i a b : Nat) (s : σ) :
    L.taken i (a + b) s = L.taken i a s + L.taken i b (L.step^[a] s) := by
  rw [taken, trace_add, List.countP_append]
  rfl

theorem taken_succ (i m : Nat) (s : σ) :
    L.taken i (m + 1) s = (if L.Taken i s then 1 else 0) + L.taken i m (L.step s) := by
  rw [taken, trace, List.countP_cons, Nat.add_comm]
  simp [taken]

/-- `m` steps inside `a .. z`, from `s` to `t`: what a part of the run is. -/
structure Part (a z m : Nat) (s t : σ) : Prop where
  run : L.step^[m] s = t
  inside : ∀ u ∈ trace L.step m s, a ≤ L.pc u ∧ L.pc u < z

variable {L}

theorem Part.trans {a z m m' : Nat} {s t u : σ} (h : L.Part a z m s t) (h' : L.Part a z m' t u) :
    L.Part a z (m + m') s u := by
  refine ⟨?_, ?_⟩
  · rw [Nat.add_comm, Function.iterate_add_apply, h.run, h'.run]
  · rw [trace_add, h.run]
    exact List.forall_mem_append.mpr ⟨h.inside, h'.inside⟩

theorem Part.mono {a z a' z' m : Nat} {s t : σ} (h : L.Part a z m s t) (ha : a' ≤ a)
    (hz : z ≤ z') : L.Part a' z' m s t :=
  ⟨h.run, fun u hu => ⟨ha.trans (h.inside u hu).1, (h.inside u hu).2.trans_le hz⟩⟩

/-- A branch that is not there is not taken. -/
theorem Part.taken_eq {a z m : Nat} {s t : σ} (h : L.Part a z m s t) {i : Nat}
    (hi : i < a ∨ z ≤ i) : L.taken i m s = 0 := by
  refine List.countP_eq_zero.mpr fun u hu => ?_
  have := h.inside u hu
  have hne : L.pc u ≠ i := by omega
  simp [Taken, hne]

/-- One step. -/
theorem Part.one {s : σ} {a z : Nat} (ha : a ≤ L.pc s) (hz : L.pc s < z) :
    L.Part a z 1 s (L.step s) :=
  ⟨rfl, by simpa [trace] using ⟨ha, hz⟩⟩

/-! ## One loop -/

/-- From inside a loop to its branch. -/
theorem to_branch (h : L.Bounded k) {i b : Nat} (hstart : L.start i = some b)
    {c : Nat} (d : Nat) {s : σ} (hb : b ≤ L.pc s) (hd : L.pc s + d = i) (hleft : L.left i c s) :
    ∃ t, L.Part b i d s t ∧ L.pc t = i ∧ L.left i c t ∧ L.taken i d s = 0 := by
  induction d generalizing s with
  | zero => exact ⟨s, ⟨rfl, fun u hu => by cases hu⟩, by omega, hleft, rfl⟩
  | succ d ih =>
    have hi := h.start_lt hstart
    have hpc : L.pc s < i := by omega
    -- no other branch stands in the loop
    have hnone : L.start (L.pc s) = none := by
      cases hs : L.start (L.pc s) with
      | none => rfl
      | some b' =>
        have := h.disjoint hs hstart hpc
        omega
    have hnext := h.next (by omega) hnone
    obtain ⟨t, hpart, ht, hleft', -⟩ :=
      ih (s := L.step s) (by omega) (by omega) (h.keep hstart hb hpc hleft)
    have hone : L.Part b i 1 s (L.step s) := .one hb hpc
    have hboth := hone.trans hpart
    rw [Nat.add_comm 1 d] at hboth
    exact ⟨t, hboth, ht, hleft', hboth.taken_eq (.inr le_rfl)⟩

/-- **One loop**: its branch falls through after at most `c` turns more. -/
theorem loop (h : L.Bounded k) {i b : Nat} (hstart : L.start i = some b) (c : Nat)
    {s : σ} (hb : L.pc s = b) (hleft : L.left i c s) :
    ∃ m t, m ≤ (c + 1) * (i + 1 - b) ∧ L.Part b (i + 1) m s t ∧ L.pc t = i + 1 ∧
      L.taken i m s ≤ c := by
  induction c generalizing s with
  | zero =>
    have hle := h.start_le hstart
    have hi := h.start_lt hstart
    obtain ⟨t, hpart, ht, hleft', hnot⟩ :=
      to_branch h hstart (i - b) (s := s) (by omega) (by omega) hleft
    have hfall : L.pc (L.step t) = i + 1 := by
      by_contra hne
      obtain ⟨c', hc, -⟩ := h.spend (s := t) (by omega) (by rw [ht]; exact hstart)
        (by rw [ht]; exact hne) (by rw [ht]; exact hleft')
      omega
    have hone : L.Part b (i + 1) 1 t (L.step t) := .one (by omega) (by omega)
    refine ⟨i - b + 1, L.step t, by omega, (hpart.mono le_rfl (Nat.le_succ i)).trans hone,
      hfall, ?_⟩
    rw [taken_add, hnot, hpart.run, taken_succ, if_neg (fun hT => hT.2 hfall)]
    exact le_rfl
  | succ c ih =>
    have hle := h.start_le hstart
    have hi := h.start_lt hstart
    obtain ⟨t, hpart, ht, hleft', hnot⟩ :=
      to_branch h hstart (i - b) (s := s) (by omega) (by omega) hleft
    have hone : L.Part b (i + 1) 1 t (L.step t) := .one (by omega) (by omega)
    have hturn := (hpart.mono le_rfl (Nat.le_succ i)).trans hone
    have htaken : L.taken i (i - b + 1) s ≤ 1 := by
      rw [taken_add, hnot, hpart.run, taken_succ]
      have : L.taken i 0 (L.step t) = 0 := rfl
      split <;> omega
    by_cases hfall : L.pc (L.step t) = i + 1
    · refine ⟨i - b + 1, L.step t, ?_, hturn, hfall, by omega⟩
      have : i - b + 1 = 1 * (i + 1 - b) := by omega
      rw [this]
      exact Nat.mul_le_mul_right _ (by omega)
    · have hback := (h.branch (s := t) (by omega) (by rw [ht]; exact hstart)).resolve_left
        (by rw [ht]; exact hfall)
      obtain ⟨c', hc, hspent⟩ := h.spend (s := t) (by omega) (by rw [ht]; exact hstart)
        (by rw [ht]; exact hfall) (by rw [ht]; exact hleft')
      rw [ht, ← Nat.succ_inj.mp hc] at hspent
      obtain ⟨m, u, hm, hpart', hu, hcount⟩ := ih hback hspent
      refine ⟨i - b + 1 + m, u, ?_, hturn.trans hpart', hu, ?_⟩
      · have : (c + 1 + 1) * (i + 1 - b) = (c + 1) * (i + 1 - b) + (i + 1 - b) := by ring
        omega
      · rw [taken_add, hturn.run]
        omega

/-! ## The code -/

/-- Not inside a loop, except at its start. -/
def Outside (L : Loops σ) (p : Nat) : Prop := ∀ {i b}, L.start i = some b → p ≤ i → p ≤ b

theorem outside_behind (h : L.Bounded k) {i b : Nat} (hi : L.start i = some b) :
    L.Outside (i + 1) := by
  intro j c hs hle
  exact h.disjoint hi hs (by omega)

/-- A loop that starts here, or an instruction that is no branch. -/
theorem Bounded.here (h : L.Bounded k) {p : Nat} (hp : L.Outside p) :
    (∃ i, L.start i = some p) ∨ L.start p = none ∧ L.Outside (p + 1) := by
  by_cases hloop : ∃ i, L.start i = some p
  · exact .inl hloop
  · refine .inr ⟨?_, fun hs hle => ?_⟩
    · cases hs : L.start p with
      | none => rfl
      | some b =>
        have hb : b = p := Nat.le_antisymm (h.start_le hs) (hp hs le_rfl)
        exact absurd ⟨p, hb ▸ hs⟩ hloop
    · have hb := hp hs (by omega)
      rcases Nat.eq_or_lt_of_le hb with he | hlt
      · exact absurd ⟨_, he ▸ hs⟩ hloop
      · exact hlt

/-- In a loop only its own branch is taken. -/
theorem Part.taken_loop (h : L.Bounded k) {i b m : Nat} {s t : σ} (hstart : L.start i = some b)
    (hpart : L.Part b (i + 1) m s t) {j : Nat} (hj : j ≠ i) : L.taken j m s = 0 := by
  refine List.countP_eq_zero.mpr fun u hu => ?_
  obtain ⟨hb, hlt⟩ := hpart.inside u hu
  have hi := h.start_lt hstart
  have hnot : ¬ L.Taken j u := by
    rintro ⟨rfl, hne⟩
    cases hs : L.start (L.pc u) with
    | none => exact hne (h.next (by omega) hs)
    | some b' =>
      have := h.disjoint hs hstart (by omega)
      omega
  simpa using hnot

/-- The rest of the code, from outside the loops. -/
theorem rest (h : L.Bounded k) (d : Nat) {s : σ} (hout : L.Outside (L.pc s))
    (hd : L.n = L.pc s + d) :
    ∃ m t, m ≤ (k + 1) * d ∧ L.Part (L.pc s) L.n m s t ∧ L.pc t = L.n ∧
      ∀ i, L.taken i m s ≤ k := by
  induction d using Nat.strong_induction_on generalizing s with
  | _ d ih =>
    rcases Nat.eq_zero_or_pos d with rfl | hpos
    · exact ⟨0, s, Nat.zero_le _, ⟨rfl, fun u hu => by cases hu⟩, hd.symm, fun i => Nat.zero_le _⟩
    rcases h.here hout with ⟨i, hstart⟩ | ⟨hnone, hout'⟩
    · have hle := h.start_le hstart
      have hi := h.start_lt hstart
      obtain ⟨m, t, hm, hpart, ht, hcount⟩ := loop h hstart k rfl (h.all i s)
      obtain ⟨m', u, hm', hpart', hu, hcount'⟩ := ih (L.n - (i + 1)) (by omega) (s := t)
        (by rw [ht]; exact outside_behind h hstart) (by omega)
      refine ⟨m + m', u, ?_, (hpart.mono le_rfl (by omega)).trans
        (hpart'.mono (by omega) le_rfl), hu, fun j => ?_⟩
      · have hsum : d = (i + 1 - L.pc s) + (L.n - (i + 1)) := by omega
        rw [hsum, Nat.mul_add]
        exact Nat.add_le_add hm hm'
      · have hj := hcount' j
        rw [taken_add, hpart.run]
        by_cases hji : j = i
        · subst hji
          have hzero := hpart'.taken_eq (i := j) (.inl (by omega))
          omega
        · rw [hpart.taken_loop h hstart hji]
          omega
    · have hnext := h.next (by omega) hnone
      obtain ⟨m, t, hm, hpart, ht, hcount⟩ := ih (d - 1) (by omega) (s := L.step s)
        (by rw [hnext]; exact hout') (by omega)
      have hone : L.Part (L.pc s) L.n 1 s (L.step s) := .one le_rfl (by omega)
      refine ⟨1 + m, t, ?_, hone.trans (hpart.mono (by omega) le_rfl), ht, fun i => ?_⟩
      · have hsum : (k + 1) * d = (k + 1) * (d - 1) + (k + 1) := by
          rw [← Nat.mul_succ]
          congr 1
          omega
        omega
      · have hi := hcount i
        have hnot : ¬ L.Taken i s := fun hT => hT.2 (hT.1 ▸ hnext)
        rw [Nat.add_comm, taken_succ, if_neg hnot]
        omega

/-- **The end is reached** in `(k + 1) * n` steps, and each branch is taken no more than
`k` times on the way. -/
theorem reaches (h : L.Bounded k) {s : σ} (hs : L.pc s = 0) :
    ∃ m t, m ≤ (k + 1) * L.n ∧ L.Part 0 L.n m s t ∧ L.pc t = L.n ∧
      ∀ i, L.taken i m s ≤ k := by
  have hout : L.Outside (L.pc s) := by
    rw [hs]
    exact fun _ _ => Nat.zero_le _
  obtain ⟨m, t, hm, hpart, ht, hcount⟩ := rest h L.n hout (by omega)
  exact ⟨m, t, hm, hs ▸ hpart, ht, hcount⟩

end Loops

end Rxs.Core
