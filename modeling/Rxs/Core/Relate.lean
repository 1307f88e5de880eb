import Rxs.Core.Scanner

/-!
# Two runs of one scanner

What a scanner does depends on the bytes it looks at and on the data it reads. Two
states are `Alike` if their memories agree on the positions in `A`, their data are
related by `R`, and all else is the same. `Relates A R P x Q`: from alike states, the
first of which satisfies `P`, both runs of `x` end in the same way, with the same
result, in alike states, and the first in `Q`.

The rules follow the operations of a scanner. Where it looks at a byte, `P` has to
place the byte in `A`; where it uses its data, `R` has to fix what it uses.

* `Relates.loop`, `Relates.within`: for loops and windows.
-/
namespace Rxs.Core.Scanner

variable {ρ σ α β : Type}

structure Alike (A : Nat → Prop) (R : σ → σ → Prop) (s s' : Scan σ) : Prop where
  length : s'.mem.length = s.mem.length
  mem : ∀ i, A i → s'.mem[i]? = s.mem[i]?
  cur : s'.cur = s.cur
  log : s'.log = s.log
  data : R s.data s'.data

/-- Both results are the same, in alike states. -/
inductive Both (A : Nat → Prop) (R : σ → σ → Prop) (Q : α → Scan σ → Prop) :
    EStateM.Result (Halt ρ) (Scan σ) α → EStateM.Result (Halt ρ) (Scan σ) α → Prop where
  | ok {a : α} {t t' : Scan σ} (h : Alike A R t t') (hq : Q a t) : Both A R Q (.ok a t) (.ok a t')
  | error {e : Halt ρ} {t t' : Scan σ} (h : Alike A R t t') : Both A R Q (.error e t) (.error e t')

def Relates (A : Nat → Prop) (R : σ → σ → Prop) (P : Scan σ → Prop) (x : Scanner ρ σ α)
    (Q : α → Scan σ → Prop) : Prop :=
  ∀ s s', Alike A R s s' → P s → Both A R Q (x s) (x s')

variable {A : Nat → Prop} {R : σ → σ → Prop} {P : Scan σ → Prop}

theorem Alike.moved {s s' : Scan σ} (h : Alike A R s s') (n : UInt64) (after : Nat) :
    Alike A R (moved s n after) (moved s' n after) where
  length := h.length
  mem := h.mem
  cur := by
    show { s'.cur with index := after } = { s.cur with index := after }
    rw [h.cur]
  log := by
    show Access.move s'.cur n after :: s'.log = Access.move s.cur n after :: s.log
    rw [h.cur, h.log]
  data := h.data

namespace Relates

theorem conseq {P' : Scan σ → Prop} {x : Scanner ρ σ α} {Q Q' : α → Scan σ → Prop}
    (h : Relates A R P x Q) (hp : ∀ s, P' s → P s) (hq : ∀ a s, Q a s → Q' a s) :
    Relates A R P' x Q' := by
  intro s s' hs hP
  have hx := h s s' hs (hp s hP)
  generalize x s = r at hx ⊢
  generalize x s' = r' at hx ⊢
  cases hx with
  | ok ht hQ => exact .ok ht (hq _ _ hQ)
  | error ht => exact .error ht

theorem bind {x : Scanner ρ σ α} {f : α → Scanner ρ σ β} {Q : α → Scan σ → Prop}
    {Q' : β → Scan σ → Prop} (h : Relates A R P x Q) (h' : ∀ a, Relates A R (Q a) (f a) Q') :
    Relates A R P (x >>= f) Q' := by
  intro s s' hs hP
  change Both A R Q' (EStateM.bind x f s) (EStateM.bind x f s')
  unfold EStateM.bind
  have hx := h s s' hs hP
  generalize x s = r at hx
  generalize x s' = r' at hx
  cases hx with
  | ok ht hQ => exact h' _ _ _ ht hQ
  | error ht => exact .error ht

theorem pure (a : α) : Relates (ρ := ρ) A R P (Pure.pure a) fun b s => P s ∧ b = a :=
  fun _ _ hs hP => .ok hs ⟨hP, rfl⟩

theorem ite {c : Prop} [Decidable c] {x y : Scanner ρ σ α} {Q : α → Scan σ → Prop}
    (h : c → Relates A R P x Q) (h' : ¬ c → Relates A R P y Q) :
    Relates A R P (if c then x else y) Q := by
  by_cases hc : c
  · rw [if_pos hc]; exact h hc
  · rw [if_neg hc]; exact h' hc

/-- A fact that is not about the state. -/
theorem assume {c : Prop} {x : Scanner ρ σ α} {Q : α → Scan σ → Prop}
    (h : c → Relates A R P x Q) : Relates A R (fun s => P s ∧ c) x Q :=
  fun s s' hs hP => h hP.2 s s' hs hP.1

theorem onlyIf {c : Prop} [Decidable c] {x : Scanner ρ σ Unit}
    (h : c → Relates A R P x fun _ => P) : Relates A R P (Scanner.onlyIf c x) fun _ => P :=
  ite h fun _ => (pure ()).conseq (fun _ h => h) fun _ _ h => h.1

theorem halt (e : Halt ρ) (Q : α → Scan σ → Prop) : Relates A R P (Scanner.halt e) Q :=
  fun _ _ hs _ => .error hs

theorem index : Relates (ρ := ρ) A R P Scanner.index fun a s => P s ∧ a = s.cur.index := by
  intro s s' hs hP
  unfold Scanner.index
  rw [hs.cur]
  exact .ok hs ⟨hP, rfl⟩

/-- A part of the data that is the same in both. -/
theorem get {f : σ → α} (h : ∀ s s', Alike A R s s' → P s → f s'.data = f s.data) :
    Relates (ρ := ρ) A R P (fun s => .ok (f s.data) s) fun a s => P s ∧ a = f s.data := by
  intro s s' hs hP
  show Both A R _ (.ok (f s.data) s) (.ok (f s'.data) s')
  rw [h s s' hs hP]
  exact .ok hs ⟨hP, rfl⟩

theorem update {f : σ → σ} {Q : Unit → Scan σ → Prop} (hR : ∀ d d', R d d' → R (f d) (f d'))
    (hQ : ∀ s, P s → Q () { s with data := f s.data }) :
    Relates (ρ := ρ) A R P (Scanner.update f) Q :=
  fun _ _ hs hP => .ok ⟨hs.length, hs.mem, hs.cur, hs.log, hR _ _ hs.data⟩ (hQ _ hP)

theorem take {add : Nat → UInt64 → Nat} {n : UInt64} {Q : Nat → Scan σ → Prop}
    (hQ : ∀ s, P s → add s.cur.index n ≤ s.cur.size →
      Q (s.cur.base + s.cur.index) (moved s n (add s.cur.index n))) :
    Relates (ρ := ρ) A R P (Scanner.take add n) Q := by
  intro s s' hs hP
  unfold Scanner.take
  rw [hs.cur]
  by_cases h : add s.cur.index n > s.cur.size
  · rw [if_pos h, if_pos h]
    exact .error (hs.moved n _)
  · rw [if_neg h, if_neg h]
    exact .ok (hs.moved n _) (hQ s hP (Nat.le_of_not_lt h))

theorem byte {Q : UInt8 → Scan σ → Prop} (hA : ∀ s, P s → A (s.cur.base + s.cur.index))
    (hQ : ∀ s b, P s → s.cur.index < s.cur.size → s.mem[s.cur.base + s.cur.index]? = some b →
      Q b (moved s 1 (s.cur.index + 1))) : Relates (ρ := ρ) A R P Scanner.byte Q := by
  intro s s' hs hP
  unfold Scanner.byte
  rw [hs.cur, hs.mem _ (hA s hP)]
  by_cases h : s.cur.index ≥ s.cur.size
  · rw [if_pos h, if_pos h]
    exact .error (hs.moved 1 _)
  · rw [if_neg h, if_neg h]
    cases hb : s.mem[s.cur.base + s.cur.index]? with
    | none => exact .error hs
    | some b => exact .ok (hs.moved 1 _) (hQ s b hP (Nat.lt_of_not_le h) hb)

theorem peek {start n : Nat} (hA : ∀ s, P s → ∀ i, start ≤ i → A i) :
    Relates (ρ := ρ) A R P (Scanner.peek start n) fun _ => P := by
  intro s s' hs hP
  have hb : Bytes.slice s'.mem start n = Bytes.slice s.mem start n := by
    refine List.ext_getElem? fun i => ?_
    rw [Bytes.getElem?_slice, Bytes.getElem?_slice]
    by_cases hi : i < n
    · rw [if_pos hi, if_pos hi, hs.mem _ (hA s hP _ (Nat.le_add_right start i))]
    · rw [if_neg hi, if_neg hi]
  unfold Scanner.peek
  rw [hs.length, hb]
  by_cases h : start + n ≤ s.mem.length
  · rw [if_pos h, if_pos h]
    exact .ok hs hP
  · rw [if_neg h, if_neg h]
    exact .error hs

theorem demand {amount bound : Nat} {Q : Unit → Scan σ → Prop}
    (hQ : ∀ s, P s → Q () { s with log := .use amount bound :: s.log }) :
    Relates (ρ := ρ) A R P (Scanner.demand amount bound) Q := by
  intro s s' hs hP
  have ht : Alike A R { s with log := .use amount bound :: s.log }
      { s' with log := .use amount bound :: s'.log } :=
    ⟨hs.length, hs.mem, hs.cur, congrArg (Access.use amount bound :: ·) hs.log, hs.data⟩
  unfold Scanner.demand
  by_cases h : amount ≤ bound
  · rw [if_pos h, if_pos h]
    exact .ok ht (hQ s hP)
  · rw [if_neg h, if_neg h]
    exact .error ht

/-- `I` holds before each test, `J` after a test that goes on. -/
theorem loop {cond : α → Scanner ρ σ Bool} {body : α → Scanner ρ σ α} {I : α → Scan σ → Prop}
    {J Q : α → Scan σ → Prop}
    (hc : ∀ a, Relates A R (I a) (cond a) fun go s => if go then J a s else Q a s)
    (hb : ∀ a, Relates A R (J a) (body a) I) (fuel : Nat) (a : α) :
    Relates A R (I a) (Scanner.loop cond body fuel a) Q := by
  induction fuel generalizing a with
  | zero => exact halt _ _
  | succ fuel ih =>
    refine (hc a).bind fun go => ?_
    cases go with
    | false => exact (pure a).conseq (fun _ h => h) fun b s h => by rw [h.2]; exact h.1
    | true => exact (hb a).bind ih

/-- A loop that keeps `P`. -/
theorem while_ {cond : α → Scanner ρ σ Bool} {body : α → Scanner ρ σ α}
    (hc : ∀ a, Relates A R P (cond a) fun _ => P) (hb : ∀ a, Relates A R P (body a) fun _ => P)
    (fuel : Nat) (a : α) : Relates A R P (Scanner.loop cond body fuel a) fun _ => P :=
  loop (fun a => (hc a).conseq (fun _ h => h) fun go s h => by cases go <;> exact h) hb fuel a

/-- `P'` and `Q'` are about the window. -/
theorem within {base size : Nat} {x : Scanner ρ σ α} {P' : Scan σ → Prop}
    {Q' Q : α → Scan σ → Prop} (h : Relates A R P' x Q')
    (hP : ∀ s, P s → P' { s with cur := ⟨base, size, 0⟩ })
    (hQ : ∀ s a t, P s → Q' a t → Q a { t with cur := s.cur }) :
    Relates A R P (Scanner.within base size x) Q := by
  intro s s' hs hs'
  have hw : Alike A R { s with cur := ⟨base, size, 0⟩ } { s' with cur := ⟨base, size, 0⟩ } :=
    ⟨hs.length, hs.mem, rfl, hs.log, hs.data⟩
  have hr := h _ _ hw (hP s hs')
  unfold Scanner.within
  generalize x { s with cur := ⟨base, size, 0⟩ } = r at hr ⊢
  generalize x { s' with cur := ⟨base, size, 0⟩ } = r' at hr ⊢
  cases hr with
  | ok ht hq => exact .ok ⟨ht.length, ht.mem, hs.cur, ht.log, ht.data⟩ (hQ s _ _ hs' hq)
  | error ht => exact .error ⟨ht.length, ht.mem, hs.cur, ht.log, ht.data⟩

end Relates

end Rxs.Core.Scanner
