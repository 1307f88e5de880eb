import Rxs.Core.Bytes

/-!
# Scanners

A scanner reads a byte string through a cursor and computes on data `σ`. Every
move of the cursor, and every use of something bounded, goes into a log, latest
first. It ends by itself, by an early result, by an exception, by something the
language leaves undefined, or because a loop ran out of fuel.

The addition that moves the cursor is a parameter. `exact` is that of the
integers, `wrap` that of 64-bit words. `Tracks L k I d P Q` compares a scanner `P`
over `exact` with the same scanner `Q` over `wrap`, from states whose memory and
`k` of the data satisfy `I`: either both do the same, and move forward only, by
`d` at least when they end by themselves, leave `k` of the data alone and end on
fuel `L`; or `P` meets an access that does not fit, and `Q` goes back or into
what is undefined. The rules for `Tracks` follow the operations.

* `Tracks.fits_iff`: `Q` only moves forward and stays defined if and only if
  every access of `P` fits.
-/
namespace Rxs.Core

/-- A window of the memory and a position in it. -/
structure Cursor where
  base : Nat := 0
  size : Nat
  index : Nat := 0
  deriving DecidableEq, Repr

/-- A move by `n` (to where it was if refused), or the use of `amount` out of `bound`. -/
inductive Access where
  | move (c : Cursor) (n : UInt64) (after : Nat)
  | use (amount bound : Nat)
  deriving DecidableEq, Repr

namespace Access

/-- The sum of index and length is a 64-bit word, the amount is in the bound. -/
def Fits : Access → Prop
  | move c n _ => c.index + n.toNat < 2 ^ 64
  | use amount bound => amount ≤ bound

/-- The move does not go back and stays in its window and in a memory of `len` bytes. -/
def Forward (len : Nat) : Access → Prop
  | move c _ after => c.index ≤ after ∧ after ≤ c.size ∧ c.base + after ≤ len
  | use .. => True

instance : DecidablePred Fits := fun a => by cases a <;> unfold Fits <;> infer_instance
instance (len : Nat) : DecidablePred (Forward len) := fun a => by
  cases a <;> unfold Forward <;> infer_instance

end Access

inductive Halt (ρ : Type) where
  | ret (r : ρ)
  | thrown
  | undefined
  | fuel
  deriving DecidableEq, Repr

structure Scan (σ : Type) where
  mem : Bytes
  cur : Cursor
  log : List Access := []
  data : σ

abbrev Scanner (ρ σ : Type) := EStateM (Halt ρ) (Scan σ)

/-- The state a run ends in. -/
def EStateM.Result.scan {ε σ α : Type} : EStateM.Result ε σ α → σ
  | .ok _ s | .error _ s => s

namespace Scanner

variable {ρ σ α β κ : Type}

def exact (i : Nat) (n : UInt64) : Nat := i + n.toNat
def wrap (i : Nat) (n : UInt64) : Nat := (i + n.toNat) % 2 ^ 64

/-! ## Operations -/

def index : Scanner ρ σ Nat := fun s => .ok s.cur.index s
def data : Scanner ρ σ σ := fun s => .ok s.data s
def update (f : σ → σ) : Scanner ρ σ Unit := fun s => .ok () { s with data := f s.data }
def halt (e : Halt ρ) : Scanner ρ σ α := fun s => .error e s

def moved (s : Scan σ) (n : UInt64) (after : Nat) : Scan σ :=
  { s with cur := { s.cur with index := after }, log := .move s.cur n after :: s.log }

/-- Move by `n`; the result is where the window was. -/
def take (add : Nat → UInt64 → Nat) (n : UInt64) : Scanner ρ σ Nat := fun s =>
  if add s.cur.index n > s.cur.size then .error .thrown (moved s n s.cur.index)
  else .ok (s.cur.base + s.cur.index) (moved s n (add s.cur.index n))

def byte : Scanner ρ σ UInt8 := fun s =>
  if s.cur.index ≥ s.cur.size then .error .thrown (moved s 1 s.cur.index)
  else match s.mem[s.cur.base + s.cur.index]? with
    | some b => .ok b (moved s 1 (s.cur.index + 1))
    | none => .error .undefined s

/-- Read `n` bytes of the memory. -/
def peek (start n : Nat) : Scanner ρ σ Bytes := fun s =>
  if start + n ≤ s.mem.length then .ok (Bytes.slice s.mem start n) s else .error .undefined s

/-- What is defined only for `amount` in `bound`. -/
def demand (amount bound : Nat) : Scanner ρ σ Unit := fun s =>
  if amount ≤ bound then .ok () { s with log := .use amount bound :: s.log }
  else .error .undefined { s with log := .use amount bound :: s.log }

def onlyIf (c : Prop) [Decidable c] (x : Scanner ρ σ Unit) : Scanner ρ σ Unit :=
  if c then x else pure ()

def loop (cond : α → Scanner ρ σ Bool) (body : α → Scanner ρ σ α) : Nat → α → Scanner ρ σ α
  | 0, _ => halt .fuel
  | fuel + 1, a => do
    let go ← cond a
    if go then do
      let a ← body a
      loop cond body fuel a
    else pure a

/-- Scan another window, then go on where one was. -/
def within (base size : Nat) (x : Scanner ρ σ α) : Scanner ρ σ α := fun s =>
  match x { s with cur := ⟨base, size, 0⟩ } with
  | .ok a t => .ok a { t with cur := s.cur }
  | .error e t => .error e { t with cur := s.cur }

/-! ## Two additions -/

structure Ok (s : Scan σ) : Prop where
  index : s.cur.index ≤ s.cur.size
  window : s.cur.base + s.cur.size ≤ s.mem.length
  length : s.mem.length < 2 ^ 63
  log : ∀ a ∈ s.log, a.Fits ∧ a.Forward s.mem.length

/-- What a scanner leaves alone: the memory, the window, `k` of the data; and
it moves by `d`. -/
structure Moved (k : σ → κ) (d : Nat) (s t : Scan σ) : Prop where
  mem : t.mem = s.mem
  base : t.cur.base = s.cur.base
  size : t.cur.size = s.cur.size
  index : s.cur.index + d ≤ t.cur.index
  kept : k t.data = k s.data

/-- The run ends well: in a state as described, or by a result or an exception. -/
def Well (live : Prop) (k : σ → κ) (d : Nat) (s : Scan σ) :
    EStateM.Result (Halt ρ) (Scan σ) α → Prop
  | .ok _ t => Ok t ∧ Moved k d s t
  | .error e t => (∀ a ∈ t.log, a.Fits ∧ a.Forward s.mem.length) ∧ e ≠ .undefined ∧
      (live → e ≠ .fuel)

/-- A run in a memory of `len` bytes that went back, or is undefined. -/
def Bad (len : Nat) (r : EStateM.Result (Halt ρ) (Scan σ) α) : Prop :=
  (∃ a ∈ (EStateM.Result.scan r).log, ¬ a.Forward len) ∨ ∃ t, r = .error .undefined t

/-- A run that met an access that does not fit, and stopped. -/
def Stuck (r : EStateM.Result (Halt ρ) (Scan σ) α) : Prop :=
  ∃ e t, r = .error e t ∧ ∃ a ∈ t.log, ¬ a.Fits

def TracksAt (live : Prop) (k : σ → κ) (d : Nat) (s : Scan σ)
    (r r' : EStateM.Result (Halt ρ) (Scan σ) α) : Prop :=
  (r' = r ∧ Well live k d s r) ∨ (Stuck r ∧ Bad s.mem.length r')

/-- The log only grows. -/
def Grows (x : Scanner ρ σ α) : Prop := ∀ s, s.log <:+ (EStateM.Result.scan (x s)).log

/-- From every state in which `I` holds of what is left alone. -/
structure Tracks (L : Nat) (k : σ → κ) (I : κ → Nat → Prop) (d : Nat) (P Q : Scanner ρ σ α) :
    Prop where
  grows : Grows Q
  at_ : ∀ s, Ok s → I (k s.data) s.mem.length →
    TracksAt (s.mem.length < L) k d s (P s) (Q s)

theorem Moved.refl (k : σ → κ) (s : Scan σ) : Moved k 0 s s := ⟨rfl, rfl, rfl, Nat.le_refl _, rfl⟩

theorem Moved.trans {k : σ → κ} {d e : Nat} {s t u : Scan σ} (h : Moved k d s t)
    (h' : Moved k e t u) : Moved k (d + e) s u where
  mem := h'.mem.trans h.mem
  base := h'.base.trans h.base
  size := h'.size.trans h.size
  index := by have := h.index; have := h'.index; omega
  kept := h'.kept.trans h.kept

/-! ## Rules -/

theorem Grows.bind {x : Scanner ρ σ α} {f : α → Scanner ρ σ β} (hx : Grows x)
    (hf : ∀ a, Grows (f a)) : Grows (x >>= f) := by
  intro s
  have hs := hx s
  change _ <:+ (EStateM.Result.scan (EStateM.bind x f s)).log
  unfold EStateM.bind
  cases h : x s with
  | ok a t => rw [h] at hs; exact hs.trans (hf a t)
  | error e t => rw [h] at hs; exact hs

/-- What was done before left alone what is left alone. -/
theorem TracksAt.after {live : Prop} {k : σ → κ} {d e : Nat} {s t : Scan σ}
    {r r' : EStateM.Result (Halt ρ) (Scan σ) α} (h : TracksAt live k d t r r')
    (hm : Moved k e s t) : TracksAt live k (e + d) s r r' := by
  rcases h with ⟨hr, hw⟩ | ⟨hs, hb⟩
  · refine .inl ⟨hr, ?_⟩
    cases r with
    | ok a u => exact ⟨hw.1, hm.trans hw.2⟩
    | error ε u => exact ⟨fun a ha => hm.mem ▸ hw.1 a ha, hw.2⟩
  · exact .inr ⟨hs, hm.mem ▸ hb⟩

theorem TracksAt.bind {live : Prop} {k : σ → κ} {d e : Nat} {s : Scan σ} {x y : Scanner ρ σ α}
    {f g : α → Scanner ρ σ β} (h : TracksAt live k d s (x s) (y s)) (hg : ∀ a, Grows (g a))
    (hf : ∀ a t, x s = .ok a t → Ok t → Moved k d s t →
      TracksAt live k e t (f a t) (g a t)) :
    TracksAt live k (d + e) s ((x >>= f) s) ((y >>= g) s) := by
  change TracksAt live k (d + e) s (EStateM.bind x f s) (EStateM.bind y g s)
  unfold EStateM.bind
  rcases h with ⟨hy, hw⟩ | ⟨⟨ε, t, hx, hs⟩, hb⟩
  · rw [hy]
    cases hr : x s with
    | error ε t => rw [hr] at hw; exact .inl ⟨rfl, hw⟩
    | ok a t =>
      rw [hr] at hw
      exact (hf a t hr hw.1 hw.2).after hw.2
  · rw [hx]
    refine .inr ⟨⟨ε, t, rfl, hs⟩, ?_⟩
    rcases hb with ⟨a, ha, hn⟩ | ⟨u, hu⟩
    · cases hr : y s with
      | error ε u => rw [hr] at ha; exact .inl ⟨a, ha, hn⟩
      | ok b u => rw [hr] at ha; exact .inl ⟨a, (hg b u).subset ha, hn⟩
    · rw [hu]; exact .inr ⟨u, rfl⟩

theorem bind_ok {x : Scanner ρ σ α} {f : α → Scanner ρ σ β} {s u : Scan σ} {b : β}
    (h : (x >>= f) s = .ok b u) : ∃ a t, x s = .ok a t ∧ f a t = .ok b u := by
  change EStateM.bind x f s = .ok b u at h
  unfold EStateM.bind at h
  cases hx : x s with
  | ok a t => rw [hx] at h; exact ⟨a, t, rfl, h⟩
  | error ε t => rw [hx] at h; cases h

theorem TracksAt.mono {live live' : Prop} {k : σ → κ} {d e : Nat} {s : Scan σ}
    {r r' : EStateM.Result (Halt ρ) (Scan σ) α} (h : TracksAt live k d s r r')
    (hl : live' → live) (he : e ≤ d) : TracksAt live' k e s r r' := by
  refine h.imp_left fun ⟨hr, hw⟩ => ⟨hr, ?_⟩
  cases r with
  | ok a t => exact ⟨hw.1, { hw.2 with index := by have := hw.2.index; omega }⟩
  | error ε t => exact ⟨hw.1, hw.2.1, fun h => hw.2.2 (hl h)⟩

theorem TracksAt.forget {live : Prop} {k : σ → κ} {d : Nat} {s : Scan σ}
    {r r' : EStateM.Result (Halt ρ) (Scan σ) α} (h : TracksAt live k d s r r') :
    TracksAt live (fun _ => ()) d s r r' := by
  refine h.imp_left fun ⟨hr, hw⟩ => ⟨hr, ?_⟩
  cases r with
  | ok a t => exact ⟨hw.1, hw.2.mem, hw.2.base, hw.2.size, hw.2.index, rfl⟩
  | error ε t => exact hw

namespace Tracks

variable {L : Nat} {k : σ → κ} {I : κ → Nat → Prop} {d e : Nat}

theorem forget {P Q : Scanner ρ σ α} (h : Tracks L k (fun _ _ => True) d P Q) :
    Tracks L (fun _ : σ => ()) (fun _ _ => True) d P Q :=
  ⟨h.grows, fun s hs _ => (h.at_ s hs trivial).forget⟩

/-- What `P` ends in, if it ends by itself. -/
theorem moved {P Q : Scanner ρ σ α} (h : Tracks L k I d P Q) {s t : Scan σ} {a : α} (hs : Ok s)
    (hI : I (k s.data) s.mem.length) (hr : P s = .ok a t) : Ok t ∧ Moved k d s t := by
  rcases h.at_ s hs hI with ⟨-, hw⟩ | ⟨⟨ε, u, hP, -⟩, -⟩
  · rw [hr] at hw; exact hw
  · rw [hr] at hP; cases hP

theorem mono {P Q : Scanner ρ σ α} (h : Tracks L k I d P Q) (he : e ≤ d) : Tracks L k I e P Q :=
  ⟨h.grows, fun s hs hI => (h.at_ s hs hI).mono id he⟩

theorem bind {P Q : Scanner ρ σ α} {P' Q' : α → Scanner ρ σ β} (h : Tracks L k I d P Q)
    (h' : ∀ a, Tracks L k I e (P' a) (Q' a)) : Tracks L k I (d + e) (P >>= P') (Q >>= Q') where
  grows := h.grows.bind fun a => (h' a).grows
  at_ s hs hI := (h.at_ s hs hI).bind (fun a => (h' a).grows) fun a t _ ht hm => by
    rw [← hm.mem]
    exact (h' a).at_ t ht (by rw [hm.kept, hm.mem]; exact hI)

/-- Where no progress is asked for. -/
theorem seq {P Q : Scanner ρ σ α} {P' Q' : α → Scanner ρ σ β} (h : Tracks L k I d P Q)
    (h' : ∀ a, Tracks L k I 0 (P' a) (Q' a)) : Tracks L k I 0 (P >>= P') (Q >>= Q') :=
  (h.bind h').mono (Nat.zero_le _)

/-- Where the first part makes the progress. -/
theorem fst {P Q : Scanner ρ σ α} {P' Q' : α → Scanner ρ σ β} (h : Tracks L k I d P Q)
    (h' : ∀ a, Tracks L k I 0 (P' a) (Q' a)) : Tracks L k I d (P >>= P') (Q >>= Q') :=
  h.bind h'

theorem pure (a : α) : Tracks (ρ := ρ) L k I 0 (Pure.pure a) (Pure.pure a) :=
  ⟨fun _ => List.suffix_rfl, fun s hs _ => .inl ⟨rfl, hs, .refl k s⟩⟩

theorem ite {c : Prop} [Decidable c] {P Q P' Q' : Scanner ρ σ α} (h : Tracks L k I d P Q)
    (h' : Tracks L k I d P' Q') : Tracks L k I d (if c then P else P') (if c then Q else Q') := by
  split <;> assumption

theorem onlyIf {c : Prop} [Decidable c] {P Q : Scanner ρ σ Unit} (h : Tracks L k I 0 P Q) :
    Tracks L k I 0 (Scanner.onlyIf c P) (Scanner.onlyIf c Q) :=
  .ite h (.pure ())

theorem index : Tracks (ρ := ρ) L k I 0 Scanner.index Scanner.index :=
  ⟨fun _ => List.suffix_rfl, fun s hs _ => .inl ⟨rfl, hs, .refl k s⟩⟩

theorem data : Tracks (ρ := ρ) L k I 0 Scanner.data Scanner.data :=
  ⟨fun _ => List.suffix_rfl, fun s hs _ => .inl ⟨rfl, hs, .refl k s⟩⟩

theorem update {f : σ → σ} (h : ∀ t, k (f t) = k t) :
    Tracks (ρ := ρ) L k I 0 (Scanner.update f) (Scanner.update f) :=
  ⟨fun _ => List.suffix_rfl, fun s hs _ =>
    .inl ⟨rfl, ⟨hs.index, hs.window, hs.length, hs.log⟩, rfl, rfl, rfl, Nat.le_refl _, h s.data⟩⟩

theorem halt {ε : Halt ρ} (hu : ε ≠ .undefined) (hf : ε ≠ .fuel) :
    Tracks (α := α) L k I d (Scanner.halt ε) (Scanner.halt ε) :=
  ⟨fun _ => List.suffix_rfl, fun _ hs _ => .inl ⟨rfl, hs.log, hu, fun _ => hf⟩⟩

theorem demand (amount bound : Nat) :
    Tracks (ρ := ρ) L k I 0 (Scanner.demand amount bound) (Scanner.demand amount bound) := by
  refine ⟨fun s => ?_, fun s hs _ => ?_⟩ <;> unfold Scanner.demand <;> split
  · exact List.suffix_cons _ _
  · exact List.suffix_cons _ _
  · rename_i h
    refine .inl ⟨rfl, ⟨hs.index, hs.window, hs.length, ?_⟩, rfl, rfl, rfl, Nat.le_refl _, rfl⟩
    exact List.forall_mem_cons.mpr ⟨⟨h, trivial⟩, hs.log⟩
  · rename_i h
    exact .inr ⟨⟨_, _, rfl, _, List.mem_cons_self .., h⟩, .inr ⟨_, rfl⟩⟩

end Tracks

/-! ## Moves -/

theorem wrap_eq {i : Nat} {n : UInt64} (h : i + n.toNat < 2 ^ 64) : wrap i n = exact i n :=
  Nat.mod_eq_of_lt h

/-- A sum that is no 64-bit word comes out below its first summand. -/
theorem wrap_lt {i : Nat} {n : UInt64} (hi : i < 2 ^ 64) (h : ¬ i + n.toNat < 2 ^ 64) :
    wrap i n < i := by
  have hn := n.toNat_lt
  unfold wrap
  omega

theorem Ok.moved {k : σ → κ} {s : Scan σ} (hs : Ok s) {n : UInt64}
    (h : s.cur.index + n.toNat ≤ s.cur.size) :
    Ok (moved s n (s.cur.index + n.toNat)) ∧
      Moved k n.toNat s (Scanner.moved s n (s.cur.index + n.toNat)) := by
  have hw := hs.window
  have hl := hs.length
  have hf : s.cur.index + n.toNat < 2 ^ 64 := by omega
  have hb : s.cur.base + (s.cur.index + n.toNat) ≤ s.mem.length := by omega
  exact ⟨⟨h, hw, hl, List.forall_mem_cons.mpr ⟨⟨hf, Nat.le_add_right _ _, h, hb⟩, hs.log⟩⟩,
    rfl, rfl, rfl, Nat.le_refl _, rfl⟩

/-- A refused move that fits leaves a good log. -/
theorem Ok.refused {s : Scan σ} (hs : Ok s) {n : UInt64} (h : s.cur.index + n.toNat < 2 ^ 64) :
    ∀ a ∈ (Scanner.moved s n s.cur.index).log, a.Fits ∧ a.Forward s.mem.length := by
  have hw := hs.window
  have hi := hs.index
  exact List.forall_mem_cons.mpr ⟨⟨h, Nat.le_refl _, hi, by omega⟩, hs.log⟩

namespace Tracks

variable {L : Nat} {k : σ → κ} {I : κ → Nat → Prop} {d e : Nat}

theorem take_eq {add : Nat → UInt64 → Nat} {n : UInt64} {s t : Scan σ} {i : Nat}
    (h : Scanner.take (ρ := ρ) add n s = .ok i t) : i = s.cur.base + s.cur.index := by
  unfold Scanner.take at h
  split at h <;> cases h
  rfl

theorem take (n : UInt64) :
    Tracks (ρ := ρ) L k I n.toNat (Scanner.take exact n) (Scanner.take wrap n) := by
  refine ⟨fun s => ?_, fun s hs _ => ?_⟩ <;> unfold Scanner.take
  · split <;> exact List.suffix_cons _ _
  · have hi := hs.index
    have hw := hs.window
    have hl := hs.length
    by_cases hf : s.cur.index + n.toNat < 2 ^ 64
    · rw [wrap_eq hf]
      refine .inl ⟨rfl, ?_⟩
      split
      · exact ⟨hs.refused hf, by simp, fun _ => by simp⟩
      · rename_i h
        exact hs.moved (Nat.le_of_not_lt h)
    · -- the sum is beyond every size, the wrapped sum is below the index
      have he : exact s.cur.index n > s.cur.size := by unfold exact; omega
      have hlt := wrap_lt (by omega) hf
      have hle : ¬ wrap s.cur.index n > s.cur.size := by omega
      rw [if_pos he, if_neg hle]
      refine .inr ⟨⟨_, _, rfl, _, List.mem_cons_self .., hf⟩, .inl ⟨_, List.mem_cons_self .., ?_⟩⟩
      intro h
      exact absurd h.1 (Nat.not_le_of_lt hlt)

theorem byte : Tracks (ρ := ρ) L k I 1 Scanner.byte Scanner.byte := by
  refine ⟨fun s => ?_, fun s hs _ => .inl ⟨rfl, ?_⟩⟩ <;> unfold Scanner.byte
  · split
    · exact List.suffix_cons _ _
    · split
      · exact List.suffix_cons _ _
      · exact List.suffix_rfl
  · have hi := hs.index
    have hw := hs.window
    have hl := hs.length
    have h1 : (1 : UInt64).toNat = 1 := rfl
    split
    · exact ⟨hs.refused (by omega), by simp, fun _ => by simp⟩
    · rename_i h
      have hlt : s.cur.base + s.cur.index < s.mem.length := by omega
      rw [List.getElem?_eq_getElem hlt]
      exact hs.moved (n := 1) (by omega)

/-- Bytes are read where they are. -/
theorem peekAt {live : Prop} {s : Scan σ} (hs : Ok s) {start n : Nat}
    (h : start + n ≤ s.mem.length) :
    TracksAt (ρ := ρ) live k 0 s (Scanner.peek start n s) (Scanner.peek start n s) := by
  refine .inl ⟨rfl, ?_⟩
  unfold Scanner.peek
  rw [if_pos h]
  exact ⟨hs, .refl k s⟩

theorem grows_peek (start n : Nat) : Grows (Scanner.peek (ρ := ρ) (σ := σ) start n) := by
  intro s
  unfold Scanner.peek
  split <;> exact List.suffix_rfl

theorem grows_within (base size : Nat) {x : Scanner ρ σ α} (h : Grows x) :
    Grows (within base size x) := by
  intro s
  have hs := h { s with cur := ⟨base, size, 0⟩ }
  unfold within
  split <;> rename_i hr <;> rw [hr] at hs <;> exact hs

/-- A part of the window that was just passed is scanned by itself. -/
theorem subAt {live : Prop} {s : Scan σ} (hs : Ok s) {base : Nat} {n : UInt64}
    {P Q : Scanner ρ σ α} (hb : base ≤ s.cur.base + s.cur.index)
    (h : ∀ t, Ok t → t.mem = s.mem → k t.data = k s.data → TracksAt live k d t (P t) (Q t))
    (hg : Grows Q) :
    TracksAt live k 0 s ((Scanner.take exact n >>= fun _ => within base n.toNat P) s)
      ((Scanner.take wrap n >>= fun _ => within base n.toNat Q) s) := by
  have htake := ((take (ρ := ρ) (L := s.mem.length + 1) (k := k) (I := fun _ _ => True) n).at_ s hs
    trivial).mono (fun _ : live => Nat.lt_succ_self _) (Nat.le_refl _)
  refine (htake.bind (e := 0) (fun _ => grows_within _ _ hg) fun _ t _ ht hm => ?_).mono id
    (Nat.zero_le _)
  have hi := ht.index
  have hw := ht.window
  have hmi := hm.index
  have hmb := hm.base
  have hwin : base + n.toNat ≤ t.mem.length := by omega
  let t₀ : Scan σ := { t with cur := ⟨base, n.toNat, 0⟩ }
  have hok : Ok t₀ := ⟨Nat.zero_le _, hwin, ht.length, ht.log⟩
  unfold within
  rcases h t₀ hok hm.mem hm.kept with ⟨hr, hwell⟩ | ⟨⟨ε, u, hP, hs'⟩, hbad⟩
  · rw [hr]
    refine .inl ⟨rfl, ?_⟩
    cases hP : P t₀ with
    | ok a u =>
      rw [hP] at hwell
      obtain ⟨hu, hmu⟩ := hwell
      have hmem : u.mem = t.mem := hmu.mem
      exact ⟨⟨hi, hmem ▸ hw, hu.length, hu.log⟩, hmem, rfl, rfl, Nat.le_refl _, hmu.kept⟩
    | error ε u => rw [hP] at hwell; exact hwell
  · rw [hP]
    refine .inr ⟨⟨ε, _, rfl, hs'⟩, ?_⟩
    rcases hbad with ⟨a, ha, hn⟩ | ⟨v, hv⟩
    · cases hr : Q t₀ with
      | ok b u => rw [hr] at ha; exact .inl ⟨a, ha, hn⟩
      | error ε u => rw [hr] at ha; exact .inl ⟨a, ha, hn⟩
    · rw [hv]; exact .inr ⟨_, rfl⟩

theorem grows_loop {cond : α → Scanner ρ σ Bool} {body : α → Scanner ρ σ α}
    (hc : ∀ a, Grows (cond a)) (hb : ∀ a, Grows (body a)) (fuel : Nat) (a : α) :
    Grows (Scanner.loop cond body fuel a) := by
  induction fuel generalizing a with
  | zero => exact fun s => List.suffix_rfl
  | succ fuel ih =>
    refine (hc a).bind fun go => ?_
    cases go with
    | false => exact fun s => List.suffix_rfl
    | true => exact (hb a).bind ih

/-- A loop whose body moves by a byte at least ends once it has the fuel for
what is left of the window. -/
theorem loopAt {cond cond' : α → Scanner ρ σ Bool} {body body' : α → Scanner ρ σ α}
    (hc : ∀ a, Tracks L k I 0 (cond a) (cond' a)) (hb : ∀ a, Tracks L k I 1 (body a) (body' a))
    (fuel : Nat) (a : α) (s : Scan σ) (hs : Ok s) (hI : I (k s.data) s.mem.length) :
    TracksAt (s.mem.length < L ∧ s.cur.size - s.cur.index < fuel) k 0 s
      (Scanner.loop cond body fuel a s) (Scanner.loop cond' body' fuel a s) := by
  induction fuel generalizing a s with
  | zero =>
    exact .inl ⟨rfl, hs.log, by simp, fun h => absurd h.2 (Nat.not_lt_zero _)⟩
  | succ fuel ih =>
    have hg := grows_loop (fun a => (hc a).grows) (fun a => (hb a).grows) fuel
    have hgo : ∀ go : Bool, Grows (if go then body' a >>= Scanner.loop cond' body' fuel
        else Pure.pure a) := by
      intro go
      cases go with
      | false => exact fun s => List.suffix_rfl
      | true => exact (hb a).grows.bind hg
    refine (((hc a).at_ s hs hI).mono (fun h => h.1) (Nat.le_refl _)).bind (e := 0) hgo ?_
    intro go t _ ht hm
    have hmi := hm.index
    have hms := hm.size
    cases go with
    | false => exact .inl ⟨rfl, ht, .refl k t⟩
    | true =>
      have hIt : I (k t.data) t.mem.length := by rw [hm.kept, hm.mem]; exact hI
      have hbt := (hb a).at_ t ht hIt
      rw [hm.mem] at hbt
      refine ((hbt.mono (fun h => h.1) (Nat.le_refl _)).bind hg fun b u _ hu hmu => ?_).mono id
        (Nat.zero_le (1 + 0))
      have hmui := hmu.index
      have hmus := hmu.size
      have hui := hu.index
      refine (ih b u hu (by rw [hmu.kept, hmu.mem]; exact hIt)).mono (fun h => ?_) (Nat.le_refl _)
      rw [hmu.mem, hm.mem]
      exact ⟨h.1, by omega⟩

theorem loop {cond cond' : α → Scanner ρ σ Bool} {body body' : α → Scanner ρ σ α} {fuel : Nat}
    (hc : ∀ a, Tracks L k I 0 (cond a) (cond' a)) (hb : ∀ a, Tracks L k I 1 (body a) (body' a))
    (hL : L ≤ fuel) (a : α) :
    Tracks L k I 0 (Scanner.loop cond body fuel a) (Scanner.loop cond' body' fuel a) where
  grows := grows_loop (fun a => (hc a).grows) (fun a => (hb a).grows) fuel a
  at_ s hs hI := (loopAt hc hb fuel a s hs hI).mono (fun h => ⟨h, by
    have := hs.window; omega⟩) (Nat.le_refl _)

/-- `Q` only moves forward and stays defined if and only if every access of `P` fits. -/
theorem fits_iff {P Q : Scanner ρ σ α} (h : Tracks L k I d P Q) {s : Scan σ} (hs : Ok s)
    (hI : I (k s.data) s.mem.length) :
    ¬ Bad s.mem.length (Q s) ↔ ∀ a ∈ (EStateM.Result.scan (P s)).log, a.Fits := by
  rcases h.at_ s hs hI with ⟨hr, hw⟩ | ⟨⟨ε, t, hP, a, ha, hn⟩, hb⟩
  · rw [hr]
    cases hP : P s with
    | ok a t =>
      rw [hP] at hw
      refine ⟨fun _ a ha => (hw.1.log a ha).1, fun _ hb => ?_⟩
      rcases hb with ⟨a, ha, hn⟩ | ⟨u, hu⟩
      · exact hn (hw.2.mem ▸ (hw.1.log a ha).2)
      · cases hu
    | error ε t =>
      rw [hP] at hw
      refine ⟨fun _ a ha => (hw.1 a ha).1, fun _ hb => ?_⟩
      rcases hb with ⟨a, ha, hn⟩ | ⟨u, hu⟩
      · exact hn (hw.1 a ha).2
      · cases hu; exact hw.2.1 rfl
  · rw [hP]
    exact ⟨fun hg => absurd hb hg, fun hf => absurd (hf a ha) hn⟩

/-- Where every access fits, both runs are the same, and enough fuel is enough. -/
theorem eq_of_fits {P Q : Scanner ρ σ α} (h : Tracks L k I d P Q) {s : Scan σ} (hs : Ok s)
    (hI : I (k s.data) s.mem.length) (hf : ∀ a ∈ (EStateM.Result.scan (P s)).log, a.Fits) :
    Q s = P s ∧ Well (s.mem.length < L) k d s (P s) := by
  rcases h.at_ s hs hI with h | ⟨⟨ε, t, hP, a, ha, hn⟩, -⟩
  · exact h
  · rw [hP] at hf; exact absurd (hf a ha) hn

end Tracks

end Scanner

end Rxs.Core
