import Mathlib.Logic.Function.Basic

/-!
# A buffer with checked access

Of a memory the first `size` bytes are there, and an access to any other is a fault.
`Keeps I Q x` says that `x`, from a memory of `I`, ends without a fault in a value of `Q` and
a memory of `I`; its rules follow the operations. `Same` memories have their zeros at the same
places and differ in a range only.

* `Keeps.strlen`: the length of a string, of which some end is known.
-/
namespace Rxs.Core.Buffer

abbrev Mem := Nat → UInt8

/-- An access outside, by its index. -/
structure Outside where
  index : Nat
  deriving DecidableEq, Repr

abbrev Access := StateT Mem (Except Outside)

variable {α β : Type} {I : Mem → Prop} {P Q : α → Prop} {R : β → Prop} {m₀ m : Mem}
  {size i lo hi : Nat}

def read (size i : Nat) : Access UInt8 := fun m =>
  if i < size then .ok (m i, m) else .error ⟨i⟩

def write (size i : Nat) (b : UInt8) : Access Unit := fun m =>
  if i < size then .ok ((), Function.update m i b) else .error ⟨i⟩

/-- The bytes before the next zero. -/
def strlen (size i : Nat) : Access Nat :=
  if _h : i < size then do
    let b ← read size i
    if b = 0 then pure 0
    else
      let n ← strlen size (i + 1)
      pure (n + 1)
  else fun _ => .error ⟨i⟩
termination_by size - i

/-- `n` bytes. -/
def readBytes (size : Nat) : Nat → Nat → Access (List UInt8)
  | _, 0 => pure []
  | i, n + 1 => do
    let b ← read size i
    let s ← readBytes size (i + 1) n
    pure (b :: s)

/-- The string at `i`, without its end. -/
def readString (size i : Nat) : Access (List UInt8) := do
  let n ← strlen size i
  readBytes size i n

theorem bind_ok {x : Access α} {f : α → Access β} {a : α} {m m' : Mem} (h : x m = .ok (a, m')) :
    (x >>= f) m = f a m' := by
  change (x m >>= fun r => f r.1 r.2) = _
  rw [h]
  rfl

theorem bind_error {x : Access α} {f : α → Access β} {e : Outside} (h : x m = .error e) :
    (x >>= f) m = .error e := by
  change (x m >>= fun r => f r.1 r.2) = _
  rw [h]
  rfl

/-! ## Memories -/

/-- Zeros are where they were, and outside a range all is. -/
structure Same (lo hi : Nat) (m₀ m : Mem) : Prop where
  zero : ∀ i, m i = 0 ↔ m₀ i = 0
  frame : ∀ i, i < lo ∨ hi ≤ i → m i = m₀ i

theorem Same.refl (lo hi : Nat) (m : Mem) : Same lo hi m m := ⟨fun _ => Iff.rfl, fun _ _ => rfl⟩

theorem Same.update (h : Same lo hi m₀ m) (hi' : lo ≤ i ∧ i < hi) (hm : m₀ i ≠ 0) {b : UInt8}
    (hb : b ≠ 0) : Same lo hi m₀ (Function.update m i b) where
  zero j := by
    by_cases hj : j = i
    · subst hj
      simp [hm, hb]
    · rw [Function.update_of_ne hj]
      exact h.zero j
  frame j hj := by
    rw [Function.update_of_ne (by omega)]
    exact h.frame j hj

/-! ## The rules -/

/-- Without a fault, in a value of `Q`, and `I` is kept. -/
def Keeps (I : Mem → Prop) (Q : α → Prop) (x : Access α) : Prop :=
  ∀ m, I m → ∃ a m', x m = .ok (a, m') ∧ Q a ∧ I m'

namespace Keeps

theorem pure {a : α} (h : Q a) : Keeps I Q (Pure.pure a) := fun m hm => ⟨a, m, rfl, h, hm⟩

/-- One after the other. -/
theorem bind {x : Access α} {f : α → Access β} (hx : Keeps I P x)
    (hf : ∀ a, P a → Keeps I R (f a)) : Keeps I R (x >>= f) := by
  intro m hm
  obtain ⟨a, m', heq, ha, hm'⟩ := hx m hm
  obtain ⟨b, m'', heq', hb, hm''⟩ := hf a ha m' hm'
  exact ⟨b, m'', (bind_ok heq).trans heq', hb, hm''⟩

theorem ite {c : Prop} [Decidable c] {x y : Access α} (hx : c → Keeps I Q x)
    (hy : ¬c → Keeps I Q y) : Keeps I Q (if c then x else y) := by
  split
  · exact hx ‹_›
  · exact hy ‹_›

theorem mono {x : Access α} (h : Keeps I P x) (hpq : ∀ a, P a → Q a) : Keeps I Q x := by
  intro m hm
  obtain ⟨a, m', heq, ha, hm'⟩ := h m hm
  exact ⟨a, m', heq, hpq a ha, hm'⟩

theorem read {Q : UInt8 → Prop} (h : i < size) (hQ : ∀ m, I m → Q (m i)) :
    Keeps I Q (Buffer.read size i) :=
  fun m hm => ⟨m i, m, if_pos h, hQ m hm, hm⟩

/-- A byte about which nothing is asked. -/
theorem read_any (h : i < size) : Keeps I (fun _ => True) (Buffer.read size i) :=
  read h fun _ _ => trivial

theorem write {b : UInt8} (h : i < size) (hI : ∀ m, I m → I (Function.update m i b)) :
    Keeps I (fun _ => True) (Buffer.write size i b) :=
  fun m hm => ⟨(), Function.update m i b, if_pos h, trivial, hI m hm⟩

/-- Before an end that is known there is the end of the string. -/
theorem strlen (hI : ∀ m, I m → ∀ i, m i = 0 ↔ m₀ i = 0) {z : Nat} (hz : z < size)
    (hzero : m₀ z = 0) (h : i ≤ z) :
    Keeps I (fun n => i + n ≤ z ∧ m₀ (i + n) = 0 ∧ ∀ j < n, m₀ (i + j) ≠ 0)
      (Buffer.strlen size i) := by
  induction hn : z - i generalizing i with
  | zero =>
    have heq : i = z := by omega
    subst heq
    rw [Buffer.strlen, dif_pos hz]
    refine bind (read hz (Q := fun b => b = 0) fun m hm => (hI m hm i).mpr hzero) ?_
    rintro b rfl
    rw [if_pos rfl]
    exact pure ⟨Nat.le_refl _, hzero, fun j hj => by omega⟩
  | succ n ih =>
    have hi : i < size := by omega
    rw [Buffer.strlen, dif_pos hi]
    refine bind (read hi (Q := fun b => b = 0 ↔ m₀ i = 0) fun m hm => hI m hm i) fun b hb => ?_
    refine ite (fun hb' => ?_) fun hb' => ?_
    · exact pure ⟨by omega, hb.mp hb', fun j hj => by omega⟩
    · refine bind (ih (by omega) (by omega)) fun k hk => ?_
      obtain ⟨hle, hend, hbefore⟩ := hk
      refine pure ⟨by omega, ?_, fun j hj => ?_⟩
      · rw [← hend]
        congr 1
        omega
      · cases j with
        | zero => exact fun hj => hb' (hb.mpr hj)
        | succ j =>
          have := hbefore j (by omega)
          rwa [Nat.add_assoc, Nat.add_comm 1] at this

theorem readBytes {n : Nat} (h : i + n ≤ size) :
    Keeps I (fun _ => True) (Buffer.readBytes size i n) := by
  induction n generalizing i with
  | zero => exact pure trivial
  | succ n ih =>
    exact bind (read_any (by omega)) fun b _ =>
      bind (ih (by omega)) fun s _ => pure trivial

theorem readString (hI : ∀ m, I m → ∀ i, m i = 0 ↔ m₀ i = 0) {z : Nat} (hz : z < size)
    (hzero : m₀ z = 0) (h : i ≤ z) : Keeps I (fun _ => True) (Buffer.readString size i) :=
  bind (strlen hI hz hzero h) fun _ hn => readBytes (by omega)

end Keeps

/-- Without a zero the end of the buffer is passed. -/
theorem strlen_outside (h : ∀ j, i ≤ j → j < size → m j ≠ 0) (hi : i ≤ size) :
    strlen size i m = .error ⟨size⟩ := by
  induction hn : size - i generalizing i with
  | zero =>
    have heq : i = size := by omega
    rw [strlen, dif_neg (by omega), heq]
  | succ n ih =>
    have hread : read size i m = .ok (m i, m) := if_pos (by omega)
    rw [strlen, dif_pos (by omega), bind_ok hread, if_neg (h i (Nat.le_refl i) (by omega)),
      bind_error (ih (fun j hj => h j (by omega)) (by omega) (by omega))]

end Rxs.Core.Buffer
