import Rxs.Core.Scanner

/-!
# What a scanner leaves alone

`Steady R k x`: however `x` ends, the memory and the window are as they were, so are the uses
in the log, and `k` of the data. The rules follow the operations.
-/
namespace Rxs.Core

def Access.isUse : Access → Bool
  | .move .. => false
  | .use .. => true

namespace Scanner

theorem bind_error {ρ σ α β : Type} {x : Scanner ρ σ α} {f : α → Scanner ρ σ β} {s t : Scan σ}
    {e : Halt ρ} (h : (x >>= f) s = .error e t) :
    x s = .error e t ∨ ∃ a u, x s = .ok a u ∧ f a u = .error e t := by
  change EStateM.bind x f s = .error e t at h
  unfold EStateM.bind at h
  cases hx : x s with
  | ok a u =>
    rw [hx] at h
    exact .inr ⟨a, u, rfl, h⟩
  | error e' u =>
    rw [hx] at h
    cases h
    exact .inl rfl

/-- The memory, the window, the uses in the log, and `k` of the data. -/
structure Kept {σ κ : Type} (k : σ → κ) (s t : Scan σ) : Prop where
  mem : t.mem = s.mem
  base : t.cur.base = s.cur.base
  size : t.cur.size = s.cur.size
  uses : t.log.filter Access.isUse = s.log.filter Access.isUse
  data : k t.data = k s.data
  inside : s.cur.index ≤ s.cur.size → t.cur.index ≤ t.cur.size

/-- Early results are in `R`. -/
def Steady {ρ σ κ α : Type} (R : ρ → Prop) (k : σ → κ) (x : Scanner ρ σ α) : Prop :=
  ∀ s, Kept k s (EStateM.Result.scan (x s)) ∧ ∀ r t, x s = .error (.ret r) t → R r

section
variable {ρ σ κ α β : Type} {R : ρ → Prop} {k : σ → κ}

theorem Kept.refl (s : Scan σ) : Kept k s s := ⟨rfl, rfl, rfl, rfl, rfl, id⟩

theorem Kept.trans {s t u : Scan σ} (h : Kept k s t) (h' : Kept k t u) : Kept k s u :=
  ⟨h'.mem.trans h.mem, h'.base.trans h.base, h'.size.trans h.size, h'.uses.trans h.uses,
    h'.data.trans h.data, fun hs => h'.inside (h.inside hs)⟩

namespace Steady

theorem bind {x : Scanner ρ σ α} {f : α → Scanner ρ σ β} (hx : Steady R k x)
    (hf : ∀ a, Steady R k (f a)) : Steady R k (x >>= f) := by
  intro s
  obtain ⟨hs, hr⟩ := hx s
  change Kept k s (EStateM.Result.scan (EStateM.bind x f s)) ∧
    ∀ r t, EStateM.bind x f s = .error (.ret r) t → R r
  unfold EStateM.bind
  cases h : x s with
  | ok a t =>
    rw [h] at hs
    exact ⟨hs.trans (hf a t).1, (hf a t).2⟩
  | error e t =>
    rw [h] at hs hr
    refine ⟨hs, fun r u hu => hr r t ?_⟩
    cases hu
    rfl

theorem pure (a : α) : Steady R k (Pure.pure a : Scanner ρ σ α) := fun s => ⟨.refl s, nofun⟩

theorem halt {e : Halt ρ} (h : ∀ r, e = .ret r → R r) :
    Steady R k (Scanner.halt e : Scanner ρ σ α) := by
  refine fun s => ⟨.refl s, fun r t he => h r ?_⟩
  cases he
  rfl

theorem index : Steady R k (Scanner.index : Scanner ρ σ Nat) := fun s => ⟨.refl s, nofun⟩

theorem ite {c : Prop} [Decidable c] {x y : Scanner ρ σ α} (hx : Steady R k x) (hy : Steady R k y) :
    Steady R k (if c then x else y) := by
  split <;> assumption

theorem onlyIf {c : Prop} [Decidable c] {x : Scanner ρ σ Unit} (hx : Steady R k x) :
    Steady R k (Scanner.onlyIf c x) := .ite hx (.pure ())

theorem update {f : σ → σ} (h : ∀ d, k (f d) = k d) :
    Steady R k (Scanner.update f : Scanner ρ σ Unit) :=
  fun s => ⟨⟨rfl, rfl, rfl, rfl, h s.data, id⟩, nofun⟩

theorem moved (s : Scan σ) (n : UInt64) {i : Nat} (hi : s.cur.index ≤ s.cur.size → i ≤ s.cur.size) :
    Kept k s (Scanner.moved s n i) := ⟨rfl, rfl, rfl, rfl, rfl, hi⟩

theorem take (add : Nat → UInt64 → Nat) (n : UInt64) :
    Steady R k (Scanner.take add n : Scanner ρ σ Nat) := by
  intro s
  unfold Scanner.take
  split
  · exact ⟨moved s n id, nofun⟩
  · exact ⟨moved s n fun _ => by omega, nofun⟩

theorem byte : Steady R k (Scanner.byte : Scanner ρ σ UInt8) := by
  intro s
  unfold Scanner.byte
  split
  · exact ⟨moved s 1 id, nofun⟩
  · split
    · exact ⟨moved s 1 fun _ => by omega, nofun⟩
    · exact ⟨.refl s, nofun⟩

theorem peek (start n : Nat) : Steady R k (Scanner.peek start n : Scanner ρ σ Bytes) := by
  intro s
  unfold Scanner.peek
  split <;> exact ⟨.refl s, nofun⟩

theorem loop {cond : α → Scanner ρ σ Bool} {body : α → Scanner ρ σ α} (hc : ∀ a, Steady R k (cond a))
    (hb : ∀ a, Steady R k (body a)) (fuel : Nat) (a : α) :
    Steady R k (Scanner.loop cond body fuel a) := by
  induction fuel generalizing a with
  | zero => exact .halt nofun
  | succ fuel ih => exact (hc a).bind fun _ => .ite ((hb a).bind ih) (.pure a)

theorem within {x : Scanner ρ σ α} (hx : Steady R k x) (base size : Nat) :
    Steady R k (Scanner.within base size x) := by
  intro s
  obtain ⟨h, he⟩ := hx { s with cur := ⟨base, size, 0⟩ }
  unfold Scanner.within
  cases hr : x { s with cur := ⟨base, size, 0⟩ } with
  | ok a t =>
    rw [hr] at h
    exact ⟨⟨h.mem, rfl, rfl, h.uses, h.data, id⟩, nofun⟩
  | error e t =>
    rw [hr] at h he
    refine ⟨⟨h.mem, rfl, rfl, h.uses, h.data, id⟩, fun r u hu => he r t ?_⟩
    cases hu
    rfl

theorem mono {κ' : Type} {R' : ρ → Prop} {x : Scanner ρ σ α} (h : Steady R k x) (g : κ → κ')
    (hR : ∀ r, R r → R' r) : Steady R' (g ∘ k) x :=
  fun s => ⟨⟨(h s).1.mem, (h s).1.base, (h s).1.size, (h s).1.uses, congrArg g (h s).1.data,
    (h s).1.inside⟩,
    fun r t hr => hR r ((h s).2 r t hr)⟩

end Steady

end

end Scanner

end Rxs.Core
