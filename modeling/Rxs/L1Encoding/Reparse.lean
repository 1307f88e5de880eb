import Rxs.L1Encoding.Header

/-!
# A template with another nonce

After the header the reader looks at no byte of the header again, as long as every
length fits: with integer addition it only moves forward, and the two offsets it
reads again are behind the header. So a template that is accepted is accepted with
any other bytes in the place of the nonce and of the signature, and gives the object
the same members.

* `reparse_body`: both runs, with integer addition.
* **`reparse`**: both calls of the code, where every length fits.
-/
namespace Rxs.L1.Reparse

open Rxs.Core Rxs.BlockTemplate Rxs.BlobReader Rxs.L1.ParseHistory Rxs.L1.ParseForward
  Rxs.L1.Header
open Scanner (Relates Alike Both exact wrap moved)

/-- `b'` is `b` but for the bytes from `o` to `lo`. -/
structure Patched (b b' : Bytes) (o lo : Nat) : Prop where
  length : b'.length = b.length
  outside : ∀ i, i < o ∨ lo ≤ i → b'[i]? = b[i]?

theorem Patched.take {b b' : Bytes} {o lo n : Nat} (h : Patched b b' o lo) (hn : n ≤ o) :
    b'.take n = b.take n := by
  refine List.ext_getElem? fun i => ?_
  rw [List.getElem?_take, List.getElem?_take]
  by_cases hi : i < n
  · rw [if_pos hi, if_pos hi, h.outside i (.inl (by omega))]
  · rw [if_neg hi, if_neg hi]

theorem Patched.getD {b b' : Bytes} {o lo i : Nat} (h : Patched b b' o lo) (hi : i < o) :
    b'.getD i 0 = b.getD i 0 := by
  rw [List.getD_eq_getElem?_getD, List.getD_eq_getElem?_getD, h.outside i (.inl hi)]

/-- A varint before the patch. -/
theorem Patched.varint {b b' : Bytes} {o lo i n : Nat} (h : Patched b b' o lo) (hn : i + n ≤ o) :
    (b'.drop i).take n = (b.drop i).take n := by
  have hc : ∀ c : Bytes, (c.drop i).take n = (c.take (i + n)).drop i := fun c => by
    rw [List.drop_take]
    congr 1
    omega
  rw [hc, hc, h.take hn]

/-- Where the header ends that may be patched: behind the signature, if there is
one. -/
def patchEnd (b : Bytes) (coin : Coin) (L : Nat) : Nat :=
  if Signs coin (b.getD 0 0) then 2 + L + 32 + 4 + 64 else 2 + L + 32 + 4

section
variable {p : Platform} {fuel : Nat} {t u : BlockTemplate} {b b' : Bytes} {coin : Coin} {L : Nat}

/-- The two objects when both calls start. -/
abbrev Starts (t u : BlockTemplate) (b b' : Bytes) (coin : Coin) : Parse → Parse → Prop :=
  Shared (fun _ => false) (start t b coin).data.t (start u b' coin).data.t

theorem alike_set {lo : Nat} {s s' : Scan Parse}
    (h : Alike (lo ≤ ·) (Starts t u b b' coin) s s') (m : Member) (v : m.Val) :
    Alike (lo ≤ ·) (Starts t u b b' coin) (set m v s) (set m v s') :=
  ⟨h.length, h.mem, h.cur, h.log, h.data.put v rfl⟩

theorem alike_afterBytes {lo : Nat} {s s' : Scan Parse}
    (h : Alike (lo ≤ ·) (Starts t u b b' coin) s s') (n : Nat) :
    Alike (lo ≤ ·) (Starts t u b b' coin) (afterBytes s n) (afterBytes s' n) := by
  induction n generalizing s s' with
  | zero => exact h
  | succ n ih =>
    have hi : s'.cur.index = s.cur.index := by rw [h.cur]
    show Alike _ _ (afterBytes (moved s 1 (s.cur.index + 1)) n)
      (afterBytes (moved s' 1 (s'.cur.index + 1)) n)
    rw [hi]
    exact ih (h.moved 1 _)

/-- The front is the same in both. -/
theorem alike_front {lo : Nat} (coin : Coin) (h : Patched b b' (2 + L + 32) lo) :
    Alike (lo ≤ ·) (Starts t u b b' coin) (front p t b coin L) (front p u b' coin L) := by
  have hstart : Alike (lo ≤ ·) (Starts t u b b' coin) (start t b coin) (start u b' coin) := by
    refine ⟨h.length, fun i hi => h.outside i (.inr hi), ?_, rfl, rfl, nofun, fun _ _ => rfl,
      fun _ _ => rfl, nofun⟩
    show ({ size := b'.length } : Cursor) = { size := b.length }
    rw [h.length]
  unfold front
  simp only
  rw [h.getD (i := 0) (by omega), h.getD (i := 1) (by omega),
    h.varint (i := 2) (n := L) (by omega)]
  refine Alike.moved (alike_set ?_ _ _) _ _
  refine alike_set (Alike.moved (alike_set ?_ _ _) _ _) _ _
  refine alike_afterBytes (alike_set (Alike.moved (alike_set ?_ _ _) _ _) _ _) L
  exact hstart.moved 1 1

theorem parseFront_eq {add : Nat → UInt64 → Nat} (coin : Coin) (hadd : Adds add) (h2 : 2 ≤ b.length)
    (hb : b.length < 2 ^ 63) (hL : varintLength (b.drop 2) = some L) (hfuel : L ≤ fuel)
    (hfit : 38 + L ≤ b.length) :
    parseFront add p fuel (start t b coin) = .ok () (front p t b coin L) := by
  rcases parseFront_ran hadd p fuel t h2 hb coin with ⟨L', hL', -, -, hf⟩ | ⟨e, u, -, -, he⟩
  · rw [hL] at hL'
    cases hL'
    exact hf
  · rcases he with ⟨-, he⟩ | ⟨-, he⟩
    · have := he L hL
      omega
    · have := he L hL
      omega

/-- **Both runs**, with integer addition, of a template and a patched one. -/
theorem reparse_body (h2 : 2 ≤ b.length) (hb : b.length < 2 ^ 32)
    (hL : varintLength (b.drop 2) = some L) (hfuel : L ≤ fuel) (hfit : 38 + L ≤ b.length)
    (hp : Patched b b' (2 + L + 32) (patchEnd b coin L)) :
    Both (patchEnd b coin L ≤ ·) (Starts t u b b' coin) (fun _ _ => True)
      (parseBody exact p fuel false (start t b coin))
      (parseBody exact p fuel false (start u b' coin)) := by
  have hlen := hp.length
  have hL' : varintLength (b'.drop 2) = some L :=
    varintLength_take hL (Nat.le_refl L) _ (hp.varint (by omega))
  have hf := parseFront_eq (p := p) (t := t) coin adds_exact h2 (by omega) hL hfuel hfit
  have hf' := parseFront_eq (p := p) (t := u) coin adds_exact (b := b') (by omega)
    (by omega) hL' hfuel (by omega)
  obtain ⟨hm, hcur, -, hco, hv, -, -, hwr⟩ := front_fronted p t b coin L
  obtain ⟨-, -, -, hco', hv', -, -, -⟩ := front_fronted p u b' coin L
  have hal := alike_front (p := p) (t := t) (u := u) coin hp
  have hcoin : (start t b coin).data.t .coin = (start u b' coin).data.t .coin := rfl
  have hadd : ∀ lo, Ahead lo exact := fun lo => .inr fun i n => Nat.le_add_right i n.toNat
  have hoff : ∀ o, tracked (.offset o) = true → .offset o ∉ (front p t b coin L).data.written := by
    have hall : ∀ m ∈ [Member.offset .NONCE_OFFSET, .prevId, .timestamp, .versionSecond,
      .versionFirst], tracked m = false := by decide
    intro o ho hmem
    rw [hwr] at hmem
    exact absurd (ho.symm.trans (hall _ hmem)) nofun
  have hknown : Member.versionFirst ∈ (front p t b coin L).data.written := by
    rw [hwr]
    decide
  rw [parseBody_front hf, parseBody_front hf', hco, hco', hv, hv', hp.getD (by omega)]
  have hroom : ∀ lo i, lo ≤ i → i ≤ b.length → ∀ s : Scan Parse,
      s.cur = { size := b.length, index := i } → s.data.written =
        (front p t b coin L).data.written → At lo true [.versionFirst] s := by
    intro lo i hlo hi s hs hw
    refine ⟨?_, fun _ => .inr ?_, fun o ho hmem => absurd (hw ▸ hmem) (hoff o ho), fun m hmem => ?_⟩
    · rw [hs]
      show lo ≤ 0 + i
      omega
    · rw [hs]
      exact ⟨rfl, hi, hb⟩
    · rw [List.mem_singleton.mp hmem, hw]
      exact hknown
  have htail : ∀ lo W, Member.versionFirst ∈ W → Rel (fun _ => false) lo
      (start t b coin).data.t (start u b' coin).data.t true W (parseTail exact p fuel false coin)
      W := fun lo W hW =>
    rel_parseTail (fun _ _ => rfl) (hadd lo) hcoin hW (fun h => absurd h Bool.false_ne_true) coin
  by_cases hsg : Signs coin (b.getD 0 0)
  · have hlo : patchEnd b coin L = 2 + L + 32 + 4 + 64 := if_pos hsg
    rw [hlo] at hal ⊢
    rw [afterFront_signed hsg]
    have htake : Relates (ρ := Bool) (2 + L + 32 + 4 + 64 ≤ ·) (Starts t u b b' coin)
        (fun s => s = front p t b coin L) (getSpan exact kSignatureSize)
        fun _ => At (2 + L + 32 + 4 + 64) true [.versionFirst] := by
      refine (Relates.take (Q := fun _ => At (2 + L + 32 + 4 + 64) true [.versionFirst])
        fun s hs hle => ?_).bind fun _ => (Relates.pure _).conseq (fun _ h => h) fun _ _ h => h.1
      rw [hs] at hle ⊢
      have hi : exact (front p t b coin L).cur.index kSignatureSize = 2 + L + 32 + 4 + 64 := by
        rw [hcur]
        rfl
      rw [hi] at hle ⊢
      rw [hcur] at hle
      refine hroom _ _ (Nat.le_refl _) hle _ ?_ rfl
      show { (front p t b coin L).cur with index := 2 + L + 32 + 4 + 64 } = _
      rw [hcur]
    have hrest : ∀ sig, Rel (fun _ => false) (2 + L + 32 + 4 + 64) (start t b coin).data.t
        (start u b' coin).data.t true [.versionFirst] (do
          assign .minerSignature sig
          parseVote exact
          parseTail exact p fuel false coin) [.vote, .minerSignature, .versionFirst] := by
      intro sig
      refine (rel_assign sig rfl rfl).bind fun _ => (rel_parseVote rfl (hadd _)).bind fun _ => ?_
      exact htail _ _ (by decide)
    have hboth := htake.bind hrest
    exact hboth.conseq (fun _ h => h) (fun _ _ _ => trivial) _ _ hal rfl
  · have hlo : patchEnd b coin L = 2 + L + 32 + 4 := if_neg hsg
    rw [hlo] at hal ⊢
    rw [afterFront_unsigned hsg]
    exact (htail _ _ List.mem_cons_self).conseq (fun _ h => h) (fun _ _ _ => trivial) _ _ hal
      (hroom _ _ (Nat.le_refl _) (by omega) _ hcur rfl)

/-- **Both calls** of the code, of an accepted template and a patched one: where
every length fits, the second is accepted too, and assigns the same members the same
values. -/
theorem reparse (h2 : 2 ≤ b.length) (hb : b.length < 2 ^ 32)
    (hL : varintLength (b.drop 2) = some L) (hfuel : L ≤ fuel) (hfit : 38 + L ≤ b.length)
    (hp : Patched b b' (2 + L + 32) (patchEnd b coin L)) (hmin : ¬ b.length < kMinSize)
    (hf : ∀ a ∈ (parse exact p fuel t b coin false).log, a.Fits) :
    (parse wrap p fuel u b' coin false).rc = (parse wrap p fuel t b coin false).rc ∧
      Starts t u b b' coin
        ⟨(parse wrap p fuel t b coin false).t, (parse wrap p fuel t b coin false).written⟩
        ⟨(parse wrap p fuel u b' coin false).t, (parse wrap p fuel u b' coin false).written⟩ := by
  have hlen := hp.length
  have htracks := tracks_parseBody (p := p) (Nat.le_refl fuel) false
  have hboth := reparse_body (p := p) (t := t) (u := u) h2 hb hL hfuel hfit hp
  have hlog : ∀ a ∈ (EStateM.Result.scan (parseBody exact p fuel false (start t b coin))).log,
      a.Fits := by
    unfold parse at hf
    rw [if_neg hmin] at hf
    exact hf
  have hlog' : (EStateM.Result.scan (parseBody exact p fuel false (start u b' coin))).log =
      (EStateM.Result.scan (parseBody exact p fuel false (start t b coin))).log := by
    generalize parseBody exact p fuel false (start t b coin) = r at hboth ⊢
    generalize parseBody exact p fuel false (start u b' coin) = r' at hboth ⊢
    cases hboth with
    | ok ht _ => exact ht.log
    | error ht => exact ht.log
  have heq := (htracks.eq_of_fits (ok_start t ⟨b, by omega⟩ coin) trivial hlog).1
  have heq' := (htracks.eq_of_fits (ok_start u ⟨b', by omega⟩ coin) trivial
    (fun a ha => hlog a (hlog' ▸ ha))).1
  unfold parse
  rw [if_neg hmin, if_neg (by omega), heq, heq']
  generalize parseBody exact p fuel false (start t b coin) = r at hboth ⊢
  generalize parseBody exact p fuel false (start u b' coin) = r' at hboth ⊢
  cases hboth with
  | ok ht _ => exact ⟨rfl, ht.data⟩
  | @error e u u' ht => exact ⟨by cases e <;> rfl, ht.data⟩

end

end Rxs.L1.Reparse
