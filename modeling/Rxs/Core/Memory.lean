import Rxs.Core.X86

/-!
# Words in memory

`Within` is a region of memory, which may go past the last address to the first; `Frame`
says that all else is as it was. `slot a j` is the place of word `j` from `a` on.
-/
namespace Rxs.Core.X86

/-- One of `size` bytes from `start` on. -/
def Within (start : BitVec 64) (size : Nat) (a : BitVec 64) : Prop := (a - start).toNat < size

/-- Nothing changes where `P` does not hold. -/
def Frame (P : BitVec 64 → Prop) (m m' : BitVec 64 → BitVec 8) : Prop := ∀ a, ¬ P a → m' a = m a

/-- The place of word `j`. -/
def slot (a : BitVec 64) (j : Nat) : BitVec 64 := a + BitVec.ofNat 64 (8 * j)

/-- The bytes of a word. -/
def Bytes8 (P : BitVec 64 → Prop) (a : BitVec 64) : Prop := ∀ i < 8, P (a + BitVec.ofNat 64 i)

variable {P Q : BitVec 64 → Prop} {m m' m'' : BitVec 64 → BitVec 8} {a b v : BitVec 64}

/-! ## Places -/

theorem slot_zero (a : BitVec 64) : slot a 0 = a := by
  simp [slot]

theorem slot_add (a : BitVec 64) (i j : Nat) :
    slot a i + BitVec.ofNat 64 (8 * j) = slot a (i + j) := by
  rw [slot, slot, BitVec.add_assoc, ← BitVec.ofNat_add, ← Nat.mul_add]

theorem slot_slot (a : BitVec 64) (i j : Nat) : slot (slot a i) j = slot a (i + j) :=
  slot_add a i j

theorem slot_byte (a : BitVec 64) {i j : Nat} (h : 8 * j + i < 2 ^ 64) :
    (slot a j + BitVec.ofNat 64 i - a).toNat = 8 * j + i := by
  have hcancel : slot a j + BitVec.ofNat 64 i - a = BitVec.ofNat 64 (8 * j + i) := by
    rw [slot, BitVec.add_assoc, ← BitVec.ofNat_add, BitVec.add_comm, BitVec.add_sub_cancel]
  rw [hcancel, BitVec.toNat_ofNat, Nat.mod_eq_of_lt h]

theorem within_slot {size j : Nat} (h : 8 * j + 8 ≤ size) (hsize : size ≤ 2 ^ 64) :
    Bytes8 (Within a size) (slot a j) := by
  intro i hi
  rw [Within, slot_byte a (by omega)]
  omega

/-- A word and bytes that are apart from it. -/
theorem not_within_slot {n j : Nat} (h : j < n ∨ n < j) (hj : 8 * j + 8 ≤ 2 ^ 64)
    (hn : 8 * n + 8 ≤ 2 ^ 64) : Bytes8 (fun c => ¬ Within (slot a n) 8 c) (slot a j) := by
  intro i hi
  have hback : slot a j + BitVec.ofNat 64 i - slot a n =
      (slot a j + BitVec.ofNat 64 i - a) - (slot a n + BitVec.ofNat 64 0 - a) := by
    simp only [slot]
    bv_omega
  rw [Within, hback, BitVec.toNat_sub, slot_byte a (by omega), slot_byte a (by omega)]
  omega

/-! ## Loads -/

theorem load64_congr (h : ∀ i < 8, m' (a + BitVec.ofNat 64 i) = m (a + BitVec.ofNat 64 i)) :
    load64 m' a = load64 m a := by
  have h0 := h 0 (by decide)
  rw [BitVec.add_zero] at h0
  have h1 := h 1 (by decide)
  have h2 := h 2 (by decide)
  have h3 := h 3 (by decide)
  have h4 := h 4 (by decide)
  have h5 := h 5 (by decide)
  have h6 := h 6 (by decide)
  have h7 := h 7 (by decide)
  unfold load64
  rw [← h0]
  exact congrArg₂ (· ++ ·) (congrArg₂ (· ++ ·) (congrArg₂ (· ++ ·) (congrArg₂ (· ++ ·)
    (congrArg₂ (· ++ ·) (congrArg₂ (· ++ ·) (congrArg₂ (· ++ ·) h7 h6) h5) h4) h3) h2) h1) rfl

theorem load64_store64 (m : BitVec 64 → BitVec 8) (a v : BitVec 64) :
    load64 (store64 m a v) a = v := by
  have byte (i : Nat) (hi : i < 8) :
      store64 m a v (a + BitVec.ofNat 64 i) = v.extractLsb' (8 * i) 8 := by
    have hsub : (a + BitVec.ofNat 64 i - a).toNat = i := by
      have h := slot_byte a (i := i) (j := 0) (by omega)
      rwa [slot_zero, Nat.mul_zero, Nat.zero_add] at h
    rw [store64, if_pos (by omega), hsub]
  have h0 := byte 0 (by decide)
  rw [BitVec.add_zero] at h0
  have h1 : store64 m a v (a + 1) = _ := byte 1 (by decide)
  have h2 : store64 m a v (a + 2) = _ := byte 2 (by decide)
  have h3 : store64 m a v (a + 3) = _ := byte 3 (by decide)
  have h4 : store64 m a v (a + 4) = _ := byte 4 (by decide)
  have h5 : store64 m a v (a + 5) = _ := byte 5 (by decide)
  have h6 : store64 m a v (a + 6) = _ := byte 6 (by decide)
  have h7 : store64 m a v (a + 7) = _ := byte 7 (by decide)
  rw [load64, h0, h1, h2, h3, h4, h5, h6, h7]
  have glue (k n : Nat) : v.extractLsb' (8 * (k + 1)) n ++ v.extractLsb' (8 * k) 8 =
      v.extractLsb' (8 * k) (n + 8) := BitVec.extractLsb'_append_extractLsb'_eq_extractLsb' (by omega)
  rw [glue 6, glue 5, glue 4, glue 3, glue 2, glue 1, glue 0]
  exact BitVec.extractLsb'_eq_self

/-! ## Frames -/

theorem Frame.refl (P : BitVec 64 → Prop) (m : BitVec 64 → BitVec 8) : Frame P m m := fun _ _ => rfl

theorem Frame.trans (h : Frame P m m') (h' : Frame P m' m'') : Frame P m m'' := fun a ha =>
  (h' a ha).trans (h a ha)

theorem Frame.mono (h : Frame P m m') (hPQ : ∀ a, P a → Q a) : Frame Q m m' := fun a ha =>
  h a fun hp => ha (hPQ a hp)

theorem Frame.load64 (h : Frame P m m') (ha : Bytes8 (fun c => ¬ P c) a) :
    X86.load64 m' a = X86.load64 m a := load64_congr fun i hi => h _ (ha i hi)

theorem frame_store64 (m : BitVec 64 → BitVec 8) (a v : BitVec 64) :
    Frame (Within a 8) m (store64 m a v) := fun _ hb => if_neg hb

theorem Frame.store64 (h : Frame P m m') (ha : Bytes8 P a) (v : BitVec 64) :
    Frame P m (store64 m' a v) := by
  refine h.trans ((frame_store64 m' a v).mono fun b hb => ?_)
  have hp := ha (b - a).toNat hb
  rwa [BitVec.ofNat_toNat, BitVec.setWidth_eq, BitVec.add_comm, BitVec.sub_add_cancel] at hp

/-- A word that is written, among the words around it. -/
theorem load64_store64_slot (m : BitVec 64 → BitVec 8) (a v : BitVec 64) {i j : Nat}
    (hi : 8 * i + 8 ≤ 2 ^ 64) (hj : 8 * j + 8 ≤ 2 ^ 64) :
    load64 (store64 m (slot a i) v) (slot a j) = if j = i then v else load64 m (slot a j) := by
  split
  next h =>
    subst h
    exact load64_store64 m _ v
  next h =>
    exact (frame_store64 m _ v).load64 (not_within_slot (Nat.lt_or_gt_of_ne h) hj hi)

/-! ## Words in a row -/

/-- Words are written from word `n` on. -/
def storeWords (m : BitVec 64 → BitVec 8) (a : BitVec 64) :
    Nat → List (BitVec 64) → BitVec 64 → BitVec 8
  | _, [] => m
  | n, w :: ws => storeWords (store64 m (slot a n) w) a (n + 1) ws

theorem load64_storeWords (m : BitVec 64 → BitVec 8) (a : BitVec 64) {n j : Nat}
    {ws : List (BitVec 64)} (hn : 8 * (n + ws.length) ≤ 2 ^ 64) (hj : 8 * j + 8 ≤ 2 ^ 64) :
    load64 (storeWords m a n ws) (slot a j) =
      if h : n ≤ j ∧ j < n + ws.length then ws[j - n] else load64 m (slot a j) := by
  induction ws generalizing m n with
  | nil =>
    rw [dif_neg (by simp)]
    rfl
  | cons w ws ih =>
    rw [List.length_cons] at hn
    rw [storeWords, ih _ (by omega), load64_store64_slot _ _ _ (by omega) hj]
    by_cases h : n + 1 ≤ j ∧ j < n + 1 + ws.length
    · have hpos : j - n = j - (n + 1) + 1 := by omega
      rw [dif_pos h, dif_pos (by rw [List.length_cons]; omega)]
      simp only [hpos, List.getElem_cons_succ]
    · rw [dif_neg h]
      by_cases heq : j = n
      · subst heq
        simp
      · rw [if_neg heq, dif_neg (by rw [List.length_cons]; omega)]

theorem frame_storeWords (m : BitVec 64 → BitVec 8) (a : BitVec 64) {n size : Nat}
    {ws : List (BitVec 64)} (hn : 8 * (n + ws.length) ≤ size) (hsize : size ≤ 2 ^ 64) :
    Frame (Within a size) m (storeWords m a n ws) := by
  induction ws generalizing m n with
  | nil => exact .refl _ m
  | cons w ws ih =>
    rw [List.length_cons] at hn
    exact .trans (.store64 (.refl _ m) (within_slot (by omega) hsize) w) (ih _ (by omega))

end Rxs.Core.X86
