import Mathlib.Data.Fintype.EquivFin
import Mathlib.Data.Fintype.Prod
import Mathlib.Logic.Equiv.Fin.Basic
import Rxs.L2Machine.Argon2
import Rxs.L2Machine.Argon2Round

/-!
# Argon2 for a processor

The code for a processor has a block in registers, and keeps the block that it made last there:
the block before is read from memory once for a segment. `argon2_select_impl` measures the
implementations that the processor can run and takes one.

* `Rounds`: a loop of rounds over the registers; `run_eq`.
* `code_fill_block`: the block that the registers make.
* `sameSegment_simd`: a segment.
* **`implementations_agree`**: Argon2 with any of them is the same.
-/
namespace Rxs.L2.Argon2

open Rxs.Core
open Rxs.Core.Blake2b (W)
open Rxs.Core.Blamka (P Lines foldl_lines lines_ROUND)
open Rxs.Core.Unwritten (Cells Prog Does Same read write each)
open Rxs.L1.Blake2b (M128 M256)
open Rxs.L1.Blake2bLong (State)

/-! ## Registers of a block -/

/-- `n` registers of `w` words: which word of the block a place in a register has. -/
def cell {w n : Nat} (h : n * w = 128) : Fin n × Fin w ≃ Fin 128 :=
  finProdFinEquiv.trans (finCongr h)

section

variable {R : Type} {w n : Nat} (S : Simd R w) (h : n * w = 128)

/-- The block that registers have. -/
def stored (s : Fin n → R) : Block := fun j => S.word (s ((cell h).symm j).1) ((cell h).symm j).2

def loaded (b : Block) : Fin n → R := fun r => S.loadu fun i => b (cell h (r, i))

theorem stored_loaded (b : Block) : stored S h (loaded S h b) = b := by
  funext j
  simp [stored, loaded, S.word_loadu]

theorem stored_cell (s : Fin n → R) (r : Fin n) (i : Fin w) :
    stored S h s (cell h (r, i)) = S.word (s r) i := by
  simp [stored]

/-- The arguments of a macro, after it. -/
def assign (place : Fin 8 → Fin n) (x : Fin 8 → R) (s : Fin n → R) : Fin n → R :=
  (List.finRange 8).foldl (fun s k => Function.update s (place k) (x k)) s

theorem foldl_update_of_not_mem {place : Fin 8 → Fin n} (x : Fin 8 → R) {j : Fin n}
    {ks : List (Fin 8)} (hj : ∀ k ∈ ks, place k ≠ j) (s : Fin n → R) :
    ks.foldl (fun s k => Function.update s (place k) (x k)) s j = s j := by
  induction ks generalizing s with
  | nil => rfl
  | cons k ks ih =>
    rw [List.foldl_cons, ih fun k hk => hj k (List.mem_cons_of_mem _ hk),
      Function.update_of_ne (hj k List.mem_cons_self).symm]

theorem foldl_update_at {place : Fin 8 → Fin n} (hplace : Function.Injective place)
    (x : Fin 8 → R) {k : Fin 8} {ks : List (Fin 8)} (hks : ks.Nodup) (hk : k ∈ ks)
    (s : Fin n → R) :
    ks.foldl (fun s k => Function.update s (place k) (x k)) s (place k) = x k := by
  induction ks generalizing s with
  | nil => exact absurd hk List.not_mem_nil
  | cons j ks ih =>
    obtain ⟨hj, hks⟩ := List.nodup_cons.mp hks
    rw [List.foldl_cons]
    rcases List.mem_cons.mp hk with rfl | hk
    · have hrest (i : Fin 8) (hi : i ∈ ks) : place i ≠ place k := fun heq =>
        hj (hplace heq ▸ hi)
      rw [foldl_update_of_not_mem x hrest, Function.update_self]
    · exact ih hks hk _

end

/-- A loop of rounds, each of eight registers. Line `k` of a block has its words in those of
step `touched k`. -/
structure Rounds {R : Type} {w n : Nat} (S : Simd R w) (h : n * w = 128)
    (line : Fin 8 → Fin 16 → Fin 128) where
  steps : Nat
  ROUND : (Fin 8 → R) → Fin 8 → R
  place : Fin steps → Fin 8 → Fin n
  touched : Fin 8 → Fin steps
  reg : Fin 8 → Fin 16 → Fin 8
  lane : Fin 8 → Fin 16 → Fin w
  place_inj : ∀ i k j l, place i k = place j l → i = j ∧ k = l
  line_eq : ∀ k m, line k m = cell h (place (touched k) (reg k m), lane k m)
  round_eq : ∀ x k m,
    S.word (ROUND x (reg k m)) (lane k m) = P (fun m => S.word (x (reg k m)) (lane k m)) m

section

variable {R : Type} {w n : Nat} {S : Simd R w} {h : n * w = 128}
  {line : Fin 8 → Fin 16 → Fin 128} (r : Rounds S h line)

def Rounds.step (i : Fin r.steps) (s : Fin n → R) : Fin n → R :=
  assign (r.place i) (r.ROUND fun k => s (r.place i k)) s

/-- `for (i = 0; i < steps; ++i)`. -/
def Rounds.run (s : Fin n → R) : Fin n → R :=
  (List.finRange r.steps).foldl (fun s i => r.step i s) s

theorem Rounds.lines (e : Fin 8 × Fin 16 ≃ Fin 128) (he : ∀ k m, e (k, m) = line k m) :
    Lines e (stored S h) P r.touched r.step where
  line k s m := by
    have hinj : Function.Injective (r.place (r.touched k)) := fun a b hab =>
      (r.place_inj _ _ _ _ hab).2
    simp only [he, r.line_eq, stored_cell]
    rw [Rounds.step, assign, foldl_update_at hinj _ (List.nodup_finRange 8) (List.mem_finRange _),
      r.round_eq]
  frame {k i} hne s m := by
    have hplace (a : Fin 8) (_ : a ∈ List.finRange 8) :
        r.place i a ≠ r.place (r.touched k) (r.reg k m) := fun heq =>
      hne (r.place_inj _ _ _ _ heq).1.symm
    simp only [he, r.line_eq, stored_cell]
    rw [Rounds.step, assign, foldl_update_of_not_mem _ hplace]

/-- **The loop** is the rounds of all lines. -/
theorem Rounds.run_eq (hline : Function.Injective fun p : Fin 8 × Fin 16 => line p.1 p.2)
    (s : Fin n → R) : stored S h (r.run s) =
      (List.finRange 8).foldl (fun v i => Blamka.ROUND (line i) v) (stored S h s) := by
  have hcard : Fintype.card (Fin 8 × Fin 16) = Fintype.card (Fin 128) := by simp
  let e := Equiv.ofBijective _ ((Fintype.bijective_iff_injective_and_card _).mpr ⟨hline, hcard⟩)
  have he (k : Fin 8) (m : Fin 16) : e (k, m) = line k m := rfl
  have hall := foldl_lines (lines_ROUND e) (List.nodup_finRange 8) (List.mem_finRange ·)
    (stored S h s)
  rw [Rounds.run, foldl_lines (r.lines e he) (List.nodup_finRange _) (List.mem_finRange ·)]
  exact hall.symm

end

/-! ## A block -/

/-- The code for a processor. -/
structure Code (R : Type) (w n : Nat) where
  simd : Simd R w
  words : n * w = 128
  rows : Rounds simd words rowPlace
  columns : Rounds simd words columnPlace

theorem rowPlace_injective :
    Function.Injective fun p : Fin 8 × Fin 16 => rowPlace p.1 p.2 := by
  rintro ⟨i, m⟩ ⟨j, n⟩ h
  have hval : i.val * 16 + m.val = j.val * 16 + n.val := congrArg Fin.val h
  obtain rfl : i = j := Fin.ext (by omega)
  obtain rfl : m = n := Fin.ext (by omega)
  rfl

theorem columnPlace_injective :
    Function.Injective fun p : Fin 8 × Fin 16 => columnPlace p.1 p.2 := by
  rintro ⟨i, m⟩ ⟨j, n⟩ h
  have hval : i.val * 2 + (m.val / 2 * 16 + m.val % 2) =
      j.val * 2 + (n.val / 2 * 16 + n.val % 2) := congrArg Fin.val h
  obtain rfl : i = j := Fin.ext (by omega)
  obtain rfl : m = n := Fin.ext (by omega)
  rfl

section

variable {R : Type} {w n : Nat} (code : Code R w n)

/-- The registers and the block that is stored.
mirrors src/3rdparty/argon2/arch/x86_64/lib/argon2-template-128.h:11-47 -/
def Code.fill_block (s : Fin n → R) (ref_block : Block) (next_block : Option Block) :
    (Fin n → R) × Block :=
  let load := loaded code.simd code.words
  let s := fun i => code.simd.xor (s i) (load ref_block i)
  let block_XY := match next_block with
    | none => s
    | some b => fun i => code.simd.xor (s i) (load b i)
  let s := code.rows.run s
  let s := code.columns.run s
  let s := fun i => code.simd.xor (s i) (block_XY i)
  (s, stored code.simd code.words s)

theorem stored_xor (s t : Fin n → R) (j : Fin 128) :
    stored code.simd code.words (fun i => code.simd.xor (s i) (t i)) j =
      stored code.simd code.words s j ^^^ stored code.simd code.words t j :=
  code.simd.word_xor _ _ _

/-- **The block** that the registers make is what they keep. -/
theorem code_fill_block (s : Fin n → R) (ref_block : Block) (next_block : Option Block) :
    stored code.simd code.words (code.fill_block s ref_block next_block).1 =
        fill_block (stored code.simd code.words s) ref_block next_block ∧
      (code.fill_block s ref_block next_block).2 =
        fill_block (stored code.simd code.words s) ref_block next_block := by
  have hrows := code.rows.run_eq rowPlace_injective
  have hcolumns := code.columns.run_eq columnPlace_injective
  have hstart : stored code.simd code.words
      (fun i => code.simd.xor (s i) (loaded code.simd code.words ref_block i)) =
        fun k => ref_block k ^^^ stored code.simd code.words s k := by
    funext k
    rw [stored_xor, stored_loaded, BitVec.xor_comm]
  have hblock : stored code.simd code.words (code.fill_block s ref_block next_block).1 =
      fill_block (stored code.simd code.words s) ref_block next_block := by
    funext k
    have hxor := BitVec.xor_comm (stored code.simd code.words s k) (ref_block k)
    cases next_block with
    | none =>
      simp only [fill_block, Code.fill_block, stored_xor, hcolumns, hrows, hstart, stored_loaded,
        hxor]
      exact BitVec.xor_comm _ _
    | some b =>
      simp only [fill_block, Code.fill_block, stored_xor, hcolumns, hrows, hstart, stored_loaded,
        hxor]
      exact BitVec.xor_comm _ _
  exact ⟨hblock, hblock⟩

/-! ## A segment -/

/-- `zero_block` and `zero2_block` are registers too. -/
def Code.fill : Fill := fun prev_block ref_block next_block =>
  (code.fill_block (loaded code.simd code.words prev_block) ref_block next_block).2

theorem code_fill : code.fill = fill_block := by
  funext prev_block ref_block next_block
  rw [Code.fill, (code_fill_block code _ _ _).2, stored_loaded]

/-- mirrors src/3rdparty/argon2/arch/x86_64/lib/argon2-template-128.h:123-166 -/
def Code.step (inst : Instance) (position : Position) (i : Nat) (x : Loop × (Fin n → R)) :
    Prog Block (Loop × (Fin n → R)) := do
  let p ← pseudo_rand code.fill inst position i (rotate inst x.1)
  let l := p.2
  let ref_lane := ref_lane inst position p.1
  let ref_index := xmrig_ar2_index_alpha inst { position with index := i } (p.1.toNat % 2 ^ 32)
    (ref_lane = position.lane)
  let ref_block ← read inst.memory_blocks (inst.lane_length * ref_lane + ref_index)
  let next_block ← next_block inst position l.curr_offset
  let b := code.fill_block x.2 ref_block next_block
  write inst.memory_blocks l.curr_offset b.2
  return ({ l with curr_offset := l.curr_offset + 1, prev_offset := l.prev_offset + 1 }, b.1)

/-- The state is the block before the first one.
mirrors src/3rdparty/argon2/arch/x86_64/lib/argon2-template-128.h:68-167 -/
def Code.fill_segment (inst : Instance) (position : Position) : Prog Block Unit := do
  let starting_index := starting_index position
  let l := startLoop code.fill inst position
  let state ← read inst.memory_blocks l.prev_offset
  let _ ← each (code.step inst position)
    (List.range' starting_index (inst.segment_length - starting_index))
    (l, loaded code.simd code.words state)
  return

/-- Before the step of an index, with the block before in the registers. -/
structure Behind (inst : Instance) (p : Position) (i : Nat) (l : Loop) (x : Loop × (Fin n → R))
    (m : Cells Block) : Prop extends Before inst p i l m where
  loop : x.1 = l
  state : m (p.lane * inst.lane_length + before inst (p.slice * inst.segment_length + i)) =
    some (stored code.simd code.words x.2)

/-- **A step** makes the same block, and keeps it. -/
theorem same_step {inst : Instance} {p : Position} {i : Nat}
    (hin : Position.In inst { p with index := i }) (hlane : p.lane < inst.lanes) (l : Loop)
    (x : Loop × (Fin n → R)) :
    Same (Behind code inst p i l x) (step fill_block inst p i l) (code.step inst p i x)
      (Behind code inst p (i + 1)) := by
  refine Same.assume (fun m hm => And.intro (hm.toBefore.rotate hin) hm.loop) fun h => ?_
  obtain ⟨ho, rfl⟩ := h
  have hblock := code_fill_block code x.2
  unfold step Code.step
  rw [code_fill]
  refine Same.shared (does_pseudo_rand fill_block ho (ho.prev_lt hin hlane)
    fun m hm => ho.prev_filled hin hlane hm.filled) fun q => ?_
  refine Same.assume (fun m hm => hm.2) fun hq => ?_
  obtain ⟨hreflt, href⟩ := ref_spec hin hlane q.1
  refine Same.shared (Does.read hreflt fun m hm => href m hm.1.filled) fun ref_block => ?_
  -- the block before is in the registers
  refine Same.known (b := stored code.simd code.words x.2) (hq.prev_lt hin hlane)
    (fun m hm => ?_) ?_
  · rw [hq.prev]
    exact hm.1.state
  refine Same.shared (does_next_block (hq.curr_lt hin hlane)
    fun hpass m hm => hq.curr_filled hin hlane hm.1.filled hpass) fun next_block => ?_
  obtain ⟨hkept, hstored⟩ := hblock ref_block next_block
  simp only [hstored]
  refine Same.shared (Does.write (hq.curr_lt hin hlane) (Q := fun m => Behind code inst p (i + 1)
    { q.2 with curr_offset := q.2.curr_offset + 1, prev_offset := q.2.prev_offset + 1 }
    ({ q.2 with curr_offset := q.2.curr_offset + 1, prev_offset := q.2.prev_offset + 1 },
      (code.fill_block x.2 ref_block next_block).1) m) fun m hm => ?_)
    fun _ => Same.pure fun m hm => hm
  have hpos : p.slice * inst.segment_length + (i + 1) ≠ 0 := by omega
  refine { hq.next hm.1.filled _ with loop := rfl, state := ?_ }
  have hbefore : before inst (p.slice * inst.segment_length + (i + 1)) =
      p.slice * inst.segment_length + i := by
    rw [before, if_neg hpos]
    rfl
  rw [hkept, hq.curr, hbefore]
  exact Function.update_self ..

/-- The block before the first one of a segment. -/
theorem start_previous (inst : Instance) {p : Position} (hslice : p.slice < ARGON2_SYNC_POINTS)
    {l : Loop} {m : Cells Block} (hl : Before inst p (starting_index p) l m)
    (hm : Filled inst { p with index := 0 } m) (hlane : p.lane < inst.lanes) :
    l.prev_offset = p.lane * inst.lane_length +
        before inst (p.slice * inst.segment_length + starting_index p) ∧
      l.prev_offset < inst.memory_blocks ∧ (m l.prev_offset).isSome := by
  have htwo := inst.two_le
  have hcol := start_column_lt inst p hslice
  have hlt : before inst (p.slice * inst.segment_length + starting_index p) < inst.lane_length := by
    unfold before
    split <;> omega
  have hseg : p.slice ≠ 0 → inst.segment_length ≤ p.slice * inst.segment_length := fun h =>
    Nat.le_mul_of_pos_left _ (Nat.pos_of_ne_zero h)
  have hone : p.slice * inst.segment_length + starting_index p ≠ 1 ∧
      Done inst { p with index := 0 } p.lane
        (before inst (p.slice * inst.segment_length + starting_index p)) := by
    unfold before starting_index Done
    by_cases hpass : p.pass = 0
    · by_cases hzero : p.slice = 0
      · simp [hpass, hzero]
      · have := hseg hzero
        have hpos : p.slice * inst.segment_length ≠ 0 := by omega
        simp only [hpass, hzero, and_false, if_false, Nat.add_zero, if_neg hpos]
        exact ⟨by omega, .inr (.inr (.inl (by omega)))⟩
    · simp only [hpass, false_and, if_false, Nat.add_zero]
      refine ⟨?_, .inl (Nat.pos_of_ne_zero hpass)⟩
      by_cases hzero : p.slice = 0
      · simp [hzero]
      · have := hseg hzero
        omega
  have hprev := hl.prev hone.1
  rw [hprev]
  exact ⟨rfl, cell_lt hlane hlt, hm p.lane hlane _ hlt hone.2⟩

/-- **A segment** is the same. -/
theorem sameSegment_code (inst : Instance) :
    SameSegment inst fill_segment_default code.fill_segment := by
  intro p hslice hlane
  have hstart (m : Cells Block) (hm : Filled inst { p with index := 0 } m) :=
    start_before fill_block inst p hslice hm
  have hloop (x : Loop × (Fin n → R)) := @Same.each Block Loop (Loop × (Fin n → R))
    (step fill_block inst p) (code.step inst p) (Behind code inst p)
    (inst.segment_length - starting_index p) (starting_index p) (startLoop fill_block inst p) x
    fun i l x hi hlt => same_step code (in_of_start inst p hslice hi (by omega)) hlane l x
  rw [Nat.add_sub_cancel' (start_le inst p)] at hloop
  unfold fill_segment_default fill_segment_64 Code.fill_segment
  rw [code_fill]
  have hprevious (m : Cells Block) (hm : Filled inst { p with index := 0 } m) :=
    start_previous inst hslice (hstart m hm) hm hlane
  refine Same.assume (fun m hm => (hprevious m hm).2.1) fun hlt => Same.load hlt
    (fun m hm => (hprevious m hm).2.2) fun state => Same.bind ((hloop _).mono (fun m hm => ?_)
      fun _ _ _ hm => hm) fun _ _ => Same.pure fun m hm => hm.filled
  refine { hstart m hm.1 with loop := rfl, state := ?_ }
  rw [← (hprevious m hm.1).1, hm.2, stored_loaded]

end

/-! ## The implementations -/

section

variable {steps : Nat}

theorem across_lt (i : Fin steps) (k : Fin 8) : 8 * i.val + k.val < steps * 8 := by omega

theorem down_lt (i : Fin steps) (k : Fin 8) : steps * k.val + i.val < steps * 8 := by
  have hle : steps * (k.val + 1) ≤ steps * 8 := Nat.mul_le_mul_left _ k.isLt
  rw [Nat.mul_succ] at hle
  omega

/-- `s[8 * i + k]`. -/
def across (i : Fin steps) (k : Fin 8) : Fin (steps * 8) := ⟨8 * i.val + k.val, across_lt i k⟩

/-- `s[steps * k + i]`. -/
def down (i : Fin steps) (k : Fin 8) : Fin (steps * 8) := ⟨steps * k.val + i.val, down_lt i k⟩

theorem across_inj (i : Fin steps) (k : Fin 8) (j : Fin steps) (l : Fin 8)
    (h : across i k = across j l) : i = j ∧ k = l := by
  have hval : 8 * i.val + k.val = 8 * j.val + l.val := congrArg Fin.val h
  exact ⟨Fin.ext (by omega), Fin.ext (by omega)⟩

theorem down_inj (i : Fin steps) (k : Fin 8) (j : Fin steps) (l : Fin 8)
    (h : down i k = down j l) : i = j ∧ k = l := by
  have hval : steps * k.val + i.val = steps * l.val + j.val := congrArg Fin.val h
  have hi : i.val = j.val := by
    have hmod := congrArg (· % steps) hval
    simpa [Nat.mul_add_mod, Nat.mod_eq_of_lt i.isLt, Nat.mod_eq_of_lt j.isLt] using hmod
  have hk : steps * k.val = steps * l.val := by omega
  exact ⟨Fin.ext hi, Fin.ext (Nat.eq_of_mul_eq_mul_left (Nat.zero_lt_of_lt i.isLt) hk)⟩

end

section

variable {S : Simd M128 2} {ROUND : (Fin 8 → M128) → Fin 8 → M128}
  (hROUND : ∀ x k m, S.word (ROUND x (reg128 k m)) (lane128 k m) =
    P (fun m => S.word (x (reg128 k m)) (lane128 k m)) m)

/-- mirrors src/3rdparty/argon2/arch/x86_64/lib/argon2-template-128.h:31-35 -/
def rows128 : Rounds S (n := 8 * 8) rfl rowPlace where
  steps := 8
  ROUND := ROUND
  place := across
  touched k := k
  reg _ := reg128 0
  lane _ := lane128 0
  place_inj := across_inj
  line_eq := by decide
  round_eq x _ m := hROUND x 0 m

/-- mirrors src/3rdparty/argon2/arch/x86_64/lib/argon2-template-128.h:37-41 -/
def columns128 : Rounds S (n := 8 * 8) rfl columnPlace where
  steps := 8
  ROUND := ROUND
  place := down
  touched k := k
  reg _ := reg128 0
  lane _ := lane128 0
  place_inj := down_inj
  line_eq := by decide
  round_eq x _ m := hROUND x 0 m

end

def code_sse2 : Code M128 2 (8 * 8) :=
  ⟨sse2, rfl, rows128 BLAKE2_ROUND_sse2_eq, columns128 BLAKE2_ROUND_sse2_eq⟩

def code_ssse3 : Code M128 2 (8 * 8) :=
  ⟨ssse3, rfl, rows128 BLAKE2_ROUND_ssse3_eq, columns128 BLAKE2_ROUND_ssse3_eq⟩

def code_xop : Code M128 2 (8 * 8) :=
  ⟨xop, rfl, rows128 BLAKE2_ROUND_xop_eq, columns128 BLAKE2_ROUND_xop_eq⟩

theorem half8_lt (k : Fin 8) : k.val / 2 < 4 := by omega

theorem odd8_lt (k : Fin 8) : k.val % 2 < 2 := by omega

theorem quarter8_lt (k : Fin 8) : k.val / 4 < 2 := by omega

theorem fourth8_lt (k : Fin 8) : k.val % 4 < 4 := by omega

/-- mirrors src/3rdparty/argon2/arch/x86_64/lib/argon2-avx2.c:189-193 -/
def rows_avx2 : Rounds avx2 (n := 4 * 8) rfl rowPlace where
  steps := 4
  ROUND := BLAKE2_ROUND1_avx2
  place := across
  touched k := ⟨k.val / 2, half8_lt k⟩
  reg k := reg256₁ ⟨k.val % 2, odd8_lt k⟩
  lane k := lane256₁ ⟨k.val % 2, odd8_lt k⟩
  place_inj := across_inj
  line_eq := by decide
  round_eq x _ m := BLAKE2_ROUND1_avx2_eq x _ m

/-- mirrors src/3rdparty/argon2/arch/x86_64/lib/argon2-avx2.c:195-199 -/
def columns_avx2 : Rounds avx2 (n := 4 * 8) rfl columnPlace where
  steps := 4
  ROUND := BLAKE2_ROUND2_avx2
  place := down
  touched k := ⟨k.val / 2, half8_lt k⟩
  reg k := reg256₂ ⟨k.val % 2, odd8_lt k⟩
  lane k := lane256₂ ⟨k.val % 2, odd8_lt k⟩
  place_inj := down_inj
  line_eq := by decide
  round_eq x _ m := BLAKE2_ROUND2_avx2_eq x _ m

def code_avx2 : Code M256 4 (4 * 8) := ⟨avx2, rfl, rows_avx2, columns_avx2⟩

/-- mirrors src/3rdparty/argon2/arch/x86_64/lib/argon2-avx512f.c:174-178 -/
def rows_avx512f : Rounds avx512f (n := 2 * 8) rfl rowPlace where
  steps := 2
  ROUND := BLAKE2_ROUND1_avx512f
  place := across
  touched k := ⟨k.val / 4, quarter8_lt k⟩
  reg k := reg512₁ ⟨k.val % 4, fourth8_lt k⟩
  lane k := lane512₁ ⟨k.val % 4, fourth8_lt k⟩
  place_inj := across_inj
  line_eq := by decide
  round_eq x _ m := BLAKE2_ROUND1_avx512f_eq x _ m

/-- mirrors src/3rdparty/argon2/arch/x86_64/lib/argon2-avx512f.c:180-184 -/
def columns_avx512f : Rounds avx512f (n := 2 * 8) rfl columnPlace where
  steps := 2
  ROUND := BLAKE2_ROUND2_avx512f
  place := down
  touched k := ⟨k.val / 4, quarter8_lt k⟩
  reg k := reg512₂ ⟨k.val % 4, fourth8_lt k⟩
  lane k := lane512₂ ⟨k.val % 4, fourth8_lt k⟩
  place_inj := down_inj
  line_eq := by decide
  round_eq x _ m := BLAKE2_ROUND2_avx512f_eq x _ m

def code_avx512f : Code M512 8 (2 * 8) := ⟨avx512f, rfl, rows_avx512f, columns_avx512f⟩

/-! ## Selecting one -/

/-- What `cpu_flags_has_*` asks for. -/
inductive Feature where
  | sse2
  | ssse3
  | xop
  | avx2
  | avx512f
  deriving DecidableEq

/-- What the build has, and what the processor can do. -/
structure Target where
  built : Feature → Bool
  has : Feature → Bool

/-- `check` is what it returns on the processor.
mirrors src/3rdparty/argon2/lib/impl-select.h:6-11 -/
structure argon2_impl where
  name : String
  check : Option Bool
  fill_segment : Segment

/-- Where a build has no code for a processor there are functions that do nothing. -/
def entry (target : Target) (name : String) (feature : Feature) (fill_segment : Segment) :
    argon2_impl :=
  if target.built feature then ⟨name, some (target.has feature), fill_segment⟩
  else ⟨name, some false, fun _ _ => pure ()⟩

/-- mirrors src/3rdparty/argon2/arch/x86_64/lib/argon2-arch.c:25-38 -/
def argon2_get_impl_list (target : Target) : List argon2_impl :=
  [⟨"x86_64", none, fill_segment_default⟩,
    entry target "SSE2" .sse2 code_sse2.fill_segment,
    entry target "SSSE3" .ssse3 code_ssse3.fill_segment,
    entry target "XOP" .xop code_xop.fill_segment,
    entry target "AVX2" .avx2 code_avx2.fill_segment,
    entry target "AVX-512F" .avx512f code_avx512f.fill_segment]

/-- mirrors src/3rdparty/argon2/lib/impl-select.c:20 -/
def selected_argon_impl : argon2_impl := ⟨"default", none, fill_segment_default⟩

/-- The implementation that is best so far, and its time. -/
def better (benchmark_impl : String → Nat) (best : Option argon2_impl × Nat) (impl : argon2_impl) :
    Option argon2_impl × Nat :=
  if impl.check = some false then best
  else
    let bench := benchmark_impl impl.name
    if bench < best.2 then (some impl, bench) else best

/-- What is selected after it; `UINT_MAX` is the time to beat.
mirrors src/3rdparty/argon2/lib/impl-select.c:61-86 -/
def argon2_select_impl (target : Target) (benchmark_impl : String → Nat)
    (selected : argon2_impl) : argon2_impl :=
  ((argon2_get_impl_list target).foldl (better benchmark_impl) (none, 2 ^ 32 - 1)).1.getD selected

def strcasecmp_eq (a b : String) : Bool := a.toList.map Char.toLower = b.toList.map Char.toLower

def named (target : Target) (name : String) : Option argon2_impl :=
  (argon2_get_impl_list target).find? fun impl => strcasecmp_eq impl.name name

/-- No `check` is asked here.
mirrors src/3rdparty/argon2/lib/impl-select.c:101-117 -/
def argon2_select_impl_by_name (target : Target) (name : String) (selected : argon2_impl) :
    argon2_impl × Bool :=
  match named target name with
  | some impl => (impl, true)
  | none => (selected, false)

/-- A call that selects. -/
inductive Select where
  | measured (benchmark_impl : String → Nat)
  | byName (name : String)

def select (target : Target) (selected : argon2_impl) : Select → argon2_impl
  | .measured benchmark_impl => argon2_select_impl target benchmark_impl selected
  | .byName name => (argon2_select_impl_by_name target name selected).1

/-- A name is of an implementation that the processor can run, or of none. -/
def Select.Checked (target : Target) : Select → Prop
  | .measured _ => True
  | .byName name => ∀ impl, named target name = some impl → impl.check ≠ some false

/-- Its segments are those of the code without registers. -/
def Agrees (impl : argon2_impl) : Prop :=
  ∀ inst, SameSegment inst fill_segment_default impl.fill_segment

theorem agrees_entry (target : Target) (name : String) (feature : Feature) {R : Type} {w n : Nat}
    (code : Code R w n) (h : (entry target name feature code.fill_segment).check ≠ some false) :
    Agrees (entry target name feature code.fill_segment) := by
  unfold entry at h ⊢
  split
  · exact sameSegment_code code
  · next hbuilt => exact absurd (by rw [if_neg hbuilt]) h

theorem agrees_list (target : Target) :
    ∀ impl ∈ argon2_get_impl_list target, impl.check ≠ some false → Agrees impl := by
  simp only [argon2_get_impl_list, List.forall_mem_cons, List.not_mem_nil, false_implies,
    implies_true, and_true]
  exact ⟨fun _ inst => sameSegment_64 fill_block inst, agrees_entry target _ _ code_sse2,
    agrees_entry target _ _ code_ssse3, agrees_entry target _ _ code_xop,
    agrees_entry target _ _ code_avx2, agrees_entry target _ _ code_avx512f⟩

theorem agrees_better {benchmark_impl : String → Nat} {impls : List argon2_impl}
    (himpls : ∀ impl ∈ impls, impl.check ≠ some false → Agrees impl)
    {best : Option argon2_impl × Nat} (hbest : ∀ impl, best.1 = some impl → Agrees impl)
    (impl : argon2_impl) (himpl : (impls.foldl (better benchmark_impl) best).1 = some impl) :
    Agrees impl := by
  induction impls generalizing best with
  | nil => exact hbest impl himpl
  | cons first impls ih =>
    obtain ⟨hfirst, hrest⟩ := List.forall_mem_cons.mp himpls
    refine ih hrest (fun next hnext => ?_) himpl
    unfold better at hnext
    split at hnext
    · exact hbest next hnext
    · next hcheck =>
      dsimp only at hnext
      split at hnext
      · obtain rfl := Option.some.inj hnext
        exact hfirst hcheck
      · exact hbest next hnext

theorem agrees_select {target : Target} {selected : argon2_impl} (h : Agrees selected)
    {call : Select} (hcall : call.Checked target) : Agrees (select target selected call) := by
  cases call with
  | measured benchmark_impl =>
    have hbest := @agrees_better benchmark_impl _ (agrees_list target) (none, 2 ^ 32 - 1)
      fun impl himpl => nomatch himpl
    simp only [select, argon2_select_impl]
    cases himpl : ((argon2_get_impl_list target).foldl (better benchmark_impl) (none, 2 ^ 32 - 1)).1
      with
    | none => exact h
    | some impl => exact hbest impl himpl
  | byName name =>
    simp only [select, argon2_select_impl_by_name]
    cases hfind : named target name with
    | none => exact h
    | some impl => exact agrees_list target impl (List.mem_of_find?_eq_some hfind) (hcall impl hfind)

theorem agrees_run {target : Target} {calls : List Select}
    (hcalls : ∀ call ∈ calls, call.Checked target) {selected : argon2_impl} (h : Agrees selected) :
    Agrees (calls.foldl (select target) selected) := by
  induction calls generalizing selected with
  | nil => exact h
  | cons call calls ih =>
    obtain ⟨hcall, hrest⟩ := List.forall_mem_cons.mp hcalls
    exact ih hrest (agrees_select h hcall)

/-- **The implementations agree**: whatever the processor can do, and whatever implementation any
calls have selected in the end, if none of them names one that the processor cannot run, Argon2 is
the same function of its context and of the memory. -/
theorem implementations_agree (target : Target) (calls : List Select)
    (hcalls : ∀ call ∈ calls, call.Checked target) (stack : State) (c : Context)
    (type : Argon2Type) (memory_size : Nat) :
    argon2_ctx_mem (calls.foldl (select target) selected_argon_impl).fill_segment stack c type
        memory_size =
      argon2_ctx_mem fill_segment_default stack c type memory_size := by
  have hdefault : Agrees selected_argon_impl := fun inst => sameSegment_64 fill_block inst
  have hsegment := agrees_run hcalls hdefault
  generalize calls.foldl (select target) selected_argon_impl = impl at hsegment
  unfold argon2_ctx_mem
  split
  · rfl
  · next hvalid =>
    have hpasses : 0 < ((valid_of_none hvalid).instance type).passes := passes_pos hvalid
    have hsame := (same_argon2 _ hpasses (hsegment _) stack c type).mono (fun _ hm => hm)
      fun _ _ _ hm => hm.1
    simp only [hsame.eq]

/-- With AVX2 by its name. -/
theorem implementations_agree_avx2 :
    argon2_ctx_mem code_avx2.fill_segment ⟨fun _ => 0, 0, 0, List.replicate 128 0, 0⟩ eight .id
        8192 =
      argon2_ctx_mem fill_segment_default ⟨fun _ => 0, 0, 0, List.replicate 128 0, 0⟩ eight .id
        8192 := by
  have hfind : named ⟨fun _ => true, fun _ => true⟩ "avx2" =
      some ⟨"AVX2", some true, code_avx2.fill_segment⟩ := rfl
  refine implementations_agree ⟨fun _ => true, fun _ => true⟩ [.byName "avx2"] (fun call hcall => ?_)
    _ _ _ _
  obtain rfl := List.mem_singleton.mp hcall
  intro impl himpl
  rw [hfind] at himpl
  obtain rfl := Option.some.inj himpl
  simp

end Rxs.L2.Argon2
