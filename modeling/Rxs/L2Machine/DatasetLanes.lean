import Rxs.L2Machine.DatasetFragments

/-!
# Lanes 1 to 4

Where the lines of the cache are that the four lanes need is kept on the stack, in the
words 5 to 8 from `lo` on; `rsp` is at word 5. `does_avx2_ssh_load` mixes them in,
`does_prefetchCode` selects the next ones, and `does_loopBegin` is what a pass of five
items begins with.
-/
namespace Rxs

open Rxs.Core Rxs.RandomX Rxs.RandomX.BytecodeMachine Rxs.RandomX.JitStatic
open Rxs.RandomX.Superscalar Rxs.L2.JitControl Rxs.L2.SuperscalarAssembly Rxs.L2.SuperscalarLanes
open Rxs.L2.DatasetFragments
open Rxs.Core.X86 (rax rcx rdx rsp rsi load64 store64 slot Within Frame)
open Rxs.Core.Avx2 (Instr Data Does LaneInstr LaneOp Shuffle Vec Listing load256 store256 shiftBy
  load256_slot load64_store256_slot frame_store256 does_lanes)

namespace L2.DatasetLanes

/-! ## Lines -/

section

variable {lo : BitVec 64}

@[simp] theorem slot_add_lit (i : Nat) : slot lo i + 8#64 = slot lo (i + 1) ∧
    slot lo i + 16#64 = slot lo (i + 2) ∧ slot lo i + 24#64 = slot lo (i + 3) ∧
    slot lo i + 32#64 = slot lo (i + 4) ∧ slot lo i + 40#64 = slot lo (i + 5) ∧
    slot lo i + 48#64 = slot lo (i + 6) ∧ slot lo i + 56#64 = slot lo (i + 7) ∧
    slot lo i + 64#64 = slot lo (i + 8) :=
  ⟨X86.slot_add lo i 1, X86.slot_add lo i 2, X86.slot_add lo i 3, X86.slot_add lo i 4,
    X86.slot_add lo i 5, X86.slot_add lo i 6, X86.slot_add lo i 7, X86.slot_add lo i 8⟩

theorem slot_sub {i j : Nat} (h : j = i + 5) : slot lo j - 40#64 = slot lo i := by
  subst h
  rw [slot, slot]
  bv_omega

/-- The registers that are needed are saved, and the places of the lines loaded. -/
def enter : List Instr := Listing.instrs (avx2_ssh_load.take 7)

theorem does_enter (d : Data) (hrsp : d.regs rsp = slot lo 5) : Does enter d
    ((((((d.setReg rsp (slot lo 0)).setMem
      (store256 (store64 d.mem (slot lo 0) (d.regs rbx)) (slot lo 1) (d.ymm 14))).setReg
        rax (load64 d.mem (slot lo 5))).setReg rbx (load64 d.mem (slot lo 6))).setReg
          rcx (load64 d.mem (slot lo 7))).setReg rdx (load64 d.mem (slot lo 8))) := by
  have hsub : d.regs rsp - 40#64 = slot lo 0 := by
    rw [hrsp]
    exact slot_sub rfl
  have hkeep (j : Nat) (hj : 5 ≤ j) (hlt : j < 9) :
      load64 (store256 (store64 d.mem (slot lo 0) (d.regs rbx)) (slot lo 1) (d.ymm 14)) (slot lo j) =
        load64 d.mem (slot lo j) := by
    rw [load64_store256_slot _ _ _ (by omega) (by omega), dif_neg (by omega),
      X86.load64_store64_slot _ _ _ (by omega) (by omega), if_neg (by omega)]
  rw [rsp] at hsub
  rw [rbx] at hkeep
  refine ⟨by simp [enter, avx2_ssh_load, Listing.instrs, Instr.jumps, X86.Instr.jumps], ?_⟩
  simp -implicitDefEqProofs [enter, avx2_ssh_load, Listing.instrs, X86.Alu.apply, hsub, hkeep,
    rsp, rax, rbx, rcx, rdx]
  rfl

/-- Half of each of four lines, whose places are in `rax`, `rbx`, `rcx` and `rdx`. -/
def half (n : BitVec 32) (y : Fin 4 → X86.Reg) : List Instr :=
  [.vmovdquLoad 8 (ptr rax n), .vmovdquLoad 9 (ptr rbx n), .vmovdquLoad 10 (ptr rcx n),
    .vmovdquLoad 11 (ptr rdx n), .shuffle .vpunpcklqdq 12 8 9, .shuffle .vpunpcklqdq 13 10 11,
    .shuffle (.vperm2i128 32) 14 12 13, .lane .vpxor (y 0) (y 0) (.reg 14),
    .shuffle (.vperm2i128 49) 14 12 13, .lane .vpxor (y 2) (y 2) (.reg 14),
    .shuffle .vpunpckhqdq 12 8 9, .shuffle .vpunpckhqdq 13 10 11,
    .shuffle (.vperm2i128 32) 14 12 13, .lane .vpxor (y 1) (y 1) (.reg 14),
    .shuffle (.vperm2i128 49) 14 12 13, .lane .vpxor (y 3) (y 3) (.reg 14)]

theorem four_map {α β : Type} (f : α → β) (a b c e : α) (l : Fin 4) :
    ![f a, f b, f c, f e] l = f (![a, b, c, e] l) := by
  match l with
  | 0 | 1 | 2 | 3 => rfl

/-- The lines that lanes 1 to 4 read. -/
def places (d : Data) : Fin 4 → BitVec 64 := ![d.regs rax, d.regs rbx, d.regs rcx, d.regs rdx]

theorem does_half {n : BitVec 32} {k : Nat} (hn : n.signExtend 64 = BitVec.ofNat 64 (8 * k))
    {y : Fin 4 → X86.Reg} (hy : Function.Injective y) (hlt : ∀ i, (y i).val < 8) (d : Data) :
    ∃ Y, Does (half n y) d { d with ymm := Y } ∧
      (∀ i l, Y (y i) l = d.ymm (y i) l ^^^ load64 d.mem (slot (places d l) (k + i.val))) ∧
      ∀ g, (g.val < 8 ∨ g = 15) → (∀ i, g ≠ y i) → Y g = d.ymm g := by
  have hline (r : X86.Reg) : load256 d.mem (d.regs r + n.signExtend 64) =
      fun l => load64 d.mem (slot (d.regs r) (k + l.val)) := by
    rw [hn]
    exact load256_slot d.mem (d.regs r) k
  have hne (g : X86.Reg) (hg : 8 ≤ g.val) (i : Fin 4) : y i ≠ g ∧ g ≠ y i := by
    have := hlt i
    constructor <;> rintro rfl <;> omega
  have hyy (i j : Fin 4) : y i = y j ↔ i = j := hy.eq_iff
  refine ⟨?_, ⟨by simp [half, Instr.jumps], ?run⟩, fun i l => ?words, fun g hg hgy => ?others⟩
  case run =>
    simp -implicitDefEqProofs [half, hline, hne, hyy, Shuffle.apply, Avx2.half, LaneOp.apply,
      Data.setYmm]
    rfl
  case words =>
    induction i using four_cases with
    | zero =>
      simp [hne, hyy, places]
      exact four_map (fun p => load64 d.mem (slot p k)) _ _ _ _ l
    | one =>
      simp [hne, hyy, places]
      exact four_map (fun p => load64 d.mem (slot p (k + 1))) _ _ _ _ l
    | two =>
      simp [hne, hyy, places]
      exact four_map (fun p => load64 d.mem (slot p (k + 2))) _ _ _ _ l
    | three =>
      simp [places]
      exact four_map (fun p => load64 d.mem (slot p (k + 3))) _ _ _ _ l
  case others =>
    have hg' (t : X86.Reg) (h : 8 ≤ t.val) (h' : t.val ≤ 14) : g ≠ t := by
      rintro rfl
      rcases hg with hg | rfl
      · omega
      · simp at h'
    simp [hgy, hg']

/-- What was saved is restored. -/
def leave : List Instr := Listing.instrs (avx2_ssh_load.drop 39)

theorem does_leave (d : Data) (hrsp : d.regs rsp = slot lo 0) : Does leave d
    (((d.setReg rbx (load64 d.mem (slot lo 0))).setYmm 14 fun l =>
      load64 d.mem (slot lo (1 + l.val))).setReg rsp (slot lo 5)) := by
  have hvec := load256_slot d.mem lo 1
  rw [rsp] at hrsp
  refine ⟨by simp [leave, avx2_ssh_load, Listing.instrs, Instr.jumps, X86.Instr.jumps], ?_⟩
  simp -implicitDefEqProofs [leave, avx2_ssh_load, Listing.instrs, X86.Alu.apply, hrsp, hvec,
    rsp, rbx]

theorem ssh_load_parts : Listing.instrs avx2_ssh_load =
    enter ++ (half 0 ![0, 1, 2, 3] ++ (half 32 ![4, 5, 6, 7] ++ leave)) := rfl

/-- **The lines of lanes 1 to 4 are mixed in**, register by register. -/
theorem does_avx2_ssh_load (d : Data) (hrsp : d.regs rsp = slot lo 5) {L : Fin 4 → BitVec 64}
    (hL : ∀ l, load64 d.mem (slot lo (5 + l.val)) = L l)
    (hapart : ∀ l, ∀ q < 8, X86.Bytes8 (fun c => ¬ Within lo 40 c) (slot (L l) q)) :
    ∃ d', Does (Listing.instrs avx2_ssh_load) d d' ∧
      (∀ (q : Reg) l, d'.ymm (lane q) l = d.ymm (lane q) l ^^^ load64 d.mem (slot (L l) q.val)) ∧
      d'.ymm 14 = d.ymm 14 ∧ d'.ymm 15 = d.ymm 15 ∧
      (∀ g, g ≠ rax → g ≠ rcx → g ≠ rdx → d'.regs g = d.regs g) ∧
      Frame (Within lo 40) d.mem d'.mem := by
  have henter := does_enter d hrsp
  set m := store256 (store64 d.mem (slot lo 0) (d.regs rbx)) (slot lo 1) (d.ymm 14)
  have hframe : Frame (Within lo 40) d.mem m :=
    frame_store256 ((Frame.refl _ _).store64 (X86.within_slot (by decide) (by decide)) _)
      (fun l hl => X86.within_slot (by omega) (by decide)) _
  set d₁ := (((((d.setReg rsp (slot lo 0)).setMem m).setReg rax (load64 d.mem (slot lo 5))).setReg
    rbx (load64 d.mem (slot lo 6))).setReg rcx (load64 d.mem (slot lo 7))).setReg
      rdx (load64 d.mem (slot lo 8))
  have hplaces : places d₁ = L := by
    have hall : places d₁ = ![load64 d.mem (slot lo 5), load64 d.mem (slot lo 6),
        load64 d.mem (slot lo 7), load64 d.mem (slot lo 8)] := by
      simp [places, d₁, rax, rbx, rcx, rdx]
    have h0 := hL 0
    have h1 := hL 1
    have h2 := hL 2
    have h3 := hL 3
    simp at h0 h1 h2 h3
    rw [hall, h0, h1, h2, h3]
    funext l
    induction l using four_cases <;> rfl
  have hmem₁ : d₁.mem = m := rfl
  have hymm₁ : d₁.ymm = d.ymm := rfl
  have hrsp₁ : d₁.regs rsp = slot lo 0 := by simp [d₁, rsp, rax, rbx, rcx, rdx]
  have hregs₁ (g : X86.Reg) (hax : g ≠ rax) (hcx : g ≠ rcx) (hdx : g ≠ rdx) (hbx : g ≠ rbx)
      (hsp : g ≠ rsp) : d₁.regs g = d.regs g := by
    simp [d₁, hax, hcx, hdx, hbx, hsp]
  clear_value d₁
  have hline (q : Reg) (l : Fin 4) :
      load64 m (slot (places d₁ l) q) = load64 d.mem (slot (L l) q) := by
    rw [hplaces]
    exact hframe.load64 (hapart l q q.isLt)
  have hsaved : load64 m (slot lo 0) = d.regs rbx := by
    rw [load64_store256_slot _ _ _ (by decide) (by decide), dif_neg (by decide), X86.load64_store64]
  have hsign (l : Fin 4) : load64 m (slot lo (1 + l.val)) = d.ymm 14 l := by
    rw [load64_store256_slot _ _ _ (by decide) (by omega), dif_pos (by omega)]
    simp
  clear_value m
  obtain ⟨Y, hlow, hlowY, hlowO⟩ := does_half (n := 0) (k := 0) (by decide)
    (y := ![0, 1, 2, 3]) (fun i j => by revert i j; decide) (by decide) d₁
  obtain ⟨Z, hhigh, hhighY, hhighO⟩ := does_half (n := 32) (k := 4) (by decide)
    (y := ![4, 5, 6, 7]) (fun i j => by revert i j; decide) (by decide) { d₁ with ymm := Y }
  refine ⟨_, ssh_load_parts ▸ henter.append (hlow.append (hhigh.append
    (does_leave { d₁ with ymm := Z } hrsp₁))), fun q l => ?_, ?_, ?_, fun g hax hcx hdx => ?_,
    hmem₁ ▸ hframe⟩
  · have hq : lane q ≠ 14 := lane_ne (by decide) q
    simp only [hmem₁, hymm₁] at hlowY hlowO hhighY hhighO
    suffices hZ : Z (lane q) l = d.ymm (lane q) l ^^^ load64 m (slot (places d₁ l) q) by
      simpa [hq, hline] using hZ
    induction q using eight_cases with
    | zero => exact (congrFun (hhighO 0 (.inl (by decide)) (by decide)) l).trans (hlowY 0 l)
    | one => exact (congrFun (hhighO 1 (.inl (by decide)) (by decide)) l).trans (hlowY 1 l)
    | two => exact (congrFun (hhighO 2 (.inl (by decide)) (by decide)) l).trans (hlowY 2 l)
    | three => exact (congrFun (hhighO 3 (.inl (by decide)) (by decide)) l).trans (hlowY 3 l)
    | four =>
      have hY := congrFun (hlowO 4 (.inl (by decide)) (by decide)) l
      exact (hhighY 0 l).trans (congrArg (· ^^^ load64 m (slot (places d₁ l) 4)) hY)
    | five =>
      have hY := congrFun (hlowO 5 (.inl (by decide)) (by decide)) l
      exact (hhighY 1 l).trans (congrArg (· ^^^ load64 m (slot (places d₁ l) 5)) hY)
    | six =>
      have hY := congrFun (hlowO 6 (.inl (by decide)) (by decide)) l
      exact (hhighY 2 l).trans (congrArg (· ^^^ load64 m (slot (places d₁ l) 6)) hY)
    | seven =>
      have hY := congrFun (hlowO 7 (.inl (by decide)) (by decide)) l
      exact (hhighY 3 l).trans (congrArg (· ^^^ load64 m (slot (places d₁ l) 7)) hY)
  · funext l
    simpa [hmem₁] using hsign l
  · have hZ := hhighO 15 (.inr rfl) (by decide)
    have hY := hlowO 15 (.inr rfl) (by decide)
    simpa [hymm₁] using hZ.trans hY
  · by_cases hsp : g = rsp
    · subst hsp
      simp [hrsp]
    · by_cases hbx : g = rbx
      · subst hbx
        simp [hsp, hmem₁, hsaved]
      · simp [hsp, hbx, hregs₁ g hax hcx hdx hbx hsp]

/-- A place that `load` leaves in `rax` is selected for a lane. -/
def selectLane (load : Fin 4 → Instr) (early : Bool) (l : Fin 4) : List Instr :=
  load l :: (select rax ++ if early then
      [.int .nop, .int (.store (.mem (ptr rsp (BitVec.ofNat 32 (8 * l.val)))) rax)]
    else [.int (.store (.mem (ptr rsp (BitVec.ofNat 32 (8 * l.val)))) rax), .int .nop])

section

variable {load : Fin 4 → Instr} {w : Data → Fin 4 → BitVec 64}
  (hload : ∀ d l, d.regs rsp = slot lo 5 → Does [load l] d (d.setReg rax (w d l)))

include hload in
theorem does_selectLane (early : Bool) (l : Fin 4) (d : Data) (hrsp : d.regs rsp = slot lo 5) :
    Does (selectLane load early l) d ((d.setReg rax (getMixBlock (d.regs rdi) (w d l))).setMem
      (store64 d.mem (slot lo (5 + l.val)) (getMixBlock (d.regs rdi) (w d l)))) := by
  have hdisp : (BitVec.ofNat 32 (8 * l.val)).signExtend 64 = BitVec.ofNat 64 (8 * l.val) := by
    revert l
    decide
  have hplace : d.regs rsp + BitVec.ofNat 64 (8 * l.val) = slot lo (5 + l.val) := by
    rw [hrsp, X86.slot_add]
  have hselect := does_select (r := rax) (by decide) (d.setReg rax (w d l))
  refine (hload d l hrsp).append (hselect.append ?_)
  have hrax : rsp ≠ rax := by decide
  have hrdi : rdi ≠ rax := by decide
  cases early
  all_goals
    refine ⟨by simp [Instr.jumps, X86.Instr.jumps], ?_⟩
    simp [Data.setReg, Data.setMem, hdisp, hplace, hrax, hrdi]

variable (hw : ∀ d d' l, (∀ g, g ≠ rax → d'.regs g = d.regs g) →
  load64 d'.mem (slot lo (5 + l.val)) = load64 d.mem (slot lo (5 + l.val)) → w d' l = w d l)

include hload hw in
/-- All of them. -/
theorem does_selectLanes (early : Bool) (d : Data) (hrsp : d.regs rsp = slot lo 5) :
    ∃ d', Does ([0, 1, 2, 3].flatMap (selectLane load early)) d d' ∧
      (∀ l, load64 d'.mem (slot lo (5 + l.val)) = getMixBlock (d.regs rdi) (w d l)) ∧
      (∀ g, g ≠ rax → d'.regs g = d.regs g) ∧ d'.ymm = d.ymm ∧
      Frame (Within lo 72) d.mem d'.mem := by
  have lanes (ls : List (Fin 4)) (hls : ls.Nodup) : ∀ d : Data, d.regs rsp = slot lo 5 →
      ∃ d', Does (ls.flatMap (selectLane load early)) d d' ∧
        (∀ l : Fin 4, load64 d'.mem (slot lo (5 + l.val)) = if l ∈ ls then
          getMixBlock (d.regs rdi) (w d l) else load64 d.mem (slot lo (5 + l.val))) ∧
        (∀ g, g ≠ rax → d'.regs g = d.regs g) ∧ d'.ymm = d.ymm ∧
        Frame (Within lo 72) d.mem d'.mem := by
    induction ls with
    | nil => exact fun d _ => ⟨d, .nil d, by simp, fun _ _ => rfl, rfl, .refl _ _⟩
    | cons l ls ih =>
      intro d hrsp
      obtain ⟨hl, hls⟩ := List.nodup_cons.mp hls
      set v := getMixBlock (d.regs rdi) (w d l)
      have hkeep (g : X86.Reg) (hg : g ≠ rax) : Function.update d.regs rax v g = d.regs g :=
        Function.update_of_ne hg _ _
      have hslot (j : Fin 4) : load64 (store64 d.mem (slot lo (5 + l.val)) v) (slot lo (5 + j.val)) =
          if j = l then v else load64 d.mem (slot lo (5 + j.val)) := by
        rw [X86.load64_store64_slot _ _ _ (by omega) (by omega)]
        simp [Fin.ext_iff]
      obtain ⟨d', hd', hplaces, hregs, hymm, hframe⟩ := ih hls
        ((d.setReg rax v).setMem (store64 d.mem (slot lo (5 + l.val)) v))
        ((hkeep rsp (by decide)).trans hrsp)
      refine ⟨d', (does_selectLane hload early l d hrsp).append hd', fun j => ?_, fun g hg => ?_, hymm,
        .trans (.store64 (.refl _ _) (X86.within_slot (by omega) (by decide)) _) hframe⟩
      · rw [hplaces]
        by_cases hj : j = l
        · subst hj
          simpa [hl] using hslot j
        · have hwj : w ((d.setReg rax v).setMem (store64 d.mem (slot lo (5 + l.val)) v)) j = w d j :=
            hw _ _ j hkeep (by simpa [hj] using hslot j)
          have hrdi := hkeep rdi (by decide)
          simp only [Data.setMem_regs, Data.setReg_regs, Data.setMem_mem, hrdi, hwj, hslot j, hj,
            if_false, List.mem_cons, false_or]
      · rw [hregs g hg]
        exact hkeep g hg
  obtain ⟨d', hd', hplaces, hrest⟩ := lanes [0, 1, 2, 3] (by decide) d hrsp
  refine ⟨d', hd', fun l => ?_, hrest⟩
  rw [hplaces, if_pos (by revert l; decide)]

end

/-- The registers of the other lanes' lines are those of `a`. -/
def prefetchCode (a : Reg) : List Instr :=
  .vmovdquStore (ptr rsp 0) (lane a) ::
    ([0, 1, 2, 3].flatMap (selectLane
      (fun l => .int (.mov true rax (.mem (ptr rsp (BitVec.ofNat 32 (8 * l.val)))))) false) ++
    [.int .nop, .int .nop])

/-- **The next lines of lanes 1 to 4** are selected. -/
theorem does_prefetchCode (a : Reg) (d : Data) (hrsp : d.regs rsp = slot lo 5) :
    ∃ d', Does (prefetchCode a) d d' ∧
      (∀ l, load64 d'.mem (slot lo (5 + l.val)) = getMixBlock (d.regs rdi) (d.ymm (lane a) l)) ∧
      (∀ g, g ≠ rax → d'.regs g = d.regs g) ∧ d'.ymm = d.ymm ∧
      Frame (Within lo 72) d.mem d'.mem := by
  have hstore : Does [.vmovdquStore (ptr rsp 0) (lane a)] d
      (d.setMem (store256 d.mem (slot lo 5) (d.ymm (lane a)))) := by
    refine ⟨by simp [Instr.jumps], ?_⟩
    simp [hrsp]
  have hload (d : Data) (l : Fin 4) (hrsp : d.regs rsp = slot lo 5) :
      Does [.int (.mov true rax (.mem (ptr rsp (BitVec.ofNat 32 (8 * l.val)))))] d
        (d.setReg rax (load64 d.mem (slot lo (5 + l.val)))) := by
    have hdisp : (BitVec.ofNat 32 (8 * l.val)).signExtend 64 = BitVec.ofNat 64 (8 * l.val) := by
      revert l
      decide
    refine ⟨by simp [Instr.jumps, X86.Instr.jumps], ?_⟩
    simp [hdisp, hrsp, X86.slot_add]
  obtain ⟨d', hd', hplaces, hregs, hymm, hframe⟩ := does_selectLanes hload
    (fun _ _ _ _ h => h) false (d.setMem (store256 d.mem (slot lo 5) (d.ymm (lane a)))) hrsp
  have hnops : Does [.int .nop, .int .nop] d' d' :=
    ⟨by simp [Instr.jumps, X86.Instr.jumps], by simp⟩
  refine ⟨d', hstore.append (hd'.append hnops), fun l => ?_, hregs, hymm, .trans ?_ hframe⟩
  · have hlane : load64 (store256 d.mem (slot lo 5) (d.ymm (lane a))) (slot lo (5 + l.val)) =
        d.ymm (lane a) l := by
      rw [load64_store256_slot _ _ _ (by decide) (by omega), dif_pos (by omega)]
      simp
    rw [hplaces, Data.setMem_mem, hlane]
    rfl
  · exact frame_store256 (.refl _ _) (fun l hl => X86.within_slot (by omega) (by decide)) _

end

/-! ## The words at the start -/

/-- The same on lanes 1 to 4, and the constants of high products. -/
def initialLanes : List LaneInstr :=
  .broadcast (lane 1) superscalarMul0 :: (productCode (lane 0) (lane 1) ++
    [1, 2, 3, 4, 5, 6, 7].flatMap (fun q =>
      [.broadcast (lane q) (superscalarAdd q), .op .vpxor (lane q) (lane 0) (lane q)]) ++
    [.broadcast 15 HalfProducts.carry, .shift true 14 15 31])

theorem lane_initial {R : X86.Reg → BitVec 64} {item : BitVec 64} (h : R (lane 0) = item + 1) :
    Lane (initialLanes.foldl LaneInstr.exec R) (initial item) := by
  have hprod := exec_product (R := Function.update R (lane 1) superscalarMul0) 0 (.inr ⟨1, rfl⟩)
  simp [h] at hprod
  rw [initialLanes, List.foldl_cons, List.foldl_append, List.foldl_append]
  set R₁ := (productCode (lane 0) (lane 1)).foldl LaneInstr.exec
    (LaneInstr.exec R (.broadcast (lane 1) superscalarMul0))
  have h₁ : R₁ (lane 0) = (item + 1) * superscalarMul0 := hprod
  clear_value R₁
  refine ⟨fun q => ?_, ?_, ?_⟩
  · match q with
    | 0 => simp -implicitDefEqProofs [LaneInstr.exec, initial, h₁]
    | 1 | 2 | 3 | 4 | 5 | 6 | 7 =>
      simp -implicitDefEqProofs [LaneInstr.exec, LaneOp.apply, initial, superscalarAdd, h₁]
  · simp -implicitDefEqProofs [LaneInstr.exec, shiftBy, HalfProducts.carry, HalfProducts.sign]
  · simp -implicitDefEqProofs [LaneInstr.exec]

/-- The numbers of the items of lanes 1 to 4, and one more. -/
def numbers : List Instr :=
  [.int (.store (.mem (ptr rsp 32)) rbp), .vbroadcastsd 0 (.mem (ptr rsp 32)),
    .lane .vpaddq 0 0 (.const ![2, 3, 4, 5])]

theorem does_initialLanes {lo : BitVec 64} (d : Data) (hrsp : d.regs rsp = slot lo 5) :
    ∃ Y, Does (numbers ++ initialLanes.map LaneInstr.instr) d
        { d with mem := store64 d.mem (slot lo 9) (d.regs rbp), ymm := Y } ∧
      ∀ l : Fin 4, Lane (Y · l) (initial (d.regs rbp + BitVec.ofNat 64 (l.val + 1))) := by
  have hnumbers : Does numbers d
      ((d.setMem (store64 d.mem (slot lo 9) (d.regs rbp))).setYmm 0 fun l =>
        d.regs rbp + BitVec.ofNat 64 (l.val + 1) + 1) := by
    have hadd (v : BitVec 64) : (fun l : Fin 4 => LaneOp.vpaddq.apply v (![2, 3, 4, 5] l)) =
        fun l => v + BitVec.ofNat 64 (l.val + 1) + 1 := by
      funext l
      rw [BitVec.add_assoc]
      match l with
      | 0 | 1 | 2 | 3 => rfl
    refine ⟨by simp [numbers, Instr.jumps, X86.Instr.jumps], ?_⟩
    simp -implicitDefEqProofs [numbers, hrsp, X86.load64_store64]
    simp [Data.setYmm]
    exact congrArg (Function.update d.ymm 0) (hadd _)
  refine ⟨_, hnumbers.append (does_lanes _ _), fun l => lane_initial ?_⟩
  simp [lane]

/-- What a pass begins with. -/
def loopBegin : List Instr :=
  List.replicate 5 (.int .nop) ++ (.int (.store (.reg rbx) rbp) :: (select rbx ++ [.int .nop])) ++
    [0, 1, 2, 3].flatMap (selectLane
      (fun l => .int (.lea true rax (ptr rbp (BitVec.ofNat 32 (l.val + 1))))) true) ++
    (.int (.lea true 8 (ptr rbp 1)) :: initialCode) ++
    (numbers ++ initialLanes.map LaneInstr.instr)

set_option maxRecDepth 10000 in
theorem linked_loop_begin (rest : Bytes) :
    Listing.linked (randomx_dataset_init_avx2_prologue ++ rest) 320 avx2_loop_begin =
      some loopBegin := by
  rfl

section

variable {lo : BitVec 64}

/-- **A pass begins**: the words of five items, and the lines that their numbers select. -/
theorem does_loopBegin (d : Data) (hrsp : d.regs rsp = slot lo 5) :
    ∃ d', Does loopBegin d d' ∧ (∀ q, d'.regs (native q) = initial (d.regs rbp) q) ∧
      (∀ l : Fin 4, Lane (d'.ymm · l) (initial (d.regs rbp + BitVec.ofNat 64 (l.val + 1)))) ∧
      d'.regs rbx = getMixBlock (d.regs rdi) (d.regs rbp) ∧
      (∀ l : Fin 4, load64 d'.mem (slot lo (5 + l.val)) =
        getMixBlock (d.regs rdi) (d.regs rbp + BitVec.ofNat 64 (l.val + 1))) ∧
      (∀ g ∈ [rsp, rbp, rsi, rdi], d'.regs g = d.regs g) ∧ Frame (Within lo 80) d.mem d'.mem := by
  have hnops : Does (List.replicate 5 (.int .nop)) d d :=
    ⟨by simp [Instr.jumps, X86.Instr.jumps], by simp [List.replicate]⟩
  have hmov : Does [.int (.store (.reg rbx) rbp)] d (d.setReg rbx (d.regs rbp)) :=
    ⟨by simp [Instr.jumps, X86.Instr.jumps], by simp⟩
  have hselect := does_select (r := rbx) (by decide) (d.setReg rbx (d.regs rbp))
  set d₁ : Data := { d.setReg rbx (d.regs rbp) with
    regs := Function.update (d.setReg rbx (d.regs rbp)).regs rbx
      (getMixBlock ((d.setReg rbx (d.regs rbp)).regs rdi) ((d.setReg rbx (d.regs rbp)).regs rbx)) }
  have hbx : d₁.regs rbx = getMixBlock (d.regs rdi) (d.regs rbp) := by
    have hne : rdi ≠ rbx := by decide
    simp [d₁, hne]
  have h₁ (g : X86.Reg) (hg : g ≠ rbx) : d₁.regs g = d.regs g := by
    simp [d₁, hg]
  have hmem₁ : d₁.mem = d.mem := rfl
  have hymm₁ : d₁.ymm = d.ymm := rfl
  clear_value d₁
  have hnop : Does [.int .nop] d₁ d₁ :=
    ⟨by simp [Instr.jumps, X86.Instr.jumps], by simp⟩
  have hload (d : Data) (l : Fin 4) (_ : d.regs rsp = slot lo 5) :
      Does [.int (.lea true rax (ptr rbp (BitVec.ofNat 32 (l.val + 1))))] d
        (d.setReg rax (d.regs rbp + BitVec.ofNat 64 (l.val + 1))) := by
    have hdisp : (BitVec.ofNat 32 (l.val + 1)).signExtend 64 = BitVec.ofNat 64 (l.val + 1) := by
      revert l
      decide
    refine ⟨by simp [Instr.jumps, X86.Instr.jumps], ?_⟩
    simp [hdisp]
  obtain ⟨d₂, hlanes, hplaces, h₂, hymm₂, hframe₂⟩ := does_selectLanes hload
    (fun _ _ _ h _ => by rw [h rbp (by decide)]) true d₁ ((h₁ rsp (by decide)).trans hrsp)
  have hlea : Does [.int (.lea true 8 (ptr rbp 1))] d₂ (d₂.setReg 8 (d₂.regs rbp + 1)) :=
    ⟨by simp [Instr.jumps, X86.Instr.jumps], by simp⟩
  have h8 : (d₂.setReg 8 (d₂.regs rbp + 1)).regs 8 = d.regs rbp + 1 := by
    simp [h₂ rbp (by decide), h₁ rbp (by decide)]
  obtain ⟨d₃, hinitial, hwords, h₃, hmem₃, hymm₃⟩ :=
    does_initialCode (d₂.setReg 8 (d₂.regs rbp + 1)) h8
  have hback (g : X86.Reg) (hg : 1 ≤ g.val) (hlt : g.val < 8) : d₃.regs g = d₁.regs g := by
    have hnative (q : Reg) : g ≠ native q := Fin.ne_of_val_ne (show g.val ≠ 8 + q.val by omega)
    have h8 : g ≠ 8 := hnative 0
    have hax : g ≠ rax := Fin.ne_of_val_ne (show g.val ≠ 0 by omega)
    rw [h₃ g hnative]
    simpa [h8] using h₂ g hax
  have hkept (g : X86.Reg) (hg : g ∈ [rsp, rbp, rsi, rdi]) : d₃.regs g = d.regs g := by
    have hrange : 1 ≤ g.val ∧ g.val < 8 ∧ g ≠ rbx := by
      revert g
      decide
    rw [hback g hrange.1 hrange.2.1, h₁ g hrange.2.2]
  obtain ⟨Y, hvec, hlane⟩ := does_initialLanes d₃ ((hkept rsp (by simp)).trans hrsp)
  have hdoes := ((((hnops.append (hmov.append (hselect.append hnop))).append hlanes).append
    (hlea.append hinitial)).append hvec)
  refine ⟨_, hdoes, hwords, fun l => ?_, ?_, fun l => ?_, hkept, ?_⟩
  · rw [← hkept rbp (by simp)]
    exact hlane l
  · exact (hback rbx (by decide) (by decide)).trans hbx
  · have hplace : load64 d₃.mem (slot lo (5 + l.val)) =
        getMixBlock (d.regs rdi) (d.regs rbp + BitVec.ofNat 64 (l.val + 1)) := by
      rw [hmem₃, Data.setReg_mem, hplaces, h₁ rdi (by decide), h₁ rbp (by decide)]
    simp only [X86.load64_store64_slot d₃.mem lo _ (i := 9) (j := 5 + l.val) (by decide) (by omega),
      hplace]
    rw [if_neg (by omega)]
  · have hframe₃ : Frame (Within lo 80) d.mem d₃.mem := by
      rw [hmem₃, ← hmem₁]
      exact hframe₂.mono fun a ha => Nat.lt_trans ha (by decide)
    exact hframe₃.store64 (X86.within_slot (by decide) (by decide)) _

end

end L2.DatasetLanes

end Rxs
