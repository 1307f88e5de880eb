import Rxs.Core.Avx2Logic
import Rxs.L2Machine.JitStatic
import Rxs.L2Machine.SuperscalarLanes

/-!
# What the copied code does

Each part of `JitStatic` on registers and memory: the stack when the code is entered and
left, the words that an item starts with, the line that is selected and mixed in, and the
items that are written.
-/
namespace Rxs

open Rxs.Core Rxs.RandomX Rxs.RandomX.BytecodeMachine Rxs.RandomX.JitStatic
open Rxs.RandomX.Superscalar Rxs.L2.JitControl Rxs.L2.SuperscalarAssembly
open Rxs.Core.X86 (rax rcx rdx rsp rsi load64 store64 slot Within Frame)
open Rxs.Core.Avx2 (Instr Data Does Shuffle Listing load256 store256)

namespace L2.DatasetFragments

@[simp] theorem addr_ptr (d : Data) (r : X86.Reg) (n : BitVec 32) :
    d.addr (ptr r n) = d.regs r + n.signExtend 64 := Data.addr_base d r n

/-! ## Lines of the cache -/

/-- A line is selected. -/
def select (r : X86.Reg) : List Instr :=
  [.int (.aluImm .and true r 4194303), .shl r 6, .int (.alu .add r (.reg rdi))]

theorem mix_eq (memory v : BitVec 64) :
    (v &&& 4194303) <<< 6 + memory = getMixBlock memory v := by
  have hmul : (v &&& 4194303) <<< 6 = (v &&& 4194303) * 64 := BitVec.shiftLeft_eq_mul_twoPow ..
  rw [hmul, BitVec.add_comm]
  rfl

theorem does_select {r : X86.Reg} (hr : r ≠ rdi) (d : Data) : Does (select r) d
    { d with regs := Function.update d.regs r (getMixBlock (d.regs rdi) (d.regs r)) } := by
  refine ⟨by simp [select, Instr.jumps, X86.Instr.jumps], ?_⟩
  simp [select, Data.setReg, X86.Alu.apply, hr.symm, ← mix_eq]

/-- A word of the line that `rbx` points to. -/
def loadLine (q : Reg) : Instr :=
  .int (.alu .xor (native q) (.mem (ptr rbx (BitVec.ofNat 32 (8 * q.val)))))

theorem native_ne_rbx (q : Reg) : rbx ≠ native q := Fin.ne_of_val_ne (show 3 ≠ 8 + q.val by omega)

theorem does_loadLine (q : Reg) (d : Data) : Does [loadLine q] d
    { d with regs := Function.update d.regs (native q)
              (d.regs (native q) ^^^ load64 d.mem (slot (d.regs rbx) q)) } := by
  have hdisp : (BitVec.ofNat 32 (8 * q.val)).signExtend 64 = BitVec.ofNat 64 (8 * q) := by
    revert q
    decide
  refine ⟨by simp [loadLine, Instr.jumps, X86.Instr.jumps], ?_⟩
  simp [loadLine, Data.setReg, X86.Alu.apply, hdisp, slot]

theorem does_sshash_load (d : Data) : ∃ d', Does (Listing.instrs sshash_load) d d' ∧
    (∀ q : Reg, d'.regs (native q) = d.regs (native q) ^^^ load64 d.mem (slot (d.regs rbx) q)) ∧
    (∀ g, (∀ q, g ≠ native q) → d'.regs g = d.regs g) ∧ d'.mem = d.mem ∧ d'.ymm = d.ymm := by
  have lines (qs : List Reg) (hqs : qs.Nodup) : ∀ d : Data, ∃ d', Does (qs.map loadLine) d d' ∧
      (∀ q : Reg, d'.regs (native q) = if q ∈ qs then
        d.regs (native q) ^^^ load64 d.mem (slot (d.regs rbx) q) else d.regs (native q)) ∧
      (∀ g, (∀ q, g ≠ native q) → d'.regs g = d.regs g) ∧ d'.mem = d.mem ∧ d'.ymm = d.ymm := by
    induction qs with
    | nil => exact fun d => ⟨d, .nil d, by simp⟩
    | cons q qs ih =>
      intro d
      obtain ⟨hq, hqs⟩ := List.nodup_cons.mp hqs
      obtain ⟨d', hd', hwords, hothers, hmem, hymm⟩ := ih hqs _
      refine ⟨d', (does_loadLine q d).append hd', fun p => ?_, fun g hg => ?_, hmem, hymm⟩
      · rw [hwords]
        by_cases hp : p = q
        · subst hp
          simp [hq]
        · simp [hp, native_injective.eq_iff, native_ne_rbx]
      · rw [hothers g hg]
        simp [hg]
  obtain ⟨d', hd', hwords, hrest⟩ := lines [0, 1, 2, 3, 4, 5, 6, 7] (by decide) d
  have hlines : Listing.instrs sshash_load = [0, 1, 2, 3, 4, 5, 6, 7].map loadLine := by
    simp [sshash_load, Listing.instrs, loadLine, native]
  refine ⟨d', hlines ▸ hd', fun q => ?_, hrest⟩
  rw [hwords, if_pos (by revert q; decide)]

/-! ## The words at the start -/

/-- The constants, by register. -/
def superscalarAdd : Reg → BitVec 64 :=
  ![0, superscalarAdd1, superscalarAdd2, superscalarAdd3, superscalarAdd4, superscalarAdd5,
    superscalarAdd6, superscalarAdd7]

/-- The words of an item, from its number and one in `r8`. -/
def initialCode : List Instr :=
  .imul 8 (.const superscalarMul0) :: [1, 2, 3, 4, 5, 6, 7].flatMap fun q =>
    [.mov (native q) (.const (superscalarAdd q)), .int (.alu .xor (native q) (.reg 8))]

theorem does_initialCode (d : Data) {item : BitVec 64} (h : d.regs 8 = item + 1) :
    ∃ d', Does initialCode d d' ∧ (∀ q, d'.regs (native q) = initial item q) ∧
      (∀ g, (∀ q, g ≠ native q) → d'.regs g = d.regs g) ∧ d'.mem = d.mem ∧ d'.ymm = d.ymm := by
  refine ⟨?_, ⟨by simp [initialCode, Instr.jumps, X86.Instr.jumps], ?run⟩, fun q => ?words,
    fun g hg => ?others, ?_, ?_⟩
  case run =>
    simp -implicitDefEqProofs [initialCode, native, h, X86.Alu.apply, superscalarAdd, Data.setReg]
    rfl
  case words =>
    induction q using eight_cases with
    | zero => simp [native, initial]
    | _ => simp [native, initial, BitVec.xor_comm]
  case others =>
    have hne (n : X86.Reg) (hn : 8 ≤ n.val) : g ≠ n := by
      rintro rfl
      have hlt := g.isLt
      exact hg ⟨g.val - 8, by omega⟩ (Fin.ext (show g.val = 8 + (g.val - 8) by omega))
    simp [hne]
  · rfl
  · rfl

set_option maxRecDepth 10000 in
theorem linked_sshash_init (rest : Bytes) :
    Listing.linked (randomx_sshash_init ++ rest) 0 sshash_init =
      some (Listing.instrs (sshash_init.take 5) ++ initialCode) := by
  rfl

/-! ## Items -/

/-- The words of lane 0. -/
def item (d : Data) : List (BitVec 64) :=
  [0, 1, 2, 3, 4, 5, 6, 7].map fun q : Reg => d.regs (native q)

/-- The words of lanes 1 to 4. -/
def items (d : Data) : List (BitVec 64) :=
  [0, 1, 2, 3].flatMap fun l => [0, 1, 2, 3, 4, 5, 6, 7].map fun q : Reg => d.ymm (lane q) l

/-- The item is written, and the next one is next. -/
theorem does_store (d : Data) : Does (Listing.instrs (dataset_init_store.take 10)) d
    (((d.setMem (X86.storeWords d.mem (d.regs rsi) 0 (item d))).setReg rbp (d.regs rbp + 1)).setReg
      rsi (d.regs rsi + 64)) := by
  refine ⟨by simp [dataset_init_store, Listing.instrs, Instr.jumps, X86.Instr.jumps], ?_⟩
  simp -implicitDefEqProofs [dataset_init_store, Listing.instrs, rsi, rbp, X86.storeWords, item,
    slot, native, X86.Alu.apply]
  rfl

/-- Five items are written: the vectors have one word of each lane, and are transposed. -/
theorem does_loop_end (d : Data) : ∃ d', Does (Listing.instrs (avx2_loop_end.take 34)) d d' ∧
    d'.mem = X86.storeWords d.mem (d.regs rsi) 0 (item d ++ items d) ∧
    d'.regs =
      Function.update (Function.update d.regs rbp (d.regs rbp + 5)) rsi (d.regs rsi + 320) := by
  refine ⟨?_, ⟨by simp [avx2_loop_end, Listing.instrs, Instr.jumps, X86.Instr.jumps], ?run⟩,
    ?mem, ?regs⟩
  case run =>
    simp -implicitDefEqProofs [avx2_loop_end, Listing.instrs, rsi, rbp, X86.Alu.apply, Shuffle.apply,
      Avx2.half, Data.setMem, Data.setReg, Data.setYmm]
    rfl
  case mem =>
    simp -implicitDefEqProofs [X86.storeWords, item, items, lane, native, store256, Avx2.store128,
      slot, rsi, BitVec.add_assoc]
  case regs =>
    simp [rsi, rbp]

theorem items_getElem? {d : Data} {r : Fin 5 → Words} (h₀ : ∀ q, d.regs (native q) = r 0 q)
    (h : ∀ (l : Fin 4) q, d.ymm (lane q) l = r l.succ q) (l : Fin 5) (q : Reg) :
    (item d ++ items d)[8 * l.val + q.val]? = some (r l q) := by
  simp only [item, items, h₀, h]
  induction l using Fin.cases with
  | zero => induction q using eight_cases <;> rfl
  | succ l => induction l using four_cases <;> induction q using eight_cases <;> rfl

theorem item_getElem? {d : Data} {r : Words} (h : ∀ q, d.regs (native q) = r q) (q : Reg) :
    (item d)[q.val]? = some (r q) := by
  simp only [item, h]
  induction q using eight_cases <;> rfl

/-! ## The stack -/

section

variable {lo : BitVec 64} {n : Nat}

theorem does_pushes (rs : List X86.Reg) (d : Data) {j : Nat}
    (hrsp : d.regs rsp = slot lo (j + rs.length)) (hj : 8 * (j + rs.length) ≤ n) (hn : n ≤ 2 ^ 64)
    (hrs : rsp ∉ rs) :
    ∃ m, Does (rs.map .push) d { d with regs := Function.update d.regs rsp (slot lo j), mem := m } ∧
      Frame (Within lo n) d.mem m := by
  induction rs generalizing d with
  | nil =>
    have hd : { d with regs := Function.update d.regs rsp (slot lo j) } = d := by
      rw [List.length_nil, Nat.add_zero] at hrsp
      rw [← hrsp, Function.update_eq_self]
    exact ⟨d.mem, by rw [hd]; exact .nil d, .refl _ _⟩
  | cons r rs ih =>
    rw [List.length_cons] at hrsp hj
    have hpush : d.regs rsp - 8 = slot lo (j + rs.length) := by
      rw [hrsp, slot, slot]
      bv_omega
    have hone : Does [.push r] d
        ((d.setMem (store64 d.mem (slot lo (j + rs.length)) (d.regs r))).setReg rsp
          (slot lo (j + rs.length))) := by
      refine ⟨by simp [Instr.jumps], ?_⟩
      rw [← hpush]
      rfl
    obtain ⟨m, hm, hframe⟩ := ih
      ((d.setMem (store64 d.mem (slot lo (j + rs.length)) (d.regs r))).setReg rsp
        (slot lo (j + rs.length))) (by simp) (by omega) (fun h => hrs (List.mem_cons_of_mem _ h))
    refine ⟨m, ?_, .trans (.store64 (.refl _ _) (X86.within_slot (by omega) hn) _) hframe⟩
    have hd := hone.append hm
    simpa using hd

theorem does_pops (rs : List X86.Reg) (d : Data) {j : Nat} (hrsp : d.regs rsp = slot lo j)
    (hrs : rsp ∉ rs) : ∃ d', Does (rs.map .pop) d d' ∧ d'.regs rsp = slot lo (j + rs.length) ∧
      d'.mem = d.mem := by
  induction rs generalizing d j with
  | nil => exact ⟨d, .nil d, hrsp, rfl⟩
  | cons r rs ih =>
    have hpop : d.regs rsp + 8 = slot lo (j + 1) := hrsp ▸ X86.slot_add lo j 1
    have hne : rsp ≠ r := fun h => hrs (h ▸ List.mem_cons_self)
    have hone : Does [.pop r] d
        ((d.setReg rsp (slot lo (j + 1))).setReg r (load64 d.mem (slot lo j))) := by
      refine ⟨by simp [Instr.jumps], ?_⟩
      rw [← hpop, ← hrsp]
      rfl
    obtain ⟨d', hd', hrsp', hmem⟩ := ih
      ((d.setReg rsp (slot lo (j + 1))).setReg r (load64 d.mem (slot lo j))) (j := j + 1)
      (by simp [hne]) (fun h => hrs (List.mem_cons_of_mem _ h))
    refine ⟨d', hone.append hd', ?_, hmem⟩
    rw [hrsp', List.length_cons]
    congr 1
    omega

/-- The lower halves of vectors are saved. -/
theorem does_saves (is : List (Fin 16)) (d : Data) {j : Nat} (hrsp : d.regs rsp = slot lo j)
    (hj : 8 * (j + 32) ≤ n) (hn : n ≤ 2 ^ 64) :
    ∃ m, Does (is.map fun i => .movdquStore (ptr rsp (BitVec.ofNat 32 (16 * i.val))) i) d
        { d with mem := m } ∧ Frame (Within lo n) d.mem m := by
  induction is generalizing d with
  | nil => exact ⟨d.mem, .nil d, .refl _ _⟩
  | cons i is ih =>
    have hdisp :
        (BitVec.ofNat 32 (16 * i.val)).signExtend 64 = BitVec.ofNat 64 (8 * (2 * i.val)) := by
      revert i
      decide
    have hone : Does [.movdquStore (ptr rsp (BitVec.ofNat 32 (16 * i.val))) i] d
        (d.setMem (store64 (store64 d.mem (slot lo (j + 2 * i.val)) (d.ymm i 0))
          (slot lo (j + 2 * i.val + 1)) (d.ymm i 1))) := by
      refine ⟨by simp [Instr.jumps], ?_⟩
      have hnext : slot lo (j + 2 * i.val) + 8 = slot lo (j + 2 * i.val + 1) := X86.slot_add lo _ 1
      simp only [Data.execAll_cons, Data.exec_movdquStore, addr_ptr, hrsp, hdisp, X86.slot_add,
        Option.bind_some, Data.execAll_nil, Avx2.store128, hnext]
    obtain ⟨m, hm, hframe⟩ := ih
      (d.setMem (store64 (store64 d.mem (slot lo (j + 2 * i.val)) (d.ymm i 0))
        (slot lo (j + 2 * i.val + 1)) (d.ymm i 1))) hrsp
    refine ⟨m, hone.append hm, .trans (.store64 (.store64 (.refl _ _)
      (X86.within_slot (by omega) hn) _) (X86.within_slot (by omega) hn) _) hframe⟩

/-- They are restored. -/
theorem does_restores (is : List (Fin 16)) (d : Data) :
    ∃ Y, Does (is.map fun i => .movdquLoad i (ptr rsp (BitVec.ofNat 32 (16 * i.val)))) d
      { d with ymm := Y } := by
  induction is generalizing d with
  | nil => exact ⟨d.ymm, .nil d⟩
  | cons i is ih =>
    obtain ⟨Y, hY⟩ := ih (d.setYmm i
      ![load256 d.mem (d.addr (ptr rsp (BitVec.ofNat 32 (16 * i.val)))) 0,
        load256 d.mem (d.addr (ptr rsp (BitVec.ofNat 32 (16 * i.val)))) 1, d.ymm i 2, d.ymm i 3])
    have hone : Does [.movdquLoad i (ptr rsp (BitVec.ofNat 32 (16 * i.val)))] d
        (d.setYmm i ![load256 d.mem (d.addr (ptr rsp (BitVec.ofNat 32 (16 * i.val)))) 0,
          load256 d.mem (d.addr (ptr rsp (BitVec.ofNat 32 (16 * i.val)))) 1, d.ymm i 2, d.ymm i 3]) :=
      ⟨by simp [Instr.jumps], rfl⟩
    exact ⟨Y, hone.append hY⟩

/-! ## Entries and exits -/

theorem does_dataset_init_entry (d : Data) (hrsp : d.regs rsp = slot lo 8)
    (hptr : X86.Bytes8 (fun c => ¬ Within lo 64 c) (d.regs rdi)) :
    ∃ d', Does (Listing.instrs dataset_init_entry) d d' ∧ d'.regs rsp = slot lo 1 ∧
      d'.regs rsi = d.regs rsi ∧ d'.regs rdi = load64 d.mem (d.regs rdi) ∧
      d'.regs rbp = d.regs rdx ∧ load64 d'.mem (slot lo 1) = d.regs rcx ∧
      Frame (Within lo 64) d.mem d'.mem := by
  obtain ⟨m, hpush, hframe⟩ := does_pushes (n := 64) [rbx, rbp, 12, 13, 14, 15] d (j := 2) hrsp
    (by decide) (by decide) (by decide)
  have hload : load64 m (d.regs rdi) = load64 d.mem (d.regs rdi) := hframe.load64 hptr
  have hlast : slot lo 2 - 8#64 = slot lo 1 := by
    rw [slot, slot]
    bv_omega
  rw [rdi] at hload
  refine ⟨?_, hpush.append ⟨by simp [Instr.jumps, X86.Instr.jumps], ?run⟩, ?_, ?_, ?_, ?_, ?_, ?_⟩
  case run =>
    simp -implicitDefEqProofs [rdi, rsp, rbp, rdx, rcx, Data.setReg,
      Data.setMem, hlast, hload]
    rfl
  · simp [rsp]
  · simp [rsi]
  · simp [rdi]
  · simp [rbp, rdx]
  · simp [X86.load64_store64, rcx]
  · exact hframe.store64 (X86.within_slot (by decide) (by decide)) _

theorem does_dataset_init_exit (d : Data) (hrsp : d.regs rsp = slot lo 1) :
    ∃ d', Does (Listing.instrs dataset_init_exit) d d' ∧ d'.regs rsp = slot lo 8 ∧ d'.mem = d.mem :=
  does_pops [rax, 15, 14, 13, 12, rbp, rbx] d hrsp (by decide)

theorem avx2_entry_parts : Listing.instrs avx2_entry =
    [rbx, rbp, rdi, rsi, 12, 13, 14, 15].map .push ++ ([.int (.aluImm .sub true rsp 256)] ++
      ([0, 1, 2, 3, 4, 5, 6, 7, 8, 9, 10, 11, 12, 13, 14, 15].map (fun i : Fin 16 =>
        Instr.movdquStore (ptr rsp (BitVec.ofNat 32 (16 * i.val))) i) ++
          Listing.instrs (avx2_entry.drop 25))) := by
  simp [avx2_entry, Listing.instrs]

theorem does_avx2_entry (d : Data) (hrsp : d.regs rsp = slot lo 51)
    (hptr : X86.Bytes8 (fun c => ¬ Within lo 408 c) (d.regs rdi)) :
    ∃ d', Does (Listing.instrs avx2_entry) d d' ∧ d'.regs rsp = slot lo 5 ∧
      d'.regs rsi = d.regs rsi ∧ d'.regs rdi = load64 d.mem (d.regs rdi) ∧
      d'.regs rbp = d.regs rdx ∧ load64 d'.mem (slot lo 10) = d.regs rcx ∧
      Frame (Within lo 408) d.mem d'.mem := by
  obtain ⟨m, hpush, hframe⟩ := does_pushes (n := 408) [rbx, rbp, rdi, rsi, 12, 13, 14, 15] d
    (j := 43) hrsp (by decide) (by decide) (by decide)
  have hsub : slot lo 43 - 256#64 = slot lo 11 := by
    rw [slot, slot]
    bv_omega
  have hspace : Does [.int (.aluImm .sub true rsp 256)]
      { d with regs := Function.update d.regs rsp (slot lo 43), mem := m }
      { d with regs := Function.update d.regs rsp (slot lo 11), mem := m } := by
    refine ⟨by simp [Instr.jumps, X86.Instr.jumps], ?_⟩
    simp [Data.setReg, X86.Alu.apply, hsub]
  obtain ⟨m', hsave, hframe'⟩ := does_saves (n := 408)
    [0, 1, 2, 3, 4, 5, 6, 7, 8, 9, 10, 11, 12, 13, 14, 15]
    { d with regs := Function.update d.regs rsp (slot lo 11), mem := m } (j := 11)
    (Function.update_self rsp (slot lo 11) d.regs) (by decide) (by decide)
  have hload : load64 m' (d.regs rdi) = load64 d.mem (d.regs rdi) :=
    (hframe.trans hframe').load64 hptr
  have hlast : slot lo 11 - 8#64 = slot lo 10 := by
    rw [slot, slot]
    bv_omega
  have hend : slot lo 10 - 40#64 = slot lo 5 := by
    rw [slot, slot]
    bv_omega
  rw [rdi] at hload
  refine ⟨?_, avx2_entry_parts ▸ hpush.append (hspace.append (hsave.append
    ⟨by simp [avx2_entry, Listing.instrs, Instr.jumps, X86.Instr.jumps], ?run⟩)),
    ?_, ?_, ?_, ?_, ?_, ?_⟩
  case run =>
    simp -implicitDefEqProofs [avx2_entry, Listing.instrs, rdi, rsp, rbp, rdx, rcx, Data.setReg,
      Data.setMem, hlast, hload, hend, X86.Alu.apply]
    rfl
  · simp [rsp]
  · simp [rsi]
  · simp [rdi]
  · simp [rbp, rdx]
  · simp [X86.load64_store64, rcx]
  · exact (hframe.trans hframe').store64 (X86.within_slot (by decide) (by decide)) _

theorem avx2_epilogue_parts : Listing.instrs avx2_epilogue =
    [.int (.aluImm .add true rsp 40)] ++ ([9].map .pop ++
      ([0, 1, 2, 3, 4, 5, 6, 7, 8, 9, 10, 11, 12, 13, 14, 15].map (fun i : Fin 16 =>
        Instr.movdquLoad i (ptr rsp (BitVec.ofNat 32 (16 * i.val)))) ++
          ([.vzeroupper, .int (.aluImm .add true rsp 256)] ++
            [15, 14, 13, 12, rsi, rdi, rbp, rbx].map .pop))) := by
  simp [avx2_epilogue, Listing.instrs]

theorem does_avx2_epilogue (d : Data) (hrsp : d.regs rsp = slot lo 5) :
    ∃ d', Does (Listing.instrs avx2_epilogue) d d' ∧ d'.regs rsp = slot lo 51 ∧ d'.mem = d.mem := by
  have hback : Does [.int (.aluImm .add true rsp 40)] d (d.setReg rsp (slot lo 10)) := by
    refine ⟨by simp [Instr.jumps, X86.Instr.jumps], ?_⟩
    have hadd : slot lo 5 + 40#64 = slot lo 10 := X86.slot_add lo 5 5
    simp [X86.Alu.apply, hrsp, hadd]
  have hrsp₀ : (d.setReg rsp (slot lo 10)).regs rsp = slot lo 10 := by simp
  obtain ⟨d₁, hpop, hrsp₁, hmem₁⟩ := does_pops [9] (d.setReg rsp (slot lo 10)) hrsp₀ (by decide)
  obtain ⟨Y, hrestore⟩ := does_restores [0, 1, 2, 3, 4, 5, 6, 7, 8, 9, 10, 11, 12, 13, 14, 15] d₁
  have hspace : Does [.vzeroupper, .int (.aluImm .add true rsp 256)] { d₁ with ymm := Y }
      { d₁ with regs := Function.update d₁.regs rsp (slot lo 43),
                ymm := fun r => ![Y r 0, Y r 1, 0, 0] } := by
    refine ⟨by simp [Instr.jumps, X86.Instr.jumps], ?_⟩
    have hadd : slot lo 11 + 256#64 = slot lo 43 := X86.slot_add lo 11 32
    have hrsp' : d₁.regs rsp = slot lo 11 := hrsp₁
    simp [Data.setReg, X86.Alu.apply, hrsp', hadd]
  obtain ⟨d', hpops, hrsp', hmem⟩ := does_pops [15, 14, 13, 12, rsi, rdi, rbp, rbx]
    { d₁ with regs := Function.update d₁.regs rsp (slot lo 43),
              ymm := fun r => ![Y r 0, Y r 1, 0, 0] }
    (j := 43) (Function.update_self rsp (slot lo 43) d₁.regs) (by decide)
  exact ⟨d', avx2_epilogue_parts ▸
    hback.append (hpop.append (hrestore.append (hspace.append hpops))), hrsp', hmem.trans hmem₁⟩

end

end L2.DatasetFragments

end Rxs
