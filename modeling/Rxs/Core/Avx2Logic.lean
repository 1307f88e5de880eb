import Mathlib.Tactic.IntervalCases
import Rxs.Core.Avx2
import Rxs.Core.Memory

/-!
# Rules for code with vectors

`Leads code p P q Q`: from `p`, where `P` holds, the code comes to `q`, where `Q` does.
There is a rule for code without jumps, which `Does` what it does, one for a jump, and one
for a loop. Both speak of `Data`, which has no flags and no instruction pointer.

Code that stands behind other code is the same code (`Listing.linked_append`), and
vectors in memory are words in a row (`load256_slot`, `store256_slot`).
-/
namespace Rxs.Core.Avx2

open X86 (Reg Mem Rm rsp load64 store64 slot Frame Bytes8)

/-! ## Code behind other code -/

theorem target_append {c b : Bytes} {next : Nat} {disp : BitVec 32} (h : target c next disp = some b)
    (pre : Bytes) : target (pre ++ c) (pre.length + next) disp = some b := by
  unfold target at h ⊢
  split at h
  next hle =>
    have hto : ((pre.length + next : Nat) : Int) + disp.toInt =
        ((pre.length + ((next : Int) + disp.toInt).toNat : Nat) : Int) := by
      omega
    rw [hto, if_pos (Int.natCast_nonneg _), Int.toNat_natCast, ← List.drop_drop, List.drop_left, h]
  next => cases h

theorem Operand.link_append {α : Type} {value : Bytes → Option α} {c : Bytes} {next : Nat}
    {o o' : Operand α} (h : o.link value c next = some o') (pre : Bytes) :
    o.link value (pre ++ c) (pre.length + next) = some o' := by
  cases o with
  | rip disp =>
    obtain ⟨v, hv, rfl⟩ := Option.map_eq_some_iff.mp h
    obtain ⟨b, hb, hbv⟩ := Option.bind_eq_some_iff.mp hv
    rw [Operand.link, target_append hb pre, Option.bind_some, hbv, Option.map_some]
  | _ => exact h

theorem Instr.link_append {c : Bytes} {next : Nat} {i j : Instr} (h : i.link c next = some j)
    (pre : Bytes) : i.link (pre ++ c) (pre.length + next) = some j := by
  cases i with
  | mov | imul | lane | vbroadcastsd =>
    obtain ⟨o, ho, rfl⟩ := Option.map_eq_some_iff.mp h
    rw [Instr.link, Operand.link_append ho pre, Option.map_some]
  | _ => exact h

theorem Listing.linked_append {c : Bytes} {l : Listing} {p : Nat} {is : List Instr}
    (h : linked c p l = some is) (pre : Bytes) : linked (pre ++ c) (pre.length + p) l = some is := by
  induction l generalizing p is with
  | nil => exact h
  | cons a l ih =>
    simp only [linked, Option.bind_eq_bind, Option.bind_eq_some_iff, Option.pure_def,
      Option.some.injEq] at h ⊢
    obtain ⟨i, hi, js, hjs, rfl⟩ := h
    refine ⟨i, ?_, js, ?_, rfl⟩
    · rw [Nat.add_assoc]
      exact Instr.link_append hi pre
    · rw [Nat.add_assoc]
      exact ih hjs

/-! ## States without flags -/

/-- What an instruction without a jump works on. -/
structure Data where
  regs : Reg → BitVec 64
  mem : BitVec 64 → BitVec 8
  ymm : Reg → Vec

def State.data (s : State) : Data := ⟨s.regs, s.mem, s.ymm⟩

namespace Data

def state (d : Data) : State := { rip := 0, regs := d.regs, mem := d.mem, ymm := d.ymm, base := 0 }

def exec (i : Instr) (d : Data) : Option Data := (Avx2.exec i d.state).map State.data

def execAll : List Instr → Data → Option Data
  | [], d => some d
  | i :: is, d => (exec i d).bind (execAll is)

def addr (d : Data) (m : Mem) : BitVec 64 := d.state.addr m

def setReg (d : Data) (r : Reg) (v : BitVec 64) : Data :=
  { d with regs := Function.update d.regs r v }

def setYmm (d : Data) (r : Reg) (v : Vec) : Data := { d with ymm := Function.update d.ymm r v }

def setMem (d : Data) (m : BitVec 64 → BitVec 8) : Data := { d with mem := m }

section

variable (d : Data)

@[simp] theorem setReg_regs (r : Reg) (v : BitVec 64) :
    (d.setReg r v).regs = Function.update d.regs r v := rfl
@[simp] theorem setReg_mem (r : Reg) (v : BitVec 64) : (d.setReg r v).mem = d.mem := rfl
@[simp] theorem setReg_ymm (r : Reg) (v : BitVec 64) : (d.setReg r v).ymm = d.ymm := rfl
@[simp] theorem setYmm_regs (r : Reg) (v : Vec) : (d.setYmm r v).regs = d.regs := rfl
@[simp] theorem setYmm_mem (r : Reg) (v : Vec) : (d.setYmm r v).mem = d.mem := rfl
@[simp] theorem setYmm_ymm (r : Reg) (v : Vec) :
    (d.setYmm r v).ymm = Function.update d.ymm r v := rfl
@[simp] theorem setMem_regs (m : BitVec 64 → BitVec 8) : (d.setMem m).regs = d.regs := rfl
@[simp] theorem setMem_mem (m : BitVec 64 → BitVec 8) : (d.setMem m).mem = m := rfl
@[simp] theorem setMem_ymm (m : BitVec 64 → BitVec 8) : (d.setMem m).ymm = d.ymm := rfl
@[simp] theorem addr_base (r : Reg) (n : BitVec 32) :
    d.addr ⟨some r, none, n⟩ = d.regs r + n.signExtend 64 := by
  simp [addr, state, X86.State.addr]

@[simp] theorem execAll_nil : execAll [] d = some d := rfl
@[simp] theorem execAll_cons (i : Instr) (is : List Instr) :
    execAll (i :: is) d = (exec i d).bind (execAll is) := rfl
@[simp] theorem exec_nop : exec (.int .nop) d = some d := rfl
@[simp] theorem exec_lea (r : Reg) (m : Mem) :
    exec (.int (.lea true r m)) d = some (d.setReg r (d.addr m)) := rfl
@[simp] theorem exec_movReg (r q : Reg) :
    exec (.int (.mov true r (.reg q))) d = some (d.setReg r (d.regs q)) := rfl
@[simp] theorem exec_load (r : Reg) (m : Mem) :
    exec (.int (.mov true r (.mem m))) d = some (d.setReg r (load64 d.mem (d.addr m))) := rfl
@[simp] theorem exec_storeReg (r q : Reg) :
    exec (.int (.store (.reg r) q)) d = some (d.setReg r (d.regs q)) := rfl
@[simp] theorem exec_store (m : Mem) (q : Reg) :
    exec (.int (.store (.mem m) q)) d = some (d.setMem (store64 d.mem (d.addr m) (d.regs q))) := rfl
@[simp] theorem exec_alu (op : X86.Alu) (r q : Reg) : exec (.int (.alu op r (.reg q))) d =
    some (d.setReg r (op.apply (d.regs r) (d.regs q))) := rfl
@[simp] theorem exec_aluMem (op : X86.Alu) (r : Reg) (m : Mem) :
    exec (.int (.alu op r (.mem m))) d =
      some (d.setReg r (op.apply (d.regs r) (load64 d.mem (d.addr m)))) := rfl
@[simp] theorem exec_aluImm (op : X86.Alu) (r : Reg) (v : BitVec 32) :
    exec (.int (.aluImm op true r v)) d =
      some (d.setReg r (op.apply (d.regs r) (v.signExtend 64))) := rfl
@[simp] theorem exec_mov (r : Reg) (v : BitVec 64) :
    exec (.mov r (.const v)) d = some (d.setReg r v) := rfl
@[simp] theorem exec_imul (r : Reg) (v : BitVec 64) :
    exec (.imul r (.const v)) d = some (d.setReg r (d.regs r * v)) := rfl
@[simp] theorem exec_shl (r : Reg) (n : Nat) :
    exec (.shl r n) d = some (d.setReg r (d.regs r <<< (n % 64))) := rfl
@[simp] theorem exec_push (q : Reg) : exec (.push q) d =
    some ((d.setMem (store64 d.mem (d.regs rsp - 8) (d.regs q))).setReg rsp (d.regs rsp - 8)) := rfl
@[simp] theorem exec_pop (r : Reg) : exec (.pop r) d =
    some ((d.setReg rsp (d.regs rsp + 8)).setReg r (load64 d.mem (d.regs rsp))) := rfl
@[simp] theorem exec_movdquLoad (r : Reg) (m : Mem) : exec (.movdquLoad r m) d =
    some (d.setYmm r ![load256 d.mem (d.addr m) 0, load256 d.mem (d.addr m) 1, d.ymm r 2,
      d.ymm r 3]) := rfl
@[simp] theorem exec_movdquStore (m : Mem) (q : Reg) :
    exec (.movdquStore m q) d = some (d.setMem (store128 d.mem (d.addr m) (d.ymm q))) := rfl
@[simp] theorem exec_vmovdquLoad (r : Reg) (m : Mem) :
    exec (.vmovdquLoad r m) d = some (d.setYmm r (load256 d.mem (d.addr m))) := rfl
@[simp] theorem exec_vmovdquStore (m : Mem) (q : Reg) :
    exec (.vmovdquStore m q) d = some (d.setMem (store256 d.mem (d.addr m) (d.ymm q))) := rfl
@[simp] theorem exec_lane (op : LaneOp) (r a b : Reg) : exec (.lane op r a (.reg b)) d =
    some (d.setYmm r fun l => op.apply (d.ymm a l) (d.ymm b l)) := rfl
@[simp] theorem exec_laneConst (op : LaneOp) (r a : Reg) (v : Vec) :
    exec (.lane op r a (.const v)) d = some (d.setYmm r fun l => op.apply (d.ymm a l) (v l)) := rfl
@[simp] theorem exec_shuffle (op : Shuffle) (r a b : Reg) :
    exec (.shuffle op r a b) d = some (d.setYmm r (op.apply (d.ymm a) (d.ymm b))) := rfl
@[simp] theorem exec_broadcast (r : Reg) (m : Mem) : exec (.vbroadcastsd r (.mem m)) d =
    some (d.setYmm r fun _ => load64 d.mem (d.addr m)) := rfl
@[simp] theorem exec_vzeroupper :
    exec .vzeroupper d = some { d with ymm := fun r => ![d.ymm r 0, d.ymm r 1, 0, 0] } := rfl

end

end Data

/-- Flags are not read, but by jumps. -/
theorem exec_data {i : Instr} (h : i.jumps = false) (s : State) :
    Data.exec i s.data = (exec i s).map State.data := by
  cases i with
  | int i =>
    cases i with
    | store dst src => cases dst <;> rfl
    | mov w dst src => cases src <;> rfl
    | alu op dst src => cases src <;> rfl
    | imul dst src => cases src <;> rfl
    | imulImm dst src => cases src <;> rfl
    | mul signed src => cases src <;> rfl
    | mulx hi lo src => cases src <;> rfl
    | jz rel => cases h
    | _ => rfl
  | mov dst src => cases src <;> rfl
  | imul dst src => cases src <;> rfl
  | lane op dst a b => cases b <;> rfl
  | vbroadcastsd dst src => cases src <;> rfl
  | jmp rel => cases h
  | jb rel => cases h
  | call rel => cases h
  | ret => cases h
  | _ => rfl

theorem exec_base {i : Instr} {s t : State} (h : exec i s = some t) : t.base = s.base := by
  cases i with
  | int i =>
    obtain ⟨u, -, rfl⟩ := Option.map_eq_some_iff.mp h
    rfl
  | mov dst src | imul dst src | lane op dst a src | vbroadcastsd dst src =>
    obtain ⟨v, -, rfl⟩ := Option.map_eq_some_iff.mp h
    rfl
  | jb rel =>
    obtain ⟨c, -, rfl⟩ := Option.map_eq_some_iff.mp h
    cases c <;> rfl
  | _ =>
    cases h
    rfl

/-- The instructions make `d'` of `d`, whatever the flags are. -/
def Does (is : List Instr) (d d' : Data) : Prop :=
  (∀ i ∈ is, i.jumps = false) ∧ Data.execAll is d = some d'

theorem Does.nil (d : Data) : Does [] d d := ⟨nofun, rfl⟩

theorem Does.append {is js : List Instr} {d d' d'' : Data} (h : Does is d d') (h' : Does js d' d'') :
    Does (is ++ js) d d'' := by
  refine ⟨fun i hi => (List.mem_append.mp hi).elim (h.1 i) (h'.1 i), ?_⟩
  obtain ⟨-, hd⟩ := h
  induction is generalizing d with
  | nil =>
    cases hd
    exact h'.2
  | cons i is ih =>
    obtain ⟨u, hu, hut⟩ := Option.bind_eq_some_iff.mp hd
    rw [List.cons_append, Data.execAll_cons, hu]
    exact ih hut

theorem does_lanes (is : List LaneInstr) (d : Data) : Does (is.map LaneInstr.instr) d
    { d with ymm := fun r l => is.foldl LaneInstr.exec (d.ymm · l) r } := by
  induction is generalizing d with
  | nil => exact .nil d
  | cons i is ih =>
    have hone : Does [i.instr] d { d with ymm := fun r l => i.exec (d.ymm · l) r } := by
      refine ⟨fun j hj => ?_, ?_⟩
      · rw [List.mem_singleton.mp hj]
        cases i <;> rfl
      · rw [Data.execAll_cons, Data.exec, LaneInstr.exec_instr]
        rfl
    exact hone.append (ih _)

/-- In a state with flags. -/
theorem Does.execAll {is : List Instr} {s : State} {d' : Data} (h : Does is s.data d') :
    ∃ t, Avx2.execAll is s = some t ∧ t.data = d' ∧ t.base = s.base := by
  obtain ⟨hj, hd⟩ := h
  induction is generalizing s with
  | nil =>
    cases hd
    exact ⟨s, rfl, rfl, rfl⟩
  | cons i is ih =>
    obtain ⟨u, hu, hut⟩ := Option.bind_eq_some_iff.mp hd
    rw [exec_data (hj i List.mem_cons_self)] at hu
    obtain ⟨t, ht, rfl⟩ := Option.map_eq_some_iff.mp hu
    obtain ⟨v, hv, hvd, hvb⟩ := ih (fun j hj' => hj j (List.mem_cons_of_mem _ hj')) hut
    exact ⟨v, by rw [Avx2.execAll, ht, Option.bind_some, hv], hvd, hvb.trans (exec_base ht)⟩

/-- Without them. -/
theorem does_of_execAll {is : List Instr} {s t : State} (hj : ∀ i ∈ is, i.jumps = false)
    (h : Avx2.execAll is s = some t) : Does is s.data t.data := by
  refine ⟨hj, ?_⟩
  induction is generalizing s with
  | nil =>
    cases h
    rfl
  | cons i is ih =>
    obtain ⟨u, hu, hut⟩ := Option.bind_eq_some_iff.mp h
    rw [Data.execAll_cons, exec_data (hj i List.mem_cons_self), hu]
    exact ih (fun j hj' => hj j (List.mem_cons_of_mem _ hj')) hut

/-! ## Runs -/

/-- From `p`, where `P` holds, the code comes to `q`, where `Q` does. -/
def Leads (code : Bytes) (base : BitVec 64) (p : Nat) (P : Data → Prop) (q : Nat) (Q : Data → Prop) :
    Prop :=
  ∀ s : State, s.base = base → s.rip = p → P s.data →
    ∃ t, Runs code s t ∧ t.base = base ∧ t.rip = q ∧ Q t.data

section

variable {code : Bytes} {base : BitVec 64} {p q r : Nat} {P Q R : Data → Prop}

theorem Leads.trans (h : Leads code base p P q Q) (h' : Leads code base q Q r R) :
    Leads code base p P r R := by
  intro s hb hs hP
  obtain ⟨t, hst, hbt, ht, hQ⟩ := h s hb hs hP
  obtain ⟨u, htu, hbu, hu, hR⟩ := h' t hbt ht hQ
  exact ⟨u, hst.trans htu, hbu, hu, hR⟩

/-- Code without jumps. -/
theorem Leads.straight {is : List Instr} (hd : Disassembles code p is q)
    (h : ∀ d, P d → ∃ d', Does is d d' ∧ Q d') : Leads code base p P q Q := by
  intro s hb hs hP
  obtain ⟨d', hdoes, hQ⟩ := h s.data hP
  obtain ⟨t, ht, rfl, htb⟩ := hdoes.execAll
  exact ⟨_, hd.runs hdoes.1 hs ht, htb.trans hb, rfl, hQ⟩

/-- One instruction. -/
theorem Leads.one {i : Instr} (hf : fetch code p = some (i, q))
    (h : ∀ s : State, s.base = base → P s.data →
      ∃ t, exec i { s with rip := q } = some t ∧ t.base = base ∧ t.rip = r ∧ Q t.data) :
    Leads code base p P r Q := by
  rintro s hb rfl hP
  obtain ⟨t, ht, hd⟩ := h s hb hP
  exact ⟨t, .step hf ht, hd⟩

theorem Leads.jmp {rel : BitVec 32} (hf : fetch code p = some (.jmp rel, q))
    (hr : ((q : Int) + rel.toInt).toNat = r) : Leads code base p P r P :=
  .one hf fun s hb hP => ⟨{ s with rip := r }, by simp only [exec, hr], hb, rfl, hP⟩

theorem Leads.call {rel : BitVec 32} (hf : fetch code p = some (.call rel, q))
    (hr : ((q : Int) + rel.toInt).toNat = r)
    (h : ∀ d, P d → Q ((d.setMem (store64 d.mem (d.regs rsp - 8) (base + BitVec.ofNat 64 q))).setReg
      rsp (d.regs rsp - 8))) : Leads code base p P r Q := by
  refine .one hf fun s hb hP => ⟨_, rfl, hb, hr, ?_⟩
  subst hb
  exact h s.data hP

/-- Back to where the word on the stack says. -/
theorem Leads.ret (hf : fetch code p = some (.ret, q))
    (h : ∀ d, P d → (load64 d.mem (d.regs rsp) - base).toNat = r ∧
      Q (d.setReg rsp (d.regs rsp + 8))) : Leads code base p P r Q := by
  refine .one hf fun s hb hP => ⟨_, rfl, hb, ?_, (h s.data hP).2⟩
  subst hb
  exact (h s.data hP).1

/-- What the code does is said of each beginning by itself. -/
theorem Leads.each (h : ∀ d, P d → Leads code base p (· = d) q Q) : Leads code base p P q Q :=
  fun s hb hs hP => h s.data hP s hb hs rfl

/-- **A loop** that compares before it goes back: a pass makes `I (k + 1)` of `I k`, and
there are `n` of them. -/
theorem Leads.loop {I : Nat → Data → Prop} {n cmp back : Nat} {a : Reg} {b : Rm} {rel : BitVec 32}
    (hn : 0 < n) (hbody : ∀ k < n, Leads code base p (I k) cmp (I (k + 1)))
    (hcmp : fetch code cmp = some (.cmp a b, back))
    (hjb : fetch code back = some (.jb rel, q)) (hr : ((q : Int) + rel.toInt).toNat = p)
    (hlast : ∀ k < n, ∀ s : State, I (k + 1) s.data → (s.regs a < s.read b ↔ k + 1 < n)) :
    Leads code base p (I 0) q (I n) := by
  have from_pass (j : Nat) : ∀ k, k < n → n - k = j → Leads code base p (I k) q (I n) := by
    induction j with
    | zero => omega
    | succ j ih =>
      intro k hk hj
      -- behind the jump, with the passes to come
      have hend : Leads code base cmp (I (k + 1)) q (I n) := by
        intro s hb hs hI
        have hcarry := hlast k hk s hI
        have hstep := step_eq (s := s) (hs ▸ hcmp)
        set u : State :=
          { s.setFlags (some (s.regs a = s.read b)) (some (s.regs a < s.read b)) with rip := back }
        have hu : step code s = some u := hstep
        have hback : step code u = exec (.jb rel) { u with rip := q } := step_eq hjb
        by_cases hmore : k + 1 < n
        · have hpass : step code u = some { u with rip := p } := by
            rw [hback]
            simp [exec, u, State.setFlags, hcarry.mpr hmore, hr]
          obtain ⟨t, hut, ht⟩ := ih (k + 1) hmore (by omega) { u with rip := p } hb rfl hI
          exact ⟨t, .head hu (.head hpass hut), ht⟩
        · have hout : step code u = some { u with rip := q } := by
            rw [hback]
            simp [exec, u, State.setFlags, mt hcarry.mp hmore]
          have heq : n = k + 1 := by omega
          exact ⟨_, .head hu (.single hout), hb, rfl, heq ▸ hI⟩
      exact (hbody k hk).trans hend
  exact from_pass n 0 hn rfl

end

/-! ## Vectors in memory -/

theorem load256_slot (m : BitVec 64 → BitVec 8) (a : BitVec 64) (j : Nat) :
    load256 m (slot a j) = fun l => load64 m (slot a (j + l.val)) := by
  funext l
  have h1 : slot a j + 8 = slot a (j + 1) := X86.slot_add a j 1
  have h2 : slot a j + 16 = slot a (j + 2) := X86.slot_add a j 2
  have h3 : slot a j + 24 = slot a (j + 3) := X86.slot_add a j 3
  rw [load256, h1, h2, h3]
  match l with
  | 0 | 1 | 2 | 3 => rfl

theorem store256_slot (m : BitVec 64 → BitVec 8) (a : BitVec 64) (j : Nat) (v : Vec) :
    store256 m (slot a j) v = store64 (store64 (store64 (store64 m (slot a j) (v 0))
      (slot a (j + 1)) (v 1)) (slot a (j + 2)) (v 2)) (slot a (j + 3)) (v 3) := by
  have h1 : slot a j + 8 = slot a (j + 1) := X86.slot_add a j 1
  have h2 : slot a j + 16 = slot a (j + 2) := X86.slot_add a j 2
  have h3 : slot a j + 24 = slot a (j + 3) := X86.slot_add a j 3
  rw [store256, store128, h1, h2, h3]

/-- A vector that is written, among the words around it. -/
theorem load64_store256_slot (m : BitVec 64 → BitVec 8) (a : BitVec 64) (v : Vec) {i j : Nat}
    (hi : 8 * i + 32 ≤ 2 ^ 64) (hj : 8 * j + 8 ≤ 2 ^ 64) :
    load64 (store256 m (slot a i) v) (slot a j) =
      if h : i ≤ j ∧ j < i + 4 then v ⟨j - i, by omega⟩ else load64 m (slot a j) := by
  rw [store256_slot, X86.load64_store64_slot _ _ _ (by omega) hj,
    X86.load64_store64_slot _ _ _ (by omega) hj, X86.load64_store64_slot _ _ _ (by omega) hj,
    X86.load64_store64_slot _ _ _ (by omega) hj]
  by_cases h : i ≤ j ∧ j < i + 4
  · rw [dif_pos h]
    obtain ⟨l, rfl⟩ := Nat.exists_eq_add_of_le h.1
    have hl : l < 4 := by omega
    interval_cases l <;> simp
  · rw [dif_neg h, if_neg (by omega), if_neg (by omega), if_neg (by omega), if_neg (by omega)]

theorem frame_store256 {P : BitVec 64 → Prop} {m m' : BitVec 64 → BitVec 8} {a : BitVec 64} {j : Nat}
    (h : Frame P m m') (ha : ∀ l < 4, Bytes8 P (slot a (j + l))) (v : Vec) :
    Frame P m (store256 m' (slot a j) v) := by
  rw [store256_slot]
  exact (((h.store64 (ha 0 (by decide)) _).store64 (ha 1 (by decide)) _).store64
    (ha 2 (by decide)) _).store64 (ha 3 (by decide)) _

end Rxs.Core.Avx2
