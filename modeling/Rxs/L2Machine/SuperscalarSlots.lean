import Mathlib.Data.List.Infix
import Rxs.L2Machine.DatasetItem

/-!
# What the windows of the generator hold

A window of sixteen bytes has three or four slots, and every macro-operation that is
issued takes one: the first of an instruction that fits the slot, or the next of the one
that is being issued. Of an instruction that takes more than one slot the others are in
the window that `fetchNext` gives it, and they are its first (`Waits`).

A `Tariff` charges macro-operations, and says how much there is in a slot. What has been
charged never gets ahead of the windows, whatever is thrown away, so a tariff that is
enough for the code of an instruction bounds the code of a program.

* `turn_paid`: one macro-operation, under any tariff.
* `fillBuffer_paid`: a window.
* `decode_paid`: a run; multiplications are counted by a tariff of their own, as
  `fetchNext` goes by their number.
* `generateSuperscalar_paid`: **a program**.
-/
namespace Rxs.RandomX.Superscalar

open Rxs.Core Rxs.RandomX.BytecodeMachine
open SuperscalarInstructionType DecoderBuffer

@[simp] theorem info_type (type : SuperscalarInstructionType) : (info type).type = type := by
  cases type <;> rfl

/-! ## Slots -/

/-- The windows that there are. -/
def DecoderBuffer.windows : List DecoderBuffer :=
  [decodeBuffer484, decodeBuffer7333, decodeBuffer3733, decodeBuffer493, decodeBuffer4444,
    decodeBuffer3310]

/-- What can be created for a slot. -/
def forSlot (slotSize : Nat) (fetchType : Int) (isLast : Bool) : List SuperscalarInstructionType :=
  match slotSize with
  | 3 => if isLast then [ISUB_R, IXOR_R, IMULH_R, ISMULH_R] else [ISUB_R, IXOR_R]
  | 4 => if fetchType = 4 ∧ ¬ isLast then [IMUL_R] else [IROR_C, IADD_RS]
  | 7 => [IXOR_C7, IADD_C7]
  | 8 => [IXOR_C8, IADD_C8]
  | 9 => [IXOR_C9, IADD_C9]
  | 10 => [IMUL_RCP]
  | _ => []

/-- Slots, and what fits them. -/
def fits : List (Nat × SuperscalarInstructionType) :=
  [(3, ISUB_R), (3, IXOR_R), (3, IMULH_R), (3, ISMULH_R), (4, IMUL_R), (4, IROR_C), (4, IADD_RS),
    (7, IXOR_C7), (7, IADD_C7), (8, IXOR_C8), (8, IADD_C8), (9, IXOR_C9), (9, IADD_C9),
    (10, IMUL_RCP)]

theorem forSlot_fits {slotSize : Nat} {fetchType : Int} {isLast : Bool}
    {type : SuperscalarInstructionType} (h : type ∈ forSlot slotSize fetchType isLast) :
    (slotSize, type) ∈ fits := by
  unfold forSlot at h
  split at h
  · split at h <;> simp only [List.mem_cons, List.not_mem_nil, or_false] at h
    · rcases h with rfl | rfl | rfl | rfl <;> decide
    · rcases h with rfl | rfl <;> decide
  · split at h <;> simp only [List.mem_cons, List.not_mem_nil, or_false] at h
    · obtain rfl := h
      decide
    · rcases h with rfl | rfl <;> decide
  case h_6 =>
    obtain rfl := List.mem_singleton.mp h
    decide
  case h_7 => simp at h
  all_goals
    simp only [List.mem_cons, List.not_mem_nil, or_false] at h
    rcases h with rfl | rfl <;> decide

section

variable {rx_blake2b : Bytes → Bytes} {fuel : Nat}

theorem create_info (type : SuperscalarInstructionType) (i : SuperscalarInstruction)
    (gen : Blake2Generator) : Ends (fun _ => True) (fun r => r.1.info = info type)
      (i.create rx_blake2b fuel type gen) := by
  cases type with
  | IROR_C | IMUL_RCP => exact .bind (.any _) fun _ _ => .pure rfl
  | _ => exact .pure rfl

theorem createForSlot_info (slotSize : Nat) (fetchType : Int) (isLast : Bool)
    (i : SuperscalarInstruction) (gen : Blake2Generator) :
    Ends (fun _ => True) (fun r => ∃ type ∈ forSlot slotSize fetchType isLast, r.1.info = info type)
      (i.createForSlot rx_blake2b fuel slotSize fetchType isLast gen) := by
  have create {type : SuperscalarInstructionType} {gen : Blake2Generator}
      (h : type ∈ forSlot slotSize fetchType isLast) : Ends (fun _ => True)
        (fun r => ∃ type ∈ forSlot slotSize fetchType isLast, r.1.info = info type)
        (i.create rx_blake2b fuel type gen) :=
    (create_info type i gen).mono fun _ hr => ⟨type, h, hr⟩
  unfold SuperscalarInstruction.createForSlot
  split
  · refine .ite (fun hlast => create ?_) fun hlast => create ?_
    · simp only [forSlot, hlast, if_true]
      split <;> simp
    · simp only [forSlot, hlast, if_false, Bool.false_eq_true]
      split <;> simp
  · refine .ite (fun hmul => create ?_) fun hmul => create ?_
    · simp [forSlot, hmul]
    · simp only [forSlot, hmul, if_false]
      split <;> simp
  · exact create (by split <;> simp [forSlot])
  · exact create (by split <;> simp [forSlot])
  · exact create (by split <;> simp [forSlot])
  · exact create (by simp [forSlot])
  · exact .throw trivial

end

/-- The macro-operations of the instruction from `k` on take the slots that are next in the
window, if any are left; the second half of a product has a window of its own. -/
structure Waits (window : DecoderBuffer) (counts : List Nat) (type : SuperscalarInstructionType)
    (k : Nat) : Prop where
  pos : 0 < k
  sizes : counts = [] ∨ ((info type).ops.drop k).map MacroOp.size <+: counts
  product : counts ≠ [] → type = IMULH_R ∨ type = ISMULH_R → window = decodeBuffer3310

/-- The slot of ten bytes is the last one of its window. -/
theorem last_of_ten : ∀ window ∈ windows, ∀ counts ∈ window.counts.tails,
    counts.head? = some 10 → counts.tail = [] := by
  decide

/-- What is created has one macro-operation, or takes the last slot. -/
theorem waits_created {window : DecoderBuffer} (hwindow : window ∈ windows) {slotSize : Nat}
    {counts : List Nat} (hslots : slotSize :: counts <:+ window.counts)
    {type : SuperscalarInstructionType}
    (htype : type ∈ forSlot slotSize window.index counts.isEmpty)
    (hk : 1 < (info type).ops.length) : Waits window counts type 1 := by
  have hall : ∀ p ∈ fits, 1 < (info p.2).ops.length →
      p.1 = 10 ∨ p.1 = 3 ∧ p.2 ∉ [ISUB_R, IXOR_R] := by
    decide
  have hlast : counts = [] := by
    rcases hall _ (forSlot_fits htype) hk with rfl | ⟨rfl, hne⟩
    · exact last_of_ten window hwindow _ ((List.mem_tails _ _).mpr hslots) rfl
    · by_contra hcounts
      have hempty : counts.isEmpty = false := by simpa using hcounts
      rw [hempty] at htype
      exact hne htype
  exact ⟨Nat.one_pos, .inl hlast, fun h => absurd hlast h⟩

/-- The window that is fetched is the one that the instruction waits for. -/
theorem fetchNext_waits (rx_blake2b : Bytes → Bytes) {type : SuperscalarInstructionType} {k : Nat}
    (hpos : 0 < k) (hk : k < (info type).ops.length) (cycle mulCount : Nat)
    (gen : Blake2Generator) : Waits (fetchNext rx_blake2b type cycle mulCount gen).1
      (fetchNext rx_blake2b type cycle mulCount gen).1.counts type k := by
  refine ⟨hpos, .inr ?_, fun _ h => ?_⟩
  · cases type with
    | IMULH_R | ISMULH_R =>
      have hcases : k = 1 ∨ k = 2 := by
        simp only [info, List.length_cons, List.length_nil] at hk
        omega
      rw [fetchNext, if_pos (by simp)]
      dsimp only
      rcases hcases with rfl | rfl <;> decide
    | IMUL_RCP =>
      obtain rfl : k = 1 := by
        simp only [info, List.length_cons, List.length_nil] at hk
        omega
      simp only [fetchNext, reduceCtorEq, or_self, if_false, if_true]
      split
      · dsimp only
        decide
      · dsimp only
        split <;> decide
    | _ =>
      simp only [info, List.length_cons, List.length_nil] at hk
      omega
  · rw [fetchNext, if_pos h]

theorem fetchNext_mem (rx_blake2b : Bytes → Bytes) (type : SuperscalarInstructionType)
    (cycle mulCount : Nat) (gen : Blake2Generator) :
    (fetchNext rx_blake2b type cycle mulCount gen).1 ∈ windows ∧
      ((fetchNext rx_blake2b type cycle mulCount gen).1 = decodeBuffer4444 →
        mulCount < cycle + 1) := by
  have hne : ∀ window ∈ [decodeBuffer484, decodeBuffer7333, decodeBuffer3733, decodeBuffer493,
      decodeBuffer3310], window ∈ windows ∧ window ≠ decodeBuffer4444 := by
    decide
  have other {window : DecoderBuffer} (h : window ∈ [decodeBuffer484, decodeBuffer7333,
      decodeBuffer3733, decodeBuffer493, decodeBuffer3310]) :
      window ∈ windows ∧ (window = decodeBuffer4444 → mulCount < cycle + 1) :=
    ⟨(hne window h).1, fun heq => absurd heq (hne window h).2⟩
  unfold fetchNext fetchNextDefault
  split
  · exact other (by simp)
  · split
    · rename_i hmul
      exact ⟨by simp [windows], fun _ => hmul⟩
    · split
      · exact other (by dsimp only; split <;> simp)
      · exact other (by dsimp only; split <;> simp)

/-! ## Tariffs -/

/-- What macro-operation `k` of an instruction is charged, and what there is in a slot of a
window. -/
structure Tariff where
  rate : SuperscalarInstructionType → Nat → Nat
  slot : DecoderBuffer → Nat → Bool → Nat
  created : ∀ {window slotSize isLast type}, type ∈ forSlot slotSize window.index isLast →
    rate type 0 ≤ slot window slotSize isLast
  product : ∀ {type}, type = IMULH_R ∨ type = ISMULH_R → ∀ k ∈ [1, 2], ∀ isLast,
    rate type k ≤ slot decodeBuffer3310 3 isLast
  reciprocal : ∀ window isLast, rate IMUL_RCP 1 ≤ slot window 4 isLast

namespace Tariff

variable (T : Tariff)

/-- The first `k` macro-operations. -/
def upTo (type : SuperscalarInstructionType) : Nat → Nat
  | 0 => 0
  | k + 1 => upTo type k + T.rate type k

/-- An instruction. -/
def whole (type : SuperscalarInstructionType) : Nat := T.upTo type (info type).ops.length

def program (instrs : List Instruction) : Nat :=
  (instrs.map fun instr => T.whole (typeOf instr.opcode)).sum

/-- The slots that are left of a window. -/
def slots (window : DecoderBuffer) : List Nat → Nat
  | [] => 0
  | slotSize :: counts => T.slot window slotSize counts.isEmpty + slots window counts

/-- The program, and as far as it has been issued the next instruction of it. -/
def paid (s : State) : Nat :=
  T.program s.program +
    if s.macroOpIndex < s.currentInstruction.info.ops.length then
      T.upTo s.currentInstruction.info.type s.macroOpIndex
    else 0

theorem program_append (instrs : List Instruction) (instr : Instruction) :
    T.program (instrs ++ [instr]) = T.program instrs + T.whole (typeOf instr.opcode) := by
  simp [program]

theorem program_le_paid (s : State) : T.program s.program ≤ T.paid s := Nat.le_add_right _ _

theorem paid_of_le {s : State} (h : s.currentInstruction.info.ops.length ≤ s.macroOpIndex) :
    T.paid s = T.program s.program := by
  rw [paid, if_neg (Nat.not_lt.mpr h), Nat.add_zero]

theorem paid_of_lt {s : State} (h : s.macroOpIndex < s.currentInstruction.info.ops.length) :
    T.paid s = T.program s.program +
      T.upTo s.currentInstruction.info.type s.macroOpIndex := by
  rw [paid, if_pos h]

/-- There is enough in the slot that an instruction waits for, and it waits for the next. -/
theorem waits_rate {window : DecoderBuffer} {slotSize k : Nat} {counts : List Nat}
    {type : SuperscalarInstructionType} (h : Waits window (slotSize :: counts) type k)
    (hk : k < (info type).ops.length) :
    T.rate type k ≤ T.slot window slotSize counts.isEmpty := by
  have hpos := h.pos
  have hsizes := h.sizes.resolve_left (List.cons_ne_nil _ _)
  have hwindow := h.product (List.cons_ne_nil _ _)
  cases type with
  | IMULH_R | ISMULH_R =>
    obtain rfl := hwindow (by simp)
    have hcases : k = 1 ∨ k = 2 := by
      simp only [info, List.length_cons, List.length_nil] at hk
      omega
    obtain rfl : 3 = slotSize := by
      rcases hcases with rfl | rfl <;> exact (List.cons_prefix_cons.mp hsizes).1
    exact T.product (by simp) k (by simpa using hcases) _
  | IMUL_RCP =>
    obtain rfl : k = 1 := by
      simp only [info, List.length_cons, List.length_nil] at hk
      omega
    obtain rfl : 4 = slotSize := (List.cons_prefix_cons.mp hsizes).1
    exact T.reciprocal window _
  | _ =>
    simp only [info, List.length_cons, List.length_nil] at hk
    omega

end Tariff

theorem Waits.next {window : DecoderBuffer} {slotSize k : Nat} {counts : List Nat}
    {type : SuperscalarInstructionType} (h : Waits window (slotSize :: counts) type k)
    (hk : k < (info type).ops.length) : Waits window counts type (k + 1) := by
  have hsizes := h.sizes.resolve_left (List.cons_ne_nil _ _)
  rw [List.drop_eq_getElem_cons hk, List.map_cons, List.cons_prefix_cons] at hsizes
  exact ⟨Nat.succ_pos k, .inr hsizes.2, fun _ => h.product (List.cons_ne_nil _ _)⟩

/-- Multiplications, where they are begun. -/
def multiplications : Tariff where
  rate type k := if k = 0 ∧ isMultiplication type then 1 else 0
  slot window slotSize isLast := if window.index = 4 ∨ isLast ∨ slotSize = 10 then 1 else 0
  created := by
    intro window slotSize isLast type h
    have hall : ∀ p ∈ fits, isMultiplication p.2 →
        p.1 = 10 ∨ p.1 = 3 ∧ p.2 ∉ [ISUB_R, IXOR_R] ∨ p.1 = 4 ∧ p.2 ∉ [IROR_C, IADD_RS] := by
      decide
    by_cases hmul : isMultiplication type = true
    · have hslot : window.index = 4 ∨ isLast = true ∨ slotSize = 10 := by
        rcases hall _ (forSlot_fits h) hmul with rfl | ⟨rfl, hne⟩ | ⟨rfl, hne⟩
        · exact .inr (.inr rfl)
        · by_contra hno
          simp only [forSlot, if_neg (not_or.mp (not_or.mp hno).2).1] at h
          exact hne h
        · by_contra hno
          simp only [forSlot, (not_or.mp hno).1, false_and, if_false] at h
          exact hne h
      simp [hmul, hslot]
    · simp [hmul]
  product := by
    intro type _ k hk isLast
    have hne : k ≠ 0 := by
      rintro rfl
      simp at hk
    simp [hne]
  reciprocal := by simp

theorem multiplications_whole (type : SuperscalarInstructionType) :
    multiplications.whole type = if isMultiplication type then 1 else 0 := by
  cases type <;> rfl

theorem multiplications_upTo (type : SuperscalarInstructionType) (k : Nat) :
    multiplications.upTo type k ≤ 1 := by
  have hone (n : Nat) : multiplications.upTo type (n + 1) ≤ 1 := by
    induction n with
    | zero =>
      simp only [Tariff.upTo, multiplications]
      split <;> simp
    | succ n ih => simpa [Tariff.upTo, multiplications] using ih
  cases k with
  | zero => exact Nat.zero_le _
  | succ k => exact hone k

/-! ## One macro-operation -/

/-- What holds between two slots. -/
structure Between (window : DecoderBuffer) (counts : List Nat) (s : State) : Prop where
  info_eq : s.currentInstruction.info = info s.currentInstruction.info.type
  waits : s.macroOpIndex < s.currentInstruction.info.ops.length →
    Waits window counts s.currentInstruction.info.type s.macroOpIndex

/-- On the way from `s` to `s'` no tariff charges more than `charge`. -/
structure Charged (charge : Tariff → Nat) (s s' : State) : Prop where
  paid : ∀ T : Tariff, T.paid s' ≤ T.paid s + charge T
  mulCount : s.mulCount = multiplications.program s.program →
    s'.mulCount = multiplications.program s'.program

/-- The next macro-operation fits its slot. -/
structure Due (window : DecoderBuffer) (slotSize : Nat) (counts : List Nat) (s : State) : Prop where
  info_eq : s.currentInstruction.info = info s.currentInstruction.info.type
  lt : s.macroOpIndex < s.currentInstruction.info.ops.length
  rate : ∀ T : Tariff, T.rate s.currentInstruction.info.type s.macroOpIndex ≤
    T.slot window slotSize counts.isEmpty
  next : s.macroOpIndex + 1 < s.currentInstruction.info.ops.length →
    Waits window counts s.currentInstruction.info.type (s.macroOpIndex + 1)

/-- `s'` is the same as `s` to all tariffs. -/
structure Same (s s' : State) : Prop where
  info : s'.currentInstruction.info = s.currentInstruction.info
  macroOpIndex : s'.macroOpIndex = s.macroOpIndex
  program : s'.program = s.program
  mulCount : s'.mulCount = s.mulCount

/-- What a macro-operation comes to. -/
def TurnPaid (window : DecoderBuffer) (slotSize : Nat) (counts : List Nat) (s : State) :
    Turn → Prop
  | .issued s' =>
    Between window counts s' ∧ Charged (fun T => T.slot window slotSize counts.isEmpty) s s'
  | .thrown s' => Between window (slotSize :: counts) s' ∧ Charged (fun _ => 0) s s'
  | .left s' =>
    (s'.portsSaturated = true ∨ Between window [] s') ∧ Charged (fun _ => 0) s s'

section

variable {window : DecoderBuffer} {slotSize : Nat} {counts : List Nat} {s s' s'' : State}

theorem Charged.refl : Charged (fun _ => 0) s s := ⟨fun _ => Nat.le_refl _, id⟩

theorem Charged.trans {charge charge' : Tariff → Nat} (h : Charged charge s s')
    (h' : Charged charge' s' s'') : Charged (fun T => charge T + charge' T) s s'' := by
  refine ⟨fun T => ?_, fun hm => h'.mulCount (h.mulCount hm)⟩
  have := h.paid T
  have := h'.paid T
  omega

theorem Charged.mono {charge charge' : Tariff → Nat} (h : Charged charge s s')
    (hle : ∀ T, charge T ≤ charge' T) : Charged charge' s s' :=
  ⟨fun T => (h.paid T).trans (Nat.add_le_add_left (hle T) _), h.mulCount⟩

theorem Same.refl : Same s s := ⟨rfl, rfl, rfl, rfl⟩

theorem Same.trans (h : Same s s') (h' : Same s' s'') : Same s s'' :=
  ⟨h'.info.trans h.info, h'.macroOpIndex.trans h.macroOpIndex, h'.program.trans h.program,
    h'.mulCount.trans h.mulCount⟩

theorem Same.charged (h : Same s s') : Charged (fun _ => 0) s s' := by
  refine ⟨fun T => ?_, fun hm => ?_⟩
  · rw [Tariff.paid, Tariff.paid, h.info, h.macroOpIndex, h.program]
    exact Nat.le_refl _
  · rw [h.mulCount, h.program, hm]

theorem Charged.same {charge : Tariff → Nat} (h : Charged charge s s') (hs : Same s' s'') :
    Charged charge s s'' :=
  (h.trans hs.charged).mono fun _ => Nat.le_refl _

theorem Same.due (h : Same s s') (hs : Due window slotSize counts s) :
    Due window slotSize counts s' where
  info_eq := h.info ▸ hs.info_eq
  lt := by
    rw [h.info, h.macroOpIndex]
    exact hs.lt
  rate := by
    rw [h.info, h.macroOpIndex]
    exact hs.rate
  next := by
    rw [h.info, h.macroOpIndex]
    exact hs.next

/-- What is thrown away or left has been charged for nothing. -/
theorem Charged.dropped (hp : s'.program = s.program) (hm : s'.mulCount = s.mulCount)
    (hle : s'.currentInstruction.info.ops.length ≤ s'.macroOpIndex) :
    Charged (fun _ => 0) s s' := by
  refine ⟨fun T => ?_, fun h => ?_⟩
  · rw [T.paid_of_le hle, hp]
    exact T.program_le_paid s
  · rw [hm, hp, h]

/-- What is charged is the same from where the instruction is known. -/
theorem TurnPaid.after {t : Turn} (ht : TurnPaid window slotSize counts s' t)
    (h : Charged (fun _ => 0) s s') : TurnPaid window slotSize counts s t := by
  cases t
  all_goals exact ⟨ht.1, (h.trans ht.2).mono fun _ => (Nat.zero_add _).le⟩

theorem throwAway_paid (h : Due window slotSize counts s) :
    TurnPaid window slotSize counts s (throwAway s) := by
  unfold throwAway
  split
  · exact ⟨⟨h.info_eq, fun hlt => absurd hlt (Nat.lt_irrefl _)⟩,
      .dropped rfl rfl (Nat.le_refl _)⟩
  · exact ⟨.inr ⟨rfl, fun hlt => absurd hlt (Nat.not_lt_zero _)⟩, .dropped rfl rfl (Nat.zero_le _)⟩

theorem retire_same : Ends (fun _ => True) (Same s) (retire s) := by
  unfold retire
  split
  · split
    · exact .pure ⟨rfl, rfl, rfl, rfl⟩
    · exact .throw trivial
  · exact .pure .refl

/-- The instruction has one macro-operation more, and is in the program with its last. -/
structure Issued (s s' : State) : Prop where
  info : s'.currentInstruction.info = s.currentInstruction.info
  macroOpIndex : s'.macroOpIndex = s.macroOpIndex + 1
  program : s'.program =
    if s.macroOpIndex + 1 < s.currentInstruction.info.ops.length then s.program
    else s.program ++ [s.currentInstruction.toInstr]
  mulCount : s'.mulCount =
    if s.macroOpIndex + 1 < s.currentInstruction.info.ops.length then s.mulCount
    else s.mulCount + if isMultiplication s.currentInstruction.info.type then 1 else 0

theorem finish_issued (SuperscalarLatency : Nat) (mop : MacroOp) (topCycle scheduleCycle : Nat)
    (s : State) : Ends (fun _ => True) (Issued s)
      (finish (advance SuperscalarLatency mop topCycle scheduleCycle s)) := by
  unfold finish
  refine .ite (fun hk => .ite (fun _ => .pure ?_) fun _ => .throw trivial) fun hk => .pure ?_
  · have hlast : ¬ s.macroOpIndex + 1 < s.currentInstruction.info.ops.length := Nat.not_lt.mpr hk
    exact ⟨rfl, rfl, (if_neg hlast).symm, (if_neg hlast).symm⟩
  · have hlt : s.macroOpIndex + 1 < s.currentInstruction.info.ops.length := Nat.lt_of_not_le hk
    exact ⟨rfl, rfl, (if_pos hlt).symm, (if_pos hlt).symm⟩

/-- **What is issued is charged to its slot.** -/
theorem Due.issued (h : Due window slotSize counts s) (hs : Issued s s') :
    Between window counts s' ∧ Charged (fun T => T.slot window slotSize counts.isEmpty) s s' := by
  obtain ⟨hinfo, hindex, hprogram, hmul⟩ := hs
  have hlt := h.lt
  by_cases hk : s.macroOpIndex + 1 < s.currentInstruction.info.ops.length
  · rw [if_pos hk] at hprogram hmul
    have hk' : s'.macroOpIndex < s'.currentInstruction.info.ops.length := by rwa [hinfo, hindex]
    refine ⟨⟨hinfo ▸ h.info_eq, fun _ => ?_⟩, fun T => ?_, fun hm => ?_⟩
    · rw [hinfo, hindex]
      exact h.next hk
    · rw [T.paid_of_lt hk', T.paid_of_lt hlt, hinfo, hindex, hprogram, Tariff.upTo]
      have := h.rate T
      omega
    · rw [hprogram, hmul, hm]
  · rw [if_neg hk] at hprogram hmul
    have hk' : s'.currentInstruction.info.ops.length ≤ s'.macroOpIndex := by
      rw [hinfo, hindex]
      exact Nat.le_of_not_lt hk
    have hvalid : s.currentInstruction.info.type ≠ INVALID := by
      intro hinvalid
      rw [h.info_eq, hinvalid] at hlt
      exact Nat.not_lt_zero _ hlt
    have htype : typeOf s.currentInstruction.toInstr.opcode = s.currentInstruction.info.type :=
      typeOf_toInt hvalid
    refine ⟨⟨hinfo ▸ h.info_eq, fun hlt' => absurd hlt' (Nat.not_lt.mpr hk')⟩, fun T => ?_,
      fun hm => ?_⟩
    · have hlast : s.currentInstruction.info.ops.length = s.macroOpIndex + 1 := by omega
      rw [T.paid_of_le hk', T.paid_of_lt hlt, hprogram, T.program_append, htype, Tariff.whole,
        ← h.info_eq, hlast, Tariff.upTo]
      have := h.rate T
      omega
    · rw [hprogram, hmul, multiplications.program_append, htype, multiplications_whole, hm]

end

section

variable {window : DecoderBuffer} {slotSize : Nat} {counts : List Nat} {s s' : State}
  {rx_blake2b : Bytes → Bytes} {fuel SuperscalarLatency : Nat}

theorem lookForward_same {select : Nat → SuperscalarInstruction → Blake2Generator →
      Bool × SuperscalarInstruction × Blake2Generator}
    (hselect : ∀ cycle i gen, (select cycle i gen).2.1.info = i.info) :
    ∀ (n scheduleCycle : Nat) (s : State), Same s (lookForward select n scheduleCycle s).2
  | 0, _, _ => .refl
  | n + 1, scheduleCycle, s => by
    have hinfo := hselect scheduleCycle s.currentInstruction s.gen
    rw [lookForward]
    rcases hsel : select scheduleCycle s.currentInstruction s.gen with ⟨_ | _, i, gen⟩
    · rw [hsel] at hinfo
      have hs : Same s { s with cycle := s.cycle + 1, currentInstruction := i, gen := gen } :=
        ⟨hinfo, rfl, rfl, rfl⟩
      exact hs.trans (lookForward_same hselect n (scheduleCycle + 1) _)
    · rw [hsel] at hinfo
      exact ⟨hinfo, rfl, rfl, rfl⟩

theorem findSource_same (rx_blake2b : Bytes → Bytes) (scheduleCycle : Nat) (s : State) :
    Same s (findSource rx_blake2b scheduleCycle s).2 := by
  unfold findSource
  split
  · refine lookForward_same (fun cycle i gen => ?_) _ _ _
    simp only [SuperscalarInstruction.selectSource]
    split
    · rfl
    · split <;> rfl
  · exact .refl

theorem findDestination_same (rx_blake2b : Bytes → Bytes) (scheduleCycle : Nat) (s : State) :
    Same s (findDestination rx_blake2b scheduleCycle s).2 := by
  unfold findDestination
  split
  · refine lookForward_same (fun cycle i gen => ?_) _ _ _
    simp only [SuperscalarInstruction.selectDestination]
    split <;> rfl
  · exact .refl

theorem nextInstruction_due (hwindow : window ∈ windows)
    (hslots : slotSize :: counts <:+ window.counts) (h : Between window (slotSize :: counts) s) :
    Ends (fun _ => True)
      (fun r => (r = none → s.currentInstruction.info.ops.length ≤ s.macroOpIndex) ∧
        ∀ s' ∈ r, Due window slotSize counts s' ∧ Charged (fun _ => 0) s s')
      (nextInstruction SuperscalarLatency rx_blake2b fuel window slotSize counts.isEmpty s) := by
  unfold nextInstruction
  refine .ite (fun hk => .ite (fun _ => .pure ⟨fun _ => hk, by simp⟩) fun _ => ?_) fun hk =>
    .pure ⟨nofun, ?_⟩
  · refine .bind (createForSlot_info _ _ _ _ _) ?_
    rintro ⟨i, gen⟩ ⟨type, hmem, hi⟩
    refine .pure ⟨nofun, ?_⟩
    rintro s' ⟨⟩
    have hpos : 0 < (info type).ops.length := by
      have hall : ∀ p ∈ fits, 0 < (info p.2).ops.length := by decide
      exact hall _ (forSlot_fits hmem)
    refine ⟨⟨?_, ?_, fun T => ?_, fun hk' => ?_⟩, fun T => ?_, fun hm => hm⟩ <;>
      simp only at hi ⊢
    · rw [hi, info_type]
    · rwa [hi]
    · rw [hi, info_type]
      exact T.created hmem
    · rw [hi] at hk' ⊢
      rw [info_type]
      exact waits_created hwindow hslots hmem hk'
    · rw [T.paid_of_le hk, T.paid_of_lt (by simpa only [hi] using hpos)]
      exact Nat.le_refl _
  · rintro s' ⟨⟩
    have hlt := Nat.lt_of_not_le hk
    have hwaits := h.waits hlt
    have hlt' := hlt
    rw [h.info_eq] at hlt'
    exact ⟨⟨h.info_eq, hlt, fun T => T.waits_rate hwaits hlt', fun _ => hwaits.next hlt'⟩, .refl⟩

theorem issue_paid (mop : MacroOp) (topCycle scheduleCycle : Nat)
    (h : Due window slotSize counts s) : Ends (fun _ => True) (TurnPaid window slotSize counts s)
      (issue SuperscalarLatency mop topCycle scheduleCycle s) := by
  refine .bind (.any _) ?_
  rintro ⟨_ | scheduleCycle, portBusy⟩ -
  · exact .pure ⟨.inl rfl, Same.charged ⟨rfl, rfl, rfl, rfl⟩⟩
  · refine .bind retire_same ?_
    intro s₁ hs₁
    have hs : Same s s₁ := ⟨hs₁.info, hs₁.macroOpIndex, hs₁.program, hs₁.mulCount⟩
    refine .bind (finish_issued SuperscalarLatency mop topCycle scheduleCycle s₁) ?_
    intro s₂ hs₂
    obtain ⟨hbetween, hcharged⟩ := (hs.due h).issued hs₂
    exact .pure ⟨hbetween, (hs.charged.trans hcharged).mono fun T => (Nat.zero_add _).le⟩

/-- **One macro-operation**, under any tariff. -/
theorem turn_paid (hwindow : window ∈ windows) (hslots : slotSize :: counts <:+ window.counts)
    (h : Between window (slotSize :: counts) s) :
    Ends (fun _ => True) (TurnPaid window slotSize counts s)
      (turn SuperscalarLatency rx_blake2b fuel window slotSize counts.isEmpty s) := by
  refine .bind (nextInstruction_due hwindow hslots h) ?_
  rintro (_ | s₁) ⟨hnone, hsome⟩
  · have hle := hnone rfl
    exact .pure ⟨.inr ⟨h.info_eq, fun hlt => absurd hlt (Nat.not_lt.mpr hle)⟩, .refl⟩
  obtain ⟨hdue, hcharged⟩ := hsome s₁ rfl
  simp only [List.getElem?_eq_getElem hdue.lt]
  refine .bind (.any _) ?_
  rintro ⟨_ | scheduleCycle, _⟩ -
  · exact .pure ⟨.inl rfl, hcharged.same ⟨rfl, rfl, rfl, rfl⟩⟩
  have hsource := findSource_same rx_blake2b scheduleCycle s₁
  rcases hr : findSource rx_blake2b scheduleCycle s₁ with ⟨_ | scheduleCycle₂, s₂⟩
  all_goals
    rw [hr] at hsource
    have hdue₂ := hsource.due hdue
    have hcharged₂ := hcharged.same hsource
    simp only [hr]
  · exact .pure ((throwAway_paid hdue₂).after hcharged₂)
  have hdestination := findDestination_same rx_blake2b scheduleCycle₂ s₂
  rcases hr' : findDestination rx_blake2b scheduleCycle₂ s₂ with ⟨_ | scheduleCycle₃, s₃⟩
  all_goals
    rw [hr'] at hdestination
    have hdue₃ := hdestination.due hdue₂
    have hcharged₃ := hcharged₂.same hdestination
  · exact .pure ((throwAway_paid hdue₃).after hcharged₃)
  have hsame : Same s₃ { s₃ with throwAwayCount := 0 } := ⟨rfl, rfl, rfl, rfl⟩
  exact (issue_paid _ _ _ (hsame.due hdue₃)).mono fun _ ht => ht.after (hcharged₃.same hsame)

/-! ## A run -/

theorem fillSlot_paid (hwindow : window ∈ windows)
    (hslots : slotSize :: counts <:+ window.counts) : ∀ (n : Nat) (s : State),
      Between window (slotSize :: counts) s → Ends (fun _ => True)
        (fun r => (if r.1 then Between window counts r.2
            else r.2.portsSaturated = true ∨ Between window [] r.2) ∧
          Charged (fun T => T.slot window slotSize counts.isEmpty) s r.2)
        (fillSlot SuperscalarLatency rx_blake2b fuel window slotSize counts.isEmpty n s)
  | 0, _, _ => .throw trivial
  | n + 1, s, h => by
    refine .bind (turn_paid hwindow hslots h) ?_
    rintro (s' | s' | s') ⟨hbetween, hcharged⟩
    · exact .pure ⟨hbetween, hcharged⟩
    · refine (fillSlot_paid hwindow hslots n s' hbetween).mono fun r hr => ⟨hr.1, ?_⟩
      exact (hcharged.trans hr.2).mono fun _ => (Nat.zero_add _).le
    · exact .pure ⟨hbetween, hcharged.mono fun _ => Nat.zero_le _⟩

/-- **A window** is charged no more than there is in its slots. -/
theorem fillBuffer_paid (hwindow : window ∈ windows) : ∀ (counts : List Nat) (s : State),
    counts <:+ window.counts → Between window counts s → Ends (fun _ => True)
      (fun s' => (s'.portsSaturated = true ∨ Between window [] s') ∧
        Charged (fun T => T.slots window counts) s s')
      (fillBuffer SuperscalarLatency rx_blake2b fuel window counts s)
  | [], _, _, h => .pure ⟨.inr h, .refl⟩
  | slotSize :: counts, s, hslots, h => by
    refine .bind (fillSlot_paid hwindow hslots _ s h) ?_
    rintro ⟨_ | _, s'⟩ ⟨hbetween, hcharged⟩
    · exact .pure ⟨hbetween, hcharged.mono fun _ => Nat.le_add_right _ _⟩
    · have hrest : counts <:+ window.counts := (List.suffix_cons _ _).trans hslots
      refine (fillBuffer_paid hwindow counts s' hrest hbetween).mono fun s'' hs'' => ⟨hs''.1, ?_⟩
      exact hcharged.trans hs''.2

/-- So many multiplications are begun in a window. -/
theorem multiplications_slots : ∀ window ∈ windows,
    multiplications.slots window window.counts ≤ if window = decodeBuffer4444 then 4 else 1 := by
  decide

theorem multiplications_paid (s : State) :
    multiplications.paid s ≤ multiplications.program s.program + 1 := by
  rw [Tariff.paid]
  split
  · exact Nat.add_le_add_left (multiplications_upTo _ _) _
  · exact Nat.le_succ _

/-- What holds between two windows: no more than `limit` a window, and about as many
multiplications as windows. -/
structure Decoded (T : Tariff) (limit decodeCycle : Nat) (s : State) : Prop where
  between : s.portsSaturated = true ∨ ∃ window, Between window [] s
  mulCount : s.mulCount = multiplications.program s.program
  begun : multiplications.paid s ≤ decodeCycle + 4
  paid : T.paid s ≤ limit * decodeCycle

theorem summary_program (decodeCycles : Nat) (s : State) :
    Ends (fun _ => True) (fun prog => prog.program = s.program) (summary decodeCycles s) := by
  refine .bind (.any _) ?_
  intro asicLatencies _
  exact .pure rfl

variable {T : Tariff} {limit : Nat}
  (hlimit : ∀ window ∈ windows, T.slots window window.counts ≤ limit)

include hlimit

/-- One window more. -/
theorem Decoded.next {decodeCycle : Nat} (h : Decoded T limit decodeCycle s)
    (hwindow : window ∈ windows) (hmul : window = decodeBuffer4444 → s.mulCount < decodeCycle + 1)
    (hbetween : Between window window.counts s) (gen : Blake2Generator) : Ends (fun _ => True)
      (fun s' => Decoded T limit (decodeCycle + 1) { s' with cycle := s'.cycle + 1 })
      (fillBuffer SuperscalarLatency rx_blake2b fuel window window.counts
        { s with gen := gen }) := by
  refine (fillBuffer_paid hwindow window.counts { s with gen := gen } (List.suffix_refl _)
    ⟨hbetween.info_eq, hbetween.waits⟩).mono fun s' hs' => ?_
  have hgen : Same s { s with gen := gen } := ⟨rfl, rfl, rfl, rfl⟩
  have hcharged := hgen.charged.trans hs'.2
  refine ⟨hs'.1.imp id fun hb => ⟨window, hb.info_eq, hb.waits⟩, hcharged.mulCount h.mulCount,
    ?_, ?_⟩
  · have hpaid := hcharged.paid multiplications
    have hslots := multiplications_slots window hwindow
    have hbegun := h.begun
    have hone := multiplications_paid s
    rw [← h.mulCount] at hone
    change multiplications.paid s' ≤ decodeCycle + 1 + 4
    split at hslots
    · have := hmul ‹_›
      omega
    · omega
  · have hpaid := hcharged.paid T
    have hslots := hlimit window hwindow
    have hold := h.paid
    change T.paid s' ≤ limit * (decodeCycle + 1)
    rw [Nat.mul_succ]
    omega

/-- **A run.** -/
theorem decode_paid : ∀ (n decodeCycle : Nat) (s : State), Decoded T limit decodeCycle s →
    Ends (fun _ => True) (fun r => r.1 ≤ decodeCycle + n ∧ Decoded T limit r.1 r.2)
      (decode SuperscalarLatency rx_blake2b fuel n decodeCycle s)
  | 0, _, _, h => .pure ⟨Nat.le_refl _, h⟩
  | n + 1, decodeCycle, s, h => by
    rw [decode]
    refine .ite (fun _ => .pure ⟨Nat.le_add_right _ _, h⟩) fun hgo => ?_
    obtain ⟨last, hlast⟩ := h.between.resolve_left fun hs => hgo (.inl hs)
    obtain ⟨hwindow, hmul⟩ := fetchNext_mem rx_blake2b s.currentInstruction.info.type
      decodeCycle s.mulCount s.gen
    have hbetween : Between
        (fetchNext rx_blake2b s.currentInstruction.info.type decodeCycle s.mulCount s.gen).1
        (fetchNext rx_blake2b s.currentInstruction.info.type decodeCycle s.mulCount s.gen).1.counts
        s := by
      refine ⟨hlast.info_eq, fun hk => fetchNext_waits _ (hlast.waits hk).pos ?_ _ _ _⟩
      rw [← hlast.info_eq]
      exact hk
    refine .bind (h.next hlimit hwindow hmul hbetween _) ?_
    intro s' hs'
    refine (decode_paid n (decodeCycle + 1) _ hs').mono fun r hr => ⟨?_, hr.2⟩
    have := hr.1
    omega

/-- **A program** is charged no more than `limit` for each cycle of its latency, and has
hardly more multiplications than cycles. -/
theorem generateSuperscalar_paid {gen : Blake2Generator} {prog : SuperscalarProgram}
    {portBusy : PortBusy}
    (h : generateSuperscalar SuperscalarLatency rx_blake2b fuel gen = .ok (prog, portBusy)) :
    T.program prog.program ≤ limit * SuperscalarLatency ∧
      multiplications.program prog.program ≤ SuperscalarLatency + 4 := by
  have hstart : Decoded T limit 0 { gen := gen } :=
    ⟨.inr ⟨decodeBuffer484, rfl, fun hk => absurd hk (Nat.not_lt_zero _)⟩, rfl, Nat.zero_le _,
      Nat.le_refl _⟩
  have hends : Ends (fun _ => True) (fun r : SuperscalarProgram × PortBusy =>
      T.program r.1.program ≤ limit * SuperscalarLatency ∧
        multiplications.program r.1.program ≤ SuperscalarLatency + 4)
      (generateSuperscalar SuperscalarLatency rx_blake2b fuel gen) := by
    refine .bind (decode_paid hlimit SuperscalarLatency 0 _ hstart) ?_
    rintro ⟨decodeCycles, s⟩ ⟨hle, hs⟩
    refine .bind (summary_program decodeCycles s) ?_
    intro prog hprog
    rw [Nat.zero_add] at hle
    refine .pure ⟨?_, ?_⟩ <;> simp only [hprog]
    · exact (T.program_le_paid s).trans (hs.paid.trans (Nat.mul_le_mul_left _ hle))
    · exact (multiplications.program_le_paid s).trans (hs.begun.trans (by omega))
  rw [h] at hends
  exact hends

end

end Rxs.RandomX.Superscalar
