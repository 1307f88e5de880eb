import Rxs.Core.Outcome
import Rxs.L2Machine.Superscalar

/-!
# What the superscalar generator emits

Whatever bytes it draws, the generator ends with a program or has drawn bad values more
often than its fuel allows. The program fits its buffer, each port takes one
micro-operation in a cycle, and each instruction is one that can be executed.

The invariant is about the instruction that is being issued: at its macro-operation `k`
its registers are those that the macro-operations before `k` have chosen (`InFlight`), and
there is room for it in the program. Nothing that goes wrong ends the generation: the
ports are saturated, or another instruction is tried, so often.

* `turn_inv`: one macro-operation.
* `decode_inv`: a run.
* `generateSuperscalar_safe`: the program, on any fuel that suffices.
-/
namespace Rxs.RandomX.Superscalar

open Rxs.Core Rxs.RandomX.BytecodeMachine
open SuperscalarInstructionType

/-! ## Instructions -/

/-- An instruction word of that type that can be executed. -/
structure Safe (type : SuperscalarInstructionType) (instr : Instruction) : Prop where
  valid : type ≠ INVALID
  opcode : instr.opcode = BitVec.ofInt 8 type.toInt
  dst_lt : instr.dst.toNat < 8
  src_lt : instr.src.toNat < 8
  displacement : type = IADD_RS → instr.dst.toNat ≠ RegisterNeedsDisplacement.val
  distinct : type = ISUB_R ∨ type = IXOR_R ∨ type = IADD_RS ∨ type = IMUL_R →
    instr.src ≠ instr.dst
  reciprocal : type = IMUL_RCP → instr.imm32.toNat ≠ 0 ∧ ∀ k, instr.imm32.toNat ≠ 2 ^ k
  rotation : type = IROR_C → 1 ≤ instr.imm32.toNat ∧ instr.imm32.toNat ≤ 63

theorem isZeroOrPowerOf2_spec {v : Nat} (hv : v < 2 ^ 32)
    (h : ¬ isZeroOrPowerOf2 (BitVec.ofNat 64 v)) : v ≠ 0 ∧ ∀ k, v ≠ 2 ^ k := by
  constructor
  · rintro rfl
    exact h (by decide)
  · rintro k rfl
    have hk : k < 32 := (Nat.pow_lt_pow_iff_right (by decide)).mp hv
    have hlt : 2 ^ k < 2 ^ 64 := Nat.pow_lt_pow_right (by decide) (by omega)
    have hpos := Nat.two_pow_pos k
    apply h
    simp only [isZeroOrPowerOf2, decide_eq_true_eq]
    apply BitVec.eq_of_toNat_eq
    have hsub : (BitVec.ofNat 64 (2 ^ k) - 1).toNat = 2 ^ k - 1 := by
      rw [BitVec.toNat_sub, BitVec.toNat_ofNat, Nat.mod_eq_of_lt hlt]
      have : (1 : BitVec 64).toNat = 1 := rfl
      omega
    rw [BitVec.toNat_and, hsub, BitVec.toNat_ofNat, Nat.mod_eq_of_lt hlt,
      Nat.and_two_pow_sub_one_eq_mod]
    simp

/-- What the table says of the order in which an instruction gets its registers. -/
theorem info_order (type : SuperscalarInstructionType) (h : type ≠ INVALID) :
    (info type).type = type ∧ (info type).dstOp ≤ (info type).resultOp ∧
      (info type).resultOp < (info type).ops.length ∧
      (info type).srcOp < (info type).ops.length ∧
      ((info type).srcOp ≤ (info type).dstOp ∨ type = IMULH_R ∨ type = ISMULH_R) := by
  cases type <;> simp [info] at h ⊢

/-- What an instruction is created with. -/
structure Created (i : SuperscalarInstruction) : Prop where
  info_eq : i.info = info i.info.type
  valid : i.info.type ≠ INVALID
  reuse : i.canReuse = true ↔ i.info.type = IMULH_R ∨ i.info.type = ISMULH_R
  reciprocal : i.info.type = IMUL_RCP →
    i.imm32 < 2 ^ 32 ∧ ¬ isZeroOrPowerOf2 (BitVec.ofNat 64 i.imm32)
  rotation : i.info.type = IROR_C → 1 ≤ i.imm32 ∧ i.imm32 ≤ 63

/-- The source of an instruction has been chosen if that was before `ks`, and its
destination if that was before `kd`. -/
structure Chosen (ks kd : Nat) (i : SuperscalarInstruction) : Prop extends Created i where
  src_eq : i.info.srcOp < 0 → i.src = -1
  src_lt : 0 ≤ i.info.srcOp ∧ i.info.srcOp < ks → 0 ≤ i.src ∧ i.src < 8
  dst_lt : i.info.dstOp < kd → 0 ≤ i.dst ∧ i.dst < 8
  distinct : i.info.dstOp < kd → i.canReuse = false → i.dst ≠ i.src
  displacement : i.info.dstOp < kd → i.info.type = IADD_RS →
    i.dst ≠ RegisterNeedsDisplacement.val

namespace Chosen

variable {i : SuperscalarInstruction} {ks kd : Nat}

theorem toNat_ofInt {r : Int} (h : 0 ≤ r ∧ r < 8) : (BitVec.ofInt 8 r).toNat = r.toNat := by
  rw [BitVec.toNat_ofInt]
  omega

/-- **All of its macro-operations issued, the instruction can be executed.** -/
theorem safe (h : Chosen ks kd i) (hks : i.info.srcOp < ks) (hkd : i.info.dstOp < kd) :
    Safe i.info.type i.toInstr := by
  have hdst := h.dst_lt hkd
  have hsrc : 0 ≤ (if i.src ≥ 0 then i.src else i.dst) ∧
      (if i.src ≥ 0 then i.src else i.dst) < 8 := by
    by_cases hop : 0 ≤ i.info.srcOp
    · have := h.src_lt ⟨hop, hks⟩
      split <;> omega
    · have := h.src_eq (Int.not_le.mp hop)
      split <;> omega
  refine ⟨h.valid, rfl, ?_, ?_, ?_, ?_, ?_, ?_⟩
  · rw [SuperscalarInstruction.toInstr, toNat_ofInt hdst]
    omega
  · rw [SuperscalarInstruction.toInstr, toNat_ofInt hsrc]
    omega
  · intro ht
    have := h.displacement hkd ht
    rw [SuperscalarInstruction.toInstr, toNat_ofInt hdst]
    omega
  · intro ht hsd
    have hre : i.canReuse = false := by
      rw [Bool.eq_false_iff, Ne, h.reuse]
      rintro hr
      rcases ht with ht | ht | ht | ht <;> rcases hr with hr | hr <;> rw [ht] at hr <;> cases hr
    have hop : 0 ≤ i.info.srcOp := by
      rw [h.info_eq]
      rcases ht with ht | ht | ht | ht <;> rw [ht] <;> decide
    have hne := h.distinct hkd hre
    have hs := h.src_lt ⟨hop, hks⟩
    have := congrArg BitVec.toNat hsd
    simp only [SuperscalarInstruction.toInstr] at this
    rw [toNat_ofInt hsrc, toNat_ofInt hdst, if_pos hs.1] at this
    omega
  · intro ht
    obtain ⟨hlt, hbad⟩ := h.reciprocal ht
    simp only [SuperscalarInstruction.toInstr, BitVec.toNat_ofNat]
    rw [Nat.mod_eq_of_lt hlt]
    exact isZeroOrPowerOf2_spec hlt hbad
  · intro ht
    have := h.rotation ht
    simp only [SuperscalarInstruction.toInstr, BitVec.toNat_ofNat]
    omega

theorem mono {ks' kd' : Nat} (h : Chosen ks kd i) (hs : ks' ≤ ks) (hd : kd' ≤ kd) :
    Chosen ks' kd' i where
  toCreated := h.toCreated
  src_eq := h.src_eq
  src_lt hop := h.src_lt (by omega)
  dst_lt hop := h.dst_lt (by omega)
  distinct hop := h.distinct (by omega)
  displacement hop := h.displacement (by omega)

theorem created (h : Created i) (hsrc : i.src = -1) : Chosen 0 0 i where
  toCreated := h
  src_eq _ := hsrc
  src_lt h' := by omega
  dst_lt h' := by omega
  distinct h' := by omega
  displacement h' := by omega

end Chosen

/-! ## Creation -/

section

variable {rx_blake2b : Bytes → Bytes} {fuel : Nat}

theorem drawUntil_spec {draw : Blake2Generator → Nat × Blake2Generator} {bad : Nat → Bool} :
    ∀ (fuel : Nat) (gen : Blake2Generator), Ends (· = Stuck.rejecting)
      (fun r => bad r.1 = false ∧ ∃ g, r.1 = (draw g).1)
      (Blake2Generator.drawUntil draw bad fuel gen)
  | 0, _ => .throw rfl
  | fuel + 1, gen => by
    rw [Blake2Generator.drawUntil]
    by_cases hb : bad (draw gen).1 = true
    · simp only [hb, if_true]
      exact drawUntil_spec fuel _
    · simp only [hb]
      exact .pure ⟨by simpa using hb, gen, rfl⟩

theorem getUInt32_lt (gen : Blake2Generator) : (gen.getUInt32 rx_blake2b).1 < 2 ^ 32 := by
  simp only [Blake2Generator.getUInt32]
  generalize hb : Bytes.slice _ _ 4 = b
  have hlen : b.length ≤ 4 := by
    rw [← hb, Bytes.slice]
    simp
  calc Bytes.readLE b < 256 ^ b.length := Bytes.readLE_lt b
    _ ≤ 256 ^ 4 := Nat.pow_le_pow_right (by decide) hlen

theorem create_spec (type : SuperscalarInstructionType) (h : type ≠ INVALID)
    (i : SuperscalarInstruction) (gen : Blake2Generator) :
    Ends (· = Stuck.rejecting) (fun r => Chosen 0 0 r.1)
      (i.create rx_blake2b fuel type gen) := by
  cases type with
  | INVALID => exact absurd rfl h
  | IROR_C =>
    refine .bind (drawUntil_spec fuel gen) ?_
    rintro ⟨v, gen⟩ ⟨hv, -⟩
    have hrot : 1 ≤ v % 64 ∧ v % 64 ≤ 63 := by
      simp only [decide_eq_false_iff_not] at hv
      omega
    exact .pure (.created ⟨rfl, nofun, by simp [SuperscalarInstruction.reset, info], nofun,
      fun _ => hrot⟩ rfl)
  | IMUL_RCP =>
    refine .bind (drawUntil_spec fuel gen) ?_
    rintro ⟨v, gen⟩ ⟨hv, g, hg⟩
    have hlt : v < 2 ^ 32 := by
      simp only at hg
      rw [hg]
      exact getUInt32_lt g
    exact .pure (.created ⟨rfl, nofun, by simp [SuperscalarInstruction.reset, info],
      fun _ => ⟨hlt, by simpa using hv⟩, nofun⟩ rfl)
  | _ =>
    exact .pure (.created ⟨rfl, nofun, by simp [SuperscalarInstruction.reset, info], nofun, nofun⟩
      rfl)

/-- The sizes that a window is split into. -/
def slotSizes : List Nat := [3, 4, 7, 8, 9, 10]

theorem createForSlot_spec {slotSize : Nat} (h : slotSize ∈ slotSizes) (fetchType : Int)
    (isLast : Bool) (i : SuperscalarInstruction) (gen : Blake2Generator) :
    Ends (· = Stuck.rejecting) (fun r => Chosen 0 0 r.1)
      (i.createForSlot rx_blake2b fuel slotSize fetchType isLast gen) := by
  simp only [slotSizes, List.mem_cons, List.not_mem_nil, or_false] at h
  rcases h with rfl | rfl | rfl | rfl | rfl | rfl
  · refine .ite (fun _ => create_spec _ ?_ _ _) fun _ => create_spec _ ?_ _ _
    · split <;> nofun
    · split <;> nofun
  · refine .ite (fun _ => create_spec IMUL_R nofun _ _) fun _ => create_spec _ ?_ _ _
    split <;> nofun
  · refine create_spec _ ?_ _ _
    split <;> nofun
  · refine create_spec _ ?_ _ _
    split <;> nofun
  · refine create_spec _ ?_ _ _
    split <;> nofun
  · exact create_spec IMUL_RCP nofun _ _

theorem fetchNext_counts (instrType : SuperscalarInstructionType) (cycle mulCount : Nat)
    (gen : Blake2Generator) {slotSize : Nat}
    (h : slotSize ∈ (DecoderBuffer.fetchNext rx_blake2b instrType cycle mulCount gen).1.counts) :
    slotSize ∈ slotSizes := by
  have hall : ∀ b ∈ [DecoderBuffer.decodeBuffer484, .decodeBuffer7333, .decodeBuffer3733,
      .decodeBuffer493, .decodeBuffer4444, .decodeBuffer3310], ∀ n ∈ b.counts, n ∈ slotSizes := by
    decide
  refine hall _ ?_ _ h
  unfold DecoderBuffer.fetchNext DecoderBuffer.fetchNextDefault
  split
  · simp
  · split
    · simp
    · split
      · dsimp only
        split <;> simp
      · dsimp only
        split <;> simp

end

/-! ## Registers -/

theorem selectRegister_mem {rx_blake2b : Bytes → Bytes} {availableRegisters : List Reg}
    {gen gen' : Blake2Generator} {r : Reg}
    (h : SuperscalarInstruction.selectRegister rx_blake2b availableRegisters gen = (some r, gen')) :
    r ∈ availableRegisters := by
  unfold SuperscalarInstruction.selectRegister at h
  split at h
  · cases h
  · split at h
    · exact List.mem_of_getElem? (Prod.ext_iff.mp h).1
    · exact List.mem_of_getElem? (Prod.ext_iff.mp h).1

namespace Chosen

variable {i i' : SuperscalarInstruction} {ks kd k : Nat} {gen gen' : Blake2Generator}
  {registers : Reg → RegisterInfo} {cycle : Nat} {rx_blake2b : Bytes → Bytes}

/-- Another source, at the macro-operation that reads it. -/
theorem source (h : Chosen k k i) (hk : (k : Int) = i.info.srcOp) (r : Reg) (par : Int) :
    Chosen (k + 1) k { i with src := r.val, opGroupPar := par } where
  toCreated := ⟨h.info_eq, h.valid, h.reuse, h.reciprocal, h.rotation⟩
  src_eq hn := by
    simp only at hn
    omega
  src_lt _ := by
    simp only
    omega
  dst_lt := h.dst_lt
  -- a destination that was there before the source belongs to `IMULH_R` or `ISMULH_R`
  distinct hd hre := by
    have hord := (info_order i.info.type h.valid).2.2.2.2
    rw [← h.info_eq] at hord
    have hlt : i.info.dstOp < k := hd
    have : i.canReuse = true := h.reuse.mpr (hord.resolve_left (by omega))
    simp [this] at hre
  displacement := h.displacement

theorem no_source (h : Chosen k k i) (hk : (k : Int) ≠ i.info.srcOp) : Chosen (k + 1) k i where
  toCreated := h.toCreated
  src_eq := h.src_eq
  src_lt hs := h.src_lt (by omega)
  dst_lt := h.dst_lt
  distinct := h.distinct
  displacement := h.displacement

theorem destination (h : Chosen (k + 1) k i) {r : Reg} {allowChainedMul : Bool}
    (hr : i.isAvailable cycle allowChainedMul registers r = true) :
    Chosen (k + 1) (k + 1) { i with dst := r.val } := by
  simp only [SuperscalarInstruction.isAvailable, Bool.and_eq_true, Bool.or_eq_true,
    decide_eq_true_eq] at hr
  obtain ⟨⟨⟨⟨-, hne⟩, -⟩, -⟩, hdisp⟩ := hr
  refine ⟨⟨h.info_eq, h.valid, h.reuse, h.reciprocal, h.rotation⟩, h.src_eq, h.src_lt, ?_, ?_, ?_⟩
  · intro _
    simp only
    omega
  · intro _ hre
    exact hne.resolve_left (by simpa using hre)
  · intro _ ht heq
    have hri := hdisp.resolve_left (by simpa using ht)
    exact hri (Fin.ext (by simpa using heq))

theorem no_destination (h : Chosen (k + 1) k i) (hk : k ≠ i.info.dstOp) :
    Chosen (k + 1) (k + 1) i where
  toCreated := h.toCreated
  src_eq := h.src_eq
  src_lt := h.src_lt
  dst_lt hd := h.dst_lt (by omega)
  distinct hd := h.distinct (by omega)
  displacement hd := h.displacement (by omega)

theorem selectSource (h : Chosen k k i) (hk : (k : Int) = i.info.srcOp)
    (hs : i.selectSource rx_blake2b registers cycle gen = (true, i', gen')) :
    Chosen (k + 1) k i' := by
  simp only [SuperscalarInstruction.selectSource] at hs
  split at hs
  · cases hs
    exact h.source hk RegisterNeedsDisplacement _
  · generalize SuperscalarInstruction.selectRegister _ _ gen = r at hs
    obtain ⟨_ | r, gen⟩ := r <;> cases hs
    exact h.source hk r _

theorem selectDestination (h : Chosen (k + 1) k i) {allowChainedMul : Bool}
    (hs : i.selectDestination rx_blake2b allowChainedMul registers cycle gen = (true, i', gen')) :
    Chosen (k + 1) (k + 1) i' := by
  simp only [SuperscalarInstruction.selectDestination] at hs
  split at hs
  · rename_i heq
    cases hs
    exact h.destination (List.mem_filter.mp (selectRegister_mem heq)).2
  · cases hs

end Chosen

theorem selectSource_eq {rx_blake2b : Bytes → Bytes} {registers : Reg → RegisterInfo} {cycle : Nat}
    {i i' : SuperscalarInstruction} {gen gen' : Blake2Generator}
    (h : i.selectSource rx_blake2b registers cycle gen = (false, i', gen')) : i' = i := by
  simp only [SuperscalarInstruction.selectSource] at h
  split at h
  · cases h
  · generalize SuperscalarInstruction.selectRegister _ _ gen = r at h
    obtain ⟨_ | r, gen⟩ := r <;> cases h
    rfl

theorem selectDestination_eq {rx_blake2b : Bytes → Bytes} {registers : Reg → RegisterInfo}
    {allowChainedMul : Bool} {cycle : Nat} {i i' : SuperscalarInstruction}
    {gen gen' : Blake2Generator}
    (h : i.selectDestination rx_blake2b allowChainedMul registers cycle gen = (false, i', gen')) :
    i' = i := by
  simp only [SuperscalarInstruction.selectDestination] at h
  split at h <;> cases h
  rfl

/-- `s'` is `s` but for what a search for a register changes. -/
structure Searched (s s' : State) : Prop where
  portBusy : s'.portBusy = s.portBusy
  macroOpIndex : s'.macroOpIndex = s.macroOpIndex
  program : s'.program = s.program
  throwAwayCount : s'.throwAwayCount = s.throwAwayCount

/-- What a search leaves: an instruction of `P` if it has found a register, else the one
that it began with. -/
def Found (P : SuperscalarInstruction → Prop) (s s' : State) : Option Nat → Prop
  | some _ => P s'.currentInstruction
  | none => s'.currentInstruction = s.currentInstruction

/-- **A search ends with what the selection gives, or as it began.** -/
theorem lookForward_spec {select : Nat → SuperscalarInstruction → Blake2Generator →
      Bool × SuperscalarInstruction × Blake2Generator} {P : SuperscalarInstruction → Prop}
    {r : Option Nat} {s' : State} : ∀ {n scheduleCycle : Nat} {s : State},
      lookForward select n scheduleCycle s = (r, s') →
      (∀ cycle i gen i' gen', select cycle i gen = (false, i', gen') → i' = i) →
      (∀ cycle gen i' gen', select cycle s.currentInstruction gen = (true, i', gen') → P i') →
      Searched s s' ∧ Found P s s' r
  | 0, _, s, h, _, _ => by
    cases h
    exact ⟨⟨rfl, rfl, rfl, rfl⟩, rfl⟩
  | n + 1, scheduleCycle, s, h, hfalse, htrue => by
    rw [lookForward] at h
    rcases hsel : select scheduleCycle s.currentInstruction s.gen with ⟨_ | _, i, gen⟩
    · obtain rfl := hfalse _ _ _ _ _ hsel
      simp only [hsel] at h
      obtain ⟨hs, hr⟩ := lookForward_spec h hfalse htrue
      exact ⟨⟨hs.1, hs.2, hs.3, hs.4⟩, hr⟩
    · simp only [hsel] at h
      cases h
      exact ⟨⟨rfl, rfl, rfl, rfl⟩, htrue _ _ _ _ hsel⟩

theorem findSource_spec {rx_blake2b : Bytes → Bytes} {scheduleCycle : Nat} {s s' : State}
    {r : Option Nat} (hc : Chosen s.macroOpIndex s.macroOpIndex s.currentInstruction)
    (h : findSource rx_blake2b scheduleCycle s = (r, s')) :
    Searched s s' ∧ Found (Chosen (s.macroOpIndex + 1) s.macroOpIndex) s s' r := by
  unfold findSource at h
  split at h
  · rename_i hk
    exact lookForward_spec h (fun _ _ _ _ _ => selectSource_eq)
      fun _ _ _ _ => hc.selectSource hk
  · rename_i hk
    cases h
    exact ⟨⟨rfl, rfl, rfl, rfl⟩, hc.no_source hk⟩

theorem findDestination_spec {rx_blake2b : Bytes → Bytes} {scheduleCycle : Nat} {s s' : State}
    {r : Option Nat} (hc : Chosen (s.macroOpIndex + 1) s.macroOpIndex s.currentInstruction)
    (h : findDestination rx_blake2b scheduleCycle s = (r, s')) :
    Searched s s' ∧ Found (Chosen (s.macroOpIndex + 1) (s.macroOpIndex + 1)) s s' r := by
  unfold findDestination at h
  split at h
  · exact lookForward_spec h (fun _ _ _ _ _ => selectDestination_eq)
      fun _ _ _ _ => hc.selectDestination
  · rename_i hk
    cases h
    exact ⟨⟨rfl, rfl, rfl, rfl⟩, hc.no_destination hk⟩

/-! ## Ports -/

/-- Whether the micro-operation can go to the port. -/
def Uop.goes (uop : Uop) : Port → Bool
  | .p0 => uop.p0
  | .p1 => uop.p1
  | .p5 => uop.p5

/-- Each port takes one micro-operation in a cycle, one that can go to it, and no cycle is
outside of the table. -/
structure PortBusy.Safe (portBusy : PortBusy) : Prop where
  nodup : (portBusy.map Prod.fst).Nodup
  lt : ∀ w ∈ portBusy, w.1.1 < CYCLE_MAP_SIZE
  goes : ∀ w ∈ portBusy, w.2.goes w.1.2

namespace PortBusy.Safe

variable {portBusy : PortBusy} {uop : Uop} {cycle : Nat} {port : Port}

theorem cons (h : portBusy.Safe) (hfree : portBusy.free cycle port = true)
    (hcycle : cycle < CYCLE_MAP_SIZE) (hgoes : uop.goes port) :
    PortBusy.Safe (((cycle, port), uop) :: portBusy) := by
  refine ⟨?_, ?_, ?_⟩
  · rw [List.map_cons, List.nodup_cons]
    refine ⟨fun hmem => ?_, h.nodup⟩
    obtain ⟨w, hw, heq⟩ := List.mem_map.mp hmem
    have hnone := of_decide_eq_true hfree
    have := List.lookup_eq_none_iff.mp hnone w hw
    simp [heq] at this
  · intro w hw
    obtain rfl | hw := List.mem_cons.mp hw
    · exact hcycle
    · exact h.lt w hw
  · intro w hw
    obtain rfl | hw := List.mem_cons.mp hw
    · exact hgoes
    · exact h.goes w hw

end PortBusy.Safe

section

variable {E : Stuck → Prop} {SuperscalarLatency : Nat} {portBusy : PortBusy} {uop : Uop}

theorem freePort_spec {cycle : Nat} {port : Port} (h : freePort uop portBusy cycle = some port) :
    uop.goes port ∧ portBusy.free cycle port = true := by
  unfold freePort at h
  split at h
  · cases h
    assumption
  · split at h
    · cases h
      assumption
    · split at h
      · cases h
        assumption
      · cases h

theorem scheduleUopFrom_spec : ∀ (n cycle : Nat), n = 0 ∨ cycle + n ≤ CYCLE_MAP_SIZE →
    Ends E (fun r => ∀ w ∈ r, w.1 < CYCLE_MAP_SIZE ∧ uop.goes w.2 ∧ portBusy.free w.1 w.2 = true)
      (scheduleUopFrom uop portBusy n cycle)
  | 0, _, _ => .pure (by simp)
  | n + 1, cycle, hn => by
    have hlt : cycle < CYCLE_MAP_SIZE := by omega
    rw [scheduleUopFrom]
    refine .check (fun h => absurd hlt (by omega)) fun _ => ?_
    split
    · rename_i hport
      refine .pure ?_
      rintro w ⟨⟩
      exact ⟨hlt, freePort_spec hport⟩
    · exact scheduleUopFrom_spec n (cycle + 1) (by omega)

variable (hL : SuperscalarLatency ≤ RANDOMX_SUPERSCALAR_MAX_LATENCY)

include hL

theorem scheduleUop_spec (commit : Bool) (uop : Uop) (h : portBusy.Safe) (cycle : Nat) :
    Ends E (fun r => r.2.Safe) (scheduleUop SuperscalarLatency commit uop portBusy cycle) := by
  have hn : SuperscalarLatency + 4 - cycle = 0 ∨
      cycle + (SuperscalarLatency + 4 - cycle) ≤ CYCLE_MAP_SIZE := by
    simp only [CYCLE_MAP_SIZE]
    omega
  refine .bind (scheduleUopFrom_spec _ cycle hn) ?_
  rintro (_ | ⟨cycle', port⟩) hr
  · exact .pure h
  · obtain ⟨hlt, hgoes, hfree⟩ := hr _ rfl
    cases commit
    · exact .pure h
    · exact .pure (h.cons hfree hlt hgoes)

theorem scheduleBothFrom_spec (commit : Bool) (mop : MacroOp) (h : portBusy.Safe) :
    ∀ n cycle : Nat, Ends E (fun r => r.2.Safe)
      (scheduleBothFrom SuperscalarLatency commit mop portBusy n cycle)
  | 0, _ => .pure h
  | n + 1, cycle => by
    have ih := scheduleBothFrom_spec commit mop h n (cycle + 1)
    rw [scheduleBothFrom]
    refine .bind (scheduleUop_spec hL false mop.uop1 h cycle) ?_
    rintro ⟨cycle1, _⟩ -
    refine .bind (scheduleUop_spec hL false mop.uop2 h cycle) ?_
    rintro ⟨cycle2, _⟩ -
    cases cycle1 with
    | none => exact ih
    | some cycle1 =>
      refine .ite (fun _ => .ite (fun _ => ?_) fun _ => .pure h) fun _ => ih
      refine .bind (scheduleUop_spec hL true mop.uop1 h cycle1) ?_
      rintro ⟨_, portBusy1⟩ h1
      refine .bind (scheduleUop_spec hL true mop.uop2 h1 cycle1) ?_
      rintro ⟨_, portBusy2⟩ h2
      exact .pure h2

theorem scheduleMop_spec (commit : Bool) (mop : MacroOp) (h : portBusy.Safe)
    (cycle depCycle : Nat) : Ends E (fun r => r.2.Safe)
      (scheduleMop SuperscalarLatency commit mop portBusy cycle depCycle) :=
  .ite (fun _ => .pure h) fun _ =>
    .ite (fun _ => scheduleUop_spec hL commit _ h _) fun _ =>
      scheduleBothFrom_spec hL commit mop h _ _

end

/-! ## One macro-operation -/

/-- The instruction that is being issued has the registers that it needs, and there is room
for it. -/
structure Ready (SuperscalarLatency : Nat) (s : State) : Prop where
  ports : s.portBusy.Safe
  program : ∀ instr ∈ s.program, ∃ type, Safe type instr
  room : s.program.length < 3 * SuperscalarLatency + 2
  count : s.throwAwayCount ≤ MAX_THROWAWAY_COUNT
  chosen : Chosen s.macroOpIndex s.macroOpIndex s.currentInstruction

/-- What holds between two macro-operations. -/
structure Inv (SuperscalarLatency : Nat) (s : State) : Prop where
  ports : s.portBusy.Safe
  program : ∀ instr ∈ s.program, ∃ type, Safe type instr
  room : s.program.length ≤ 3 * SuperscalarLatency + 2
  count : s.throwAwayCount ≤ MAX_THROWAWAY_COUNT
  ready : s.macroOpIndex < s.currentInstruction.info.ops.length → Ready SuperscalarLatency s

/-- An instruction thrown away counts; `n` were. -/
def TurnInv (SuperscalarLatency n : Nat) : Turn → Prop
  | .issued s => Inv SuperscalarLatency s
  | .thrown s => Inv SuperscalarLatency s ∧ s.throwAwayCount = n + 1
  | .left s => Inv SuperscalarLatency s

section

variable {E : Stuck → Prop} {SuperscalarLatency : Nat} {s s' : State}

theorem Ready.inv (h : Ready SuperscalarLatency s) : Inv SuperscalarLatency s :=
  ⟨h.ports, h.program, Nat.le_of_lt h.room, h.count, fun _ => h⟩

theorem Searched.ready (hs : Searched s s') (h : Ready SuperscalarLatency s)
    (hc : Chosen s.macroOpIndex s.macroOpIndex s'.currentInstruction) :
    Ready SuperscalarLatency s' := by
  obtain ⟨hb, hm, hp, ht⟩ := hs
  exact ⟨hb ▸ h.ports, hp ▸ h.program, hp ▸ h.room, ht ▸ h.count, hm ▸ hc⟩

theorem throwAway_inv (h : Ready SuperscalarLatency s) :
    TurnInv SuperscalarLatency s.throwAwayCount (throwAway s) := by
  unfold throwAway
  split
  · rename_i hlt
    refine ⟨⟨h.ports, h.program, Nat.le_of_lt h.room, hlt, fun hk => ?_⟩, rfl⟩
    exact absurd hk (Nat.lt_irrefl _)
  · exact ⟨h.ports, h.program, Nat.le_of_lt h.room, h.count,
      fun hk => absurd hk (Nat.not_lt_zero _)⟩

/-- What has its destination can write its result. -/
theorem retire_spec
    (hc : Chosen (s.macroOpIndex + 1) (s.macroOpIndex + 1) s.currentInstruction) :
    Ends E (fun s' => Searched s s' ∧ s'.currentInstruction = s.currentInstruction) (retire s) := by
  unfold retire
  split
  · rename_i hk
    have hord := (info_order s.currentInstruction.info.type hc.valid).2.1
    rw [← hc.info_eq] at hord
    have hdst := hc.dst_lt (by omega)
    rw [dif_pos hdst]
    exact .pure ⟨⟨rfl, rfl, rfl, rfl⟩, rfl⟩
  · exact .pure ⟨⟨rfl, rfl, rfl, rfl⟩, rfl⟩

theorem finish_inv (hL : SuperscalarLatency ≤ RANDOMX_SUPERSCALAR_MAX_LATENCY)
    (h : Ready SuperscalarLatency s) : Ends E (Inv SuperscalarLatency) (finish s) := by
  unfold finish
  refine .ite (fun hk => .ite (fun _ => .pure ?_) fun hsize => ?_) fun _ => .pure h.inv
  · have hord := info_order s.currentInstruction.info.type h.chosen.valid
    rw [← h.chosen.info_eq] at hord
    have hsafe := h.chosen.safe (by omega) (by omega)
    refine ⟨h.ports, ?_, ?_, h.count, fun hlt => absurd hlt (Nat.not_lt.mpr hk)⟩
    · intro instr hmem
      rcases List.mem_append.mp hmem with hmem | hmem
      · exact h.program instr hmem
      · rw [List.mem_singleton.mp hmem]
        exact ⟨_, hsafe⟩
    · have := h.room
      simp only [List.length_append, List.length_singleton]
      omega
  · have := h.room
    simp only [SuperscalarMaxSize] at hsize
    omega

theorem issue_inv (hL : SuperscalarLatency ≤ RANDOMX_SUPERSCALAR_MAX_LATENCY) (mop : MacroOp)
    (topCycle scheduleCycle n : Nat) (h : Ready SuperscalarLatency s)
    (hc : Chosen (s.macroOpIndex + 1) (s.macroOpIndex + 1) s.currentInstruction) :
    Ends E (TurnInv SuperscalarLatency n)
      (issue SuperscalarLatency mop topCycle scheduleCycle s) := by
  refine .bind (scheduleMop_spec hL true mop h.ports scheduleCycle scheduleCycle) ?_
  rintro ⟨_ | scheduleCycle, portBusy⟩ hports
  · exact .pure ⟨hports, h.program, Nat.le_of_lt h.room, h.count, fun _ =>
      ⟨hports, h.program, h.room, h.count, h.chosen⟩⟩
  · refine .bind (retire_spec hc) ?_
    rintro s' ⟨⟨hb, hm, hp, ht⟩, hi⟩
    simp only at hb hm hp ht hi
    have hready : Ready SuperscalarLatency
        (advance SuperscalarLatency mop topCycle scheduleCycle s') := by
      refine ⟨?_, ?_, ?_, ?_, ?_⟩ <;> simp only [advance, hb, hm, hp, ht, hi]
      · exact hports
      · exact h.program
      · exact h.room
      · exact h.count
      · exact hc
    refine .bind (finish_inv hL hready) ?_
    intro s'' hinv
    exact .pure hinv

end

section

variable {SuperscalarLatency : Nat} {rx_blake2b : Bytes → Bytes} {fuel : Nat} {s : State}

theorem nextInstruction_spec (decodeBuffer : DecoderBuffer) {slotSize : Nat}
    (hslot : slotSize ∈ slotSizes) (isLast : Bool) (h : Inv SuperscalarLatency s) :
    Ends (· = Stuck.rejecting)
      (fun r => ∀ s' ∈ r, Ready SuperscalarLatency s' ∧ s'.throwAwayCount = s.throwAwayCount ∧
        s'.macroOpIndex < s'.currentInstruction.info.ops.length)
      (nextInstruction SuperscalarLatency rx_blake2b fuel decodeBuffer slotSize isLast s) := by
  unfold nextInstruction
  refine .ite (fun _ => .ite (fun _ => .pure (by simp)) fun hroom => ?_) fun hk => .pure ?_
  · refine .bind (createForSlot_spec hslot _ _ _ _) ?_
    rintro ⟨i, gen⟩ hi
    refine .pure ?_
    rintro s' ⟨⟩
    have hord := info_order i.info.type hi.valid
    rw [← hi.info_eq] at hord
    have hlt : s.program.length < 3 * SuperscalarLatency + 2 := by
      rw [not_or] at hroom
      omega
    exact ⟨⟨h.ports, h.program, hlt, h.count, hi⟩, rfl, Nat.zero_lt_of_lt hord.2.2.1⟩
  · rintro s' ⟨⟩
    exact ⟨h.ready (Nat.lt_of_not_le hk), rfl, Nat.lt_of_not_le hk⟩

variable (hL : SuperscalarLatency ≤ RANDOMX_SUPERSCALAR_MAX_LATENCY)

include hL

/-- **One macro-operation keeps the invariant.** -/
theorem turn_inv (decodeBuffer : DecoderBuffer) {slotSize : Nat} (hslot : slotSize ∈ slotSizes)
    (isLast : Bool) (h : Inv SuperscalarLatency s) :
    Ends (· = Stuck.rejecting) (TurnInv SuperscalarLatency s.throwAwayCount)
      (turn SuperscalarLatency rx_blake2b fuel decodeBuffer slotSize isLast s) := by
  refine .bind (nextInstruction_spec decodeBuffer hslot isLast h) ?_
  rintro (_ | s₁) hnext
  · exact .pure h
  obtain ⟨h₁, hcount, hk⟩ := hnext s₁ rfl
  rw [← hcount]
  simp only [List.getElem?_eq_getElem hk]
  refine .bind (scheduleMop_spec hL false _ h₁.ports s₁.cycle s₁.depCycle) ?_
  rintro ⟨_ | scheduleCycle, _⟩ -
  · exact .pure ⟨h₁.ports, h₁.program, Nat.le_of_lt h₁.room, h₁.count, fun _ =>
      ⟨h₁.ports, h₁.program, h₁.room, h₁.count, h₁.chosen⟩⟩
  rcases hsrc : findSource rx_blake2b scheduleCycle s₁ with ⟨_ | scheduleCycle₂, s₂⟩
  · obtain ⟨hs, hf⟩ := findSource_spec h₁.chosen hsrc
    simp only [hsrc]
    rw [← hs.throwAwayCount]
    exact .pure (throwAway_inv (hs.ready h₁ (hf ▸ h₁.chosen)))
  obtain ⟨hs₂, hf₂⟩ := findSource_spec h₁.chosen hsrc
  simp only [Found] at hf₂
  simp only [hsrc]
  rw [← hs₂.macroOpIndex] at hf₂
  have h₂ : Ready SuperscalarLatency s₂ :=
    hs₂.ready h₁ (hs₂.macroOpIndex ▸ hf₂.mono (by omega) (by omega))
  rcases hdst : findDestination rx_blake2b scheduleCycle₂ s₂ with ⟨_ | scheduleCycle₃, s₃⟩
  · obtain ⟨hs, hf⟩ := findDestination_spec hf₂ hdst
    rw [← hs₂.throwAwayCount, ← hs.throwAwayCount]
    exact .pure (throwAway_inv (hs.ready h₂ (hf ▸ h₂.chosen)))
  obtain ⟨hs₃, hf₃⟩ := findDestination_spec hf₂ hdst
  simp only [Found] at hf₃
  rw [← hs₃.macroOpIndex] at hf₃
  have h₃ : Ready SuperscalarLatency s₃ :=
    hs₃.ready h₂ (hs₃.macroOpIndex ▸ hf₃.mono (by omega) (by omega))
  exact issue_inv hL _ _ _ _ ⟨h₃.ports, h₃.program, h₃.room, Nat.zero_le _, h₃.chosen⟩ hf₃

end

/-! ## A run -/

section

variable {SuperscalarLatency : Nat} {rx_blake2b : Bytes → Bytes} {fuel : Nat} {s : State}
  (hL : SuperscalarLatency ≤ RANDOMX_SUPERSCALAR_MAX_LATENCY)

include hL

/-- So many instructions can be thrown away that `n` turns are enough. -/
theorem fillSlot_inv (decodeBuffer : DecoderBuffer) {slotSize : Nat} (hslot : slotSize ∈ slotSizes)
    (isLast : Bool) : ∀ (n : Nat) (s : State), Inv SuperscalarLatency s →
      MAX_THROWAWAY_COUNT < n + s.throwAwayCount →
      Ends (· = Stuck.rejecting) (fun r => Inv SuperscalarLatency r.2)
        (fillSlot SuperscalarLatency rx_blake2b fuel decodeBuffer slotSize isLast n s)
  | 0, s, h, hn => by
    have := h.count
    omega
  | n + 1, s, h, hn => by
    refine .bind (turn_inv hL decodeBuffer hslot isLast h) ?_
    rintro (s' | s' | s') hs'
    · exact .pure hs'
    · exact fillSlot_inv decodeBuffer hslot isLast n s' hs'.1 (by have := hs'.2; omega)
    · exact .pure hs'

theorem fillBuffer_inv (decodeBuffer : DecoderBuffer) : ∀ (counts : List Nat) (s : State),
    (∀ slotSize ∈ counts, slotSize ∈ slotSizes) → Inv SuperscalarLatency s →
    Ends (· = Stuck.rejecting) (Inv SuperscalarLatency)
      (fillBuffer SuperscalarLatency rx_blake2b fuel decodeBuffer counts s)
  | [], _, _, h => .pure h
  | slotSize :: counts, s, hcounts, h => by
    refine .bind (fillSlot_inv hL decodeBuffer (hcounts _ List.mem_cons_self) _ _ s h
      (by simp only [MAX_THROWAWAY_COUNT]; omega)) ?_
    rintro ⟨filled, s'⟩ hs'
    exact .ite (fun _ => fillBuffer_inv decodeBuffer counts s'
      (fun n hn => hcounts n (List.mem_cons_of_mem _ hn)) hs') fun _ => .pure hs'

/-- **A run keeps the invariant, and ends.** -/
theorem decode_inv : ∀ (n decodeCycle : Nat) (s : State), Inv SuperscalarLatency s →
    Ends (· = Stuck.rejecting) (fun r => Inv SuperscalarLatency r.2)
      (decode SuperscalarLatency rx_blake2b fuel n decodeCycle s)
  | 0, _, _, h => .pure h
  | n + 1, decodeCycle, s, h => by
    have next {s : State} (h : Inv SuperscalarLatency s) (gen : Blake2Generator) (cycle : Nat) :
        Inv SuperscalarLatency { s with gen := gen, cycle := cycle } :=
      ⟨h.ports, h.program, h.room, h.count, fun hk => ⟨h.ports, h.program, (h.ready hk).room,
        h.count, (h.ready hk).chosen⟩⟩
    rw [decode]
    refine .ite (fun _ => .pure h) fun _ => ?_
    rcases hf : DecoderBuffer.fetchNext rx_blake2b s.currentInstruction.info.type decodeCycle
      s.mulCount s.gen with ⟨decodeBuffer, gen⟩
    have hcounts : ∀ slotSize ∈ decodeBuffer.counts, slotSize ∈ slotSizes := by
      intro slotSize hmem
      rw [← show (DecoderBuffer.fetchNext rx_blake2b s.currentInstruction.info.type decodeCycle
        s.mulCount s.gen).1 = decodeBuffer by rw [hf]] at hmem
      exact fetchNext_counts _ _ _ _ hmem
    refine .bind (fillBuffer_inv hL decodeBuffer _ _ hcounts (next h gen s.cycle)) ?_
    intro s' hs'
    exact decode_inv n (decodeCycle + 1) _ (next hs' s'.gen (s'.cycle + 1))

end

/-- Its registers are those that there are. -/
theorem summary_spec {E : Stuck → Prop} (decodeCycles : Nat) {s : State}
    (h : ∀ instr ∈ s.program, ∃ type, Safe type instr) :
    Ends E (fun prog => prog.program = s.program) (summary decodeCycles s) := by
  have hfold : ∀ (program : List Instruction) (asicLatencies : Reg → Nat),
      (∀ instr ∈ program, ∃ type, Safe type instr) →
      Ends E (fun _ => True) (program.foldlM asicLatency asicLatencies) := by
    intro program
    induction program with
    | nil => exact fun _ _ => .pure trivial
    | cons instr program ih =>
      intro asicLatencies hall
      obtain ⟨type, hsafe⟩ := hall instr List.mem_cons_self
      rw [List.foldlM_cons, asicLatency, dif_pos ⟨hsafe.dst_lt, hsafe.src_lt⟩]
      exact ih _ fun instr' hmem => hall instr' (List.mem_cons_of_mem _ hmem)
  refine .bind (hfold s.program _ h) ?_
  intro asicLatencies _
  exact .pure rfl

/-! ## Fuel -/

section

variable {SuperscalarLatency : Nat} {rx_blake2b : Bytes → Bytes} {fuel fuel' : Nat}
  (hf : fuel ≤ fuel')

include hf

theorem drawUntil_settled (draw : Blake2Generator → Nat × Blake2Generator) (bad : Nat → Bool) :
    ∀ gen, Settled Stuck.rejecting (Blake2Generator.drawUntil draw bad fuel gen)
      (Blake2Generator.drawUntil draw bad fuel' gen) := by
  induction fuel generalizing fuel' with
  | zero => exact fun _ => .inl rfl
  | succ fuel ih =>
    intro gen
    obtain ⟨fuel', rfl⟩ : ∃ n, fuel' = n + 1 := ⟨fuel' - 1, by omega⟩
    exact .ite (ih (by omega) _) .refl

theorem create_settled (type : SuperscalarInstructionType) (i : SuperscalarInstruction)
    (gen : Blake2Generator) : Settled Stuck.rejecting (i.create rx_blake2b fuel type gen)
      (i.create rx_blake2b fuel' type gen) := by
  cases type with
  | IROR_C => exact .bind (drawUntil_settled hf _ _ _) fun _ => .refl
  | IMUL_RCP => exact .bind (drawUntil_settled hf _ _ _) fun _ => .refl
  | _ => exact .refl

theorem createForSlot_settled (slotSize : Nat) (fetchType : Int) (isLast : Bool)
    (i : SuperscalarInstruction) (gen : Blake2Generator) :
    Settled Stuck.rejecting (i.createForSlot rx_blake2b fuel slotSize fetchType isLast gen)
      (i.createForSlot rx_blake2b fuel' slotSize fetchType isLast gen) := by
  unfold SuperscalarInstruction.createForSlot
  split
  · exact .ite (create_settled hf _ _ _) (create_settled hf _ _ _)
  · exact .ite (create_settled hf _ _ _) (create_settled hf _ _ _)
  · exact create_settled hf _ _ _
  · exact create_settled hf _ _ _
  · exact create_settled hf _ _ _
  · exact create_settled hf _ _ _
  · exact .refl

theorem turn_settled (decodeBuffer : DecoderBuffer) (slotSize : Nat) (isLast : Bool) (s : State) :
    Settled Stuck.rejecting
      (turn SuperscalarLatency rx_blake2b fuel decodeBuffer slotSize isLast s)
      (turn SuperscalarLatency rx_blake2b fuel' decodeBuffer slotSize isLast s) := by
  refine .bind ?_ fun _ => .refl
  exact .ite (.ite .refl (.bind (createForSlot_settled hf _ _ _ _ _) fun _ => .refl)) .refl

theorem fillSlot_settled (decodeBuffer : DecoderBuffer) (slotSize : Nat) (isLast : Bool) :
    ∀ (n : Nat) (s : State), Settled Stuck.rejecting
      (fillSlot SuperscalarLatency rx_blake2b fuel decodeBuffer slotSize isLast n s)
      (fillSlot SuperscalarLatency rx_blake2b fuel' decodeBuffer slotSize isLast n s)
  | 0, _ => .refl
  | n + 1, s => by
    refine .bind (turn_settled hf decodeBuffer slotSize isLast s) ?_
    rintro (s' | s' | s')
    · exact .refl
    · exact fillSlot_settled decodeBuffer slotSize isLast n s'
    · exact .refl

theorem fillBuffer_settled (decodeBuffer : DecoderBuffer) : ∀ (counts : List Nat) (s : State),
    Settled Stuck.rejecting
      (fillBuffer SuperscalarLatency rx_blake2b fuel decodeBuffer counts s)
      (fillBuffer SuperscalarLatency rx_blake2b fuel' decodeBuffer counts s)
  | [], _ => .refl
  | _ :: counts, s =>
    .bind (fillSlot_settled hf decodeBuffer _ _ _ s) fun r =>
      .ite (fillBuffer_settled decodeBuffer counts r.2) .refl

theorem decode_settled : ∀ (n decodeCycle : Nat) (s : State), Settled Stuck.rejecting
    (decode SuperscalarLatency rx_blake2b fuel n decodeCycle s)
    (decode SuperscalarLatency rx_blake2b fuel' n decodeCycle s)
  | 0, _, _ => .refl
  | n + 1, decodeCycle, _ =>
    .ite .refl (.bind (fillBuffer_settled hf _ _ _) fun s' =>
      decode_settled n (decodeCycle + 1) { s' with cycle := s'.cycle + 1 })

/-- **More fuel does not change the program.** -/
theorem generateSuperscalar_settled (gen : Blake2Generator) : Settled Stuck.rejecting
    (generateSuperscalar SuperscalarLatency rx_blake2b fuel gen)
    (generateSuperscalar SuperscalarLatency rx_blake2b fuel' gen) :=
  .bind (decode_settled hf _ _ _) fun _ => .refl

end

/-- What a program is, where there is one. -/
theorem generateSuperscalar_ends {SuperscalarLatency : Nat}
    (hL : SuperscalarLatency ≤ RANDOMX_SUPERSCALAR_MAX_LATENCY) (rx_blake2b : Bytes → Bytes)
    (gen : Blake2Generator) (fuel : Nat) :
    Ends (· = Stuck.rejecting) (fun r : SuperscalarProgram × PortBusy =>
      r.1.program.length ≤ 3 * SuperscalarLatency + 2 ∧
        (∀ instr ∈ r.1.program, ∃ type, Safe type instr) ∧ r.2.Safe)
      (generateSuperscalar SuperscalarLatency rx_blake2b fuel gen) := by
  have hinv : Inv SuperscalarLatency { gen := gen } :=
    ⟨⟨List.nodup_nil, nofun, nofun⟩, nofun, Nat.zero_le _, Nat.zero_le _,
      fun hk => absurd hk (Nat.not_lt_zero _)⟩
  refine .bind (decode_inv hL _ _ _ hinv) ?_
  rintro ⟨decodeCycles, s⟩ hs
  refine .bind (summary_spec decodeCycles hs.program) ?_
  intro prog hprog
  exact .pure ⟨hprog ▸ hs.room, hprog ▸ hs.program, hs.ports⟩

/-- **The generator is safe.** Where no rejection loop needs more than `fuel` draws there is
a program, the same on more; it fits, its instructions can be executed, and each port takes
one micro-operation in a cycle, of those of the table. -/
theorem generateSuperscalar_safe (SuperscalarLatency : Nat)
    (hL : SuperscalarLatency ≤ RANDOMX_SUPERSCALAR_MAX_LATENCY) (rx_blake2b : Bytes → Bytes)
    (gen : Blake2Generator) (fuel : Nat)
    (hfuel : generateSuperscalar SuperscalarLatency rx_blake2b fuel gen ≠ .error .rejecting) :
    ∃ prog portBusy,
      (∀ fuel' ≥ fuel,
        generateSuperscalar SuperscalarLatency rx_blake2b fuel' gen = .ok (prog, portBusy)) ∧
      prog.program.length ≤ 3 * SuperscalarLatency + 2 ∧
      3 * SuperscalarLatency + 2 ≤ SuperscalarMaxSize ∧
      (∀ instr ∈ prog.program, ∃ type, Safe type instr) ∧ portBusy.Safe := by
  obtain ⟨⟨prog, portBusy⟩, heq, hroom, hprog, hports⟩ :=
    (generateSuperscalar_ends hL rx_blake2b gen fuel).exists_ok fun e he => he ▸ hfuel
  refine ⟨prog, portBusy, fun fuel' hf => ?_, hroom, ?_, hprog, hports⟩
  · rw [(generateSuperscalar_settled hf gen).eq hfuel, heq]
  · simp only [SuperscalarMaxSize]
    omega

/-- Two cycles of decoding, from bytes that go on with a linear congruence. -/
theorem generateSuperscalar_safe_two : ∃ prog portBusy,
    (∀ fuel' ≥ 4, generateSuperscalar 2 (fun data => data.map (· * 5 + 3)) fuel'
      ⟨(List.range 64).map fun i => UInt8.ofNat (i * 37 + 11), 64⟩ = .ok (prog, portBusy)) ∧
    prog.program.length ≤ 3 * 2 + 2 ∧ 3 * 2 + 2 ≤ SuperscalarMaxSize ∧
    (∀ instr ∈ prog.program, ∃ type, Safe type instr) ∧ portBusy.Safe := by
  apply generateSuperscalar_safe 2 (by decide)
  intro h
  have hok : (generateSuperscalar 2 (fun data => data.map (· * 5 + 3)) 4
      ⟨(List.range 64).map fun i => UInt8.ofNat (i * 37 + 11), 64⟩).isOk = true := by
    decide +kernel
  rw [h] at hok
  cases hok

end Rxs.RandomX.Superscalar
