import Mathlib.Data.BitVec
import Rxs.L2Machine.JitAssembly

/-!
# The compiled program computes the same

For an integer instruction or a store the compiler emits one to five instructions of
x86-64, and these do to the registers and to the scratchpad what the bytecode machine does.
The offset in the scratchpad, computed on 32 bits and masked, is the one that the machine
computes on 64; the high halves of products are the same with `mul` and with `mulx`.

`IMUL_RCP` multiplies with a constant that the compiler computes by a division. The first
sixteen of a program are stored before it; the prologue has pushed them, and the
instruction reads its own back.

* `Simulates`: the processor has the registers and the scratchpad of the machine.
* `exec_operandCode`, `exec_high`, `exec_rotation`: the shapes that the code has.
* `exec_assembly`: an instruction.
* **`jit_integer`**: any instruction of any program.
-/
namespace Rxs

open Rxs.Core Rxs.Core.Bytes Rxs.RandomX Rxs.RandomX.BytecodeMachine Rxs.RandomX.JitCompilerX86
open Rxs.L2.JitControl Rxs.L2.JitAssembly

namespace L2.JitInteger

/-- Scratchpads that one instruction can address. -/
structure Sized (c : Configuration) : Prop where
  l1 : 8 ≤ c.ScratchpadL1_Size.toNat ∧ c.ScratchpadL1_Size.toNat ≤ c.ScratchpadL3_Size.toNat
  l2 : 8 ≤ c.ScratchpadL2_Size.toNat ∧ c.ScratchpadL2_Size.toNat ≤ c.ScratchpadL3_Size.toNat
  l3 : c.ScratchpadL3_Size.toNat ≤ 2 ^ 31

theorem sized_repository : ∀ c ∈ Configuration.repository, Sized c := by
  intro c hc
  simp only [Configuration.repository, List.mem_cons, List.not_mem_nil, or_false] at hc
  rcases hc with rfl | rfl | rfl | rfl | rfl <;>
    exact ⟨by decide, by decide, by decide⟩

theorem mask_toNat {size : BitVec 32} (h : 8 ≤ size.toNat) :
    (Configuration.mask size).toNat + 8 ≤ size.toNat := by
  have hlt := size.isLt
  have hdiv : (size / 8).toNat = size.toNat / 8 := BitVec.toNat_udiv ..
  have hsub : (size / 8 - 1).toNat = size.toNat / 8 - 1 := by
    rw [BitVec.toNat_sub, hdiv]
    have : (1 : BitVec 32).toNat = 1 := rfl
    omega
  have hmul : (Configuration.mask size).toNat = (size.toNat / 8 - 1) * 8 := by
    have h8 : (8 : BitVec 32).toNat = 8 := rfl
    rw [Configuration.mask, BitVec.toNat_mul, hsub, h8]
    omega
  omega

theorem AddressMask_toNat {c : Configuration} (h : Sized c) (mem : Nat) :
    (c.AddressMask mem).toNat + 8 ≤ c.ScratchpadL3_Size.toNat := by
  unfold Configuration.AddressMask
  split
  · exact (mask_toNat h.l2.1).trans h.l2.2
  · exact (mask_toNat h.l1.1).trans h.l1.2

theorem ScratchpadL3Mask_toNat {c : Configuration} (h : Sized c) :
    c.ScratchpadL3Mask.toNat + 8 ≤ c.ScratchpadL3_Size.toNat :=
  mask_toNat (h.l1.1.trans h.l1.2)

/-- The registers that the code of an instruction may leave with any value. -/
def Temporary (t : X86.Reg) : Prop := t = X86.rax ∨ t = X86.rcx ∨ t = X86.rdx

theorem Temporary.ne_native {t : X86.Reg} (h : Temporary t) (r : Reg) : native r ≠ t := by
  rcases h with rfl | rfl | rfl
  · exact Fin.ne_of_val_ne (show 8 + r.val ≠ 0 by omega)
  · exact Fin.ne_of_val_ne (show 8 + r.val ≠ 1 by omega)
  · exact Fin.ne_of_val_ne (show 8 + r.val ≠ 2 by omega)

theorem native_ne_rsi (r : Reg) : native r ≠ X86.rsi :=
  Fin.ne_of_val_ne (show 8 + r.val ≠ 6 by omega)

variable {V : Type}

/-- The processor, started with `m₀`, has the registers and the scratchpad of `s`; the
scratchpad has `size` bytes and is where `rsi` was. All else is as in `m₀`, but for what is
temporary. -/
structure Simulates (size : Nat) (m₀ : X86.State) (s : Native V) (m : X86.State) : Prop where
  regs : ∀ r, m.regs (native r) = s.r r
  scratchpad : ∀ a < size, m.mem (m₀.regs X86.rsi + BitVec.ofNat 64 a) = s.scratchpad a
  others : ∀ q, ¬ Temporary q → (∀ r, q ≠ native r) → m.regs q = m₀.regs q
  memory : ∀ a, (∀ i < size, a ≠ m₀.regs X86.rsi + BitVec.ofNat 64 i) → m.mem a = m₀.mem a

namespace Simulates

variable {size : Nat} {m₀ m : X86.State} {s : Native V}

theorem flag (h : Simulates size m₀ s m) (z : Option Bool) : Simulates size m₀ s (m.setFlag z) :=
  ⟨h.regs, h.scratchpad, h.others, h.memory⟩

theorem temp (h : Simulates size m₀ s m) {t : X86.Reg} (ht : Temporary t) (v : BitVec 64) :
    Simulates size m₀ s (m.setReg t v) := by
  refine ⟨fun r => ?_, h.scratchpad, fun q hq hn => ?_, h.memory⟩
  · rw [X86.State.setReg_regs, Function.update_of_ne (ht.ne_native r)]
    exact h.regs r
  · have hne : q ≠ t := fun heq => hq (heq ▸ ht)
    rw [X86.State.setReg_regs, Function.update_of_ne hne]
    exact h.others q hq hn

theorem set (h : Simulates size m₀ s m) (r : Reg) (v : BitVec 64) :
    Simulates size m₀ (s.setR r v) (m.setReg (native r) v) := by
  refine ⟨fun q => ?_, h.scratchpad, fun q hq hn => ?_, h.memory⟩
  · simp only [X86.State.setReg_regs, Native.setR_r, Function.update_apply,
      native_injective.eq_iff, h.regs q]
  · rw [X86.State.setReg_regs, Function.update_of_ne (hn r)]
    exact h.others q hq hn

theorem rsi (h : Simulates size m₀ s m) : m.regs X86.rsi = m₀.regs X86.rsi := by
  refine h.others X86.rsi ?_ fun r heq => native_ne_rsi r heq.symm
  simp [Temporary, X86.rsi, X86.rax, X86.rcx, X86.rdx]

theorem load (h : Simulates size m₀ s m) {addr : Nat} (ha : addr + 8 ≤ size) :
    X86.load64 m.mem (m₀.regs X86.rsi + BitVec.ofNat 64 addr) =
      RandomX.load64 s.scratchpad addr := by
  have byte (k : Nat) (hk : k < 8) :
      m.mem (m₀.regs X86.rsi + BitVec.ofNat 64 addr + BitVec.ofNat 64 k) =
        s.scratchpad (addr + k) := by
    rw [BitVec.add_assoc, ← BitVec.ofNat_add]
    exact h.scratchpad _ (by omega)
  have h0 := h.scratchpad addr (by omega)
  have h1 := byte 1 (by decide)
  have h2 := byte 2 (by decide)
  have h3 := byte 3 (by decide)
  have h4 := byte 4 (by decide)
  have h5 := byte 5 (by decide)
  have h6 := byte 6 (by decide)
  have h7 := byte 7 (by decide)
  unfold X86.load64 RandomX.load64
  rw [← h0, ← h1, ← h2, ← h3, ← h4, ← h5, ← h6, ← h7]
  rfl

theorem store (h : Simulates size m₀ s m) (hs : size ≤ 2 ^ 32) {addr : Nat} (ha : addr + 8 ≤ size)
    (v : BitVec 64) : Simulates size m₀ { s with scratchpad := RandomX.store64 s.scratchpad addr v }
      { m with mem := X86.store64 m.mem (m₀.regs X86.rsi + BitVec.ofNat 64 addr) v } := by
  refine ⟨h.regs, fun a hlt => ?_, h.others, fun a hout => ?_⟩
  · have hsub : m₀.regs X86.rsi + BitVec.ofNat 64 a - (m₀.regs X86.rsi + BitVec.ofNat 64 addr) =
        BitVec.ofNat 64 a - BitVec.ofNat 64 addr := by
      bv_omega
    have hnat : (BitVec.ofNat 64 a - BitVec.ofNat 64 addr).toNat =
        if addr ≤ a then a - addr else 2 ^ 64 + a - addr := by
      rw [BitVec.toNat_sub, BitVec.toNat_ofNat, BitVec.toNat_ofNat]
      split <;> omega
    simp only [X86.store64, RandomX.store64, hsub, hnat]
    by_cases hle : addr ≤ a
    · simp only [if_pos hle]
      by_cases h8 : a - addr < 8
      · rw [if_pos h8, if_pos ⟨hle, by omega⟩]
      · rw [if_neg h8, if_neg (by omega)]
        exact h.scratchpad a hlt
    · simp only [if_neg hle]
      rw [if_neg (by omega), if_neg (by omega)]
      exact h.scratchpad a hlt
  · have hfar : ¬ (a - (m₀.regs X86.rsi + BitVec.ofNat 64 addr)).toNat < 8 := by
      intro hlt
      refine hout (addr + (a - (m₀.regs X86.rsi + BitVec.ofNat 64 addr)).toNat) (by omega) ?_
      rw [BitVec.ofNat_add, BitVec.ofNat_toNat, BitVec.setWidth_eq]
      bv_omega
    simp only [X86.store64, if_neg hfar]
    exact h.memory a hout

end Simulates

/-! ## Addresses -/

/-- On 32 bits, as the code has it, the offset is that on 64. -/
theorem offset_eq (x : BitVec 64) (imm mask : BitVec 32) :
    X86.trunc false (X86.trunc false (x + imm.signExtend 64) &&& mask.signExtend 64) =
      (x + signExtend2sCompl imm) &&& mask.setWidth 64 := by
  unfold X86.trunc signExtend2sCompl
  generalize x + imm.signExtend 64 = v
  ext i hi
  by_cases h : i < 32
  · simp [h, hi, BitVec.getElem_signExtend]
  · simp [h, BitVec.getLsbD_of_ge mask i (by omega)]

/-- An immediate under a mask of 31 bits is not negative. -/
theorem offset_imm (imm : BitVec 32) {mask : BitVec 32} (h : mask.toNat < 2 ^ 31) :
    (imm &&& mask).signExtend 64 = (0 + signExtend2sCompl imm) &&& mask.setWidth 64 := by
  have hmsb : mask.msb = false := by
    rw [BitVec.msb_eq_decide, decide_eq_false_iff_not]
    omega
  have hzero : (0 : BitVec 64) + signExtend2sCompl imm = signExtend2sCompl imm := BitVec.zero_add _
  rw [hzero, signExtend2sCompl, BitVec.signExtend_and,
    BitVec.signExtend_eq_setWidth_of_msb_false hmsb]

/-- An offset under a mask, and eight bytes from there on. -/
theorem offset_lt {size : Nat} (v : BitVec 64) {mask : BitVec 32} (h : mask.toNat + 8 ≤ size) :
    (v &&& mask.setWidth 64).toNat + 8 ≤ size := by
  have hand : (v &&& mask.setWidth 64).toNat ≤ (mask.setWidth 64).toNat := by
    rw [BitVec.toNat_and]
    exact Nat.and_le_right
  have hmask : (mask.setWidth 64).toNat = mask.toNat := by
    rw [BitVec.toNat_setWidth]
    omega
  omega

variable {size : Nat} {m₀ m : X86.State} {s : Native V} {c : Configuration} {cpu : Cpu}
  {instr : Instruction}

/-- What an operand at the offset in `t` reads. -/
theorem addr_atReg {t : X86.Reg} (m : X86.State) :
    m.addr ⟨some X86.rsi, some (t, 0), 0⟩ = m.regs X86.rsi + m.regs t := by
  simp [X86.State.addr]

theorem exec_address {t : X86.Reg} (ht : Temporary t) (h : Simulates size m₀ s m) (r : Reg)
    (imm mask : BitVec 32) : ∃ m₁, X86.execAll (address t (native r) imm mask) m = some m₁ ∧
      Simulates size m₀ s m₁ ∧
      m₁.regs t = (s.r r + signExtend2sCompl imm) &&& mask.setWidth 64 := by
  refine ⟨_, rfl, ((h.temp ht _).temp ht _).flag _, ?_⟩
  have haddr : m.addr ⟨some (native r), none, imm⟩ = s.r r + imm.signExtend 64 := by
    simp [X86.State.addr, h.regs r]
  rw [X86.State.setFlag_regs, X86.State.setReg_regs, Function.update_self,
    X86.State.setReg_regs, Function.update_self, haddr]
  exact offset_eq _ _ _

/-- `rm` is the operand that the bytecode reads, as long as `t` and `rsi` are as they are. -/
def Operand (s : Native V) (t : X86.Reg) (rm : X86.Rm) (addr : Nat) (m : X86.State) : Prop :=
  ∀ m' : X86.State, m'.mem = m.mem → m'.regs t = m.regs t → m'.regs X86.rsi = m.regs X86.rsi →
    m'.read rm = RandomX.load64 s.scratchpad addr

theorem exec_operandCode {t : X86.Reg} (ht : Temporary t) (hc : Sized c)
    (hm : instr.dst.toNat < 8 ∧ instr.src.toNat < 8)
    (h : Simulates c.ScratchpadL3_Size.toNat m₀ s m) (type : InstructionType) :
    ∃ m₁, X86.execAll (operandCode c t instr) m = some m₁ ∧
      Simulates c.ScratchpadL3_Size.toNat m₀ s m₁ ∧
      Operand s t (operand c t instr)
        (getScratchpadAddress (memory c type (reg instr.dst) (reg instr.src) instr) s) m₁ := by
  unfold operandCode operand memory
  simp only [reg_ne_iff hm]
  split
  · obtain ⟨m₁, hexec, h₁, hoff⟩ := exec_address ht h (reg instr.src) instr.imm32
      (c.AddressMask instr.getModMem)
    refine ⟨m₁, hexec, h₁, fun m' hmem ht' hrsi => ?_⟩
    have haddr := offset_lt (s.r (reg instr.src) + signExtend2sCompl instr.imm32)
      (AddressMask_toNat hc instr.getModMem)
    have hload := h₁.load haddr
    rw [BitVec.ofNat_toNat, BitVec.setWidth_eq] at hload
    rw [atReg, X86.State.read, addr_atReg, hmem, ht', hrsi, h₁.rsi, hoff]
    exact hload
  · refine ⟨m, rfl, h, fun m' hmem _ hrsi => ?_⟩
    have hmask := ScratchpadL3Mask_toNat hc
    have hl3 := hc.l3
    have hload := h.load (offset_lt (0 + signExtend2sCompl instr.imm32) hmask)
    rw [BitVec.ofNat_toNat, BitVec.setWidth_eq, ← offset_imm instr.imm32 (by omega)] at hload
    have haddr : m'.addr ⟨some X86.rsi, none, instr.imm32 &&& c.ScratchpadL3Mask⟩ =
        m₀.regs X86.rsi + (instr.imm32 &&& c.ScratchpadL3Mask).signExtend 64 := by
      simp [X86.State.addr, hrsi, h.rsi]
    rw [X86.State.read, haddr, hmem, hload, offset_imm instr.imm32 (by omega)]
    rfl

/-! ## Reciprocals -/

/-- **The second loop**: the quotient and the remainder of a power of two, doubled `n` times. -/
theorem reciprocalLoop_eq {divisor : BitVec 64} (hpos : 0 < divisor.toNat)
    (hlt : divisor.toNat < 2 ^ 63) : ∀ (n k : Nat) (remainder : BitVec 64),
      remainder.toNat = 2 ^ k % divisor.toNat →
      reciprocalLoop divisor n (BitVec.ofNat 64 (2 ^ k / divisor.toNat)) remainder =
        BitVec.ofNat 64 (2 ^ (k + n) / divisor.toNat)
  | 0, _, _, _ => rfl
  | n + 1, k, remainder, hr => by
    have hmod := Nat.mod_lt (2 ^ k) hpos
    have hdiv := Nat.div_add_mod (2 ^ k) divisor.toNat
    have hpow : 2 ^ (k + 1) = 2 * 2 ^ k := by rw [Nat.pow_succ, Nat.mul_comm]
    have hsub : (divisor - remainder).toNat = divisor.toNat - remainder.toNat := by
      rw [BitVec.toNat_sub]
      omega
    have hdouble : 2 ^ (k + 1) = 2 * (2 ^ k % divisor.toNat) +
        divisor.toNat * (2 * (2 ^ k / divisor.toNat)) := by
      rw [hpow, Nat.mul_left_comm]
      omega
    have hq2 : BitVec.ofNat 64 (2 ^ k / divisor.toNat) * 2 =
        BitVec.ofNat 64 (2 * (2 ^ k / divisor.toNat)) := by
      rw [Nat.mul_comm, BitVec.ofNat_mul]
      rfl
    have hr2 : (remainder * 2).toNat = 2 * (2 ^ k % divisor.toNat) := by
      have h2 : (2 : BitVec 64).toNat = 2 := rfl
      rw [BitVec.toNat_mul, h2]
      omega
    rw [reciprocalLoop, show k + (n + 1) = k + 1 + n by omega, hq2]
    by_cases hge : remainder ≥ divisor - remainder
    · -- the doubled remainder contains the divisor once
      have hle : divisor.toNat ≤ 2 * (2 ^ k % divisor.toNat) := by
        have := BitVec.le_def.mp hge
        omega
      have hsum : 2 ^ (k + 1) = (2 * (2 ^ k % divisor.toNat) - divisor.toNat) +
          divisor.toNat * (2 * (2 ^ k / divisor.toNat) + 1) := by
        rw [Nat.mul_add, Nat.mul_one]
        omega
      have hlow : 2 * (2 ^ k % divisor.toNat) - divisor.toNat < divisor.toNat := by omega
      have hq : BitVec.ofNat 64 (2 * (2 ^ k / divisor.toNat)) + 1 =
          BitVec.ofNat 64 (2 ^ (k + 1) / divisor.toNat) := by
        rw [hsum, Nat.add_mul_div_left _ _ hpos, Nat.div_eq_of_lt hlow, Nat.zero_add,
          BitVec.ofNat_add]
        rfl
      rw [if_pos hge, hq]
      refine reciprocalLoop_eq hpos hlt n (k + 1) _ ?_
      rw [hsum, Nat.add_mul_mod_self_left, Nat.mod_eq_of_lt hlow, BitVec.toNat_sub, hr2]
      omega
    · have hlt' : 2 * (2 ^ k % divisor.toNat) < divisor.toNat := by
        have := BitVec.not_le.mp hge
        have := BitVec.lt_def.mp this
        omega
      have hq : BitVec.ofNat 64 (2 * (2 ^ k / divisor.toNat)) =
          BitVec.ofNat 64 (2 ^ (k + 1) / divisor.toNat) := by
        rw [hdouble, Nat.add_mul_div_left _ _ hpos, Nat.div_eq_of_lt hlt', Nat.zero_add]
      rw [if_neg hge, hq]
      refine reciprocalLoop_eq hpos hlt n (k + 1) _ ?_
      rw [hdouble, Nat.add_mul_mod_self_left, Nat.mod_eq_of_lt hlt', hr2]

/-- **The reciprocal**, computed by the compiler in one division, is that of the loops. -/
theorem randomx_reciprocal_fast_eq {divisor : BitVec 64} (hpos : 0 < divisor.toNat)
    (hlt : divisor.toNat < 2 ^ 63) :
    randomx_reciprocal_fast divisor = randomx_reciprocal divisor := by
  have hp : (1 <<< 63 : BitVec 64).toNat = 2 ^ 63 := rfl
  have hq : (1 <<< 63 : BitVec 64) / divisor = BitVec.ofNat 64 (2 ^ 63 / divisor.toNat) := by
    apply BitVec.eq_of_toNat_eq
    rw [BitVec.toNat_udiv, hp, BitVec.toNat_ofNat, Nat.mod_eq_of_lt]
    exact Nat.lt_of_le_of_lt (Nat.div_le_self _ _) (by decide)
  have hr : ((1 <<< 63 : BitVec 64) % divisor).toNat = 2 ^ 63 % divisor.toNat := by
    rw [BitVec.toNat_umod, hp]
  have hexp : 2 ^ divisor.toNat.log2 * 2 ^ 64 = 2 ^ (63 + (divisor.toNat.log2 + 1)) := by
    rw [← Nat.pow_add]
    congr 1
    omega
  rw [randomx_reciprocal_fast, hexp, ← reciprocalLoop_eq hpos hlt _ 63 _ hr, ← hq]
  rfl

/-- A divisor of 32 bits that has a reciprocal. -/
theorem reciprocal_eq {imm : BitVec 32} (h : ¬ isZeroOrPowerOf2 (imm.setWidth 64)) :
    randomx_reciprocal_fast (imm.setWidth 64) = randomx_reciprocal (imm.setWidth 64) := by
  have hnat : (imm.setWidth 64 : BitVec 64).toNat = imm.toNat := by
    rw [BitVec.toNat_setWidth]
    omega
  refine randomx_reciprocal_fast_eq (Nat.pos_of_ne_zero fun h0 => h ?_) (by omega)
  have hzero : imm.setWidth 64 = (0 : BitVec 64) := BitVec.eq_of_toNat_eq h0
  rw [hzero]
  decide

/-! ## Instructions -/

theorem Simulates.set_eq (h : Simulates size m₀ s m) (r : Reg) {v w : BitVec 64} (hv : v = w) :
    Simulates size m₀ (s.setR r w) (m.setReg (native r) v) :=
  hv ▸ h.set r v

/-- The loaded register is not an operand. -/
theorem Operand.setReg {t : X86.Reg} {rm : X86.Rm} {addr : Nat} (h : Operand s t rm addr m)
    {q : X86.Reg} (ht : t ≠ q) (hq : X86.rsi ≠ q) (v : BitVec 64) :
    (m.setReg q v).read rm = RandomX.load64 s.scratchpad addr :=
  h _ rfl (Function.update_of_ne ht _ _) (Function.update_of_ne hq _ _)

theorem read_self (m : X86.State) (q : X86.Reg) (v : BitVec 64) (z : Option Bool) :
    X86.trunc true (((m.setReg q v).setFlag z).read (.reg q)) = v := by
  simp [X86.State.read, X86.trunc]

theorem Simulates.read_native (h : Simulates size m₀ s m) {t : X86.Reg} (ht : Temporary t)
    (v : BitVec 64) (r : Reg) : (m.setReg t v).read (.reg (native r)) = s.r r := by
  rw [X86.State.read, X86.State.setReg_regs, Function.update_of_ne (ht.ne_native r), h.regs]

/-- **The high half of a product**, in `rdx` from `rax`. -/
theorem exec_high (h : Simulates size m₀ s m) {rm : X86.Rm} {w : BitVec 64}
    (hread : ∀ v, (m.setReg X86.rax v).read rm = w) (signed : Bool) :
    ∃ m', X86.execAll (high signed instr rm) m = some m' ∧
      Simulates size m₀ (s.setR (reg instr.dst)
        (if signed then smulh (s.r (reg instr.dst)) w else mulh (s.r (reg instr.dst)) w)) m' := by
  have hrax : Temporary X86.rax := .inl rfl
  have hrdx : Temporary X86.rdx := .inr (.inr rfl)
  have hdst : X86.trunc true (m.read (.reg (dstReg instr))) = s.r (reg instr.dst) := h.regs _
  have hhigh : X86.high (X86.product signed
      ((m.setReg X86.rax (X86.trunc true (m.read (.reg (dstReg instr))))).regs X86.rax)
      ((m.setReg X86.rax (X86.trunc true (m.read (.reg (dstReg instr))))).read rm)) =
        if signed then smulh (s.r (reg instr.dst)) w else mulh (s.r (reg instr.dst)) w := by
    rw [hread, X86.State.setReg_regs, Function.update_self, hdst]
    cases signed <;> rfl
  refine ⟨_, rfl, ((((h.temp hrax _).temp hrax _).temp hrdx _).flag none).set_eq _ ?_⟩
  rw [read_self]
  exact hhigh

theorem exec_highBMI2 (h : Simulates size m₀ s m) {rm : X86.Rm} {w : BitVec 64}
    (hread : ∀ v, (m.setReg X86.rdx v).read rm = w) :
    ∃ m', X86.execAll (highBMI2 instr rm) m = some m' ∧
      Simulates size m₀ (s.setR (reg instr.dst) (mulh (s.r (reg instr.dst)) w)) m' := by
  have hdst : X86.trunc true (m.read (.reg (dstReg instr))) = s.r (reg instr.dst) := h.regs _
  refine ⟨_, rfl, ((h.temp (.inr (.inr rfl)) _).temp (.inl rfl) _).set_eq _ ?_⟩
  rw [hread, X86.State.setReg_regs, Function.update_self, hdst]
  rfl

/-- An operation with an operand in memory. -/
theorem exec_mem {i : X86.Instr} {f : BitVec 64 → BitVec 64 → BitVec 64} {type : InstructionType}
    (hc : Sized c) (hm : instr.dst.toNat < 8 ∧ instr.src.toNat < 8)
    (h : Simulates c.ScratchpadL3_Size.toNat m₀ s m)
    (hi : ∀ m', ∃ z, X86.exec i m' = some ((m'.setReg (dstReg instr) (f (m'.regs (dstReg instr))
      (m'.read (operand c X86.rax instr)))).setFlag z)) :
    ∃ m', X86.execAll (operandCode c X86.rax instr ++ [i]) m = some m' ∧
      Simulates c.ScratchpadL3_Size.toNat m₀ (s.setR (reg instr.dst) (f (s.r (reg instr.dst))
        (RandomX.load64 s.scratchpad (getScratchpadAddress
          (memory c type (reg instr.dst) (reg instr.src) instr) s)))) m' := by
  obtain ⟨m₁, hexec, h₁, hread⟩ := exec_operandCode (.inl rfl) hc hm h type
  obtain ⟨z, hz⟩ := hi m₁
  refine ⟨_, by rw [X86.execAll_append, hexec, Option.bind_some, X86.execAll, hz]; rfl,
    (h₁.set_eq _ ?_).flag z⟩
  rw [hread m₁ rfl rfl rfl]
  exact congrArg (f · _) (h₁.regs _)

theorem memory_eq (c : Configuration) (type : InstructionType) (d r : Reg) (instr : Instruction) :
    (memory c type d r instr).type = type ∧ (memory c type d r instr).idst = d := by
  unfold memory
  dsimp only
  split <;> exact ⟨rfl, rfl⟩

theorem exec_memMul {type : InstructionType} (hc : Sized c)
    (hm : instr.dst.toNat < 8 ∧ instr.src.toNat < 8)
    (h : Simulates c.ScratchpadL3_Size.toNat m₀ s m) (signed : Bool) :
    ∃ m', X86.execAll (operandCode c X86.rcx instr ++
        high signed instr (operand c X86.rcx instr)) m = some m' ∧
      Simulates c.ScratchpadL3_Size.toNat m₀ (s.setR (reg instr.dst)
        ((if signed then smulh else mulh) (s.r (reg instr.dst)) (RandomX.load64 s.scratchpad
          (getScratchpadAddress (memory c type (reg instr.dst) (reg instr.src) instr) s)))) m' := by
  obtain ⟨m₁, hexec, h₁, hread⟩ := exec_operandCode (.inr (.inl rfl)) hc hm h type
  obtain ⟨m₂, hexec₂, h₂⟩ := exec_high h₁ (fun v => hread.setReg (by decide) (by decide) v) signed
  refine ⟨m₂, by rw [X86.execAll_append, hexec, Option.bind_some, hexec₂], ?_⟩
  cases signed <;> exact h₂

theorem exec_memMulBMI2 {type : InstructionType} (hc : Sized c)
    (hm : instr.dst.toNat < 8 ∧ instr.src.toNat < 8)
    (h : Simulates c.ScratchpadL3_Size.toNat m₀ s m) :
    ∃ m', X86.execAll (operandCode c X86.rcx instr ++
        highBMI2 instr (operand c X86.rcx instr)) m = some m' ∧
      Simulates c.ScratchpadL3_Size.toNat m₀ (s.setR (reg instr.dst)
        (mulh (s.r (reg instr.dst)) (RandomX.load64 s.scratchpad
          (getScratchpadAddress (memory c type (reg instr.dst) (reg instr.src) instr) s)))) m' := by
  obtain ⟨m₁, hexec, h₁, hread⟩ := exec_operandCode (.inr (.inl rfl)) hc hm h type
  obtain ⟨m₂, hexec₂, h₂⟩ := exec_highBMI2 h₁ fun v => hread.setReg (by decide) (by decide) v
  exact ⟨m₂, by rw [X86.execAll_append, hexec, Option.bind_some, hexec₂], h₂⟩

theorem rotate_count (x : BitVec 64) : (X86.trunc false x).toNat % 64 = (x &&& 63).toNat := by
  have h63 : (63 : BitVec 64).toNat = 2 ^ 6 - 1 := rfl
  rw [BitVec.toNat_and, h63, Nat.and_two_pow_sub_one_eq_mod]
  simp only [X86.trunc, Bool.false_eq_true, if_false, BitVec.toNat_setWidth]
  omega

/-- A rotation, by a register or by the immediate. -/
theorem exec_rotation (hm : instr.dst.toNat < 8 ∧ instr.src.toNat < 8)
    (h : Simulates size m₀ s m) (left : Bool) (type : InstructionType) :
    ∃ m', X86.execAll (JitAssembly.rotation left instr) m = some m' ∧
      Simulates size m₀ (s.setR (reg instr.dst) ((if left then rotl64 else rotr64)
        (s.r (reg instr.dst)) (BytecodeMachine.src (regOrImm type (reg instr.dst) (reg instr.src)
          (instr.imm32.setWidth 64)) s &&& 63).toNat)) m' := by
  unfold JitAssembly.rotation regOrImm
  simp only [reg_ne_iff hm]
  split
  · have hrcx : Temporary X86.rcx := .inr (.inl rfl)
    have h₁ := h.temp hrcx (X86.trunc false (m.read (.reg (srcReg instr))))
    have hcount : ((m.setReg X86.rcx (X86.trunc false (m.read (.reg (srcReg instr))))).regs
        X86.rcx).toNat % 64 = (s.r (reg instr.src) &&& 63).toNat := by
      rw [X86.State.setReg_regs, Function.update_self, rotate_count]
      exact congrArg (fun v => (v &&& 63).toNat) (h.regs _)
    refine ⟨_, rfl, h₁.set_eq _ ?_⟩
    dsimp only
    rw [hcount, dstReg, h₁.regs]
    cases left <;> rfl
  · have hcount : instr.imm32.toNat % 64 % 64 = (instr.imm32.setWidth 64 &&& 63).toNat := by
      have h63 : (63 : BitVec 64).toNat = 2 ^ 6 - 1 := rfl
      rw [BitVec.toNat_and, h63, Nat.and_two_pow_sub_one_eq_mod, BitVec.toNat_setWidth]
      omega
    refine ⟨_, rfl, h.set_eq _ ?_⟩
    dsimp only
    rw [hcount, dstReg, h.regs]
    cases left <;> rfl

/-- The bytecode of an operand in memory. -/
theorem execute_memory (c : Configuration) (ops : FloatOps V) {type : InstructionType}
    {f : BitVec 64 → BitVec 64 → BitVec 64} {pc : Int} {s : Native V}
    (hf : ∀ ibc : InstructionByteCode, ibc.type = type →
      (executeInstruction c ops ibc pc s).2 = s.setR ibc.idst (f (s.r ibc.idst)
        (RandomX.load64 s.scratchpad (getScratchpadAddress ibc s)))) (d r : Reg)
    (instr : Instruction) : (executeInstruction c ops (memory c type d r instr) pc s).2 =
      s.setR d (f (s.r d)
        (RandomX.load64 s.scratchpad (getScratchpadAddress (memory c type d r instr) s))) := by
  obtain ⟨ht, hd⟩ := memory_eq c type d r instr
  rw [hf _ ht, hd]

/-- The bytecode of a rotation. -/
theorem execute_rotation (c : Configuration) (ops : FloatOps V) (left : Bool) {pc : Int}
    {s : Native V} {type : InstructionType} (ht : type = if left then .IROL_R else .IROR_R)
    (d r : Reg) (imm : BitVec 64) :
    (executeInstruction c ops (regOrImm type d r imm) pc s).2 = s.setR d
      ((if left then rotl64 else rotr64) (s.r d)
        (BytecodeMachine.src (regOrImm type d r imm) s &&& 63).toNat) := by
  subst ht
  unfold regOrImm
  cases left <;> split <;> rfl

/-- **An integer instruction or a store does what its bytecode does.** -/
theorem exec_assembly (ops : FloatOps V) (hc : Sized c) {type : InstructionType}
    (ht : isInteger type) (hm : instr.dst.toNat < 8 ∧ instr.src.toNat < 8)
    (h : Simulates c.ScratchpadL3_Size.toNat m₀ s m) {used : Nat}
    (hslot : type = .IMUL_RCP → ¬ isZeroOrPowerOf2 (instr.imm32.setWidth 64) → used < 16 →
      m.read (slot used) = randomx_reciprocal (instr.imm32.setWidth 64))
    (i : Nat) (u : Usage) (pc : Int) :
    ∃ m', X86.execAll (assembly c cpu type instr used) m = some m' ∧
      Simulates c.ScratchpadL3_Size.toNat m₀
        (executeInstruction c ops (compile c type instr i u).1 pc s).2 m' := by
  cases type <;> simp only [assembly, compile]
  case IADD_RS =>
    refine ⟨_, rfl, h.set_eq _ ?_⟩
    have hneed : reg instr.dst ≠ RegisterNeedsDisplacement ↔ instr.dst.toNat ≠ 5 := by
      simp only [reg, RegisterNeedsDisplacement, ne_eq, Fin.ext_iff, Fin.val_ofNat]
      omega
    have haddr (disp : BitVec 32) :
        m.addr ⟨some (dstReg instr), some (srcReg instr, instr.getModShift), disp⟩ =
          s.r (reg instr.dst) + s.r (reg instr.src) <<< instr.getModShift + disp.signExtend 64 := by
      rw [← h.regs, ← h.regs]
      rfl
    simp only [X86.trunc, if_true, hneed]
    rw [haddr, BitVec.add_assoc]
    by_cases h5 : instr.dst.toNat = 5
    · rw [if_pos h5, if_neg (not_not.mpr h5)]
      rfl
    · rw [if_neg h5, if_pos h5]
      rfl
  case IADD_M =>
    rw [execute_memory c ops (f := (· + ·)) fun ibc ht => by simp only [executeInstruction, ht]]
    exact exec_mem hc hm h fun m' => ⟨_, rfl⟩
  case ISUB_M =>
    rw [execute_memory c ops (f := (· - ·)) fun ibc ht => by simp only [executeInstruction, ht]]
    exact exec_mem hc hm h fun m' => ⟨_, rfl⟩
  case IXOR_M =>
    rw [execute_memory c ops (f := (· ^^^ ·)) fun ibc ht => by simp only [executeInstruction, ht]]
    exact exec_mem hc hm h fun m' => ⟨_, rfl⟩
  case IMUL_M =>
    rw [execute_memory c ops (f := (· * ·)) fun ibc ht => by simp only [executeInstruction, ht]]
    exact exec_mem hc hm h fun m' => ⟨_, rfl⟩
  case IMULH_M =>
    rw [execute_memory c ops (f := mulh) fun ibc ht => by simp only [executeInstruction, ht]]
    split
    · exact exec_memMulBMI2 hc hm h
    · exact exec_memMul hc hm h false
  case ISMULH_M =>
    rw [execute_memory c ops (f := smulh) fun ibc ht => by simp only [executeInstruction, ht]]
    exact exec_memMul hc hm h true
  case ISUB_R =>
    simp only [regOrImm, reg_ne_iff hm]
    split
    · exact ⟨_, rfl, (h.set_eq _ (congrArg₂ (· - ·) (h.regs _) (h.regs _))).flag _⟩
    · exact ⟨_, rfl, (h.set_eq _ (congrArg (· - signExtend2sCompl instr.imm32) (h.regs _))).flag _⟩
  case IXOR_R =>
    simp only [regOrImm, reg_ne_iff hm]
    split
    · exact ⟨_, rfl, (h.set_eq _ (congrArg₂ (· ^^^ ·) (h.regs _) (h.regs _))).flag _⟩
    · exact ⟨_, rfl,
        (h.set_eq _ (congrArg (· ^^^ signExtend2sCompl instr.imm32) (h.regs _))).flag _⟩
  case IMUL_R =>
    simp only [regOrImm, reg_ne_iff hm]
    split
    · exact ⟨_, rfl, (h.set_eq _ (congrArg₂ (· * ·) (h.regs _) (h.regs _))).flag _⟩
    · exact ⟨_, rfl, (h.set_eq _ (congrArg (· * signExtend2sCompl instr.imm32) (h.regs _))).flag _⟩
  case IMULH_R =>
    split
    · exact exec_highBMI2 h fun v => h.read_native (.inr (.inr rfl)) v _
    · exact exec_high h (fun v => h.read_native (.inl rfl) v _) false
  case ISMULH_R => exact exec_high h (fun v => h.read_native (.inl rfl) v _) true
  case IMUL_RCP =>
    by_cases hz : isZeroOrPowerOf2 (instr.imm32.setWidth 64) = true
    · rw [if_pos hz, if_neg (not_not.mpr hz)]
      exact ⟨m, rfl, h⟩
    · rw [if_neg hz, if_pos hz]
      split
      · rename_i hu
        exact ⟨_, rfl, (h.set_eq _ (congrArg₂ (· * ·) (h.regs _) (hslot rfl hz hu))).flag _⟩
      · have h₁ := h.temp (.inl rfl) (randomx_reciprocal_fast (instr.imm32.setWidth 64))
        refine ⟨_, rfl, (h₁.set_eq _ ?_).flag _⟩
        rw [dstReg, h₁.regs, X86.State.read, X86.State.setReg_regs, Function.update_self,
          reciprocal_eq hz]
        rfl
  case INEG_R =>
    refine ⟨_, rfl, (h.set_eq _ ?_).flag _⟩
    rw [BitVec.neg_eq_not_add, dstReg, h.regs]
    rfl
  case IROR_R =>
    have hrun : InstructionType.IROR_R = if false then .IROL_R else .IROR_R := rfl
    rw [execute_rotation c ops false hrun]
    exact exec_rotation hm h false .IROR_R
  case IROL_R =>
    have hrun : InstructionType.IROL_R = if true then .IROL_R else .IROR_R := rfl
    rw [execute_rotation c ops true hrun]
    exact exec_rotation hm h true .IROL_R
  case ISWAP_R =>
    simp only [reg_ne_iff hm]
    split
    · exact ⟨_, rfl, (h.set_eq _ (h.regs _)).set_eq _ (h.regs _)⟩
    · exact ⟨m, rfl, h⟩
  case ISTORE =>
    obtain ⟨m₁, hexec, h₁, hoff⟩ := exec_address (.inl rfl) h (reg instr.dst) instr.imm32
      (if instr.getModCond < StoreL3Condition then c.AddressMask instr.getModMem
        else c.ScratchpadL3Mask)
    have hmask : (if instr.getModCond < StoreL3Condition then c.AddressMask instr.getModMem
        else c.ScratchpadL3Mask).toNat + 8 ≤ c.ScratchpadL3_Size.toNat := by
      split
      · exact AddressMask_toNat hc _
      · exact ScratchpadL3Mask_toNat hc
    have hl3 := hc.l3
    have hstore := h₁.store (by omega) (offset_lt
      (s.r (reg instr.dst) + signExtend2sCompl instr.imm32) hmask) (m₁.regs (srcReg instr))
    rw [BitVec.ofNat_toNat, BitVec.setWidth_eq, ← h₁.rsi, srcReg, h₁.regs] at hstore
    refine ⟨_, by rw [X86.execAll_append, dstReg, hexec, Option.bind_some, X86.execAll]; rfl, ?_⟩
    rw [atReg, X86.State.write, addr_atReg, srcReg, h₁.regs, hoff]
    exact hstore
  all_goals cases ht

/-! ## A compiled program -/

/-- The prologue has pushed the stored constants in their order: each stands in its slot. -/
def Pushed (P : Compilation) (m : X86.State) : Prop :=
  ∀ j < 16, m.read (slot j) =
    BitVec.ofNat 64 (readLE (slice P.code (P.start.imul_rcp_storage + 11 * j) 8))

theorem assembly_jumps (c : Configuration) (cpu : Cpu) (type : InstructionType)
    (instr : Instruction) (used : Nat) : ∀ i ∈ assembly c cpu type instr used, i.jumps = false := by
  cases type <;>
    simp only [assembly, operandCode, address, high, highBMI2, JitAssembly.rotation] <;>
    (repeat' split) <;> simp [X86.Instr.jumps]

/-- The processor before an instruction: its registers and the scratchpad are those of the
machine, and the constants are on the stack. -/
structure Before (P : Compilation) (k : Nat) (s : Native V) (m : X86.State) : Prop where
  rip : m.rip = P.pos k
  regs : ∀ r, m.regs (native r) = s.r r
  scratchpad : ∀ a < P.c.ScratchpadL3_Size.toNat,
    m.mem (m.regs X86.rsi + BitVec.ofNat 64 a) = s.scratchpad a
  pushed : Pushed P m

theorem Before.simulates {P : Compilation} {k : Nat} (h : Before P k s m) :
    Simulates P.c.ScratchpadL3_Size.toNat m s m :=
  ⟨h.regs, h.scratchpad, fun _ _ _ => rfl, fun _ _ => rfl⟩

variable {P : Compilation} {k : Nat} {type : InstructionType}

theorem run_integer (ops : FloatOps V) (hc : Sized P.c) (h : P.At k type instr)
    (ht : isInteger type) (hb : Before P k s m) :
    ∃ m', X86.Runs P.code m m' ∧ m'.rip = P.pos (k + 1) ∧
      Simulates P.c.ScratchpadL3_Size.toNat m
        (executeInstruction P.c ops (compile P.c type instr k (P.usage k)).1 k s).2 m' := by
  have hne : type ≠ .CFROUND := by
    rintro rfl
    cases ht
  have hslot : type = .IMUL_RCP → ¬ isZeroOrPowerOf2 (instr.imm32.setWidth 64) →
      (P.state k).imul_rcp_storage_used < 16 →
      m.read (slot (P.state k).imul_rcp_storage_used) =
        randomx_reciprocal (instr.imm32.setWidth 64) := by
    rintro rfl hz hu
    have hpow : 256 ^ 8 = 2 ^ 64 := rfl
    rw [hb.pushed _ hu, Compilation.slot_code h hz hu, readLE_le, hpow,
      Nat.mod_eq_of_lt (BitVec.isLt _), BitVec.ofNat_toNat, BitVec.setWidth_eq, reciprocal_eq hz]
  obtain ⟨m', hexec, h'⟩ := exec_assembly ops hc ht h.masked hb.simulates hslot k (P.usage k) k
  have hcode := Compilation.drop_code h hne
  rw [← hb.rip] at hcode
  have hblock : X86.Encodes h.block.code
      (assembly P.c P.cpu type instr (P.state k).imul_rcp_storage_used) :=
    encodes_block ht h.masked (P.state k)
  have hruns := hblock.runs (assembly_jumps _ _ _ _ _) hcode hexec
  refine ⟨_, hruns, ?_, ⟨h'.regs, h'.scratchpad, h'.others, h'.memory⟩⟩
  rw [hb.rip, Compilation.pos_succ h, ← h.length_code]

theorem run_flt (h : P.At k type instr)
    (ht : type = .FADD_M ∨ type = .FSUB_M ∨ type = .FDIV_M) (hb : Before P k s m) :
    ∃ m' rest, X86.Runs P.code m m' ∧
      X86.decode (P.code.drop m'.rip) = some (.cvtdq2pd 12 cvt, rest) ∧
      m'.addr cvt = m.regs X86.rsi + BitVec.ofNat 64
        (getScratchpadAddress (compile P.c type instr k (P.usage k)).1 s) ∧
      Simulates P.c.ScratchpadL3_Size.toNat m s m' := by
  have hne : type ≠ .CFROUND := by
    rcases ht with rfl | rfl | rfl <;> nofun
  obtain ⟨pre, post, hblock, hpre⟩ : ∃ pre post,
      h.block.code = pre ++ ([0xF3, 0x44, 0x0F, 0xE6, 0x24, 0x06] ++ post) ∧ X86.Encodes pre
        (address X86.rax (srcReg instr) instr.imm32 (P.c.AddressMask instr.getModMem)) :=
    encodes_blockFlt ht h.masked.2 (P.state k)
  obtain ⟨m', hexec, h', hoff⟩ := exec_address (.inl rfl) hb.simulates (reg instr.src) instr.imm32
    (P.c.AddressMask instr.getModMem)
  have hdrop := Compilation.drop_code h hne
  rw [hblock, List.append_assoc, ← hb.rip] at hdrop
  have hruns := hpre.runs (by simp [address, X86.Instr.jumps]) hdrop hexec
  have hnext : P.code.drop (m.rip + pre.length) = [0xF3, 0x44, 0x0F, 0xE6, 0x24, 0x06] ++
      (post ++ P.code.drop (P.pos (k + 1))) := by
    rw [X86.drop_add hdrop, List.append_assoc]
  refine ⟨_, _, hruns, congrArg X86.decode hnext, ?_,
    ⟨h'.regs, h'.scratchpad, h'.others, h'.memory⟩⟩
  have haddr : (compile P.c type instr k (P.usage k)).1 =
      memoryFlt P.c type (compile P.c type instr k (P.usage k)).1.fdst (reg instr.src) instr := by
    rcases ht with rfl | rfl | rfl <;> rfl
  have hsum := addr_atReg (t := X86.rax) { m' with rip := m.rip + pre.length }
  rw [haddr, getScratchpadAddress, BitVec.ofNat_toNat, BitVec.setWidth_eq]
  refine hsum.trans ?_
  dsimp only
  rw [h'.rsi, hoff]
  rfl

/-- **Integer instructions and memory operands**: for any program, compiled for any
processor. The code of an integer instruction or a store does to the registers and the
scratchpad what its bytecode does, and nothing else; what a floating-point instruction reads
in memory is where its bytecode reads it; and a constant that is stored is the reciprocal of
the instruction's own immediate. -/
theorem jit_integer (P : Compilation) (hc : Sized P.c) (ops : FloatOps V) {k : Nat}
    {type : InstructionType} {instr : Instruction} (h : P.At k type instr) {s : Native V}
    {m : X86.State} (hb : Before P k s m) :
    (isInteger type → ∃ m', X86.Runs P.code m m' ∧ m'.rip = P.pos (k + 1) ∧
      Simulates P.c.ScratchpadL3_Size.toNat m
        (executeInstruction P.c ops (compile P.c type instr k (P.usage k)).1 k s).2 m') ∧
    (type = .FADD_M ∨ type = .FSUB_M ∨ type = .FDIV_M → ∃ m' rest, X86.Runs P.code m m' ∧
      X86.decode (P.code.drop m'.rip) = some (.cvtdq2pd 12 cvt, rest) ∧
      m'.addr cvt = m.regs X86.rsi + BitVec.ofNat 64
        (getScratchpadAddress (compile P.c type instr k (P.usage k)).1 s) ∧
      Simulates P.c.ScratchpadL3_Size.toNat m s m') ∧
    (type = .IMUL_RCP → ¬ isZeroOrPowerOf2 (instr.imm32.setWidth 64) →
      (P.state k).imul_rcp_storage_used < 16 →
      slice P.code (P.start.imul_rcp_storage + 11 * (P.state k).imul_rcp_storage_used) 8 =
        le 8 (randomx_reciprocal (instr.imm32.setWidth 64)).toNat) := by
  refine ⟨fun ht => run_integer ops hc h ht hb, fun ht => run_flt h ht hb, ?_⟩
  rintro rfl hz hu
  rw [Compilation.slot_code h hz hu, reciprocal_eq hz]

/-- A program of one reciprocal: of three. -/
def reciprocal : Compilation where
  c := .base
  cpu := ⟨true, false, true, true⟩
  program := [⟨0x4C, 1, 2, 0, 3⟩]
  start := prepare (List.replicate 16560 0) 176 0
  codePosFirst := 176
  complete := Configuration.base_complete
  size_le := by decide
  masked := by simp
  prepared := prepared_prepare (by omega) (by rw [List.length_replicate])

/-- All is zero but the stack pointer, and the constant below it. -/
def pushedState : X86.State where
  rip := 176
  regs r := if r = X86.rsp then 2 ^ 40 else 0
  mem := X86.store64 (fun _ => 0) (2 ^ 40 - 8) (randomx_reciprocal 3)

theorem before_reciprocal (s : Native V) (hr : s.r = fun _ => 0)
    (hs : s.scratchpad = fun a => pushedState.mem (BitVec.ofNat 64 a)) :
    Before reciprocal 0 s pushedState := by
  refine ⟨rfl, fun r => ?_, fun a _ => ?_, ?_⟩
  · rw [hr]
    revert r
    decide
  · rw [hs]
    exact congrArg pushedState.mem (BitVec.zero_add _)
  · have hslots : ∀ j < 16, pushedState.read (slot j) =
        BitVec.ofNat 64 (readLE (slice reciprocal.code (11 * j) 8)) := by
      decide +kernel
    intro j hj
    rw [hslots j hj]
    congr 3
    exact (Nat.zero_add _).symm

/-- The machine of `pushedState`, its registers zero and its floats of no interest. -/
def zeroMachine : Native Unit :=
  ⟨fun _ => 0, fun _ => (), fun _ => (), fun _ => (),
    fun a => pushedState.mem (BitVec.ofNat 64 a), 0⟩

theorem jit_integer_reciprocal : ∃ m', X86.Runs reciprocal.code pushedState m' ∧
    m'.rip = reciprocal.pos 1 ∧
    Simulates reciprocal.c.ScratchpadL3_Size.toNat pushedState
      (executeInstruction reciprocal.c ⟨fun _ _ _ => (), fun _ _ _ => (), fun _ _ _ => (),
        fun _ _ _ => (), fun _ _ => (), fun _ => (), fun _ => (), fun _ => (), fun _ => ()⟩
        (compile reciprocal.c .IMUL_RCP ⟨0x4C, 1, 2, 0, 3⟩ 0 (reciprocal.usage 0)).1 0
        zeroMachine).2 m' :=
  (jit_integer reciprocal (sized_repository _ List.mem_cons_self) _ ⟨rfl, by decide⟩
    (before_reciprocal zeroMachine rfl rfl)).1 rfl

end L2.JitInteger

end Rxs
