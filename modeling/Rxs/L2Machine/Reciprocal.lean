import Mathlib.Order.Bounds.Basic
import Rxs.L2Machine.SuperscalarLanes

/-!
# Reciprocals

A product with a reciprocal takes `2 ^ x / divisor` for the highest `x` that leaves it
a word. It is computed three times over: by a loop over the bits of the quotient, by a
division of the remainder that is shifted by the leading zeros, and by one division of
128 bits.

* `bsr_eq`: the loop that counts the bits of the divisor.
* `isGreatest_exponent`: the highest exponent.
* `portable_eq`, `assembly_eq`: the other two computations.
* **`reciprocals`**: one constant, everywhere.
-/
namespace Rxs

open Rxs.Core Rxs.RandomX Rxs.RandomX.BytecodeMachine Rxs.RandomX.JitCompilerX86
open Rxs.RandomX.Superscalar Rxs.L2.JitControl Rxs.Core.Avx2 Rxs.L2.SuperscalarAssembly
open Rxs.L2.SuperscalarLanes Rxs.L2.JitInteger

namespace L2.Reciprocal

/-! ## The computations -/

/-- The first loop.
mirrors src/crypto/randomx/reciprocal.c:57-60 -/
def bsr (bit : BitVec 64) (n : Nat) : Nat :=
  if bit = 0 then n else bsr (bit >>> 1) (n + 1)
termination_by bit.toNat
decreasing_by
  rename_i h
  have hpos : bit.toNat ≠ 0 := fun h0 => h (BitVec.eq_of_toNat_eq h0)
  rw [BitVec.toNat_ushiftRight, Nat.shiftRight_eq_div_pow]
  omega

/-- Both loops.
mirrors src/crypto/randomx/reciprocal.c:47-74 -/
def Loops.randomx_reciprocal (divisor : BitVec 64) : BitVec 64 :=
  let p2exp63 : BitVec 64 := 1 <<< 63
  reciprocalLoop divisor (bsr divisor 0) (p2exp63 / divisor) (p2exp63 % divisor)

/-- Where the assembly is not used.
mirrors src/crypto/randomx/reciprocal.c:79-87 -/
def Portable.randomx_reciprocal_fast (divisor : BitVec 64) : BitVec 64 :=
  let q := (1 <<< 63 : BitVec 64) / divisor
  let r := (1 <<< 63 : BitVec 64) % divisor
  let shift := 64 - divisor.clz
  (q <<< shift) + ((r <<< shift) / divisor)

/-- The source is zero: the result is not defined. -/
def bsrq (src : BitVec 64) : Option (BitVec 64) :=
  if src = 0 then none else some (BitVec.ofNat 64 src.toNat.log2)

def shlq (dst cl : BitVec 64) : BitVec 64 := dst <<< (cl.toNat % 64)

/-- A quotient that is no word raises an exception. -/
def divq (rdx rax src : BitVec 64) : Option (BitVec 64) :=
  let dividend := rdx.toNat * 2 ^ 64 + rax.toNat
  if src = 0 ∨ 2 ^ 64 ≤ dividend / src.toNat then none
  else some (BitVec.ofNat 64 (dividend / src.toNat))

/-- mirrors src/crypto/randomx/asm/randomx_reciprocal.inc:1-7 -/
def Assembly.randomx_reciprocal_fast (rcx : BitVec 64) : Option (BitVec 64) := do
  let rdx : BitVec 64 := 1
  let r8 := rcx
  let rax : BitVec 64 := 0
  let rcx ← bsrq rcx
  let rdx := shlq rdx rcx
  divq rdx rax r8

/-! ## Exponents -/

theorem bsr_eq (bit : BitVec 64) (n : Nat) (h : bit ≠ 0) :
    bsr bit n = n + (bit.toNat.log2 + 1) := by
  induction hk : bit.toNat using Nat.strong_induction_on generalizing bit n with
  | _ k ih =>
    have hpos : bit.toNat ≠ 0 := fun h0 => h (BitVec.eq_of_toNat_eq h0)
    have hshift : (bit >>> 1).toNat = k / 2 := by
      rw [BitVec.toNat_ushiftRight, Nat.shiftRight_eq_div_pow, hk]
    rw [bsr, if_neg h]
    by_cases h0 : bit >>> 1 = 0
    · have hk1 : k = 1 := by
        have := congrArg BitVec.toNat h0
        rw [hshift] at this
        have : k / 2 = 0 := this
        omega
      rw [bsr, if_pos h0, hk1]
      rfl
    · have hk2 : k / 2 ≠ 0 := fun hz => h0 (BitVec.eq_of_toNat_eq (hshift.trans hz))
      rw [ih (k / 2) (by omega) _ _ h0 hshift, Nat.log2_def k, if_pos (by omega)]
      omega

theorem loops_eq {divisor : BitVec 64} (h : divisor ≠ 0) :
    Loops.randomx_reciprocal divisor = randomx_reciprocal divisor := by
  unfold Loops.randomx_reciprocal randomx_reciprocal
  rw [bsr_eq divisor 0 h, Nat.zero_add]

/-- A number that is no power of two is between two of them. -/
theorem log2_lt {d : Nat} (h0 : d ≠ 0) (h : ∀ k, d ≠ 2 ^ k) :
    2 ^ d.log2 < d ∧ d < 2 ^ (d.log2 + 1) :=
  ⟨Nat.lt_of_le_of_ne (Nat.log2_self_le h0) fun he => h _ he.symm, Nat.lt_log2_self⟩

theorem isGreatest_exponent {d : Nat} (h0 : d ≠ 0) (h : ∀ k, d ≠ 2 ^ k) :
    IsGreatest {x | 2 ^ x / d < 2 ^ 64} (64 + d.log2) := by
  obtain ⟨hlo, hhi⟩ := log2_lt h0 h
  have hpos := Nat.pos_of_ne_zero h0
  constructor
  · show 2 ^ (64 + d.log2) / d < 2 ^ 64
    rw [Nat.div_lt_iff_lt_mul hpos, Nat.pow_add]
    exact Nat.mul_lt_mul_of_pos_left hlo (Nat.two_pow_pos 64)
  · intro x hx
    have hx : 2 ^ x < 2 ^ 64 * d := (Nat.div_lt_iff_lt_mul hpos).mp hx
    have hlt : 2 ^ x < 2 ^ (64 + (d.log2 + 1)) := by
      rw [Nat.pow_add]
      exact hx.trans (Nat.mul_lt_mul_of_pos_left hhi (Nat.two_pow_pos 64))
    have := (Nat.pow_lt_pow_iff_right (by decide)).mp hlt
    omega

/-- A quotient of a power of two, in two steps. -/
theorem div_pow_add (d n k : Nat) (hd : 0 < d) :
    2 ^ (n + k) / d = 2 ^ n / d * 2 ^ k + 2 ^ n % d * 2 ^ k / d := by
  have hsplit : 2 ^ (n + k) = 2 ^ n % d * 2 ^ k + d * (2 ^ n / d * 2 ^ k) := by
    rw [Nat.pow_add]
    nth_rewrite 1 [← Nat.div_add_mod (2 ^ n) d]
    rw [Nat.add_mul, Nat.mul_assoc, Nat.add_comm]
  rw [hsplit, Nat.add_mul_div_left _ _ hd, Nat.add_comm]

theorem clz_eq {divisor : BitVec 64} (h : divisor ≠ 0) :
    64 - divisor.clz = BitVec.ofNat 64 (divisor.toNat.log2 + 1) := by
  have h0 : divisor.toNat ≠ 0 := fun h0 => h (BitVec.eq_of_toNat_eq h0)
  have hle := BitVec.clz_le (x := divisor)
  have hlt : divisor.clz.toNat < 64 := by
    have := (BitVec.clz_lt_iff_ne_zero (x := divisor)).mpr h
    exact BitVec.lt_def.mp this
  have h₁ : 63 - divisor.clz.toNat ≤ divisor.toNat.log2 := by
    refine (Nat.le_log2 h0).mpr ?_
    exact BitVec.two_pow_sub_clz_le_toNat_of_ne_zero (by decide) h
  have h₂ : divisor.toNat.log2 < 64 - divisor.clz.toNat :=
    (Nat.log2_lt h0).mpr BitVec.toNat_lt_two_pow_sub_clz
  apply BitVec.eq_of_toNat_eq
  have h64 : (64 : BitVec 64).toNat = 64 := rfl
  rw [BitVec.toNat_sub, h64, BitVec.toNat_ofNat]
  omega

/-! ## The three results -/

theorem toNat_imm (imm : BitVec 32) : (imm.setWidth 64 : BitVec 64).toNat = imm.toNat := by
  rw [BitVec.toNat_setWidth]
  omega

/-- A divisor of 32 bits that has a reciprocal. -/
structure Divides (divisor : BitVec 64) : Prop where
  lt : divisor.toNat < 2 ^ 32
  ne_zero : divisor.toNat ≠ 0
  ne_pow : ∀ k, divisor.toNat ≠ 2 ^ k

namespace Divides

variable {divisor : BitVec 64}

theorem ne (h : Divides divisor) : divisor ≠ 0 := fun h0 => h.ne_zero (h0 ▸ rfl)

theorem log2_lt (h : Divides divisor) : divisor.toNat.log2 < 32 := (Nat.log2_lt h.ne_zero).mpr h.lt

theorem of_imm {imm : BitVec 32} (h0 : imm ≠ 0) (h : ∀ k, imm.toNat ≠ 2 ^ k) :
    Divides (imm.setWidth 64) := by
  have hnat := toNat_imm imm
  refine ⟨?_, ?_, ?_⟩
  · rw [hnat]
    exact imm.isLt
  · rw [hnat]
    exact fun hz => h0 (BitVec.eq_of_toNat_eq hz)
  · rw [hnat]
    exact h

/-- The test of the compilers. -/
theorem not_isZeroOrPowerOf2 (h : Divides divisor) : ¬ isZeroOrPowerOf2 divisor := by
  intro hz
  have hand := congrArg BitVec.toNat (of_decide_eq_true hz)
  have hone : (1 : BitVec 64).toNat = 1 := rfl
  have hpos := Nat.pos_of_ne_zero h.ne_zero
  have hsub : (divisor - 1).toNat = divisor.toNat - 1 := by
    rw [BitVec.toNat_sub, hone]
    omega
  rw [BitVec.toNat_and, hsub] at hand
  obtain ⟨k, hk⟩ := (Nat.and_sub_one_eq_zero_iff_isPowerOfTwo h.ne_zero).mp hand
  exact h.ne_pow k hk

end Divides

/-- The constant. -/
def constant (divisor : Nat) : BitVec 64 := BitVec.ofNat 64 (2 ^ (64 + divisor.log2) / divisor)

theorem toNat_constant {d : Nat} (h0 : d ≠ 0) (h : ∀ k, d ≠ 2 ^ k) :
    (constant d).toNat = 2 ^ (64 + d.log2) / d := by
  have hlt : 2 ^ (64 + d.log2) / d < 2 ^ 64 := (isGreatest_exponent h0 h).1
  rw [constant, BitVec.toNat_ofNat, Nat.mod_eq_of_lt hlt]

variable {divisor : BitVec 64}

theorem fast_eq (divisor : BitVec 64) :
    randomx_reciprocal_fast divisor = constant divisor.toNat := by
  rw [randomx_reciprocal_fast, constant, Nat.pow_add, Nat.mul_comm]

theorem reciprocal_constant (h : Divides divisor) :
    randomx_reciprocal divisor = constant divisor.toNat := by
  have hlt := h.lt
  rw [← randomx_reciprocal_fast_eq (Nat.pos_of_ne_zero h.ne_zero) (by omega), fast_eq]

/-- The quotient and the remainder of `2 ^ 63` both have room for the shift. -/
theorem portable_eq (h : Divides divisor) :
    Portable.randomx_reciprocal_fast divisor = constant divisor.toNat := by
  have hpos := Nat.pos_of_ne_zero h.ne_zero
  have hlog := h.log2_lt
  have hp : (1 <<< 63 : BitVec 64).toNat = 2 ^ 63 := rfl
  have hs : (BitVec.ofNat 64 (divisor.toNat.log2 + 1)).toNat = divisor.toNat.log2 + 1 := by
    rw [BitVec.toNat_ofNat]
    omega
  have hr : (2 ^ 63 % divisor.toNat) * 2 ^ (divisor.toNat.log2 + 1) < 2 ^ 64 := by
    have h₁ : 2 ^ 63 % divisor.toNat < 2 ^ 32 := (Nat.mod_lt _ hpos).trans h.lt
    have h₂ : 2 ^ (divisor.toNat.log2 + 1) ≤ 2 ^ 32 := Nat.pow_le_pow_right (by decide) hlog
    calc _ < 2 ^ 32 * 2 ^ (divisor.toNat.log2 + 1) :=
          Nat.mul_lt_mul_of_pos_right h₁ (Nat.two_pow_pos _)
      _ ≤ 2 ^ 32 * 2 ^ 32 := Nat.mul_le_mul_left _ h₂
  have hrest : (((1 <<< 63 : BitVec 64) % divisor) <<< (BitVec.ofNat 64
      (divisor.toNat.log2 + 1))).toNat =
      (2 ^ 63 % divisor.toNat) * 2 ^ (divisor.toNat.log2 + 1) := by
    rw [BitVec.shiftLeft_eq', BitVec.toNat_shiftLeft, BitVec.toNat_umod, hp, hs,
      Nat.shiftLeft_eq, Nat.mod_eq_of_lt hr]
  have hexp : 64 + divisor.toNat.log2 = 63 + (divisor.toNat.log2 + 1) := by omega
  apply BitVec.eq_of_toNat_eq
  unfold Portable.randomx_reciprocal_fast
  dsimp only
  rw [clz_eq h.ne, BitVec.toNat_add, BitVec.toNat_udiv, hrest, BitVec.shiftLeft_eq',
    BitVec.toNat_shiftLeft, BitVec.toNat_udiv, hp, hs, Nat.shiftLeft_eq, Nat.mod_add_mod,
    ← div_pow_add _ _ _ hpos, constant, BitVec.toNat_ofNat, hexp]

/-- The division does not overflow. -/
theorem assembly_eq (h : Divides divisor) :
    Assembly.randomx_reciprocal_fast divisor = some (constant divisor.toNat) := by
  have hlog := h.log2_lt
  have hcl : (BitVec.ofNat 64 divisor.toNat.log2).toNat % 64 = divisor.toNat.log2 := by
    rw [BitVec.toNat_ofNat]
    omega
  have hone : (1 : BitVec 64).toNat = 1 := rfl
  have hzero : (0 : BitVec 64).toNat = 0 := rfl
  have hrdx : (shlq 1 (BitVec.ofNat 64 divisor.toNat.log2)).toNat = 2 ^ divisor.toNat.log2 := by
    have hlt : 2 ^ divisor.toNat.log2 < 2 ^ 64 := Nat.pow_lt_pow_right (by decide) (by omega)
    rw [shlq, hcl, BitVec.toNat_shiftLeft, hone, Nat.shiftLeft_eq, Nat.one_mul,
      Nat.mod_eq_of_lt hlt]
  have hexp : 2 ^ divisor.toNat.log2 * 2 ^ 64 = 2 ^ (64 + divisor.toNat.log2) := by
    rw [Nat.pow_add, Nat.mul_comm]
  have hlt : 2 ^ (64 + divisor.toNat.log2) / divisor.toNat < 2 ^ 64 :=
    (isGreatest_exponent h.ne_zero h.ne_pow).1
  unfold Assembly.randomx_reciprocal_fast bsrq
  rw [if_neg h.ne]
  show divq (shlq 1 (BitVec.ofNat 64 divisor.toNat.log2)) 0 divisor = _
  unfold divq
  rw [hrdx, hzero, Nat.add_zero, hexp]
  dsimp only
  rw [if_neg (not_or.mpr ⟨h.ne, Nat.not_le.mpr hlt⟩)]
  rfl

/-! ## The instructions -/

/-- The bytecode multiplies with it. -/
theorem execute_reciprocal {instr : Instruction} (h : Divides (instr.imm32.setWidth 64))
    (c : Configuration) (ops : FloatOps V) (i : Nat) (usage : Usage) (pc : Int) (s : Native V) :
    executeInstruction c ops (compile c .IMUL_RCP instr i usage).1 pc s =
      (pc, s.setR (reg instr.dst)
        (s.r (reg instr.dst) * constant (instr.imm32.setWidth 64 : BitVec 64).toNat)) := by
  have hz := h.not_isZeroOrPowerOf2
  simp only [compile, if_pos hz]
  rw [← reciprocal_constant h]
  rfl

/-- The code on one register does. -/
theorem ints_reciprocal (instr : Instruction) (AVX2 : Bool) (m : X86.State) :
    ∃ m', X86.execAll (ints AVX2 .IMUL_RCP instr) m = some m' ∧
      m'.regs (native (reg instr.dst)) = m.regs (native (reg instr.dst)) *
        constant (instr.imm32.setWidth 64 : BitVec 64).toNat := by
  have hne : native (reg instr.dst) ≠ X86.rax := Temporary.ne_native (.inl rfl) _
  refine ⟨_, rfl, ?_⟩
  rw [← fast_eq]
  simp [X86.State.read, hne]

/-- So does the code on a lane of a vector. -/
theorem lanes_reciprocal (instr : Instruction) (R : X86.Reg → BitVec 64) :
    (lanes .IMUL_RCP instr).foldl LaneInstr.exec R (lane (reg instr.dst)) =
      R (lane (reg instr.dst)) * constant (instr.imm32.setWidth 64 : BitVec 64).toNat := by
  have hlanes : lanes .IMUL_RCP instr =
      .broadcast 12 (randomx_reciprocal_fast (instr.imm32.setWidth 64)) ::
        productCode (lane (reg instr.dst)) 12 := rfl
  rw [hlanes, List.foldl_cons, exec_product _ (.inl rfl), fast_eq]
  simp [LaneInstr.exec]

/-- So does the code of a program, wherever the constant is. -/
theorem run_reciprocal {P : Compilation} {k : Nat} {instr : Instruction} {s : Native V}
    {m : X86.State} (hd : Divides (instr.imm32.setWidth 64)) (ops : FloatOps V) (hc : Sized P.c)
    (h : P.At k .IMUL_RCP instr) (hb : Before P k s m) :
    ∃ m', X86.Runs P.code m m' ∧ m'.rip = P.pos (k + 1) ∧
      m'.regs (native (reg instr.dst)) = m.regs (native (reg instr.dst)) *
        constant (instr.imm32.setWidth 64 : BitVec 64).toNat := by
  obtain ⟨m', hr, hrip, hs⟩ := run_integer ops hc h rfl hb
  refine ⟨m', hr, hrip, ?_⟩
  rw [hs.regs, hb.regs, execute_reciprocal hd]
  exact Function.update_self ..

/-- **One constant**: whatever computes it, and wherever it is multiplied with. -/
theorem reciprocals (instr : Instruction) (h0 : instr.imm32 ≠ 0)
    (h : ∀ k, instr.imm32.toNat ≠ 2 ^ k) :
    ∃ (x : Nat) (rcp : BitVec 64),
      IsGreatest {x | 2 ^ x / instr.imm32.toNat < 2 ^ 64} x ∧
      rcp.toNat = 2 ^ x / instr.imm32.toNat ∧
      Loops.randomx_reciprocal (instr.imm32.setWidth 64) = rcp ∧
      Portable.randomx_reciprocal_fast (instr.imm32.setWidth 64) = rcp ∧
      Assembly.randomx_reciprocal_fast (instr.imm32.setWidth 64) = some rcp ∧
      (∀ {V : Type} (c : Configuration) (ops : FloatOps V) (i : Nat) (usage : Usage) (pc : Int)
        (s : Native V), executeInstruction c ops (compile c .IMUL_RCP instr i usage).1 pc s =
          (pc, s.setR (reg instr.dst) (s.r (reg instr.dst) * rcp))) ∧
      (∀ dst src, result .IMUL_RCP instr dst src = dst * rcp) ∧
      (∀ (AVX2 : Bool) (m : X86.State), ∃ m', X86.execAll (ints AVX2 .IMUL_RCP instr) m = some m' ∧
        m'.regs (native (reg instr.dst)) = m.regs (native (reg instr.dst)) * rcp) ∧
      (∀ R, (lanes .IMUL_RCP instr).foldl LaneInstr.exec R (lane (reg instr.dst)) =
        R (lane (reg instr.dst)) * rcp) ∧
      (∀ {V : Type} (_ : FloatOps V) (P : Compilation) (k : Nat) (s : Native V) (m : X86.State),
        Sized P.c → P.At k .IMUL_RCP instr → Before P k s m →
          ∃ m', X86.Runs P.code m m' ∧ m'.rip = P.pos (k + 1) ∧
            m'.regs (native (reg instr.dst)) = m.regs (native (reg instr.dst)) * rcp) := by
  have hd := Divides.of_imm h0 h
  have hnat := toNat_imm instr.imm32
  refine ⟨64 + instr.imm32.toNat.log2, constant (instr.imm32.setWidth 64 : BitVec 64).toNat,
    ?_, ?_, ?_, portable_eq hd, assembly_eq hd, execute_reciprocal hd, ?_, ints_reciprocal instr,
    lanes_reciprocal instr, ?_⟩
  · exact isGreatest_exponent (hnat ▸ hd.ne_zero) h
  · rw [hnat]
    exact toNat_constant (hnat ▸ hd.ne_zero) h
  · rw [loops_eq hd.ne, reciprocal_constant hd]
  · intro dst src
    rw [← reciprocal_constant hd]
    rfl
  · intro V ops P k s m hc hat hb
    exact run_reciprocal hd ops hc hat hb

/-- A third. -/
theorem reciprocals_three : ∃ (x : Nat) (rcp : BitVec 64),
    IsGreatest {x | 2 ^ x / 3 < 2 ^ 64} x ∧ rcp.toNat = 2 ^ x / 3 ∧
      Portable.randomx_reciprocal_fast 3 = rcp := by
  have hne (k : Nat) : (3 : BitVec 32).toNat ≠ 2 ^ k := by
    match k with
    | 0 | 1 => decide
    | k + 2 =>
      have := Nat.two_pow_pos k
      have h3 : (3 : BitVec 32).toNat = 3 := rfl
      rw [h3, Nat.pow_add]
      omega
  obtain ⟨x, rcp, hx, hr, -, hp, -⟩ := reciprocals ⟨0x4C, 1, 2, 0, 3⟩ (by decide) hne
  exact ⟨x, rcp, hx, hr, hp⟩

end L2.Reciprocal
end Rxs
