import Mathlib.Data.BitVec
import Mathlib.Data.List.OfFn
import Rxs.L2Machine.SuperscalarHash

/-!
# The dataset initialiser

`generateSuperscalarHash` and `generateDatasetInitCode` write the code that initialises a
range of items, one item a pass or, with AVX2, five. `Passed` is what a pass does, and
`Loop` what the passes have done so far. `dataset_init`: when the code returns, every item
of the range is the one of `initDatasetItem`, and nothing but the stack has changed besides.
-/
namespace Rxs.RandomX.JitCompilerX86

open Rxs.Core Rxs.Core.Bytes Rxs.RandomX.Superscalar Rxs.RandomX.JitStatic

/-- mirrors src/crypto/randomx/jit_compiler_x86.hpp:48 -/
def CodeSize : Nat := 64 * 1024

/-- mirrors src/crypto/randomx/jit_compiler_x86.cpp:163 -/
def superScalarHashOffset : Nat := 32768

/-- mirrors src/crypto/randomx/jit_compiler_x86.cpp:376-429 -/
def generateSuperscalarHash (initDatasetAVX2 : Bool)
    (programs : Fin CacheAccesses → SuperscalarProgram) (code : Bytes) : Option Bytes := do
  let hash ← programsCode initDatasetAVX2 (List.ofFn programs)
  if initDatasetAVX2 then
    let loop := randomx_dataset_init_avx2_prologue ++ (hash ++ randomx_dataset_init_avx2_loop_end)
    -- the distance to `loop_begin`
    let loop := loop.writeAt (loop.length - 4) (le 4 (BitVec.ofInt 32 (320 - loop.length)).toNat)
    return code.writeAt 0 (loop ++ randomx_dataset_init_avx2_epilogue)
  else
    return code.writeAt superScalarHashOffset (randomx_sshash_init ++ (hash ++ [0xC3]))

/-- mirrors src/crypto/randomx/jit_compiler_x86.cpp:434-439 -/
def generateDatasetInitCode (initDatasetAVX2 : Bool) (code : Bytes) : Bytes :=
  if initDatasetAVX2 then code else code.writeAt 0 dataset_init

end Rxs.RandomX.JitCompilerX86

namespace Rxs

open Rxs.Core Rxs.RandomX Rxs.RandomX.BytecodeMachine Rxs.RandomX.JitStatic
open Rxs.RandomX.Superscalar Rxs.RandomX.JitCompilerX86
open Rxs.L2.JitControl Rxs.L2.SuperscalarAssembly Rxs.L2.SuperscalarLanes
open Rxs.L2.DatasetFragments Rxs.L2.DatasetLanes Rxs.L2.SuperscalarHash
open Rxs.Core.X86 (rax rcx rdx rsp rsi load64 store64 slot storeWords Within Frame)
open Rxs.Core.Avx2 (Instr Data Does Encodes Disassembles Leads Listing Runs fetch fetch_eq)

namespace L2.DatasetInit

/-- How the code uses the stack, in words from the lowest: where `rsp` is in the loop, the
number that the loop ends at, and the return address. -/
structure Layout where
  /-- The items of a pass. -/
  width : Nat
  sp : Nat
  bound : Nat
  depth : Nat
  width_pos : 0 < width
  bound_lt : bound < depth
  depth_le : depth ≤ 51

def layout (AVX2 : Bool) : Layout :=
  if AVX2 then ⟨5, 5, 10, 51, by decide, by decide, by decide⟩
  else ⟨1, 1, 1, 8, by decide, by decide, by decide⟩

/-- What the code is called with; `lo` is the lowest word of the stack that it uses. -/
structure Call where
  mem : BitVec 64 → BitVec 8
  cache : BitVec 64
  out : BitVec 64
  start : BitVec 64
  stop : BitVec 64
  lo : BitVec 64

/-- `cache->memory`. -/
def Call.memory (c : Call) : BitVec 64 := load64 c.mem c.cache

/-- The arguments, in their registers. -/
def Call.of (L : Layout) (d : Data) : Call :=
  ⟨d.mem, d.regs rdi, d.regs rsi, d.regs rdx, d.regs rcx,
    d.regs rsp - BitVec.ofNat 64 (8 * L.depth)⟩

/-- Nothing is in the place of something else. -/
structure Room (L : Layout) (c : Call) (n : Nat) : Prop where
  range : c.start.toNat + n = c.stop.toNat
  size : 64 * n ≤ 2 ^ 64
  pointer : X86.Bytes8 (fun a => ¬ Within c.lo (8 * L.depth) a) c.cache
  lines : ∀ a, Within c.memory (cacheLines * CacheLineSize) a →
    ¬ Within c.lo (8 * L.depth) a ∧ ¬ Within c.out (64 * n) a
  out : ∀ a, Within c.out (64 * n) a → ¬ Within c.lo (8 * (L.depth + 1)) a

/-- Where the code writes. -/
def Writes (L : Layout) (c : Call) (n : Nat) (a : BitVec 64) : Prop :=
  Within c.lo (8 * L.depth) a ∨ Within c.out (64 * n) a

theorem line_within (memory v : BitVec 64) (q : Reg) :
    X86.Bytes8 (Within memory (cacheLines * CacheLineSize)) (slot (getMixBlock memory v) q) := by
  intro i hi
  have hlines : (v &&& BitVec.ofNat 64 (cacheLines - 1)).toNat < 2 ^ 22 := by
    have hle : (v &&& BitVec.ofNat 64 (cacheLines - 1)).toNat ≤
        (BitVec.ofNat 64 (cacheLines - 1)).toNat := by
      rw [BitVec.toNat_and]
      exact Nat.and_le_right
    exact Nat.lt_of_le_of_lt hle (by decide)
  rw [getMixBlock]
  generalize v &&& BitVec.ofNat 64 (cacheLines - 1) = x at hlines
  have hsize : cacheLines * CacheLineSize = 2 ^ 28 := by decide
  have hline : BitVec.ofNat 64 CacheLineSize = 64#64 := rfl
  have hq := q.isLt
  rw [Within, hsize, hline, slot]
  bv_omega

section

variable {L : Layout} {c : Call} {n : Nat} {programs : Fin CacheAccesses → SuperscalarProgram}

theorem Room.line (h : Room L c n) (v : BitVec 64) (q : Reg) :
    X86.Bytes8 (fun a => ¬ Writes L c n a) (slot (getMixBlock c.memory v) q) := fun i hi =>
  not_or.mpr (h.lines _ (line_within c.memory v q i hi))

/-- A word of the stack is not written with the items. -/
theorem Room.stack (h : Room L c n) {j : Nat} (hj : j ≤ L.depth) :
    X86.Bytes8 (fun a => ¬ Within c.out (64 * n) a) (slot c.lo j) := by
  intro i hi hout
  have hle := L.depth_le
  exact h.out _ hout (X86.within_slot (by omega) (by omega) i hi)

theorem Room.word (h : Room L c n) {j : Nat} (hj : 8 * j + 8 ≤ 64 * n) :
    X86.Bytes8 (fun a => ¬ Within c.lo (8 * L.depth) a) (slot c.out j) := by
  intro i hi hstack
  refine h.out _ (X86.within_slot hj h.size i hi) ?_
  rw [Within] at hstack ⊢
  omega

/-- What the passes have done so far. -/
structure Loop (L : Layout) (c : Call) (n : Nat) (programs : Fin CacheAccesses → SuperscalarProgram)
    (k : Nat) (d : Data) : Prop where
  rsp : d.regs rsp = slot c.lo L.sp
  rdi : d.regs rdi = c.memory
  rbp : d.regs rbp = c.start + BitVec.ofNat 64 (L.width * k)
  rsi : d.regs rsi = slot c.out (8 * (L.width * k))
  bound : load64 d.mem (slot c.lo L.bound) = c.stop
  frame : Frame (Writes L c n) c.mem d.mem
  items : ∀ j < L.width * k, ∀ r,
    initDatasetItem c.mem c.memory programs (c.start + BitVec.ofNat 64 j) = some r →
      ∀ q : Reg, load64 d.mem (slot c.out (8 * j + q.val)) = r q

/-- **A pass.** -/
structure Passed (L : Layout) (lo : BitVec 64) (programs : Fin CacheAccesses → SuperscalarProgram)
    (d d' : Data) : Prop where
  mem : ∃ m ws, Frame (Within lo (8 * L.bound)) d.mem m ∧ d'.mem = storeWords m (d.regs rsi) 0 ws ∧
    ws.length = 8 * L.width ∧ ∀ l < L.width, ∀ r,
      initDatasetItem d.mem (d.regs rdi) programs (d.regs rbp + BitVec.ofNat 64 l) = some r →
        ∀ q : Reg, ws[8 * l + q.val]? = some (r q)
  rsp : d'.regs rsp = d.regs rsp
  rdi : d'.regs rdi = d.regs rdi
  rbp : d'.regs rbp = d.regs rbp + BitVec.ofNat 64 L.width
  rsi : d'.regs rsi = d.regs rsi + BitVec.ofNat 64 (8 * (8 * L.width))

theorem storeWords_slot (m : BitVec 64 → BitVec 8) (a : BitVec 64) (i j : Nat)
    (ws : List (BitVec 64)) : storeWords m (slot a i) j ws = storeWords m a (i + j) ws := by
  induction ws generalizing m j with
  | nil => rfl
  | cons w ws ih => rw [storeWords, storeWords, ih, X86.slot_slot, Nat.add_assoc]

/-- **One more pass.** -/
theorem loop_pass (hroom : Room L c n) {k : Nat} (hk : L.width * (k + 1) ≤ n) {d d' : Data}
    (h : Loop L c n programs k d) (hp : Passed L c.lo programs d d') :
    Loop L c n programs (k + 1) d' := by
  obtain ⟨m, ws, hframe, hmem, hlen, hwords⟩ := hp.mem
  have hle := L.depth_le
  have hlt := L.bound_lt
  have hsize := hroom.size
  rw [Nat.mul_add, Nat.mul_one] at hk
  rw [h.rsi, storeWords_slot, Nat.add_zero] at hmem
  have hout : Frame (Within c.out (64 * n)) m d'.mem := by
    rw [hmem]
    exact X86.frame_storeWords m c.out (by omega) hsize
  -- an item is the same, whatever has been written already
  have hitem (v : BitVec 64) : initDatasetItem d.mem (d.regs rdi) programs v =
      initDatasetItem c.mem c.memory programs v := by
    rw [h.rdi]
    exact mixFrom_congr (fun u q => h.frame.load64 (hroom.line u q)) _ _ _
  have hpast {j : Nat} (hj : 8 * j + 8 ≤ 64 * n) :
      load64 m (slot c.out j) = load64 d.mem (slot c.out j) := by
    refine hframe.load64 fun i hi hstack => hroom.word hj i hi ?_
    rw [Within] at hstack ⊢
    omega
  refine ⟨hp.rsp.trans h.rsp, hp.rdi.trans h.rdi, ?_, ?_, ?_, ?_, fun j hj r hr q => ?_⟩
  · rw [hp.rbp, h.rbp, BitVec.add_assoc, ← BitVec.ofNat_add, Nat.mul_add, Nat.mul_one]
  · rw [hp.rsi, h.rsi, X86.slot_add, Nat.mul_add, Nat.mul_add, Nat.mul_one]
  · rw [hout.load64 (hroom.stack (by omega)), hframe.load64 (fun i hi hstack => ?_), h.bound]
    rw [Within, X86.slot_byte c.lo (by omega)] at hstack
    omega
  · refine h.frame.trans (.trans (hframe.mono fun a ha => .inl ?_) (hout.mono fun a => .inr))
    rw [Within] at ha ⊢
    omega
  · have hq := q.isLt
    rw [Nat.mul_add, Nat.mul_one] at hj
    rw [hmem, X86.load64_storeWords m c.out (by omega) (by omega)]
    by_cases hold : j < L.width * k
    · rw [dif_neg (by omega), hpast (by omega)]
      exact h.items j hold r hr q
    · obtain ⟨l, rfl⟩ := Nat.exists_eq_add_of_le (Nat.le_of_not_lt hold)
      have hword := hwords l (by omega) r (by
        rw [hitem, h.rbp, BitVec.add_assoc, ← BitVec.ofNat_add, hr]) q
      obtain ⟨hl, hword⟩ := List.getElem?_eq_some_iff.mp hword
      rw [dif_pos (by omega), ← hword]
      congr 1
      omega

/-- **All passes**, of code that compares behind each of them. -/
theorem leads_loop (hroom : Room L c n) {passes : Nat} (hn : n = L.width * passes)
    (hpos : 0 < passes) {code : Bytes} {base : BitVec 64} {p q cmp back : Nat} {rel disp : BitVec 32}
    (hpass : ∀ k d, Loop L c n programs k d →
      Leads code base p (· = d) cmp (Passed L c.lo programs d))
    (hcmp : fetch code cmp = some (.cmp rbp (.mem (ptr rsp disp)), back))
    (hdisp : slot c.lo L.sp + disp.signExtend 64 = slot c.lo L.bound)
    (hjb : fetch code back = some (.jb rel, q)) (hrel : ((q : Int) + rel.toInt).toNat = p) :
    Leads code base p (Loop L c n programs 0) q (Loop L c n programs passes) := by
  refine Leads.loop hpos (fun k hk => .each fun d hd => ?_) hcmp hjb hrel fun k hk s hs => ?_
  · intro s hb hp heq
    obtain ⟨t, hst, hbt, ht, hpassed⟩ := hpass k d hd s hb hp heq
    exact ⟨t, hst, hbt, ht, loop_pass hroom (hn ▸ Nat.mul_le_mul_left _ hk) hd hpassed⟩
  · have hstop : s.read (.mem (ptr rsp disp)) = c.stop := by
      have haddr : s.addr (ptr rsp disp) = slot c.lo L.bound := by
        rw [← hdisp, ← hs.rsp]
        exact addr_ptr s.data rsp disp
      rw [X86.State.read, haddr]
      exact hs.bound
    have hrbp : s.regs rbp = c.start + BitVec.ofNat 64 (L.width * (k + 1)) := hs.rbp
    have hle : L.width * (k + 1) ≤ n := hn ▸ Nat.mul_le_mul_left _ hk
    have hrange := hroom.range
    have hmax := c.stop.isLt
    have hnum : (s.regs rbp).toNat = c.start.toNat + L.width * (k + 1) := by
      rw [hrbp, BitVec.toNat_add, BitVec.toNat_ofNat, Nat.add_mod_mod, Nat.mod_eq_of_lt (by omega)]
    rw [hstop, BitVec.lt_def, hnum, ← hrange, hn, Nat.add_lt_add_iff_left,
      Nat.mul_lt_mul_left L.width_pos]

end

theorem valid_take {l : Listing} (h : l.Valid) (n : Nat) : Listing.Valid (l.take n) := by
  rw [Listing.Valid, List.forall_iff_forall_mem] at h ⊢
  exact fun a ha => h a (List.mem_of_mem_take ha)

/-! ## One item a pass -/

section

variable {programs : Fin CacheAccesses → SuperscalarProgram} {hash rest code : Bytes}
  {base lo : BitVec 64}

/-- The code, by parts. -/
structure PlainCode (hash code : Bytes) : Prop where
  front : ∃ rest, code = dataset_init ++ rest
  back : ∃ pre rest, pre.length = superScalarHashOffset ∧
    code = pre ++ (randomx_sshash_init ++ (hash ++ 0xC3 :: rest))

/-- The lines of the cache are apart from what a pass writes on the stack. -/
def LinesApart (memory lo : BitVec 64) (size : Nat) : Prop :=
  ∀ v, ∀ q : Reg, X86.Bytes8 (fun c => ¬ Within lo size c) (slot (getMixBlock memory v) q)

/-- The words that an item starts with. -/
theorem does_sshash_init (d : Data) : ∃ d',
    Does (Listing.instrs (sshash_init.take 5) ++ initialCode) d d' ∧
      (∀ q, d'.regs (native q) = initial (d.regs rbx) q) ∧
      d'.regs rbx = getMixBlock (d.regs rdi) (d.regs rbx) ∧ Kept false lo d d' := by
  have hlea : Does [.int (.lea true 8 (ptr rbx 1))] d (d.setReg 8 (d.regs rbx + 1)) :=
    ⟨by simp [Instr.jumps, X86.Instr.jumps], by simp⟩
  set d₁ := d.setReg 8 (d.regs rbx + 1) with hd₁
  have hselect := does_select (r := rbx) (by decide) d₁
  set d₂ : Data := { d₁ with
    regs := Function.update d₁.regs rbx (getMixBlock (d₁.regs rdi) (d₁.regs rbx)) } with hd₂
  have hnop : Does [.int .nop] d₂ d₂ := ⟨by simp [Instr.jumps, X86.Instr.jumps], by simp⟩
  have h8 : d₂.regs 8 = d.regs rbx + 1 := by
    have hne : (8 : X86.Reg) ≠ rbx := by decide
    simp [hd₂, hd₁, hne]
  obtain ⟨d', hinitial, hwords, hothers, hmem, hymm⟩ := does_initialCode d₂ h8
  refine ⟨d', (hlea.append (hselect.append hnop)).append hinitial, hwords, ?_, fun g hg => ?_, ?_⟩
  · have hrdi : rdi ≠ (8 : X86.Reg) := by decide
    have hrbx : rbx ≠ (8 : X86.Reg) := by decide
    rw [hothers rbx native_ne_rbx]
    simp [hd₂, hd₁, hrdi, hrbx]
  · have hne : g ≠ rbx ∧ g ≠ 8 := by
      revert g
      decide
    rw [hothers g (ne_native (List.mem_cons_of_mem _ hg))]
    simp [hd₂, hd₁, hne.1, hne.2]
  · rw [hmem]
    exact .refl _ _

theorem fetch_at {code b rest : Bytes} {p : Nat} {i : Instr} (hcode : code.drop p = b ++ rest)
    (hb : b ≠ []) (hi : Avx2.decode (b ++ rest) = some (i, rest))
    (hl : ∀ c next, i.link c next = some i) : fetch code p = some (i, p + b.length) :=
  fetch_eq hcode hb hi (hl _ _)

/-- In the call. -/
structure Called (base lo : BitVec 64) (d d' : Data) : Prop where
  regs : ∀ g ∈ [rbp, rsi, rdi], d'.regs g = d.regs g
  back : load64 d'.mem (slot lo 0) = base + 28
  frame : Frame (Within lo 8) d.mem d'.mem
  top : d'.regs rsp = slot lo 0

theorem Called.kept {d d' d'' : Data} (h : Called base lo d d') (hk : Kept false lo d' d'') :
    Called base lo d d'' := by
  have hmem : d''.mem = d'.mem := funext fun a => hk.frame a (by simp [Scratch])
  refine ⟨fun g hg => ?_, hmem ▸ h.back, hmem ▸ h.frame, (hk.regs rsp (by simp)).trans h.top⟩
  rw [hk.regs g (List.mem_cons_of_mem _ hg), h.regs g hg]

variable {d : Data} (hcode : PlainCode hash code)

include hcode

/-- `init_block_loop`, to the call. -/
theorem plain_call (hrsp : d.regs rsp = slot lo 1) : Leads code base 17 (· = d) 32768
    fun d' => Called base lo d d' ∧ d'.regs rbx = d.regs rbp := by
  obtain ⟨rest, hfront⟩ := hcode.front
  have hitem : Leads code base 17 (· = d) 23 (· = d.setReg rbx (d.regs rbp)) := by
    have hdrop : code.drop 17 = Listing.bytes dataset_init_item ++ code.drop 23 := by
      rw [hfront]
      rfl
    refine .straight (Listing.disassembles (listings_valid _ (by simp [listings])) hdrop rfl) ?_
    rintro _ rfl
    exact ⟨_, ⟨by simp [Instr.jumps, X86.Instr.jumps], by simp⟩, rfl⟩
  have hdrop : code.drop 23 = [0xE8, 0xE4, 0x7F, 0x00, 0x00] ++ code.drop 28 := by
    rw [hfront]
    rfl
  have hfetch : fetch code 23 = some (.call 32740, 28) :=
    fetch_at hdrop (by simp) rfl fun _ _ => rfl
  refine hitem.trans (.call hfetch (by decide) ?_)
  rintro _ rfl
  have hkeep (g : X86.Reg) (hg : g ∈ [rsp, rbp, rsi, rdi]) :
      (d.setReg rbx (d.regs rbp)).regs g = d.regs g := by
    have hne : g ≠ rbx := by
      revert g
      decide
    simp [hne]
  have hsub : (d.setReg rbx (d.regs rbp)).regs rsp - 8 = slot lo 0 := by
    rw [hkeep rsp (by simp), hrsp, slot, slot]
    bv_omega
  rw [hsub]
  refine ⟨⟨fun g hg => ?_, X86.load64_store64 .., ?_, by simp⟩, ?_⟩
  · have hne : g ≠ rsp := by
      revert g
      decide
    rw [← hkeep g (List.mem_cons_of_mem _ hg)]
    simp [hne]
  · exact .store64 (.refl _ _) (X86.within_slot (by decide) (by decide)) _
  · have hne : rbx ≠ rsp := by decide
    simp [hne]

theorem drop_hash : ∃ behind, code.drop 32768 = randomx_sshash_init ++ (hash ++ 0xC3 :: behind) ∧
    32960 ≤ code.length ∧ Listing.linked code 32768 sshash_init =
      some (Listing.instrs (sshash_init.take 5) ++ initialCode) := by
  obtain ⟨pre, behind, hpre, hback⟩ := hcode.back
  have hlink := Listing.linked_append (linked_sshash_init (hash ++ 0xC3 :: behind)) pre
  rw [← hback, hpre] at hlink
  refine ⟨behind, by rw [hback]; exact List.drop_left' hpre, ?_, hlink⟩
  have hlen : randomx_sshash_init.length = 192 := by decide +kernel
  rw [hback, List.length_append, List.length_append, hpre, hlen, superScalarHashOffset]
  omega

/-- The words at the start. -/
theorem plain_init : Leads code base 32768
    (fun d' => Called base lo d d' ∧ d'.regs rbx = d.regs rbp) 32960 fun d' =>
      Called base lo d d' ∧ Holds false (fun _ => initial (d.regs rbp)) d' ∧
        Selected false (d.regs rdi) lo (fun _ => d.regs rbp) d' := by
  obtain ⟨behind, hstart, -, hlink⟩ := drop_hash hcode
  have hdrop : code.drop 32768 = Listing.bytes sshash_init ++ code.drop 32867 := by
    rw [← List.drop_drop (i := 99) (j := 32768), hstart]
    rfl
  have hjmp : code.drop 32867 = [0xEB, 0x5B] ++ code.drop 32869 := by
    rw [← List.drop_drop (i := 99) (j := 32768), ← List.drop_drop (i := 101) (j := 32768), hstart]
    rfl
  have hfetch : fetch code 32867 = some (.jmp 91, 32869) :=
    fetch_at hjmp (by simp) (Avx2.decode_foreign (by decide) _) fun _ _ => rfl
  have hdis := Listing.disassembles (listings_valid _ (by simp [listings])) hdrop hlink
  refine .trans (.straight hdis fun d' hd' => ?_) (.jmp hfetch (by decide))
  obtain ⟨hcalled, hrbx⟩ := hd'
  obtain ⟨d'', hdoes, hwords, hline, hkept⟩ := @does_sshash_init lo d'
  rw [hrbx] at hwords hline
  rw [hcalled.regs rdi (by simp)] at hline
  exact ⟨d'', hdoes, hcalled.kept hkept, ⟨hwords, fun h => absurd h Bool.false_ne_true⟩,
    ⟨hline, fun h => absurd h Bool.false_ne_true⟩⟩

/-- The programs, and back. -/
theorem plain_programs (hsafe : ∀ j, SafeProgram (programs j))
    (hhash : programsCode false (List.ofFn programs) = some hash)
    (hlines : LinesApart (d.regs rdi) lo 8) : Leads code base 32960 (fun d' => Called base lo d d' ∧
      Holds false (fun _ => initial (d.regs rbp)) d' ∧
      Selected false (d.regs rdi) lo (fun _ => d.regs rbp) d') 28 fun d' =>
    (∀ g ∈ [rbp, rsi, rdi], d'.regs g = d.regs g) ∧ d'.regs rsp = slot lo 1 ∧
      Frame (Within lo 8) d.mem d'.mem ∧ ∀ r,
        initDatasetItem d.mem (d.regs rdi) programs (d.regs rbp) = some r →
          ∀ q, d'.regs (native q) = r q := by
  obtain ⟨behind, hstart, hlen, -⟩ := drop_hash hcode
  have hdrop : code.drop 32960 = hash ++ 0xC3 :: behind := by
    rw [← List.drop_drop (i := 192) (j := 32768), hstart]
    rfl
  have hret : code.drop (32960 + hash.length) = [0xC3] ++ behind := X86.drop_add hdrop
  have hfetch : fetch code (32960 + hash.length) = some (.ret, 32960 + hash.length + 1) :=
    fetch_at hret (by simp) (Avx2.decode_foreign (by decide) _) fun _ _ => rfl
  have hall : ∀ prog ∈ List.ofFn programs, SafeProgram prog := List.forall_mem_ofFn_iff.mpr hsafe
  obtain ⟨is, his, hdoes⟩ := @does_programs false (d.regs rdi) lo _ hall _ hhash
  obtain ⟨r, hr⟩ := mixFrom_isSome hall d.mem (d.regs rdi) (d.regs rbp) (initial (d.regs rbp))
  refine .trans (Q := fun d' => Called base lo d d' ∧ ∀ q, d'.regs (native q) = r q)
    (.straight (his.at hlen hdrop) fun d' ⟨hcalled, hholds, hselected⟩ => ?_)
    (.ret hfetch fun d' ⟨hcalled, hwords⟩ => ?_)
  · have hcache (v : BitVec 64) (q : Reg) : load64 d'.mem (slot (getMixBlock (d.regs rdi) v) q) =
        load64 d.mem (slot (getMixBlock (d.regs rdi) v) q) := hcalled.frame.load64 (hlines v q)
    obtain ⟨d'', hd'', hwords, hkept⟩ := hdoes _ (fun _ => r) _ d'
      (fun _ => (mixFrom_congr hcache _ _ _).trans hr) (fun v q i hi hs => Bool.false_ne_true hs.1)
      (hcalled.regs rdi (by simp)) nofun hholds hselected
    exact ⟨d'', hd'', hcalled.kept hkept, hwords.words⟩
  · have hbase : base + 28 - base = 28 := by
      rw [BitVec.add_comm, BitVec.add_sub_cancel]
    refine ⟨?_, fun g hg => ?_, ?_, hcalled.frame, fun u hu q => ?_⟩
    · rw [hcalled.top, hcalled.back, hbase]
      rfl
    · have hne : g ≠ rsp := by
        revert g
        decide
      rw [← hcalled.regs g hg]
      simp [hne]
    · rw [hcalled.top]
      simp
    · have heq : u = r := Option.some.inj (hu.symm.trans hr)
      have hne : native q ≠ rsp := (ne_native (by simp) q).symm
      rw [heq, ← hwords q]
      simp [hne]

/-- **An item**, from the call to the comparison. -/
theorem plain_pass (hsafe : ∀ j, SafeProgram (programs j))
    (hhash : programsCode false (List.ofFn programs) = some hash)
    (hrsp : d.regs rsp = slot lo 1) (hlines : LinesApart (d.regs rdi) lo 8) :
    Leads code base 17 (· = d) 67 (Passed (layout false) lo programs d) := by
  refine (plain_call hcode hrsp).trans ((plain_init hcode).trans
    ((plain_programs hcode hsafe hhash hlines).trans ?_))
  obtain ⟨rest, hfront⟩ := hcode.front
  have hdrop : code.drop 28 = Listing.bytes (dataset_init_store.take 10) ++ code.drop 67 := by
    rw [hfront]
    rfl
  refine .straight (Listing.disassembles (valid_take (listings_valid _ (by simp [listings])) _)
    hdrop rfl) fun d' ⟨hregs, htop, hframe, hwords⟩ => ⟨_, does_store d', ?_, ?_, ?_, ?_, ?_⟩
  · refine ⟨d'.mem, item d', hframe, ?_, rfl, fun l hl r hr q => ?_⟩
    · rw [← hregs rsi (by simp)]
      rfl
    · have hzero : l = 0 := Nat.lt_one_iff.mp hl
      subst hzero
      rw [BitVec.add_zero] at hr
      rw [Nat.mul_zero, Nat.zero_add]
      exact item_getElem? (hwords r hr) q
  · have hne : rsp ≠ rbp ∧ rsp ≠ rsi := by decide
    simp [hne.1, hne.2, htop, hrsp]
  · have hne : rdi ≠ rbp ∧ rdi ≠ rsi := by decide
    simp [hne.1, hne.2, hregs]
  · have hne : rbp ≠ rsi := by decide
    simp [hne, hregs, layout]
  · have hne : rsi ≠ rbp := by decide
    simp [hne, hregs, layout]

end

/-! ## Five items a pass -/

section

variable {programs : Fin CacheAccesses → SuperscalarProgram} {hash code : Bytes}
  {base lo : BitVec 64}

/-- Where a pass ends, behind the jump. -/
def looped (hash : Bytes) : Nat := 726 + hash.length + 191

/-- The code, by parts. -/
def Avx2Code (hash code : Bytes) : Prop :=
  ∃ rest, code = randomx_dataset_init_avx2_prologue ++ (hash ++ (Listing.bytes avx2_loop_end ++
    ([0x0F, 0x82] ++ Bytes.le 4 (BitVec.ofInt 32 (320 - looped hash)).toNat ++
      (Listing.bytes avx2_epilogue ++ 0xC3 :: rest))))

variable {d : Data}

/-- The words of five items. -/
theorem does_begin (hsafe : ∀ j, SafeProgram (programs j)) (hrsp : d.regs rsp = slot lo 5)
    (hlines : LinesApart (d.regs rdi) lo 80) {is : List Instr}
    (hdoes : Mixes true (d.regs rdi) lo (List.ofFn programs) is) :
    ∃ r : Fin 5 → Words, (∀ l, initDatasetItem d.mem (d.regs rdi) programs
        (d.regs rbp + BitVec.ofNat 64 l.val) = some (r l)) ∧
      ∃ d', Does (loopBegin ++ is) d d' ∧ Holds true r d' ∧
        (∀ g ∈ [rsp, rbp, rsi, rdi], d'.regs g = d.regs g) ∧ Frame (Within lo 80) d.mem d'.mem := by
  have hitem (l : Fin 5) := mixFrom_isSome (List.forall_mem_ofFn_iff.mpr hsafe) d.mem (d.regs rdi)
    (d.regs rbp + BitVec.ofNat 64 l.val) (initial (d.regs rbp + BitVec.ofNat 64 l.val))
  choose r hr using hitem
  obtain ⟨d₁, hd₁, hwords, hlanes, hline, hplaces, hregs₁, hframe₁⟩ := does_loopBegin d hrsp
  have hcache (v : BitVec 64) (q : Reg) : load64 d₁.mem (slot (getMixBlock (d.regs rdi) v) q) =
      load64 d.mem (slot (getMixBlock (d.regs rdi) v) q) := hframe₁.load64 (hlines v q)
  have hfirst : d.regs rbp + BitVec.ofNat 64 (0 : Fin 5).val = d.regs rbp := BitVec.add_zero _
  obtain ⟨d', hd', hholds, hkept⟩ := hdoes
    (fun l => initial (d.regs rbp + BitVec.ofNat 64 l.val)) r
    (fun l => d.regs rbp + BitVec.ofNat 64 l.val) d₁
    (fun l => (mixFrom_congr hcache _ _ _).trans (hr l))
    (fun v q i hi hs => hlines v q i hi hs.2) (hregs₁ rdi (by simp))
    (fun _ => (hregs₁ rsp (by simp)).trans hrsp)
    ⟨fun q => by rw [hwords, hfirst], fun _ l => hlanes l⟩
    ⟨by rw [hline, hfirst], fun _ l => hplaces l⟩
  refine ⟨r, hr, d', hd₁.append hd', hholds, fun g hg => ?_, hframe₁.trans ?_⟩
  · rw [hkept.regs g hg, hregs₁ g hg]
  · exact hkept.frame.mono fun a ha => ha.2

theorem length_entry : (Listing.bytes avx2_entry).length = 157 := by
  decide +kernel

theorem length_loop_begin : (Listing.bytes avx2_loop_begin).length = 406 := by
  decide +kernel

theorem length_loop_end : (Listing.bytes (avx2_loop_end.take 34)).length = 180 := by
  decide +kernel

set_option maxRecDepth 10000 in
/-- The parts, where they stand. -/
theorem Avx2Code.drop (hcode : Avx2Code hash code) : ∃ rest,
    code.drop 0 = Listing.bytes avx2_entry ++ ([0xE9, 0x9E, 0x00, 0x00, 0x00] ++ code.drop 162) ∧
    code.drop 320 = Listing.bytes avx2_loop_begin ++ code.drop 726 ∧ 726 ≤ code.length ∧
    Listing.linked code 320 avx2_loop_begin = some loopBegin ∧
    code.drop 726 = hash ++ (Listing.bytes (avx2_loop_end.take 34) ++
      ([0x48, 0x3B, 0x6C, 0x24, 0x28] ++
        ([0x0F, 0x82] ++ Bytes.le 4 (BitVec.ofInt 32 (320 - looped hash)).toNat ++
          (Listing.bytes avx2_epilogue ++ ([0xC3] ++ rest))))) := by
  obtain ⟨rest, hcode⟩ := hcode
  have hend : Listing.bytes avx2_loop_end =
      Listing.bytes (avx2_loop_end.take 34) ++ [0x48, 0x3B, 0x6C, 0x24, 0x28] := rfl
  refine ⟨rest, ?_, ?_, ?_, ?_, ?_⟩
  · rw [hcode]
    rfl
  · rw [hcode]
    rfl
  · rw [hcode, List.length_append, length_prologue]
    omega
  · rw [hcode]
    exact linked_loop_begin _
  · rw [hcode, hend, List.append_assoc (Listing.bytes (avx2_loop_end.take 34))]
    exact List.drop_left' length_prologue

/-- **Five items.** -/
theorem avx2_pass (hcode : Avx2Code hash code) (hsafe : ∀ j, SafeProgram (programs j))
    (hhash : programsCode true (List.ofFn programs) = some hash)
    (hrsp : d.regs rsp = slot lo 5) (hlines : LinesApart (d.regs rdi) lo 80) :
    Leads code base 320 (· = d) (726 + hash.length + 180) (Passed (layout true) lo programs d) := by
  obtain ⟨rest, -, hloop, hlen, hlink, hbody⟩ := hcode.drop
  obtain ⟨is, his, hdoes⟩ := @does_programs true (d.regs rdi) lo _
    (List.forall_mem_ofFn_iff.mpr hsafe) _ hhash
  have hbegin := Listing.disassembles (listings_valid _ (by simp [listings])) hloop hlink
  have hend := Listing.disassembles (valid_take (listings_valid _ (by simp [listings])) _)
    (X86.drop_add hbody) rfl
  rw [length_loop_begin] at hbegin
  rw [length_loop_end] at hend
  refine .straight ((hbegin.append (his.at hlen hbody)).append hend) ?_
  rintro _ rfl
  obtain ⟨r, hr, d', hd', hholds, hregs, hframe⟩ := does_begin hsafe hrsp hlines hdoes
  obtain ⟨d'', hd'', hmem, hregs'⟩ := does_loop_end d'
  refine ⟨d'', hd'.append hd'', ?_, ?_, ?_, ?_, ?_⟩
  · refine ⟨d'.mem, item d' ++ items d', hframe, ?_, rfl, fun l hl u hu q => ?_⟩
    · rw [hmem, hregs rsi (by simp)]
    · have heq : u = r ⟨l, hl⟩ := Option.some.inj (hu.symm.trans (hr ⟨l, hl⟩))
      rw [heq]
      exact items_getElem? hholds.words (fun l q => (hholds.lanes rfl l).words q) ⟨l, hl⟩ q
  all_goals rw [hregs']
  · have hne : rsp ≠ rbp ∧ rsp ≠ rsi := by decide
    simp [hne.1, hne.2, hregs]
  · have hne : rdi ≠ rbp ∧ rdi ≠ rsi := by decide
    simp [hne.1, hne.2, hregs]
  · have hne : rbp ≠ rsi := by decide
    simp [hne, hregs, layout]
  · have hne : rsi ≠ rbp := by decide
    simp [hne, hregs, layout]

end

/-! ## The call -/

section

variable {L : Layout} {n passes : Nat} {programs : Fin CacheAccesses → SuperscalarProgram}
  {code : Bytes} {base : BitVec 64} {d : Data}

theorem slot_depth (L : Layout) (d : Data) : d.regs rsp = slot (Call.of L d).lo L.depth := by
  rw [Call.of, slot, BitVec.sub_add_cancel]

theorem Room.apart (h : Room L (Call.of L d) n) :
    LinesApart (Call.of L d).memory (Call.of L d).lo (8 * L.bound) := by
  intro v q i hi hwithin
  refine h.line v q i hi (.inl ?_)
  have := L.bound_lt
  rw [Within] at hwithin ⊢
  omega

/-- What a call leaves. -/
structure Initialised (L : Layout) (n : Nat) (programs : Fin CacheAccesses → SuperscalarProgram)
    (d d' : Data) : Prop where
  top : d'.regs rsp = d.regs rsp + 8
  frame : Frame (Writes L (Call.of L d) n) d.mem d'.mem
  items : ∀ j < n, ∃ r, initDatasetItem d.mem (Call.of L d).memory programs
      (d.regs rdx + BitVec.ofNat 64 j) = some r ∧
    ∀ q : Reg, load64 d'.mem (slot (d.regs rsi) (8 * j + q.val)) = r q

/-- From an entry, a loop and an exit. -/
theorem leads_call (hsafe : ∀ j, SafeProgram (programs j)) (hroom : Room L (Call.of L d) n)
    (hn : n = L.width * passes) {p q r behind : Nat}
    (hentry : Leads code base 0 (· = d) p (Loop L (Call.of L d) n programs 0))
    (hloop : Leads code base p (Loop L (Call.of L d) n programs 0) q
      (Loop L (Call.of L d) n programs passes))
    (hexit : Leads code base q (Loop L (Call.of L d) n programs passes) r fun d' =>
      d'.regs rsp = slot (Call.of L d).lo L.depth ∧
        ∃ d'', Loop L (Call.of L d) n programs passes d'' ∧ d'.mem = d''.mem)
    (hret : fetch code r = some (.ret, behind)) :
    Leads code base 0 (· = d) (load64 d.mem (d.regs rsp) - base).toNat
      (Initialised L n programs d) := by
  refine hentry.trans (hloop.trans (hexit.trans (.ret hret ?_)))
  rintro d' ⟨htop, d'', hd'', hmem⟩
  have hle := L.depth_le
  have hback : load64 d'.mem (d'.regs rsp) = load64 d.mem (d.regs rsp) := by
    rw [hmem, htop, slot_depth L d]
    refine hd''.frame.load64 fun i hi hw => ?_
    rcases hw with hstack | hout
    · rw [Within, X86.slot_byte _ (by omega)] at hstack
      omega
    · exact hroom.stack (Nat.le_refl _) i hi hout
  refine ⟨by rw [hback], ?_, hmem ▸ hd''.frame, fun j hj => ?_⟩
  · simp [htop, ← slot_depth]
  · obtain ⟨u, hu⟩ := mixFrom_isSome (List.forall_mem_ofFn_iff.mpr hsafe) d.mem
      (Call.of L d).memory (d.regs rdx + BitVec.ofNat 64 j)
      (initial (d.regs rdx + BitVec.ofNat 64 j))
    exact ⟨u, hu, fun q => hmem ▸ hd''.items j (hn ▸ hj) u hu q⟩

end

/-! ## One item a pass, from call to return -/

section

variable {programs : Fin CacheAccesses → SuperscalarProgram} {hash code : Bytes} {base : BitVec 64}
  {d : Data} {n : Nat}

theorem plain_entry (hcode : PlainCode hash code)
    (hroom : Room (layout false) (Call.of (layout false) d) n) : Leads code base 0 (· = d) 17
      (Loop (layout false) (Call.of (layout false) d) n programs 0) := by
  obtain ⟨rest, hfront⟩ := hcode.front
  have hdrop : code.drop 0 = Listing.bytes dataset_init_entry ++ code.drop 17 := by
    rw [hfront]
    rfl
  refine .straight (Listing.disassembles (listings_valid _ (by simp [listings])) hdrop rfl) ?_
  intro d₀ heq
  obtain ⟨d', hd', hrsp, hrsi, hrdi, hrbp, hbound, hframe⟩ :=
    does_dataset_init_entry d (slot_depth (layout false) d) hroom.pointer
  refine ⟨d', heq ▸ hd', hrsp, hrdi, ?_, ?_, hbound, hframe.mono fun a => .inl,
    fun _ h => absurd h (Nat.not_lt_zero _)⟩
  · rw [hrbp]
    exact (BitVec.add_zero _).symm
  · rw [hrsi]
    exact (X86.slot_zero _).symm

theorem plain_loop (hcode : PlainCode hash code) (hsafe : ∀ j, SafeProgram (programs j))
    (hhash : programsCode false (List.ofFn programs) = some hash) (hpos : 0 < n)
    (hroom : Room (layout false) (Call.of (layout false) d) n) :
    Leads code base 17 (Loop (layout false) (Call.of (layout false) d) n programs 0) 73
      (Loop (layout false) (Call.of (layout false) d) n programs n) := by
  obtain ⟨rest, hfront⟩ := hcode.front
  have hcmp : code.drop 67 = [0x48, 0x3B, 0x2C, 0x24] ++ code.drop 71 := by
    rw [hfront]
    rfl
  have hjb : code.drop 71 = [0x72, 0xC8] ++ code.drop 73 := by
    rw [hfront]
    rfl
  have hfetch : fetch code 67 = some (.cmp rbp (.mem (ptr rsp 0)), 71) :=
    fetch_at hcmp (by simp) rfl fun _ _ => rfl
  have hback : fetch code 71 = some (.jb (-56), 73) :=
    fetch_at hjb (by simp) rfl fun _ _ => rfl
  refine leads_loop hroom (Nat.one_mul n).symm hpos (fun k d' hd' => ?_) hfetch
    (BitVec.add_zero _) hback (by decide)
  exact plain_pass hcode hsafe hhash hd'.rsp (hd'.rdi ▸ hroom.apart)

/-- **The plain code** of a range. -/
theorem plain_leads (hcode : PlainCode hash code) (hsafe : ∀ j, SafeProgram (programs j))
    (hhash : programsCode false (List.ofFn programs) = some hash) (hpos : 0 < n)
    (hroom : Room (layout false) (Call.of (layout false) d) n) :
    Leads code base 0 (· = d) (load64 d.mem (d.regs rsp) - base).toNat
      (Initialised (layout false) n programs d) := by
  obtain ⟨rest, hfront⟩ := hcode.front
  have hdrop : code.drop 73 = Listing.bytes dataset_init_exit ++ code.drop 84 := by
    rw [hfront]
    rfl
  have hret : code.drop 84 = [0xC3] ++ code.drop 85 := by
    rw [hfront]
    rfl
  have hfetch : fetch code 84 = some (.ret, 85) :=
    fetch_at hret (by simp) (Avx2.decode_foreign (by decide) _) fun _ _ => rfl
  refine leads_call hsafe hroom (Nat.one_mul n).symm (plain_entry hcode hroom)
    (plain_loop hcode hsafe hhash hpos hroom) ?_ hfetch
  refine .straight (Listing.disassembles (listings_valid _ (by simp [listings])) hdrop rfl)
    fun d' hd' => ?_
  obtain ⟨d'', hd'', hrsp, hmem⟩ := does_dataset_init_exit d' hd'.rsp
  exact ⟨d'', hd'', hrsp, d', hd', hmem⟩

/-! ## Five items a pass, from call to return -/

theorem avx2_call_entry (hcode : Avx2Code hash code)
    (hroom : Room (layout true) (Call.of (layout true) d) n) : Leads code base 0 (· = d) 320
      (Loop (layout true) (Call.of (layout true) d) n programs 0) := by
  obtain ⟨rest, hstart, -⟩ := hcode.drop
  have hdis := Listing.disassembles (listings_valid avx2_entry (by simp [listings])) hstart rfl
  have hjmp := X86.drop_add hstart
  rw [length_entry] at hdis hjmp
  have hfetch : fetch code 157 = some (.jmp 158, 162) :=
    fetch_at hjmp (by simp) (Avx2.decode_foreign (by decide) _) fun _ _ => rfl
  refine .trans (.straight hdis fun d₀ heq => ?_) (.jmp hfetch (by decide))
  obtain ⟨d', hd', hrsp, hrsi, hrdi, hrbp, hbound, hframe⟩ :=
    does_avx2_entry d (slot_depth (layout true) d) hroom.pointer
  refine ⟨d', heq ▸ hd', hrsp, hrdi, ?_, ?_, hbound, hframe.mono fun a => .inl,
    fun _ h => absurd h (Nat.not_lt_zero _)⟩
  · rw [hrbp]
    exact (BitVec.add_zero _).symm
  · rw [hrsi]
    exact (X86.slot_zero _).symm

theorem decode_jb (v : BitVec 32) (rest : Bytes) :
    Avx2.decode ([0x0F, 0x82] ++ Bytes.le 4 v.toNat ++ rest) = some (.jb v, rest) := by
  conv_rhs => rw [← X86.ofNat_readLE v]
  rfl

theorem avx2_loop (hcode : Avx2Code hash code) (hsafe : ∀ j, SafeProgram (programs j))
    (hhash : programsCode true (List.ofFn programs) = some hash) (hlen : looped hash < 2 ^ 31)
    {passes : Nat} (hn : n = 5 * passes) (hpos : 0 < passes)
    (hroom : Room (layout true) (Call.of (layout true) d) n) :
    Leads code base 320 (Loop (layout true) (Call.of (layout true) d) n programs 0) (looped hash)
      (Loop (layout true) (Call.of (layout true) d) n programs passes) := by
  obtain ⟨rest, -, -, -, -, hbody⟩ := hcode.drop
  have hend := X86.drop_add (X86.drop_add hbody)
  rw [length_loop_end] at hend
  have hfetch : fetch code (726 + hash.length + 180) =
      some (.cmp rbp (.mem (ptr rsp 40)), 726 + hash.length + 185) :=
    fetch_at hend (by simp) rfl fun _ _ => rfl
  have hback : fetch code (726 + hash.length + 185) =
      some (.jb (BitVec.ofInt 32 (320 - looped hash)), looped hash) :=
    fetch_at (X86.drop_add hend) (by simp) (decode_jb _ _) fun _ _ => rfl
  have hrel : (BitVec.ofInt 32 (320 - looped hash)).toInt = 320 - looped hash := by
    rw [BitVec.toInt_ofInt, Int.bmod_eq_of_le] <;> omega
  refine leads_loop hroom hn hpos (fun k d' hd' => ?_) hfetch (X86.slot_add _ 5 5) hback ?_
  · exact avx2_pass hcode hsafe hhash hd'.rsp (hd'.rdi ▸ hroom.apart)
  · rw [hrel]
    omega

/-- **The AVX2 code** of a range. -/
theorem avx2_leads (hcode : Avx2Code hash code) (hsafe : ∀ j, SafeProgram (programs j))
    (hhash : programsCode true (List.ofFn programs) = some hash) (hlen : looped hash < 2 ^ 31)
    {passes : Nat} (hn : n = 5 * passes) (hpos : 0 < passes)
    (hroom : Room (layout true) (Call.of (layout true) d) n) :
    Leads code base 0 (· = d) (load64 d.mem (d.regs rsp) - base).toNat
      (Initialised (layout true) n programs d) := by
  obtain ⟨rest, -, -, -, -, hbody⟩ := hcode.drop
  have hdrop := X86.drop_add (X86.drop_add (X86.drop_add hbody))
  have hout : code.drop (looped hash) = Listing.bytes avx2_epilogue ++ ([0xC3] ++ rest) := by
    have hpos : 726 + hash.length + (Listing.bytes (avx2_loop_end.take 34)).length + 5 + 6 =
        looped hash := by
      rw [length_loop_end, looped]
    rw [← hpos]
    exact X86.drop_add hdrop
  have hfetch : fetch code (looped hash + (Listing.bytes avx2_epilogue).length) = some (.ret, _) :=
    fetch_at (X86.drop_add hout) (by simp) (Avx2.decode_foreign (by decide) _) fun _ _ => rfl
  refine leads_call hsafe hroom hn (avx2_call_entry hcode hroom)
    (avx2_loop hcode hsafe hhash hlen hn hpos hroom) ?_ hfetch
  refine .straight (Listing.disassembles (listings_valid _ (by simp [listings])) hout rfl)
    fun d' hd' => ?_
  obtain ⟨d'', hd'', hrsp, hmem⟩ := does_avx2_epilogue d' hd'.rsp
  exact ⟨d'', hd'', hrsp, d', hd', hmem⟩

end

/-! ## The dataset -/

/-- A program that the generator can produce. -/
def Produced (prog : SuperscalarProgram) : Prop :=
  ∃ SuperscalarLatency rx_blake2b fuel gen portBusy,
    SuperscalarLatency ≤ RANDOMX_SUPERSCALAR_MAX_LATENCY ∧
      generateSuperscalar SuperscalarLatency rx_blake2b fuel gen = .ok (prog, portBusy)

theorem Produced.spec {prog : SuperscalarProgram} (h : Produced prog) :
    SafeProgram prog ∧ prog.program.length ≤ SuperscalarMaxSize := by
  obtain ⟨latency, rx_blake2b, fuel, gen, portBusy, hL, heq⟩ := h
  have hends := generateSuperscalar_ends hL rx_blake2b gen fuel
  rw [heq] at hends
  refine ⟨hends.2.1, hends.1.trans ?_⟩
  rw [SuperscalarMaxSize]
  omega

/-- There is code, and the jump over it is not too far. -/
theorem exists_hash {programs : Fin CacheAccesses → SuperscalarProgram}
    (h : ∀ j, Produced (programs j)) (AVX2 : Bool) :
    ∃ hash, programsCode AVX2 (List.ofFn programs) = some hash ∧ looped hash < 2 ^ 31 := by
  have hall : ∀ prog ∈ List.ofFn programs,
      SafeProgram prog ∧ instructionsLength AVX2 prog.program ≤ 128 * SuperscalarMaxSize :=
    List.forall_mem_ofFn_iff.mpr fun j => ⟨(h j).spec.1,
      (instructionsLength_le AVX2 _).trans (Nat.mul_le_mul_left _ (h j).spec.2)⟩
  obtain ⟨hash, hhash, hlen⟩ := programsCode_length hall
  refine ⟨hash, hhash, ?_⟩
  rw [List.length_ofFn] at hlen
  simp only [SuperscalarMaxSize, RANDOMX_SUPERSCALAR_MAX_LATENCY, CacheAccesses] at hlen
  rw [looped]
  omega

theorem plainCode {programs : Fin CacheAccesses → SuperscalarProgram} {hash : Bytes}
    (hhash : programsCode false (List.ofFn programs) = some hash) {buffer : Bytes}
    (hbuffer : CodeSize ≤ buffer.length) : ∃ code,
      generateSuperscalarHash false programs buffer = some code ∧
        PlainCode hash (generateDatasetInitCode false code) := by
  refine ⟨_, by simp only [generateSuperscalarHash, hhash]; rfl, ⟨_, rfl⟩, ?_⟩
  have hlen : (buffer.take superScalarHashOffset).length = superScalarHashOffset := by
    rw [List.length_take, Nat.min_eq_left]
    exact Nat.le_trans (by decide) hbuffer
  refine ⟨dataset_init ++ (buffer.take superScalarHashOffset).drop 128,
    buffer.drop (superScalarHashOffset + (randomx_sshash_init ++ (hash ++ [0xC3])).length), ?_, ?_⟩
  · rw [List.length_append, List.length_drop, hlen, length_dataset_init]
    rfl
  · simp only [generateDatasetInitCode, Bytes.writeAt, List.take_zero, List.nil_append,
      Nat.zero_add, Bool.false_eq_true, if_false, List.append_assoc, List.cons_append]
    rw [length_dataset_init, List.drop_append_of_le_length]
    rw [hlen]
    decide

theorem writeAt_tail (b c d : Bytes) (h : c.length = d.length) :
    (b ++ c).writeAt b.length d = b ++ d := by
  simp [Bytes.writeAt, ← h]

theorem avx2Code {programs : Fin CacheAccesses → SuperscalarProgram} {hash : Bytes}
    (hhash : programsCode true (List.ofFn programs) = some hash) (buffer : Bytes) : ∃ code,
      generateSuperscalarHash true programs buffer = some code ∧
        Avx2Code hash (generateDatasetInitCode true code) := by
  refine ⟨_, by simp only [generateSuperscalarHash, hhash]; rfl, ?_⟩
  set front := randomx_dataset_init_avx2_prologue ++
    (hash ++ (Listing.bytes avx2_loop_end ++ [0x0F, 0x82])) with hfront
  have hparts : randomx_dataset_init_avx2_prologue ++ (hash ++ randomx_dataset_init_avx2_loop_end) =
      front ++ [0x00, 0x00, 0x00, 0x00] := by
    simp [hfront, randomx_dataset_init_avx2_loop_end]
  have hlen : (front ++ [0x00, 0x00, 0x00, 0x00]).length = looped hash := by
    have hloop : (Listing.bytes avx2_loop_end).length = 185 := by decide +kernel
    simp only [hfront, looped, List.length_append, length_prologue, hloop, List.length_cons,
      List.length_nil]
    omega
  have hpatch : (front ++ [0x00, 0x00, 0x00, 0x00]).length - 4 = front.length := by simp
  simp only [generateDatasetInitCode, if_true, hparts]
  rw [hpatch, hlen, writeAt_tail _ _ _ (by simp)]
  set loop := front ++ Bytes.le 4 (BitVec.ofInt 32 (320 - looped hash)).toNat with hloop
  refine ⟨buffer.drop (0 + (loop ++ randomx_dataset_init_avx2_epilogue).length), ?_⟩
  simp only [Bytes.writeAt, List.take_zero, List.nil_append]
  simp only [hloop, hfront, randomx_dataset_init_avx2_epilogue, List.append_assoc, List.cons_append,
    List.nil_append]

/-- **The initialisers agree.** Whatever programs the generator produced, the code for them,
plain or with AVX2, returns, and then every item of the range is the one that
`initDatasetItem` computes; besides the items it has written on its stack alone. There are
never less than `CodeSize` bytes behind `code`. -/
theorem dataset_items (initDatasetAVX2 : Bool) (programs : Fin CacheAccesses → SuperscalarProgram)
    (hprograms : ∀ j, Produced (programs j)) (buffer : Bytes) (hbuffer : CodeSize ≤ buffer.length) :
    ∃ code, generateSuperscalarHash initDatasetAVX2 programs buffer = some code ∧
      ∀ (s : Avx2.State) (n : Nat), s.rip = 0 → 0 < n → (initDatasetAVX2 = true → 5 ∣ n) →
        Room (layout initDatasetAVX2) (Call.of (layout initDatasetAVX2) s.data) n →
        ∃ t, Runs (generateDatasetInitCode initDatasetAVX2 code) s t ∧
          t.rip = (load64 s.mem (s.regs rsp) - s.base).toNat ∧
          Initialised (layout initDatasetAVX2) n programs s.data t.data := by
  obtain ⟨hash, hhash, hlen⟩ := exists_hash hprograms initDatasetAVX2
  have hsafe (j : Fin CacheAccesses) : SafeProgram (programs j) := (hprograms j).spec.1
  cases initDatasetAVX2 with
  | false =>
    obtain ⟨code, hgenerate, hcode⟩ := plainCode hhash hbuffer
    refine ⟨code, hgenerate, fun s n hs hpos _ hroom => ?_⟩
    obtain ⟨t, hst, -, ht, hdone⟩ := plain_leads hcode hsafe hhash hpos hroom s rfl hs rfl
    exact ⟨t, hst, ht, hdone⟩
  | true =>
    obtain ⟨code, hgenerate, hcode⟩ := avx2Code hhash buffer
    refine ⟨code, hgenerate, fun s n hs hpos hn hroom => ?_⟩
    obtain ⟨passes, rfl⟩ := hn rfl
    obtain ⟨t, hst, -, ht, hdone⟩ := avx2_leads hcode hsafe hhash hlen rfl
      (Nat.pos_of_mul_pos_left hpos) hroom s rfl hs rfl
    exact ⟨t, hst, ht, hdone⟩

/-- The items 7 to 11, of a cache of zeros. -/
def zeros : Avx2.State where
  rip := 0
  regs r := if r = rsp then 2 ^ 41 else if r = rsi then 2 ^ 40 else if r = rdx then 7
    else if r = rcx then 12 else 0
  mem _ := 0
  ymm _ _ := 0
  base := -4096

theorem dataset_items_zeros : ∃ programs code t,
    generateSuperscalarHash true programs (List.replicate CodeSize 0) = some code ∧
      Runs (generateDatasetInitCode true code) zeros t ∧ t.rip = 4096 ∧
      Initialised (layout true) 5 programs zeros.data t.data := by
  have hok : (generateSuperscalar 2 (fun data => data.map (· * 5 + 3)) 4
      ⟨(List.range 64).map fun i => UInt8.ofNat (i * 37 + 11), 64⟩).isOk = true := by
    decide +kernel
  obtain ⟨⟨prog, portBusy⟩, hprog, -⟩ := (@generateSuperscalar_ends 2
    (by decide) (fun data => data.map (· * 5 + 3))
    ⟨(List.range 64).map fun i => UInt8.ofNat (i * 37 + 11), 64⟩ 4).exists_ok fun e he h => by
      rw [h] at hok
      cases hok
  obtain ⟨code, hcode, hruns⟩ := dataset_items true (fun _ => prog)
    (fun _ => ⟨2, _, 4, _, portBusy, by decide, hprog⟩) (List.replicate CodeSize 0) (by simp)
  have hroom : Room (layout true) (Call.of (layout true) zeros.data) 5 := by
    have hlo : (Call.of (layout true) zeros.data).lo = 2199023255144 := by decide
    have hout : (Call.of (layout true) zeros.data).out = 1099511627776 := by decide
    have hcache : (Call.of (layout true) zeros.data).cache = 0 := by decide
    have hmemory : (Call.of (layout true) zeros.data).memory = 0 := by decide
    have hdepth : (layout true).depth = 51 := rfl
    have hsize : cacheLines * CacheLineSize = 2 ^ 28 := by decide
    refine ⟨by decide, by decide, fun i hi => ?_, fun a ha => ?_, fun a ha => ?_⟩
    · simp only [hlo, hcache, hdepth, Within]
      bv_omega
    · rw [hmemory, hsize, Within] at ha
      rw [hlo, hout, hdepth, Within, Within]
      bv_omega
    · rw [hout, Within] at ha
      rw [hlo, hdepth, Within]
      bv_omega
  obtain ⟨t, hst, ht, hdone⟩ := hruns zeros 5 rfl (by decide) (by decide) hroom
  exact ⟨fun _ => prog, code, t, hcode, hst, ht, hdone⟩

end L2.DatasetInit

end Rxs
