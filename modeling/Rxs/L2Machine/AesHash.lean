import Mathlib.Logic.Function.Basic
import Rxs.Core.Fusion

/-!
# Hashing and filling the scratchpad

Three passes over the scratchpad, 64 bytes at a time in four lanes of AES: `hashAes1Rx4` reads
it, `fillAes1Rx4` overwrites it, `hashAndFillAes1Rx4` does both. The last one is a template
over the AES in software and the lines in a pass of its loop; a Zen 5 has a version of its own
with registers of 512 bits. Its loop stops once at a prefetch distance before the end.

* `hashAes1Rx4_eq`, `fillAes1Rx4_eq`: a line at a time.
* `fill_eq_fill`: what is filled does not depend on what was there.
* `hashAndFillAes1Rx4_eq`: the pass that does both is the two passes, in every version.
-/
namespace Rxs.L2.AesHash

open Rxs.Core.Fusion

/-- `rx_vec_i128`. -/
abbrev V : Type := BitVec 128

/-- 64 bytes: four vectors, or a register of 512 bits. -/
structure Lanes where
  s0 : V
  s1 : V
  s2 : V
  s3 : V
  deriving DecidableEq, Repr

/-- The rounds, in hardware or in software. -/
structure Aes where
  aesenc : V → V → V
  aesdec : V → V → V

def rx_set_int_vec_i128 (i3 i2 i1 i0 : BitVec 32) : V := i3 ++ i2 ++ i1 ++ i0

/-- mirrors src/crypto/randomx/aes_hash.cpp:47-53 -/
def AES_HASH_1R_STATE : Lanes where
  s0 := rx_set_int_vec_i128 0xd7983aad 0xcc82db47 0x9fa856de 0x92b52c0d
  s1 := rx_set_int_vec_i128 0xace78057 0xf59e125a 0x15c7b798 0x338d996e
  s2 := rx_set_int_vec_i128 0xe8a07ce4 0x5079506b 0xae62c7d0 0x6a770017
  s3 := rx_set_int_vec_i128 0x7e994948 0x79a10005 0x07ad828d 0x630a240c

def AES_HASH_1R_XKEY0 : V := rx_set_int_vec_i128 0x06890201 0x90dc56bf 0x8b24949f 0xf6fa8389

def AES_HASH_1R_XKEY1 : V := rx_set_int_vec_i128 0xed18f99b 0xee1043c6 0x51f4e03c 0x61b263d1

/-- mirrors src/crypto/randomx/aes_hash.cpp:138-141 -/
def AES_GEN_1R_KEY : Lanes where
  s0 := rx_set_int_vec_i128 0xb4f44917 0xdbb5552b 0x62716609 0x6daca553
  s1 := rx_set_int_vec_i128 0x0da1dc4e 0x1725d378 0x846a710d 0x6d7caf07
  s2 := rx_set_int_vec_i128 0x3e20e345 0xf4c0794f 0x9f947ec6 0x3f1262f1
  s3 := rx_set_int_vec_i128 0x49169154 0x16314c88 0xb1ba317c 0x6aef8135

/-! ## Loads and stores -/

section Memory

variable {n : Nat}

def rx_load_vec_i128 (pad : Vector V n) (i : Nat) : V := pad[i]?.getD 0

def rx_store_vec_i128 (pad : Vector V n) (i : Nat) (v : V) : Vector V n := pad.setIfInBounds i v

theorem load_store_ne (pad : Vector V n) (v : V) {i j : Nat} (h : i ≠ j) :
    rx_load_vec_i128 (rx_store_vec_i128 pad j v) i = rx_load_vec_i128 pad i := by
  unfold rx_load_vec_i128 rx_store_vec_i128
  rw [Vector.getElem?_setIfInBounds_ne (Ne.symm h)]

/-- Four loads from `(rx_vec_i128*)ptr + k * 4`. -/
def loadLine (pad : Vector V n) (ptr k : Nat) : Lanes where
  s0 := rx_load_vec_i128 pad (ptr / 16 + k * 4 + 0)
  s1 := rx_load_vec_i128 pad (ptr / 16 + k * 4 + 1)
  s2 := rx_load_vec_i128 pad (ptr / 16 + k * 4 + 2)
  s3 := rx_load_vec_i128 pad (ptr / 16 + k * 4 + 3)

def storeLine (pad : Vector V n) (ptr k : Nat) (l : Lanes) : Vector V n :=
  let pad := rx_store_vec_i128 pad (ptr / 16 + k * 4 + 0) l.s0
  let pad := rx_store_vec_i128 pad (ptr / 16 + k * 4 + 1) l.s1
  let pad := rx_store_vec_i128 pad (ptr / 16 + k * 4 + 2) l.s2
  rx_store_vec_i128 pad (ptr / 16 + k * 4 + 3) l.s3

/-- A line is four vectors in a row: where it lies is all that matters. -/
theorem loadLine_eq (pad : Vector V n) (i k : Nat) :
    loadLine pad (64 * i) k = loadLine pad (64 * (i + k)) 0 := by
  have h : 64 * i / 16 + k * 4 = 64 * (i + k) / 16 + 0 * 4 := by omega
  unfold loadLine
  rw [h]

theorem storeLine_eq (pad : Vector V n) (i k : Nat) (l : Lanes) :
    storeLine pad (64 * i) k l = storeLine pad (64 * (i + k)) 0 l := by
  have h : 64 * i / 16 + k * 4 = 64 * (i + k) / 16 + 0 * 4 := by omega
  unfold storeLine
  rw [h]

theorem load_storeLine_ne (pad : Vector V n) (l : Lanes) {i j : Nat} (h : i / 4 ≠ j) :
    rx_load_vec_i128 (storeLine pad (64 * j) 0 l) i = rx_load_vec_i128 pad i := by
  unfold storeLine
  rw [load_store_ne _ _ (by omega), load_store_ne _ _ (by omega), load_store_ne _ _ (by omega),
    load_store_ne _ _ (by omega)]

/-- The scratchpad, a line a cell. -/
def lines (n : Nat) : Cells (Vector V n) Lanes where
  load pad i := loadLine pad (64 * i) 0
  store pad i l := storeLine pad (64 * i) 0 l
  load_store_ne pad l i j h := by
    unfold loadLine
    rw [load_storeLine_ne _ _ (by omega), load_storeLine_ne _ _ (by omega),
      load_storeLine_ne _ _ (by omega), load_storeLine_ne _ _ (by omega)]

end Memory

/-! ## The passes -/

variable {n : Nat} (aes : Aes)

def hashStep (s l : Lanes) : Lanes where
  s0 := aes.aesenc s.s0 l.s0
  s1 := aes.aesdec s.s1 l.s1
  s2 := aes.aesenc s.s2 l.s2
  s3 := aes.aesdec s.s3 l.s3

def fillStep (s : Lanes) : Lanes where
  s0 := aes.aesdec s.s0 AES_GEN_1R_KEY.s0
  s1 := aes.aesenc s.s1 AES_GEN_1R_KEY.s1
  s2 := aes.aesdec s.s2 AES_GEN_1R_KEY.s2
  s3 := aes.aesenc s.s3 AES_GEN_1R_KEY.s3

/-- Two extra rounds to achieve full diffusion. -/
def finish (s : Lanes) : Lanes :=
  let x0 := AES_HASH_1R_XKEY0
  let x1 := AES_HASH_1R_XKEY1
  hashStep aes (hashStep aes s ⟨x0, x0, x0, x0⟩) ⟨x1, x1, x1, x1⟩

/-- mirrors src/crypto/randomx/aes_hash.cpp:68-128 -/
def hashAes1Rx4 (input : Vector V n) (inputSize : Nat) : Lanes :=
  finish aes (sweep 64 (fun inptr s => hashStep aes s (loadLine input inptr 0)) inputSize 0
    AES_HASH_1R_STATE).2

/-- The state and the buffer after.
mirrors src/crypto/randomx/aes_hash.cpp:153-198 -/
def fillAes1Rx4 (state : Lanes) (outputSize : Nat) (buffer : Vector V n) : Lanes × Vector V n :=
  (sweep 64 (fun outptr s => (fillStep aes s.1, storeLine s.2 outptr 0 (fillStep aes s.1)))
    outputSize 0 (state, buffer)).2

/-- The hash state, the fill state and the scratchpad. -/
abbrev Fused (n : Nat) : Type := Lanes × Lanes × Vector V n

def HASH_STATE (ptr k : Nat) (s : Fused n) : Fused n :=
  (hashStep aes s.1 (loadLine s.2.2 ptr k), s.2.1, s.2.2)

def FILL_STATE (ptr k : Nat) (s : Fused n) : Fused n :=
  (s.1, fillStep aes s.2.1, storeLine s.2.2 ptr k (fillStep aes s.2.1))

/-- The lines in a pass of the loop. -/
def unrolled (softAes unroll : Int) : Nat :=
  if softAes = 0 then 2 else if unroll = 4 then 4 else if unroll = 2 then 2 else 1

/-- A pass of the loop; a prefetch changes nothing.
mirrors src/crypto/randomx/aes_hash.cpp:345-410 -/
def pass (softAes unroll : Int) (ptr : Nat) (s : Fused n) : Fused n :=
  if softAes = 0 then
    let s := HASH_STATE aes ptr 0 s
    let s := HASH_STATE aes ptr 1 s
    let s := FILL_STATE aes ptr 0 s
    FILL_STATE aes ptr 1 s
  else if unroll = 4 then
    let s := FILL_STATE aes ptr 0 (HASH_STATE aes ptr 0 s)
    let s := FILL_STATE aes ptr 1 (HASH_STATE aes ptr 1 s)
    let s := FILL_STATE aes ptr 2 (HASH_STATE aes ptr 2 s)
    FILL_STATE aes ptr 3 (HASH_STATE aes ptr 3 s)
  else if unroll = 2 then
    let s := FILL_STATE aes ptr 0 (HASH_STATE aes ptr 0 s)
    FILL_STATE aes ptr 1 (HASH_STATE aes ptr 1 s)
  else FILL_STATE aes ptr 0 (HASH_STATE aes ptr 0 s)

def PREFETCH_DISTANCE : Nat := 7168

/-- The loop twice, the first time up to the prefetch distance before the end. -/
def twice (block : Nat) (body : Nat → Fused n → Fused n) (scratchpadSize : Nat) (s : Fused n) :
    Fused n :=
  let p := sweep block body ((scratchpadSize : Int) - PREFETCH_DISTANCE) 0 s
  (sweep block body scratchpadSize p.1 p.2).2

/-- `_mm512_mask_blend_epi64`, on a lane: the mask's bits are for its two halves. -/
def blend (lo hi : Bool) (a b : V) : V :=
  (if hi then b else a).extractLsb' 64 64 ++ (if lo then b else a).extractLsb' 0 64

def _mm512_mask_blend_epi64 (k : BitVec 8) (a b : Lanes) : Lanes where
  s0 := blend (k.getLsbD 0) (k.getLsbD 1) a.s0 b.s0
  s1 := blend (k.getLsbD 2) (k.getLsbD 3) a.s1 b.s1
  s2 := blend (k.getLsbD 4) (k.getLsbD 5) a.s2 b.s2
  s3 := blend (k.getLsbD 6) (k.getLsbD 7) a.s3 b.s3

def _mm512_aesenc_epi128 (a key : Lanes) : Lanes :=
  ⟨aes.aesenc a.s0 key.s0, aes.aesenc a.s1 key.s1, aes.aesenc a.s2 key.s2,
    aes.aesenc a.s3 key.s3⟩

def _mm512_aesdec_epi128 (a key : Lanes) : Lanes :=
  ⟨aes.aesdec a.s0 key.s0, aes.aesdec a.s1 key.s1, aes.aesdec a.s2 key.s2,
    aes.aesdec a.s3 key.s3⟩

def mask : BitVec 8 := 0b11001100

/-- `enc_data`, `dec_data` and the scratchpad. -/
def pass_VAES512 (ptr : Nat) (s : Fused n) : Fused n :=
  let scratchpad_data := loadLine s.2.2 ptr 0
  let enc_data := _mm512_aesenc_epi128 aes s.1
    (_mm512_mask_blend_epi64 mask scratchpad_data AES_GEN_1R_KEY)
  let dec_data := _mm512_aesdec_epi128 aes s.2.1
    (_mm512_mask_blend_epi64 mask AES_GEN_1R_KEY scratchpad_data)
  (enc_data, dec_data, storeLine s.2.2 ptr 0 (_mm512_mask_blend_epi64 mask dec_data enc_data))

/-- The hash, the fill state and the scratchpad after.
mirrors src/crypto/randomx/aes_hash_vaes512.cpp:67-153 -/
def hashAndFillAes1Rx4_VAES512 (scratchpad : Vector V n) (scratchpadSize : Nat)
    (fill_state : Lanes) : Fused n :=
  let enc_data := _mm512_mask_blend_epi64 mask AES_HASH_1R_STATE fill_state
  let dec_data := _mm512_mask_blend_epi64 mask fill_state AES_HASH_1R_STATE
  let s := twice 64 (pass_VAES512 aes) scratchpadSize (enc_data, dec_data, scratchpad)
  let x0 : Lanes := ⟨AES_HASH_1R_XKEY0, AES_HASH_1R_XKEY0, AES_HASH_1R_XKEY0, AES_HASH_1R_XKEY0⟩
  let x1 : Lanes := ⟨AES_HASH_1R_XKEY1, AES_HASH_1R_XKEY1, AES_HASH_1R_XKEY1, AES_HASH_1R_XKEY1⟩
  let enc_data := _mm512_aesenc_epi128 aes (_mm512_aesenc_epi128 aes s.1 x0) x1
  let dec_data := _mm512_aesdec_epi128 aes (_mm512_aesdec_epi128 aes s.2.1 x0) x1
  (_mm512_mask_blend_epi64 mask enc_data dec_data, _mm512_mask_blend_epi64 mask s.2.1 s.1, s.2.2)

/-- `ARCH_ZEN5`: the processor is a Zen 5 and the build knows it. The hash, the fill state and
the scratchpad after.
mirrors src/crypto/randomx/aes_hash.cpp:291-445 -/
def hashAndFillAes1Rx4 (ARCH_ZEN5 : Bool) (softAes unroll : Int) (scratchpad : Vector V n)
    (scratchpadSize : Nat) (fill_state : Lanes) : Fused n :=
  if ARCH_ZEN5 then hashAndFillAes1Rx4_VAES512 aes scratchpad scratchpadSize fill_state
  else
    let s := twice (64 * unrolled softAes unroll) (pass aes softAes unroll) scratchpadSize
      (AES_HASH_1R_STATE, fill_state, scratchpad)
    (finish aes s.1, s.2.1, s.2.2)

/-- The bytes of a pass of the loop. -/
def blockSize (ARCH_ZEN5 : Bool) (softAes unroll : Int) : Nat :=
  if ARCH_ZEN5 then 64 else 64 * unrolled softAes unroll

/-! ## A line at a time -/

/-- Reading and overwriting a line. -/
def line : Fused n → Nat → Fused n := fuse (lines n) (hashStep aes) (fillStep aes) id

/-- Both passes over `k` lines. -/
def hashAndFill (scratchpad : Vector V n) (k : Nat) (fill_state : Lanes) : Fused n :=
  let s := (List.range k).foldl (line aes) (AES_HASH_1R_STATE, fill_state, scratchpad)
  (finish aes s.1, s.2.1, s.2.2)

theorem hashAes1Rx4_eq (input : Vector V n) (k : Nat) :
    hashAes1Rx4 aes input (64 * k) =
      finish aes ((List.range k).foldl (read (lines n) (hashStep aes) input)
        AES_HASH_1R_STATE) := by
  have h := @sweep_blocks _ 64 (by decide) (fun p s => hashStep aes s (loadLine input p 0)) 0 k
    AES_HASH_1R_STATE
  simp only [Nat.zero_add, Nat.mul_zero] at h
  unfold hashAes1Rx4
  rw [h, List.range_eq_range']
  rfl

theorem fillAes1Rx4_eq (state : Lanes) (k : Nat) (buffer : Vector V n) :
    fillAes1Rx4 aes state (64 * k) buffer =
      (List.range k).foldl (write (lines n) (fillStep aes) id) (state, buffer) := by
  have h := @sweep_blocks _ 64 (by decide) (fun p (s : Lanes × Vector V n) =>
    (fillStep aes s.1, storeLine s.2 p 0 (fillStep aes s.1))) 0 k (state, buffer)
  simp only [Nat.zero_add, Nat.mul_zero] at h
  unfold fillAes1Rx4
  rw [h, List.range_eq_range']
  rfl

theorem fill_hash_eq (i k : Nat) (s : Fused n) :
    FILL_STATE aes (64 * i) k (HASH_STATE aes (64 * i) k s) = line aes s (i + k) := by
  unfold FILL_STATE HASH_STATE
  rw [loadLine_eq, storeLine_eq]
  rfl

/-- The second line is read before the first is overwritten: it is another line. -/
theorem hash_fill_comm (i : Nat) (s : Fused n) :
    FILL_STATE aes (64 * i) 0 (HASH_STATE aes (64 * i) 1 s) =
      HASH_STATE aes (64 * i) 1 (FILL_STATE aes (64 * i) 0 s) := by
  have hload : loadLine (storeLine s.2.2 (64 * i) 0 (fillStep aes s.2.1)) (64 * i) 1 =
      loadLine s.2.2 (64 * i) 1 := by
    rw [loadLine_eq, loadLine_eq s.2.2]
    exact (lines n).load_store_ne _ _ (by omega)
  unfold FILL_STATE HASH_STATE
  simp only [hload]

theorem pass_eq (softAes unroll : Int) (i : Nat) (s : Fused n) :
    pass aes softAes unroll (64 * unrolled softAes unroll * i) s =
      (List.range' (unrolled softAes unroll * i) (unrolled softAes unroll)).foldl (line aes) s := by
  rw [Nat.mul_assoc]
  generalize hp : unrolled softAes unroll * i = p
  unfold pass unrolled
  by_cases h0 : softAes = 0
  · simp only [h0, if_true, hash_fill_comm, fill_hash_eq]
    rfl
  by_cases h4 : unroll = 4
  · simp only [h0, h4, if_true, if_false, fill_hash_eq]
    rfl
  by_cases h2 : unroll = 2
  · simp only [h0, h2, if_true, if_false, fill_hash_eq]
    rfl
  · simp only [h0, h4, h2, if_false, fill_hash_eq]
    rfl

theorem unrolled_mem (softAes unroll : Int) : unrolled softAes unroll ∈ [1, 2, 4] := by
  unfold unrolled
  split
  · simp
  split
  · simp
  split <;> simp

/-- The prefetch distance is at a block. -/
theorem twice_eq {block : Nat} (hblock : block ∣ 256) (body : Nat → Fused n → Fused n) (k : Nat)
    (s : Fused n) :
    twice block body (block * k) s =
      (List.range k).foldl (fun s i => body (block * i) s) s := by
  obtain ⟨q, hq⟩ := hblock
  have hpos : 0 < block := Nat.pos_of_ne_zero (by intro h; simp [h] at hq)
  have hdist : PREFETCH_DISTANCE = block * (q * 28) := by
    rw [← Nat.mul_assoc, ← hq]
    rfl
  have h := sweep_twice hpos body k (q * 28) s
  unfold twice
  simp only [hdist, h]

/-! ## What is filled -/

theorem load_store_eq (pad : Vector V n) (v : V) {i : Nat} (h : i < n) :
    rx_load_vec_i128 (rx_store_vec_i128 pad i v) i = v := by
  simp [rx_load_vec_i128, rx_store_vec_i128, h]

def Lanes.get (l : Lanes) : Nat → V
  | 0 => l.s0
  | 1 => l.s1
  | 2 => l.s2
  | _ => l.s3

theorem load_storeLine_eq (pad : Vector V n) (l : Lanes) {i : Nat} (h : i < n) :
    rx_load_vec_i128 (storeLine pad (64 * (i / 4)) 0 l) i = l.get (i % 4) := by
  have hptr : 64 * (i / 4) / 16 + 0 * 4 = 4 * (i / 4) := by omega
  have hi : i % 4 = 0 ∨ i % 4 = 1 ∨ i % 4 = 2 ∨ i % 4 = 3 := by omega
  unfold storeLine
  rw [hptr]
  rcases hi with hi | hi | hi | hi <;> rw [hi]
  · have heq : 4 * (i / 4) = i := by omega
    rw [load_store_ne _ _ (by omega), load_store_ne _ _ (by omega), load_store_ne _ _ (by omega),
      heq, load_store_eq _ _ h]
    rfl
  · have heq : 4 * (i / 4) + 1 = i := by omega
    rw [load_store_ne _ _ (by omega), load_store_ne _ _ (by omega), heq, load_store_eq _ _ h]
    rfl
  · have heq : 4 * (i / 4) + 2 = i := by omega
    rw [load_store_ne _ _ (by omega), heq, load_store_eq _ _ h]
    rfl
  · have heq : 4 * (i / 4) + 3 = i := by omega
    rw [heq, load_store_eq _ _ h]
    rfl

/-- After `k` lines the states are the same and so is what has been filled. -/
theorem write_eq_write (state : Lanes) (a b : Vector V n) (k : Nat) :
    let w := fun pad : Vector V n =>
      (List.range k).foldl (write (lines n) (fillStep aes) id) (state, pad)
    (w a).1 = (w b).1 ∧
      ∀ i < 4 * k, i < n → rx_load_vec_i128 (w a).2 i = rx_load_vec_i128 (w b).2 i := by
  induction k with
  | zero => simp
  | succ k ih =>
    obtain ⟨hstate, hpad⟩ := ih
    simp only [List.range_succ, List.foldl_append, List.foldl_cons, List.foldl_nil]
    have hnext := congrArg (fillStep aes) hstate
    refine ⟨hnext, ?_⟩
    intro i hi hn
    simp only [write, id]
    rw [hnext]
    show rx_load_vec_i128 (storeLine _ (64 * k) 0 _) i =
      rx_load_vec_i128 (storeLine _ (64 * k) 0 _) i
    by_cases hline : i / 4 = k
    · subst hline
      rw [load_storeLine_eq _ _ hn, load_storeLine_eq _ _ hn]
    · rw [load_storeLine_ne _ _ hline, load_storeLine_ne _ _ hline]
      exact hpad i (by omega) hn

theorem fill_eq_fill (state : Lanes) (h : 64 ∣ 16 * n) (a b : Vector V n) :
    fillAes1Rx4 aes state (16 * n) a = fillAes1Rx4 aes state (16 * n) b := by
  obtain ⟨k, hk⟩ := h
  obtain ⟨hstate, hpad⟩ := write_eq_write aes state a b k
  rw [hk, fillAes1Rx4_eq, fillAes1Rx4_eq]
  refine Prod.ext hstate ?_
  refine Vector.ext ?_
  intro i hi
  have hload := hpad i (by omega) hi
  simpa [rx_load_vec_i128, hi] using hload

/-! ## A Zen 5 -/

theorem blend_same (b : Bool) (x y : V) : blend b b x y = if b then y else x := by
  cases b
  · simp only [blend, Bool.false_eq_true, if_false]
    rw [BitVec.extractLsb'_append_extractLsb'_eq_extractLsb']
    · simp
    · omega
  · simp only [blend, if_true]
    rw [BitVec.extractLsb'_append_extractLsb'_eq_extractLsb']
    · simp
    · omega

/-- The first and third lane of one, the second and fourth of the other. -/
theorem blend_mask (a b : Lanes) :
    _mm512_mask_blend_epi64 mask a b = ⟨a.s0, b.s1, a.s2, b.s3⟩ := by
  have h0 : mask.getLsbD 0 = false := by decide
  have h1 : mask.getLsbD 1 = false := by decide
  have h2 : mask.getLsbD 2 = true := by decide
  have h3 : mask.getLsbD 3 = true := by decide
  have h4 : mask.getLsbD 4 = false := by decide
  have h5 : mask.getLsbD 5 = false := by decide
  have h6 : mask.getLsbD 6 = true := by decide
  have h7 : mask.getLsbD 7 = true := by decide
  simp only [_mm512_mask_blend_epi64, h0, h1, h2, h3, h4, h5, h6, h7, blend_same, if_true,
    Bool.false_eq_true, if_false]

/-- The hash state and the fill state, as the registers hold them: its own inverse. -/
def weave (s : Fused n) : Fused n :=
  (⟨s.1.s0, s.2.1.s1, s.1.s2, s.2.1.s3⟩, ⟨s.2.1.s0, s.1.s1, s.2.1.s2, s.1.s3⟩, s.2.2)

theorem pass_VAES512_weave (i : Nat) (s : Fused n) :
    pass_VAES512 aes (64 * i) (weave s) = weave (line aes s i) := by
  simp only [pass_VAES512, blend_mask]
  rfl

theorem foldl_weave (l : List Nat) (s : Fused n) :
    l.foldl (fun s i => pass_VAES512 aes (64 * i) s) (weave s) =
      weave (l.foldl (line aes) s) := by
  induction l generalizing s with
  | nil => rfl
  | cons i l ih => rw [List.foldl_cons, pass_VAES512_weave, ih, List.foldl_cons]

theorem hashAndFillAes1Rx4_VAES512_eq (scratchpad : Vector V n) (k : Nat) (fill_state : Lanes) :
    hashAndFillAes1Rx4_VAES512 aes scratchpad (64 * k) fill_state =
      hashAndFill aes scratchpad k fill_state := by
  unfold hashAndFillAes1Rx4_VAES512
  simp only [blend_mask]
  rw [twice_eq (by decide)]
  have h := foldl_weave aes (List.range k) (AES_HASH_1R_STATE, fill_state, scratchpad)
  simp only [weave] at h
  rw [h]
  rfl

/-! ## Both passes in one -/

theorem unrolled_eq (softAes unroll : Int) (scratchpad : Vector V n) (k : Nat)
    (fill_state : Lanes) :
    hashAndFillAes1Rx4 aes false softAes unroll scratchpad (64 * unrolled softAes unroll * k)
        fill_state = hashAndFill aes scratchpad (unrolled softAes unroll * k) fill_state := by
  have hdvd : 64 * unrolled softAes unroll ∣ 256 := by
    have h := unrolled_mem softAes unroll
    generalize unrolled softAes unroll = u at h ⊢
    revert h u
    decide
  have hblocks := foldl_blocks (fun s i => pass_eq aes softAes unroll i s) 0 k
    (AES_HASH_1R_STATE, fill_state, scratchpad)
  simp only [Nat.mul_zero] at hblocks
  unfold hashAndFillAes1Rx4
  simp only [Bool.false_eq_true, if_false]
  rw [twice_eq hdvd, List.range_eq_range', hblocks]
  unfold hashAndFill
  rw [List.range_eq_range']

theorem hashAndFillAes1Rx4_eq {ARCH_ZEN5 : Bool} {softAes unroll : Int} (scratchpad : Vector V n)
    {scratchpadSize : Nat} (h : blockSize ARCH_ZEN5 softAes unroll ∣ scratchpadSize)
    (fill_state : Lanes) :
    hashAndFillAes1Rx4 aes ARCH_ZEN5 softAes unroll scratchpad scratchpadSize fill_state =
      (hashAes1Rx4 aes scratchpad scratchpadSize,
        fillAes1Rx4 aes fill_state scratchpadSize scratchpad) := by
  obtain ⟨k, rfl⟩ := h
  cases ARCH_ZEN5 with
  | true =>
    have hz : hashAndFillAes1Rx4 aes true softAes unroll scratchpad (64 * k) fill_state =
      hashAndFillAes1Rx4_VAES512 aes scratchpad (64 * k) fill_state := rfl
    simp only [blockSize, if_true]
    rw [hz, hashAndFillAes1Rx4_VAES512_eq, hashAes1Rx4_eq, fillAes1Rx4_eq]
    simp only [hashAndFill, line, fuse_eq]
  | false =>
    simp only [blockSize, Bool.false_eq_true, if_false]
    rw [unrolled_eq, Nat.mul_assoc, hashAes1Rx4_eq, fillAes1Rx4_eq]
    simp only [hashAndFill, line, fuse_eq]

end Rxs.L2.AesHash
