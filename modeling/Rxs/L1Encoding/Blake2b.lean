import Mathlib.Logic.Function.Basic
import Rxs.Core.Blake2b

/-!
# The streaming BLAKE2b

`rx_blake2b_init`, `rx_blake2b_update` and `rx_blake2b_final` hash an input that comes in
pieces: a buffer keeps up to a block, and a full buffer is compressed only when more follows.
The compression is called through a pointer; `rx_blake2b_compress_integer` has its sixteen words
in an array.

* `compress_integer_eq`: it is the compression of the specification.
* `Holds`: what the state is of the pieces so far; `update_holds`.
* **`stream_digest`**: pieces of any lengths give the digest of all of them, and a state that
  has been finished is refused.
-/
namespace Rxs.L1.Blake2b

open Rxs.Core Rxs.Core.Bytes Rxs.Core.BlockStream
open Rxs.Core.Blake2b (W Row Rows SIGMA F BLOCKBYTES words padded offset start chain full digest
  absorb blake2b hold_chain low high message round IV sixteen_cases)

/-! ## The source -/

def BLAKE2B_BLOCKBYTES : Nat := 128
def BLAKE2B_OUTBYTES : Nat := 64
def BLAKE2B_KEYBYTES : Nat := 64

/-- mirrors src/crypto/randomx/blake2/blake2b.c:41-45 -/
def blake2b_IV : Fin 8 → W :=
  ![0x6a09e667f3bcc908, 0xbb67ae8584caa73b, 0x3c6ef372fe94f82b, 0xa54ff53a5f1d36f1,
    0x510e527fade682d1, 0x9b05688c2b3e6c1f, 0x1f83d9abfb41bd6b, 0x5be0cd19137e2179]

/-- mirrors src/crypto/randomx/blake2/blake2b.c:47-60 -/
def blake2b_sigma : Fin 12 → Fin 16 → Fin 16 :=
  ![![0, 1, 2, 3, 4, 5, 6, 7, 8, 9, 10, 11, 12, 13, 14, 15],
    ![14, 10, 4, 8, 9, 15, 13, 6, 1, 12, 0, 2, 11, 7, 5, 3],
    ![11, 8, 12, 0, 5, 2, 15, 13, 10, 14, 3, 6, 7, 1, 9, 4],
    ![7, 9, 3, 1, 13, 12, 11, 14, 2, 6, 5, 10, 4, 0, 15, 8],
    ![9, 0, 5, 7, 2, 4, 10, 15, 14, 1, 11, 12, 6, 8, 3, 13],
    ![2, 12, 6, 10, 0, 11, 8, 3, 4, 13, 7, 5, 15, 14, 1, 9],
    ![12, 5, 1, 15, 14, 13, 4, 10, 0, 7, 6, 3, 9, 2, 8, 11],
    ![13, 11, 7, 14, 12, 1, 3, 9, 5, 0, 15, 4, 8, 6, 2, 10],
    ![6, 15, 14, 9, 11, 3, 0, 8, 12, 2, 13, 7, 1, 4, 10, 5],
    ![10, 2, 8, 4, 7, 6, 1, 5, 15, 11, 9, 14, 3, 12, 13, 0],
    ![0, 1, 2, 3, 4, 5, 6, 7, 8, 9, 10, 11, 12, 13, 14, 15],
    ![14, 10, 4, 8, 9, 15, 13, 6, 1, 12, 0, 2, 11, 7, 5, 3]]

/-- `blake2b_state`; `buf` has `BLAKE2B_BLOCKBYTES` bytes.
mirrors src/crypto/randomx/blake2/blake2.h:68-76 -/
structure State where
  h : Fin 8 → W
  t0 : W
  t1 : W
  f0 : W
  f1 : W
  buf : Bytes
  buflen : Nat
  outlen : Nat
  last_node : UInt8

def load64 (b : Bytes) (i : Nat) : W := BitVec.ofNat 64 (readLE (slice b i 8))

/-- mirrors src/crypto/randomx/blake2/blake2-impl.h:70-72 -/
def rotr64 (w : W) (c : Nat) : W := (w >>> c) ||| (w <<< (64 - c))

/-- mirrors src/crypto/randomx/blake2/blake2b.c:66-71 -/
def blake2b_set_lastblock (S : State) : State :=
  let S := if S.last_node ≠ 0 then { S with f1 := BitVec.allOnes 64 } else S
  { S with f0 := BitVec.allOnes 64 }

/-- mirrors src/crypto/randomx/blake2/blake2b.c:73-77 -/
def blake2b_increment_counter (S : State) (inc : Nat) : State :=
  let t0 := S.t0 + BitVec.ofNat 64 inc
  { S with t0 := t0, t1 := S.t1 + if t0 < BitVec.ofNat 64 inc then 1 else 0 }

/-- `blake2b_param` of 64 bytes, as the three functions that fill it leave it.
mirrors src/crypto/randomx/blake2/blake2b.c:119-130 -/
def param (digest_length key_length : Nat) : Bytes :=
  [UInt8.ofNat digest_length, UInt8.ofNat key_length, 1, 1] ++ List.replicate 60 0

/-- mirrors src/crypto/randomx/blake2/blake2b.c:84-105 -/
def rx_blake2b_init_param (P : Bytes) : State where
  h i := blake2b_IV i ^^^ load64 P (8 * i.val)
  t0 := 0
  t1 := 0
  f0 := 0
  f1 := 0
  buf := List.replicate BLAKE2B_BLOCKBYTES 0
  buflen := 0
  outlen := (P.headD 0).toNat
  last_node := 0

/-- The state, when the code is zero.
mirrors src/crypto/randomx/blake2/blake2b.c:108-133 -/
def rx_blake2b_init (outlen : Nat) : Option State :=
  if outlen = 0 ∨ outlen > BLAKE2B_OUTBYTES then none
  else some (rx_blake2b_init_param (param outlen 0))

/-- A mixing of the array; `m` is the block's words.
mirrors src/crypto/randomx/blake2/blake2b.c:206-216 -/
def G (m : Fin 16 → W) (x y : Fin 16) (a b c d : Fin 16) (v : Fin 16 → W) : Fin 16 → W :=
  let v := Function.update v a (v a + v b + m x)
  let v := Function.update v d (rotr64 (v d ^^^ v a) 32)
  let v := Function.update v c (v c + v d)
  let v := Function.update v b (rotr64 (v b ^^^ v c) 24)
  let v := Function.update v a (v a + v b + m y)
  let v := Function.update v d (rotr64 (v d ^^^ v a) 16)
  let v := Function.update v c (v c + v d)
  Function.update v b (rotr64 (v b ^^^ v c) 63)

/-- mirrors src/crypto/randomx/blake2/blake2b.c:218-229 -/
def ROUND (m : Fin 16 → W) (v : Fin 16 → W) (r : Fin 12) : Fin 16 → W :=
  let σ := blake2b_sigma r
  let v := G m (σ 0) (σ 1) 0 4 8 12 v
  let v := G m (σ 2) (σ 3) 1 5 9 13 v
  let v := G m (σ 4) (σ 5) 2 6 10 14 v
  let v := G m (σ 6) (σ 7) 3 7 11 15 v
  let v := G m (σ 8) (σ 9) 0 5 10 15 v
  let v := G m (σ 10) (σ 11) 1 6 11 12 v
  let v := G m (σ 12) (σ 13) 2 7 8 13 v
  G m (σ 14) (σ 15) 3 4 9 14 v

/-- mirrors src/crypto/randomx/blake2/blake2b.c:182-242 -/
def rx_blake2b_compress_integer (S : State) (block : Bytes) : State :=
  let m : Fin 16 → W := fun i => load64 block (8 * i.val)
  let v : Fin 16 → W :=
    ![S.h 0, S.h 1, S.h 2, S.h 3, S.h 4, S.h 5, S.h 6, S.h 7,
      blake2b_IV 0, blake2b_IV 1, blake2b_IV 2, blake2b_IV 3, blake2b_IV 4 ^^^ S.t0,
      blake2b_IV 5 ^^^ S.t1, blake2b_IV 6 ^^^ S.f0, blake2b_IV 7 ^^^ S.f1]
  let v := (List.finRange 12).foldl (ROUND m) v
  { S with h := fun i => S.h i ^^^ v (Fin.castAdd 8 i) ^^^ v (Fin.natAdd 8 i) }

/-- `rx_blake2b_compress` points to one of them. -/
abbrev Compress := State → Bytes → State

section

variable (rx_blake2b_compress : Compress)

/-- `while (inlen > BLAKE2B_BLOCKBYTES)`: the state and what is left of the input. -/
def compressBlocks (S : State) (pin : Bytes) : State × Bytes :=
  if BLAKE2B_BLOCKBYTES < pin.length then
    let S := rx_blake2b_compress (blake2b_increment_counter S BLAKE2B_BLOCKBYTES)
      (pin.take BLAKE2B_BLOCKBYTES)
    compressBlocks S (pin.drop BLAKE2B_BLOCKBYTES)
  else (S, pin)
termination_by pin.length
decreasing_by
  rw [List.length_drop]
  unfold BLAKE2B_BLOCKBYTES at *
  omega

/-- Complete the current block.
mirrors src/crypto/randomx/blake2/blake2b.c:261-267 -/
def completeBlock (S : State) (pin : Bytes) : State :=
  let S := { S with buf := S.buf.writeAt S.buflen pin }
  let S := blake2b_increment_counter S BLAKE2B_BLOCKBYTES
  { rx_blake2b_compress S S.buf with buflen := 0 }

/-- mirrors src/crypto/randomx/blake2/blake2b.c:278-279 -/
def appendBuffer (S : State) (pin : Bytes) : State :=
  { S with buf := S.buf.writeAt S.buflen pin, buflen := S.buflen + pin.length }

/-- The state, when the code is zero.
mirrors src/crypto/randomx/blake2/blake2b.c:244-282 -/
def rx_blake2b_update (S : State) (pin : Bytes) : Option State :=
  if pin.length = 0 then some S
  else if S.f0 ≠ 0 then none
  else if S.buflen + pin.length > BLAKE2B_BLOCKBYTES then
    let fill := BLAKE2B_BLOCKBYTES - S.buflen
    let p := compressBlocks rx_blake2b_compress
      (completeBlock rx_blake2b_compress S (pin.take fill)) (pin.drop fill)
    some (appendBuffer p.1 p.2)
  else some (appendBuffer S pin)

/-- The state and the digest, when the code is zero; `outlen` is the room that there is for it.
mirrors src/crypto/randomx/blake2/blake2b.c:284-315 -/
def rx_blake2b_final (S : State) (outlen : Nat) : Option (State × Bytes) :=
  if outlen < S.outlen then none
  else if S.f0 ≠ 0 then none
  else
    let S := blake2b_increment_counter S S.buflen
    let S := blake2b_set_lastblock S
    let S := { S with
      buf := S.buf.writeAt S.buflen (List.replicate (BLAKE2B_BLOCKBYTES - S.buflen) 0) }
    let S := rx_blake2b_compress S S.buf
    some (S, ((List.finRange 8).flatMap fun i => le 8 (S.h i).toNat).take S.outlen)

/-- mirrors src/crypto/randomx/blake2/blake2b.c:317-341 -/
def rx_blake2b_default (outlen : Nat) (pin : Bytes) : Option Bytes :=
  if outlen = 0 ∨ outlen > BLAKE2B_OUTBYTES then none
  else do
    let S ← rx_blake2b_init outlen
    let S ← rx_blake2b_update rx_blake2b_compress S pin
    let p ← rx_blake2b_final rx_blake2b_compress S outlen
    return p.2

end

/-! ## The compression -/

theorem rotr64_eq (w : W) {c : Nat} (h : c < 64) : rotr64 w c = w.rotateRight c := by
  rw [rotr64, BitVec.rotateRight_def, Nat.mod_eq_of_lt h]

theorem sigma_eq : ∀ (r : Fin 12) (i : Fin 16), blake2b_sigma r i = SIGMA r.val i := by
  decide

/-- The rows as an array. -/
def array (s : Rows) : Fin 16 → W :=
  ![s.a 0, s.a 1, s.a 2, s.a 3, s.b 0, s.b 1, s.b 2, s.b 3, s.c 0, s.c 1, s.c 2, s.c 3,
    s.d 0, s.d 1, s.d 2, s.d 3]

theorem columns_eq (m : Fin 16 → W) (r : Nat) (s : Rows) :
    G m (SIGMA r 6) (SIGMA r 7) 3 7 11 15 (G m (SIGMA r 4) (SIGMA r 5) 2 6 10 14
      (G m (SIGMA r 2) (SIGMA r 3) 1 5 9 13 (G m (SIGMA r 0) (SIGMA r 1) 0 4 8 12 (array s)))) =
    array (s.mix (message m r 0) (message m r 1)) := by
  funext j
  refine sixteen_cases j ?_ ?_ ?_ ?_ ?_ ?_ ?_ ?_ ?_ ?_ ?_ ?_ ?_ ?_ ?_ ?_ <;> rfl

/-- The diagonals are the columns of the rows that have moved. -/
theorem diagonals_eq (m : Fin 16 → W) (r : Nat) (s : Rows) :
    G m (SIGMA r 14) (SIGMA r 15) 3 4 9 14 (G m (SIGMA r 12) (SIGMA r 13) 2 7 8 13
      (G m (SIGMA r 10) (SIGMA r 11) 1 6 11 12 (G m (SIGMA r 8) (SIGMA r 9) 0 5 10 15 (array s)))) =
    array (s.diagonalize.mix (message m r 2) (message m r 3)).undiagonalize := by
  funext j
  refine sixteen_cases j ?_ ?_ ?_ ?_ ?_ ?_ ?_ ?_ ?_ ?_ ?_ ?_ ?_ ?_ ?_ ?_ <;> rfl

theorem ROUND_eq (m : Fin 16 → W) (s : Rows) (r : Fin 12) :
    ROUND m (array s) r = array (round m s r.val) := by
  simp only [ROUND, sigma_eq]
  rw [columns_eq, diagonals_eq]
  rfl

theorem rounds_eq (m : Fin 16 → W) (s : Rows) (rs : List (Fin 12)) :
    rs.foldl (ROUND m) (array s) = array ((rs.map Fin.val).foldl (round m) s) := by
  induction rs generalizing s with
  | nil => rfl
  | cons r rs ih => rw [List.foldl_cons, ROUND_eq, ih, List.map_cons, List.foldl_cons]

/-- What a compression is for. -/
def Compresses (compress : Compress) : Prop := ∀ S block,
  compress S block = { S with h := F S.h (words block) ![S.t0, S.t1, S.f0, S.f1] }

theorem array_start (h : Fin 8 → W) (x : Row) :
    ![h 0, h 1, h 2, h 3, h 4, h 5, h 6, h 7, blake2b_IV 0, blake2b_IV 1, blake2b_IV 2,
      blake2b_IV 3, blake2b_IV 4 ^^^ x 0, blake2b_IV 5 ^^^ x 1, blake2b_IV 6 ^^^ x 2,
      blake2b_IV 7 ^^^ x 3] = array ⟨low h, high h, low IV, fun i => high IV i ^^^ x i⟩ := rfl

/-- **The array's compression** is the rows'. -/
theorem compress_integer_eq : Compresses rx_blake2b_compress_integer := by
  intro S block
  have hrange : (List.finRange 12).map Fin.val = List.range 12 := by decide
  have hwords : (fun i : Fin 16 => load64 block (8 * i.val)) = words block := rfl
  have hstart := array_start S.h ![S.t0, S.t1, S.f0, S.f1]
  have hrounds := rounds_eq (words block)
    ⟨low S.h, high S.h, low IV, fun i => high IV i ^^^ ![S.t0, S.t1, S.f0, S.f1] i⟩
    (List.finRange 12)
  simp only [Matrix.cons_val] at hstart
  rw [hrange] at hrounds
  have hh : (rx_blake2b_compress_integer S block).h =
      F S.h (words block) ![S.t0, S.t1, S.f0, S.f1] := by
    unfold rx_blake2b_compress_integer F
    dsimp only
    rw [hwords, hstart, hrounds]
    generalize (List.range 12).foldl (round (words block)) _ = s
    funext i
    refine eight_cases i ?_ ?_ ?_ ?_ ?_ ?_ ?_ ?_ <;> rfl
  rw [← hh]
  rfl

/-! ## The stream -/

/-- What the state stands for: the stream's state, and the bytes in the buffer. -/
structure Holds (nn : Nat) (p : ((Fin 8 → W) × Nat) × Bytes) (S : State) : Prop where
  h : S.h = p.1.1
  t0 : S.t0 = BitVec.ofNat 64 p.1.2
  t1 : S.t1 = BitVec.ofNat 64 (p.1.2 / 2 ^ 64)
  f0 : S.f0 = 0
  f1 : S.f1 = 0
  buf : S.buf.length = BLOCKBYTES
  buflen : S.buflen = p.2.length
  held : S.buf.take S.buflen = p.2
  room : p.2.length ≤ BLOCKBYTES
  outlen : S.outlen = nn
  last_node : S.last_node = 0

theorem increment_counter_eq (S : State) {t n : Nat} (h0 : S.t0 = BitVec.ofNat 64 t)
    (h1 : S.t1 = BitVec.ofNat 64 (t / 2 ^ 64)) (hn : n < 2 ^ 64) :
    blake2b_increment_counter S n =
      { S with t0 := BitVec.ofNat 64 (t + n), t1 := BitVec.ofNat 64 ((t + n) / 2 ^ 64) } := by
  have ht0 : BitVec.ofNat 64 t + BitVec.ofNat 64 n = BitVec.ofNat 64 (t + n) :=
    BitVec.ofNat_add_ofNat ..
  have ht1 : BitVec.ofNat 64 (t / 2 ^ 64) +
      (if BitVec.ofNat 64 (t + n) < BitVec.ofNat 64 n then 1 else 0) =
        BitVec.ofNat 64 ((t + n) / 2 ^ 64) := by
    apply BitVec.eq_of_toNat_eq
    have hone : (1 : W).toNat = 1 := rfl
    have hzero : (0 : W).toNat = 0 := rfl
    simp only [BitVec.lt_def, BitVec.toNat_add, BitVec.toNat_ofNat]
    split
    · rw [hone]
      omega
    · rw [hzero]
      omega
  simp only [blake2b_increment_counter, h0, h1, ht0, ht1]

theorem writeAt_full {b d : Bytes} {off : Nat} (h : off + d.length = b.length) :
    b.writeAt off d = b.take off ++ d := by
  rw [Bytes.writeAt, h, List.drop_length, List.append_nil]

theorem take_writeAt {b d : Bytes} {off : Nat} (h : off + d.length ≤ b.length) :
    (b.writeAt off d).take (off + d.length) = b.take off ++ d := by
  have hlen : (b.take off ++ d).length = off + d.length := by
    rw [List.length_append, List.length_take]
    omega
  rw [Bytes.writeAt, List.take_append_of_le_length (by omega), List.take_of_length_le (by omega)]

theorem param_word {nn : Nat} (h : nn < 65) (i : Fin 8) : load64 (param nn 0) (8 * i.val) =
    if i = 0 then 0x01010000 ^^^ BitVec.ofNat 64 nn else 0 := by
  have hfirst : ∀ n < 65, load64 (param n 0) 0 = 0x01010000 ^^^ BitVec.ofNat 64 n := by decide
  refine eight_cases i ?_ ?_ ?_ ?_ ?_ ?_ ?_ ?_
  · exact hfirst nn h
  all_goals rfl

theorem init_holds {nn : Nat} (h : 0 < nn ∧ nn ≤ BLAKE2B_OUTBYTES) :
    ∃ S, rx_blake2b_init nn = some S ∧ Holds nn ((start nn, 0), []) S := by
  have hnn : nn < 65 := Nat.lt_succ_of_le h.2
  have hstart : (rx_blake2b_init_param (param nn 0)).h = start nn := by
    funext i
    rw [start, ← param_word hnn]
    rfl
  have hlen : (UInt8.ofNat nn).toNat = nn := by
    rw [UInt8.toNat_ofNat']
    omega
  refine ⟨rx_blake2b_init_param (param nn 0), by rw [rx_blake2b_init, if_neg (by omega)], ?_⟩
  exact
    { h := hstart
      t0 := rfl
      t1 := show (0 : W) = BitVec.ofNat 64 (0 / 2 ^ 64) by decide
      f0 := rfl
      f1 := rfl
      buf := List.length_replicate
      buflen := rfl
      held := rfl
      room := Nat.zero_le _
      outlen := hlen
      last_node := rfl }

theorem Holds.append {nn : Nat} {p : ((Fin 8 → W) × Nat) × Bytes} {S : State} (h : Holds nn p S)
    {x : Bytes} (hx : p.2.length + x.length ≤ BLOCKBYTES) :
    Holds nn (p.1, p.2 ++ x) (appendBuffer S x) := by
  have hfits : S.buflen + x.length ≤ S.buf.length := by rwa [h.buflen, h.buf]
  exact
    { h with
      buf := (Bytes.length_writeAt hfits).trans h.buf
      buflen := by rw [List.length_append, ← h.buflen]; rfl
      held := (take_writeAt hfits).trans (by rw [h.held])
      room := by rwa [List.length_append] }

section

variable {compress : Compress} (hc : Compresses compress) {nn : Nat}

include hc

/-- A full block. -/
theorem Holds.absorb {p : ((Fin 8 → W) × Nat) × Bytes} {S : State} (h : Holds nn p S) (b : Bytes) :
    Holds nn (absorb p.1 b, p.2) (compress (blake2b_increment_counter S BLAKE2B_BLOCKBYTES) b) := by
  rw [increment_counter_eq S h.t0 h.t1 (by decide), hc]
  refine { h with h := ?_, t0 := rfl, t1 := rfl }
  simp only [Core.Blake2b.absorb, offset, h.h, h.f0, h.f1]
  rfl

theorem Holds.compressBlocks {s : (Fin 8 → W) × Nat} {held : Bytes} {S : State}
    (h : Holds nn (s, held) S) (x : Bytes) :
    (compressBlocks compress S x).2 = (hold BLOCKBYTES Core.Blake2b.absorb s x).2 ∧
      Holds nn ((hold BLOCKBYTES Core.Blake2b.absorb s x).1, held)
        (compressBlocks compress S x).1 := by
  induction s, x using hold.induct BLOCKBYTES Core.Blake2b.absorb generalizing S with
  | case1 s x hx ih =>
    have hlong : BLAKE2B_BLOCKBYTES < x.length := hx.2
    rw [Blake2b.compressBlocks, if_pos hlong, hold_step hx.1 s hx.2]
    exact ih (h.absorb hc (x.take BLOCKBYTES))
  | case2 s x hx =>
    have hle : x.length ≤ BLOCKBYTES := by
      have hpos : 0 < BLOCKBYTES := by decide
      omega
    have hshort : ¬ BLAKE2B_BLOCKBYTES < x.length := Nat.not_lt.mpr hle
    rw [Blake2b.compressBlocks, if_neg hshort, hold_short s hle]
    exact ⟨rfl, h⟩

theorem Holds.completeBlock {p : ((Fin 8 → W) × Nat) × Bytes} {S : State} (h : Holds nn p S)
    {x : Bytes} (hx : p.2.length + x.length = BLOCKBYTES) :
    Holds nn (Core.Blake2b.absorb p.1 (p.2 ++ x), []) (completeBlock compress S x) := by
  have hfull : S.buflen + x.length = S.buf.length := by rw [h.buflen, h.buf, hx]
  have hbuf := writeAt_full hfull
  rw [h.held] at hbuf
  have hlen : (p.2 ++ x).length = BLOCKBYTES := by rw [List.length_append, hx]
  have hempty : Holds nn (p.1, []) { S with buf := p.2 ++ x, buflen := 0 } :=
    { h with
      buf := hlen
      buflen := rfl
      held := rfl
      room := Nat.zero_le _ }
  have habsorb := hempty.absorb hc (p.2 ++ x)
  rw [increment_counter_eq { S with buf := p.2 ++ x, buflen := 0 } h.t0 h.t1 (by decide), hc]
    at habsorb
  rw [Blake2b.completeBlock, hbuf,
    increment_counter_eq { S with buf := p.2 ++ x } h.t0 h.t1 (by decide), hc]
  dsimp only at habsorb ⊢
  exact habsorb

/-- **A piece.** -/
theorem update_holds {p : ((Fin 8 → W) × Nat) × Bytes} {S : State} (h : Holds nn p S)
    (x : Bytes) : ∃ S', rx_blake2b_update compress S x = some S' ∧
      Holds nn (feed BLOCKBYTES Core.Blake2b.absorb p x) S' := by
  have hroom := h.room
  by_cases hx : x.length = 0
  · obtain rfl := List.length_eq_zero_iff.mp hx
    refine ⟨S, by rw [rx_blake2b_update, if_pos hx], ?_⟩
    rw [feed, if_neg (by rw [hx]; omega), List.append_nil]
    exact h
  by_cases hlong : BLOCKBYTES < p.2.length + x.length
  · have hover : S.buflen + x.length > BLAKE2B_BLOCKBYTES := by rwa [h.buflen]
    have hfill : p.2.length + (x.take (BLOCKBYTES - p.2.length)).length = BLOCKBYTES := by
      rw [List.length_take]
      omega
    obtain ⟨hleft, hblocks⟩ := (h.completeBlock hc hfill).compressBlocks hc
      (x.drop (BLOCKBYTES - p.2.length))
    have hlen := @length_hold _ _ BLOCKBYTES Core.Blake2b.absorb (show 0 < BLOCKBYTES by decide)
      (Core.Blake2b.absorb p.1 (p.2 ++ x.take (BLOCKBYTES - p.2.length)))
      (x.drop (BLOCKBYTES - p.2.length))
    rw [rx_blake2b_update, if_neg hx, if_neg (not_not_intro h.f0), if_pos hover, h.buflen, feed,
      if_pos hlong]
    refine ⟨_, rfl, ?_⟩
    change Holds nn _ (appendBuffer
      (Blake2b.compressBlocks compress
        (Blake2b.completeBlock compress S (x.take (BLOCKBYTES - p.2.length)))
        (x.drop (BLOCKBYTES - p.2.length))).1
      (Blake2b.compressBlocks compress
        (Blake2b.completeBlock compress S (x.take (BLOCKBYTES - p.2.length)))
        (x.drop (BLOCKBYTES - p.2.length))).2)
    rw [hleft]
    exact hblocks.append (by rwa [List.length_nil, Nat.zero_add])
  · have hover : ¬ S.buflen + x.length > BLAKE2B_BLOCKBYTES := by
      rw [h.buflen]
      exact hlong
    rw [rx_blake2b_update, if_neg hx, if_neg (not_not_intro h.f0), if_neg hover, feed,
      if_neg hlong]
    exact ⟨_, rfl, h.append (Nat.le_of_not_lt hlong)⟩

theorem updates_hold {p : ((Fin 8 → W) × Nat) × Bytes} {S : State} (h : Holds nn p S)
    (xs : List Bytes) : ∃ S', xs.foldlM (rx_blake2b_update compress) S = some S' ∧
      Holds nn (xs.foldl (feed BLOCKBYTES Core.Blake2b.absorb) p) S' := by
  induction xs generalizing p S with
  | nil => exact ⟨S, rfl, h⟩
  | cons x xs ih =>
    obtain ⟨S₁, hS₁, h₁⟩ := update_holds hc h x
    obtain ⟨S', hS', h'⟩ := ih h₁
    exact ⟨S', by rw [List.foldlM_cons, hS₁]; exact hS', h'⟩

theorem final_holds {p : ((Fin 8 → W) × Nat) × Bytes} {S : State} (h : Holds nn p S)
    {outlen : Nat} (hout : nn ≤ outlen) :
    ∃ S', rx_blake2b_final compress S outlen = some (S', (digest (F p.1.1 (words (padded p.2))
      (offset (p.1.2 + p.2.length) true))).take nn) ∧ S'.f0 ≠ 0 := by
  have hpad : S.buf.writeAt S.buflen (List.replicate (BLAKE2B_BLOCKBYTES - S.buflen) 0) =
      padded p.2 := by
    have hroom := h.room
    have hfull : S.buflen + (List.replicate (BLAKE2B_BLOCKBYTES - S.buflen) (0 : UInt8)).length =
        S.buf.length := by
      rw [List.length_replicate, h.buflen, h.buf]
      exact Nat.add_sub_of_le hroom
    rw [writeAt_full hfull, h.held, h.buflen]
    rfl
  have hlt : S.buflen < 2 ^ 64 := by
    have hroom := h.room
    have hB : BLOCKBYTES < 2 ^ 64 := by decide
    rw [h.buflen]
    omega
  have hlast : blake2b_set_lastblock (blake2b_increment_counter S S.buflen) =
      { S with
        t0 := BitVec.ofNat 64 (p.1.2 + S.buflen)
        t1 := BitVec.ofNat 64 ((p.1.2 + S.buflen) / 2 ^ 64)
        f0 := BitVec.allOnes 64 } := by
    rw [increment_counter_eq S h.t0 h.t1 hlt, blake2b_set_lastblock]
    simp only [h.last_node, ne_eq, not_true_eq_false, if_false]
  have hroom : ¬ outlen < S.outlen := by
    rw [h.outlen]
    omega
  rw [rx_blake2b_final, if_neg hroom, if_neg (not_not_intro h.f0)]
  dsimp only
  rw [hlast, hpad, hc]
  refine ⟨_, congrArg some (Prod.ext rfl ?_), show BitVec.allOnes 64 ≠ 0 by decide⟩
  simp only [h.outlen, h.h, h.buflen, h.f1]
  rfl

end

/-- `init`, an update for each piece, and `final`. -/
def stream (compress : Compress) (nn : Nat) (xs : List Bytes) (outlen : Nat) :
    Option (State × Bytes) := do
  let S ← rx_blake2b_init nn
  let S ← xs.foldlM (rx_blake2b_update compress) S
  rx_blake2b_final compress S outlen

theorem stream_eq {compress : Compress} (hc : Compresses compress) {nn outlen : Nat}
    (hnn : 0 < nn ∧ nn ≤ BLAKE2B_OUTBYTES) (hout : nn ≤ outlen) (xs : List Bytes) :
    ∃ S, stream compress nn xs outlen = some (S, blake2b nn xs.flatten) ∧ S.f0 ≠ 0 := by
  obtain ⟨S, hS, h⟩ := init_holds hnn
  obtain ⟨S₁, hS₁, h₁⟩ := updates_hold hc h xs
  obtain ⟨S₂, hS₂, hf0⟩ := final_holds hc h₁ hout
  have hhold := @foldl_feed _ _ BLOCKBYTES absorb (by decide) (start nn, 0) [] xs
  rw [hold_short _ (Nat.zero_le _), List.nil_append, hold_chain] at hhold
  have hlen : BLOCKBYTES * full xs.flatten + (xs.flatten.length - BLOCKBYTES * full xs.flatten) =
      xs.flatten.length := by
    unfold full BLOCKBYTES
    omega
  refine ⟨S₂, ?_, hf0⟩
  rw [stream, hS]
  refine Eq.trans (congrArg (· >>= fun S => rx_blake2b_final compress S outlen) hS₁) ?_
  refine hS₂.trans ?_
  rw [hhold, blake2b, List.length_drop, hlen]

/-- **The digest of the pieces** is the digest of all of them, however long each of them is; a
state that has given it takes no more. -/
theorem stream_digest {compress : Compress} (hc : Compresses compress) {nn outlen : Nat}
    (hnn : 0 < nn ∧ nn ≤ BLAKE2B_OUTBYTES) (hout : nn ≤ outlen) (xs : List Bytes) :
    ∃ S, stream compress nn xs outlen = some (S, blake2b nn xs.flatten) ∧
      (∀ x, x ≠ [] → rx_blake2b_update compress S x = none) ∧
      ∀ n, rx_blake2b_final compress S n = none := by
  obtain ⟨S, hS, hf0⟩ := stream_eq hc hnn hout xs
  refine ⟨S, hS, fun x hx => ?_, fun n => ?_⟩
  · have hlen : x.length ≠ 0 := fun h => hx (List.length_eq_zero_iff.mp h)
    rw [rx_blake2b_update, if_neg hlen, if_pos hf0]
  · rw [rx_blake2b_final, if_pos hf0]
    exact ite_self none

theorem stream_digest_two : ∃ S, stream rx_blake2b_compress_integer 32 [[1], [2, 3]] 64 =
      some (S, blake2b 32 [1, 2, 3]) ∧
    (∀ x, x ≠ [] → rx_blake2b_update rx_blake2b_compress_integer S x = none) ∧
    ∀ n, rx_blake2b_final rx_blake2b_compress_integer S n = none :=
  stream_digest compress_integer_eq (by decide) (by decide) [[1], [2, 3]]

theorem default_digest {compress : Compress} (hc : Compresses compress) {nn : Nat}
    (hnn : 0 < nn ∧ nn ≤ BLAKE2B_OUTBYTES) (pin : Bytes) :
    rx_blake2b_default compress nn pin = some (blake2b nn pin) := by
  obtain ⟨S, hS, -⟩ := stream_eq hc hnn (Nat.le_refl nn) [pin]
  rw [List.flatten_singleton] at hS
  rw [rx_blake2b_default, if_neg (by omega)]
  have h := congrArg (Option.map Prod.snd) hS
  simp only [stream, Option.map_some] at h
  rw [← h]
  cases rx_blake2b_init nn with
  | none => rfl
  | some S₀ =>
    simp only [Option.bind_eq_bind, Option.bind_some, List.foldlM_cons, List.foldlM_nil]
    cases rx_blake2b_update compress S₀ pin with
    | none => rfl
    | some S₁ => cases h : rx_blake2b_final compress S₁ nn <;> simp [h]

end Rxs.L1.Blake2b
