import Rxs.L1Encoding.Blake2b

/-!
# The BLAKE2b of Argon2

A streaming hash of its own: no key, nothing to say when it is finished, and a digest of any
length, which `xmrig_ar2_blake2b_long` makes of halves of digests. Its state is on the stack, so
the buffer has any bytes before.

* `toRx`: it is `rx_blake2b`'s state with the flags that are clear; `update_toRx`, `final_toRx`.
* **`long_eq`**: the bytes at `out`, for any length.
-/
namespace Rxs.L1.Blake2bLong

open Rxs.Core Rxs.Core.Bytes Rxs.Core.BlockStream
open Rxs.Core.Blake2b (W F words start blake2b hold_chain absorb full digest link long links
  links_spec firstHalves firstHalves_succ)
open Rxs.L1.Blake2b (blake2b_IV load64 ROUND BLAKE2B_BLOCKBYTES BLAKE2B_OUTBYTES Holds
  compress_integer_eq rx_blake2b_compress_integer rx_blake2b_update rx_blake2b_final)

/-! ## The source -/

/-- mirrors src/3rdparty/argon2/lib/blake2/blake2.h:14-19 -/
structure State where
  h : Fin 8 → W
  t0 : W
  t1 : W
  buf : Bytes
  buflen : Nat

/-- The rounds are those of the other BLAKE2b.
mirrors src/3rdparty/argon2/lib/blake2/blake2.c:56-116 -/
def blake2b_compress (S : State) (block : Bytes) (f0 : W) : State :=
  let m : Fin 16 → W := fun i => load64 block (8 * i.val)
  let v : Fin 16 → W :=
    ![S.h 0, S.h 1, S.h 2, S.h 3, S.h 4, S.h 5, S.h 6, S.h 7,
      blake2b_IV 0, blake2b_IV 1, blake2b_IV 2, blake2b_IV 3, blake2b_IV 4 ^^^ S.t0,
      blake2b_IV 5 ^^^ S.t1, blake2b_IV 6 ^^^ f0, blake2b_IV 7]
  let v := (List.finRange 12).foldl (ROUND m) v
  { S with h := fun i => S.h i ^^^ v (Fin.castAdd 8 i) ^^^ v (Fin.natAdd 8 i) }

/-- mirrors src/3rdparty/argon2/lib/blake2/blake2.c:118-122 -/
def blake2b_increment_counter (S : State) (inc : Nat) : State :=
  let t0 := S.t0 + BitVec.ofNat 64 inc
  { S with t0 := t0, t1 := S.t1 + if t0 < BitVec.ofNat 64 inc then 1 else 0 }

/-- mirrors src/3rdparty/argon2/lib/blake2/blake2.c:124-136 -/
def xmrig_ar2_blake2b_init (S : State) (outlen : Nat) : State where
  h i := if i = 0 then blake2b_IV i ^^^ (BitVec.ofNat 64 outlen ||| 1 <<< 16 ||| 1 <<< 24)
    else blake2b_IV i
  t0 := 0
  t1 := 0
  buf := S.buf
  buflen := 0

/-- `while (inlen > BLAKE2B_BLOCKBYTES)`: the state and what is left of the input. -/
def compressBlocks (S : State) (pin : Bytes) : State × Bytes :=
  if BLAKE2B_BLOCKBYTES < pin.length then
    let S := blake2b_compress (blake2b_increment_counter S BLAKE2B_BLOCKBYTES)
      (pin.take BLAKE2B_BLOCKBYTES) 0
    compressBlocks S (pin.drop BLAKE2B_BLOCKBYTES)
  else (S, pin)
termination_by pin.length
decreasing_by
  rw [List.length_drop]
  unfold BLAKE2B_BLOCKBYTES at *
  omega

def completeBlock (S : State) (pin : Bytes) : State :=
  let S := { S with buf := S.buf.writeAt S.buflen pin }
  let S := blake2b_increment_counter S BLAKE2B_BLOCKBYTES
  { blake2b_compress S S.buf 0 with buflen := 0 }

def appendBuffer (S : State) (pin : Bytes) : State :=
  { S with buf := S.buf.writeAt S.buflen pin, buflen := S.buflen + pin.length }

/-- mirrors src/3rdparty/argon2/lib/blake2/blake2.c:138-161 -/
def xmrig_ar2_blake2b_update (S : State) (pin : Bytes) : State :=
  if S.buflen + pin.length > BLAKE2B_BLOCKBYTES then
    let fill := BLAKE2B_BLOCKBYTES - S.buflen
    let p := compressBlocks (completeBlock S (pin.take fill)) (pin.drop fill)
    appendBuffer p.1 p.2
  else appendBuffer S pin

/-- The state and the bytes at `out`.
mirrors src/3rdparty/argon2/lib/blake2/blake2.c:163-180 -/
def xmrig_ar2_blake2b_final (S : State) (outlen : Nat) : State × Bytes :=
  let S := blake2b_increment_counter S S.buflen
  let S := { S with
    buf := S.buf.writeAt S.buflen (List.replicate (BLAKE2B_BLOCKBYTES - S.buflen) 0) }
  let S := blake2b_compress S S.buf (BitVec.allOnes 64)
  (S, ((List.finRange 8).flatMap fun i => le 8 (S.h i).toNat).take outlen)

/-- `init`, an update for each of the inputs, and `final`. -/
def hashed (S : State) (outlen : Nat) (pins : List Bytes) : State × Bytes :=
  xmrig_ar2_blake2b_final (pins.foldl xmrig_ar2_blake2b_update (xmrig_ar2_blake2b_init S outlen))
    outlen

/-- The loop, and what is behind it; the bytes at `pout`.
mirrors src/3rdparty/argon2/lib/blake2/blake2.c:207-221 -/
def produce (S : State) (out_buffer : Bytes) (toproduce : Nat) : Bytes :=
  if BLAKE2B_OUTBYTES < toproduce then
    let p := hashed S BLAKE2B_OUTBYTES [out_buffer]
    p.2.take (BLAKE2B_OUTBYTES / 2) ++ produce p.1 p.2 (toproduce - BLAKE2B_OUTBYTES / 2)
  else (hashed S toproduce [out_buffer]).2
termination_by toproduce
decreasing_by
  unfold BLAKE2B_OUTBYTES at *
  omega

/-- `blake_state` is on the stack.
mirrors src/3rdparty/argon2/lib/blake2/blake2.c:182-225 -/
def xmrig_ar2_blake2b_long (blake_state : State) (outlen : Nat) (pin : Bytes) : Bytes :=
  let outlen_bytes := le 4 outlen
  if outlen ≤ BLAKE2B_OUTBYTES then (hashed blake_state outlen [outlen_bytes, pin]).2
  else
    let p := hashed blake_state BLAKE2B_OUTBYTES [outlen_bytes, pin]
    p.2.take (BLAKE2B_OUTBYTES / 2) ++
      produce p.1 p.2 ((outlen + 2 ^ 32 - BLAKE2B_OUTBYTES / 2) % 2 ^ 32)

/-! ## As the other BLAKE2b -/

/-- With the length of its digest and a flag. -/
def State.toRx (nn : Nat) (f0 : W) (S : State) : L1.Blake2b.State where
  h := S.h
  t0 := S.t0
  t1 := S.t1
  f0 := f0
  f1 := 0
  buf := S.buf
  buflen := S.buflen
  outlen := nn
  last_node := 0

theorem compress_toRx (nn : Nat) (S : State) (block : Bytes) (f0 : W) :
    (blake2b_compress S block f0).toRx nn f0 =
      rx_blake2b_compress_integer (S.toRx nn f0) block := by
  have hzero : blake2b_IV 7 ^^^ 0 = blake2b_IV 7 := BitVec.xor_zero
  simp only [rx_blake2b_compress_integer, State.toRx, hzero]
  rfl

theorem increment_toRx (nn : Nat) (S : State) (n : Nat) (f0 : W) :
    (blake2b_increment_counter S n).toRx nn f0 =
      L1.Blake2b.blake2b_increment_counter (S.toRx nn f0) n := rfl

theorem compressBlocks_toRx (nn : Nat) (S : State) (pin : Bytes) :
    L1.Blake2b.compressBlocks rx_blake2b_compress_integer (S.toRx nn 0) pin =
      ((compressBlocks S pin).1.toRx nn 0, (compressBlocks S pin).2) := by
  induction S, pin using compressBlocks.induct with
  | case1 S pin h S' ih =>
    rw [compressBlocks, L1.Blake2b.compressBlocks, if_pos h, if_pos h, ← increment_toRx,
      ← compress_toRx]
    exact ih
  | case2 S pin h => rw [compressBlocks, L1.Blake2b.compressBlocks, if_neg h, if_neg h]

theorem completeBlock_toRx (nn : Nat) (S : State) (pin : Bytes) :
    (completeBlock S pin).toRx nn 0 =
      L1.Blake2b.completeBlock rx_blake2b_compress_integer (S.toRx nn 0) pin := by
  have h := compress_toRx nn (blake2b_increment_counter { S with buf := S.buf.writeAt S.buflen pin }
    BLAKE2B_BLOCKBYTES) (S.buf.writeAt S.buflen pin) 0
  rw [increment_toRx] at h
  unfold L1.Blake2b.completeBlock
  dsimp only
  refine Eq.trans ?_ (congrArg (fun S : L1.Blake2b.State => { S with buflen := 0 }) h)
  rfl

theorem appendBuffer_nil (S : State) : appendBuffer S [] = S := by
  simp [appendBuffer, Bytes.writeAt]

theorem update_toRx (nn : Nat) (S : State) (pin : Bytes) (hlen : S.buflen ≤ BLAKE2B_BLOCKBYTES) :
    rx_blake2b_update rx_blake2b_compress_integer (S.toRx nn 0) pin =
      some ((xmrig_ar2_blake2b_update S pin).toRx nn 0) := by
  by_cases hpin : pin.length = 0
  · obtain rfl := List.length_eq_zero_iff.mp hpin
    have hover : ¬ S.buflen + ([] : Bytes).length > BLAKE2B_BLOCKBYTES := Nat.not_lt.mpr hlen
    rw [rx_blake2b_update, if_pos hpin, xmrig_ar2_blake2b_update, if_neg hover, appendBuffer_nil]
  · have hf0 : ¬ (S.toRx nn 0).f0 ≠ 0 := not_not_intro rfl
    have hbuflen : (S.toRx nn 0).buflen = S.buflen := rfl
    rw [rx_blake2b_update, if_neg hpin, if_neg hf0, hbuflen]
    by_cases hover : S.buflen + pin.length > BLAKE2B_BLOCKBYTES
    · rw [xmrig_ar2_blake2b_update, if_pos hover, if_pos hover]
      dsimp only
      rw [← completeBlock_toRx, compressBlocks_toRx]
      rfl
    · rw [xmrig_ar2_blake2b_update, if_neg hover, if_neg hover]
      rfl

theorem updates_toRx {nn : Nat} {p : ((Fin 8 → W) × Nat) × Bytes} {S : State}
    (h : Holds nn p (S.toRx nn 0)) (pins : List Bytes) :
    Holds nn (pins.foldl (feed Core.Blake2b.BLOCKBYTES absorb) p)
      ((pins.foldl xmrig_ar2_blake2b_update S).toRx nn 0) := by
  induction pins generalizing p S with
  | nil => exact h
  | cons pin pins ih =>
    obtain ⟨S', hS', h'⟩ := L1.Blake2b.update_holds compress_integer_eq h pin
    have hlen : S.buflen ≤ BLAKE2B_BLOCKBYTES := h.buflen.trans_le h.room
    rw [update_toRx nn S pin hlen] at hS'
    rw [← Option.some.inj hS'] at h'
    exact ih h'

theorem final_toRx (nn : Nat) (S : State) :
    rx_blake2b_final rx_blake2b_compress_integer (S.toRx nn 0) nn =
      some ((xmrig_ar2_blake2b_final S nn).1.toRx nn (BitVec.allOnes 64),
        (xmrig_ar2_blake2b_final S nn).2) := by
  have hroom : ¬ nn < (S.toRx nn 0).outlen := Nat.lt_irrefl nn
  have hf0 : ¬ (S.toRx nn 0).f0 ≠ 0 := not_not_intro rfl
  have hlast : ¬ (S.toRx nn 0).last_node ≠ 0 := not_not_intro rfl
  have hblock := compress_toRx nn { blake2b_increment_counter S S.buflen with
      buf := S.buf.writeAt S.buflen (List.replicate (BLAKE2B_BLOCKBYTES - S.buflen) 0) }
    (S.buf.writeAt S.buflen (List.replicate (BLAKE2B_BLOCKBYTES - S.buflen) 0))
    (BitVec.allOnes 64)
  rw [rx_blake2b_final, if_neg hroom, if_neg hf0]
  refine congrArg some (Prod.ext hblock.symm ?_)
  exact congrArg (fun S : L1.Blake2b.State =>
    ((List.finRange 8).flatMap fun i => le 8 (S.h i).toNat).take nn) hblock.symm

theorem init_toRx {nn : Nat} (hnn : nn ≤ BLAKE2B_OUTBYTES) {S : State}
    (hbuf : S.buf.length = BLAKE2B_BLOCKBYTES) :
    Holds nn ((start nn, 0), []) ((xmrig_ar2_blake2b_init S nn).toRx nn 0) := by
  have hparam : ∀ n < 65, blake2b_IV 0 ^^^ (BitVec.ofNat 64 n ||| 1 <<< 16 ||| 1 <<< 24) =
      start n 0 := by decide
  have hstart : (xmrig_ar2_blake2b_init S nn).h = start nn := by
    funext i
    unfold xmrig_ar2_blake2b_init
    by_cases hi : i = 0
    · rw [hi]
      exact hparam nn (Nat.lt_succ_of_le hnn)
    · simp only [start, if_neg hi]
      exact BitVec.xor_zero.symm
  exact
    { h := hstart
      t0 := rfl
      t1 := show (0 : W) = BitVec.ofNat 64 (0 / 2 ^ 64) by decide
      f0 := rfl
      f1 := rfl
      buf := hbuf
      buflen := rfl
      held := rfl
      room := Nat.zero_le _
      outlen := rfl
      last_node := rfl }

/-! ## Digests -/

theorem length_final_buf {nn : Nat} {p : ((Fin 8 → W) × Nat) × Bytes} {S : State}
    (h : Holds nn p (S.toRx nn 0)) (outlen : Nat) :
    (xmrig_ar2_blake2b_final S outlen).1.buf.length = BLAKE2B_BLOCKBYTES := by
  have hbuf : S.buf.length = BLAKE2B_BLOCKBYTES := h.buf
  have hlen : S.buflen ≤ BLAKE2B_BLOCKBYTES := h.buflen.trans_le h.room
  refine (Bytes.length_writeAt ?_).trans hbuf
  rw [List.length_replicate]
  exact (Nat.add_sub_cancel' hlen).trans_le hbuf.ge

/-- A digest of up to 64 bytes, of all the inputs. -/
theorem hashed_eq {nn : Nat} (hnn : nn ≤ BLAKE2B_OUTBYTES) {S : State}
    (hbuf : S.buf.length = BLAKE2B_BLOCKBYTES) (pins : List Bytes) :
    (hashed S nn pins).2 = blake2b nn pins.flatten ∧
      (hashed S nn pins).1.buf.length = BLAKE2B_BLOCKBYTES := by
  have h := updates_toRx (init_toRx hnn hbuf) pins
  obtain ⟨S', hS', -⟩ := L1.Blake2b.final_holds compress_integer_eq h (Nat.le_refl nn)
  have hhold := @foldl_feed _ _ Core.Blake2b.BLOCKBYTES absorb (by decide) (start nn, 0) [] pins
  rw [hold_short _ (Nat.zero_le _), List.nil_append, hold_chain] at hhold
  have hlen : Core.Blake2b.BLOCKBYTES * full pins.flatten +
      (pins.flatten.length - Core.Blake2b.BLOCKBYTES * full pins.flatten) =
        pins.flatten.length := by
    unfold full Core.Blake2b.BLOCKBYTES
    omega
  rw [final_toRx, hhold] at hS'
  refine ⟨(congrArg Prod.snd (Option.some.inj hS')).trans ?_, length_final_buf h nn⟩
  rw [blake2b, List.length_drop, hlen]

theorem produce_eq {n : Nat} (pin : Bytes) {S : State} (hbuf : S.buf.length = BLAKE2B_BLOCKBYTES)
    (i : Nat) {toproduce : Nat} (hi : i < links n) (hto : toproduce = n - 32 * (i + 1))
    (hn : 64 < n) :
    firstHalves n pin (i + 1) ++ produce S (link n pin i) toproduce = long n pin := by
  obtain ⟨hpos, hlow, hhigh⟩ := links_spec hn
  induction toproduce using Nat.strongRecOn generalizing S i with
  | ind toproduce ih =>
    rw [produce]
    split
    · next h =>
      unfold BLAKE2B_OUTBYTES at h
      obtain ⟨hdigest, hbuf'⟩ := hashed_eq (Nat.le_refl BLAKE2B_OUTBYTES) hbuf [link n pin i]
      rw [List.flatten_singleton] at hdigest
      have hnext := ih (toproduce - 32) (by omega) hbuf' (i + 1) (by omega) (by omega)
      rw [firstHalves_succ, List.append_assoc] at hnext
      dsimp only
      rw [hdigest]
      exact hnext
    · next h =>
      unfold BLAKE2B_OUTBYTES at h
      obtain rfl : i = links n - 1 := by omega
      have hlast : toproduce = n - 32 * links n := by omega
      rw [(hashed_eq (by unfold BLAKE2B_OUTBYTES; omega) hbuf _).1, List.flatten_singleton, long,
        if_neg (by omega), Nat.sub_add_cancel hpos, hlast]

/-- More bytes than a digest has. -/
theorem long_links {S : State} (hbuf : S.buf.length = BLAKE2B_BLOCKBYTES) {outlen : Nat}
    (hn : 64 < outlen) (hlen : outlen < 2 ^ 32) (pin : Bytes) :
    xmrig_ar2_blake2b_long S outlen pin = long outlen pin := by
  have hflatten : [le 4 outlen, pin].flatten = le 4 outlen ++ pin := by simp
  have h : ¬ outlen ≤ BLAKE2B_OUTBYTES := Nat.not_le.mpr hn
  rw [xmrig_ar2_blake2b_long, if_neg h]
  obtain ⟨hpos, -, -⟩ := links_spec hn
  obtain ⟨hdigest, hbuf'⟩ := hashed_eq (Nat.le_refl BLAKE2B_OUTBYTES) hbuf [le 4 outlen, pin]
  rw [hflatten] at hdigest
  have hto : (outlen + 2 ^ 32 - BLAKE2B_OUTBYTES / 2) % 2 ^ 32 = outlen - 32 * (0 + 1) := by
    unfold BLAKE2B_OUTBYTES
    omega
  rw [← produce_eq pin hbuf' 0 hpos hto hn, firstHalves_succ]
  dsimp only
  rw [hdigest]
  rfl

/-- **The bytes at `out`**: the digest of the length that is asked for, whatever was on the
stack. -/
theorem long_eq {S : State} (hbuf : S.buf.length = BLAKE2B_BLOCKBYTES) {outlen : Nat}
    (hlen : outlen < 2 ^ 32) (pin : Bytes) :
    xmrig_ar2_blake2b_long S outlen pin = long outlen pin := by
  by_cases h : outlen ≤ BLAKE2B_OUTBYTES
  · have h64 : outlen ≤ 64 := h
    have hflatten : [le 4 outlen, pin].flatten = le 4 outlen ++ pin := by simp
    rw [xmrig_ar2_blake2b_long, if_pos h, (hashed_eq h hbuf _).1, hflatten, long, if_pos h64]
  · exact long_links hbuf (Nat.lt_of_not_le h) hlen pin

/-- The bytes of a block of Argon2. -/
theorem long_eq_block : xmrig_ar2_blake2b_long ⟨fun _ => 7, 1, 2, List.replicate 128 9, 5⟩ 1024
    [1, 2, 3] = long 1024 [1, 2, 3] :=
  long_eq (S := ⟨fun _ => 7, 1, 2, List.replicate 128 9, 5⟩) List.length_replicate (by decide)
    [1, 2, 3]

end Rxs.L1.Blake2bLong
