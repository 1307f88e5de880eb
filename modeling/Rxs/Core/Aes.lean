import Rxs.Core.Bytes
import Rxs.Core.Gf256

/-!
# Rounds of AES

A state is four columns of four bytes. A round replaces each byte, moves the rows, multiplies
each column by a polynomial and adds the key; a round of decryption undoes each of the three.
`encBlock` and `decBlock` are the rounds of a block of 128 bits, its bytes column by column.

* `invSubByte_subByte`, `invShiftRows_shiftRows`, `circ_circ`: what undoes a step.
* **`encBlock_injective`**, `decBlock_injective`: with any key, a round loses nothing.
-/
namespace Rxs.Core.Aes

open Gf256

abbrev Column := Fin 4 → Byte

/-- `s c r` is in row `r` of column `c`. -/
abbrev State := Fin 4 → Column

/-! ## Bytes -/

def affine (b : Byte) : Byte :=
  b ^^^ b.rotateLeft 1 ^^^ b.rotateLeft 2 ^^^ b.rotateLeft 3 ^^^ b.rotateLeft 4 ^^^ 0x63

def invAffine (b : Byte) : Byte := b.rotateLeft 1 ^^^ b.rotateLeft 3 ^^^ b.rotateLeft 6 ^^^ 0x05

def subByte (b : Byte) : Byte := affine (inv b)

def invSubByte (b : Byte) : Byte := inv (invAffine b)

theorem invAffine_affine : ∀ b : Byte, invAffine (affine b) = b := by
  decide +kernel

theorem affine_invAffine : ∀ b : Byte, affine (invAffine b) = b := by
  decide +kernel

@[simp] theorem invSubByte_subByte (b : Byte) : invSubByte (subByte b) = b := by
  rw [invSubByte, subByte, invAffine_affine, inv_inv]

@[simp] theorem subByte_invSubByte (b : Byte) : subByte (invSubByte b) = b := by
  rw [invSubByte, subByte, inv_inv, affine_invAffine]

/-! ## Columns -/

/-- A column times a polynomial, modulo `x^4 + 1`. -/
def circ (k0 k1 k2 k3 : Byte) (a : Column) : Column := fun r =>
  mul k0 (a r) ^^^ mul k1 (a (r + 1)) ^^^ mul k2 (a (r + 2)) ^^^ mul k3 (a (r + 3))

def mixColumn : Column → Column := circ 2 3 1 1

def invMixColumn : Column → Column := circ 0xe 0xb 0xd 0x9

/-- The product of two polynomials is one. -/
structure Inverse (k0 k1 k2 k3 l0 l1 l2 l3 : Byte) : Prop where
  x0 : mul k0 l0 ^^^ mul k1 l3 ^^^ mul k2 l2 ^^^ mul k3 l1 = 1
  x1 : mul k0 l1 ^^^ mul k1 l0 ^^^ mul k2 l3 ^^^ mul k3 l2 = 0
  x2 : mul k0 l2 ^^^ mul k1 l1 ^^^ mul k2 l0 ^^^ mul k3 l3 = 0
  x3 : mul k0 l3 ^^^ mul k1 l2 ^^^ mul k2 l1 ^^^ mul k3 l0 = 0

theorem circ_circ {k0 k1 k2 k3 l0 l1 l2 l3 : Byte} (h : Inverse k0 k1 k2 k3 l0 l1 l2 l3)
    (a : Column) : circ k0 k1 k2 k3 (circ l0 l1 l2 l3 a) = a := by
  have h0 := congrArg el h.x0
  have h1 := congrArg el h.x1
  have h2 := congrArg el h.x2
  have h3 := congrArg el h.x3
  simp only [el_xor, el_mul, el_zero, el_one] at h0 h1 h2 h3
  funext r
  have hwrap : r + 1 + 1 = r + 2 ∧ r + 1 + 2 = r + 3 ∧ r + 1 + 3 = r ∧ r + 2 + 1 = r + 3 ∧
      r + 2 + 2 = r ∧ r + 2 + 3 = r + 1 ∧ r + 3 + 1 = r ∧ r + 3 + 2 = r + 1 ∧ r + 3 + 3 = r + 2 := by
    revert r
    decide
  obtain ⟨h11, h12, h13, h21, h22, h23, h31, h32, h33⟩ := hwrap
  apply el_injective
  simp only [circ, el_xor, el_mul, h11, h12, h13, h21, h22, h23, h31, h32, h33]
  linear_combination el (a r) * h0 + el (a (r + 1)) * h1 + el (a (r + 2)) * h2 +
    el (a (r + 3)) * h3

@[simp] theorem invMixColumn_mixColumn (a : Column) : invMixColumn (mixColumn a) = a :=
  circ_circ ⟨by decide +kernel, by decide +kernel, by decide +kernel, by decide +kernel⟩ a

@[simp] theorem mixColumn_invMixColumn (a : Column) : mixColumn (invMixColumn a) = a :=
  circ_circ ⟨by decide +kernel, by decide +kernel, by decide +kernel, by decide +kernel⟩ a

/-! ## Rounds -/

def subBytes (s : State) : State := fun c r => subByte (s c r)

def invSubBytes (s : State) : State := fun c r => invSubByte (s c r)

/-- Row `r` moves by `r` columns. -/
def shiftRows (s : State) : State := fun c r => s (c + r) r

def invShiftRows (s : State) : State := fun c r => s (c - r) r

def mixColumns (s : State) : State := fun c => mixColumn (s c)

def invMixColumns (s : State) : State := fun c => invMixColumn (s c)

def addRoundKey (key s : State) : State := fun c r => s c r ^^^ key c r

def encRound (key s : State) : State := addRoundKey key (mixColumns (subBytes (shiftRows s)))

def decRound (key s : State) : State :=
  addRoundKey key (invMixColumns (invSubBytes (invShiftRows s)))

@[simp] theorem invSubBytes_subBytes (s : State) : invSubBytes (subBytes s) = s := by
  funext c r
  exact invSubByte_subByte (s c r)

@[simp] theorem subBytes_invSubBytes (s : State) : subBytes (invSubBytes s) = s := by
  funext c r
  exact subByte_invSubByte (s c r)

@[simp] theorem invShiftRows_shiftRows (s : State) : invShiftRows (shiftRows s) = s := by
  have hback : ∀ c r : Fin 4, c - r + r = c := by decide
  funext c r
  rw [invShiftRows, shiftRows, hback]

@[simp] theorem shiftRows_invShiftRows (s : State) : shiftRows (invShiftRows s) = s := by
  have hback : ∀ c r : Fin 4, c + r - r = c := by decide
  funext c r
  rw [shiftRows, invShiftRows, hback]

@[simp] theorem invMixColumns_mixColumns (s : State) : invMixColumns (mixColumns s) = s := by
  funext c
  exact invMixColumn_mixColumn (s c)

@[simp] theorem mixColumns_invMixColumns (s : State) : mixColumns (invMixColumns s) = s := by
  funext c
  exact mixColumn_invMixColumn (s c)

@[simp] theorem addRoundKey_addRoundKey (key s : State) : addRoundKey key (addRoundKey key s) = s := by
  funext c r
  rw [addRoundKey, addRoundKey, BitVec.xor_assoc, BitVec.xor_self, BitVec.xor_zero]

/-- What undoes a round of encryption. -/
theorem encRound_left_inverse (key s : State) :
    invShiftRows (invSubBytes (invMixColumns (addRoundKey key (encRound key s)))) = s := by
  simp [encRound]

theorem decRound_left_inverse (key s : State) :
    shiftRows (subBytes (mixColumns (addRoundKey key (decRound key s)))) = s := by
  simp [decRound]

/-! ## Blocks -/

theorem extract_extract {w : Nat} (v : BitVec w) {start len start' len' : Nat}
    (h : start' + len' ≤ len) : (v.extractLsb' start len).extractLsb' start' len' =
      v.extractLsb' (start + start') len' := by
  apply BitVec.eq_of_getLsbD_eq
  intro i hi
  have hin : start' + i < len := by omega
  simp only [BitVec.getLsbD_extractLsb', hi, hin, decide_true, Bool.true_and, Nat.add_assoc]

def word (a : Column) : BitVec 32 := a 3 ++ a 2 ++ a 1 ++ a 0

def toBlock (s : State) : BitVec 128 := word (s 3) ++ word (s 2) ++ word (s 1) ++ word (s 0)

def ofBlock (v : BitVec 128) : State := fun c r => v.extractLsb' (32 * c.val + 8 * r.val) 8

theorem extract_word (a : Column) (r : Fin 4) : (word a).extractLsb' (8 * r.val) 8 = a r := by
  refine four_cases r ?_ ?_ ?_ ?_
  · exact BitVec.extractLsb'_append_eq_right
  · exact (BitVec.extractLsb'_append_eq_of_le (by decide)).trans
      BitVec.extractLsb'_append_eq_right
  · exact (BitVec.extractLsb'_append_eq_of_le (by decide)).trans
      ((BitVec.extractLsb'_append_eq_of_le (by decide)).trans BitVec.extractLsb'_append_eq_right)
  · exact (BitVec.extractLsb'_append_eq_of_le (by decide)).trans
      ((BitVec.extractLsb'_append_eq_of_le (by decide)).trans BitVec.extractLsb'_append_eq_left)

theorem extract_block (s : State) (c : Fin 4) :
    (toBlock s).extractLsb' (32 * c.val) 32 = word (s c) := by
  refine four_cases c ?_ ?_ ?_ ?_
  · exact BitVec.extractLsb'_append_eq_right
  · exact (BitVec.extractLsb'_append_eq_of_le (by decide)).trans
      BitVec.extractLsb'_append_eq_right
  · exact (BitVec.extractLsb'_append_eq_of_le (by decide)).trans
      ((BitVec.extractLsb'_append_eq_of_le (by decide)).trans BitVec.extractLsb'_append_eq_right)
  · exact (BitVec.extractLsb'_append_eq_of_le (by decide)).trans
      ((BitVec.extractLsb'_append_eq_of_le (by decide)).trans BitVec.extractLsb'_append_eq_left)

@[simp] theorem ofBlock_toBlock (s : State) : ofBlock (toBlock s) = s := by
  funext c r
  have hr := r.isLt
  have h := congrArg (fun w : BitVec 32 => w.extractLsb' (8 * r.val) 8) (extract_block s c)
  rw [extract_word, extract_extract _ (by omega)] at h
  exact h

/-- The word of a column of a block. -/
theorem word_ofBlock (v : BitVec 128) (c : Fin 4) :
    word (ofBlock v c) = v.extractLsb' (32 * c.val) 32 := by
  have glue (k n : Nat) : v.extractLsb' (32 * c.val + 8 * (k + 1)) n ++
      v.extractLsb' (32 * c.val + 8 * k) 8 = v.extractLsb' (32 * c.val + 8 * k) (n + 8) :=
    BitVec.extractLsb'_append_extractLsb'_eq_extractLsb' (by omega)
  exact (congrArg₂ (· ++ ·) ((congrArg₂ (· ++ ·) (glue 2 8) rfl).trans (glue 1 16)) rfl).trans
    (glue 0 24)

@[simp] theorem toBlock_ofBlock (v : BitVec 128) : toBlock (ofBlock v) = v := by
  have glue (k n : Nat) : v.extractLsb' (32 * (k + 1)) n ++ v.extractLsb' (32 * k) 32 =
      v.extractLsb' (32 * k) (n + 32) := BitVec.extractLsb'_append_extractLsb'_eq_extractLsb' (by omega)
  rw [toBlock, word_ofBlock, word_ofBlock, word_ofBlock, word_ofBlock]
  exact (congrArg₂ (· ++ ·) ((congrArg₂ (· ++ ·) (glue 2 32) rfl).trans (glue 1 64)) rfl).trans
    ((glue 0 96).trans BitVec.extractLsb'_eq_self)

def encBlock (v key : BitVec 128) : BitVec 128 := toBlock (encRound (ofBlock key) (ofBlock v))

def decBlock (v key : BitVec 128) : BitVec 128 := toBlock (decRound (ofBlock key) (ofBlock v))

/-- **A round loses nothing.** -/
theorem encBlock_injective (key : BitVec 128) : Function.Injective (encBlock · key) := by
  intro v v' h
  have hround := congrArg ofBlock h
  dsimp only [encBlock] at hround
  rw [ofBlock_toBlock, ofBlock_toBlock] at hround
  rw [← toBlock_ofBlock v, ← encRound_left_inverse (ofBlock key) (ofBlock v), hround,
    encRound_left_inverse, toBlock_ofBlock]

theorem decBlock_injective (key : BitVec 128) : Function.Injective (decBlock · key) := by
  intro v v' h
  have hround := congrArg ofBlock h
  dsimp only [decBlock] at hround
  rw [ofBlock_toBlock, ofBlock_toBlock] at hround
  rw [← toBlock_ofBlock v, ← decRound_left_inverse (ofBlock key) (ofBlock v), hround,
    decRound_left_inverse, toBlock_ofBlock]

end Rxs.Core.Aes
