import Mathlib.GroupTheory.OrderOfElement
import Mathlib.Data.ZMod.Basic
import Rxs.L1Encoding.Varint

/-!
# Signatures and one-time keys

The miner signs with a Schnorr signature over the curve group, and derives the keys of its
outputs. `CryptoOps` are the primitives, points up to their coordinates; `Implements` says
that they are those of a group with a base point of order `ℓ`, of the scalars modulo `ℓ`,
and of the encoding of points.

A round of `generate_signature` whose challenge is zero goes on to the test of `r` that the
round before, or the caller, left.

* `commitment_eq`: the verifier comes back to the commitment.
* **`generate_signature_checks`**: what the rounds return is accepted, for scalars that are not
  zero, and unless the first challenge is zero and the caller's `r` is not.
* `generate_signature_fails`: a scalar that is zero.
* **`derived_keys`**: sender and wallet derive the same keys.
-/
namespace Rxs

open Rxs.Core

/-- mirrors src/base/tools/cryptonote/crypto-ops.h:69-142 -/
structure CryptoOps (E : Type) where
  ge_frombytes_vartime : Bytes → Option E
  ge_tobytes : E → Bytes
  ge_scalarmult_base : Bytes → E
  ge_scalarmult : Bytes → E → E
  ge_double_scalarmult_base_vartime : Bytes → E → Bytes → E
  ge_mul8 : E → E
  ge_add : E → E → E
  sc_reduce32 : Bytes → Bytes
  sc_add : Bytes → Bytes → Bytes
  sc_sub : Bytes → Bytes → Bytes
  sc_mulsub : Bytes → Bytes → Bytes → Bytes
  sc_check : Bytes → Int
  keccak : Bytes → Bytes

namespace Signatures

/-- mirrors src/base/tools/cryptonote/crypto-ops.c:3827-3832 -/
def sc_isnonzero (s : Bytes) : Bool := s.any (· ≠ 0)

/-- mirrors src/base/tools/cryptonote/Signatures.cpp:138-138 -/
def infinity : Bytes := 1 :: List.replicate 31 0

structure Signature where
  c : Bytes
  r : Bytes
  deriving DecidableEq, Repr

section
variable {E : Type} (o : CryptoOps E)

/-- mirrors src/base/tools/cryptonote/Signatures.cpp:47-53 -/
def random_scalar (randomBytes : Bytes) : Bytes := o.sc_reduce32 randomBytes

/-- mirrors src/base/tools/cryptonote/Signatures.cpp:56-60 -/
def hash_to_scalar (data : Bytes) : Bytes := o.sc_reduce32 (o.keccak data)

/-- mirrors src/base/tools/cryptonote/Signatures.cpp:63-81 -/
def derivation_to_scalar (derivation : Bytes) (output_index : UInt64) : Bytes :=
  hash_to_scalar o (derivation ++ L1.Varint.varintBytes output_index)

/-- The commitment of a round.
mirrors src/base/tools/cryptonote/Signatures.cpp:101-103 -/
def commitment (randomBytes : Bytes) : Bytes :=
  o.ge_tobytes (o.ge_scalarmult_base (random_scalar o randomBytes))

/-- The challenge for a commitment.
mirrors src/base/tools/cryptonote/Signatures.cpp:104-104,143-143 -/
def challenge (prefix_hash pub comm : Bytes) : Bytes :=
  hash_to_scalar o (prefix_hash ++ pub ++ comm)

/-- The body of the loop, on the signature that is there.
mirrors src/base/tools/cryptonote/Signatures.cpp:101-110 -/
def round (prefix_hash pub sec randomBytes : Bytes) (sig : Signature) : Signature :=
  let c := challenge o prefix_hash pub (commitment o randomBytes)
  if sc_isnonzero c then ⟨c, o.sc_mulsub c sec (random_scalar o randomBytes)⟩ else ⟨c, sig.r⟩

/-- The loop, on the random bytes of its rounds.
mirrors src/base/tools/cryptonote/Signatures.cpp:87-112 -/
def generate_signature (prefix_hash pub sec : Bytes) (randomBytes : Nat → Bytes) :
    Nat → Signature → Option Signature
  | 0, _ => none
  | fuel + 1, sig =>
    let sig := round o prefix_hash pub sec (randomBytes 0) sig
    if sc_isnonzero sig.r then some sig
    else generate_signature prefix_hash pub sec (fun i => randomBytes (i + 1)) fuel sig

/-- mirrors src/base/tools/cryptonote/Signatures.cpp:115-147 -/
def check_signature (prefix_hash pub : Bytes) (sig : Signature) : Bool :=
  match o.ge_frombytes_vartime pub with
  | none => false
  | some tmp3 =>
    if o.sc_check sig.c ≠ 0 ∨ o.sc_check sig.r ≠ 0 ∨ sc_isnonzero sig.c = false then false
    else
      let comm := o.ge_tobytes (o.ge_double_scalarmult_base_vartime sig.c tmp3 sig.r)
      if comm = infinity then false
      else !sc_isnonzero (o.sc_sub (challenge o prefix_hash pub comm) sig.c)

/-- mirrors src/base/tools/cryptonote/Signatures.cpp:150-182 -/
def generate_key_derivation (key1 key2 : Bytes) (view_tag : Bool) :
    Option (Bytes × Option UInt8) :=
  match o.ge_frombytes_vartime key1 with
  | none => none
  | some point =>
    let derivation := o.ge_tobytes (o.ge_mul8 (o.ge_scalarmult key2 point))
    let salt : Bytes := [118, 105, 101, 119, 95, 116, 97, 103]
    some (derivation, if view_tag then (o.keccak (salt ++ derivation ++ [0])).head? else none)

/-- mirrors src/base/tools/cryptonote/Signatures.cpp:185-191 -/
def derive_secret_key (derivation : Bytes) (output_index : UInt64) (base : Bytes) : Bytes :=
  o.sc_add base (derivation_to_scalar o derivation output_index)

/-- mirrors src/base/tools/cryptonote/Signatures.cpp:194-215 -/
def derive_public_key (derivation : Bytes) (output_index : UInt64) (base : Bytes) :
    Option Bytes :=
  match o.ge_frombytes_vartime base with
  | none => none
  | some point1 =>
    let point2 := o.ge_scalarmult_base (derivation_to_scalar o derivation output_index)
    some (o.ge_tobytes (o.ge_add point1 point2))

/-- mirrors src/base/tools/cryptonote/Signatures.cpp:218-222 -/
def derive_view_secret_key (spend_secret_key : Bytes) : Bytes :=
  o.sc_reduce32 (o.keccak spend_secret_key)

/-- The public and the secret key.
mirrors src/base/tools/cryptonote/Signatures.cpp:225-232 -/
def generate_keys (randomBytes : Bytes) : Bytes × Bytes :=
  let sec := random_scalar o randomBytes
  (o.ge_tobytes (o.ge_scalarmult_base sec), sec)

/-- mirrors src/base/tools/cryptonote/Signatures.cpp:235-246 -/
def secret_key_to_public_key (sec : Bytes) : Option Bytes :=
  if o.sc_check sec ≠ 0 then none else some (o.ge_tobytes (o.ge_scalarmult_base sec))

end

end Signatures

namespace L2.Signing

open Signatures

/-- A scalar below the order. -/
structure Reduced (ℓ : Nat) (s : Bytes) : Prop where
  length : s.length = 32
  lt : Bytes.readLE s < ℓ

/-- The primitives are those of a group with a base point `G` of order `ℓ`, and of the scalars
modulo `ℓ`, which are 32 bytes. -/
structure Implements {E : Type} [AddCommGroup E] (o : CryptoOps E) (ℓ : Nat) (G : E) : Prop where
  pos : 0 < ℓ
  base : addOrderOf G = ℓ
  frombytes : ∀ P, o.ge_frombytes_vartime (o.ge_tobytes P) = some P
  identity : o.ge_tobytes 0 = infinity
  scalarmult_base : ∀ s, Reduced ℓ s → o.ge_scalarmult_base s = Bytes.readLE s • G
  scalarmult : ∀ s P, Reduced ℓ s → o.ge_scalarmult s P = Bytes.readLE s • P
  double_scalarmult : ∀ a P b, Reduced ℓ a → Reduced ℓ b →
    o.ge_double_scalarmult_base_vartime a P b = Bytes.readLE a • P + Bytes.readLE b • G
  mul8 : ∀ P, o.ge_mul8 P = 8 • P
  add : ∀ P Q, o.ge_add P Q = P + Q
  reduce32 : ∀ s, s.length = 32 →
    Reduced ℓ (o.sc_reduce32 s) ∧ Bytes.readLE (o.sc_reduce32 s) = Bytes.readLE s % ℓ
  sc_add : ∀ a b, Reduced ℓ a → Reduced ℓ b → Reduced ℓ (o.sc_add a b) ∧
    Bytes.readLE (o.sc_add a b) ≡ Bytes.readLE a + Bytes.readLE b [MOD ℓ]
  sc_sub : ∀ a b, Reduced ℓ a → Reduced ℓ b → Reduced ℓ (o.sc_sub a b) ∧
    Bytes.readLE (o.sc_sub a b) + Bytes.readLE b ≡ Bytes.readLE a [MOD ℓ]
  sc_mulsub : ∀ a b c, Reduced ℓ a → Reduced ℓ b → Reduced ℓ c → Reduced ℓ (o.sc_mulsub a b c) ∧
    Bytes.readLE (o.sc_mulsub a b c) + Bytes.readLE a * Bytes.readLE b ≡ Bytes.readLE c [MOD ℓ]
  sc_check : ∀ s, s.length = 32 → (o.sc_check s = 0 ↔ Bytes.readLE s < ℓ)
  keccak : ∀ b, (o.keccak b).length = 32

theorem sc_isnonzero_iff (s : Bytes) : sc_isnonzero s = true ↔ Bytes.readLE s ≠ 0 := by
  induction s with
  | nil => simp [sc_isnonzero, Bytes.readLE]
  | cons x s ih =>
    have hx : x = 0 ↔ x.toNat = 0 := UInt8.toNat_inj.symm
    have hcons : sc_isnonzero (x :: s) = (decide (x ≠ 0) || sc_isnonzero s) := rfl
    rw [hcons, Bytes.readLE, Bool.or_eq_true, decide_eq_true_iff, ih, Ne, hx]
    omega

section
variable {E : Type} [AddCommGroup E] {o : CryptoOps E} {ℓ : Nat} {G : E}

/-! ## The group -/

/-- **The verifier's point** is the commitment. -/
theorem commitment_eq (G : E) {c s r k : Nat} (h : r + c * s ≡ k [MOD addOrderOf G]) :
    c • s • G + r • G = k • G := by
  rw [smul_smul, ← add_smul, Nat.add_comm]
  exact nsmul_eq_nsmul_iff_modEq.mpr h

theorem Implements.hash_reduced (ho : Implements o ℓ G) (data : Bytes) :
    Reduced ℓ (hash_to_scalar o data) :=
  (ho.reduce32 _ (ho.keccak data)).1

theorem Implements.sub_self (ho : Implements o ℓ G) {a : Bytes} (ha : Reduced ℓ a) :
    sc_isnonzero (o.sc_sub a a) = false := by
  obtain ⟨hred, hmod⟩ := ho.sc_sub a a ha ha
  have hzero : Bytes.readLE (o.sc_sub a a) ≡ 0 [MOD ℓ] :=
    Nat.ModEq.add_right_cancel' (Bytes.readLE a) (by rwa [Nat.zero_add])
  have heq : Bytes.readLE (o.sc_sub a a) = 0 := by
    have h := hzero
    rw [Nat.ModEq, Nat.zero_mod, Nat.mod_eq_of_lt hred.lt] at h
    exact h
  rw [Bool.eq_false_iff, Ne, sc_isnonzero_iff, heq]
  simp

/-! ## A round -/

variable {prefix_hash pub sec : Bytes}

/-- A round with a challenge is accepted, if its scalar is not zero. -/
theorem check_round (ho : Implements o ℓ G) (hsec : Reduced ℓ sec)
    (hpub : pub = o.ge_tobytes (Bytes.readLE sec • G)) {k : Bytes} (hk : Reduced ℓ k)
    (hk0 : Bytes.readLE k ≠ 0) {c : Bytes}
    (hc : c = challenge o prefix_hash pub (o.ge_tobytes (o.ge_scalarmult_base k)))
    (hc0 : sc_isnonzero c = true) :
    check_signature o prefix_hash pub ⟨c, o.sc_mulsub c sec k⟩ = true := by
  have hcred : Reduced ℓ c := hc ▸ ho.hash_reduced _
  obtain ⟨hr, hmod⟩ := ho.sc_mulsub c sec k hcred hsec hk
  have hpoint : o.ge_double_scalarmult_base_vartime c (Bytes.readLE sec • G)
      (o.sc_mulsub c sec k) = o.ge_scalarmult_base k := by
    rw [ho.double_scalarmult _ _ _ hcred hr, ho.scalarmult_base k hk]
    exact commitment_eq G (ho.base ▸ hmod)
  have hne : o.ge_tobytes (o.ge_scalarmult_base k) ≠ infinity := by
    intro h
    -- the encodings are those of the same point
    have hzero : o.ge_scalarmult_base k = 0 := by
      have h' := congrArg o.ge_frombytes_vartime (h.trans ho.identity.symm)
      rw [ho.frombytes, ho.frombytes] at h'
      exact Option.some.inj h'
    rw [ho.scalarmult_base k hk] at hzero
    exact nsmul_ne_zero_of_lt_addOrderOf hk0 (ho.base ▸ hk.lt) hzero
  have hc' := (ho.sc_check c hcred.length).mpr hcred.lt
  have hr' := (ho.sc_check _ hr.length).mpr hr.lt
  unfold check_signature
  rw [hpub, ho.frombytes]
  simp only [hpoint, hc', hr', hc0]
  rw [if_neg (by simp), if_neg hne, ← hpub, ← hc, ho.sub_self hcred]
  rfl

/-! ## The rounds -/

/-- The challenge and the response of a round are not zero. -/
def Answers (o : CryptoOps E) (prefix_hash pub sec randomBytes : Bytes) : Prop :=
  let c := challenge o prefix_hash pub (commitment o randomBytes)
  sc_isnonzero c = true ∧ sc_isnonzero (o.sc_mulsub c sec (random_scalar o randomBytes)) = true

/-- A signature that does not end a round, or will be overwritten by it. -/
def Fresh (o : CryptoOps E) (prefix_hash pub randomBytes : Bytes) (sig : Signature) : Prop :=
  sc_isnonzero sig.r = false ∨
    sc_isnonzero (challenge o prefix_hash pub (commitment o randomBytes)) = true

/-- What the rounds return. -/
theorem check_generated (ho : Implements o ℓ G) (hsec : Reduced ℓ sec)
    (hpub : pub = o.ge_tobytes (Bytes.readLE sec • G)) {fuel : Nat} {randomBytes : Nat → Bytes}
    {sig sig' : Signature}
    (hrandom : ∀ i, (randomBytes i).length = 32 ∧ Bytes.readLE (randomBytes i) % ℓ ≠ 0)
    (hsig : Fresh o prefix_hash pub (randomBytes 0) sig)
    (h : generate_signature o prefix_hash pub sec randomBytes fuel sig = some sig') :
    check_signature o prefix_hash pub sig' = true := by
  induction fuel generalizing randomBytes sig with
  | zero => cases h
  | succ fuel ih =>
    obtain ⟨hlen, hne⟩ := hrandom 0
    obtain ⟨hk, hkeq⟩ := ho.reduce32 _ hlen
    rw [generate_signature] at h
    by_cases hc : sc_isnonzero (challenge o prefix_hash pub (commitment o (randomBytes 0))) = true
    · have hround : round o prefix_hash pub sec (randomBytes 0) sig = _ := if_pos hc
      simp only [hround] at h
      split at h
      · cases h
        exact check_round ho hsec hpub hk (by rw [hkeq]; exact hne) rfl hc
      · rename_i hr
        exact ih (fun i => hrandom (i + 1)) (.inl (Bool.eq_false_iff.mpr hr)) h
    · -- the test reads what was there before the round
      have hr := hsig.resolve_right hc
      have hround : round o prefix_hash pub sec (randomBytes 0) sig =
          ⟨challenge o prefix_hash pub (commitment o (randomBytes 0)), sig.r⟩ := if_neg hc
      have hsig' : Fresh o prefix_hash pub (randomBytes 1)
          ⟨challenge o prefix_hash pub (commitment o (randomBytes 0)), sig.r⟩ := .inl hr
      simp only [hround, hr] at h
      exact ih (fun i => hrandom (i + 1)) hsig' h

omit [AddCommGroup E] in
/-- The first round that answers ends the loop, if none has ended it before. -/
theorem generate_returns {randomBytes : Nat → Bytes} {i : Nat}
    (h : Answers o prefix_hash pub sec (randomBytes i)) (sig : Signature) :
    ∃ fuel sig', generate_signature o prefix_hash pub sec randomBytes fuel sig = some sig' := by
  induction i generalizing randomBytes sig with
  | zero =>
    have hround : round o prefix_hash pub sec (randomBytes 0) sig = _ := if_pos h.1
    refine ⟨1, round o prefix_hash pub sec (randomBytes 0) sig, ?_⟩
    rw [generate_signature]
    exact if_pos (by rw [hround]; exact h.2)
  | succ i ih =>
    by_cases hr : sc_isnonzero (round o prefix_hash pub sec (randomBytes 0) sig).r = true
    · refine ⟨1, round o prefix_hash pub sec (randomBytes 0) sig, ?_⟩
      rw [generate_signature]
      exact if_pos hr
    · obtain ⟨fuel, sig', h'⟩ := @ih (fun i => randomBytes (i + 1)) h
        (round o prefix_hash pub sec (randomBytes 0) sig)
      refine ⟨fuel + 1, sig', ?_⟩
      rw [generate_signature]
      exact (if_neg hr).trans h'

/-! ## Keys -/

/-- A secret key of 32 bytes, and its public key. -/
structure KeyPair (o : CryptoOps E) (pub sec : Bytes) : Prop where
  length : sec.length = 32
  pub : secret_key_to_public_key o sec = some pub

theorem keyPair_iff (ho : Implements o ℓ G) :
    KeyPair o pub sec ↔ Reduced ℓ sec ∧ pub = o.ge_tobytes (Bytes.readLE sec • G) := by
  constructor
  · intro ⟨hlen, h⟩
    unfold secret_key_to_public_key at h
    split at h
    · cases h
    · rename_i hcheck
      have hred : Reduced ℓ sec := ⟨hlen, (ho.sc_check sec hlen).mp (not_not.mp hcheck)⟩
      rw [ho.scalarmult_base sec hred] at h
      exact ⟨hred, (Option.some.inj h).symm⟩
  · rintro ⟨hred, rfl⟩
    refine ⟨hred.length, ?_⟩
    have hcheck := (ho.sc_check sec hred.length).mpr hred.lt
    unfold secret_key_to_public_key
    rw [if_neg (not_not.mpr hcheck), ho.scalarmult_base sec hred]

theorem keyPair_generated (ho : Implements o ℓ G) {randomBytes : Bytes}
    (h : randomBytes.length = 32) :
    KeyPair o (generate_keys o randomBytes).1 (generate_keys o randomBytes).2 := by
  have hred := (ho.reduce32 _ h).1
  refine (keyPair_iff ho).mpr ⟨hred, ?_⟩
  exact congrArg o.ge_tobytes (ho.scalarmult_base _ hred)

/-- The view key of a wallet. -/
theorem keyPair_view (ho : Implements o ℓ G) (spend_secret_key : Bytes) :
    ∃ pub, KeyPair o pub (derive_view_secret_key o spend_secret_key) :=
  ⟨_, (keyPair_iff ho).mpr ⟨ho.hash_reduced spend_secret_key, rfl⟩⟩

/-- The other side computes the same point. -/
theorem generate_key_derivation_eq (ho : Implements o ℓ G) {a : Nat}
    (hpub : pub = o.ge_tobytes (a • G)) (hsec : Reduced ℓ sec) (view_tag : Bool) :
    ∃ tag, generate_key_derivation o pub sec view_tag =
      some (o.ge_tobytes (8 • (Bytes.readLE sec * a) • G), tag) ∧
      tag = if view_tag then (o.keccak ([118, 105, 101, 119, 95, 116, 97, 103] ++
        o.ge_tobytes (8 • (Bytes.readLE sec * a) • G) ++ [0])).head? else none := by
  refine ⟨_, ?_, rfl⟩
  unfold generate_key_derivation
  rw [hpub, ho.frombytes]
  simp only [ho.scalarmult _ _ hsec, ho.mul8, smul_smul]

end

/-! ## Primitives by logarithms -/

/-- mirrors src/base/tools/cryptonote/crypto-ops.c:3815-3825 -/
def order : Nat := 2 ^ 252 + 27742317777372353535851937790883648493

instance : NeZero order := ⟨by decide⟩

/-- The places of some encodings: multiples of the base point, and their encodings. -/
def swaps : List (Nat × Nat) → Equiv.Perm Bytes
  | [] => Equiv.refl Bytes
  | (n, b) :: l => (Equiv.swap (Bytes.le 32 (2 ^ 255 + n)) (Bytes.le 32 b)).trans (swaps l)

/-- Points by their logarithms, with the encodings of some of them, and some hashes. -/
def byLogarithm (points : List (Nat × Nat)) (hashes : List (Bytes × Nat)) :
    CryptoOps (ZMod order) where
  ge_frombytes_vartime b :=
    let n := Bytes.readLE ((swaps points).symm b)
    if 2 ^ 255 ≤ n then some ((n - 2 ^ 255 : Nat) : ZMod order) else none
  ge_tobytes P := swaps points (Bytes.le 32 (2 ^ 255 + P.val))
  ge_scalarmult_base s := (Bytes.readLE s : ZMod order)
  ge_scalarmult s P := (Bytes.readLE s : ZMod order) * P
  ge_double_scalarmult_base_vartime a P b :=
    (Bytes.readLE a : ZMod order) * P + (Bytes.readLE b : ZMod order)
  ge_mul8 P := 8 * P
  ge_add P Q := P + Q
  sc_reduce32 s := Bytes.le 32 (Bytes.readLE s % order)
  sc_add a b := Bytes.le 32 ((Bytes.readLE a + Bytes.readLE b) % order)
  sc_sub a b := Bytes.le 32 ((Bytes.readLE a + (order - Bytes.readLE b % order)) % order)
  sc_mulsub a b c :=
    Bytes.le 32 ((Bytes.readLE c + (order - Bytes.readLE a * Bytes.readLE b % order)) % order)
  sc_check s := if Bytes.readLE s < order then 0 else -1
  keccak b := Bytes.le 32 ((hashes.lookup b).getD 1)

theorem readLE_le_mod (n : Nat) : Bytes.readLE (Bytes.le 32 (n % order)) = n % order := by
  have hlt : n % order < 256 ^ 32 :=
    Nat.lt_trans (Nat.mod_lt _ (by decide)) (by decide : order < 256 ^ 32)
  rw [Bytes.readLE_le, Nat.mod_eq_of_lt hlt]

theorem reduced_le_mod (n : Nat) : Reduced order (Bytes.le 32 (n % order)) :=
  ⟨Bytes.length_le 32 _, by rw [readLE_le_mod]; exact Nat.mod_lt _ (by decide)⟩

/-- What is taken off comes back. -/
theorem sub_add_modEq (n m : Nat) : (n + (order - m % order)) % order + m ≡ n [MOD order] := by
  have hlt : m % order < order := Nat.mod_lt _ (by decide)
  have hsum : n + (order - m % order) + m % order = n + order := by omega
  calc (n + (order - m % order)) % order + m
      ≡ n + (order - m % order) + m % order [MOD order] :=
        (Nat.mod_modEq _ _).add (Nat.mod_modEq _ _).symm
    _ ≡ n [MOD order] := by rw [hsum]; exact Nat.add_modEq_right

theorem implements_byLogarithm {points : List (Nat × Nat)} {hashes : List (Bytes × Nat)}
    (h : (byLogarithm points hashes).ge_tobytes 0 = infinity) :
    Implements (byLogarithm points hashes) order 1 where
  pos := by decide
  base := ZMod.addOrderOf_one order
  frombytes P := by
    have hlt : 2 ^ 255 + P.val < 256 ^ 32 := by
      have := P.val_lt
      have : order < 2 ^ 255 := by decide
      omega
    have hread : Bytes.readLE (Bytes.le 32 (2 ^ 255 + P.val)) = 2 ^ 255 + P.val := by
      rw [Bytes.readLE_le, Nat.mod_eq_of_lt hlt]
    simp only [byLogarithm, Equiv.symm_apply_apply, hread]
    rw [if_pos (Nat.le_add_right _ _), Nat.add_sub_cancel_left, ZMod.natCast_zmod_val]
  identity := h
  scalarmult_base s _ := (nsmul_one _).symm
  scalarmult s P _ := (nsmul_eq_mul _ _).symm
  double_scalarmult a P b _ _ := by
    rw [nsmul_eq_mul, nsmul_one]
    rfl
  mul8 P := (nsmul_eq_mul 8 P).symm
  add _ _ := rfl
  reduce32 s _ := ⟨reduced_le_mod _, readLE_le_mod _⟩
  sc_add a b _ _ := ⟨reduced_le_mod _, by
    show Bytes.readLE (Bytes.le 32 (_ % order)) ≡ _ [MOD order]
    rw [readLE_le_mod]
    exact Nat.mod_modEq _ _⟩
  sc_sub a b _ _ := ⟨reduced_le_mod _, by
    show Bytes.readLE (Bytes.le 32 (_ % order)) + _ ≡ _ [MOD order]
    rw [readLE_le_mod]
    exact sub_add_modEq _ _⟩
  sc_mulsub a b c _ _ _ := ⟨reduced_le_mod _, by
    show Bytes.readLE (Bytes.le 32 (_ % order)) + _ ≡ _ [MOD order]
    rw [readLE_le_mod]
    exact sub_add_modEq _ _⟩
  sc_check s _ := by
    show (if Bytes.readLE s < order then (0 : Int) else -1) = 0 ↔ _
    split <;> simp [*]
  keccak b := Bytes.length_le 32 _

/-- Multiples of the base point of the curve: the identity, the keys 1, 2 and 3, the derivation of
2 and 3, and the first output key. -/
def points : List (Nat × Nat) :=
  [(0, 1),
    (1, 0x6666666666666666666666666666666666666666666666666666666666666658),
    (2, 0x2260cdf3092329c21da25ee8c9a21f5697390f51643851560e5f46ae6af8a3c9),
    (3, 0x1267b1d177ee69aba126a18e60269ef79f16ec176724030402c3684878f5b4d4),
    (48, 0xe54330726d32aaa4a89784e2141fd21a8be67387882b44a38745ea7ba206df11),
    (0x5ac66d6ebd0118ba9cabf9ebe6720a27c87e5ebdabb3c1dc9a37fbd6852628c,
      0xe4dfa65b4ce57426bf9c2e3b1edd1669f57bf0c3cfb42bb1e83afc2f56f0ea5a)]

/-- The public key of the secret key `n`, which is one of `points`. -/
def pointOf (n : Nat) : Bytes := Bytes.le 32 ((points.lookup n).getD 0)

/-- The challenges for the commitments of 0 and 2, and the scalar of the first output. -/
def hashes : List (Bytes × Nat) :=
  [(List.replicate 32 0 ++ pointOf 1 ++ pointOf 0,
      0xe42cc2fdd6f06cb93621367a5363e29bf7e5085022f1b920d0355ba0d3a69625),
    (List.replicate 32 0 ++ pointOf 1 ++ pointOf 2,
      0x930f6f2ba4f46da99807c90aecb6682655138f061ebb60327c17858c567cf84a),
    (pointOf 48 ++ [0], 0xc5ac66d6ebd0118ba9cabf9ebe6720a376fb9c5b7e569629ea8024f9c3d851a7)]

def curve : CryptoOps (ZMod order) := byLogarithm points hashes

theorem implements_curve : Implements curve order 1 :=
  implements_byLogarithm (by decide +kernel)

/-! ## The laws -/

/-- **Signatures verify**, for scalars that are not zero; the rounds return as soon as one of them
answers. -/
theorem generate_signature_checks {E : Type} [AddCommGroup E] (o : CryptoOps E) (ℓ : Nat) (G : E)
    (ho : Implements o ℓ G)
    (prefix_hash pub sec : Bytes) (hsec : Reduced ℓ sec)
    (hpub : pub = o.ge_tobytes (Bytes.readLE sec • G)) (randomBytes : Nat → Bytes)
    (hrandom : ∀ i, (randomBytes i).length = 32 ∧ Bytes.readLE (randomBytes i) % ℓ ≠ 0)
    (sig : Signature) (hsig : Fresh o prefix_hash pub (randomBytes 0) sig) :
    (∀ i, Answers o prefix_hash pub sec (randomBytes i) →
      ∃ fuel sig', generate_signature o prefix_hash pub sec randomBytes fuel sig = some sig') ∧
    ∀ fuel sig', generate_signature o prefix_hash pub sec randomBytes fuel sig = some sig' →
      check_signature o prefix_hash pub sig' = true :=
  ⟨fun _ h => generate_returns h sig,
    fun _ _ h => check_generated ho hsec hpub hrandom hsig h⟩

/-- The signature of the zero hash by the key 1 with the scalar 2. -/
theorem generate_signature_checks_curve :
    ∃ sig, generate_signature curve (List.replicate 32 0) (pointOf 1) (Bytes.le 32 1)
        (fun _ => Bytes.le 32 2) 1 ⟨[], []⟩ = some sig ∧
      check_signature curve (List.replicate 32 0) (pointOf 1) sig = true := by
  refine ⟨Option.get _ (by decide +kernel), (Option.some_get _).symm, ?_⟩
  exact (generate_signature_checks curve order 1 implements_curve (List.replicate 32 0) (pointOf 1)
    (Bytes.le 32 1) ⟨rfl, by decide +kernel⟩ (by decide +kernel) (fun _ => Bytes.le 32 2)
    (fun _ => ⟨rfl, by decide +kernel⟩) ⟨[], []⟩ (.inl rfl)).2 1 _ (Option.some_get _).symm

/-- With the scalar 0 the commitment is the identity, which the verifier refuses. -/
theorem generate_signature_fails :
    Implements curve order 1 ∧ Reduced order (Bytes.le 32 1) ∧
      pointOf 1 = curve.ge_tobytes (Bytes.readLE (Bytes.le 32 1) • (1 : ZMod order)) ∧
      ∃ sig, generate_signature curve (List.replicate 32 0) (pointOf 1) (Bytes.le 32 1)
          (fun _ => Bytes.le 32 0) 1 ⟨[], []⟩ = some sig ∧
        check_signature curve (List.replicate 32 0) (pointOf 1) sig = false := by
  refine ⟨implements_curve, ⟨rfl, by decide +kernel⟩, by decide +kernel,
    Option.get _ (by decide +kernel), (Option.some_get _).symm, ?_⟩
  decide +kernel

/-- **Derived keys match**: those of the sender, and those of the wallet. -/
theorem derived_keys {E : Type} [AddCommGroup E] (o : CryptoOps E) (ℓ : Nat) (G : E)
    (ho : Implements o ℓ G) (txPub txSec viewPub viewSec spendPub spendSec : Bytes)
    (htx : KeyPair o txPub txSec)
    (hview : KeyPair o viewPub viewSec) (hspend : KeyPair o spendPub spendSec)
    (output_index : UInt64) (view_tag : Bool) :
    (∃ d, generate_key_derivation o txPub viewSec view_tag = some d ∧
      generate_key_derivation o viewPub txSec view_tag = some d) ∧
    ∀ derivation, ∃ key, derive_public_key o derivation output_index spendPub = some key ∧
      secret_key_to_public_key o (derive_secret_key o derivation output_index spendSec) =
        some key := by
  obtain ⟨htxred, htxpub⟩ := (keyPair_iff ho).mp htx
  obtain ⟨hviewred, hviewpub⟩ := (keyPair_iff ho).mp hview
  obtain ⟨hspendred, hspendpub⟩ := (keyPair_iff ho).mp hspend
  constructor
  · obtain ⟨tag, h, htag⟩ := generate_key_derivation_eq ho htxpub hviewred view_tag
    obtain ⟨tag', h', htag'⟩ := generate_key_derivation_eq ho hviewpub htxred view_tag
    rw [Nat.mul_comm] at h' htag'
    refine ⟨_, h, ?_⟩
    rw [h', htag, htag']
  · intro derivation
    have hscalar : Reduced ℓ (derivation_to_scalar o derivation output_index) :=
      ho.hash_reduced _
    obtain ⟨hred, hmod⟩ := ho.sc_add _ _ hspendred hscalar
    have hpoint : Bytes.readLE (derive_secret_key o derivation output_index spendSec) • G =
        Bytes.readLE spendSec • G +
          Bytes.readLE (derivation_to_scalar o derivation output_index) • G := by
      rw [← add_smul]
      exact nsmul_eq_nsmul_iff_modEq.mpr (ho.base ▸ hmod)
    refine ⟨_, ?_, ((keyPair_iff ho).mpr ⟨hred, rfl⟩).pub⟩
    unfold derive_public_key
    rw [hspendpub, ho.frombytes]
    show some (o.ge_tobytes (o.ge_add _ (o.ge_scalarmult_base _))) = _
    rw [ho.add, ho.scalarmult_base _ hscalar]
    exact congrArg (fun P => some (o.ge_tobytes P)) hpoint.symm

/-- The transaction key 2, the view key 3 and the spend key 1. -/
theorem derived_keys_curve :
    (∃ d, generate_key_derivation curve (pointOf 2) (Bytes.le 32 3) false = some d ∧
      generate_key_derivation curve (pointOf 3) (Bytes.le 32 2) false = some d) ∧
    ∀ derivation, ∃ key, derive_public_key curve derivation 0 (pointOf 1) = some key ∧
      secret_key_to_public_key curve (derive_secret_key curve derivation 0 (Bytes.le 32 1)) =
        some key :=
  derived_keys curve order 1 implements_curve (pointOf 2) (Bytes.le 32 2) (pointOf 3)
    (Bytes.le 32 3) (pointOf 1) (Bytes.le 32 1) ⟨rfl, by decide +kernel⟩ ⟨rfl, by decide +kernel⟩
    ⟨rfl, by decide +kernel⟩ 0 false

end L2.Signing

end Rxs
