import Rxs.L3Protocol.Socks5
import Rxs.L4App.PoolEdit

/-!
# The request to a SOCKS5 proxy

`Socks5::connect` asks the proxy for the host of the pool: four bytes, sixteen, or the
name itself behind one byte for its length, in a buffer of 264 bytes on the stack. Which
hosts are numbers is what libuv says, `ip4` and `ip6` with the bytes of the address.

* `decode`: what the proxy makes of a request (RFC 1928).
* **`connect_iff`**: exactly when the request is for the host and the port.
-/
namespace Rxs

open Rxs.Core

namespace Socks5

/-- `uv_ip4_addr` and `uv_ip6_addr`. -/
structure Numbers where
  ip4 : Bytes → Option { b : Bytes // b.length = 4 }
  ip6 : Bytes → Option { b : Bytes // b.length = 16 }

/-- A `memcpy` into the buffer, `none` behind its end. -/
def put (buf : Bytes) (off : Nat) (d : Bytes) : Option Bytes :=
  if off + d.length ≤ buf.length then some (Bytes.writeAt buf off d) else none

/-- `htons`. -/
def htons (port : UInt16) : Bytes := [(port >>> 8).toUInt8, port.toUInt8]

/-- What is written to the proxy; `buf` is what the stack held before.
mirrors src/base/net/stratum/Socks5.cpp:74-110 -/
def connect (net : Numbers) (buf : { b : Bytes // b.length = 264 }) (host : Bytes)
    (port : UInt16) : Option Bytes := do
  let buf ← put buf.1 0 [0x05, 0x01, 0x00]
  let (buf, bufSize) ←
    match net.ip4 host, net.ip6 host with
    | some a, _ => do
      let buf ← put buf 3 [0x01]
      pure (← put buf 4 a.1, 10)
    | none, some a => do
      let buf ← put buf 3 [0x04]
      pure (← put buf 4 a.1, 22)
    | none, none => do
      let buf ← put buf 3 [0x03, UInt8.ofNat host.length]
      pure (← put buf 5 host, host.length + 7)
  let buf ← put buf (bufSize - 2) (htons port)
  if bufSize ≤ buf.length then some (buf.take bufSize) else none

end Socks5

namespace L4.ProxyConnect

open Rxs.Socks5

/-! ## What the proxy reads -/

inductive Address where
  | v4 (b : Bytes)
  | name (b : Bytes)
  | v6 (b : Bytes)
  deriving DecidableEq, Repr

/-- An address of so many bytes, the port, and nothing behind it. -/
def target (kind : Bytes → Address) (n : Nat) (s : Bytes) : Option (Address × Nat) :=
  if s.length = n + 2 then some (kind (s.take n), Bytes.readLE (s.drop n).reverse) else none

def decode : Bytes → Option (Address × Nat)
  | ver :: cmd :: rsv :: atyp :: s =>
    if ver = 5 ∧ cmd = 1 ∧ rsv = 0 then
      if atyp = 1 then target .v4 4 s
      else if atyp = 4 then target .v6 16 s
      else if atyp = 3 then s.head?.bind fun n => target .name n.toNat s.tail
      else none
    else none
  | _ => none

/-- The address a host stands for. -/
def addressOf (net : Numbers) (host : Bytes) : Address :=
  match net.ip4 host, net.ip6 host with
  | some a, _ => .v4 a.1
  | none, some a => .v6 a.1
  | none, none => .name host

/-- The request stays in the buffer, the length of a name is that of the host, and the
proxy reads the host and the port. -/
def WellFormed (net : Numbers) (buf : { b : Bytes // b.length = 264 }) (host : Bytes)
    (port : UInt16) : Prop :=
  ∃ req ∈ connect net buf host port,
    (addressOf net host = .name host → (req.getD 4 0).toNat = host.length) ∧
    decode req = some (addressOf net host, port.toNat)

/-! ## The three requests -/

theorem readLE_htons (port : UInt16) : Bytes.readLE (htons port).reverse = port.toNat := by
  have h : port.toNat < 2 ^ 16 := port.toNat_lt
  simp only [htons, List.reverse_cons, List.reverse_nil, List.nil_append, List.singleton_append,
    Bytes.readLE, UInt16.toNat_toUInt8, UInt16.toNat_shiftRight, Nat.shiftRight_eq_div_pow]
  simp
  omega

/-- A write behind what is written. -/
theorem put_append {pre rest d : Bytes} {off : Nat} (hoff : pre.length = off) :
    put (pre ++ rest) off d =
      if d.length ≤ rest.length then some (pre ++ d ++ rest.drop d.length) else none := by
  subst hoff
  simp only [put, List.length_append, Nat.add_le_add_iff_left, Bytes.writeAt,
    List.take_left, ← List.drop_drop, List.drop_left]

/-- Kind, address and port, one behind the other. -/
theorem request_eq (bufSize : Nat) {pre rest kind addr : Bytes} {port : UInt16} {off : Nat}
    (hpre : pre.length = 3) (hoff : 3 + kind.length = off)
    (hsize : off + addr.length + 2 = bufSize) :
    (do
      let buf ← put (pre ++ rest) 3 kind
      let buf ← put buf off addr
      let buf ← put buf (bufSize - 2) (htons port)
      if bufSize ≤ buf.length then some (buf.take bufSize) else none : Option Bytes) =
      if kind.length + addr.length + 2 ≤ rest.length then some (pre ++ kind ++ addr ++ htons port)
      else none := by
  have hport : (htons port).length = 2 := rfl
  by_cases hk : kind.length ≤ rest.length
  · have h₁ : (pre ++ kind).length = off := by rw [List.length_append, hpre, hoff]
    rw [put_append hpre, if_pos hk, Option.bind_eq_bind, Option.bind_some, put_append h₁]
    by_cases ha : addr.length ≤ (rest.drop kind.length).length
    · have h₂ : (pre ++ kind ++ addr).length = bufSize - 2 := by
        rw [List.length_append, h₁]
        omega
      rw [if_pos ha, Option.bind_some, put_append h₂, hport]
      rw [List.length_drop] at ha
      by_cases hp : 2 ≤ ((rest.drop kind.length).drop addr.length).length
      · have h₃ : (pre ++ kind ++ addr ++ htons port).length = bufSize := by
          rw [List.length_append, h₂, hport]
          omega
        rw [if_pos hp, Option.bind_some, if_pos (by rw [List.length_append, h₃]; omega), ← h₃,
          List.take_left, if_pos]
        rw [List.length_drop, List.length_drop] at hp
        omega
      · rw [List.length_drop, List.length_drop] at hp
        rw [if_neg (by rw [List.length_drop, List.length_drop]; exact hp), if_neg (by omega)]
        rfl
    · rw [List.length_drop] at ha
      rw [if_neg (by rw [List.length_drop]; exact ha), if_neg (by omega)]
      rfl
  · rw [put_append hpre, if_neg hk, if_neg (by omega)]
    rfl

/-- The writes of a request, one behind the other. -/
theorem connect_eq (net : Numbers) (buf : { b : Bytes // b.length = 264 }) (host : Bytes)
    (port : UInt16) :
    connect net buf host port =
      match net.ip4 host, net.ip6 host with
      | some a, _ => some ([5, 1, 0, 1] ++ a.1 ++ htons port)
      | none, some a => some ([5, 1, 0, 4] ++ a.1 ++ htons port)
      | none, none =>
        if host.length ≤ 257 then
          some ([5, 1, 0, 3, UInt8.ofNat host.length] ++ host ++ htons port)
        else none := by
  obtain ⟨buf, hbuf⟩ := buf
  have hrest : (buf.drop 3).length = 261 := by rw [List.length_drop, hbuf]
  have h₁ : put buf 0 [5, 1, 0] = some ([5, 1, 0] ++ buf.drop 3) := by
    simpa [hbuf] using @put_append [] buf [5, 1, 0] 0 rfl
  unfold connect
  rw [h₁, Option.bind_eq_bind, Option.bind_some]
  rcases net.ip4 host with _ | a
  · rcases net.ip6 host with _ | a
    · simp only [pure_bind]
      refine (request_eq (host.length + 7) rfl rfl (by simp; omega)).trans ?_
      rw [hrest]
      by_cases hl : host.length ≤ 257
      · rw [if_pos hl, if_pos (by simp; omega)]
        rfl
      · rw [if_neg hl, if_neg (by simp; omega)]
    · simp only [pure_bind]
      refine (request_eq 22 rfl rfl (by simp [a.2])).trans ?_
      rw [hrest, if_pos (by simp [a.2])]
      rfl
  · simp only [pure_bind]
    refine (request_eq 10 rfl rfl (by simp [a.2])).trans ?_
    rw [hrest, if_pos (by simp [a.2])]
    rfl

/-! ## What is read -/

theorem target_append (kind : Bytes → Address) {n : Nat} {a : Bytes} (h : a.length = n)
    (port : UInt16) : target kind n (a ++ htons port) = some (kind a, port.toNat) := by
  subst h
  have hl : (a ++ htons port).length = a.length + 2 := by simp [htons]
  rw [target, if_pos hl, List.take_left, List.drop_left, readLE_htons]

/-- A name with its length in one byte. -/
theorem wellFormed_name {net : Numbers} {host : Bytes} (h4 : net.ip4 host = none)
    (h6 : net.ip6 host = none) (buf : { b : Bytes // b.length = 264 }) (port : UInt16) :
    WellFormed net buf host port ↔ host.length ≤ 255 := by
  have ha : addressOf net host = .name host := by simp [addressOf, h4, h6]
  unfold WellFormed
  simp only [connect_eq, h4, h6, ha, forall_const]
  constructor
  · rintro ⟨req, hreq, hlen, -⟩
    split at hreq
    · cases hreq
      have hn : (UInt8.ofNat host.length).toNat = host.length := hlen
      have := (UInt8.ofNat host.length).toNat_lt
      omega
    · cases hreq
  · intro hl
    have hn : (UInt8.ofNat host.length).toNat = host.length := by
      rw [UInt8.toNat_ofNat']
      omega
    rw [if_pos (by omega)]
    exact ⟨_, rfl, hn, target_append .name hn.symm port⟩

/-- **The request is for the host and the port**, exactly unless the host is a name of
more than 255 characters. -/
theorem connect_iff (net : Numbers) (buf : { b : Bytes // b.length = 264 }) (host : Bytes)
    (port : UInt16) :
    WellFormed net buf host port ↔
      (net.ip4 host).isSome ∨ (net.ip6 host).isSome ∨ host.length ≤ 255 := by
  rcases h4 : net.ip4 host with _ | a
  · rcases h6 : net.ip6 host with _ | a
    · rw [wellFormed_name h4 h6]
      simp
    · have ha : addressOf net host = .v6 a.1 := by simp [addressOf, h4, h6]
      refine iff_of_true ?_ (by simp)
      unfold WellFormed
      simp only [connect_eq, h4, h6, ha]
      exact ⟨_, rfl, nofun, target_append .v6 a.2 port⟩
  · have ha : addressOf net host = .v4 a.1 := by simp [addressOf, h4]
    refine iff_of_true ?_ (by simp)
    unfold WellFormed
    simp only [connect_eq, h4, ha]
    exact ⟨_, rfl, nofun, target_append .v4 a.2 port⟩

/-- A pool's address with a name of 256 characters. -/
theorem connect_iff_long :
    (Stratum.Url.create (some (List.replicate 256 97 ++ ascii ":80"))).host =
        some (List.replicate 256 97) ∧
      ∀ net : Numbers, net.ip4 (List.replicate 256 97) = none →
        net.ip6 (List.replicate 256 97) = none →
        ∀ buf, ¬ WellFormed net buf (List.replicate 256 97) 80 := by
  constructor
  · decide +kernel
  · intro net h4 h6 buf h
    have := (wellFormed_name h4 h6 buf 80).mp h
    rw [List.length_replicate] at this
    omega

end L4.ProxyConnect

end Rxs
