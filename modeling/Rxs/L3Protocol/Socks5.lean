import Rxs.Core.Bytes
import Rxs.L3Protocol.Client

/-!
# The handshake with a SOCKS5 proxy

`Socks5::read` takes every read for one reply of the proxy: a read that is shorter
than `m_nextSize` is dropped, one that is long enough is the reply as a whole, with
whatever else it has. The second reply is ten bytes long or more; five are enough.

`replies` says what the stream says: which state is entered behind which byte.

* `run_split`: the handshake goes on with the first read that is long enough.
* **`handshake_split`**: exactly when the reads give what the stream says.
* `handshake_split_fails`: replies in two segments, and bytes behind a reply.
-/
namespace Rxs

open Rxs.Core

namespace Socks5

/-- The first two bytes that are looked at. -/
def granted (data : Bytes) : Bool := data.getD 0 0 = 5 && data.getD 1 0 = 0

/-- The result says whether `Client::close` was called.
mirrors src/base/net/stratum/Socks5.cpp:29-47 -/
def read (k : Socks5) (data : Bytes) : Bool × Socks5 :=
  if data.length < k.nextSize then (false, k)
  else if granted data then
    if k.state = .SentInitialHandshake then (false, ⟨.SentFinalHandshake, 5⟩)
    else (false, { k with state := .Ready })
  else (true, k)

/-- mirrors src/base/net/stratum/Socks5.cpp:50-58 -/
def handshake : Socks5 := ⟨.SentInitialHandshake, 2⟩

/-- What the client sees of the handshake. -/
inductive Reached where
  | sentFinalHandshake | ready | error
  deriving DecidableEq, Repr

/-- What is reached in the reads, and behind how many bytes of the stream. A client
that is ready deletes the handshake, one that is closed reads no more.
mirrors src/base/net/stratum/Client.cpp:889-906 -/
def run (k : Socks5) (pos : Nat) : List Bytes → List (Reached × Nat)
  | [] => []
  | data :: reads =>
    let r := k.read data
    let pos := pos + data.length
    if r.1 then [(.error, pos)]
    else if r.2.state = .Ready then [(.ready, pos)]
    else if r.2.state ≠ k.state then (.sentFinalHandshake, pos) :: run r.2 pos reads
    else run r.2 pos reads

end Socks5

namespace L3.Socks5

open Rxs.Socks5

/-- The length of the second reply, by its address type: four or sixteen bytes, or a
name with its length before it. -/
def replyLength : Bytes → Option Nat
  | _ :: _ :: _ :: kind :: first :: _ =>
    if kind = 1 then some 10
    else if kind = 4 then some 22
    else if kind = 3 then some (7 + first.toNat)
    else none
  | _ => none

/-- The length of the second reply, if the stream has all of it. -/
def complete (s : Bytes) : Option Nat := (replyLength s).filter (· ≤ s.length)

/-- What the stream says of the second reply. -/
def reply (s : Bytes) : List (Reached × Nat) :=
  match complete s with
  | some n => [(if granted s then .ready else .error, 2 + n)]
  | none => []

/-- **What the stream says**: each reply is two or more bytes, and ends where it ends. -/
def replies (s : Bytes) : List (Reached × Nat) :=
  if s.length < 2 then []
  else if ¬ granted s then [(.error, 2)]
  else (.sentFinalHandshake, 2) :: reply (s.drop 2)

/-- The second reply comes in one read, or nothing comes that passes for a reply. The
reads before it are too short to be looked at. -/
def Second (reads : List Bytes) : Prop :=
  match complete reads.flatten with
  | some n => ∃ pre data post, reads = pre ++ data :: post ∧ (∀ p ∈ pre, p.length < 5) ∧
      5 ≤ data.length ∧ pre.flatten.length + data.length = n ∧
      granted data = granted reads.flatten
  | none => ∀ data ∈ reads, data.length < 5

/-- The first reply comes in one read of its own, or has not come yet. -/
def Whole (reads : List Bytes) : Prop :=
  reads.flatten.length < 2 ∨ ∃ pre data post, reads = pre ++ data :: post ∧ pre.flatten = [] ∧
    data.length = 2 ∧ (granted data = true → Second post)

/-! ## The first read that is long enough -/

theorem exists_first (n : Nat) (reads : List Bytes) : (∀ data ∈ reads, data.length < n) ∨
    ∃ pre data post, reads = pre ++ data :: post ∧ (∀ p ∈ pre, p.length < n) ∧
      n ≤ data.length := by
  induction reads with
  | nil => exact .inl fun _ h => by cases h
  | cons d ds ih =>
    by_cases hd : d.length < n
    · rcases ih with hall | ⟨pre, data, post, rfl, hpre, hdata⟩
      · exact .inl (List.forall_mem_cons.mpr ⟨hd, hall⟩)
      · exact .inr ⟨d :: pre, data, post, rfl, List.forall_mem_cons.mpr ⟨hd, hpre⟩, hdata⟩
    · exact .inr ⟨[], d, ds, rfl, (fun _ h => by cases h), not_lt.mp hd⟩

theorem run_short {k : Socks5} (hk : k.state ≠ .Ready) (pos : Nat) {pre : List Bytes}
    (hpre : ∀ p ∈ pre, p.length < k.nextSize) (reads : List Bytes) :
    k.run pos (pre ++ reads) = k.run (pos + pre.flatten.length) reads := by
  induction pre generalizing pos with
  | nil => rfl
  | cons p pre ih =>
    obtain ⟨hp, hpre⟩ := List.forall_mem_cons.mp hpre
    have hread : k.read p = (false, k) := if_pos hp
    rw [List.cons_append, Socks5.run, hread]
    simp only [Bool.false_eq_true, if_false, hk, ne_eq, not_true_eq_false]
    rw [ih _ hpre, List.flatten_cons, List.length_append, Nat.add_assoc]

theorem run_none {k : Socks5} (hk : k.state ≠ .Ready) (pos : Nat) {reads : List Bytes}
    (h : ∀ p ∈ reads, p.length < k.nextSize) : k.run pos reads = [] := by
  have hrun := run_short hk pos h []
  rw [List.append_nil] at hrun
  rw [hrun]
  rfl

/-- **The first reply** is the first read of two bytes or more. -/
theorem run_first (pos : Nat) {pre : List Bytes} (hpre : ∀ p ∈ pre, p.length < 2) {data : Bytes}
    (hdata : 2 ≤ data.length) (post : List Bytes) :
    handshake.run pos (pre ++ data :: post) =
      if granted data then (.sentFinalHandshake, pos + pre.flatten.length + data.length) ::
        Socks5.run ⟨.SentFinalHandshake, 5⟩ (pos + pre.flatten.length + data.length) post
      else [(.error, pos + pre.flatten.length + data.length)] := by
  rw [run_short (k := handshake) Socks5.State.noConfusion pos hpre, Socks5.run]
  have hread : handshake.read data =
      if granted data then (false, ⟨.SentFinalHandshake, 5⟩) else (true, handshake) := by
    unfold Socks5.read
    exact if_neg (not_lt.mpr hdata)
  rw [hread]
  cases granted data <;> rfl

/-- **The second reply** is the first read of five bytes or more. -/
theorem run_second (pos : Nat) {pre : List Bytes} (hpre : ∀ p ∈ pre, p.length < 5) {data : Bytes}
    (hdata : 5 ≤ data.length) (post : List Bytes) :
    Socks5.run ⟨.SentFinalHandshake, 5⟩ pos (pre ++ data :: post) =
      [(if granted data then .ready else .error, pos + pre.flatten.length + data.length)] := by
  rw [run_short (k := ⟨.SentFinalHandshake, 5⟩) Socks5.State.noConfusion pos hpre, Socks5.run]
  have hread : Socks5.read ⟨.SentFinalHandshake, 5⟩ data =
      if granted data then (false, ⟨.Ready, 5⟩) else (true, ⟨.SentFinalHandshake, 5⟩) := by
    unfold Socks5.read
    exact if_neg (not_lt.mpr hdata)
  rw [hread]
  cases granted data <;> rfl

/-! ## The law -/

theorem granted_append {data : Bytes} (h : 2 ≤ data.length) (rest : Bytes) :
    granted (data ++ rest) = granted data := by
  match data, h with
  | _ :: _ :: _, _ => rfl

theorem second_iff (reads : List Bytes) :
    Socks5.run ⟨.SentFinalHandshake, 5⟩ 2 reads = reply reads.flatten ↔ Second reads := by
  have hnone (h : ∀ data ∈ reads, data.length < 5) :
      Socks5.run ⟨.SentFinalHandshake, 5⟩ 2 reads = [] :=
    run_none (k := ⟨.SentFinalHandshake, 5⟩) Socks5.State.noConfusion 2 h
  unfold Second reply
  cases complete reads.flatten with
  | none =>
    dsimp only
    constructor
    · intro h
      rcases exists_first 5 reads with hall | ⟨pre, data, post, rfl, hpre, hdata⟩
      · exact hall
      · rw [run_second 2 hpre hdata] at h
        cases h
    · exact hnone
  | some n =>
    dsimp only
    constructor
    · intro h
      rcases exists_first 5 reads with hall | ⟨pre, data, post, he, hpre, hdata⟩
      · rw [hnone hall] at h
        cases h
      · refine ⟨pre, data, post, he, hpre, hdata, ?_⟩
        rw [he, run_second 2 hpre hdata, ← he] at h
        simp only [List.cons.injEq, Prod.mk.injEq, and_true] at h
        refine ⟨by omega, ?_⟩
        cases hd : granted data <;> cases hs : granted reads.flatten <;> simp_all
    · rintro ⟨pre, data, post, he, hpre, hdata, hn, hg⟩
      rw [← hg, he, run_second 2 hpre hdata, Nat.add_assoc, hn]

/-- **However the reads are cut**, the handshake goes through what the stream says, at
the bytes where the stream says it: exactly when each reply comes in a read of its own. -/
theorem handshake_split (reads : List Bytes) :
    handshake.run 0 reads = replies reads.flatten ↔ Whole reads := by
  unfold replies Whole
  by_cases hlen : reads.flatten.length < 2
  · have hall : ∀ data ∈ reads, data.length < 2 := by
      intro data hd
      have := (List.sublist_flatten_of_mem hd).length_le
      omega
    rw [if_pos hlen, run_none (k := handshake) Socks5.State.noConfusion 0 hall]
    exact ⟨fun _ => .inl hlen, fun _ => rfl⟩
  -- a first reply that is a read of its own
  have hown {pre : List Bytes} {data : Bytes} {post : List Bytes} (he : reads = pre ++ data :: post)
      (hpre : pre.flatten = []) (hdata : data.length = 2) :
      granted reads.flatten = granted data ∧ reads.flatten.drop 2 = post.flatten := by
    have hs : reads.flatten = data ++ post.flatten := by
      rw [he, List.flatten_append, hpre, List.flatten_cons, List.nil_append]
    rw [hs]
    exact ⟨granted_append (Nat.le_of_eq hdata.symm) _, by rw [← hdata, List.drop_left]⟩
  rw [if_neg hlen]
  constructor
  · intro h
    rcases exists_first 2 reads with hall | ⟨pre, data, post, he, hpre, hdata⟩
    · rw [run_none (k := handshake) Socks5.State.noConfusion 0 hall] at h
      split at h <;> cases h
    · have hrun := run_first 0 hpre hdata post
      rw [← he, h] at hrun
      have hpos : 0 + pre.flatten.length + data.length = 2 := by
        cases hg : granted data <;> rw [hg] at hrun <;> split at hrun <;> simp_all
      have hnil : pre.flatten = [] := List.length_eq_zero_iff.mp (by omega)
      have hdata : data.length = 2 := by omega
      refine .inr ⟨pre, data, post, he, hnil, hdata, fun hg => ?_⟩
      obtain ⟨hgs, hdrop⟩ := hown he hnil hdata
      rw [hgs, hg, hdrop, hpos] at hrun
      simp only [not_true_eq_false, if_false, if_true, List.cons.injEq, true_and] at hrun
      exact (second_iff post).mp hrun.symm
  · rintro (h | ⟨pre, data, post, he, hpre, hdata, hs⟩)
    · exact absurd h hlen
    · obtain ⟨hgs, hdrop⟩ := hown he hpre hdata
      have hshort : ∀ p ∈ pre, p.length < 2 := by
        intro p hp
        rw [List.flatten_eq_nil_iff.mp hpre p hp]
        decide
      have hrun := run_first 0 hshort (Nat.le_of_eq hdata.symm) post
      rw [← he, hpre, hdata] at hrun
      rw [hrun, hgs, hdrop]
      cases hg : granted data with
      | false => rfl
      | true =>
        have hsecond := (second_iff post).mpr (hs hg)
        exact congrArg ((.sentFinalHandshake, 2) :: ·) hsecond

/-- The two replies, and what the pool sends behind them. -/
def welcome : Bytes := [5, 0, 5, 0, 0, 1, 10, 0, 0, 1, 11, 184, 123]

/-- The second reply cut behind its sixth byte, so that the rest goes to the pool's
protocol; the first one in two reads; bytes of the pool in the read of the reply. -/
theorem handshake_split_fails :
    (¬ ∀ reads : List Bytes, handshake.run 0 reads = replies reads.flatten) ∧
    replies welcome = [(.sentFinalHandshake, 2), (.ready, 12)] ∧
    handshake.run 0 [[5, 0], [5, 0, 0, 1, 10, 0], [0, 1, 11, 184, 123]] =
      [(.sentFinalHandshake, 2), (.ready, 8)] ∧
    handshake.run 0 [[5], [0], [5, 0, 0, 1, 10, 0, 0, 1, 11, 184], [123]] =
      [(.sentFinalHandshake, 12)] ∧
    handshake.run 0 [[5, 0], [5, 0, 0, 1, 10, 0, 0, 1, 11, 184, 123]] =
      [(.sentFinalHandshake, 2), (.ready, 13)] := by
  refine ⟨fun h => ?_, by decide, by decide, by decide, by decide⟩
  have hcut := h [[5, 0], [5, 0, 0, 1, 10, 0], [0, 1, 11, 184, 123]]
  exact absurd hcut (by decide)

/-! ## The handshake inside the client -/

/-- A chunk of `Client.read` stands for the bytes it was made from. -/
theorem readProxy_read {s : Client} {k : Socks5} (hs : s.socks5 = some k) {c : Client.Chunk}
    {data : Bytes} (hsize : c.size = data.length) (hgranted : c.granted = granted data)
    (w : Client.Write) (hw : w ≠ .failed) :
    Client.readProxy s k c w = if (k.read data).1 then (Client.close s).2
      else { s with socks5 := some (k.read data).2 } := by
  unfold Client.readProxy Socks5.read Client.write
  rw [hsize, hgranted, if_neg hw]
  split
  · simp [← hs]
  · split
    · split <;> rfl
    · rfl

end L3.Socks5

end Rxs
