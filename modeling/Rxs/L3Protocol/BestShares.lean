import Mathlib.Data.List.Induction
import Rxs.Core.Largest
import Rxs.L2Machine.Job

/-!
# The shares of a network

`NetworkState` stands between a strategy and its listener. It counts the shares that were
accepted and rejected and keeps the ten best: a share that beats the last of them takes its
place, and the list is sorted again.

* `add_topDiff`: the list after a share, whatever it held.
* **`best_shares`**: after any calls the list holds the ten largest difficulties of accepted
  shares, in descending order, and the counters add up to the results.

The counters are 64-bit words. What is printed, and the answers to the API, are left out.
-/
namespace Rxs.L3.BestShares

open Rxs.Core

/-- mirrors src/base/net/stratum/SubmitResult.h:50-55 -/
structure SubmitResult where
  actualDiff : UInt64 := 0
  diff : UInt64 := 0
  elapsed : UInt64 := 0
  deriving DecidableEq, Repr

/-- What is asked of a client that becomes active. -/
structure Client where
  pool : Bytes
  ip : Bytes
  tlsVersion : Bytes
  tlsFingerprint : Bytes
  deriving DecidableEq, Repr

/-- mirrors src/base/net/stratum/NetworkState.h:71-85 -/
structure NetworkState where
  m_algorithm : Algorithm := .INVALID
  m_active : Bool := false
  m_pool : Bytes := []
  m_topDiff : Vector UInt64 10 := Vector.replicate 10 0
  m_latency : List UInt16 := []
  m_fingerprint : Bytes := []
  m_ip : Bytes := []
  m_tls : Bytes := []
  m_accepted : UInt64 := 0
  m_connectionTime : UInt64 := 0
  m_diff : UInt64 := 0
  m_failures : UInt64 := 0
  m_hashes : UInt64 := 0
  m_rejected : UInt64 := 0
  deriving DecidableEq

/-- `std::sort` from the last element to the first. -/
def sortReversed (v : Vector UInt64 10) : Vector UInt64 10 :=
  ⟨((v.toList.reverse.insertionSort (· ≤ ·)).reverse).toArray, by simp⟩

namespace NetworkState

/-- mirrors src/base/net/stratum/NetworkState.cpp:310-327 -/
def add (s : NetworkState) (result : SubmitResult) (error : Option Bytes) : NetworkState :=
  if error.isSome then { s with m_rejected := s.m_rejected + 1 }
  else
    let s := { s with m_accepted := s.m_accepted + 1, m_hashes := s.m_hashes + result.diff }
    let s :=
      if result.actualDiff > s.m_topDiff[9] then
        { s with m_topDiff := sortReversed (s.m_topDiff.set 9 result.actualDiff) }
      else s
    { s with
      m_latency :=
        s.m_latency ++ [if result.elapsed > 0xffff then 0xffff else result.elapsed.toUInt16] }

/-- mirrors src/base/net/stratum/NetworkState.cpp:330-340 -/
def stop (s : NetworkState) : NetworkState :=
  { s with
    m_active := false
    m_diff := 0
    m_ip := []
    m_tls := []
    m_fingerprint := []
    m_failures := s.m_failures + 1
    m_latency := [] }

/-- `snprintf` leaves room for its end and for one byte more.
mirrors src/base/net/stratum/NetworkState.cpp:237-248 -/
def onActive (s : NetworkState) (client : Client) (now : UInt64) : NetworkState :=
  { s with
    m_pool := client.pool.take 254
    m_ip := client.ip
    m_tls := client.tlsVersion
    m_fingerprint := client.tlsFingerprint
    m_active := true
    m_connectionTime := now }

/-- mirrors src/base/net/stratum/NetworkState.cpp:251-257 -/
def onJob (s : NetworkState) (algorithm : Algorithm) (diff : UInt64) : NetworkState :=
  { s with m_algorithm := algorithm, m_diff := diff }

/-- mirrors src/base/net/stratum/NetworkState.cpp:260-267 -/
def onPause (s : NetworkState) (isActive : Bool) : NetworkState :=
  if !isActive then s.stop else s

end NetworkState

/-- What the strategy tells its listener. -/
inductive Event where
  | onActive (client : Client) (now : UInt64)
  | onJob (algorithm : Algorithm) (diff : UInt64)
  | onPause (isActive : Bool)
  | onResultAccepted (result : SubmitResult) (error : Option Bytes)
  deriving DecidableEq, Repr

def step (s : NetworkState) : Event → NetworkState
  | .onActive client now => s.onActive client now
  | .onJob algorithm diff => s.onJob algorithm diff
  | .onPause isActive => s.onPause isActive
  | .onResultAccepted result error => s.add result error

def run (events : List Event) : NetworkState := events.foldl step {}

/-- The results, with the errors they came with. -/
def results (events : List Event) : List (SubmitResult × Option Bytes) :=
  events.filterMap fun
    | .onResultAccepted result error => some (result, error)
    | _ => none

/-- The shares without an error. -/
def accepted (events : List Event) : List SubmitResult :=
  ((results events).filter (·.2.isNone)).map (·.1)

def rejected (events : List Event) : List SubmitResult :=
  ((results events).filter (·.2.isSome)).map (·.1)

/-! ## The list -/

theorem toList_split (v : Vector UInt64 10) : v.toList = v.toList.dropLast ++ [v[9]] := by
  have hne : v.toList ≠ [] := List.ne_nil_of_length_pos (by simp)
  rw [← List.dropLast_append_getLast hne, List.dropLast_concat, List.getLast_eq_getElem]
  simp

theorem toList_set_last (v : Vector UInt64 10) (x : UInt64) :
    (v.set 9 x).toList = v.toList.dropLast ++ [x] := by
  have hset : (v.set 9 x).toList = v.toList.set 9 x := Vector.toList_set ..
  have hdrop : v.toList.drop (9 + 1) = [] := List.drop_of_length_le (by simp)
  rw [hset, List.set_eq_take_append_cons_drop, if_pos (Vector.length_toList ▸ by decide),
    List.dropLast_eq_take, hdrop, Vector.length_toList]

theorem sortReversed_perm (v : Vector UInt64 10) : (sortReversed v).toList.Perm v.toList := by
  have h := List.perm_insertionSort (· ≤ ·) v.toList.reverse
  exact (List.reverse_perm _).trans (h.trans (List.reverse_perm _))

theorem sortReversed_sorted (v : Vector UInt64 10) :
    (sortReversed v).toList.Pairwise fun a b => b ≤ a := by
  have : Std.Total fun a b : UInt64 => a ≤ b := ⟨Std.Total.total⟩
  have : IsTrans UInt64 fun a b => a ≤ b := ⟨fun _ _ _ => Std.le_trans⟩
  exact List.pairwise_reverse.mpr (List.pairwise_insertionSort (· ≤ ·) _)

theorem add_none_accepted (s : NetworkState) (result : SubmitResult) :
    (s.add result none).m_accepted = s.m_accepted + 1 := by
  by_cases h : s.m_topDiff[9] < result.actualDiff <;> simp [NetworkState.add, h]

theorem add_none_rejected (s : NetworkState) (result : SubmitResult) :
    (s.add result none).m_rejected = s.m_rejected := by
  by_cases h : s.m_topDiff[9] < result.actualDiff <;> simp [NetworkState.add, h]

/-- The list after a share: if it held the ten largest of `l`, it holds those of `l` and of
what was accepted. -/
theorem add_topDiff {s : NetworkState} {l : List UInt64} (result : SubmitResult)
    (error : Option Bytes) (h : IsLargest 10 0 l s.m_topDiff.toList) :
    IsLargest 10 0 (l ++ if error.isNone then [result.actualDiff] else [])
      (s.add result error).m_topDiff.toList := by
  cases error with
  | some e => simpa [NetworkState.add] using h
  | none =>
    rw [toList_split] at h
    by_cases hlast : s.m_topDiff[9] < result.actualDiff
    · have hlist : (s.add result none).m_topDiff =
          sortReversed (s.m_topDiff.set 9 result.actualDiff) := by
        simp [NetworkState.add, hlast]
      rw [hlist]
      refine h.replace (Std.le_of_lt hlast) ?_ (sortReversed_sorted _)
      rw [← toList_set_last]
      exact sortReversed_perm _
    · have hlist : (s.add result none).m_topDiff = s.m_topDiff := by
        simp [NetworkState.add, hlast]
      rw [hlist, toList_split]
      exact h.keep (Std.not_lt.mp hlast)

/-! ## A run -/

theorem run_concat (events : List Event) (e : Event) :
    run (events ++ [e]) = step (run events) e := by
  simp [run, List.foldl_append]

theorem results_concat (events : List Event) (e : Event) :
    results (events ++ [e]) = results events ++ results [e] := List.filterMap_append

theorem accepted_concat (events : List Event) (e : Event) :
    accepted (events ++ [e]) = accepted events ++ accepted [e] := by
  simp [accepted, results_concat]

theorem rejected_concat (events : List Event) (e : Event) :
    rejected (events ++ [e]) = rejected events ++ rejected [e] := by
  simp [rejected, results_concat]

/-- A result is accepted or rejected. -/
theorem length_results (events : List Event) :
    (accepted events).length + (rejected events).length = (results events).length := by
  have h := List.length_eq_length_filter_add (l := results events) (·.2.isNone)
  simpa [accepted, rejected] using h.symm

/-- The list and the counters are those of the calls. -/
structure Counted (events : List Event) (s : NetworkState) : Prop where
  topDiff : IsLargest 10 0 ((accepted events).map (·.actualDiff)) s.m_topDiff.toList
  accepted : s.m_accepted = UInt64.ofNat (accepted events).length
  rejected : s.m_rejected = UInt64.ofNat (rejected events).length

/-- A call that is no result. -/
theorem Counted.quiet {events : List Event} {s s' : NetworkState} (h : Counted events s)
    {e : Event} (he : results [e] = []) (ht : s'.m_topDiff = s.m_topDiff)
    (ha : s'.m_accepted = s.m_accepted) (hr : s'.m_rejected = s.m_rejected) :
    Counted (events ++ [e]) s' := by
  have hacc : BestShares.accepted (events ++ [e]) = BestShares.accepted events := by
    rw [accepted_concat]
    simp [BestShares.accepted, he]
  have hrej : BestShares.rejected (events ++ [e]) = BestShares.rejected events := by
    rw [rejected_concat]
    simp [BestShares.rejected, he]
  exact ⟨by rw [hacc, ht]; exact h.topDiff, by rw [hacc, ha]; exact h.accepted,
    by rw [hrej, hr]; exact h.rejected⟩

theorem counted_add {events : List Event} {s : NetworkState} (h : Counted events s)
    (result : SubmitResult) (error : Option Bytes) :
    Counted (events ++ [.onResultAccepted result error]) (s.add result error) := by
  have htop := add_topDiff result error h.topDiff
  cases error with
  | none =>
    have hone : accepted [.onResultAccepted result none] = [result] := rfl
    have hnil : rejected [.onResultAccepted result none] = [] := rfl
    refine ⟨?_, ?_, ?_⟩
    · rw [accepted_concat, hone, List.map_append]
      exact htop
    · rw [accepted_concat, hone, List.length_append, UInt64.ofNat_add, add_none_accepted,
        h.accepted]
      rfl
    · rw [rejected_concat, hnil, List.append_nil, ← h.rejected, add_none_rejected]
  | some error =>
    have hone : rejected [.onResultAccepted result (some error)] = [result] := rfl
    have hnil : accepted [.onResultAccepted result (some error)] = [] := rfl
    refine ⟨?_, ?_, ?_⟩
    · rw [accepted_concat, hnil, List.append_nil]
      simpa using htop
    · rw [accepted_concat, hnil, List.append_nil]
      exact h.accepted
    · rw [rejected_concat, hone, List.length_append, UInt64.ofNat_add, ← h.rejected]
      rfl

theorem counted_step {events : List Event} {s : NetworkState} (h : Counted events s)
    (e : Event) : Counted (events ++ [e]) (step s e) := by
  cases e with
  | onActive client now => exact h.quiet rfl rfl rfl rfl
  | onJob algorithm diff => exact h.quiet rfl rfl rfl rfl
  | onPause isActive => cases isActive <;> exact h.quiet rfl rfl rfl rfl
  | onResultAccepted result error => exact counted_add h result error

theorem counted_run (events : List Event) : Counted events (run events) := by
  induction events using List.reverseRecOn with
  | nil => exact ⟨IsLargest.replicate 10 0, rfl, rfl⟩
  | append_singleton events e ih =>
    rw [run_concat]
    exact counted_step ih e

/-- **The best shares.** After any calls: the ten largest difficulties of the shares that
were accepted, in descending order, and as many shares as there were results. -/
theorem best_shares (events : List Event) :
    (run events).m_topDiff.toList = largest 10 0 ((accepted events).map (·.actualDiff)) ∧
    (run events).m_accepted = UInt64.ofNat (accepted events).length ∧
    (run events).m_rejected = UInt64.ofNat (rejected events).length ∧
    (run events).m_accepted + (run events).m_rejected =
      UInt64.ofNat (results events).length := by
  have h := counted_run events
  refine ⟨h.topDiff.eq_largest, h.accepted, h.rejected, ?_⟩
  rw [h.accepted, h.rejected, ← UInt64.ofNat_add, length_results]

end Rxs.L3.BestShares
