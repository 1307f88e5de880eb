import Mathlib.Data.List.GetD
import Rxs.Core.Binary64
import Rxs.Core.RingBuffer

/-!
# The hashrate of a window

Each thread keeps its last 4096 samples of a hash count in a ring that starts with zeros.
A rate over a window is looked for from the newest sample backwards, until one is older
than the window.

* `nth_run`: which sample stands how far behind the newest.
* `scan_found`, `scan_none`: where the loop stops.
* **`hashrate_window`**: a rate is reported exactly where a kept sample is older than the
  window and the newest is not, and it is that of the oldest sample inside and the newest.
-/
namespace Rxs.L2.HashrateWindow

open Rxs.Core

structure Sample where
  count : UInt64 := 0
  timestamp : UInt64 := 0
  deriving DecidableEq, Repr, Inhabited

def kBucketSize : Nat := 4096

/-- mirrors src/backend/common/Hashrate.h:71-85 -/
structure Hashrate where
  m_threads : Nat
  m_counts : Nat → Nat → UInt64 := fun _ _ => 0
  m_timestamps : Nat → Nat → UInt64 := fun _ _ => 0
  m_top : Nat → Nat := fun _ => 0
  m_earliestTimestamp : UInt64 := 0xffffffffffffffff
  m_totalCount : UInt64 := 0

namespace Hashrate

/-- mirrors src/backend/common/Hashrate.cpp:46-60 -/
def create (threads : Nat) : Hashrate := { m_threads := threads + 1 }

/-- mirrors src/backend/common/Hashrate.cpp:176-189 -/
def addData (h : Hashrate) (index : Nat) (count timestamp : UInt64) : Hashrate :=
  let top := h.m_top index
  let h := { h with
    m_counts := Function.update h.m_counts index (Function.update (h.m_counts index) top count)
    m_timestamps := Function.update h.m_timestamps index
      (Function.update (h.m_timestamps index) top timestamp)
    m_top := Function.update h.m_top index ((top + 1) % kBucketSize) }
  if index = 0 then
    { h with
      m_earliestTimestamp :=
        if h.m_earliestTimestamp = 0xffffffffffffffff then timestamp else h.m_earliestTimestamp
      m_totalCount := count }
  else h

/-- `(idx - 1) & kBucketMask` and `(idx + 1) & kBucketMask`. -/
def prev (idx : Nat) : Nat := (idx + (kBucketSize - 1)) % kBucketSize

def next (idx : Nat) : Nat := (idx + 1) % kBucketSize

/-- The loop: `haveFullSet`, `earliestStamp` and `earliestHashCount`.
mirrors src/backend/common/Hashrate.cpp:137-148 -/
def scan (timestamps counts : Nat → UInt64) (timeStampLimit : UInt64) (idxStart : Nat) :
    Nat → Nat → Option (Bool × UInt64 × UInt64)
  | 0, _ => none
  | fuel + 1, idx =>
    if timestamps idx < timeStampLimit then
      let haveFullSet : Bool := timestamps idx ≠ 0
      if idx ≠ idxStart then
        let idx := next idx
        some (haveFullSet, timestamps idx, counts idx)
      else some (haveFullSet, 0, 0)
    else
      let idx := prev idx
      if idx ≠ idxStart then scan timestamps counts timeStampLimit idxStart fuel idx
      else some (false, 0, 0)

/-- `std::isnormal`, where 53 bits round without a bound on the exponent. -/
def isnormal (x : ℚ) : Bool := 1 / 2 ^ 1022 ≤ |x| ∧ |x| < 2 ^ 1024

/-- What is made of the two samples.
mirrors src/backend/common/Hashrate.cpp:150-172 -/
def report (haveFullSet : Bool) (earliestStamp earliestHashCount lastestStamp
    lastestHashCnt : UInt64) : Bool × ℚ :=
  if !haveFullSet ∨ earliestStamp = 0 ∨ lastestStamp = 0 then (false, 0)
  else if lastestHashCnt = earliestHashCount then (true, 0)
  else if lastestStamp = earliestStamp then (false, 0)
  else
    let hashes := Binary64.fl (lastestHashCnt - earliestHashCount).toNat
    let time := Binary64.fl (lastestStamp - earliestStamp).toNat
    let hr := Binary64.fl (Binary64.fl (hashes * 1000) / time)
    if !isnormal hr then (false, 0) else (true, hr)

/-- The clock reads `now`.
mirrors src/backend/common/Hashrate.cpp:116-173 -/
def hashrate (h : Hashrate) (now : UInt64) (index : Nat) (ms : UInt64) : Bool × ℚ :=
  if index ≥ h.m_threads then (false, 0)
  else
    let timeStampLimit := now - ms
    let timestamps := h.m_timestamps index
    let counts := h.m_counts index
    let idxStart := prev (h.m_top index)
    match scan timestamps counts timeStampLimit idxStart kBucketSize idxStart with
    | none => (false, 0)
    | some (haveFullSet, earliestStamp, earliestHashCount) =>
      report haveFullSet earliestStamp earliestHashCount (timestamps idxStart) (counts idxStart)

end Hashrate

open Hashrate

/-! ## Runs -/

abbrev Call (threads : Nat) := Fin (threads + 1) × Sample

def run (threads : Nat) (calls : List (Call threads)) : Hashrate :=
  calls.foldl (fun h c => h.addData c.1 c.2.count c.2.timestamp) (create threads)

/-- What a thread was told. -/
def samples {threads : Nat} (index : Fin (threads + 1)) (calls : List (Call threads)) :
    List Sample :=
  (calls.filter fun c => c.1 = index).map (·.2)

/-- The samples that are still in the ring. -/
def kept (l : List Sample) : List Sample := l.drop (l.length - kBucketSize)

def rate (first newest : Sample) : ℚ :=
  Binary64.fl (Binary64.fl (Binary64.fl (newest.count.toNat - first.count.toNat : Nat) * 1000) /
    Binary64.fl (newest.timestamp.toNat - first.timestamp.toNat : Nat))

def newest (first : Sample) (rest : List Sample) : Sample :=
  (first :: rest).getLast (List.cons_ne_nil _ _)

/-- Some samples are older than the window, `first` is the oldest inside, and `value` is
what was counted from it to the newest. -/
def Reported (l : List Sample) (start : UInt64) (value : ℚ) : Prop :=
  ∃ before first rest, l = before ++ first :: rest ∧ before ≠ [] ∧
    (∀ s ∈ before, s.timestamp < start) ∧ (∀ s ∈ first :: rest, start ≤ s.timestamp) ∧
    first.count ≤ (newest first rest).count ∧
    first.timestamp ≤ (newest first rest).timestamp ∧
    ((newest first rest).count = first.count ∨
      first.timestamp < (newest first rest).timestamp) ∧
    value = rate first (newest first rest)

/-! ## The ring of a thread -/

def ring (h : Hashrate) (index : Nat) : RingBuffer Sample :=
  ⟨fun i => ⟨h.m_counts index i, h.m_timestamps index i⟩, h.m_top index⟩

theorem ring_addData_self (h : Hashrate) (index : Nat) (s : Sample) :
    ring (h.addData index s.count s.timestamp) index = (ring h index).push kBucketSize s := by
  have hslot : (fun i => (⟨Function.update (h.m_counts index) (h.m_top index) s.count i,
      Function.update (h.m_timestamps index) (h.m_top index) s.timestamp i⟩ : Sample)) =
      Function.update (ring h index).slot (h.m_top index) s := by
    funext i
    by_cases hi : i = h.m_top index
    · subst hi
      simp
    · simp [hi, ring]
  unfold addData
  split <;> simpa [RingBuffer.push, ring] using hslot

theorem ring_addData_of_ne (h : Hashrate) {index other : Nat} (s : Sample) (hne : other ≠ index) :
    ring (h.addData index s.count s.timestamp) other = ring h other := by
  unfold addData
  split <;> simp [ring, hne]

theorem ring_create (threads index : Nat) : ring (create threads) index = ⟨fun _ => {}, 0⟩ := rfl

theorem ring_foldl {threads : Nat} (index : Fin (threads + 1)) (calls : List (Call threads))
    (h : Hashrate) :
    ring (calls.foldl (fun h c => h.addData c.1 c.2.count c.2.timestamp) h) index =
      (ring h index).pushes kBucketSize (samples index calls) := by
  induction calls generalizing h with
  | nil => rfl
  | cons c calls ih =>
    rw [List.foldl_cons, ih]
    by_cases hc : c.1 = index
    · rw [← hc, ring_addData_self]
      simp [samples, RingBuffer.pushes, hc]
    · rw [ring_addData_of_ne _ _ (fun heq => hc (Fin.ext heq.symm))]
      simp [samples, hc]

theorem m_threads_run {threads : Nat} (calls : List (Call threads)) :
    (run threads calls).m_threads = threads + 1 := by
  have key : ∀ h : Hashrate, (calls.foldl
      (fun h c => h.addData c.1 c.2.count c.2.timestamp) h).m_threads = h.m_threads := by
    induction calls with
    | nil => exact fun _ => rfl
    | cons c calls ih =>
      intro h
      rw [List.foldl_cons, ih, addData]
      split <;> rfl
  exact key _

/-- The slot `k` places behind the newest. -/
def nth (h : Hashrate) (index k : Nat) : Sample :=
  (ring h index).slot (RingBuffer.back kBucketSize (h.m_top index) k)

theorem top_lt {threads : Nat} (index : Fin (threads + 1)) (calls : List (Call threads)) :
    (run threads calls).m_top index < kBucketSize := by
  have := RingBuffer.pushes_top (N := kBucketSize) (r := ⟨fun _ => {}, 0⟩) (by decide)
    (samples index calls)
  rwa [← ring_create threads index, ← ring_foldl] at this

theorem nth_run {threads : Nat} (index : Fin (threads + 1)) (calls : List (Call threads))
    {k : Nat} (hk : k < kBucketSize) :
    nth (run threads calls) index k = (kept (samples index calls)).reverse.getD k {} := by
  have hring := ring_foldl index calls (create threads)
  rw [ring_create] at hring
  have hback := RingBuffer.pushes_back (N := kBucketSize) (r := ⟨fun _ => ({} : Sample), 0⟩)
    (by decide) (samples index calls) hk
  rw [← hring] at hback
  unfold nth
  refine Eq.trans hback ?_
  generalize samples index calls = l
  rw [List.getD_eq_getElem?_getD, kept]
  split
  case isTrue hlen =>
    rw [List.getElem?_eq_getElem (by simp; omega)]
    simp only [Option.getD_some, List.getElem_reverse, List.getElem_drop]
    congr 1
    simp only [List.length_drop]
    omega
  case isFalse hlen =>
    rw [List.getElem?_eq_none (by simp; omega)]
    rfl

/-! ## The loop -/

theorem prev_back {top k : Nat} (htop : top < kBucketSize) (hk : k + 1 < kBucketSize) :
    prev (RingBuffer.back kBucketSize top k) = RingBuffer.back kBucketSize top (k + 1) :=
  RingBuffer.back_succ htop hk

theorem next_back {top k : Nat} (htop : top < kBucketSize) (hk : k + 1 < kBucketSize) :
    next (RingBuffer.back kBucketSize top (k + 1)) = RingBuffer.back kBucketSize top k :=
  RingBuffer.back_pred htop hk

section Loop

variable {h : Hashrate} {index : Nat} {limit : UInt64}

/-- The loop of the source, with `n` slots left to see. -/
def scanFrom (h : Hashrate) (index : Nat) (limit : UInt64) (n : Nat) :
    Option (Bool × UInt64 × UInt64) :=
  scan (h.m_timestamps index) (h.m_counts index) limit
    (RingBuffer.back kBucketSize (h.m_top index) 0) n
    (RingBuffer.back kBucketSize (h.m_top index) (kBucketSize - n))

/-- What the loop leaves when it stops `m` places behind the newest. -/
def stopped (h : Hashrate) (index : Nat) : Nat → Bool × UInt64 × UInt64
  | 0 => ((nth h index 0).timestamp ≠ 0, 0, 0)
  | j + 1 => ((nth h index (j + 1)).timestamp ≠ 0, (nth h index j).timestamp,
      (nth h index j).count)

/-- One turn, at the slot `k` places behind the newest. -/
theorem scanFrom_succ (htop : h.m_top index < kBucketSize) {k n : Nat}
    (hk : k + (n + 1) = kBucketSize) :
    scanFrom h index limit (n + 1) =
      if (nth h index k).timestamp < limit then some (stopped h index k)
      else if n = 0 then some (false, 0, 0)
      else scanFrom h index limit n := by
  have hkn : kBucketSize - (n + 1) = k := by omega
  unfold scanFrom
  rw [scan, hkn]
  refine if_congr Iff.rfl ?_ ?_
  · cases k with
    | zero =>
      rw [if_neg (by simp)]
      rfl
    | succ j =>
      have hne : RingBuffer.back kBucketSize (h.m_top index) (j + 1) ≠
          RingBuffer.back kBucketSize (h.m_top index) 0 := by
        intro heq
        have := RingBuffer.back_inj htop (by omega) (by omega) heq
        omega
      rw [if_pos hne, next_back htop (by omega)]
      rfl
  · by_cases hn : n = 0
    · subst hn
      have hlast : k = kBucketSize - 1 := by omega
      have hback : prev (RingBuffer.back kBucketSize (h.m_top index) k) =
          RingBuffer.back kBucketSize (h.m_top index) 0 := by
        rw [hlast]
        exact RingBuffer.back_last htop
      simp [hback]
    · have hne : RingBuffer.back kBucketSize (h.m_top index) (k + 1) ≠
          RingBuffer.back kBucketSize (h.m_top index) 0 := by
        intro heq
        have := RingBuffer.back_inj htop (by omega) (by omega) heq
        omega
      have hkn' : kBucketSize - n = k + 1 := by omega
      rw [if_neg hn, prev_back htop (by omega), hkn']
      simp [hne]

/-- The loop goes past the slots inside the window and stops at the one behind them. -/
theorem scan_found (htop : h.m_top index < kBucketSize) {m k n : Nat} (hm : m < kBucketSize)
    (hk : k + n = kBucketSize) (hkm : k ≤ m)
    (hin : ∀ j, k ≤ j → j < m → ¬(nth h index j).timestamp < limit)
    (hout : (nth h index m).timestamp < limit) :
    scanFrom h index limit n = some (stopped h index m) := by
  induction n generalizing k with
  | zero => omega
  | succ n ih =>
    rw [scanFrom_succ htop hk]
    rcases Nat.lt_or_eq_of_le hkm with hlt | rfl
    · rw [if_neg (hin k (Nat.le_refl k) hlt), if_neg (by omega)]
      exact ih (k := k + 1) (by omega) hlt fun j hj => hin j (by omega)
    · rw [if_pos hout]

theorem scan_none (htop : h.m_top index < kBucketSize) {k n : Nat} (hn : 0 < n)
    (hk : k + n = kBucketSize)
    (hin : ∀ j, k ≤ j → j < kBucketSize → ¬(nth h index j).timestamp < limit) :
    scanFrom h index limit n = some (false, 0, 0) := by
  induction n generalizing k with
  | zero => omega
  | succ n ih =>
    rw [scanFrom_succ htop hk, if_neg (hin k (Nat.le_refl k) (by omega))]
    split
    case isTrue => rfl
    case isFalse hne => exact ih (k := k + 1) (by omega) (by omega) fun j hj => hin j (by omega)

end Loop

/-! ## The numbers -/

theorem isnormal_quotient {a b : Nat} (ha : 0 < a) (ha' : a < 2 ^ 64) (hb : 0 < b)
    (hb' : b < 2 ^ 64) :
    isnormal (Binary64.fl (Binary64.fl (Binary64.fl a * 1000) / Binary64.fl b)) = true := by
  have h1a : (1 : ℚ) ≤ a := by exact_mod_cast ha
  have h1b : (1 : ℚ) ≤ b := by exact_mod_cast hb
  have h2a : (a : ℚ) ≤ 2 ^ 64 := by exact_mod_cast ha'.le
  have h2b : (b : ℚ) ≤ 2 ^ 64 := by exact_mod_cast hb'.le
  obtain ⟨hal, hau⟩ := Binary64.fl_bounds (x := a) (by linarith)
  obtain ⟨hbl, hbu⟩ := Binary64.fl_bounds (x := b) (by linarith)
  obtain ⟨hml, hmu⟩ := Binary64.fl_bounds (x := Binary64.fl a * 1000) (by linarith)
  have hb0 : 0 < Binary64.fl b := by linarith
  have hql : (1 : ℚ) / 2 ^ 65 ≤ Binary64.fl (Binary64.fl a * 1000) / Binary64.fl b := by
    rw [div_le_div_iff₀ (by norm_num) hb0]
    linarith
  have hqu : Binary64.fl (Binary64.fl a * 1000) / Binary64.fl b ≤ 2 ^ 100 := by
    rw [div_le_iff₀ hb0]
    linarith
  obtain ⟨hl, hu⟩ := Binary64.fl_bounds (lt_of_lt_of_le (by norm_num) hql)
  generalize Binary64.fl (Binary64.fl (Binary64.fl a * 1000) / Binary64.fl b) = x at hl hu ⊢
  have hx : 1 / 2 ^ 66 ≤ x ∧ x ≤ 2 ^ 101 := by constructor <;> linarith
  have hlow : (1 : ℚ) / 2 ^ 1022 ≤ 1 / 2 ^ 66 :=
    one_div_le_one_div_of_le (by positivity) (pow_le_pow_right₀ (by norm_num) (by norm_num))
  have hhigh : (2 : ℚ) ^ 101 < 2 ^ 1024 := pow_lt_pow_right₀ (by norm_num) (by norm_num)
  have hx0 : 0 ≤ x := le_trans (by positivity) hx.1
  rw [isnormal, decide_eq_true_eq, abs_of_nonneg hx0]
  exact ⟨hlow.trans hx.1, hx.2.trans_lt hhigh⟩

theorem rate_nonneg (first newest : Sample) : 0 ≤ rate first newest := by
  unfold rate
  refine Binary64.fl_nonneg (div_nonneg (Binary64.fl_nonneg (mul_nonneg ?_ (by norm_num))) ?_)
  · exact Binary64.fl_nonneg (Nat.cast_nonneg _)
  · exact Binary64.fl_nonneg (Nat.cast_nonneg _)

theorem report_eq {first newest : Sample} (hpos : 0 < first.timestamp)
    (hcount : first.count ≤ newest.count) (hstamp : first.timestamp ≤ newest.timestamp) :
    report true first.timestamp first.count newest.timestamp newest.count =
      if newest.count = first.count ∨ first.timestamp < newest.timestamp then
        (true, rate first newest)
      else (false, 0) := by
  have hpos' : 0 < first.timestamp.toNat := hpos
  have hstamp' : first.timestamp.toNat ≤ newest.timestamp.toNat := hstamp
  have hcount' : first.count.toNat ≤ newest.count.toNat := hcount
  have hf0 : first.timestamp ≠ 0 := by
    rintro h
    simp [h] at hpos'
  have hn0 : newest.timestamp ≠ 0 := by
    rintro h
    simp only [h, UInt64.toNat_zero] at hstamp'
    omega
  unfold report
  rw [if_neg (by simp [hf0, hn0])]
  by_cases hc : newest.count = first.count
  · rw [if_pos hc, if_pos (Or.inl hc), rate, hc]
    simp [Binary64.fl_zero]
  · rw [if_neg hc]
    by_cases hs : newest.timestamp = first.timestamp
    · have hlt : ¬first.timestamp.toNat < newest.timestamp.toNat := by simp [hs]
      rw [if_pos hs, if_neg (by rintro (h | h) <;> [exact hc h; exact hlt h])]
    · have hs' : newest.timestamp.toNat ≠ first.timestamp.toNat :=
        fun h => hs (UInt64.toNat_inj.mp h)
      have hc' : newest.count.toNat ≠ first.count.toNat :=
        fun h => hc (UInt64.toNat_inj.mp h)
      have hlt : first.timestamp < newest.timestamp :=
        UInt64.lt_iff_toNat_lt.mpr (by omega)
      have hn := newest.count.toNat_lt
      have ht := newest.timestamp.toNat_lt
      have hnormal := isnormal_quotient (a := newest.count.toNat - first.count.toNat)
        (b := newest.timestamp.toNat - first.timestamp.toNat) (by omega) (by omega) (by omega)
        (by omega)
      rw [if_neg hs, if_pos (Or.inr hlt), UInt64.toNat_sub_of_le _ _ hcount,
        UInt64.toNat_sub_of_le _ _ hstamp]
      simp [hnormal, rate]

/-! ## The window -/

theorem hashrate_eq {h : Hashrate} {index : Nat} (hindex : index < h.m_threads)
    (now ms : UInt64) :
    h.hashrate now index ms =
      match scanFrom h index (now - ms) kBucketSize with
      | none => (false, 0)
      | some (haveFullSet, earliestStamp, earliestHashCount) =>
        report haveFullSet earliestStamp earliestHashCount (nth h index 0).timestamp
          (nth h index 0).count := by
  unfold hashrate
  rw [if_neg (by omega)]
  rfl

theorem length_kept (l : List Sample) : (kept l).length ≤ kBucketSize := by
  unfold kept
  rw [List.length_drop]
  omega

section Window

variable {threads : Nat} {index : Fin (threads + 1)} {calls : List (Call threads)}
  {before rest : List Sample} {first : Sample}

theorem nth_inside (hl : kept (samples index calls) = before ++ first :: rest) {k : Nat}
    (hk : k ≤ rest.length) :
    nth (run threads calls) index k =
      (first :: rest).get ⟨rest.length - k, by simp only [List.length_cons]; omega⟩ := by
  have hlen := length_kept (samples index calls)
  rw [hl, List.length_append, List.length_cons] at hlen
  rw [nth_run index calls (by omega), hl, List.reverse_append, List.getD_append _ _ _ _
    (by simp; omega), List.getD_eq_getElem _ _ (by simp; omega), List.getElem_reverse]
  simp only [List.length_cons, Nat.add_sub_cancel, List.get_eq_getElem]

theorem nth_before (hl : kept (samples index calls) = before ++ first :: rest)
    (hne : before ≠ []) : nth (run threads calls) index (rest.length + 1) ∈ before := by
  have hlen := length_kept (samples index calls)
  rw [hl, List.length_append, List.length_cons] at hlen
  have hb := List.length_pos_iff.mpr hne
  rw [nth_run index calls (by omega), hl, List.reverse_append, List.getD_append_right _ _ _ _
    (by simp), List.getD_eq_getElem _ _ (by simp; omega)]
  exact List.mem_reverse.mp (List.getElem_mem _)

theorem nth_first (hl : kept (samples index calls) = before ++ first :: rest) :
    nth (run threads calls) index rest.length = first := by
  rw [nth_inside hl (Nat.le_refl _), List.get_eq_getElem]
  simp

theorem nth_newest (hl : kept (samples index calls) = before ++ first :: rest) :
    nth (run threads calls) index 0 = newest first rest := by
  rw [nth_inside hl (Nat.zero_le _), List.get_eq_getElem, newest, List.getLast_eq_getElem]
  simp

/-- Where some samples are older than the window and some are not, the rate is that of the
oldest and the newest inside. -/
theorem hashrate_inside (hl : kept (samples index calls) = before ++ first :: rest)
    (hne : before ≠ []) {now ms : UInt64}
    (hpos : ∀ s ∈ before ++ first :: rest, 0 < s.timestamp)
    (hbefore : ∀ s ∈ before, s.timestamp < now - ms)
    (hinside : ∀ s ∈ first :: rest, now - ms ≤ s.timestamp) :
    (run threads calls).hashrate now index ms =
      report true first.timestamp first.count (newest first rest).timestamp
        (newest first rest).count := by
  have hlen := length_kept (samples index calls)
  rw [hl, List.length_append, List.length_cons] at hlen
  have hb := List.length_pos_iff.mpr hne
  have hlast := nth_before hl hne
  have hscan := scan_found (top_lt index calls) (m := rest.length + 1)
    (k := 0) (n := kBucketSize) (by omega) (by omega) (by omega)
    (fun j _ hj => UInt64.not_lt.mpr (by
      rw [nth_inside hl (by omega), List.get_eq_getElem]
      exact hinside _ (List.getElem_mem _)))
    (hbefore _ hlast)
  have hstamp : (nth (run threads calls) index (rest.length + 1)).timestamp ≠ 0 := by
    intro h0
    have := hpos _ (List.mem_append_left _ hlast)
    rw [h0] at this
    exact absurd this (by decide)
  have hthreads : (index : Nat) < (run threads calls).m_threads := by
    rw [m_threads_run]
    exact index.isLt
  rw [hashrate_eq hthreads, hscan, nth_newest hl]
  simp only [stopped, nth_first hl, ne_eq, hstamp, not_false_eq_true, decide_true]

/-- The samples from the newest to the oldest, cut where one is older than the window. -/
theorem split_window {l : List Sample} {start : UInt64} {m : Nat}
    (hsorted : l.Pairwise fun a b => a.timestamp ≤ b.timestamp) (hm : m + 1 < l.length)
    (hout : (l.reverse.getD (m + 1) {}).timestamp < start)
    (hin : ∀ i < m + 1, start ≤ (l.reverse.getD i {}).timestamp) :
    ∃ before first rest, l = before ++ first :: rest ∧ before ≠ [] ∧
      (∀ s ∈ before, s.timestamp < start) ∧ ∀ s ∈ first :: rest, start ≤ s.timestamp := by
  have hget : ∀ {i}, (hi : i < l.length) → l.reverse.getD i {} = l[l.length - 1 - i] := by
    intro i hi
    rw [List.getD_eq_getElem _ _ (by simpa using hi), List.getElem_reverse]
  rw [hget hm] at hout
  have hdrop : l.drop (l.length - (m + 1)) ≠ [] := by
    rw [Ne, List.drop_eq_nil_iff]
    omega
  obtain ⟨first, rest, hcons⟩ := List.exists_cons_of_ne_nil hdrop
  refine ⟨l.take (l.length - (m + 1)), first, rest, ?_, ?_, ?_, ?_⟩
  · rw [← hcons, List.take_append_drop]
  · rw [Ne, List.take_eq_nil_iff]
    rintro (h | h)
    · omega
    · simp [h] at hm
  · intro s hs
    obtain ⟨i, hi, rfl⟩ := List.mem_iff_getElem.mp hs
    rw [List.length_take] at hi
    rw [List.getElem_take]
    refine UInt64.lt_of_le_of_lt ?_ hout
    rcases Nat.lt_or_eq_of_le (show i ≤ l.length - 1 - (m + 1) by omega) with hlt | heq
    · exact List.pairwise_iff_getElem.mp hsorted _ _ _ _ hlt
    · simp only [heq]
      exact UInt64.le_refl _
  · intro s hs
    rw [← hcons] at hs
    obtain ⟨i, hi, rfl⟩ := List.mem_iff_getElem.mp hs
    rw [List.length_drop] at hi
    have hi' := hin (m - i) (by omega)
    rw [hget (by omega)] at hi'
    rw [List.getElem_drop]
    convert hi' using 3
    omega

theorem lt_length_of_nth {k : Nat} (hk : k < kBucketSize)
    (h : (nth (run threads calls) index k).timestamp ≠ 0) :
    k < (kept (samples index calls)).length := by
  by_contra hge
  rw [nth_run index calls hk, List.getD_eq_default _ _ (by simpa using hge)] at h
  exact h rfl

/-- A rate is that of a window: the loop stopped at a sample behind the newest. -/
theorem exists_window {now ms : UInt64} {value : ℚ}
    (hsorted : (samples index calls).Pairwise fun a b => a.timestamp ≤ b.timestamp)
    (h : (run threads calls).hashrate now index ms = (true, value)) :
    ∃ before first rest, kept (samples index calls) = before ++ first :: rest ∧ before ≠ [] ∧
      (∀ s ∈ before, s.timestamp < now - ms) ∧
      ∀ s ∈ first :: rest, now - ms ≤ s.timestamp := by
  have hthreads : (index : Nat) < (run threads calls).m_threads := by
    rw [m_threads_run]
    exact index.isLt
  have htop := top_lt index calls
  rw [hashrate_eq hthreads] at h
  by_cases hex : ∃ m, m < kBucketSize ∧ (nth (run threads calls) index m).timestamp < now - ms
  case neg =>
    rw [scan_none (k := 0) (n := kBucketSize) htop (by decide) (by omega)
      (fun j _ hj hlt => hex ⟨j, hj, hlt⟩)] at h
    simp [report] at h
  case pos =>
    obtain ⟨hm, hout⟩ := Nat.find_spec hex
    have hmin : ∀ j, j < Nat.find hex →
        ¬(nth (run threads calls) index j).timestamp < now - ms :=
      fun j hj hlt => Nat.find_min hex hj ⟨by omega, hlt⟩
    generalize Nat.find hex = m at hm hout hmin
    rw [scan_found (k := 0) (n := kBucketSize) htop hm (by omega) (Nat.zero_le m)
      (fun j _ => hmin j) hout] at h
    cases m with
    | zero => simp [stopped, report] at h
    | succ j =>
      have hstamp : (nth (run threads calls) index (j + 1)).timestamp ≠ 0 := by
        intro h0
        simp [stopped, report, h0] at h
      rw [nth_run index calls hm] at hout
      refine split_window (hsorted.sublist (List.drop_sublist _ _)) (lt_length_of_nth hm hstamp)
        hout fun i hi => ?_
      rw [← nth_run index calls (by omega)]
      exact UInt64.not_lt.mp (hmin i hi)

/-- What is reported where the loop stops behind the newest. -/
theorem hashrate_value (hpos : ∀ s ∈ samples index calls, 0 < s.timestamp)
    (hsorted : (samples index calls).Pairwise fun a b =>
      a.timestamp ≤ b.timestamp ∧ a.count ≤ b.count)
    (hl : kept (samples index calls) = before ++ first :: rest) (hne : before ≠ [])
    {now ms : UInt64} (hbefore : ∀ s ∈ before, s.timestamp < now - ms)
    (hinside : ∀ s ∈ first :: rest, now - ms ≤ s.timestamp) :
    first.count ≤ (newest first rest).count ∧
      first.timestamp ≤ (newest first rest).timestamp ∧
      (run threads calls).hashrate now index ms =
        if (newest first rest).count = first.count ∨
            first.timestamp < (newest first rest).timestamp then
          (true, rate first (newest first rest))
        else (false, 0) := by
  have hpos' : ∀ s ∈ before ++ first :: rest, 0 < s.timestamp := by
    rw [← hl]
    exact fun s hs => hpos s (List.mem_of_mem_drop hs)
  have hkept : (before ++ first :: rest).Pairwise fun a b =>
      a.timestamp ≤ b.timestamp ∧ a.count ≤ b.count := by
    rw [← hl]
    exact hsorted.sublist (List.drop_sublist _ _)
  have hle : first.timestamp ≤ (newest first rest).timestamp ∧
      first.count ≤ (newest first rest).count := by
    have hcons := (List.pairwise_append.mp hkept).2.1
    rcases rest.eq_nil_or_concat with rfl | ⟨init, last, rfl⟩
    · exact ⟨UInt64.le_refl _, UInt64.le_refl _⟩
    · have hnewest : newest first (init.concat last) = last := by simp [newest]
      rw [hnewest]
      exact (List.pairwise_cons.mp hcons).1 last (by simp)
  refine ⟨hle.2, hle.1, ?_⟩
  rw [hashrate_inside hl hne hpos' hbefore hinside]
  exact report_eq (hpos' first (by simp)) hle.2 hle.1

end Window

/-- The subtraction has not come round. -/
theorem le_of_sub_le {now ms t : UInt64} (h : now - ms ≤ t) (ht : t ≤ now) : ms ≤ now := by
  rw [UInt64.le_iff_toNat_le] at h ht ⊢
  rw [UInt64.toNat_sub] at h
  have hms := ms.toNat_lt
  have hn := now.toNat_lt
  by_contra hlt
  rw [Nat.mod_eq_of_lt (by omega)] at h
  omega

/-- For any calls with positive timestamps, where neither timestamps nor counts decrease on
a thread, a rate is reported exactly as `Reported` says of the samples still in the ring. It
is not negative, and if no sample is ahead of the clock, the window starts where it should:
the subtraction does not come round. -/
theorem hashrate_window {threads : Nat} (index : Fin (threads + 1))
    (calls : List (Call threads)) (now ms : UInt64)
    (hpos : ∀ s ∈ samples index calls, 0 < s.timestamp)
    (hsorted : (samples index calls).Pairwise fun a b =>
      a.timestamp ≤ b.timestamp ∧ a.count ≤ b.count) :
    (∀ value, (run threads calls).hashrate now index ms = (true, value) ↔
      Reported (kept (samples index calls)) (now - ms) value) ∧
    ∀ value, (run threads calls).hashrate now index ms = (true, value) →
      0 ≤ value ∧ ((∀ s ∈ samples index calls, s.timestamp ≤ now) → ms ≤ now) := by
  have hmem : ∀ s ∈ kept (samples index calls), s ∈ samples index calls :=
    fun s hs => List.mem_of_mem_drop hs
  have hstamps := hsorted.imp fun h => h.1
  refine ⟨fun value => ⟨?_, ?_⟩, ?_⟩
  · intro h
    obtain ⟨before, first, rest, hl, hne, hbefore, hinside⟩ := exists_window hstamps h
    obtain ⟨hcount, hstamp, heq⟩ := hashrate_value hpos hsorted hl hne hbefore hinside
    rw [heq] at h
    split at h
    case isTrue hcond =>
      exact ⟨before, first, rest, hl, hne, hbefore, hinside, hcount, hstamp, hcond,
        (Prod.mk.inj h).2.symm⟩
    case isFalse => simp at h
  · rintro ⟨before, first, rest, hl, hne, hbefore, hinside, -, -, hcond, rfl⟩
    rw [(hashrate_value hpos hsorted hl hne hbefore hinside).2.2, if_pos hcond]
  · intro value h
    obtain ⟨before, first, rest, hl, hne, hbefore, hinside⟩ := exists_window hstamps h
    constructor
    · rw [(hashrate_value hpos hsorted hl hne hbefore hinside).2.2] at h
      split at h
      · rw [← (Prod.mk.inj h).2]
        exact rate_nonneg _ _
      · simp at h
    · intro hnow
      exact le_of_sub_le (hinside first (by simp)) (hnow first (hmem first (by simp [hl])))

/-- Three samples, one of them more than ten seconds old. -/
theorem hashrate_window_three :
    (run 0 [(0, ⟨10, 1000⟩), (0, ⟨20, 5000⟩), (0, ⟨80, 11000⟩)]).hashrate 12000 0 10000 =
      (true, rate ⟨20, 5000⟩ ⟨80, 11000⟩) :=
  ((hashrate_window 0 [(0, ⟨10, 1000⟩), (0, ⟨20, 5000⟩), (0, ⟨80, 11000⟩)] 12000 10000
    (by decide) (by decide)).1 _).mpr ⟨[⟨10, 1000⟩], ⟨20, 5000⟩, [⟨80, 11000⟩], rfl, by simp,
      by decide, by decide, by decide, by decide, Or.inr (by decide), rfl⟩

end Rxs.L2.HashrateWindow
