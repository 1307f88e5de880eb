import Mathlib.Data.List.Induction
import Rxs.Core.Bytes
import Rxs.Core.Chunked

/-!
# The line reader

`LineReader` cuts the bytes of a stream into lines. A line that lies in one piece
in a read is given out from there; the pieces of any other are gathered in one
buffer of the network pool. A piece that does not fit is dropped.

The reader has a listener, which does not touch the reader from inside `onLine`.

* `memchr_eq_some`, `memchr_eq_none`: where the next line ends.
* `lines_append`, `lines_newline`: the lines of a stream that grows.
* `getline_spec`: one read.
* **`chunk_invariance`**: all reads.
-/
namespace Rxs

open Rxs.Core

/-- mirrors src/base/kernel/constants.h:27 -/
def RXS_NET_BUFFER_CHUNK_SIZE : Nat := 64 * 1024

/-- The first `m_pos` bytes of `m_buf`, the only ones that are read; `none` is a null
pointer. -/
structure LineReader where
  buf : Option { b : Bytes // b.length ≤ RXS_NET_BUFFER_CHUNK_SIZE } := none

namespace LineReader

def newline : UInt8 := 10

/-- The bytes before the first newline, and those behind it. -/
def memchr : Bytes → Option (Bytes × Bytes)
  | [] => none
  | b :: data =>
    if b = newline then some ([], data) else (memchr data).map fun (l, r) => (b :: l, r)

def content (r : LineReader) : Bytes := (r.buf.map (·.1)).getD []

def pos (r : LineReader) : Nat := r.content.length

/-- `m_pos = 0`. -/
def rewind (r : LineReader) : LineReader := { buf := r.buf.map fun _ => ⟨[], Nat.zero_le _⟩ }

/-- mirrors src/base/net/tools/LineReader.cpp:47-54 -/
def reset (_ : LineReader) : LineReader := { buf := none }

/-- mirrors src/base/net/tools/LineReader.cpp:57-71 -/
def add (r : LineReader) (data : Bytes) : LineReader :=
  if h : data.length + r.pos > RXS_NET_BUFFER_CHUNK_SIZE then r
  else
    have hle : (r.content ++ data).length ≤ RXS_NET_BUFFER_CHUNK_SIZE := by
      rw [List.length_append, Nat.add_comm]
      exact Nat.not_lt.mp h
    { buf := some ⟨r.content ++ data, hle⟩ }

theorem memchr_eq_some {data l r : Bytes} :
    memchr data = some (l, r) ↔ data = l ++ newline :: r ∧ newline ∉ l := by
  induction data generalizing l with
  | nil => simp [memchr]
  | cons b data ih =>
    unfold memchr
    by_cases hb : b = newline
    · rw [if_pos hb, hb]
      constructor
      · intro h
        cases h
        exact ⟨rfl, List.not_mem_nil⟩
      · rintro ⟨h, hl⟩
        cases l with
        | nil => cases h; rfl
        | cons c l =>
          cases h
          exact absurd List.mem_cons_self hl
    · rw [if_neg hb]
      constructor
      · intro h
        obtain ⟨⟨l', r'⟩, h', he⟩ := Option.map_eq_some_iff.mp h
        cases he
        obtain ⟨rfl, hl⟩ := ih.mp h'
        refine ⟨rfl, fun hm => ?_⟩
        rcases List.mem_cons.mp hm with hm | hm
        · exact hb hm.symm
        · exact hl hm
      · rintro ⟨h, hl⟩
        cases l with
        | nil =>
          cases h
          exact absurd rfl hb
        | cons c l =>
          cases h
          rw [ih.mpr ⟨rfl, fun hm => hl (List.mem_cons_of_mem _ hm)⟩]
          rfl

theorem memchr_eq_none {data : Bytes} : memchr data = none ↔ newline ∉ data := by
  induction data with
  | nil => simp [memchr]
  | cons b data ih =>
    unfold memchr
    by_cases hb : b = newline
    · rw [if_pos hb, hb]
      simp
    · rw [if_neg hb, Option.map_eq_none_iff, ih, List.mem_cons, not_or]
      exact ⟨fun h => ⟨fun he => hb he.symm, h⟩, fun h => h.2⟩

/-- What one read gives out.
mirrors src/base/net/tools/LineReader.cpp:74-104 -/
def getline (r : LineReader) (data : Bytes) : LineReader × List Bytes :=
  match h : memchr data with
  | some (line, rest) =>
    have : rest.length < data.length := by
      rw [(memchr_eq_some.mp h).1, List.length_append, List.length_cons]
      omega
    if r.pos ≠ 0 then
      -- the newline is overwritten with a zero byte, which is copied along
      let r := r.add (line ++ [0])
      let t := getline r.rewind rest
      (t.1, r.content.take (r.pos - 1) :: t.2)
    else if 1 < line.length + 1 then
      let t := getline r rest
      (t.1, line :: t.2)
    else getline r rest
  | none => if data = [] then (r.reset, []) else (r.add data, [])
termination_by data.length

/-- mirrors src/base/net/tools/LineReader.cpp:36-44 -/
def parse (r : LineReader) (data : Bytes) : LineReader × List Bytes :=
  if data = [] then (r, []) else r.getline data

end LineReader

namespace L1.LineReader

open Rxs.LineReader

/-! ## Lines of a stream -/

/-- The lines of a stream that a newline ends. -/
def lines (s : Bytes) : List Bytes := (s.splitOn newline).dropLast

/-- What follows the last newline. -/
def tail (s : Bytes) : Bytes := (s.splitOn newline).getLast (List.splitOn_ne_nil _ _)

theorem lines_concat_tail (s : Bytes) : lines s ++ [tail s] = s.splitOn newline :=
  List.dropLast_concat_getLast _

theorem splitOn_append {s t : Bytes} (h : newline ∉ t) :
    (s ++ t).splitOn newline = lines s ++ [tail s ++ t] := by
  induction s with
  | nil => exact List.splitOn_eq_singleton h
  | cons b s ih =>
    have hs := lines_concat_tail s
    have hb := lines_concat_tail (b :: s)
    rw [List.cons_append, List.splitOn_cons_eq_if_modifyHead, ih]
    rw [List.splitOn_cons_eq_if_modifyHead, ← hs] at hb
    by_cases hn : (b == newline) = true
    · rw [if_pos hn] at hb ⊢
      rw [← List.cons_append] at hb ⊢
      obtain ⟨hl, ht⟩ := List.append_inj' hb rfl
      rw [hl, List.singleton_inj.mp ht]
    · rw [if_neg hn] at hb ⊢
      cases hls : lines s with
      | nil =>
        rw [hls] at hb
        have hb : lines (b :: s) ++ [tail (b :: s)] = [] ++ [b :: tail s] := hb
        obtain ⟨hl, ht⟩ := List.append_inj' hb rfl
        rw [hl, List.singleton_inj.mp ht]
        rfl
      | cons l ls =>
        rw [hls] at hb
        have hb : lines (b :: s) ++ [tail (b :: s)] = (b :: l) :: ls ++ [tail s] := hb
        obtain ⟨hl, ht⟩ := List.append_inj' hb rfl
        rw [hl, List.singleton_inj.mp ht]
        rfl

theorem lines_append {s t : Bytes} (h : newline ∉ t) :
    lines (s ++ t) = lines s ∧ tail (s ++ t) = tail s ++ t := by
  have hc := lines_concat_tail (s ++ t)
  rw [splitOn_append h] at hc
  obtain ⟨hl, ht⟩ := List.append_inj' hc rfl
  exact ⟨hl, List.singleton_inj.mp ht⟩

theorem lines_newline {s t : Bytes} (h : newline ∉ t) :
    lines (s ++ (t ++ [newline])) = lines s ++ [tail s ++ t] ∧
      tail (s ++ (t ++ [newline])) = [] := by
  have hc := lines_concat_tail (s ++ (t ++ [newline]))
  rw [← List.append_assoc, List.splitOn_append_cons_self, splitOn_append h] at hc
  obtain ⟨hl, ht⟩ := List.append_inj' hc rfl
  exact ⟨by rw [← List.append_assoc]; exact hl,
    by rw [← List.append_assoc]; exact List.singleton_inj.mp ht⟩

/-! ## The law -/

/-- The lines that are given out of a stream. -/
def delivered (s : Bytes) : List Bytes := (lines s).filter (· ≠ [])

/-- Every line fits in the buffer with its newline. -/
def Fits (s : Bytes) : Prop := ∀ l ∈ lines s, l.length + 1 ≤ RXS_NET_BUFFER_CHUNK_SIZE

/-- The buffer has what follows the last newline, as long as that can still be a line
that fits. -/
def Holds (seen : Bytes) (r : LineReader) : Prop :=
  (tail seen).length < RXS_NET_BUFFER_CHUNK_SIZE → r.content = tail seen

theorem add_content {r : LineReader} {data : Bytes}
    (h : r.content.length + data.length ≤ RXS_NET_BUFFER_CHUNK_SIZE) :
    (r.add data).content = r.content ++ data := by
  unfold LineReader.add LineReader.pos
  rw [dif_neg (by omega)]
  rfl

@[simp] theorem rewind_content (r : LineReader) : r.rewind.content = [] := by
  unfold LineReader.content LineReader.rewind
  cases r.buf <;> rfl

/-- The lines of a stream stay when it grows. -/
theorem lines_subset (s t : Bytes) : lines s ⊆ lines (s ++ t) := by
  induction t using List.reverseRecOn with
  | nil =>
    rw [List.append_nil]
    exact List.Subset.refl _
  | append_singleton t b ih =>
    by_cases hb : b = newline
    · have hlines := (lines_newline (s := s ++ t) List.not_mem_nil).1
      rw [List.nil_append] at hlines
      rw [hb, ← List.append_assoc, hlines]
      exact fun l hl => List.mem_append_left _ (ih hl)
    · have hn : newline ∉ [b] := fun hm => hb (List.mem_singleton.mp hm).symm
      rw [← List.append_assoc, (lines_append hn).1]
      exact ih

theorem fits_before {seen c : Bytes} (h : Fits (seen ++ c)) : Fits seen :=
  fun l hl => h l (lines_subset seen c hl)

/-- **One read**, from any stream before it. -/
theorem getline_spec (r : LineReader) (data : Bytes) (seen : Bytes) (hr : Holds seen r)
    (hdata : data = [] → tail seen = []) (hfits : Fits (seen ++ data)) :
    delivered (seen ++ data) = delivered seen ++ (r.getline data).2 ∧
      Holds (seen ++ data) (r.getline data).1 := by
  induction hn : data.length using Nat.strong_induction_on generalizing r data seen with
  | _ n ih =>
    unfold LineReader.getline
    split
    · rename_i line rest h
      obtain ⟨rfl, hline⟩ := memchr_eq_some.mp h
      have hassoc : seen ++ (line ++ newline :: rest) = seen ++ (line ++ [newline]) ++ rest := by
        simp only [List.append_assoc, List.singleton_append]
      rw [hassoc] at hfits ⊢
      obtain ⟨hlines, htail⟩ := lines_newline (s := seen) hline
      have hfit : (tail seen ++ line).length + 1 ≤ RXS_NET_BUFFER_CHUNK_SIZE := by
        refine fits_before hfits _ ?_
        rw [hlines]
        exact List.mem_append_right _ List.mem_cons_self
      rw [List.length_append] at hfit
      have hcontent : r.content = tail seen := hr (by omega)
      have hlen : rest.length < n := by
        rw [← hn, List.length_append, List.length_cons]
        omega
      have hnext : ∀ r' : LineReader, r'.content = [] →
          delivered (seen ++ (line ++ [newline]) ++ rest) =
              delivered (seen ++ (line ++ [newline])) ++ (r'.getline rest).2 ∧
            Holds (seen ++ (line ++ [newline]) ++ rest) (r'.getline rest).1 := by
        intro r' hr'
        refine ih _ hlen r' rest _ (fun _ => ?_) (fun _ => htail) hfits rfl
        rw [hr', htail]
      have hout : delivered (seen ++ (line ++ [newline])) =
          delivered seen ++ [tail seen ++ line].filter (· ≠ []) := by
        unfold delivered
        rw [hlines, List.filter_append]
      unfold LineReader.pos
      rw [hcontent]
      by_cases hpos : (tail seen).length ≠ 0
      · have hroom : r.content.length + (line ++ [0]).length ≤ RXS_NET_BUFFER_CHUNK_SIZE := by
          rw [hcontent, List.length_append, List.length_singleton]
          omega
        have hadd := add_content hroom
        obtain ⟨hd, hh⟩ := hnext (r.add (line ++ [0])).rewind (rewind_content _)
        have htake : (r.add (line ++ [0])).content.take ((r.add (line ++ [0])).content.length - 1) =
            tail seen ++ line := by
          rw [hadd, hcontent, ← List.append_assoc, List.length_append, List.length_singleton,
            Nat.add_sub_cancel, List.take_left]
        rw [if_pos hpos]
        refine ⟨?_, hh⟩
        show _ = delivered seen ++ ((r.add (line ++ [0])).content.take
          ((r.add (line ++ [0])).content.length - 1) :: _)
        have hne : tail seen ++ line ≠ [] := by
          intro he
          rw [(List.append_eq_nil_iff.mp he).1] at hpos
          exact hpos rfl
        rw [hd, hout, htake, List.filter_cons_of_pos (by rw [decide_eq_true_iff]; exact hne),
          List.append_assoc]
        rfl
      · rw [if_neg hpos]
        have ht : tail seen = [] := List.length_eq_zero_iff.mp (not_not.mp hpos)
        rw [ht, List.nil_append] at hout
        rw [ht] at hcontent
        obtain ⟨hd, hh⟩ := hnext r hcontent
        cases line with
        | nil =>
          rw [if_neg (by decide)]
          refine ⟨?_, hh⟩
          rw [hd, hout]
          exact congrArg (· ++ _) (List.append_nil _)
        | cons b line =>
          rw [if_pos (by rw [List.length_cons]; omega)]
          refine ⟨?_, hh⟩
          rw [hd, hout, List.append_assoc]
          rfl
    · rename_i h
      have hdata' := memchr_eq_none.mp h
      obtain ⟨hlines, htail⟩ := lines_append (s := seen) hdata'
      have hout : delivered (seen ++ data) = delivered seen := by
        unfold delivered
        rw [hlines]
      by_cases h0 : data = []
      · rw [if_pos h0]
        refine ⟨by rw [hout]; exact (List.append_nil _).symm, fun _ => ?_⟩
        rw [htail, hdata h0, h0]
        rfl
      · rw [if_neg h0]
        refine ⟨by rw [hout]; exact (List.append_nil _).symm, fun hlt => ?_⟩
        rw [htail, List.length_append] at hlt
        have hcontent : r.content = tail seen := hr (by omega)
        rw [add_content (by rw [hcontent]; omega), hcontent, htail]

theorem follows : Chunked.Follows LineReader.parse delivered Fits Holds where
  before _ _ h := fits_before h
  step seen r data hr hfits := by
    unfold LineReader.parse
    by_cases h0 : data = []
    · rw [if_pos h0, h0, List.append_nil]
      exact ⟨(List.append_nil _).symm, hr⟩
    · rw [if_neg h0]
      exact getline_spec r data seen hr (fun h => absurd h h0) hfits

/-- **However the stream is split into reads**, the lines given out are those of the
stream that are not empty. -/
theorem chunk_invariance {s : Bytes} (h : Fits s) (cs : List Bytes) (hcs : cs.flatten = s) :
    (Chunked.feed LineReader.parse {} cs).2 = (lines s).filter (· ≠ []) := by
  have hs : Holds [] {} := fun _ => rfl
  have hf := (follows.feed cs hs (by rw [List.nil_append, hcs]; exact h)).1
  rw [List.nil_append, hcs] at hf
  exact hf.symm

/-- Two lines with an empty one between them, split inside the first. -/
theorem chunk_invariance_split :
    (Chunked.feed LineReader.parse {} [[97], [98, 10, 10, 99], [10]]).2 = [[97, 98], [99]] := by
  rw [chunk_invariance (s := [97, 98, 10, 10, 99, 10]) (by unfold Fits; decide) _ rfl]
  decide

end L1.LineReader

end Rxs
