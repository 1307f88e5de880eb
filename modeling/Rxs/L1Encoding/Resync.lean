import Rxs.L1Encoding.LineReader

/-!
# Lines that do not fit

A line that is longer than the buffer is not known as one: `add` drops the piece that
does not fit and keeps the ones before it, and the newline then ends what was kept.

`calls` is `getline` with the calls of `onLine` as they are made: what lies at the
address that is handed over, and the size.

* `calls_eq`: the lines of the calls are those of `getline`.
* `calls_count`: there is a call for every line that is not empty, whether it fits or
  not.
* `calls_terminated`: a line that fits has its zero byte.
* **`resync`**: exactly when the lines that are handed over are right.
* `resync_fails`: a line of 65,537 bytes in two reads.
-/
namespace Rxs

open Rxs.Core

namespace LineReader

/-- mirrors src/base/kernel/interfaces/ILineListener.h:46-46 -/
structure OnLine where
  line : Bytes
  size : Nat
  deriving DecidableEq, Repr

def OnLine.text (o : OnLine) : Bytes := o.line.take o.size

/-- The consumer parses the line in place, up to the zero byte. -/
def OnLine.Terminated (o : OnLine) : Prop := o.line[o.size]? = some 0

instance (o : OnLine) : Decidable o.Terminated := by
  unfold OnLine.Terminated
  infer_instance

/-- mirrors src/base/net/tools/LineReader.cpp:74-104 -/
def calls (r : LineReader) (data : Bytes) : LineReader × List OnLine :=
  match h : memchr data with
  | some (line, rest) =>
    have : rest.length < data.length := by
      rw [(memchr_eq_some.mp h).1, List.length_append, List.length_cons]
      omega
    if r.pos ≠ 0 then
      let r := r.add (line ++ [0])
      let t := calls r.rewind rest
      (t.1, ⟨r.content, r.pos - 1⟩ :: t.2)
    else if 1 < line.length + 1 then
      let t := calls r rest
      (t.1, ⟨line ++ 0 :: rest, line.length⟩ :: t.2)
    else calls r rest
  | none => if data = [] then (r.reset, []) else (r.add data, [])
termination_by data.length

/-- mirrors src/base/net/tools/LineReader.cpp:36-44 -/
def parseCalls (r : LineReader) (data : Bytes) : LineReader × List OnLine :=
  if data = [] then (r, []) else r.calls data

end LineReader

namespace L1.LineReader

open Rxs.LineReader

theorem calls_eq (r : LineReader) (data : Bytes) :
    r.getline data = ((r.calls data).1, (r.calls data).2.map OnLine.text) := by
  fun_induction LineReader.calls r data with
  | case1 r data line rest h _ hpos r' t ih =>
    rw [LineReader.getline]
    split
    · rename_i heq
      cases h.symm.trans heq
      rw [if_pos hpos]
      show ((r'.rewind.getline rest).1, r'.content.take (r'.pos - 1) ::
        (r'.rewind.getline rest).2) = _
      rw [ih]
      rfl
    · rename_i heq
      cases h.symm.trans heq
  | case2 r data line rest h _ hpos hlen t ih =>
    rw [LineReader.getline]
    split
    · rename_i heq
      cases h.symm.trans heq
      rw [if_neg hpos, if_pos hlen]
      show ((r.getline rest).1, line :: (r.getline rest).2) = _
      have htext : OnLine.text ⟨line ++ 0 :: rest, line.length⟩ = line := List.take_left
      rw [ih]
      show _ = ((r.calls rest).1, OnLine.text ⟨line ++ 0 :: rest, line.length⟩ :: _)
      rw [htext]
    · rename_i heq
      cases h.symm.trans heq
  | case3 r data line rest h _ hpos hlen ih =>
    rw [LineReader.getline]
    split
    · rename_i heq
      cases h.symm.trans heq
      rw [if_neg hpos, if_neg hlen, ih]
    · rename_i heq
      cases h.symm.trans heq
  | case4 r h =>
    rw [LineReader.getline]
    rfl
  | case5 r data h hne =>
    rw [LineReader.getline]
    split
    · rename_i heq
      cases h.symm.trans heq
    · rw [if_neg hne]
      rfl

/-! ## One line -/

theorem append_line (seen line rest : Bytes) :
    seen ++ (line ++ newline :: rest) = seen ++ (line ++ [newline]) ++ rest := by
  simp only [List.append_assoc, List.singleton_append]

theorem delivered_line {seen line : Bytes} (h : newline ∉ line) :
    delivered (seen ++ (line ++ [newline])) =
      delivered seen ++ [tail seen ++ line].filter (· ≠ []) := by
  unfold delivered
  rw [(lines_newline h).1, List.filter_append]

theorem delivered_piece {seen data : Bytes} (h : newline ∉ data) :
    delivered (seen ++ data) = delivered seen := by
  unfold delivered
  rw [(lines_append h).1]

/-! ## The number of calls -/

/-- The buffer is empty exactly at the start of a line. -/
def Marks (seen : Bytes) (r : LineReader) : Prop := r.content = [] ↔ tail seen = []

/-- **There is a call for every line** that is not empty. -/
theorem calls_count (r : LineReader) (data : Bytes) (seen : Bytes) (hr : Marks seen r)
    (hdata : data = [] → tail seen = []) (hlen : data.length ≤ RXS_NET_BUFFER_CHUNK_SIZE) :
    (delivered (seen ++ data)).length = (delivered seen).length + (r.calls data).2.length ∧
      Marks (seen ++ data) (r.calls data).1 := by
  fun_induction LineReader.calls r data generalizing seen with
  | case1 r data line rest h hrest hpos r' t ih =>
    obtain ⟨rfl, hline⟩ := memchr_eq_some.mp h
    have htail := (lines_newline (s := seen) hline).2
    have hne : tail seen ≠ [] := fun ht => hpos (List.length_eq_zero_iff.mpr (hr.mpr ht))
    have hout : (delivered (seen ++ (line ++ [newline]))).length = (delivered seen).length + 1 := by
      rw [delivered_line hline]
      simp [hne]
    have hm : Marks (seen ++ (line ++ [newline])) r'.rewind :=
      ⟨fun _ => htail, fun _ => rewind_content _⟩
    obtain ⟨hd, hr'⟩ := ih (seen ++ (line ++ [newline])) hm (fun _ => htail) (by omega)
    rw [append_line]
    refine ⟨?_, hr'⟩
    show _ = _ + ((r'.rewind.calls rest).2.length + 1)
    omega
  | case2 r data line rest h hrest hpos hlen' t ih =>
    obtain ⟨rfl, hline⟩ := memchr_eq_some.mp h
    have htail := (lines_newline (s := seen) hline).2
    have hne : line ≠ [] := by
      rintro rfl
      exact absurd hlen' (by decide)
    have hout : (delivered (seen ++ (line ++ [newline]))).length = (delivered seen).length + 1 := by
      rw [delivered_line hline]
      simp [hne]
    have hm : Marks (seen ++ (line ++ [newline])) r :=
      ⟨fun _ => htail, fun _ => List.length_eq_zero_iff.mp (not_not.mp hpos)⟩
    obtain ⟨hd, hr'⟩ := ih (seen ++ (line ++ [newline])) hm (fun _ => htail) (by omega)
    rw [append_line]
    refine ⟨?_, hr'⟩
    show _ = _ + ((r.calls rest).2.length + 1)
    omega
  | case3 r data line rest h hrest hpos hlen' ih =>
    obtain ⟨rfl, hline⟩ := memchr_eq_some.mp h
    have htail := (lines_newline (s := seen) hline).2
    have hcontent : r.content = [] := List.length_eq_zero_iff.mp (not_not.mp hpos)
    have hnil : line = [] := List.length_eq_zero_iff.mp (by omega)
    have hout : (delivered (seen ++ (line ++ [newline]))).length = (delivered seen).length := by
      rw [delivered_line hline, hnil, hr.mp hcontent]
      simp
    have hm : Marks (seen ++ (line ++ [newline])) r := ⟨fun _ => htail, fun _ => hcontent⟩
    obtain ⟨hd, hr'⟩ := ih (seen ++ (line ++ [newline])) hm (fun _ => htail) (by omega)
    rw [append_line]
    exact ⟨by omega, hr'⟩
  | case4 r h =>
    rw [List.append_nil]
    exact ⟨rfl, fun _ => hdata rfl, fun _ => rfl⟩
  | case5 r data h hne =>
    have hdata := memchr_eq_none.mp h
    refine ⟨by rw [delivered_piece hdata]; rfl, ?_⟩
    have ht : tail (seen ++ data) ≠ [] := by
      rw [(lines_append hdata).2]
      simp [hne]
    refine ⟨fun hc => ?_, fun hc => absurd hc ht⟩
    unfold LineReader.add LineReader.pos at hc
    split at hc
    · rename_i hbig
      rw [hc, List.length_nil] at hbig
      omega
    · have hc : r.content ++ data = [] := hc
      exact absurd (List.append_eq_nil_iff.mp hc).2 hne

/-! ## The zero byte -/

/-- **A line that fits has its zero byte.** -/
theorem calls_terminated (r : LineReader) (data : Bytes) (seen : Bytes) (hr : Holds seen r)
    (hfits : Fits (seen ++ data)) : ∀ o ∈ (r.calls data).2, o.Terminated := by
  fun_induction LineReader.calls r data generalizing seen with
  | case1 r data line rest h hrest hpos r' t ih =>
    obtain ⟨rfl, hline⟩ := memchr_eq_some.mp h
    obtain ⟨hlines, htail⟩ := lines_newline (s := seen) hline
    rw [append_line] at hfits
    have hfit : (tail seen ++ line).length + 1 ≤ RXS_NET_BUFFER_CHUNK_SIZE := by
      apply fits_before hfits
      rw [hlines]
      exact List.mem_append_right _ List.mem_cons_self
    rw [List.length_append] at hfit
    have hcontent : r.content = tail seen := hr (by omega)
    have hadd : r'.content = r.content ++ (line ++ [0]) := by
      apply add_content
      rw [hcontent, List.length_append, List.length_singleton]
      omega
    have hnext : Holds (seen ++ (line ++ [newline])) r'.rewind := fun _ => by
      rw [htail, rewind_content]
    intro o ho
    rcases List.mem_cons.mp ho with rfl | ho
    · unfold OnLine.Terminated LineReader.pos
      dsimp only
      rw [hadd, ← List.append_assoc, List.length_append, List.length_singleton,
        Nat.add_sub_cancel]
      exact List.getElem?_concat_length
    · exact ih _ hnext hfits o ho
  | case2 r data line rest h hrest hpos hlen' t ih =>
    obtain ⟨rfl, hline⟩ := memchr_eq_some.mp h
    have htail := (lines_newline (s := seen) hline).2
    rw [append_line] at hfits
    have hnext : Holds (seen ++ (line ++ [newline])) r := fun _ => by
      rw [htail]
      exact List.length_eq_zero_iff.mp (not_not.mp hpos)
    intro o ho
    rcases List.mem_cons.mp ho with rfl | ho
    · unfold OnLine.Terminated
      simp
    · exact ih _ hnext hfits o ho
  | case3 r data line rest h hrest hpos hlen' ih =>
    obtain ⟨rfl, hline⟩ := memchr_eq_some.mp h
    have htail := (lines_newline (s := seen) hline).2
    rw [append_line] at hfits
    have hnext : Holds (seen ++ (line ++ [newline])) r := fun _ => by
      rw [htail]
      exact List.length_eq_zero_iff.mp (not_not.mp hpos)
    exact ih _ hnext hfits
  | case4 r h =>
    intro o ho
    cases ho
  | case5 r data h hne =>
    intro o ho
    cases ho

/-! ## The law -/

/-- A line that is not empty, and fits in the buffer with its newline. -/
def Kept (l : Bytes) : Prop := l ≠ [] ∧ l.length + 1 ≤ RXS_NET_BUFFER_CHUNK_SIZE

instance (l : Bytes) : Decidable (Kept l) := by
  unfold Kept
  infer_instance

/-- The calls are the lines that fit, in order, each with its zero byte. -/
structure Resynced (s : Bytes) (os : List OnLine) : Prop where
  lines : os.map OnLine.text = (lines s).filter (Kept ·)
  terminated : ∀ o ∈ os, o.Terminated

theorem parse_eq (r : LineReader) (c : Bytes) :
    r.parse c = ((r.parseCalls c).1, (r.parseCalls c).2.map OnLine.text) := by
  unfold LineReader.parse LineReader.parseCalls
  split
  · rfl
  · exact calls_eq r c

theorem feed_eq (r : LineReader) (cs : List Bytes) :
    (Chunked.feed LineReader.parse r cs).2 =
      (Chunked.feed LineReader.parseCalls r cs).2.map OnLine.text := by
  induction cs generalizing r with
  | nil => rfl
  | cons c cs ih =>
    unfold Chunked.feed
    rw [parse_eq]
    simp only [List.map_append, ih]

theorem feed_count (r : LineReader) (seen : Bytes) (cs : List Bytes) (hr : Marks seen r)
    (hcs : ∀ c ∈ cs, c.length ≤ RXS_NET_BUFFER_CHUNK_SIZE) :
    (delivered (seen ++ cs.flatten)).length = (delivered seen).length +
      (Chunked.feed LineReader.parseCalls r cs).2.length := by
  induction cs generalizing r seen with
  | nil =>
    rw [List.flatten_nil, List.append_nil]
    rfl
  | cons c cs ih =>
    obtain ⟨hc, hcs⟩ := List.forall_mem_cons.mp hcs
    obtain ⟨hd, hr'⟩ : (delivered (seen ++ c)).length = (delivered seen).length +
        (r.parseCalls c).2.length ∧ Marks (seen ++ c) (r.parseCalls c).1 := by
      unfold LineReader.parseCalls
      by_cases h0 : c = []
      · rw [if_pos h0, h0, List.append_nil]
        exact ⟨rfl, hr⟩
      · rw [if_neg h0]
        exact calls_count r c seen hr (fun h => absurd h h0) hc
    have hrest := ih (r.parseCalls c).1 (seen ++ c) hr' hcs
    rw [List.flatten_cons, ← List.append_assoc, hrest, hd]
    show _ = _ + ((r.parseCalls c).2 ++ _).length
    rw [List.length_append]
    omega

theorem feed_terminated (r : LineReader) (seen : Bytes) (cs : List Bytes) (hr : Holds seen r)
    (hfits : Fits (seen ++ cs.flatten)) :
    ∀ o ∈ (Chunked.feed LineReader.parseCalls r cs).2, o.Terminated := by
  induction cs generalizing r seen with
  | nil =>
    intro o ho
    cases ho
  | cons c cs ih =>
    rw [List.flatten_cons, ← List.append_assoc] at hfits
    have hc := fits_before hfits
    have hr' : Holds (seen ++ c) (r.parseCalls c).1 := by
      have hstep := (follows.step seen r c hr hc).2
      rw [parse_eq] at hstep
      exact hstep
    intro o ho
    rcases List.mem_append.mp ho with ho | ho
    · unfold LineReader.parseCalls at ho
      split at ho
      · cases ho
      · exact calls_terminated r c seen hr hc o ho
    · exact ih _ _ hr' hfits o ho

/-- **Lines are kept apart**, for reads that are not longer than the buffer, as the
socket and the TLS layer give them: exactly when every line of the stream fits. -/
theorem resync (cs : List Bytes) (hcs : ∀ c ∈ cs, c.length ≤ RXS_NET_BUFFER_CHUNK_SIZE) :
    Resynced cs.flatten (Chunked.feed LineReader.parseCalls {} cs).2 ↔ Fits cs.flatten := by
  have hkept : (lines cs.flatten).filter (Kept ·) = (delivered cs.flatten).filter (Kept ·) := by
    unfold delivered
    rw [List.filter_filter]
    apply List.filter_congr
    intro l _
    by_cases hl : l = [] <;> simp [Kept, hl]
  constructor
  · intro h l hl
    have hcount := feed_count {} [] cs ⟨fun _ => rfl, fun _ => rfl⟩ hcs
    have hlines := congrArg List.length h.lines
    rw [List.length_map, hkept] at hlines
    have hall : ((delivered cs.flatten).filter (Kept ·)).length = (delivered cs.flatten).length := by
      rw [List.nil_append] at hcount
      rw [hcount, ← hlines]
      exact (Nat.zero_add _).symm
    by_cases hnil : l = []
    · rw [hnil]
      decide
    · have hmem : l ∈ delivered cs.flatten := List.mem_filter.mpr ⟨hl, decide_eq_true hnil⟩
      exact (of_decide_eq_true (List.length_filter_eq_length_iff.mp hall l hmem)).2
  · intro h
    refine ⟨?_, feed_terminated {} [] cs (fun _ => rfl) h⟩
    rw [← feed_eq, chunk_invariance h cs rfl, hkept]
    apply (List.filter_eq_self.mpr _).symm
    intro l hl
    obtain ⟨hl, hnil⟩ := List.mem_filter.mp hl
    exact decide_eq_true ⟨of_decide_eq_true hnil, h l hl⟩

/-- Two lines, the second one in two reads. -/
theorem resync_split : Resynced [97, 10, 98, 99, 10]
    (Chunked.feed LineReader.parseCalls {} [[97, 10, 98], [99, 10]]).2 :=
  (resync [[97, 10, 98], [99, 10]] (by decide)).mpr (by unfold Fits; decide)

/-- A full buffer, and the end of the line. -/
theorem calls_full {r : LineReader} (hr : r.content.length = RXS_NET_BUFFER_CHUNK_SIZE) :
    (r.calls [97, newline]).2 = [⟨r.content, RXS_NET_BUFFER_CHUNK_SIZE - 1⟩] := by
  have hpos : r.pos ≠ 0 := by
    unfold LineReader.pos
    rw [hr]
    decide
  have hadd : r.add [97, 0] = r := by
    unfold LineReader.add LineReader.pos
    rw [dif_pos]
    rw [hr]
    decide
  have hend (r : LineReader) : (r.calls []).2 = [] := by
    rw [LineReader.calls]
    rfl
  rw [LineReader.calls]
  split
  · rename_i line rest h
    have hline : memchr [97, newline] = some ([97], []) := by decide
    cases hline.symm.trans h
    rw [if_pos hpos]
    have hcall : (⟨(r.add [97, 0]).content, (r.add [97, 0]).pos - 1⟩ : OnLine) =
        ⟨r.content, r.pos - 1⟩ := by rw [hadd]
    show (_ : OnLine) :: ((r.add [97, 0]).rewind.calls []).2 = _
    rw [hend]
    show [(⟨(r.add [97, 0]).content, (r.add [97, 0]).pos - 1⟩ : OnLine)] = _
    rw [hcall]
    unfold LineReader.pos
    rw [hr]
  · rename_i h
    have hline : memchr [97, newline] = some ([97], []) := by decide
    cases hline.symm.trans h

/-- A read that fills the buffer. -/
theorem parseCalls_full {full : Bytes} (hlen : full.length = RXS_NET_BUFFER_CHUNK_SIZE)
    (hn : newline ∉ full) : (({} : LineReader).parseCalls full).1.content = full ∧
      (({} : LineReader).parseCalls full).2 = [] := by
  have hne : full ≠ [] := by
    rintro rfl
    exact absurd hlen (by decide)
  unfold LineReader.parseCalls
  rw [if_neg hne, LineReader.calls]
  split
  · rename_i h
    cases (memchr_eq_none.mpr hn).symm.trans h
  · rw [if_neg hne]
    refine ⟨?_, rfl⟩
    apply add_content
    rw [hlen]
    exact Nat.le_of_eq (Nat.zero_add _)

/-- A line of 65,537 bytes: what came first is handed over as a line, without its last
byte and without a zero byte behind it. -/
theorem resync_fails : (¬ ∀ cs : List Bytes, (∀ c ∈ cs, c.length ≤ RXS_NET_BUFFER_CHUNK_SIZE) →
      Resynced cs.flatten (Chunked.feed LineReader.parseCalls {} cs).2) ∧
    (Chunked.feed LineReader.parseCalls {}
        [List.replicate RXS_NET_BUFFER_CHUNK_SIZE 97, [97, newline]]).2 =
      [⟨List.replicate RXS_NET_BUFFER_CHUNK_SIZE 97, RXS_NET_BUFFER_CHUNK_SIZE - 1⟩] := by
  have hlen : (List.replicate RXS_NET_BUFFER_CHUNK_SIZE (97 : UInt8)).length =
      RXS_NET_BUFFER_CHUNK_SIZE := List.length_replicate
  have hall : ∀ b ∈ List.replicate RXS_NET_BUFFER_CHUNK_SIZE (97 : UInt8), b = 97 :=
    fun b hb => List.eq_of_mem_replicate hb
  generalize List.replicate RXS_NET_BUFFER_CHUNK_SIZE (97 : UInt8) = full at hlen hall ⊢
  have hn : newline ∉ full := fun h => by cases hall _ h
  obtain ⟨hcontent, hnone⟩ := parseCalls_full hlen hn
  have hout : (Chunked.feed LineReader.parseCalls {} [full, [97, newline]]).2 =
      [⟨full, RXS_NET_BUFFER_CHUNK_SIZE - 1⟩] := by
    have hfull := calls_full (r := (({} : LineReader).parseCalls full).1) (by
      rw [hcontent, hlen])
    have hline (r : LineReader) : r.parseCalls [97, newline] = r.calls [97, newline] :=
      if_neg (List.cons_ne_nil _ _)
    rw [Chunked.feed, Chunked.feed, Chunked.feed]
    dsimp only
    rw [hline, hnone, hfull, hcontent, List.nil_append, List.append_nil]
  refine ⟨?_, hout⟩
  intro h
  have hr := h [full, [97, newline]] (by
    intro c hc
    rcases List.mem_cons.mp hc with rfl | hc
    · exact Nat.le_of_eq hlen
    · cases List.mem_singleton.mp hc
      decide)
  rw [hout] at hr
  have ht := hall 0 (List.mem_of_getElem? (hr.terminated _ (List.mem_singleton.mpr rfl)))
  cases ht

end L1.LineReader

end Rxs
