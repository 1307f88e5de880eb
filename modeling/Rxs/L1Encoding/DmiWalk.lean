import Rxs.L1Encoding.DmiReader

/-!
# The walk through an SMBIOS table

From one structure to the next, up to the first that is a terminator or has no end in the
table.

* `loop_spec`: what the reader makes of any table.
* **`decode_iff`**: when it stays in the table and visits the structures of the walk.
-/
namespace Rxs.L1.Dmi

open Rxs.Core Rxs.Core.Buffer

/-! ## What is asked -/

section Table

variable (size : Nat) (m : Mem)

/-- The first two zeros from `start` on are at `p`. -/
structure Ended (start p : Nat) : Prop where
  le : start ≤ p
  lt : p + 1 < size
  zeros : m p = 0 ∧ m (p + 1) = 0
  first : ∀ q, start ≤ q → q < p → ¬(m q = 0 ∧ m (q + 1) = 0)

/-- A header, and no terminator. -/
def Begins (d : Nat) : Prop := d + 4 ≤ size ∧ 4 ≤ m (d + 1) ∧ m d ≠ 127

/-- A structure at `d` with all of its strings, and `e` behind it. -/
def WellFormed (d e : Nat) : Prop :=
  Begins size m d ∧ ∃ p, Ended size m (d + (m (d + 1)).toNat) p ∧ e = p + 2

/-- The structures from an offset on, and where there is no other. -/
inductive Walk : Nat → List Nat → Nat → Prop where
  | stop {d : Nat} (h : ∀ e, ¬WellFormed size m d e) : Walk d [] d
  | step {d e s : Nat} {ds : List Nat} (h : WellFormed size m d e) (w : Walk e ds s) :
      Walk d (d :: ds) s

/-- A structure begins at `d`, and its formatted area or the table ends where an offset, with
the two zeros, has no room in 32 bits. -/
def Overrun (d : Nat) : Prop :=
  Begins size m d ∧ (2 ^ 32 - 2 ≤ d + (m (d + 1)).toNat ∨ size = 2 ^ 32 - 1)

end Table

/-- The table is read to the end, without an access outside, and the structures that are
visited are those of the walk. -/
def Parses (m_size : UInt32) (m : Mem) : Prop :=
  ∃ r visited s, decode m_size (some m) = .ok (true, r, visited) ∧
    Walk m_size.toNat m 0 visited s

/-! ## The scan -/

section Scan

variable {size s p : Nat} {m : Mem}

/-- Two zeros that are there are found. -/
theorem scan_found (hsize : size < 2 ^ 32) (E : Ended size m s p) :
    Keeps (· = m) (fun n => n.1 = p) (scan size s) := by
  obtain ⟨hle, hlt, hzeros, hfirst⟩ := E
  induction hn : p - s generalizing s with
  | zero =>
    have heq : s = p := by omega
    subst heq
    rw [scan, if_pos (by omega), dif_pos (by omega)]
    refine .bind (.read (by omega) (Q := (· = 0)) fun m' hm => hm ▸ hzeros.1) ?_
    rintro b rfl
    rw [if_neg (by simp)]
    refine .bind (.read (by omega) (Q := (· = 0)) fun m' hm => hm ▸ hzeros.2) ?_
    rintro b rfl
    rw [if_neg (by simp)]
    exact .pure rfl
  | succ n ih =>
    have hrest := ih (s := s + 1) (by omega) (fun q hq => hfirst q (by omega)) (by omega)
    rw [scan, if_pos (by omega), dif_pos (by omega)]
    refine .bind (.read (by omega) (Q := (· = m s)) fun m' hm => hm ▸ rfl) ?_
    rintro b rfl
    refine .ite (fun _ => .bind hrest fun n hn => .pure hn) fun hzero => ?_
    refine .bind (.read (by omega) (Q := (· = m (s + 1))) fun m' hm => hm ▸ rfl) ?_
    rintro b rfl
    refine .ite (fun _ => .bind hrest fun n hn => .pure hn) fun hzero' => ?_
    exact absurd ⟨not_not.mp hzero, not_not.mp hzero'⟩ (hfirst s (Nat.le_refl s) (by omega))

/-- Without two zeros the scan ends with the table, if the start has room in 32 bits. -/
theorem scan_none (hsize : size < 2 ^ 32) (hs : s + 1 < 2 ^ 32) (hnone : ∀ p, ¬Ended size m s p) :
    Keeps (· = m) (fun n => n.1 = max s (size - 1)) (scan size s) := by
  have hfirst : ∀ q, s ≤ q → q + 1 < size → ¬(m q = 0 ∧ m (q + 1) = 0) := by
    intro q hq hlt hzeros
    induction q using Nat.strongRecOn with
    | ind q ih =>
      refine hnone q ⟨hq, hlt, hzeros, fun q' hq' hlt' hzeros' => ?_⟩
      exact ih q' hlt' hq' (by omega) hzeros'
  clear hnone
  induction hn : size - s generalizing s with
  | zero =>
    rw [scan, if_neg (by omega)]
    exact .pure (by dsimp only; omega)
  | succ n ih =>
    rw [scan]
    refine .ite (fun hlt => ?_) fun hge => .pure (by dsimp only; omega)
    have hrest := ih (s := s + 1) (by omega) (fun q hq => hfirst q (by omega)) (by omega)
    have hmax : max (s + 1) (size - 1) = max s (size - 1) := by omega
    rw [hmax] at hrest
    rw [dif_pos (by omega)]
    refine .bind (.read (by omega) (Q := (· = m s)) fun m' hm => hm ▸ rfl) ?_
    rintro b rfl
    refine .ite (fun _ => .bind hrest fun n hn => .pure hn) fun hzero => ?_
    refine .bind (.read (by omega) (Q := (· = m (s + 1))) fun m' hm => hm ▸ rfl) ?_
    rintro b rfl
    refine .ite (fun _ => .bind hrest fun n hn => .pure hn) fun hzero' => ?_
    exact absurd ⟨not_not.mp hzero, not_not.mp hzero'⟩ (hfirst s (Nat.le_refl s) (by omega))

/-- A start that has no room in 32 bits is taken for one in the table. -/
theorem scan_outside (hs : 2 ^ 32 ≤ s + 1) (hsize : s + 1 - 2 ^ 32 < size) (hlt : size < 2 ^ 32) :
    scan size s m = .error ⟨s⟩ := by
  rw [scan, if_pos (by omega), dif_neg (by omega)]

end Scan

/-! ## The walk -/

section Walks

variable {size d e s s' : Nat} {ds ds' : List Nat} {m m' : Mem}

theorem Ended.unique {start p q : Nat} (E : Ended size m start p) (E' : Ended size m start q) :
    p = q := by
  rcases Nat.lt_trichotomy p q with h | h | h
  · exact absurd E.zeros (E'.first p E.le h)
  · exact h
  · exact absurd E'.zeros (E.first q E'.le h)

theorem WellFormed.unique {e' : Nat} (h : WellFormed size m d e) (h' : WellFormed size m d e') :
    e = e' := by
  obtain ⟨-, p, E, rfl⟩ := h
  obtain ⟨-, q, E', rfl⟩ := h'
  rw [E.unique E']

theorem WellFormed.lt (h : WellFormed size m d e) : d < e ∧ e ≤ size := by
  obtain ⟨-, p, E, rfl⟩ := h
  have := E.le
  have := E.lt
  omega

/-- There is one walk from an offset. -/
theorem Walk.unique (w : Walk size m d ds s) (w' : Walk size m d ds' s') : ds = ds' ∧ s = s' := by
  induction w generalizing ds' with
  | stop h =>
    cases w' with
    | stop _ => exact ⟨rfl, rfl⟩
    | step h' _ => exact absurd h' (h _)
  | step h _ ih =>
    cases w' with
    | stop h' => exact absurd h (h' _)
    | step h' w' =>
      obtain rfl := h.unique h'
      obtain ⟨rfl, rfl⟩ := ih w'
      exact ⟨rfl, rfl⟩

theorem Walk.le (w : Walk size m d ds s) : d ≤ s := by
  induction w with
  | stop _ => exact Nat.le_refl _
  | step h _ ih =>
    have := h.lt
    omega

/-- Only what is from the structure on matters. -/
theorem WellFormed.congr (hm : ∀ i, d ≤ i → m' i = m i) (h : WellFormed size m d e) :
    WellFormed size m' d e := by
  obtain ⟨⟨hsize, hlength, htype⟩, p, E, rfl⟩ := h
  refine ⟨⟨hsize, ?_, ?_⟩, p, ?_, rfl⟩
  · rwa [hm _ (by omega)]
  · rwa [hm _ (by omega)]
  · rw [hm _ (by omega)]
    obtain ⟨hle, hlt, hzeros, hfirst⟩ := E
    refine ⟨hle, hlt, ?_, fun q hq hqp => ?_⟩
    · rwa [hm _ (by omega), hm _ (by omega)]
    · rw [hm _ (by omega), hm _ (by omega)]
      exact hfirst q hq hqp

theorem Walk.congr (hm : ∀ i, d ≤ i → m' i = m i) (w : Walk size m d ds s) :
    Walk size m' d ds s := by
  induction w with
  | stop h => exact .stop fun e h' => h e (h'.congr fun i hi => (hm i hi).symm)
  | step h _ ih =>
    have := h.lt
    exact .step (h.congr hm) (ih fun i hi => hm i (by omega))

theorem Overrun.congr (hm : ∀ i, d ≤ i → m' i = m i) (h : Overrun size m d) :
    Overrun size m' d := by
  obtain ⟨⟨hsize, hlength, htype⟩, hover⟩ := h
  refine ⟨⟨hsize, ?_, ?_⟩, ?_⟩
  · rwa [hm _ (by omega)]
  · rwa [hm _ (by omega)]
  · rwa [hm _ (by omega)]

end Walks

/-! ## The reader's walk -/

section Loop

variable {size data : Nat} {m : Mem} {r : DmiReader} {v : List Nat}

theorem header_ok (h : data + 4 ≤ size) :
    ∃ handle, dmi_get_header size data m = .ok (⟨m data, m (data + 1), handle, data⟩, m) := by
  have hkeeps : Keeps (· = m)
      (fun h => h.type = m data ∧ h.length = m (data + 1) ∧ h.data = data)
      (dmi_get_header size data) := by
    refine .bind (.read (by omega) (Q := (· = m data)) fun m' hm => hm ▸ rfl) fun type ht => ?_
    refine .bind (.read (by omega) (Q := (· = m (data + 1))) fun m' hm => hm ▸ rfl)
      fun length hl => ?_
    exact .bind (keeps_dmi_get (by omega)) fun handle _ => .pure ⟨ht, hl, rfl⟩
  obtain ⟨⟨type, length, handle, data'⟩, m', heq, ⟨ht, hl, hd⟩, hm⟩ := hkeeps m rfl
  simp only at ht hl hd
  rw [ht, hl, hd, hm] at heq
  exact ⟨handle, heq⟩

/-- No structure begins. -/
theorem loop_end (h : ¬Begins size m data) : loop size r v data m = .ok ((r, v), m) := by
  rw [loop]
  split
  case isTrue hlt =>
    obtain ⟨handle, heq⟩ := header_ok (m := m) hlt
    rw [bind_ok heq, if_pos ?_]
    · rfl
    · by_contra hnot
      rw [not_or] at hnot
      exact h ⟨hlt, UInt8.not_lt.mp hnot.1, hnot.2⟩
  case isFalse => rfl

/-- A structure begins: the scan, and what comes after it. -/
theorem loop_begins (h : Begins size m data) :
    ∃ handle, loop size r v data m = (scan size (data + (m (data + 1)).toNat) >>= fun next =>
      if size < (next.1 + 2) % 2 ^ 32 then pure (r, v)
      else visit size r ⟨m data, m (data + 1), handle, data⟩ >>= fun r =>
        loop size r (v ++ [data]) (next.1 + 2)) m := by
  obtain ⟨hlt, hlength, htype⟩ := h
  obtain ⟨handle, heq⟩ := header_ok (m := m) hlt
  refine ⟨handle, ?_⟩
  rw [loop, dif_pos hlt, bind_ok heq, if_neg (not_or.mpr ⟨UInt8.not_lt.mpr hlength, htype⟩)]

end Loop

/-- What the reader makes of a table: it visits the structures of the walk, or where the walk
stops at an overrun it leaves the table or visits that too. -/
theorem loop_spec {size : Nat} (hsize : size < 2 ^ 32) (r : DmiReader) (v : List Nat) (data : Nat)
    (m : Mem) : ∃ ds stop, Walk size m data ds stop ∧
      (¬Overrun size m stop → ∃ r' m', loop size r v data m = .ok ((r', v ++ ds), m')) ∧
      (Overrun size m stop → ∀ r' v' m', loop size r v data m = .ok ((r', v'), m') →
        v' = v ++ ds ++ [stop]) := by
  induction hn : size - data using Nat.strongRecOn generalizing data r v m with
  | ind n ih =>
    by_cases hbegins : Begins size m data
    case neg =>
      refine ⟨[], data, .stop fun e h => hbegins h.1, fun _ => ⟨r, m, ?_⟩, fun h => ?_⟩
      · rw [loop_end hbegins, List.append_nil]
      · exact absurd h.1 hbegins
    case pos =>
      obtain ⟨handle, hloop⟩ := loop_begins (r := r) (v := v) hbegins
      have hlt := hbegins.1
      have hbyte := (m (data + 1)).toNat_lt
      by_cases hend : ∃ p, Ended size m (data + (m (data + 1)).toNat) p
      case pos =>
        obtain ⟨p, E⟩ := hend
        have hpos := E.lt
        have hle := E.le
        -- the structure is visited, and the rest of the table is as it was
        obtain ⟨next, m₀, hscan, hnext, hm⟩ := scan_found hsize E m rfl
        rw [hm] at hscan
        rw [bind_ok hscan, hnext, if_neg (by omega)] at hloop
        have A : Area size (data + (m (data + 1)).toNat) p m := ⟨hle, hpos, E.zeros⟩
        obtain ⟨r', m', hvisit, -, hsame⟩ := keeps_visit
          (h := ⟨m data, m (data + 1), handle, data⟩) A rfl r m (.refl _ _ m)
        rw [bind_ok hvisit] at hloop
        have hrest : ∀ i, p + 2 ≤ i → m' i = m i := fun i hi => hsame.frame i (by omega)
        obtain ⟨ds, stop, hwalk, hok, hover⟩ :=
          ih (size - (p + 2)) (by omega) r' (v ++ [data]) (p + 2) m' rfl
        have hstop := hwalk.le
        have hmem : ∀ i, stop ≤ i → m' i = m i := fun i hi => hrest i (by omega)
        refine ⟨data :: ds, stop, .step ⟨hbegins, p, E, rfl⟩
          (hwalk.congr fun i hi => (hrest i hi).symm), fun h => ?_, fun h r'' v'' m'' heq => ?_⟩
        · obtain ⟨r'', m'', heq⟩ := hok fun h' => h (h'.congr fun i hi => (hmem i hi).symm)
          rw [hloop, heq]
          exact ⟨r'', m'', by simp⟩
        · rw [hloop] at heq
          rw [hover (h.congr hmem) r'' v'' m'' heq]
          simp
      case neg =>
        rw [not_exists] at hend
        refine ⟨[], data, .stop fun e h => ?_, fun h => ?_, fun h r' v' m' heq => ?_⟩
        · obtain ⟨-, p, E, -⟩ := h
          exact hend p E
        · have hroom : data + (m (data + 1)).toNat < 2 ^ 32 - 2 ∧ size ≠ 2 ^ 32 - 1 := by
            by_contra hover
            exact h ⟨hbegins, by omega⟩
          obtain ⟨next, m₀, hscan, hnext, hm⟩ := scan_none hsize (by omega) hend m rfl
          rw [hm] at hscan
          rw [bind_ok hscan, hnext, if_pos (by omega)] at hloop
          rw [hloop, List.append_nil]
          exact ⟨r, m, rfl⟩
        · obtain ⟨-, hover⟩ := h
          rw [hloop] at heq
          by_cases hroom : data + (m (data + 1)).toNat + 1 < 2 ^ 32
          · obtain ⟨next, m₀, hscan, hnext, hm⟩ := scan_none hsize hroom hend m rfl
            rw [hm] at hscan
            rw [bind_ok hscan, hnext, if_neg (by omega)] at heq
            cases hvisit : visit size r ⟨m data, m (data + 1), handle, data⟩ m with
            | error e =>
              rw [bind_error hvisit] at heq
              cases heq
            | ok a =>
              obtain ⟨r₁, m₁⟩ := a
              rw [bind_ok hvisit, loop_end fun h => ?_] at heq
              · cases heq
                simp
              · have := h.1
                omega
          · rw [bind_error (scan_outside (by omega) (by omega) hsize)] at heq
            cases heq

/-- For any table of any size: it is read without an access outside and the structures of the
walk are visited, exactly where the walk does not stop at an overrun. -/
theorem decode_iff (m_size : UInt32) (m : Mem) :
    Parses m_size m ↔ ∀ ds stop, Walk m_size.toNat m 0 ds stop →
      ¬Overrun m_size.toNat m stop := by
  obtain ⟨ds, stop, hwalk, hok, hover⟩ := loop_spec m_size.toNat_lt {} [] 0 m
  have hdecode : ∀ r v, decode m_size (some m) = .ok (true, r, v) ↔
      ∃ m', loop m_size.toNat {} [] 0 m = .ok ((r, v), m') := by
    intro r v
    cases hloop : loop m_size.toNat {} [] 0 m with
    | error e => simp [decode, hloop, Except.map]
    | ok a =>
      obtain ⟨⟨r', v'⟩, m'⟩ := a
      simp [decode, hloop, Except.map]
  constructor
  · rintro ⟨r, v, s, heq, hw⟩ ds' stop' hw' hstop
    obtain ⟨m', heq⟩ := (hdecode r v).mp heq
    obtain ⟨rfl, rfl⟩ := hw.unique hwalk
    obtain ⟨rfl, rfl⟩ := hw.unique hw'
    have := hover hstop r v m' heq
    simp at this
  · intro h
    obtain ⟨r, m', heq⟩ := hok (h ds stop hwalk)
    exact ⟨r, ds, stop, (hdecode r ds).mpr ⟨m', heq⟩, hwalk⟩

/-- A system of eight bytes, with a string that does not end. -/
def unterminated : Mem := fun i => if i = 1 then 8 else if i = 2 ∨ i = 3 then 0 else 1

theorem unterminated_ne {i : Nat} (h : 4 ≤ i) : unterminated i ≠ 0 := by
  unfold unterminated
  rw [if_neg (by omega), if_neg (by omega)]
  decide

/-- In a table of the greatest size it is visited, and its string is read on behind the table. -/
theorem unterminated_outside :
    decode 0xffffffff (some unterminated) = .error ⟨0xffffffff⟩ := by
  have hsize : (0xffffffff : UInt32).toNat = 4294967295 := rfl
  have hnone : ∀ p, ¬Ended 4294967295 unterminated (0 + (unterminated (0 + 1)).toNat) p := by
    intro p E
    have hle : 8 ≤ p := E.le
    exact unterminated_ne (by omega) E.zeros.1
  have hbegins : Begins 4294967295 unterminated 0 := ⟨by omega, by decide, by decide⟩
  obtain ⟨handle, hloop⟩ := loop_begins (r := {}) (v := []) hbegins
  obtain ⟨next, m, hscan, hnext, hm⟩ := scan_none (by omega) (by decide) hnone unterminated rfl
  have hmax : max (0 + (unterminated (0 + 1)).toNat) (4294967295 - 1) = 4294967294 := by decide
  rw [hm] at hscan
  rw [hmax] at hnext
  rw [bind_ok hscan, hnext, if_neg (by omega)] at hloop
  have hread : ∀ i, i < 4294967295 →
      read 4294967295 i unterminated = .ok (unterminated i, unterminated) := fun i hi => if_pos hi
  have hstring : dmi_string 4294967295 ⟨1, 8, handle, 0⟩ 4 unterminated =
      .error ⟨4294967295⟩ := by
    have hskip : skip 4294967295 (unterminated (0 + 4)).toNat (0 + (8 : UInt8).toNat)
        unterminated = .ok (8, unterminated) := rfl
    rw [dmi_string, if_neg (by omega), bind_ok (hread (0 + 4) (by omega)), bind_ok hskip,
      bind_ok (hread 8 (by omega)), if_neg (unterminated_ne (by omega)),
      bind_error (strlen_outside (fun j hj _ => unterminated_ne (by omega)) (by omega))]
  have hvisit : visit 4294967295 {} ⟨1, 8, handle, 0⟩ unterminated = .error ⟨4294967295⟩ := by
    rw [visit, if_pos rfl]
    refine bind_error ?_
    have hlength : ¬(8 : UInt8) < 0x08 := by decide
    rw [DmiBoard.decode, if_neg hlength]
    exact bind_error hstring
  have hheader : (⟨unterminated 0, unterminated (0 + 1), handle, 0⟩ : DmiHeader) =
      ⟨1, 8, handle, 0⟩ := rfl
  rw [hheader, bind_error hvisit] at hloop
  simp only [decode, hsize, hloop]
  rfl

/-- The table is left. -/
theorem decode_leaves : ¬Parses 0xffffffff unterminated := by
  rintro ⟨r, v, s, heq, -⟩
  rw [unterminated_outside] at heq
  cases heq

end Rxs.L1.Dmi
