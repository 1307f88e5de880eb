import Rxs.Core.Escapes
import Rxs.Core.JsonText
import Rxs.L1Encoding.Json

/-!
# Log lines

A line is put together in a buffer: the time, the colour of the level, the message and the
end of the line. The backends get it with its colours and without them; without a backend it
goes to the standard output. What is formatted is taken as it is: `none` where it fails.

* `line_spec`: what stands in the buffer; no write goes outside.
* `strip_clean`: the loop that takes the colours out ends in the text without them.
* **`print_iff`**: for which messages both lines are well formed.
* `print_fails`, `print_endless`: a message that is too long, and a loop that does not end.
-/
namespace Rxs.L2.Log

open Rxs.Core Rxs.Core.JsonText

/-! ## The texts -/

def CSI : Bytes := ascii "\x1B["

def CLEAR : Bytes := CSI ++ ascii "0m"

def BRIGHT_BLACK_S : Bytes := CSI ++ ascii "38;5;245m"

def BLACK_BOLD_S : Bytes := CSI ++ ascii "1;38;5;246m"

def RED_S : Bytes := CSI ++ ascii "38;5;167m"

def RED_BOLD_S : Bytes := CSI ++ ascii "1;38;5;203m"

def YELLOW_S : Bytes := CSI ++ ascii "38;5;179m"

def WHITE_BOLD_S : Bytes := CSI ++ ascii "1;38;5;231m"

/-- mirrors src/base/io/log/Log.h:43-53 -/
inductive Level where
  | NONE | EMERG | ALERT | CRIT | ERR | WARNING | NOTICE | INFO | DEBUG
  deriving DecidableEq, Repr

/-- mirrors src/base/io/log/Log.cpp:37-46 -/
def colors_map : Level → Option Bytes
  | .NONE => none
  | .EMERG => some RED_BOLD_S
  | .ALERT => some RED_BOLD_S
  | .CRIT => some RED_BOLD_S
  | .ERR => some RED_S
  | .WARNING => some YELLOW_S
  | .NOTICE => some WHITE_BOLD_S
  | .INFO => none
  | .DEBUG => some BRIGHT_BLACK_S

/-- The members of a time of day; the year is one of an `int`. -/
structure Tm where
  tm_year : Int
  tm_mon : Fin 12
  tm_mday : Fin 32
  tm_hour : Fin 24
  tm_min : Fin 60
  tm_sec : Fin 61
  year_bounds : -2 ^ 31 ≤ tm_year + 1900 ∧ tm_year + 1900 < 2 ^ 31
  deriving DecidableEq, Repr

/-- `%0kd`. -/
def padded (k n : Nat) : Bytes := List.replicate (k - (decimal n).length) 48 ++ decimal n

/-- The beginning of the epoch. -/
def epoch : Tm where
  tm_year := 70
  tm_mon := 0
  tm_mday := 1
  tm_hour := 0
  tm_min := 0
  tm_sec := 0
  year_bounds := by decide

/-- The date and the time, up to the seconds. -/
def date (stime : Tm) : Bytes :=
  ascii "[" ++ decimalInt (stime.tm_year + 1900) ++ ascii "-" ++ padded 2 (stime.tm_mon + 1) ++
    ascii "-" ++ padded 2 stime.tm_mday ++ ascii " " ++ padded 2 stime.tm_hour ++ ascii ":" ++
    padded 2 stime.tm_min ++ ascii ":" ++ padded 2 stime.tm_sec

example : date epoch = ascii "[1970-01-01 00:00:00" := by decide

/-- mirrors src/base/io/log/Log.cpp:127-134 -/
def stamp (stime : Tm) (ms : Nat) : Bytes :=
  date stime ++ (BLACK_BOLD_S ++ (ascii "." ++ padded 3 (ms % 1000) ++ (CLEAR ++ ascii "] ")))

/-- What is in front of a line. -/
def front (level : Level) (stime : Tm) (ms : Nat) : Bytes :=
  if level = .NONE then [] else stamp stime ms

/-! ## The buffer -/

/-- mirrors src/base/io/log/Log.h:55 -/
def kMaxBufferSize : Nat := 16384

/-- The backends are numbered. -/
structure LogPrivate where
  m_buf : Bytes := List.replicate kMaxBufferSize 0
  m_backends : Nat := 0
  size_eq : m_buf.length = kMaxBufferSize := by exact List.length_replicate

/-- A write to the buffer; none outside. -/
def write (buf : Bytes) (off : Nat) (d : Bytes) : Option Bytes :=
  if off + d.length ≤ kMaxBufferSize then some (buf.writeAt off d) else none

/-- `snprintf`: what fits into `n` bytes with its end, and the length of the whole. -/
def snprintf (buf : Bytes) (off n : Nat) (text : Option Bytes) : Option (Bytes × Int) :=
  match text with
  | none => some (buf, -1)
  | some text =>
    if 2 ^ 31 ≤ text.length then some (buf, -1)
    else if n = 0 then some (buf, text.length)
    else (write buf off (text.take (n - 1) ++ [0])).map fun buf => (buf, (text.length : Int))

/-- The buffer, `size` and `offset`.
mirrors src/base/io/log/Log.cpp:115-141 -/
def timestamp (buf : Bytes) (level : Level) (stime : Tm) (ms : Nat) :
    Option (Bytes × Nat × Nat) :=
  if level = .NONE then some (buf, 0, 0)
  else
    (snprintf buf 0 (kMaxBufferSize - 1) (some (stamp stime ms))).map fun (buf, rc) =>
      if rc > 0 then (buf, rc.toNat, rc.toNat) else (buf, 0, 0)

/-- mirrors src/base/io/log/Log.cpp:144-160 -/
def color (buf : Bytes) (level : Level) (size : Nat) : Option (Bytes × Nat) :=
  match colors_map level with
  | none => some (buf, size)
  | some color => (write buf size color).map fun buf => (buf, size + color.length)

/-- mirrors src/base/io/log/Log.cpp:163-167 -/
def endl (buf : Bytes) (size : Nat) : Option (Bytes × Nat) :=
  (write buf size (CLEAR ++ ascii "\n" ++ [0])).map fun buf => (buf, size + 5)

/-- The buffer, and `offset` and `size` unless the message failed.
mirrors src/base/io/log/Log.cpp:85-94 -/
def line (buf : Bytes) (level : Level) (stime : Tm) (ms : Nat) (message : Option Bytes) :
    Option (Bytes × Option (Nat × Nat)) := do
  let (buf, size, offset) ← timestamp buf level stime ms
  let (buf, size) ← color buf level size
  let n := kMaxBufferSize - offset - 32
  let (buf, rc) ← snprintf buf size n message
  if rc < 0 then some (buf, none)
  else
    let size := size + min rc.toNat n
    let (buf, size) ← endl buf size
    some (buf, some (offset, size))

/-! ## The colours -/

/-- `ESC [`, digits and `;`, and an `m`. -/
def csi : Escapes UInt8 where
  esc := 27
  bracket := 91
  final := 109
  param c := 48 ≤ c && c ≤ 57 || c = 59
  bracket_ne := by decide
  final_ne := by decide
  final_ne_bracket := by decide
  param_esc := by decide
  param_final := by decide

/-- `txt.find(CSI)`. -/
def find : Bytes → Option Nat
  | [] => none
  | a :: s => if csi.introduces (a :: s) then some 0 else (find s).map (· + 1)

/-- `txt.erase(i, txt.find('m', i) - i + 1)`, where not found is the largest `size_t`. -/
def eraseAt (txt : Bytes) (i : Nat) : Bytes :=
  let m := (((txt.drop i).idxOf? 109).map (· + i)).getD (2 ^ 64 - 1)
  let n := (m - i + 1) % 2 ^ 64
  txt.take i ++ txt.drop (i + n)

/-- The loop, for `fuel` turns.
mirrors src/base/io/log/Log.cpp:97-100 -/
def strip : Nat → Bytes → Option Bytes
  | 0, _ => none
  | fuel + 1, txt =>
    match find txt with
    | none => some txt
    | some i => strip fuel (eraseAt txt i)

/-! ## Printing -/

/-- What a backend is called with; `line` is a C string. -/
structure Text where
  line : Bytes
  offset : Nat
  size : Nat
  colors : Bool
  deriving DecidableEq, Repr

inductive Call where
  | backend (i : Nat) (timestamp : Nat) (level : Level) (text : Text)
  | stdout (line : Bytes)
  deriving DecidableEq, Repr

def kTimestampColorLen : Nat := (BLACK_BOLD_S ++ CLEAR).length

/-- The buffer afterwards, and the line with its colours and without them; none where a write
goes outside, where a string has no end in the buffer, and where the loop takes more turns
than there is fuel.
mirrors src/base/io/log/Log.cpp:81-105 -/
def texts (fuel : Nat) (d : LogPrivate) (background : Bool) (level : Level) (stime : Tm)
    (ms : Nat) (message : Option Bytes) : Option (Bytes × Option (Text × Text)) :=
  if background ∧ d.m_backends = 0 then some (d.m_buf, none)
  else do
    let (buf, done) ← line d.m_buf level stime ms message
    match done with
    | none => some (buf, none)
    | some (offset, size) =>
      if 0 ∉ buf then none
      else
        let txt ← strip fuel (cstr buf)
        some (buf, some (
          { line := buf, offset := offset, size := size, colors := true },
          { line := txt ++ [0]
            offset := if offset ≠ 0 then offset - kTimestampColorLen else 0
            size := txt.length
            colors := false }))

/-- mirrors src/base/io/log/Log.cpp:102-111 -/
def handOut (backends : Nat) (ts : Nat) (level : Level) : Option (Text × Text) → List Call
  | none => []
  | some (coloured, plain) =>
    if backends ≠ 0 then
      (List.range backends).flatMap fun i =>
        [.backend i ts level coloured, .backend i ts level plain]
    else [.stdout (cstr plain.line)]

/-- mirrors src/base/io/log/Log.cpp:72-112 -/
def print (fuel : Nat) (d : LogPrivate) (background : Bool) (level : Level) (stime : Tm)
    (ms : Nat) (message : Option Bytes) : Option (Bytes × List Call) :=
  (texts fuel d background level stime ms message).map fun (buf, made) =>
    (buf, handOut d.m_backends ms level made)

/-! ## What it is for -/

/-- It ends in a newline, and in no more than one. -/
def EndsInNewline (s : Bytes) : Prop := ∃ t, s = t ++ [10] ∧ t.getLast? ≠ some 10

/-- Both lines have the size that is stated, with no end before, and end in a newline; the
plain one is the other without its colours, and its offset is where the time ends. -/
structure WellFormed (front : Bytes) (coloured plain : Text) : Prop where
  coloured_size : (cstr coloured.line).length = coloured.size
  plain_size : (cstr plain.line).length = plain.size
  coloured_newline : EndsInNewline (cstr coloured.line)
  plain_newline : EndsInNewline (cstr plain.line)
  plain_eq : cstr plain.line = csi.remove (cstr coloured.line)
  offset_eq : plain.offset = (csi.remove front).length
  front_prefix : csi.remove front <+: cstr plain.line

/-- It ends, without a write outside, and if there is something to hand out, these are two
such lines. -/
def Prints (d : LogPrivate) (background : Bool) (level : Level) (stime : Tm) (ms : Nat)
    (message : Option Bytes) : Prop :=
  ∃ fuel buf calls, print fuel d background level stime ms message = some (buf, calls) ∧
    ∀ coloured plain,
      texts fuel d background level stime ms message = some (buf, some (coloured, plain)) →
        WellFormed (front level stime ms) coloured plain

/-- There is room for the message and its end, it has no end before, no introducer is left
when its colours are taken out, and what is left does not end in a newline. -/
structure Suits (level : Level) (stime : Tm) (ms : Nat) (message : Bytes) : Prop where
  short : message.length < kMaxBufferSize - (front level stime ms).length - 32
  no_end : 0 ∉ message
  clean : csi.Clean message
  newline : (csi.remove message).getLast? ≠ some 10

/-! ## The time -/

theorem length_decimal_le {k n : Nat} (hk : 0 < k) (h : n < 10 ^ k) : (decimal n).length ≤ k := by
  unfold decimal
  split
  · exact hk
  · rw [List.length_map, List.length_reverse]
    exact (Nat.digits_length_le_iff (by decide) n).mpr h

theorem length_padded {k n : Nat} (hk : 0 < k) (h : n < 10 ^ k) : (padded k n).length = k := by
  have := length_decimal_le hk h
  simp only [padded, List.length_append, List.length_replicate]
  omega

theorem length_decimalInt_le {n : Int} (h : n.natAbs < 10 ^ 10) :
    (decimalInt n).length ≤ 11 := by
  have := length_decimal_le (by decide) h
  unfold decimalInt
  split
  · rw [List.length_cons]
    omega
  · omega

theorem length_date_le (stime : Tm) : (date stime).length ≤ 27 := by
  have hyear : (decimalInt (stime.tm_year + 1900)).length ≤ 11 := by
    have := stime.year_bounds
    exact length_decimalInt_le (by omega)
  have hmon := length_padded (k := 2) (n := stime.tm_mon + 1) (by decide) (by omega)
  have hmday := length_padded (k := 2) (n := stime.tm_mday) (by decide) (by omega)
  have hhour := length_padded (k := 2) (n := stime.tm_hour) (by decide) (by omega)
  have hmin := length_padded (k := 2) (n := stime.tm_min) (by decide) (by omega)
  have hsec := length_padded (k := 2) (n := stime.tm_sec) (by decide) (by omega)
  have hone : (ascii "[").length = 1 ∧ (ascii "-").length = 1 ∧ (ascii " ").length = 1 ∧
      (ascii ":").length = 1 := by decide
  simp only [date, List.length_append]
  omega

theorem length_stamp (stime : Tm) (ms : Nat) :
    (stamp stime ms).length = (date stime).length + 23 := by
  have hms := length_padded (k := 3) (n := ms % 1000) (by decide) (by omega)
  have hdot : (ascii ".").length = 1 ∧ (ascii "] ").length = 2 := by decide
  have hcolor : BLACK_BOLD_S.length = 13 ∧ CLEAR.length = 4 := by decide
  simp only [stamp, List.length_append]
  omega

theorem length_front_le (level : Level) (stime : Tm) (ms : Nat) :
    (front level stime ms).length ≤ 50 := by
  have := length_stamp stime ms
  have := length_date_le stime
  unfold front
  split
  · simp
  · omega

/-! ## What stands in the buffer -/

/-- The buffer begins with a text. -/
structure Holds (buf text : Bytes) : Prop where
  length : buf.length = kMaxBufferSize
  text : text <+: buf

variable {buf text d : Bytes}

/-- A write behind the text, over what was there. -/
theorem Holds.write (h : Holds buf text) (hd : text.length + d.length ≤ kMaxBufferSize) :
    ∃ buf', write buf text.length d = some buf' ∧ Holds buf' (text ++ d) := by
  refine ⟨_, if_pos hd, ?_, ?_⟩
  · rw [Bytes.length_writeAt (by rw [h.length]; exact hd), h.length]
  · obtain ⟨rest, rfl⟩ := h.text
    rw [Bytes.writeAt, List.take_left]
    exact List.prefix_append _ _

theorem Holds.mono {text' : Bytes} (h : Holds buf text) (ht : text' <+: text) :
    Holds buf text' :=
  ⟨h.length, ht.trans h.text⟩

theorem Holds.snprintf {n : Nat} (h : Holds buf text) (hn : 0 < n)
    (hroom : text.length + n ≤ kMaxBufferSize) {m : Bytes} (hm : m.length < 2 ^ 31) :
    ∃ buf', snprintf buf text.length n (some m) = some (buf', (m.length : Int)) ∧
      Holds buf' (text ++ (m.take (n - 1) ++ [0])) := by
  have hlen : (m.take (n - 1) ++ [0]).length ≤ n := by
    simp only [List.length_append, List.length_take, List.length_singleton]
    omega
  obtain ⟨buf', hw, hb⟩ := h.write (d := m.take (n - 1) ++ [0]) (by omega)
  refine ⟨buf', ?_, hb⟩
  simp only [Log.snprintf]
  rw [if_neg (by omega), if_neg (by omega), hw]
  rfl

theorem timestamp_spec (d : LogPrivate) (level : Level) (stime : Tm) (ms : Nat) :
    ∃ buf, timestamp d.m_buf level stime ms =
        some (buf, (front level stime ms).length, (front level stime ms).length) ∧
      Holds buf (front level stime ms) := by
  have hd : Holds d.m_buf [] := ⟨d.size_eq, List.nil_prefix⟩
  unfold timestamp front
  split
  case isTrue => exact ⟨d.m_buf, rfl, hd⟩
  case isFalse =>
    have hstamp := length_stamp stime ms
    have hdate := length_date_le stime
    have hK : kMaxBufferSize = 16384 := rfl
    obtain ⟨buf, hs, hb⟩ := hd.snprintf (n := kMaxBufferSize - 1) (by decide) (by decide)
      (m := stamp stime ms) (by omega)
    rw [List.length_nil] at hs
    rw [List.nil_append, List.take_of_length_le (by omega)] at hb
    refine ⟨buf, ?_, hb.mono (List.prefix_append _ _)⟩
    rw [hs, Option.map_some]
    dsimp only
    rw [if_pos (by omega), Int.toNat_natCast]

/-- The colour of a level, if it has one. -/
def colorOf (level : Level) : Bytes := (colors_map level).getD []

theorem length_colorOf_le (level : Level) : (colorOf level).length ≤ 13 := by
  cases level <;> decide

theorem Holds.color (h : Holds buf text) (level : Level)
    (hroom : text.length + 13 ≤ kMaxBufferSize) :
    ∃ buf', color buf level text.length = some (buf', (text ++ colorOf level).length) ∧
      Holds buf' (text ++ colorOf level) := by
  have hle := length_colorOf_le level
  unfold Log.color
  unfold colorOf at hle ⊢
  cases hc : colors_map level with
  | none => exact ⟨buf, by simp, by simpa using h⟩
  | some c =>
    rw [hc, Option.getD_some] at hle
    obtain ⟨buf', hw, hb⟩ := h.write (d := c) (by omega)
    refine ⟨buf', ?_, hb⟩
    dsimp only
    rw [hw, Option.map_some, Option.getD_some, List.length_append]

def ending : Bytes := CLEAR ++ ascii "\n"

theorem length_ending : ending.length = 5 := by decide

theorem Holds.endl (h : Holds buf text) (hroom : text.length + 6 ≤ kMaxBufferSize) :
    ∃ buf', endl buf text.length = some (buf', (text ++ ending).length) ∧
      Holds buf' (text ++ (ending ++ [0])) := by
  obtain ⟨buf', hw, hb⟩ := h.write (d := ending ++ [0]) (by
    rw [List.length_append, length_ending]
    exact hroom)
  refine ⟨buf', ?_, hb⟩
  have heq : CLEAR ++ ascii "\n" ++ [0] = ending ++ [0] := rfl
  rw [Log.endl, heq, hw, Option.map_some, List.length_append, length_ending]

/-- The room for a message and its end. -/
def room (level : Level) (stime : Tm) (ms : Nat) : Nat :=
  kMaxBufferSize - (front level stime ms).length - 32

/-- What there is of a message: where it is cut, its end stays in the line. -/
def body (n : Nat) (m : Bytes) : Bytes := if m.length < n then m else m.take (n - 1) ++ [0]

theorem length_body {n : Nat} (hn : 0 < n) (m : Bytes) :
    (body n m).length = min m.length n := by
  unfold body
  split
  case isTrue h => omega
  case isFalse h =>
    simp only [List.length_append, List.length_take, List.length_singleton]
    omega

theorem body_begins (n : Nat) (m : Bytes) : body n m <+: m.take (n - 1) ++ [0] := by
  unfold body
  split
  case isTrue h =>
    rw [List.take_of_length_le (by omega)]
    exact List.prefix_append _ _
  case isFalse => exact List.prefix_rfl

/-- The whole line. -/
def whole (level : Level) (stime : Tm) (ms : Nat) (m : Bytes) : Bytes :=
  front level stime ms ++ colorOf level ++ body (room level stime ms) m ++ ending

/-- **The buffer.** Whatever stood in it, no write goes outside, and the line is put together
from its parts. -/
theorem line_spec (d : LogPrivate) (level : Level) (stime : Tm) (ms : Nat) {m : Bytes}
    (hm : m.length < 2 ^ 31) : ∃ buf,
      line d.m_buf level stime ms (some m) = some (buf,
        some ((front level stime ms).length, (whole level stime ms m).length)) ∧
      Holds buf (whole level stime ms m ++ [0]) := by
  have hfront := length_front_le level stime ms
  have hcolor := length_colorOf_le level
  have hK : kMaxBufferSize = 16384 := rfl
  have hroom : room level stime ms = kMaxBufferSize - (front level stime ms).length - 32 := rfl
  have hbody := length_body (n := room level stime ms) (by omega) m
  obtain ⟨buf₁, h₁, hb₁⟩ := timestamp_spec d level stime ms
  obtain ⟨buf₂, h₂, hb₂⟩ := hb₁.color level (by omega)
  obtain ⟨buf₃, h₃, hb₃⟩ := hb₂.snprintf (n := room level stime ms) (by omega)
    (by rw [List.length_append]; omega) hm
  have hb₃' := hb₃.mono ((List.prefix_append_right_inj _).mpr (body_begins _ m))
  obtain ⟨buf₄, h₄, hb₄⟩ := hb₃'.endl (by simp only [List.length_append]; omega)
  have hsize : (front level stime ms ++ colorOf level).length +
      min ((m.length : Int)).toNat (room level stime ms) =
      (front level stime ms ++ colorOf level ++ body (room level stime ms) m).length := by
    rw [Int.toNat_natCast, ← hbody]
    exact List.length_append.symm
  refine ⟨buf₄, ?_, ?_⟩
  · simp only [line, h₁, h₂, Option.bind_eq_bind, Option.bind_some]
    rw [← hroom, h₃]
    simp only [Option.bind_some]
    rw [if_neg (by omega), hsize, h₄]
    rfl
  · rw [← List.append_assoc] at hb₄
    exact hb₄

/-- A message that fails leaves no line. -/
theorem line_failed (d : LogPrivate) (level : Level) (stime : Tm) (ms : Nat)
    {message : Option Bytes} (hm : ∀ m, message = some m → 2 ^ 31 ≤ m.length) : ∃ buf,
      line d.m_buf level stime ms message = some (buf, none) := by
  have hfront := length_front_le level stime ms
  have hK : kMaxBufferSize = 16384 := rfl
  obtain ⟨buf₁, h₁, hb₁⟩ := timestamp_spec d level stime ms
  obtain ⟨buf₂, h₂, -⟩ := hb₁.color level (by omega)
  have h₃ : ∀ n off, snprintf buf₂ off n message = some (buf₂, -1) := by
    intro n off
    cases message with
    | none => rfl
    | some m => exact if_pos (hm m rfl)
  refine ⟨buf₂, ?_⟩
  simp only [line, h₁, h₂, h₃, Option.bind_eq_bind, Option.bind_some]
  rfl

/-! ## The loop -/

theorem find_eq_none {s : Bytes} : find s = none ↔ csi.hasIntroducer s = false := by
  induction s with
  | nil => simp [find, Escapes.hasIntroducer]
  | cons a s ih =>
    rw [find, Escapes.hasIntroducer]
    cases csi.introduces (a :: s) <;> simp [ih]

theorem idxOf?_append_cons {a : UInt8} {s : Bytes} (h : a ∉ s) (t : Bytes) :
    (s ++ a :: t).idxOf? a = some s.length := by
  induction s with
  | nil => simp [List.idxOf?_cons]
  | cons b s ih =>
    rw [List.mem_cons, not_or] at h
    have hb : (b == a) = false := beq_eq_false_iff_ne.mpr (Ne.symm h.1)
    rw [List.cons_append, List.idxOf?_cons, hb, ih h.2]
    rfl

/-- What a turn of the loop takes out, if the first sequence is complete. -/
theorem erases_find {s s' : Bytes} (h : csi.Erases s s') : ∃ i k, find s = some i ∧
    (s.drop i).idxOf? 109 = some k ∧ s' = s.take i ++ s.drop (i + (k + 1)) := by
  induction h with
  | @here params t hp =>
    refine ⟨0, params.length + 2, ?_, ?_, ?_⟩
    · rw [find, if_pos (Escapes.introduces_iff.mpr ⟨_, rfl⟩)]
    · have hno : (109 : UInt8) ∉ csi.esc :: csi.bracket :: params := by
        intro hmem
        rcases List.mem_cons.mp hmem with he | hmem
        · cases he
        rcases List.mem_cons.mp hmem with hb | hmem
        · cases hb
        · cases hp _ hmem
      exact idxOf?_append_cons hno t
    · simp
  | @cons a s s' ha h ih =>
    obtain ⟨i, k, hi, hk, rfl⟩ := ih
    refine ⟨i + 1, k, ?_, hk, ?_⟩
    · rw [find, ha, hi]
      rfl
    · rw [Nat.add_right_comm]
      rfl

theorem erases_eraseAt {s s' : Bytes} (h : csi.Erases s s') (hs : s.length < 2 ^ 64) :
    ∃ i, find s = some i ∧ eraseAt s i = s' := by
  obtain ⟨i, k, hi, hk, rfl⟩ := erases_find h
  obtain ⟨hlen, -⟩ := List.idxOf?_eq_some_iff.mp hk
  rw [List.length_drop] at hlen
  refine ⟨i, hi, ?_⟩
  simp only [eraseAt, hk, Option.map_some, Option.getD_some]
  rw [Nat.add_sub_cancel, Nat.mod_eq_of_lt (by omega)]

/-- In a clean text the loop ends, and takes out what it should. -/
theorem strip_clean {s : Bytes} (h : csi.Clean s) (hs : s.length < 2 ^ 64) :
    ∃ fuel, strip fuel s = some (csi.remove s) := by
  induction hn : s.length using Nat.strong_induction_on generalizing s with
  | _ n ih =>
    rcases h.cases with ⟨hno, heq⟩ | ⟨s', he, hclean, heq⟩
    · refine ⟨1, ?_⟩
      rw [strip, find_eq_none.mpr hno, heq]
    · have hlt := he.length_lt
      obtain ⟨fuel, hfuel⟩ := ih s'.length (by omega) hclean (by omega) rfl
      obtain ⟨i, hi, hs'⟩ := erases_eraseAt he hs
      refine ⟨fuel + 1, ?_⟩
      rw [strip, hi]
      dsimp only
      rw [hs', hfuel, heq]

/-- What the loop ends in has no introducer. -/
theorem strip_done {fuel : Nat} {s r : Bytes} (h : strip fuel s = some r) :
    csi.hasIntroducer r = false := by
  induction fuel generalizing s with
  | zero => cases h
  | succ fuel ih =>
    rw [strip] at h
    cases hf : find s with
    | none =>
      rw [hf] at h
      obtain rfl := Option.some.inj h
      exact find_eq_none.mp hf
    | some i =>
      rw [hf] at h
      exact ih h

/-! ## The line without its colours -/

/-- It has no introducer and no end. -/
structure Visible (s : Bytes) : Prop where
  no_esc : csi.esc ∉ s
  no_end : 0 ∉ s

theorem visible_iff {s : Bytes} : Visible s ↔ csi.esc ∉ s ∧ 0 ∉ s :=
  ⟨fun h => ⟨h.no_esc, h.no_end⟩, fun h => ⟨h.1, h.2⟩⟩

instance (s : Bytes) : Decidable (Visible s) := decidable_of_iff _ visible_iff.symm

theorem visible_append {s t : Bytes} : Visible (s ++ t) ↔ Visible s ∧ Visible t := by
  simp only [visible_iff, List.mem_append, not_or]
  exact and_and_and_comm

theorem visible_decimal (n : Nat) : Visible (decimal n) :=
  ⟨fun h => absurd (decimal_all n _ h) (by decide),
    fun h => absurd (decimal_all n _ h) (by decide)⟩

theorem visible_decimalInt (n : Int) : Visible (decimalInt n) := by
  unfold decimalInt
  split
  · exact visible_append (s := [45]).mpr ⟨by decide, visible_decimal _⟩
  · exact visible_decimal _

theorem visible_padded (k n : Nat) : Visible (padded k n) := by
  refine visible_append.mpr ⟨⟨?_, ?_⟩, visible_decimal n⟩
  · intro h
    cases List.eq_of_mem_replicate h
  · intro h
    cases List.eq_of_mem_replicate h

theorem visible_date (stime : Tm) : Visible (date stime) := by
  have hascii : Visible (ascii "[") ∧ Visible (ascii "-") ∧ Visible (ascii " ") ∧
      Visible (ascii ":") := by decide
  simp [date, visible_append, visible_decimalInt, visible_padded, hascii]

/-- A colour leaves nothing. -/
theorem remove_colour (params : Bytes) {c : Bytes}
    (hc : c = csi.esc :: csi.bracket :: (params ++ [109]))
    (hp : params.all csi.param = true) (t : Bytes) :
    csi.remove (c ++ t) = csi.remove t := by
  have hsplit : c ++ t = csi.esc :: csi.bracket :: (params ++ csi.final :: t) := by
    rw [hc, List.cons_append, List.cons_append, List.append_assoc]
    rfl
  rw [hsplit, Escapes.remove_sequence (List.all_eq_true.mp hp)]

theorem remove_CLEAR (t : Bytes) : csi.remove (CLEAR ++ t) = csi.remove t :=
  remove_colour (ascii "0") (by decide) (by decide) t

theorem remove_BLACK_BOLD_S (t : Bytes) : csi.remove (BLACK_BOLD_S ++ t) = csi.remove t :=
  remove_colour (ascii "1;38;5;246") (by decide) (by decide) t

theorem remove_colorOf (level : Level) (t : Bytes) :
    csi.remove (colorOf level ++ t) = csi.remove t := by
  cases level with
  | NONE => rfl
  | EMERG => exact remove_colour (ascii "1;38;5;203") (by decide) (by decide) t
  | ALERT => exact remove_colour (ascii "1;38;5;203") (by decide) (by decide) t
  | CRIT => exact remove_colour (ascii "1;38;5;203") (by decide) (by decide) t
  | ERR => exact remove_colour (ascii "38;5;167") (by decide) (by decide) t
  | WARNING => exact remove_colour (ascii "38;5;179") (by decide) (by decide) t
  | NOTICE => exact remove_colour (ascii "1;38;5;231") (by decide) (by decide) t
  | INFO => rfl
  | DEBUG => exact remove_colour (ascii "38;5;245") (by decide) (by decide) t

/-- What is in front of a line without its colours. -/
def plainFront (level : Level) (stime : Tm) (ms : Nat) : Bytes :=
  if level = .NONE then [] else date stime ++ (ascii "." ++ padded 3 (ms % 1000) ++ ascii "] ")

theorem visible_plainFront (level : Level) (stime : Tm) (ms : Nat) :
    Visible (plainFront level stime ms) := by
  unfold plainFront
  split
  · exact ⟨List.not_mem_nil, List.not_mem_nil⟩
  · have hascii : Visible (ascii ".") ∧ Visible (ascii "] ") := by decide
    simp [visible_append, visible_date, visible_padded, hascii]

theorem remove_front_append (level : Level) (stime : Tm) (ms : Nat) (t : Bytes) :
    csi.remove (front level stime ms ++ t) = plainFront level stime ms ++ csi.remove t := by
  unfold front plainFront
  split
  · rfl
  · have hclose : Visible (ascii "] ") := by decide
    have hms : Visible (ascii "." ++ padded 3 (ms % 1000)) :=
      visible_append.mpr ⟨by decide, visible_padded 3 _⟩
    simp only [stamp, List.append_assoc (date stime)]
    rw [Escapes.remove_append (visible_date stime).no_esc, List.append_assoc BLACK_BOLD_S,
      remove_BLACK_BOLD_S, List.append_assoc (ascii "." ++ padded 3 (ms % 1000)),
      Escapes.remove_append hms.no_esc, List.append_assoc CLEAR, remove_CLEAR,
      Escapes.remove_append hclose.no_esc]
    simp only [List.append_assoc]

theorem remove_front (level : Level) (stime : Tm) (ms : Nat) :
    csi.remove (front level stime ms) = plainFront level stime ms := by
  have h := remove_front_append level stime ms []
  rw [List.append_nil] at h
  rw [h]
  exact List.append_nil _

/-- The offset in the plain line. -/
theorem length_plainFront (level : Level) (stime : Tm) (ms : Nat) :
    (plainFront level stime ms).length =
      if (front level stime ms).length ≠ 0 then (front level stime ms).length - kTimestampColorLen
      else 0 := by
  unfold front plainFront
  split
  · rfl
  · have hstamp := length_stamp stime ms
    have hms := length_padded (k := 3) (n := ms % 1000) (by decide) (by omega)
    have hlen : (ascii ".").length = 1 ∧ (ascii "] ").length = 2 ∧ kTimestampColorLen = 17 := by
      decide
    rw [if_pos (by omega)]
    simp only [List.length_append]
    omega

/-- **The whole line without its colours.** -/
theorem remove_whole (level : Level) (stime : Tm) (ms : Nat) (m : Bytes) :
    csi.remove (whole level stime ms m) = plainFront level stime ms ++
      (csi.remove (body (room level stime ms) m) ++ [10]) := by
  have hend : csi.remove ending = [10] := by
    rw [ending, remove_CLEAR]
    decide
  have hesc : ending = csi.esc :: ending.tail := rfl
  rw [whole, List.append_assoc, List.append_assoc, remove_front_append, remove_colorOf, hesc,
    Escapes.remove_append_esc, ← hesc, hend]

theorem clean_whole (level : Level) (stime : Tm) (ms : Nat) (m : Bytes) :
    csi.Clean (whole level stime ms m) ↔ csi.Clean (body (room level stime ms) m) := by
  rw [Escapes.Clean, remove_whole,
    Escapes.hasIntroducer_append (visible_plainFront level stime ms).no_esc,
    Escapes.hasIntroducer_concat (by decide), Escapes.Clean]

theorem no_end_front (level : Level) (stime : Tm) (ms : Nat) : 0 ∉ front level stime ms := by
  unfold front
  split
  · exact List.not_mem_nil
  · have hno : 0 ∉ BLACK_BOLD_S ∧ 0 ∉ ascii "." ∧ 0 ∉ CLEAR ∧ 0 ∉ ascii "] " := by decide
    have hdate := (visible_date stime).no_end
    have hms := (visible_padded 3 (ms % 1000)).no_end
    simp only [stamp, List.mem_append, not_or]
    exact ⟨hdate, hno.1, ⟨hno.2.1, hms⟩, hno.2.2⟩

theorem no_end_colorOf (level : Level) : 0 ∉ colorOf level := by
  cases level <;> decide

/-- The ends in a line are those in the message. -/
theorem no_end_whole (level : Level) (stime : Tm) (ms : Nat) (m : Bytes) :
    0 ∉ whole level stime ms m ↔ m.length < room level stime ms ∧ 0 ∉ m := by
  have hfront := no_end_front level stime ms
  have hcolor := no_end_colorOf level
  have hend : 0 ∉ ending := by decide
  simp only [whole, List.mem_append, not_or, hfront, hcolor, hend, not_false_eq_true, true_and,
    and_true]
  unfold body
  split
  case isTrue h => exact ⟨fun hm => ⟨h, hm⟩, And.right⟩
  case isFalse h => simp [h]

theorem length_whole_le (level : Level) (stime : Tm) (ms : Nat) (m : Bytes) :
    (whole level stime ms m).length ≤ kMaxBufferSize := by
  have hfront := length_front_le level stime ms
  have hcolor := length_colorOf_le level
  have hK : kMaxBufferSize = 16384 := rfl
  have hroom : room level stime ms = kMaxBufferSize - (front level stime ms).length - 32 := rfl
  have hbody := length_body (n := room level stime ms) (by omega) m
  simp only [whole, List.length_append, hbody, length_ending]
  omega

/-! ## The strings -/

theorem cstr_append_end (s t : Bytes) : cstr (s ++ 0 :: t) = cstr s := by
  induction s with
  | nil => rfl
  | cons c s ih =>
    unfold cstr at ih ⊢
    rw [List.cons_append, List.takeWhile_cons, List.takeWhile_cons, ih]

theorem length_cstr {s : Bytes} : (cstr s).length = s.length ↔ 0 ∉ s := by
  constructor
  · intro h hmem
    have hs : cstr s = s := (List.takeWhile_prefix _).eq_of_length h
    rw [← hs] at hmem
    have := List.mem_takeWhile_imp hmem
    simp at this
  · intro h
    refine congrArg List.length (List.takeWhile_eq_self_iff.mpr fun c hc => ?_)
    exact decide_eq_true fun h0 => h (h0 ▸ hc)

theorem cstr_of_length {s : Bytes} (h : (cstr s).length = s.length) : cstr s = s :=
  (List.takeWhile_prefix _).eq_of_length h

theorem endsInNewline_concat {s : Bytes} : EndsInNewline (s ++ [10]) ↔ s.getLast? ≠ some 10 := by
  constructor
  · rintro ⟨t, ht, hlast⟩
    rw [List.append_cancel_right ht]
    exact hlast
  · exact fun h => ⟨s, rfl, h⟩

theorem coloured_newline (level : Level) (stime : Tm) (ms : Nat) (m : Bytes) :
    EndsInNewline (whole level stime ms m) := by
  have hend : ending = CLEAR ++ [10] := by decide
  rw [whole, hend, ← List.append_assoc]
  refine endsInNewline_concat.mpr ?_
  rw [List.getLast?_append_of_ne_nil _ (by decide)]
  decide

theorem plain_newline (level : Level) (stime : Tm) (ms : Nat) (r : Bytes) :
    EndsInNewline (plainFront level stime ms ++ (r ++ [10])) ↔ r.getLast? ≠ some 10 := by
  rw [← List.append_assoc, endsInNewline_concat]
  rcases List.eq_nil_or_concat r with rfl | ⟨r, c, rfl⟩
  · have hlast : (plainFront level stime ms).getLast? ≠ some 10 := by
      unfold plainFront
      split
      · decide
      · have hclose : ascii "] " ≠ [] := by decide
        rw [← List.append_assoc, List.getLast?_append_of_ne_nil _ hclose]
        decide
    simp [hlast]
  · rw [List.getLast?_append_of_ne_nil _ (by simp)]

/-! ## Which messages -/

/-- What is made of a message. -/
def made (buf : Bytes) (level : Level) (stime : Tm) (ms : Nat) (m txt : Bytes) : Text × Text :=
  ({ line := buf
     offset := (front level stime ms).length
     size := (whole level stime ms m).length
     colors := true },
   { line := txt ++ [0]
     offset := (plainFront level stime ms).length
     size := txt.length
     colors := false })

variable (d : LogPrivate) {background : Bool} (level : Level) (stime : Tm) (ms : Nat)

theorem texts_spec (hb : ¬(background = true ∧ d.m_backends = 0)) {m : Bytes}
    (hm : m.length < 2 ^ 31) : ∃ buf, cstr buf = cstr (whole level stime ms m) ∧
      ∀ fuel, texts fuel d background level stime ms (some m) =
        (strip fuel (cstr (whole level stime ms m))).map fun txt =>
          (buf, some (made buf level stime ms m txt)) := by
  obtain ⟨buf, hline, -, rest, hrest⟩ := line_spec d level stime ms hm
  have hmem : 0 ∈ buf := by
    rw [← hrest]
    simp
  have hcstr : cstr buf = cstr (whole level stime ms m) := by
    rw [← hrest, List.append_assoc]
    exact cstr_append_end _ rest
  refine ⟨buf, hcstr, fun fuel => ?_⟩
  simp only [texts, if_neg hb, hline, Option.bind_eq_bind, Option.bind_some, hmem,
    not_true_eq_false, if_false, hcstr, made, length_plainFront]
  cases strip fuel (cstr (whole level stime ms m)) <;> rfl

theorem body_of_no_end {m : Bytes} (h : 0 ∉ whole level stime ms m) :
    body (room level stime ms) m = m :=
  if_pos ((no_end_whole level stime ms m).mp h).1

theorem wellFormed_made {buf m txt : Bytes} (hbuf : cstr buf = cstr (whole level stime ms m)) :
    WellFormed (front level stime ms) (made buf level stime ms m txt).1
        (made buf level stime ms m txt).2 ↔
      0 ∉ whole level stime ms m ∧ 0 ∉ txt ∧ txt = csi.remove (whole level stime ms m) ∧
        (csi.remove m).getLast? ≠ some 10 := by
  have hplain : cstr (txt ++ [0]) = cstr txt := cstr_append_end txt []
  constructor
  · intro h
    have hsize := h.coloured_size
    have hsize' := h.plain_size
    have heq := h.plain_eq
    have hnewline := h.plain_newline
    simp only [made, hbuf, hplain] at hsize hsize' heq hnewline
    rw [cstr_of_length hsize'] at heq hnewline
    rw [cstr_of_length hsize] at heq
    have hno := length_cstr.mp hsize
    refine ⟨hno, length_cstr.mp hsize', heq, ?_⟩
    rw [heq, remove_whole, body_of_no_end level stime ms hno] at hnewline
    exact (plain_newline level stime ms _).mp hnewline
  · rintro ⟨hno, hno', heq, hlast⟩
    have hsize := length_cstr.mpr hno
    have hsize' := length_cstr.mpr hno'
    have hwhole := cstr_of_length hsize
    have htxt := cstr_of_length hsize'
    have hsplit := remove_whole level stime ms m
    rw [body_of_no_end level stime ms hno] at hsplit
    constructor <;> simp only [made, hbuf, hplain, hwhole, htxt, remove_front]
    · exact coloured_newline level stime ms m
    · rw [heq, hsplit]
      exact (plain_newline level stime ms _).mpr hlast
    · exact heq
    · rw [heq, hsplit]
      exact List.prefix_append _ _

/-- The plain line has an end only where the message has one. -/
theorem no_end_remove {s : Bytes} (h : 0 ∉ s) : 0 ∉ csi.remove s :=
  fun hmem => h (Escapes.remove_sublist.subset hmem)

variable {d level stime ms}

/-- A message that is printed well has nothing the code does not care for. -/
theorem Prints.suits {m : Bytes} (h : Prints d background level stime ms (some m))
    (hb : ¬(background = true ∧ d.m_backends = 0)) (hm : m.length < 2 ^ 31) :
    Suits level stime ms m := by
  obtain ⟨buf, hcstr, htexts⟩ := texts_spec d level stime ms hb hm
  obtain ⟨fuel, buf', calls, hprint, hwell⟩ := h
  rw [print, htexts] at hprint
  cases hstrip : strip fuel (cstr (whole level stime ms m)) with
  | none =>
    rw [hstrip] at hprint
    cases hprint
  | some txt =>
    have htext := htexts fuel
    rw [hstrip, Option.map_some] at htext hprint
    obtain ⟨rfl, -⟩ := Prod.mk.inj (Option.some.inj hprint)
    have hmade := hwell _ _ htext
    obtain ⟨hno, -, heq, hlast⟩ := (wellFormed_made level stime ms hcstr).mp hmade
    obtain ⟨hshort, hno_m⟩ := (no_end_whole level stime ms m).mp hno
    refine ⟨hshort, hno_m, ?_, hlast⟩
    have hclean := strip_done hstrip
    rw [heq] at hclean
    have hbody := (clean_whole level stime ms m).mp hclean
    rwa [body_of_no_end level stime ms hno] at hbody

/-- The others are printed well. -/
theorem Suits.prints {m : Bytes} (h : Suits level stime ms m)
    (hb : ¬(background = true ∧ d.m_backends = 0)) (hm : m.length < 2 ^ 31) :
    Prints d background level stime ms (some m) := by
  obtain ⟨buf, hcstr, htexts⟩ := texts_spec d level stime ms hb hm
  have hno := (no_end_whole level stime ms m).mpr ⟨h.short, h.no_end⟩
  have hclean : csi.Clean (whole level stime ms m) := by
    rw [clean_whole, body_of_no_end level stime ms hno]
    exact h.clean
  have hlen := length_whole_le level stime ms m
  have hK : kMaxBufferSize = 16384 := rfl
  obtain ⟨fuel, hstrip⟩ := strip_clean hclean (by omega)
  have htext := htexts fuel
  rw [cstr_of_length (length_cstr.mpr hno), hstrip, Option.map_some] at htext
  refine ⟨fuel, buf, handOut d.m_backends ms level _, by rw [print, htext, Option.map_some], ?_⟩
  intro coloured plain hsome
  rw [htext] at hsome
  obtain ⟨-, hpair⟩ := Prod.mk.inj (Option.some.inj hsome)
  obtain ⟨rfl, rfl⟩ := Prod.mk.inj (Option.some.inj hpair)
  exact (wellFormed_made level stime ms hcstr).mpr ⟨hno, no_end_remove hno, rfl, h.newline⟩

/-- Where there is nothing to hand out. -/
theorem prints_of_quiet {message : Option Bytes} {buf : Bytes}
    (h : texts 0 d background level stime ms message = some (buf, none)) :
    Prints d background level stime ms message := by
  refine ⟨0, buf, [], ?_, ?_⟩
  · rw [print, h]
    rfl
  · intro coloured plain hsome
    rw [h] at hsome
    cases hsome

/-- **Which messages are printed well.** Nothing is printed in the background without a
backend, and where the message fails; any other message has to suit. -/
theorem print_iff (d : LogPrivate) (background : Bool) (level : Level) (stime : Tm) (ms : Nat)
    (message : Option Bytes) :
    Prints d background level stime ms message ↔
      (background = true ∧ d.m_backends = 0) ∨
        (∀ m, message = some m → 2 ^ 31 ≤ m.length) ∨
          ∃ m, message = some m ∧ Suits level stime ms m := by
  by_cases hb : background = true ∧ d.m_backends = 0
  case pos => exact ⟨fun _ => .inl hb, fun _ => prints_of_quiet (if_pos hb)⟩
  by_cases hm : ∀ m, message = some m → 2 ^ 31 ≤ m.length
  case pos =>
    obtain ⟨buf, hline⟩ := line_failed d level stime ms hm
    have htexts : texts 0 d background level stime ms message = some (buf, none) := by
      rw [texts, if_neg hb, hline]
      rfl
    exact ⟨fun _ => .inr (.inl hm), fun _ => prints_of_quiet htexts⟩
  push Not at hm
  obtain ⟨m, rfl, hm⟩ := hm
  constructor
  · exact fun h => .inr (.inr ⟨m, rfl, h.suits hb hm⟩)
  · rintro (h | h | ⟨m', hm', hs⟩)
    · exact absurd h hb
    · exact absurd (h m rfl) (by omega)
    · obtain rfl := Option.some.inj hm'
      exact hs.prints hb hm

/-- An error text of a pool that is too long, and one with a sequence that is no colour. -/
theorem print_fails :
    ¬ Prints {} false .ERR epoch 0 (some (List.replicate 20000 97)) ∧
      ¬ Prints {} false .ERR epoch 0 (some (ascii "\x1B[Kpool error: memory")) := by
  have hb : ¬(false = true ∧ ({} : LogPrivate).m_backends = 0) := by decide
  constructor
  · intro h
    have hshort := (h.suits hb (by rw [List.length_replicate]; decide)).short
    rw [List.length_replicate] at hshort
    have hK : kMaxBufferSize = 16384 := rfl
    omega
  · intro h
    have hclean := (h.suits hb (by decide)).clean
    revert hclean
    unfold Escapes.Clean
    decide

/-! ## A loop that does not end -/

/-- Where there is no `m` behind an introducer at the front, nothing is taken out. -/
theorem strip_endless {s : Bytes} (hf : csi.introduces s = true) (hm : 109 ∉ s) (fuel : Nat) :
    strip fuel s = none := by
  obtain ⟨t, rfl⟩ := Escapes.introduces_iff.mp hf
  have hsame : eraseAt (csi.esc :: csi.bracket :: t) 0 = csi.esc :: csi.bracket :: t := by
    have hnone := List.idxOf?_eq_none_iff.mpr hm
    simp only [eraseAt, List.drop_zero, hnone, Option.map_none, Option.getD_none]
    rfl
  induction fuel with
  | zero => rfl
  | succ fuel ih =>
    rw [strip, find, if_pos hf]
    dsimp only
    rw [hsame, ih]

/-- **A cut message without a time that begins with an introducer.** The loop takes nothing
out, for ever. -/
theorem print_endless {r : Bytes} (hr : 109 ∉ r) (hb : ¬(background = true ∧ d.m_backends = 0))
    (hlong : room .NONE stime ms ≤ (CSI ++ r).length) (hfits : (CSI ++ r).length < 2 ^ 31)
    (fuel : Nat) : print fuel d background .NONE stime ms (some (CSI ++ r)) = none := by
  obtain ⟨buf, -, htexts⟩ := texts_spec d .NONE stime ms hb hfits
  have hcut : whole .NONE stime ms (CSI ++ r) = CSI ++ r.take 16349 ++ 0 :: ending := by
    have hbody : body (room .NONE stime ms) (CSI ++ r) = (CSI ++ r).take 16351 ++ [0] :=
      if_neg (by omega)
    have hsplit : whole .NONE stime ms (CSI ++ r) = CSI ++ r.take 16349 ++ [0] ++ ending := by
      rw [whole, hbody]
      rfl
    rw [hsplit, List.append_assoc]
    rfl
  have hstrip : strip fuel (cstr (whole .NONE stime ms (CSI ++ r))) = none := by
    rw [hcut, cstr_append_end]
    refine strip_endless (Escapes.introduces_iff.mpr ⟨cstr (r.take 16349), rfl⟩) ?_ fuel
    intro hmem
    have hcsi : 109 ∉ CSI := by decide
    have hpre : cstr (CSI ++ r.take 16349) <+: CSI ++ r.take 16349 := List.takeWhile_prefix _
    rcases List.mem_append.mp (hpre.subset hmem) with h | h
    · exact hcsi h
    · exact hr (List.mem_of_mem_take h)
  rw [print, htexts, hstrip]
  rfl

end Rxs.L2.Log
