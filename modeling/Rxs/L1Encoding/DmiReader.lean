import Rxs.Core.Buffer
import Rxs.L1Encoding.Json

/-!
# SMBIOS tables

A table is a row of structures: a header of four bytes, the rest of the formatted area, of
which the header has the length, and strings up to two zeros. `DmiReader::decode` goes from
one to the next and takes what it needs from the system, the board and the memory devices;
`dmi_string` replaces what is no printable character, in the table.

Offsets are kept in 32 bits where they are compared with the size of the table.

* **`keeps_visit`**: a structure whose strings end in the table is visited without an access
  outside, and without a change behind it.
-/
namespace Rxs.L1.Dmi

open Rxs.Core Rxs.Core.Buffer

/-! ## Tools -/

/-- mirrors src/hw/dmi/DmiTools.h:32-38 -/
structure DmiHeader where
  type : UInt8
  length : UInt8
  handle : Nat
  data : Nat
  deriving DecidableEq, Repr

/-- `k` bytes as a number.
mirrors src/hw/dmi/DmiTools.h:47-52 -/
def dmi_get (size k i : Nat) : Access Nat := do
  let s ← readBytes size i k
  pure (Bytes.readLE s)

/-- mirrors src/hw/dmi/DmiReader.cpp:30-36 -/
def dmi_get_header (size data : Nat) : Access DmiHeader := do
  let type ← read size data
  let length ← read size (data + 1)
  let handle ← dmi_get size 2 (data + 2)
  pure ⟨type, length, handle, data⟩

/-- mirrors src/hw/dmi/DmiTools.cpp:31-39 -/
def ascii_filter (size : Nat) : Nat → Nat → Access Unit
  | _, 0 => pure ()
  | bp, len + 1 => do
    let b ← read size bp
    if b < 32 ∨ 127 ≤ b then write size bp 46
    ascii_filter size (bp + 1) len

/-- The `s`-th string, or the place where there is none.
mirrors src/hw/dmi/DmiTools.cpp:46-51 -/
def skip (size : Nat) : Nat → Nat → Access Nat
  | s + 2, bp => do
    let b ← read size bp
    if b ≠ 0 then
      let n ← strlen size bp
      skip size (s + 1) (bp + n + 1)
    else pure bp
  | _, bp => pure bp

/-- The offset of a string.
mirrors src/hw/dmi/DmiTools.cpp:42-72 -/
def dmi_string (size : Nat) (dm : DmiHeader) (offset : Nat) : Access (Option Nat) :=
  if offset < 4 then pure none
  else do
    let s ← read size (dm.data + offset)
    let bp ← skip size s.toNat (dm.data + dm.length.toNat)
    let b ← read size bp
    if b = 0 then pure none
    else
      let n ← strlen size bp
      ascii_filter size bp n
      pure (some bp)

/-- mirrors src/base/tools/String.cpp:210-225 -/
def copy (size : Nat) : Option Nat → Access (Option Bytes)
  | none => pure none
  | some str => do
    let s ← readString size str
    pure (some s)

/-! ## A board -/

/-- mirrors src/hw/dmi/DmiBoard.h:37-52 -/
structure DmiBoard where
  m_product : Option Bytes := none
  m_vendor : Option Bytes := none
  deriving DecidableEq, Repr

/-- mirrors src/hw/dmi/DmiBoard.cpp:27-35 -/
def DmiBoard.decode (size : Nat) (b : DmiBoard) (h : DmiHeader) : Access DmiBoard :=
  if h.length < 0x08 then pure b
  else do
    let vendor ← copy size (← dmi_string size h 0x04)
    let product ← copy size (← dmi_string size h 0x05)
    pure { m_vendor := vendor, m_product := product }

/-! ## A memory device -/

/-- mirrors src/hw/dmi/DmiMemory.h:63-77 -/
structure DmiMemory where
  m_bank : Option Bytes := none
  m_id : Option Bytes := none
  m_product : Option Bytes := none
  m_slot : Option Bytes := none
  m_vendor : Option Bytes := none
  m_totalWidth : Nat := 0
  m_voltage : Nat := 0
  m_width : Nat := 0
  m_size : Nat := 0
  m_speed : Nat := 0
  m_formFactor : UInt8 := 0
  m_rank : UInt8 := 0
  m_type : UInt8 := 0
  deriving DecidableEq, Repr

namespace DmiMemory

/-- mirrors src/hw/dmi/DmiMemory.cpp:39-42 -/
def dmi_memory_device_width (code : Nat) : Nat := if code = 0xffff ∨ code = 0 then 0 else code

/-- mirrors src/hw/dmi/DmiMemory.cpp:124-127 -/
def dmi_memory_device_speed (code1 code2 : Nat) : Nat := if code1 = 0xffff then code2 else code1

def isDigit (c : UInt8) : Bool := 48 ≤ c && c ≤ 57

/-- `\d+`. -/
def isNumber (s : Bytes) : Bool := !s.isEmpty && s.all isDigit

/-- `^Channel([A-Z])[-_]DIMM(\d+)$` in any case, `CHANNEL ([A-Z])$` and `^DIMM (\d+)$`.
mirrors src/hw/dmi/DmiMemory.cpp:237-248 -/
def idOf (slot bank : Bytes) : Option (Bytes × Bytes) :=
  let letter := (slot.drop 7).take 1
  let last := bank.drop (bank.length - 1)
  if (slot.take 7).map lower = ascii "channel" ∧
      letter.any (fun c => 97 ≤ lower c && lower c ≤ 122) ∧
      ((slot.drop 8).take 1 = ascii "-" ∨ (slot.drop 8).take 1 = ascii "_") ∧
      ((slot.drop 9).take 4).map lower = ascii "dimm" ∧ isNumber (slot.drop 13) then
    some (letter, slot.drop 13)
  else if 9 ≤ bank.length ∧ (bank.drop (bank.length - 9)).take 8 = ascii "CHANNEL " ∧
      last.any (fun c => 65 ≤ c && c ≤ 90) ∧
      slot.take 5 = ascii "DIMM " ∧ isNumber (slot.drop 5) then
    some (last, slot.drop 5)
  else none

/-- mirrors src/hw/dmi/DmiMemory.cpp:228-249 -/
def setId (size : Nat) (d : DmiMemory) (slot bank : Option Nat) : Access DmiMemory := do
  let m_slot ← copy size slot
  let m_bank ← copy size bank
  let d := { d with m_slot := m_slot, m_bank := m_bank }
  match m_slot, m_bank with
  | some s, some b =>
    pure { d with m_id := (idOf s b).map fun id => ascii "DIMM_" ++ id.1 ++ id.2 }
  | _, _ => pure d

/-- mirrors src/hw/dmi/DmiMemory.cpp:143-149 -/
def readSize (size : Nat) (h : DmiHeader) : Access Nat := do
  let n ← dmi_get size 2 (h.data + 0x0c)
  if h.length ≥ 0x20 ∧ n = 0x7fff then
    let n ← dmi_get size 4 (h.data + 0x1c)
    pure ((n &&& 0x7fffffff) * 1024 * 1024)
  else if n ≠ 0 then
    pure (1024 * (n &&& 0x7fff) * (if n &&& 0x8000 ≠ 0 then 1 else 1024))
  else pure 0

def readSpeed (size : Nat) (h : DmiHeader) (offset extended : Nat) : Access Nat := do
  let code1 ← dmi_get size 2 (h.data + offset)
  if h.length ≥ 0x5c then
    let code2 ← dmi_get size 4 (h.data + extended)
    pure (dmi_memory_device_speed code1 code2 * 1000000)
  else pure (dmi_memory_device_speed code1 0 * 1000000)

/-- The rank, the configured speed and the voltage.
mirrors src/hw/dmi/DmiMemory.cpp:169-186 -/
def readRest (size : Nat) (d : DmiMemory) (h : DmiHeader) : Access DmiMemory :=
  if h.length < 0x1c then pure d
  else do
    let rank ← read size (h.data + 0x1b)
    let d := { d with m_rank := rank &&& 0x0f }
    if h.length < 0x22 then pure d
    else
      let configuredSpeed ← readSpeed size h 0x20 0x58
      let d := { d with
        m_speed := if configuredSpeed ≠ 0 then configuredSpeed else d.m_speed }
      if h.length < 0x28 then pure d
      else
        let voltage ← dmi_get size 2 (h.data + 0x26)
        pure { d with m_voltage := voltage }

/-- mirrors src/hw/dmi/DmiMemory.cpp:134-187 -/
def ofHeader (size : Nat) (h : DmiHeader) : Access DmiMemory :=
  if h.length < 0x15 then pure {}
  else do
    let totalWidth ← dmi_get size 2 (h.data + 0x08)
    let width ← dmi_get size 2 (h.data + 0x0a)
    let m_size ← readSize size h
    let slot ← dmi_string size h 0x10
    let bank ← dmi_string size h 0x11
    let d ← setId size
      { m_totalWidth := dmi_memory_device_width totalWidth
        m_width := dmi_memory_device_width width
        m_size := m_size } slot bank
    let formFactor ← read size (h.data + 0x0e)
    let type ← read size (h.data + 0x12)
    let d := { d with m_formFactor := formFactor, m_type := type }
    if m_size = 0 ∨ h.length < 0x17 then pure d
    else
      let speed ← readSpeed size h 0x15 0x54
      let d := { d with m_speed := speed }
      if h.length < 0x1b then pure d
      else
        let vendor ← copy size (← dmi_string size h 0x17)
        let product ← copy size (← dmi_string size h 0x1a)
        readRest size { d with m_vendor := vendor, m_product := product } h

end DmiMemory

/-! ## The reader -/

/-- mirrors src/hw/dmi/DmiReader.h:63-65 -/
structure DmiReader where
  m_board : DmiBoard := {}
  m_system : DmiBoard := {}
  m_memory : List DmiMemory := []
  deriving DecidableEq, Repr

/-- mirrors src/hw/dmi/DmiReader.cpp:111-126 -/
def visit (size : Nat) (r : DmiReader) (h : DmiHeader) : Access DmiReader :=
  if h.type = 1 then do
    let system ← r.m_system.decode size h
    pure { r with m_system := system }
  else if h.type = 2 then do
    let board ← r.m_board.decode size h
    pure { r with m_board := board }
  else if h.type = 17 then do
    let device ← DmiMemory.ofHeader size h
    pure { r with m_memory := r.m_memory ++ [device] }
  else pure r

/-- From `next` on, to two zeros or the end.
mirrors src/hw/dmi/DmiReader.cpp:100-103 -/
def scan (size next : Nat) : Access { n : Nat // next ≤ n } :=
  if (next + 1) % 2 ^ 32 < size then
    if _h : next < size then do
      let b ← read size next
      if b ≠ 0 then
        let n ← scan size (next + 1)
        pure ⟨n.1, Nat.le_of_succ_le n.2⟩
      else
        let b ← read size (next + 1)
        if b ≠ 0 then
          let n ← scan size (next + 1)
          pure ⟨n.1, Nat.le_of_succ_le n.2⟩
        else pure ⟨next, Nat.le_refl next⟩
    else fun _ => .error ⟨next⟩
  else pure ⟨next, Nat.le_refl next⟩
termination_by size - next

/-- `visited` are the offsets of the structures so far.
mirrors src/hw/dmi/DmiReader.cpp:92-129 -/
def loop (size : Nat) (r : DmiReader) (visited : List Nat) (data : Nat) :
    Access (DmiReader × List Nat) :=
  if _h : data + 4 ≤ size then do
    let h ← dmi_get_header size data
    if h.length < 4 ∨ h.type = 127 then pure (r, visited)
    else
      let next ← scan size (data + h.length.toNat)
      if size < (next.1 + 2) % 2 ^ 32 then pure (r, visited)
      else
        let r ← visit size r h
        loop size r (visited ++ [data]) (next.1 + 2)
  else pure (r, visited)
termination_by size - data
decreasing_by
  have := next.2
  omega

/-- mirrors src/hw/dmi/DmiReader.cpp:84-132 -/
def decode (m_size : UInt32) (buf : Option Mem) : Except Outside (Bool × DmiReader × List Nat) :=
  match buf with
  | none => .ok (false, {}, [])
  | some m => (loop m_size.toNat {} [] 0 m).map fun r => (true, r.1)

/-! ## One structure -/

section Structure

variable {size lo p i k : Nat} {m₀ : Mem} {h : DmiHeader}

theorem keeps_dmi_get {I : Mem → Prop} (hi : i + k ≤ size) :
    Keeps I (fun _ => True) (dmi_get size k i) :=
  .bind (.readBytes hi) fun _ _ => .pure trivial

/-- What is filtered has no zeros, and gets none. -/
theorem keeps_ascii_filter {len bp : Nat} (hlo : lo ≤ bp) (hp : bp + len ≤ p) (hsize : p < size)
    (hne : ∀ j < len, m₀ (bp + j) ≠ 0) :
    Keeps (Same lo p m₀) (fun _ => True) (ascii_filter size bp len) := by
  induction len generalizing bp with
  | zero => exact .pure trivial
  | succ len ih =>
    refine .bind (.read_any (by omega)) fun b _ => ?_
    have hrest : Keeps (Same lo p m₀) (fun _ => True) (ascii_filter size (bp + 1) len) := by
      refine ih (by omega) (by omega) fun j hj => ?_
      have := hne (j + 1) (by omega)
      rwa [Nat.add_assoc, Nat.add_comm 1]
    have hfirst := hne 0 (by omega)
    refine .ite (fun _ => ?_) fun _ => hrest
    refine .bind (.write (by omega) fun m hm => ?_) fun _ _ => hrest
    exact hm.update (by omega) hfirst (by decide)

/-- The strings of a structure, of which the last is before two zeros. -/
structure Area (size lo p : Nat) (m₀ : Mem) : Prop where
  le : lo ≤ p
  lt : p + 1 < size
  zeros : m₀ p = 0 ∧ m₀ (p + 1) = 0

theorem keeps_skip (A : Area size lo p m₀) {s bp : Nat} (hlo : lo ≤ bp) (hp : bp ≤ p + 1) :
    Keeps (Same lo p m₀) (fun q => lo ≤ q ∧ q ≤ p + 1) (skip size s bp) := by
  obtain ⟨hle, hlt, hzero, hzero'⟩ := A
  induction s generalizing bp with
  | zero => exact .pure ⟨hlo, hp⟩
  | succ s ih =>
    cases s with
    | zero => exact .pure ⟨hlo, hp⟩
    | succ s =>
      refine .bind (.read (by omega) (Q := fun b => b = 0 ↔ m₀ bp = 0) fun m hm => hm.zero bp)
        fun b hb => ?_
      refine .ite (fun hne => ?_) fun _ => .pure ⟨hlo, hp⟩
      have hbefore : bp < p := by
        have h₁ : bp ≠ p := fun heq => hne (hb.mpr (heq ▸ hzero))
        have h₂ : bp ≠ p + 1 := fun heq => hne (hb.mpr (heq ▸ hzero'))
        omega
      refine .bind (.strlen (fun m hm => hm.zero) (by omega) hzero (by omega)) fun n hn => ?_
      exact ih (by omega) (by omega)

/-- A string that is found begins before the two zeros. -/
theorem keeps_dmi_string (A : Area size lo p m₀) (hlo : h.data + h.length.toNat = lo)
    {offset : Nat} (ho : h.data + offset < size) :
    Keeps (Same lo p m₀) (fun q => ∀ bp ∈ q, bp ≤ p) (dmi_string size h offset) := by
  have hlt := A.lt
  refine .ite (fun _ => .pure (by simp)) fun _ => ?_
  refine .bind (.read_any ho) fun s _ => ?_
  refine .bind (keeps_skip A (by omega) (by have := A.le; omega)) fun bp hbp => ?_
  refine .bind (.read (by omega) (Q := fun b => b = 0 ↔ m₀ bp = 0) fun m hm => hm.zero bp)
    fun b hb => ?_
  refine .ite (fun _ => .pure (by simp)) fun hne => ?_
  have hbefore : bp ≤ p := by
    have : bp ≠ p + 1 := fun heq => hne (hb.mpr (heq ▸ A.zeros.2))
    omega
  refine .bind (.strlen (fun m hm => hm.zero) (by omega) A.zeros.1 hbefore) fun n hn => ?_
  refine .bind (keeps_ascii_filter hbp.1 hn.1 (by omega) hn.2.2) fun _ _ => .pure ?_
  simpa using hbefore

theorem keeps_copy (A : Area size lo p m₀) {q : Option Nat} (hq : ∀ bp ∈ q, bp ≤ p) :
    Keeps (Same lo p m₀) (fun _ => True) (copy size q) := by
  have hlt := A.lt
  cases q with
  | none => exact .pure trivial
  | some bp =>
    refine .bind (.readString (fun m hm => hm.zero) (by omega) A.zeros.1 (hq bp rfl)) fun s _ => ?_
    exact .pure trivial

/-- `m_field = dmi_string(h, offset)`. -/
theorem keeps_string (A : Area size lo p m₀) (hlo : h.data + h.length.toNat = lo) {offset : Nat}
    (ho : offset < h.length.toNat) {α : Type} {Q : α → Prop} {f : Option Bytes → Access α}
    (hf : ∀ s, Keeps (Same lo p m₀) Q (f s)) :
    Keeps (Same lo p m₀) Q (dmi_string size h offset >>= fun q => copy size q >>= f) := by
  have hle := A.le
  have hlt := A.lt
  refine .bind (keeps_dmi_string A hlo (by omega)) fun q hq => ?_
  exact .bind (keeps_copy A hq) fun s _ => hf s

theorem keeps_board (A : Area size lo p m₀) (hlo : h.data + h.length.toNat = lo) (b : DmiBoard) :
    Keeps (Same lo p m₀) (fun _ => True) (b.decode size h) := by
  refine .ite (fun _ => .pure trivial) fun hlength => ?_
  rw [UInt8.lt_iff_toNat_lt, Nat.not_lt] at hlength
  have hlength : 8 ≤ h.length.toNat := hlength
  refine keeps_string A hlo (by omega) fun vendor => ?_
  exact keeps_string A hlo (by omega) fun product => .pure trivial

theorem keeps_setId (A : Area size lo p m₀) {slot bank : Option Nat} (hs : ∀ bp ∈ slot, bp ≤ p)
    (hb : ∀ bp ∈ bank, bp ≤ p) (d : DmiMemory) :
    Keeps (Same lo p m₀) (fun _ => True) (d.setId size slot bank) := by
  refine .bind (keeps_copy A hs) fun m_slot _ => ?_
  refine .bind (keeps_copy A hb) fun m_bank _ => ?_
  cases m_slot with
  | none => exact .pure trivial
  | some s => cases m_bank <;> exact .pure trivial

section Fields

open DmiMemory

variable {I : Mem → Prop} (hsize : h.data + h.length.toNat ≤ size)

include hsize

theorem keeps_readSize (hlength : 0x15 ≤ h.length.toNat) :
    Keeps I (fun _ => True) (readSize size h) := by
  refine .bind (keeps_dmi_get (by omega)) fun n _ => ?_
  refine .ite (fun hn => ?_) fun _ => .ite (fun _ => .pure trivial) fun _ => .pure trivial
  have hextended : 0x20 ≤ h.length.toNat := hn.1
  exact .bind (keeps_dmi_get (by omega)) fun n _ => .pure trivial

theorem keeps_readSpeed {offset extended : Nat} (ho : offset + 2 ≤ h.length.toNat)
    (he : extended + 4 ≤ 0x5c) : Keeps I (fun _ => True) (readSpeed size h offset extended) := by
  refine .bind (keeps_dmi_get (by omega)) fun code1 _ => ?_
  refine .ite (fun hn => ?_) fun _ => .pure trivial
  have hextended : 0x5c ≤ h.length.toNat := hn
  exact .bind (keeps_dmi_get (by omega)) fun n _ => .pure trivial

theorem keeps_readRest (d : DmiMemory) : Keeps I (fun _ => True) (readRest size d h) := by
  refine .ite (fun _ => .pure trivial) fun hrank => ?_
  have hrank : 0x1c ≤ h.length.toNat := UInt8.not_lt.mp hrank
  refine .bind (.read_any (by omega)) fun rank _ => ?_
  refine .ite (fun _ => .pure trivial) fun hspeed => ?_
  have hspeed : 0x22 ≤ h.length.toNat := UInt8.not_lt.mp hspeed
  refine .bind (keeps_readSpeed hsize (by omega) (by omega)) fun speed _ => ?_
  refine .ite (fun _ => .pure trivial) fun hvoltage => ?_
  have hvoltage : 0x28 ≤ h.length.toNat := UInt8.not_lt.mp hvoltage
  exact .bind (keeps_dmi_get (by omega)) fun voltage _ => .pure trivial

end Fields

theorem keeps_memory (A : Area size lo p m₀) (hlo : h.data + h.length.toNat = lo) :
    Keeps (Same lo p m₀) (fun _ => True) (DmiMemory.ofHeader size h) := by
  have hle := A.le
  have hlt := A.lt
  have hsize : h.data + h.length.toNat ≤ size := by omega
  refine .ite (fun _ => .pure trivial) fun hlength => ?_
  have hlength : 0x15 ≤ h.length.toNat := UInt8.not_lt.mp hlength
  refine .bind (keeps_dmi_get (by omega)) fun totalWidth _ => ?_
  refine .bind (keeps_dmi_get (by omega)) fun width _ => ?_
  refine .bind (keeps_readSize hsize hlength) fun m_size _ => ?_
  refine .bind (keeps_dmi_string A hlo (by omega)) fun slot hslot => ?_
  refine .bind (keeps_dmi_string A hlo (by omega)) fun bank hbank => ?_
  refine .bind (keeps_setId A hslot hbank _) fun d _ => ?_
  refine .bind (.read_any (by omega)) fun formFactor _ => ?_
  refine .bind (.read_any (by omega)) fun type _ => ?_
  refine .ite (fun _ => .pure trivial) fun hspeed => ?_
  rw [not_or] at hspeed
  have hspeed : 0x17 ≤ h.length.toNat := UInt8.not_lt.mp hspeed.2
  refine .bind (keeps_readSpeed hsize (by omega) (by omega)) fun speed _ => ?_
  refine .ite (fun _ => .pure trivial) fun hnames => ?_
  have hnames : 0x1b ≤ h.length.toNat := UInt8.not_lt.mp hnames
  refine keeps_string A hlo (by omega) fun vendor => ?_
  refine keeps_string A hlo (by omega) fun product => ?_
  exact keeps_readRest hsize _

/-- A structure is visited without an access outside, and without a change behind it. -/
theorem keeps_visit (A : Area size lo p m₀) (hlo : h.data + h.length.toNat = lo) (r : DmiReader) :
    Keeps (Same lo p m₀) (fun _ => True) (visit size r h) := by
  refine .ite (fun _ => ?_) fun _ => .ite (fun _ => ?_) fun _ => .ite (fun _ => ?_) fun _ => ?_
  · exact .bind (keeps_board A hlo _) fun system _ => .pure trivial
  · exact .bind (keeps_board A hlo _) fun board _ => .pure trivial
  · exact .bind (keeps_memory A hlo) fun device _ => .pure trivial
  · exact .pure trivial

end Structure

end Rxs.L1.Dmi
