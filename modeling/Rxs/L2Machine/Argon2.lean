import Mathlib.Data.Fin.VecNotation
import Rxs.Core.Blamka
import Rxs.Core.Unwritten
import Rxs.L1Encoding.Blake2bLong

/-!
# Filling the memory of Argon2

The memory is a matrix of blocks: so many lanes, each of four segments. A block is made of the
one before it in its lane and of one that a pseudo-random word names, which is the first word of
the block before, or one of a block of addresses. A processor can have code of its own for a
segment; memory is neither cleared nor checked.

* `index_alpha_lt`, `index_alpha_first`: which blocks can be named.
* `Filled`: the blocks that there are before a position; `does_step`.
* **`fill_safe`**: no block is read before it is written, none is outside, all are written in the
  end, and what memory had before does not matter.
-/
namespace Rxs.L2.Argon2

open Rxs.Core Rxs.Core.Bytes
open Rxs.Core.Blake2b (W)
open Rxs.Core.Blamka (ROUND)
open Rxs.Core.Unwritten (Cells Prog Does Same Persists read write each)
open Rxs.L1.Blake2bLong (State hashed xmrig_ar2_blake2b_long)

def ARGON2_SYNC_POINTS : Nat := 4
def ARGON2_BLOCK_SIZE : Nat := 1024
def ARGON2_ADDRESSES_IN_BLOCK : Nat := 128
def ARGON2_PREHASH_DIGEST_LENGTH : Nat := 64
def ARGON2_VERSION_10 : Nat := 0x10

abbrev Block := Fin 128 → W

/-- mirrors src/3rdparty/argon2/include/argon2.h:209-213 -/
inductive Argon2Type where
  | d
  | i
  | id
  deriving DecidableEq, Repr

def Argon2Type.toNat : Argon2Type → Nat
  | .d => 0
  | .i => 1
  | .id => 2

/-- What `argon2_ctx_mem` makes of a context that is valid; `memory_blocks` and `lane_length` are
functions of it.
mirrors src/3rdparty/argon2/lib/core.h:73-86 -/
structure Instance where
  version : Nat
  passes : Nat
  segment_length : Nat
  lanes : Nat
  type : Argon2Type
  two_le : 2 ≤ segment_length
  lanes_pos : 0 < lanes
  fits : lanes * (segment_length * ARGON2_SYNC_POINTS) < 2 ^ 32

namespace Instance

def lane_length (inst : Instance) : Nat := inst.segment_length * ARGON2_SYNC_POINTS

def memory_blocks (inst : Instance) : Nat := inst.lanes * inst.lane_length

end Instance

structure Position where
  pass : Nat
  lane : Nat
  slice : Nat
  index : Nat

/-! ## The block that is named -/

/-- `a - b` of `uint32_t`. -/
def sub32 (a b : Nat) : Nat := (a + 2 ^ 32 - b) % 2 ^ 32

def reference_area_size (inst : Instance) (position : Position) (same_lane : Bool) : Nat :=
  if position.pass = 0 then
    if position.slice = 0 then sub32 position.index 1
    else if same_lane then
      sub32 (position.slice * inst.segment_length + position.index) 1
    else if position.index = 0 then sub32 (position.slice * inst.segment_length) 1
    else position.slice * inst.segment_length % 2 ^ 32
  else if same_lane then
    sub32 (sub32 inst.lane_length inst.segment_length + position.index) 1
  else if position.index = 0 then sub32 (sub32 inst.lane_length inst.segment_length) 1
  else sub32 inst.lane_length inst.segment_length

/-- mirrors src/3rdparty/argon2/lib/core.c:179-245 -/
def xmrig_ar2_index_alpha (inst : Instance) (position : Position) (pseudo_rand : Nat)
    (same_lane : Bool) : Nat :=
  let area := reference_area_size inst position same_lane
  let x := pseudo_rand * pseudo_rand % 2 ^ 64 / 2 ^ 32
  let relative := (sub32 area 1 + 2 ^ 64 - area * x % 2 ^ 64 / 2 ^ 32) % 2 ^ 64
  let start := if position.pass = 0 then 0
    else if position.slice = ARGON2_SYNC_POINTS - 1 then 0
    else (position.slice + 1) * inst.segment_length % 2 ^ 32
  (start + relative) % 2 ^ 64 % inst.lane_length

/-! ## A block -/

theorem row_lt (i : Fin 8) (n : Fin 16) : i.val * 16 + n.val < 128 := by omega

theorem column_lt (i : Fin 8) (n : Fin 16) : i.val * 2 + (n.val / 2 * 16 + n.val % 2) < 128 := by
  omega

/-- The places of `BLAKE2_ROUND_NOMSG1`, of the words from `i * 16` on. -/
def rowPlace (i : Fin 8) (n : Fin 16) : Fin 128 := ⟨i.val * 16 + n.val, row_lt i n⟩

/-- The places of `BLAKE2_ROUND_NOMSG2`, of the words from `i * 2` on: 0, 1, 16, 17, 32 and
so on. -/
def columnPlace (i : Fin 8) (n : Fin 16) : Fin 128 :=
  ⟨i.val * 2 + (n.val / 2 * 16 + n.val % 2), column_lt i n⟩

/-- A block of the one before it, the one that is named and, with exclusive or, the one that is
there. -/
abbrev Fill := Block → Block → Option Block → Block

/-- mirrors src/3rdparty/argon2/lib/argon2-template-64.h:48-84 -/
def fill_block : Fill := fun prev_block ref_block next_block =>
  let blockR : Block := fun k => ref_block k ^^^ prev_block k
  let block_tmp : Block := match next_block with
    | none => blockR
    | some b => fun k => blockR k ^^^ b k
  let blockR := (List.finRange 8).foldl (fun v i => ROUND (rowPlace i) v) blockR
  let blockR := (List.finRange 8).foldl (fun v i => ROUND (columnPlace i) v) blockR
  fun k => block_tmp k ^^^ blockR k

/-! ## A segment -/

section

variable (fill_block : Fill)

/-- The new block of addresses, and the input with its counter.
mirrors src/3rdparty/argon2/lib/argon2-template-64.h:86-92 -/
def next_addresses (input_block : Block) : Block × Block :=
  let input_block := Function.update input_block 6 (input_block 6 + 1)
  let address_block := fill_block (fun _ => 0) input_block none
  (fill_block (fun _ => 0) address_block none, input_block)

def data_independent_addressing (inst : Instance) (position : Position) : Bool :=
  inst.type = .i ∨ inst.type = .id ∧ position.pass = 0 ∧ position.slice < ARGON2_SYNC_POINTS / 2

def input_block (inst : Instance) (position : Position) : Block := fun k =>
  match k.val with
  | 0 => BitVec.ofNat 64 position.pass
  | 1 => BitVec.ofNat 64 position.lane
  | 2 => BitVec.ofNat 64 position.slice
  | 3 => BitVec.ofNat 64 inst.memory_blocks
  | 4 => BitVec.ofNat 64 inst.passes
  | 5 => BitVec.ofNat 64 inst.type.toNat
  | _ => 0

/-- What the loop keeps. -/
structure Loop where
  curr_offset : Nat
  prev_offset : Nat
  address_block : Block
  input_block : Block

/-- The word that names a block, and the loop's blocks behind it. -/
def pseudo_rand (inst : Instance) (position : Position) (i : Nat) (l : Loop) :
    Prog Block (W × Loop) :=
  if data_independent_addressing inst position then
    let l := if i % ARGON2_ADDRESSES_IN_BLOCK = 0 then
        let p := next_addresses fill_block l.input_block
        { l with address_block := p.1, input_block := p.2 }
      else l
    pure (l.address_block (Fin.ofNat 128 (i % ARGON2_ADDRESSES_IN_BLOCK)), l)
  else do
    let prev_block ← read inst.memory_blocks l.prev_offset
    return (prev_block 0, l)

/-- Rotating `prev_offset` if needed. -/
def rotate (inst : Instance) (l : Loop) : Loop :=
  if l.curr_offset % inst.lane_length = 1 then { l with prev_offset := l.curr_offset - 1 } else l

def ref_lane (inst : Instance) (position : Position) (pseudo_rand : W) : Nat :=
  if position.pass = 0 ∧ position.slice = 0 then position.lane
  else (pseudo_rand >>> 32).toNat % inst.lanes

/-- With exclusive or, the block that is overwritten. -/
def next_block (inst : Instance) (position : Position) (curr_offset : Nat) :
    Prog Block (Option Block) :=
  if position.pass = 0 ∨ inst.version = ARGON2_VERSION_10 then pure none
  else do
    let b ← read inst.memory_blocks curr_offset
    return some b

/-- mirrors src/3rdparty/argon2/lib/argon2-template-64.h:147-191 -/
def step (inst : Instance) (position : Position) (i : Nat) (l : Loop) : Prog Block Loop := do
  let p ← pseudo_rand fill_block inst position i (rotate inst l)
  let l := p.2
  let ref_lane := ref_lane inst position p.1
  let ref_index := xmrig_ar2_index_alpha inst { position with index := i } (p.1.toNat % 2 ^ 32)
    (ref_lane = position.lane)
  let ref_block ← read inst.memory_blocks (inst.lane_length * ref_lane + ref_index)
  let prev_block ← read inst.memory_blocks l.prev_offset
  let next_block ← next_block inst position l.curr_offset
  write inst.memory_blocks l.curr_offset (fill_block prev_block ref_block next_block)
  return { l with curr_offset := l.curr_offset + 1, prev_offset := l.prev_offset + 1 }

def starting_index (position : Position) : Nat :=
  if position.pass = 0 ∧ position.slice = 0 then 2 else 0

/-- The blocks of addresses and of their input before the loop; the first has no words before it
is made. -/
def startAddresses (inst : Instance) (position : Position) : Block × Block :=
  let input_block := input_block inst position
  if starting_index position = 2 ∧ data_independent_addressing inst position then
    next_addresses fill_block input_block
  else (fun _ => 0, input_block)

def startLoop (inst : Instance) (position : Position) : Loop :=
  let curr_offset := position.lane * inst.lane_length +
    position.slice * inst.segment_length + starting_index position
  let addresses := startAddresses fill_block inst position
  { curr_offset := curr_offset
    prev_offset := if curr_offset % inst.lane_length = 0 then curr_offset + inst.lane_length - 1
      else curr_offset - 1
    address_block := addresses.1
    input_block := addresses.2 }

/-- mirrors src/3rdparty/argon2/lib/argon2-template-64.h:94-192 -/
def fill_segment_64 (inst : Instance) (position : Position) : Prog Block Unit := do
  let starting_index := starting_index position
  let _ ← each (step fill_block inst position)
    (List.range' starting_index (inst.segment_length - starting_index))
    (startLoop fill_block inst position)
  return

end

/-- mirrors src/3rdparty/argon2/arch/x86_64/lib/argon2-arch.c:19-23 -/
def fill_segment_default (inst : Instance) (position : Position) : Prog Block Unit :=
  fill_segment_64 fill_block inst position

/-! ## The whole memory -/

def forEach (n : Nat) (body : Nat → Prog Block Unit) : Prog Block Unit :=
  each (fun i _ => body i) (List.range' 0 n) ()

/-- `fill_segment` of an implementation. -/
abbrev Segment := Instance → Position → Prog Block Unit

/-- mirrors src/3rdparty/argon2/lib/core.c:247-272 -/
def xmrig_ar2_fill_memory_blocks (fill_segment : Segment) (inst : Instance) : Prog Block Unit :=
  forEach inst.passes fun r =>
    forEach ARGON2_SYNC_POINTS fun s =>
      forEach inst.lanes fun l => fill_segment inst ⟨r, l, s, 0⟩

def load_block (input : Bytes) : Block := fun i => BitVec.ofNat 64 (readLE (slice input (8 * i.val) 8))

def store_block (b : Block) : Bytes := (List.finRange 128).flatMap fun i => le 8 (b i).toNat

section

-- what is on the stack where a hash has its state
variable (stack : State)

/-- `blockhash` has the digest; the two words behind it are set here.
mirrors src/3rdparty/argon2/lib/core.c:401-418 -/
def xmrig_ar2_fill_first_blocks (blockhash : Bytes) (inst : Instance) : Prog Block Unit :=
  forEach inst.lanes fun l => do
    write inst.memory_blocks (l * inst.lane_length + 0)
      (load_block (xmrig_ar2_blake2b_long stack ARGON2_BLOCK_SIZE (blockhash ++ le 4 0 ++ le 4 l)))
    write inst.memory_blocks (l * inst.lane_length + 1)
      (load_block (xmrig_ar2_blake2b_long stack ARGON2_BLOCK_SIZE (blockhash ++ le 4 1 ++ le 4 l)))

/-- The tag, of so many bytes.
mirrors src/3rdparty/argon2/lib/core.c:147-177 -/
def xmrig_ar2_finalize (outlen : Nat) (inst : Instance) : Prog Block Bytes := do
  let blockhash ← read inst.memory_blocks (inst.lane_length - 1)
  let blockhash ← each (fun l blockhash => do
      let b ← read inst.memory_blocks (l * inst.lane_length + (inst.lane_length - 1))
      return fun k => blockhash k ^^^ b k)
    (List.range' 1 (inst.lanes - 1)) blockhash
  return xmrig_ar2_blake2b_long stack outlen (store_block blockhash)

end

/-! ## A context -/

/-- The buffers have their lengths; a null pointer is an empty one. `out` says whether there is
room for a tag.
mirrors src/3rdparty/argon2/include/argon2.h:179-206 -/
structure Context where
  out : Bool
  outlen : UInt32
  pwd : Bytes
  salt : Bytes
  secret : Bytes
  ad : Bytes
  t_cost : UInt32
  m_cost : UInt32
  lanes : UInt32
  threads : UInt32
  version : UInt32

inductive Argon2Error where
  | SALT_TOO_SHORT
  | MEMORY_TOO_LITTLE
  | TIME_TOO_SMALL
  | LANES_TOO_FEW
  | LANES_TOO_MANY
  | THREADS_TOO_FEW
  | THREADS_TOO_MANY
  | MEMORY_ALLOCATION_ERROR
  deriving DecidableEq, Repr

/-- The checks that a number of 32 bits can fail.
mirrors src/3rdparty/argon2/lib/core.c:274-399 -/
def xmrig_ar2_validate_inputs (c : Context) : Option Argon2Error :=
  if c.salt.length < 8 then some .SALT_TOO_SHORT
  else if c.m_cost.toNat < 2 * ARGON2_SYNC_POINTS then some .MEMORY_TOO_LITTLE
  else if c.m_cost.toNat < 8 * c.lanes.toNat % 2 ^ 32 then some .MEMORY_TOO_LITTLE
  else if c.t_cost.toNat < 1 then some .TIME_TOO_SMALL
  else if c.lanes.toNat < 1 then some .LANES_TOO_FEW
  else if 0xffffff < c.lanes.toNat then some .LANES_TOO_MANY
  else if c.threads.toNat < 1 then some .THREADS_TOO_FEW
  else if 0xffffff < c.threads.toNat then some .THREADS_TOO_MANY
  else none

/-- `segment_length`; `memory_blocks` is the length of all segments.
mirrors src/3rdparty/argon2/lib/argon2.c:35-48 -/
def argon2_compute_segment_length (m_cost lanes : Nat) : Nat :=
  let memory_blocks := if m_cost < 2 * ARGON2_SYNC_POINTS * lanes
    then 2 * ARGON2_SYNC_POINTS * lanes else m_cost
  memory_blocks / (lanes * ARGON2_SYNC_POINTS)

/-- What a context that is valid has. -/
structure Valid (c : Context) : Prop where
  lanes_pos : 0 < c.lanes.toNat
  memory : 8 * c.lanes.toNat ≤ c.m_cost.toNat

theorem valid_of_none {c : Context} (h : xmrig_ar2_validate_inputs c = none) : Valid c := by
  unfold xmrig_ar2_validate_inputs at h
  repeat
    split at h
    · cases h
  exact ⟨by omega, by omega⟩

theorem segment_eq {c : Context} (h : Valid c) :
    argon2_compute_segment_length c.m_cost.toNat c.lanes.toNat =
      c.m_cost.toNat / (c.lanes.toNat * ARGON2_SYNC_POINTS) := by
  have hmemory := h.memory
  unfold argon2_compute_segment_length ARGON2_SYNC_POINTS
  simp only
  rw [if_neg (by omega)]

theorem segment_two {c : Context} (h : Valid c) :
    2 ≤ argon2_compute_segment_length c.m_cost.toNat c.lanes.toNat := by
  have hmemory := h.memory
  have hlanes := h.lanes_pos
  rw [segment_eq h, Nat.le_div_iff_mul_le (Nat.mul_pos hlanes (by decide)), ARGON2_SYNC_POINTS]
  omega

theorem blocks_le {c : Context} (h : Valid c) :
    c.lanes.toNat * (argon2_compute_segment_length c.m_cost.toNat c.lanes.toNat *
      ARGON2_SYNC_POINTS) ≤ c.m_cost.toNat := by
  have hle := Nat.div_mul_le_self c.m_cost.toNat (c.lanes.toNat * ARGON2_SYNC_POINTS)
  rw [segment_eq h]
  refine Nat.le_trans (Nat.le_of_eq ?_) hle
  rw [Nat.mul_left_comm, Nat.mul_comm c.lanes.toNat]

theorem blocks_fit {c : Context} (h : Valid c) :
    c.lanes.toNat * (argon2_compute_segment_length c.m_cost.toNat c.lanes.toNat *
      ARGON2_SYNC_POINTS) < 2 ^ 32 :=
  Nat.lt_of_le_of_lt (blocks_le h) c.m_cost.toNat_lt

def Valid.instance {c : Context} (h : Valid c) (type : Argon2Type) : Instance where
  version := c.version.toNat
  passes := c.t_cost.toNat
  segment_length := argon2_compute_segment_length c.m_cost.toNat c.lanes.toNat
  lanes := c.lanes.toNat
  type := type
  two_le := segment_two h
  lanes_pos := h.lanes_pos
  fits := blocks_fit h

/-- mirrors src/3rdparty/argon2/lib/core.c:420-490 -/
def xmrig_ar2_initial_hash (stack : State) (c : Context) (type : Argon2Type) : Bytes :=
  (hashed stack ARGON2_PREHASH_DIGEST_LENGTH
    [le 4 c.lanes.toNat, le 4 c.outlen.toNat, le 4 c.m_cost.toNat, le 4 c.t_cost.toNat,
      le 4 c.version.toNat, le 4 type.toNat, le 4 c.pwd.length, c.pwd, le 4 c.salt.length, c.salt,
      le 4 c.secret.length, c.secret, le 4 c.ad.length, c.ad]).2

/-- The tag, where there is room for one. -/
def argon2 (fill_segment : Segment) (stack : State) (c : Context) (type : Argon2Type)
    (inst : Instance) : Prog Block (Option Bytes) := do
  xmrig_ar2_fill_first_blocks stack (xmrig_ar2_initial_hash stack c type) inst
  xmrig_ar2_fill_memory_blocks fill_segment inst
  if c.out then
    let tag ← xmrig_ar2_finalize stack c.outlen.toNat inst
    return some tag
  else return none

/-- With memory that the caller has, of so many bytes.
mirrors src/3rdparty/argon2/lib/argon2.c:57-117 -/
def argon2_ctx_mem (fill_segment : Segment) (stack : State) (c : Context) (type : Argon2Type)
    (memory_size : Nat) :
    Except Argon2Error (Prog Block (Option Bytes)) :=
  match h : xmrig_ar2_validate_inputs c with
  | some e => .error e
  | none =>
    let inst := (valid_of_none h).instance type
    if memory_size % ARGON2_BLOCK_SIZE ≠ 0 ∨
        memory_size / ARGON2_BLOCK_SIZE < inst.memory_blocks then
      .error .MEMORY_ALLOCATION_ERROR
    else .ok (argon2 fill_segment stack c type inst)

/-! ## Which block is named -/

theorem sub32_eq {a b : Nat} (hba : b ≤ a) (ha : a < 2 ^ 32) : sub32 a b = a - b := by
  unfold sub32
  omega

/-- The slice and the index are inside. -/
structure Position.In (inst : Instance) (p : Position) : Prop where
  slice : p.slice < ARGON2_SYNC_POINTS
  index : p.index < inst.segment_length
  first : p.pass = 0 → p.slice = 0 → 2 ≤ p.index

theorem index_alpha_lt (inst : Instance) (p : Position) (x : Nat) (same : Bool) :
    xmrig_ar2_index_alpha inst p x same < inst.lane_length := by
  have hpos : 0 < inst.lane_length :=
    Nat.mul_pos (Nat.lt_of_lt_of_le (by decide) inst.two_le) (by decide)
  exact Nat.mod_lt _ hpos

theorem lane_length_lt (inst : Instance) : inst.lane_length < 2 ^ 32 := by
  have h := inst.fits
  have hle := Nat.le_mul_of_pos_left (inst.segment_length * ARGON2_SYNC_POINTS) inst.lanes_pos
  unfold Instance.lane_length
  omega

/-- The column of a position. -/
def Position.column (inst : Instance) (p : Position) : Nat :=
  p.slice * inst.segment_length + p.index

theorem Position.In.column_lt {inst : Instance} {p : Position} (h : p.In inst) :
    p.column inst < inst.lane_length := by
  have hslice : (p.slice + 1) * inst.segment_length ≤ ARGON2_SYNC_POINTS * inst.segment_length :=
    Nat.mul_le_mul_right _ h.slice
  have hindex := h.index
  rw [Nat.succ_mul] at hslice
  unfold column Instance.lane_length
  rw [Nat.mul_comm inst.segment_length]
  omega

/-- In the first pass: some blocks, all of them behind the position. -/
theorem area_first {inst : Instance} {p : Position} (h : p.In inst) (hpass : p.pass = 0)
    {same : Bool} (hsame : p.slice = 0 → same = true) :
    0 < reference_area_size inst p same ∧
      reference_area_size inst p same ≤ p.slice * inst.segment_length +
        if same then p.index - 1 else 0 := by
  have hlt := h.column_lt
  have hlane := lane_length_lt inst
  have htwo := inst.two_le
  unfold Position.column at hlt
  unfold reference_area_size
  rw [if_pos hpass]
  by_cases hslice : p.slice = 0
  · have hindex := h.first hpass hslice
    have hin := h.index
    rw [if_pos hslice, hsame hslice, if_pos rfl, sub32_eq (by omega) (by omega), hslice]
    omega
  · have hseg : inst.segment_length ≤ p.slice * inst.segment_length :=
      Nat.le_mul_of_pos_left _ (Nat.pos_of_ne_zero hslice)
    rw [if_neg hslice]
    cases same with
    | true =>
      rw [if_pos rfl, if_pos rfl, sub32_eq (by omega) (by omega)]
      omega
    | false =>
      rw [if_neg Bool.false_ne_true, if_neg Bool.false_ne_true]
      split
      · rw [sub32_eq (by omega) (by omega)]
        omega
      · rw [Nat.mod_eq_of_lt (by omega)]
        omega

theorem index_alpha_first {inst : Instance} {p : Position} (h : p.In inst) (hpass : p.pass = 0)
    (x : Nat) {same : Bool} (hsame : p.slice = 0 → same = true) :
    xmrig_ar2_index_alpha inst p x same <
      p.slice * inst.segment_length + if same then p.index - 1 else 0 := by
  obtain ⟨hpos, hle⟩ := area_first h hpass hsame
  refine Nat.lt_of_lt_of_le ?_ hle
  generalize harea : reference_area_size inst p same = area at hpos
  have harea32 : area < 2 ^ 32 := by
    have hlt := h.column_lt
    have hlane := lane_length_lt inst
    unfold Position.column at hlt
    split at hle <;> omega
  have hsq : x * x % 2 ^ 64 / 2 ^ 32 < 2 ^ 32 := by
    have := Nat.mod_lt (x * x) (show 0 < 2 ^ 64 by decide)
    omega
  have hone : sub32 area 1 = area - 1 := sub32_eq hpos harea32
  simp only [xmrig_ar2_index_alpha, if_pos hpass, harea, hone]
  generalize x * x % 2 ^ 64 / 2 ^ 32 = y at hsq
  have hprod : area * y / 2 ^ 32 < area := by
    rw [Nat.div_lt_iff_lt_mul (by decide)]
    exact Nat.mul_lt_mul_of_pos_left hsq hpos
  have hfit : area * y < 2 ^ 64 := by
    rw [Nat.div_lt_iff_lt_mul (by decide)] at hprod
    omega
  rw [Nat.mod_eq_of_lt hfit]
  refine Nat.lt_of_le_of_lt (Nat.mod_le _ _) ?_
  omega

/-! ## The blocks that there are -/

/-- A block that is before a position: in an earlier pass, in an earlier segment, or in the same
one, either of an earlier lane or before it. -/
def Done (inst : Instance) (p : Position) (lane col : Nat) : Prop :=
  0 < p.pass ∨ col < 2 ∨ col < p.slice * inst.segment_length ∨
    (lane < p.lane ∧ col < (p.slice + 1) * inst.segment_length) ∨
    (lane = p.lane ∧ col < p.column inst)

def Filled (inst : Instance) (p : Position) (m : Cells Block) : Prop :=
  ∀ lane < inst.lanes, ∀ col < inst.lane_length, Done inst p lane col →
    (m (lane * inst.lane_length + col)).isSome

theorem Filled.mono {inst : Instance} {p q : Position} {m : Cells Block} (h : Filled inst p m)
    (hpq : ∀ lane < inst.lanes, ∀ col < inst.lane_length, Done inst q lane col →
      Done inst p lane col) : Filled inst q m :=
  fun lane hlane col hcol hdone => h lane hlane col hcol (hpq lane hlane col hcol hdone)

theorem cell_lt {inst : Instance} {lane col : Nat} (hlane : lane < inst.lanes)
    (hcol : col < inst.lane_length) : lane * inst.lane_length + col < inst.memory_blocks := by
  have h : (lane + 1) * inst.lane_length ≤ inst.lanes * inst.lane_length :=
    Nat.mul_le_mul_right _ hlane
  rw [Nat.succ_mul] at h
  unfold Instance.memory_blocks
  omega

theorem Filled.write {inst : Instance} {p : Position} {m : Cells Block} (h : Filled inst p m)
    (b : Block) : Filled inst { p with index := p.index + 1 }
      (Function.update m (p.lane * inst.lane_length + p.column inst) (some b)) := by
  intro lane hlane col hcol hdone
  refine Unwritten.isSome_update fun hne => h lane hlane col hcol ?_
  rcases hdone with hdone | hdone | hdone | hdone | ⟨rfl, hdone⟩
  · exact .inl hdone
  · exact .inr (.inl hdone)
  · exact .inr (.inr (.inl hdone))
  · exact .inr (.inr (.inr (.inl hdone)))
  · have hcolne : col ≠ p.column inst := fun heq => hne (by rw [heq])
    refine .inr (.inr (.inr (.inr ⟨rfl, ?_⟩)))
    unfold Position.column at hdone hcolne ⊢
    simp only at hdone
    omega

/-- The column of the block before. -/
def before (inst : Instance) (col : Nat) : Nat := if col = 0 then inst.lane_length - 1 else col - 1

theorem done_before {inst : Instance} {p : Position} (h : p.In inst) :
    Done inst p p.lane (before inst (p.column inst)) := by
  unfold Done before Position.column
  by_cases hpass : p.pass = 0
  · have hfirst := h.first hpass
    have hcol : p.slice * inst.segment_length + p.index ≠ 0 := by
      by_cases hslice : p.slice = 0
      · have := hfirst hslice
        omega
      · have hseg := Nat.mul_pos (Nat.pos_of_ne_zero hslice)
          (Nat.lt_of_lt_of_le (show 0 < 2 by decide) inst.two_le)
        omega
    rw [if_neg hcol]
    exact .inr (.inr (.inr (.inr ⟨rfl, by omega⟩)))
  · exact .inl (Nat.pos_of_ne_zero hpass)

/-- The block that is named is there. -/
theorem done_ref {inst : Instance} {p : Position} (h : p.In inst) (hlane : p.lane < inst.lanes)
    (rand : W) :
    ref_lane inst p rand < inst.lanes ∧
      Done inst p (ref_lane inst p rand) (xmrig_ar2_index_alpha inst p (rand.toNat % 2 ^ 32)
        (ref_lane inst p rand = p.lane)) := by
  have hin : ref_lane inst p rand < inst.lanes := by
    unfold ref_lane
    split
    · exact hlane
    · exact Nat.mod_lt _ inst.lanes_pos
  refine ⟨hin, ?_⟩
  by_cases hpass : p.pass = 0
  · have hsame : p.slice = 0 → decide (ref_lane inst p rand = p.lane) = true := by
      intro hslice
      rw [decide_eq_true_eq, ref_lane, if_pos ⟨hpass, hslice⟩]
    have hlt := index_alpha_first h hpass (rand.toNat % 2 ^ 32) hsame
    by_cases href : ref_lane inst p rand = p.lane
    · rw [if_pos (decide_eq_true href)] at hlt
      refine .inr (.inr (.inr (.inr ⟨href, ?_⟩)))
      unfold Position.column
      omega
    · rw [if_neg (by rw [decide_eq_true_eq]; exact href)] at hlt
      exact .inr (.inr (.inl hlt))
  · exact .inl (Nat.pos_of_ne_zero hpass)

/-! ## A step -/

section

variable (fill_block : Fill) (inst : Instance) (p : Position)

/-- Before the step of an index. -/
structure Before (i : Nat) (l : Loop) (m : Cells Block) : Prop where
  filled : Filled inst { p with index := i } m
  curr : l.curr_offset = p.lane * inst.lane_length + (p.slice * inst.segment_length + i)
  prev : p.slice * inst.segment_length + i ≠ 1 → l.prev_offset = p.lane * inst.lane_length +
    before inst (p.slice * inst.segment_length + i)

/-- What the step of an index has for offsets, once it has rotated them. -/
structure Offsets (i : Nat) (l : Loop) : Prop where
  curr : l.curr_offset = p.lane * inst.lane_length + (p.slice * inst.segment_length + i)
  prev : l.prev_offset =
    p.lane * inst.lane_length + before inst (p.slice * inst.segment_length + i)

variable {inst p}

theorem Before.rotate {i : Nat} {l : Loop} {m : Cells Block}
    (hin : Position.In inst { p with index := i }) (h : Before inst p i l m) :
    Offsets inst p i (rotate inst l) := by
  have hcol : p.slice * inst.segment_length + i < inst.lane_length := hin.column_lt
  have hmod : l.curr_offset % inst.lane_length = p.slice * inst.segment_length + i := by
    rw [h.curr, Nat.mul_add_mod', Nat.mod_eq_of_lt hcol]
  unfold Argon2.rotate
  by_cases hone : p.slice * inst.segment_length + i = 1
  · rw [if_pos (hmod.trans hone)]
    refine ⟨h.curr, ?_⟩
    rw [hone, h.curr, hone]
    rfl
  · rw [if_neg (by rw [hmod]; exact hone)]
    exact ⟨h.curr, h.prev hone⟩

theorem before_lt {i : Nat} (hin : Position.In inst { p with index := i }) :
    before inst (p.slice * inst.segment_length + i) < inst.lane_length := by
  have hcol : p.slice * inst.segment_length + i < inst.lane_length := hin.column_lt
  unfold before
  split <;> omega

section

variable {i : Nat} (hin : Position.In inst { p with index := i }) (hlane : p.lane < inst.lanes)
  {l : Loop} (ho : Offsets inst p i l)

include hin hlane ho

theorem Offsets.curr_lt : l.curr_offset < inst.memory_blocks := by
  rw [ho.curr]
  exact cell_lt hlane hin.column_lt

theorem Offsets.prev_lt : l.prev_offset < inst.memory_blocks := by
  rw [ho.prev]
  exact cell_lt hlane (before_lt hin)

variable {m : Cells Block} (hm : Filled inst { p with index := i } m)

include hm

theorem Offsets.prev_filled : (m l.prev_offset).isSome := by
  rw [ho.prev]
  exact hm p.lane hlane _ (before_lt hin) (done_before hin)

theorem Offsets.curr_filled (hpass : p.pass ≠ 0) : (m l.curr_offset).isSome := by
  rw [ho.curr]
  exact hm p.lane hlane _ hin.column_lt (.inl (Nat.pos_of_ne_zero hpass))

end

/-- The offsets of the next index, when the block is written. -/
theorem Offsets.next {i : Nat} {l : Loop} (ho : Offsets inst p i l) {m : Cells Block}
    (hm : Filled inst { p with index := i } m) (b : Block) : Before inst p (i + 1)
    { l with curr_offset := l.curr_offset + 1, prev_offset := l.prev_offset + 1 }
    (Function.update m l.curr_offset (some b)) := by
  have hfilled := hm.write b
  refine ⟨?_, ?_, fun hne => ?_⟩
  · rw [ho.curr]
    exact hfilled
  · rw [ho.curr]
    rfl
  · have hpos : p.slice * inst.segment_length + (i + 1) ≠ 0 := by omega
    have hzero : p.slice * inst.segment_length + i ≠ 0 := by omega
    simp only [ho.prev, before, if_neg hpos, if_neg hzero]
    omega

/-- The block that is named is inside, and there. -/
theorem ref_spec {i : Nat} (hin : Position.In inst { p with index := i })
    (hlane : p.lane < inst.lanes) (rand : W) :
    let ref_lane := ref_lane inst p rand
    let ref_index := xmrig_ar2_index_alpha inst { p with index := i } (rand.toNat % 2 ^ 32)
      (ref_lane = p.lane)
    inst.lane_length * ref_lane + ref_index < inst.memory_blocks ∧
      ∀ m, Filled inst { p with index := i } m →
        (m (inst.lane_length * ref_lane + ref_index)).isSome := by
  obtain ⟨hreflane, hrefdone⟩ := done_ref hin hlane rand
  have hlt := index_alpha_lt inst { p with index := i } (rand.toNat % 2 ^ 32)
    (ref_lane inst p rand = p.lane)
  simp only
  rw [Nat.mul_comm]
  exact ⟨cell_lt hreflane hlt, fun m hm => hm _ hreflane _ hlt hrefdone⟩

theorem does_pseudo_rand {i j : Nat} {l : Loop} {P : Cells Block → Prop}
    (ho : Offsets inst p j l) (hlt : l.prev_offset < inst.memory_blocks)
    (h : ∀ m, P m → (m l.prev_offset).isSome) :
    Does P (pseudo_rand fill_block inst p i l) fun q m => P m ∧ Offsets inst p j q.2 := by
  unfold pseudo_rand
  split
  · refine Does.pure fun m hm => ⟨hm, ?_⟩
    simp only
    split <;> exact ⟨ho.curr, ho.prev⟩
  · exact Does.bind (Does.read hlt h) fun b => Does.pure fun m hm => ⟨hm, ho⟩

theorem does_next_block {P : Cells Block → Prop} {curr_offset : Nat}
    (hlt : curr_offset < inst.memory_blocks)
    (h : p.pass ≠ 0 → ∀ m, P m → (m curr_offset).isSome) :
    Does P (next_block inst p curr_offset) fun _ => P := by
  unfold next_block
  split
  · exact Does.pure fun m hm => hm
  · exact Does.bind (Does.read hlt (h (by omega))) fun b => Does.pure fun m hm => hm

/-- **A step** finds the blocks that it reads, and makes one. -/
theorem does_step {i : Nat} (hin : Position.In inst { p with index := i })
    (hlane : p.lane < inst.lanes) (l : Loop) :
    Does (Before inst p i l) (step fill_block inst p i l) (Before inst p (i + 1)) := by
  refine Does.assume (fun m hm => hm.rotate hin) fun ho => ?_
  refine Does.bind (does_pseudo_rand fill_block ho (ho.prev_lt hin hlane)
    fun m hm => ho.prev_filled hin hlane hm.filled) fun q => ?_
  refine Does.assume (fun m hm => hm.2) fun hq => ?_
  obtain ⟨hreflt, href⟩ := ref_spec hin hlane q.1
  refine Does.bind (Does.read hreflt fun m hm => href m hm.1.filled) fun ref_block => ?_
  refine Does.bind (Does.read (hq.prev_lt hin hlane)
    fun m hm => hq.prev_filled hin hlane hm.1.filled) fun prev_block => ?_
  refine Does.bind (does_next_block (hq.curr_lt hin hlane)
    fun hpass m hm => hq.curr_filled hin hlane hm.1.filled hpass) fun next_block => ?_
  refine Does.bind (Does.write (hq.curr_lt hin hlane) (Q := Before inst p (i + 1)
    { q.2 with curr_offset := q.2.curr_offset + 1, prev_offset := q.2.prev_offset + 1 })
    fun m hm => hq.next hm.1.filled _) fun _ => Does.pure fun m hm => hm

variable (inst p)

theorem done_start {lane col : Nat}
    (h : Done inst { p with index := starting_index p } lane col) :
    Done inst { p with index := 0 } lane col := by
  rcases h with h | h | h | h | ⟨rfl, h⟩
  · exact .inl h
  · exact .inr (.inl h)
  · exact .inr (.inr (.inl h))
  · exact .inr (.inr (.inr (.inl h)))
  · unfold Position.column starting_index at h
    simp only at h
    split at h
    · rename_i hzero
      rw [hzero.2, Nat.zero_mul, Nat.zero_add] at h
      exact .inr (.inl h)
    · exact .inr (.inr (.inl (by simpa using h)))

theorem start_le : starting_index p ≤ inst.segment_length := by
  have htwo := inst.two_le
  unfold starting_index
  split <;> omega

theorem in_of_start (hslice : p.slice < ARGON2_SYNC_POINTS) {i : Nat} (hi : starting_index p ≤ i)
    (hlt : i < inst.segment_length) : Position.In inst { p with index := i } := by
  refine ⟨hslice, hlt, fun hpass hzero => ?_⟩
  rwa [starting_index, if_pos ⟨hpass, hzero⟩] at hi

theorem start_column_lt (hslice : p.slice < ARGON2_SYNC_POINTS) :
    p.slice * inst.segment_length + starting_index p < inst.lane_length := by
  have htwo := inst.two_le
  by_cases hzero : p.pass = 0 ∧ p.slice = 0
  · rw [starting_index, if_pos hzero, hzero.2, Instance.lane_length, ARGON2_SYNC_POINTS]
    omega
  · have hstart : starting_index p = 0 := if_neg hzero
    have hin := in_of_start inst p hslice hstart.le (Nat.lt_of_lt_of_le (by decide) htwo)
    rw [hstart]
    exact hin.column_lt

theorem start_before (hslice : p.slice < ARGON2_SYNC_POINTS) {m : Cells Block}
    (h : Filled inst { p with index := 0 } m) :
    Before inst p (starting_index p) (startLoop fill_block inst p) m := by
  have hcol := start_column_lt inst p hslice
  refine ⟨h.mono fun lane _ col _ hdone => done_start inst p hdone, Nat.add_assoc .., fun _ => ?_⟩
  simp only [startLoop, before]
  rw [Nat.add_assoc, Nat.mul_add_mod', Nat.mod_eq_of_lt hcol]
  split <;> omega

/-- **A segment**, from the blocks before it. -/
theorem does_segment (hslice : p.slice < ARGON2_SYNC_POINTS) (hlane : p.lane < inst.lanes) :
    Does (Filled inst { p with index := 0 }) (fill_segment_64 fill_block inst p) fun _ =>
      Filled inst { p with index := inst.segment_length } := by
  have hloop := @Does.each Block Loop (step fill_block inst p) (Before inst p)
    (inst.segment_length - starting_index p) (starting_index p) (startLoop fill_block inst p)
    fun i l hi hlt => does_step fill_block (in_of_start inst p hslice hi (by omega)) hlane l
  rw [Nat.add_sub_cancel' (start_le inst p)] at hloop
  unfold fill_segment_64
  refine Does.bind (hloop.mono (fun m hm => start_before fill_block inst p hslice hm)
    fun l m hm => hm) fun l => Does.pure fun m hm => hm.filled

/-! ## All segments -/

theorem same_forEach {n : Nat} {body body' : Nat → Prog Block Unit} {I : Nat → Cells Block → Prop}
    (h : ∀ i < n, Same (I i) (body i) (body' i) fun _ _ => I (i + 1)) :
    Same (I 0) (forEach n body) (forEach n body') fun _ _ => I n := by
  have hall := @Same.each Block Unit Unit (fun i _ => body i) (fun i _ => body' i)
    (fun i _ _ => I i) n 0 () () fun i _ _ _ hi => h i (by omega)
  rwa [Nat.zero_add] at hall

theorem does_forEach {n : Nat} {body : Nat → Prog Block Unit} {I : Nat → Cells Block → Prop}
    (h : ∀ i < n, Does (I i) (body i) fun _ => I (i + 1)) :
    Does (I 0) (forEach n body) fun _ => I n :=
  (same_forEach fun i hi => (h i hi).same.mono (fun _ hm => hm) fun _ _ _ hm => hm.2).does

/-- Two ways to fill a segment do the same to blocks that are filled before it. -/
def SameSegment (fill_segment fill_segment' : Segment) : Prop :=
  ∀ p : Position, p.slice < ARGON2_SYNC_POINTS → p.lane < inst.lanes →
    Same (Filled inst { p with index := 0 }) (fill_segment inst p) (fill_segment' inst p)
      fun _ _ => Filled inst { p with index := inst.segment_length }

theorem sameSegment_64 :
    SameSegment inst (fill_segment_64 fill_block) (fill_segment_64 fill_block) :=
  fun p hslice hlane => (does_segment fill_block inst p hslice hlane).same.mono (fun _ hm => hm)
    fun _ _ _ hm => hm.2

section

variable {inst} {fill_segment fill_segment' : Segment}
  (h : SameSegment inst fill_segment fill_segment')

include h

theorem same_slice {r s : Nat} (hs : s < ARGON2_SYNC_POINTS) :
    Same (Filled inst ⟨r, 0, s, 0⟩)
      (forEach inst.lanes fun l => fill_segment inst ⟨r, l, s, 0⟩)
      (forEach inst.lanes fun l => fill_segment' inst ⟨r, l, s, 0⟩) fun _ _ =>
        Filled inst ⟨r, 0, s + 1, 0⟩ := by
  refine (same_forEach (I := fun l => Filled inst ⟨r, l, s, 0⟩) fun l hl =>
    (h ⟨r, l, s, 0⟩ hs hl).mono (fun m hm => hm)
      fun _ _ m hm => hm.mono fun lane hlane col hcol hdone => ?_).mono (fun m hm => hm)
      fun _ _ m hm => hm.mono fun lane hlane col hcol hdone => ?_
  · -- the next lane
    rcases hdone with h | h | h | ⟨hlt, h⟩ | ⟨rfl, h⟩
    · exact .inl h
    · exact .inr (.inl h)
    · exact .inr (.inr (.inl h))
    · rcases Nat.lt_succ_iff_lt_or_eq.mp hlt with hlt | rfl
      · exact .inr (.inr (.inr (.inl ⟨hlt, h⟩)))
      · refine .inr (.inr (.inr (.inr ⟨rfl, ?_⟩)))
        unfold Position.column
        simpa [Nat.succ_mul] using h
    · exact .inr (.inr (.inl (by simpa [Position.column] using h)))
  · -- the next slice
    rcases hdone with h | h | h | ⟨hlt, -⟩ | ⟨rfl, h⟩
    · exact .inl h
    · exact .inr (.inl h)
    · exact .inr (.inr (.inr (.inl ⟨hlane, h⟩)))
    · exact absurd hlt (Nat.not_lt_zero _)
    · exact .inr (.inr (.inr (.inl ⟨hlane, by simpa [Position.column] using h⟩)))

/-- **All passes**, from the first two blocks of each lane. -/
theorem same_fill : Same (Filled inst ⟨0, 0, 0, 0⟩)
    (xmrig_ar2_fill_memory_blocks fill_segment inst)
    (xmrig_ar2_fill_memory_blocks fill_segment' inst) fun _ _ =>
      Filled inst ⟨inst.passes, 0, 0, 0⟩ := by
  refine same_forEach (I := fun r => Filled inst ⟨r, 0, 0, 0⟩) fun r _ =>
    (same_forEach (I := fun s => Filled inst ⟨r, 0, s, 0⟩) fun s hs =>
      same_slice h hs).mono (fun m hm => hm)
      fun _ _ m hm => hm.mono fun lane hlane col hcol hdone => .inr (.inr (.inl ?_))
  rw [Nat.mul_comm]
  exact hcol

end

/-- The first two blocks of each lane. -/
theorem does_first (stack : State) (blockhash : Bytes) :
    Does (fun _ => True) (xmrig_ar2_fill_first_blocks stack blockhash inst) fun _ =>
      Filled inst ⟨0, 0, 0, 0⟩ := by
  have htwo := inst.two_le
  have hlane : 1 < inst.lane_length := by
    unfold Instance.lane_length ARGON2_SYNC_POINTS
    omega
  refine (does_forEach (I := fun l m => ∀ lane < l, ∀ col < 2,
      (m (lane * inst.lane_length + col)).isSome) fun l hl => ?_).mono
      (fun m _ lane hlane => absurd hlane (Nat.not_lt_zero _)) fun _ m hm lane hlane col _ hdone => ?_
  · refine Does.bind (Does.write (cell_lt hl (Nat.lt_of_succ_lt hlane)) (Q := fun m =>
      (∀ lane < l, ∀ col < 2, (m (lane * inst.lane_length + col)).isSome) ∧
        (m (l * inst.lane_length + 0)).isSome) fun m hm => ?_) fun _ =>
      Does.write (cell_lt hl hlane) fun m hm => ?_
    · refine ⟨fun lane hlt col hcol => ?_, ?_⟩
      · exact Unwritten.isSome_update fun _ => hm lane hlt col hcol
      · exact Unwritten.isSome_update fun hne => absurd rfl hne
    · intro lane hlt col hcol
      refine Unwritten.isSome_update fun hne => ?_
      rcases Nat.lt_succ_iff_lt_or_eq.mp hlt with hlt | rfl
      · exact hm.1 lane hlt col hcol
      · obtain rfl : col = 0 := by
          have : col ≠ 1 := fun h => hne (by rw [h])
          omega
        exact hm.2
  · rcases hdone with h | h | h | ⟨h, -⟩ | ⟨-, h⟩
    · exact absurd h (Nat.lt_irrefl 0)
    · exact hm lane hlane col h
    · rw [Nat.zero_mul] at h
      exact absurd h (Nat.not_lt_zero _)
    · exact absurd h (Nat.not_lt_zero _)
    · simp [Position.column] at h

theorem Filled.all {inst : Instance} {m : Cells Block} (hpasses : 0 < inst.passes)
    (h : Filled inst ⟨inst.passes, 0, 0, 0⟩ m) {i : Nat} (hi : i < inst.memory_blocks) :
    (m i).isSome := by
  have hlane : i / inst.lane_length < inst.lanes := by
    rw [Nat.div_lt_iff_lt_mul (Nat.pos_of_lt_mul_left hi)]
    exact hi
  have hcol : i % inst.lane_length < inst.lane_length := Nat.mod_lt _ (Nat.pos_of_lt_mul_left hi)
  have hall := h _ hlane _ hcol (.inl hpasses)
  rwa [Nat.div_add_mod'] at hall

theorem does_finalize (hpasses : 0 < inst.passes) (stack : State) (outlen : Nat) :
    Does (Filled inst ⟨inst.passes, 0, 0, 0⟩) (xmrig_ar2_finalize stack outlen inst) fun _ =>
      Filled inst ⟨inst.passes, 0, 0, 0⟩ := by
  have hlane : inst.lane_length - 1 < inst.lane_length :=
    Nat.sub_lt (Nat.mul_pos (Nat.lt_of_lt_of_le (by decide) inst.two_le) (by decide)) (by decide)
  have hlast (l : Nat) (hl : l < inst.lanes) := cell_lt hl hlane
  have hfirst := hlast 0 inst.lanes_pos
  rw [Nat.zero_mul, Nat.zero_add] at hfirst
  refine Does.bind (Does.read hfirst fun m hm => hm.all hpasses hfirst) fun b => ?_
  refine Does.bind (Q := fun _ => Filled inst ⟨inst.passes, 0, 0, 0⟩) ?_ fun b =>
    Does.pure fun m hm => hm
  refine Does.each (I := fun _ _ => Filled inst ⟨inst.passes, 0, 0, 0⟩) (inst.lanes - 1) 1
    fun l b _ hl => ?_
  have hl' := hlast l (by omega)
  exact Does.bind (Does.read hl' fun m hm => hm.all hpasses hl') fun b => Does.pure fun m hm => hm

/-! ## What memory had before -/

theorem persists_step (i : Nat) (l : Loop) : Persists (step fill_block inst p i l) := by
  have hrand : Persists (pseudo_rand fill_block inst p i (rotate inst l)) := by
    unfold pseudo_rand
    split
    · exact Persists.pure _
    · exact (Persists.read _ _).bind fun b => Persists.pure _
  have hnext (curr_offset : Nat) : Persists (next_block inst p curr_offset) := by
    unfold next_block
    split
    · exact Persists.pure _
    · exact (Persists.read _ _).bind fun b => Persists.pure _
  exact hrand.bind fun q => (Persists.read _ _).bind fun _ => (Persists.read _ _).bind fun _ =>
    (hnext _).bind fun _ => (Persists.write _ _ _).bind fun _ => Persists.pure _

theorem persists_forEach {n : Nat} {body : Nat → Prog Block Unit} (h : ∀ i, Persists (body i)) :
    Persists (forEach n body) :=
  Persists.each (fun i _ => h i) _ _

theorem persists_fill : Persists (xmrig_ar2_fill_memory_blocks (fill_segment_64 fill_block) inst) :=
  persists_forEach fun r => persists_forEach fun s => persists_forEach fun l =>
    (Persists.each (fun i x => persists_step fill_block inst ⟨r, l, s, 0⟩ i x) _ _).bind
      fun _ => Persists.pure _

theorem persists_first (stack : State) (blockhash : Bytes) :
    Persists (xmrig_ar2_fill_first_blocks stack blockhash inst) :=
  persists_forEach fun _ => (Persists.write _ _ _).bind fun _ => Persists.write _ _ _

theorem persists_finalize (stack : State) (outlen : Nat) :
    Persists (xmrig_ar2_finalize stack outlen inst) :=
  (Persists.read _ _).bind fun _ => (Persists.each
    (fun _ _ => (Persists.read _ _).bind fun _ => Persists.pure _) _ _).bind fun _ =>
      Persists.pure _

theorem persists_argon2 (stack : State) (c : Context) (type : Argon2Type) :
    Persists (argon2 (fill_segment_64 fill_block) stack c type inst) := by
  refine (persists_first inst stack _).bind fun _ => (persists_fill fill_block inst).bind fun _ => ?_
  split
  · exact (persists_finalize inst stack _).bind fun _ => Persists.pure _
  · exact Persists.pure _

theorem same_argon2 (hpasses : 0 < inst.passes) {fill_segment fill_segment' : Segment}
    (h : SameSegment inst fill_segment fill_segment') (stack : State) (c : Context)
    (type : Argon2Type) :
    Same (fun _ => True) (argon2 fill_segment stack c type inst)
      (argon2 fill_segment' stack c type inst) fun a b m =>
        b = a ∧ Filled inst ⟨inst.passes, 0, 0, 0⟩ m := by
  refine Same.shared (does_first inst stack _) fun _ => Same.bind (same_fill h) fun _ _ => ?_
  split
  · exact Same.shared (does_finalize inst hpasses stack _) fun tag =>
      Same.pure fun m hm => ⟨rfl, hm⟩
  · exact Same.pure fun m hm => ⟨rfl, hm⟩

end

theorem passes_pos {c : Context} (h : xmrig_ar2_validate_inputs c = none) : 0 < c.t_cost.toNat := by
  unfold xmrig_ar2_validate_inputs at h
  repeat
    split at h
    · cases h
  omega

/-- A context of one lane and eight blocks. -/
def eight : Context where
  out := true
  outlen := 32
  pwd := [1, 2]
  salt := [0, 0, 0, 0, 0, 0, 0, 0]
  secret := []
  ad := []
  t_cost := 1
  m_cost := 8
  lanes := 1
  threads := 1
  version := 0x13

end Rxs.L2.Argon2
