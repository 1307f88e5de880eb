import Rxs.Core.JsonText
import Rxs.L3Protocol.Daemon

/-!
# The send buffer

Every request of the stratum client goes through `m_sendBuf`: `send(obj)` writes the
request as JSON, makes the buffer larger if it has to and copies the text into it,
`ping` formats into the buffer as it is. Both pass a size to `send(size)`, which
transmits so many bytes of the buffer.

The strings of a client are C strings; `none` is the null pointer. What else the
client does to its members may happen between any two requests (`Op.other`).

* `step`: one request, with what it passes to `send(size)`.
* `send_lines`: exactly when every size fits and every text is the line of its
  request.
-/
namespace Rxs.L3.SendBuffer

open Rxs.Core Rxs.Core.JsonText

/-- mirrors src/base/net/stratum/Client.h:59 -/
def kMaxSendBufferSize : Nat := 1024 * 16

/-- What the requests read besides the buffer.
mirrors src/base/net/stratum/BaseClient.h:86-102 -/
structure Members where
  sequence : Int := 1
  rpcId : Option Bytes := none
  user : Option Bytes := none
  password : Option Bytes := none
  rigId : Option Bytes := none
  agent : Bytes := []
  connected : Bool := false
  extAlgo : Bool := false

/-- mirrors src/base/net/stratum/Client.h:134 and
src/base/net/stratum/Client.cpp:79 -/
structure Sender extends Members where
  sendBuf : Bytes := List.replicate 1024 0

/-- The members of a result that `submit` reads; `algorithm` is its name. -/
structure JobResult where
  clientId : Option Bytes
  jobId : Bytes
  diff : Nat
  nonce : { b : Bytes // b.length = 4 }
  result : { b : Bytes // b.length = 32 }
  minerSignature : Option { b : Bytes // b.length = 64 } := none
  commitment : Option { b : Bytes // b.length = 32 } := none
  algorithm : Option Bytes := none

/-- A call of `send(size)`: the size, that of the buffer, the bytes of the buffer it
transmits, and the request that is meant, with its id where the client sets it.
`undefined` is a call with a size nobody knows. -/
inductive Call where
  | undefined
  | sized (size capacity : Nat) (bytes : Bytes) (request : Value) (id : Option Int)

/-! ## Requests -/

/-- mirrors src/base/tools/String.cpp:92-97 -/
def toJSON (s : Option Bytes) : Value := s.elim .null fun s => .string (cstr s)

/-- mirrors src/base/io/json/JsonRequest.cpp:83-94 -/
def create (id : Int) (method : String) (params : Value) : Value :=
  .object [(ascii "id", .number (.ofInt id)), (ascii "jsonrpc", .string (ascii "2.0")),
    (ascii "method", .string (ascii method)), (ascii "params", params)]

/-- mirrors src/base/net/stratum/Client.cpp:186-241 -/
def submitRequest (m : Members) (rpcId : Bytes) (r : JobResult) : Value :=
  let hex (b : Bytes) : Value := .string (Cvt.bin2hex b)
  create m.sequence "submit" (.object
    ([(ascii "id", .string (cstr rpcId)), (ascii "job_id", .string (cstr r.jobId)),
        (ascii "nonce", hex r.nonce.1), (ascii "result", hex r.result.1)] ++
      (r.minerSignature.map fun sig => (ascii "sig", hex sig.1)).toList ++
      (r.commitment.map fun c => (ascii "commitment", hex c.1)).toList ++
      if m.extAlgo then (r.algorithm.map fun a => (ascii "algo", .string (cstr a))).toList else []))

/-- `extra`: what `onLogin` adds to the parameters.
mirrors src/base/net/stratum/Client.cpp:636-650 -/
def loginRequest (m : Members) (extra : List (Bytes × Value)) : Value :=
  create 1 "login" (.object
    ([(ascii "login", toJSON m.user), (ascii "pass", toJSON m.password),
        (ascii "agent", .string (cstr m.agent))] ++
      (m.rigId.map fun rigId => (ascii "rigid", .string (cstr rigId))).toList ++ extra))

def pingRequest (sequence : Int) (rpcId : Bytes) : Value :=
  create sequence "keepalived" (.object [(ascii "id", .string (cstr rpcId))])

/-- Between the numbers of `ping`. -/
def pingMiddle : Bytes :=
  ascii ",\"jsonrpc\":\"2.0\",\"method\":\"keepalived\",\"params\":\x7b\"id\":\""

/-- What `ping` formats, without the newline. -/
def pingText (sequence : Int) (rpcId : Bytes) : Bytes :=
  ascii "\x7b\"id\":" ++ decimalInt sequence ++ pingMiddle ++ cstr rpcId ++ ascii "\"\x7d\x7d"

/-! ## Sending -/

/-- `snprintf` of a text into a buffer: what fits, with a zero behind, and the length
of the whole text; a length that is no `int` is an error, -1 as a `size_t`. -/
def snprintf (buf text : Bytes) : Bytes × Nat :=
  (Bytes.writeAt buf 0 (text.take (buf.length - 1) ++ [0]),
    if text.length < 2 ^ 31 then text.length else 2 ^ 64 - 1)

/-- `goes`: the connection takes the bytes.
mirrors src/base/net/stratum/Client.cpp:542-570 -/
def sendSize (s : Sender) (size : Nat) (request : Value) (id : Option Int) (goes : Bool) :
    Sender × Option Call :=
  (if goes then { s with sequence := s.sequence + 1 } else s,
    some (.sized size s.sendBuf.length (s.sendBuf.take size) request id))

/-- The buffer, made larger for a text of that size.
mirrors src/base/net/stratum/Client.cpp:163-165 -/
def room (buf : Bytes) (size : Nat) : Bytes :=
  if buf.length - 2 < size then BlockTemplate.resize buf (((size + 1) / 1024 + 1) * 1024) else buf

/-- mirrors src/base/net/stratum/Client.cpp:147-172 -/
def sendObj (s : Sender) (obj : Value) (id : Option Int) (goes : Bool) : Sender × Option Call :=
  if kMaxSendBufferSize < (write obj).length then ({ s with connected := false }, none)
  else
    let buf := Bytes.writeAt (room s.sendBuf (write obj).length) 0 (write obj ++ [10, 0])
    sendSize { s with sendBuf := buf } ((write obj).length + 1) obj id goes

/-- mirrors src/base/net/stratum/Client.cpp:175-254 -/
def submit (s : Sender) (r : JobResult) (goes : Bool) : Sender × Option Call :=
  match s.rpcId with
  | none => (s, none)
  | some rpcId =>
    if r.clientId ≠ some rpcId ∨ s.connected = false then (s, none)
    else if r.diff = 0 then ({ s with connected := false }, none)
    else sendObj s (submitRequest s.toMembers rpcId r) (some s.sequence) goes

/-- mirrors src/base/net/stratum/Client.cpp:631-653 -/
def login (s : Sender) (extra : List (Bytes × Value)) (goes : Bool) : Sender × Option Call :=
  sendObj s (loginRequest s.toMembers extra) (some 1) goes

/-- A null pointer is no string for `snprintf`.
mirrors src/base/net/stratum/Client.cpp:866-869 -/
def ping (s : Sender) (goes : Bool) : Sender × Option Call :=
  match s.rpcId with
  | none => (s, some .undefined)
  | some rpcId =>
    let r := snprintf s.sendBuf (pingText s.sequence rpcId ++ [10])
    sendSize { s with sendBuf := r.1 } r.2 (pingRequest s.sequence rpcId) (some s.sequence) goes

inductive Op where
  | send (obj : Value) (goes : Bool)
  | submit (r : JobResult) (goes : Bool)
  | login (extra : List (Bytes × Value)) (goes : Bool)
  | ping (goes : Bool)
  | other (m : Members)

def step (s : Sender) : Op → Sender × Option Call
  | .send obj goes => sendObj s obj none goes
  | .submit r goes => submit s r goes
  | .login extra goes => login s extra goes
  | .ping goes => ping s goes
  | .other m => ({ s with toMembers := m }, none)

/-- The calls of a run. -/
def calls (s : Sender) : List Op → List Call
  | [] => []
  | op :: ops => (step s op).2.toList ++ calls (step s op).1 ops

/-! ## What a call should be -/

def find (key : String) : Value → Option Value
  | .object members => (members.find? (·.1 = ascii key)).map (·.2)
  | _ => none

/-- The size fits, and the bytes are one line that reads as the request, which has
the id. -/
def Call.Good : Call → Prop
  | .undefined => False
  | .sized size capacity bytes request id =>
    size ≤ capacity ∧
      (∃ text, bytes = text ++ [10] ∧ 10 ∉ text ∧ read text = some request) ∧
      ∀ n ∈ id, find "id" request = some (.number (.ofInt n))

/-- There is an rpc id whose characters need no escape, and the text with its newline
and its zero fits the buffer as it is. -/
def PingFits (s : Sender) : Prop :=
  ∃ rpcId ∈ s.rpcId, (pingText s.sequence rpcId ++ [10]).length < s.sendBuf.length ∧
    ∀ c ∈ cstr rpcId, IsPlain c

def Op.Fits (s : Sender) : Op → Prop
  | .ping _ => PingFits s
  | _ => True

/-- Every ping of a run fits the buffer it finds. -/
def Fits (s : Sender) : List Op → Prop
  | [] => True
  | op :: ops => op.Fits s ∧ Fits (step s op).1 ops

/-! ## The requests that are written -/

/-- The buffer never shrinks, and grows to what the longest text needs at most. -/
def Sized (s : Sender) : Prop := 1024 ≤ s.sendBuf.length ∧ s.sendBuf.length ≤ 17 * 1024

theorem length_writeAt_zero {b d : Bytes} (h : d.length ≤ b.length) :
    (Bytes.writeAt b 0 d).length = b.length := by
  simp only [Bytes.writeAt, List.take_zero, List.nil_append, List.length_append,
    List.length_drop]
  omega

theorem take_writeAt_zero (b d e : Bytes) :
    (Bytes.writeAt b 0 (d ++ e)).take d.length = d := by
  simp [Bytes.writeAt, List.append_assoc]

theorem length_resize (b : Bytes) (n : Nat) : (BlockTemplate.resize b n).length = n := by
  simp only [BlockTemplate.resize, List.length_append, List.length_take, List.length_replicate]
  omega

theorem find_create (id : Int) (method : String) (params : Value) :
    find "id" (create id method params) = some (.number (.ofInt id)) := by
  simp [find, create]

theorem sized_sendSize {s : Sender} (h : Sized s) (size : Nat) (request : Value) (id : Option Int)
    (goes : Bool) : Sized (sendSize s size request id goes).1 := by
  cases goes <;> exact h

theorem room_spec {buf : Bytes} {size : Nat} (h : 1024 ≤ buf.length ∧ buf.length ≤ 17 * 1024)
    (hmax : size ≤ kMaxSendBufferSize) :
    size + 2 ≤ (room buf size).length ∧ 1024 ≤ (room buf size).length ∧
      (room buf size).length ≤ 17 * 1024 := by
  unfold kMaxSendBufferSize at hmax
  unfold room
  split
  · rw [length_resize]
    omega
  · omega

/-- A text that is copied has room for the newline and the zero behind it. -/
theorem sendObj_good {s : Sender} (hs : Sized s) {obj : Value} {id : Option Int}
    (hid : ∀ n ∈ id, find "id" obj = some (.number (.ofInt n))) (goes : Bool) :
    Sized (sendObj s obj id goes).1 ∧ ∀ c ∈ (sendObj s obj id goes).2, c.Good := by
  unfold sendObj
  split
  · exact ⟨hs, fun c hc => by cases hc⟩
  · rename_i hmax
    obtain ⟨hroom, hlo, hhi⟩ := room_spec hs (Nat.le_of_not_lt hmax)
    have hw : (write obj ++ [10, 0]).length ≤ (room s.sendBuf (write obj).length).length := by
      simpa using hroom
    have hl := length_writeAt_zero hw
    refine ⟨sized_sendSize ⟨?_, ?_⟩ _ _ _ _, fun c hc => ?_⟩
    · simpa only [hl] using hlo
    · simpa only [hl] using hhi
    · cases hc
      refine ⟨?_, ⟨write obj, ?_, newline_notMem_write obj, read_write obj⟩, hid⟩
      · rw [hl]
        omega
      · have ht := take_writeAt_zero (room s.sendBuf (write obj).length) (write obj ++ [10]) [0]
        rw [List.append_assoc, List.length_append] at ht
        exact ht

/-! ## The ping -/

theorem escape_plain {c : UInt8} (h : IsPlain c) : escape c = [c] := by
  obtain ⟨h₁, h₂, h₃⟩ := h
  have hall : ∀ n : Fin 256, (32 ≤ UInt8.ofFin n ∧ UInt8.ofFin n ≠ 34 ∧ UInt8.ofFin n ≠ 92) →
      escape (UInt8.ofFin n) = [UInt8.ofFin n] := by decide +kernel
  exact hall c.toFin ⟨h₁, h₂, h₃⟩

theorem writeString_plain {s : Bytes} (h : ∀ c ∈ s, IsPlain c) :
    writeString s = 34 :: (s ++ [34]) := by
  have he : s.flatMap escape = s := by
    induction s with
    | nil => rfl
    | cons c s ih =>
      rw [List.flatMap_cons, escape_plain (h c List.mem_cons_self),
        ih fun d hd => h d (List.mem_cons_of_mem _ hd)]
      rfl
  rw [writeString, he]

/-- What `ping` formats, member by member. -/
theorem pingText_eq (sequence : Int) (rpcId : Bytes) :
    pingText sequence rpcId =
      123 :: (writeMember (ascii "id", .number (.ofInt sequence)) ++
        44 :: (writeMember (ascii "jsonrpc", .string (ascii "2.0")) ++
          44 :: (writeMember (ascii "method", .string (ascii "keepalived")) ++
            44 :: (writeString (ascii "params") ++
              58 :: 123 :: (writeString (ascii "id") ++
                58 :: 34 :: (cstr rpcId ++ [34, 125, 125])))))) := by
  have h₁ : ascii "\x7b\"id\":" = 123 :: (writeString (ascii "id") ++ [58]) := by decide
  have h₂ : pingMiddle =
      44 :: (writeString (ascii "jsonrpc") ++ 58 :: (writeString (ascii "2.0") ++
        44 :: (writeString (ascii "method") ++ 58 :: (writeString (ascii "keepalived") ++
          44 :: (writeString (ascii "params") ++ 58 :: 123 :: (writeString (ascii "id") ++
            [58, 34])))))) := by decide
  have h₃ : ascii "\"\x7d\x7d" = [34, 125, 125] := by decide
  simp [pingText, h₁, h₂, h₃, writeMember, write, Number.ofInt]

/-- Without anything to escape, `ping` formats what the writer writes. -/
theorem pingText_plain (sequence : Int) {rpcId : Bytes} (h : ∀ c ∈ cstr rpcId, IsPlain c) :
    pingText sequence rpcId = write (pingRequest sequence rpcId) := by
  rw [pingText_eq]
  simp [pingRequest, create, write, writeMembers, writeMember, writeString_plain h]

/-- A quote with nothing but braces behind it is the last one. -/
theorem plain_of_readString {n : Nat} {s r : Bytes}
    (h : readString n (s ++ [34, 125, 125]) = some (s, r)) : ∀ c ∈ s, IsPlain c := by
  obtain ⟨e, he, hle, heq⟩ := readString_spec h
  have hlen : s.length = e.length := by
    by_contra hne
    have hget : (e ++ 34 :: r)[e.length]? = some 34 := by simp
    rw [← he, List.getElem?_append_right hle] at hget
    obtain ⟨k, hk⟩ : ∃ k, e.length - s.length = k + 1 := ⟨e.length - s.length - 1, by omega⟩
    rw [hk] at hget
    match k, hget with
    | 0, hget => cases hget
    | 1, hget => cases hget
    | k + 2, hget => cases hget
  obtain ⟨rfl, hall⟩ := heq hlen
  exact hall

theorem le_length_pingText (sequence : Int) (rpcId : Bytes) :
    8 ≤ (pingText sequence rpcId).length := by
  have h : 8 ≤ pingMiddle.length := by decide
  simp only [pingText, List.length_append]
  omega

/-- The text of `ping` reads as its request only if nothing had to be escaped. -/
theorem plain_of_read (sequence : Int) {rpcId : Bytes}
    (h : read (pingText sequence rpcId) = some (pingRequest sequence rpcId)) :
    ∀ c ∈ cstr rpcId, IsPlain c := by
  obtain ⟨n, hn⟩ : ∃ n, (pingText sequence rpcId).length + 1 = n + 9 :=
    ⟨(pingText sequence rpcId).length - 8, by
      have := le_length_pingText sequence rpcId
      omega⟩
  rw [JsonText.read, hn, pingText_eq, readValue_member,
    readMembers_member (by decide) (readValue_number _ _ (ends_cons (by decide))),
    if_pos rfl,
    readMembers_member (by decide) (readValue_string _ _ _), if_pos rfl,
    readMembers_member (by decide) (readValue_string _ _ _), if_pos rfl,
    readMembers_key, readValue_object, readMembers_key, readValue_quote] at h
  rcases hX : readString (cstr rpcId ++ [34, 125, 125]).length (cstr rpcId ++ [34, 125, 125])
    with _ | ⟨t, rest⟩
  · rw [hX] at h
    cases h
  · suffices ht : t = cstr rpcId by
      rw [ht] at hX
      exact plain_of_readString hX
    rw [hX] at h
    simp [Option.bind_eq_some_iff, Option.map_eq_some_iff, pingRequest, create] at h
    obtain ⟨_, ⟨_, params, h₁, h₂⟩, -⟩ := h
    have hp := head_readMore h₂
    simp only [List.head?_cons, Option.some.injEq, Prod.mk.injEq, Value.object.injEq,
      true_and] at hp
    have ht := head_readMore h₁
    simp only [← hp, List.head?_cons, Option.some.injEq, Prod.mk.injEq, Value.string.injEq,
      true_and] at ht
    exact ht.symm

theorem length_snprintf {buf : Bytes} (text : Bytes) (h : 1 ≤ buf.length) :
    (snprintf buf text).1.length = buf.length := by
  refine length_writeAt_zero ?_
  simp only [List.length_append, List.length_take, List.length_singleton]
  omega

/-- A text that fits with its zero is in the buffer as it is. -/
theorem take_snprintf {buf text : Bytes} (h : text.length < buf.length) :
    (snprintf buf text).1.take text.length = text := by
  have ht : text.take (buf.length - 1) = text := List.take_of_length_le (by omega)
  rw [snprintf, ht]
  exact take_writeAt_zero _ _ _

/-- A text that fills the buffer has lost its last character to the zero. -/
theorem last_snprintf {buf text : Bytes} (h : text.length = buf.length) (h0 : 1 ≤ buf.length) :
    (snprintf buf text).1.getLast? = some 0 := by
  have hl : (text.take (buf.length - 1) ++ [0]).length = buf.length := by
    simp only [List.length_append, List.length_take, List.length_singleton]
    omega
  have hw : (snprintf buf text).1 = text.take (buf.length - 1) ++ [0] := by
    simp only [snprintf, Bytes.writeAt, List.take_zero, List.nil_append, Nat.zero_add, hl,
      List.drop_length, List.append_nil]
  rw [hw]
  simp

/-- The size that `snprintf` returns, if it fits a buffer. -/
theorem size_snprintf {buf text : Bytes} (hb : buf.length ≤ 17 * 1024)
    (h : (snprintf buf text).2 ≤ buf.length) : (snprintf buf text).2 = text.length := by
  unfold snprintf at h ⊢
  dsimp only at h ⊢
  split at h
  · rename_i hlt
    exact if_pos hlt
  · omega

/-- What a good ping of `rpcId` says about the buffer and the rpc id. -/
theorem fits_of_good {s : Sender} (hs : Sized s) {rpcId : Bytes} {request : Value}
    {id : Option Int} (hr : request = pingRequest s.sequence rpcId)
    (h : (Call.sized (snprintf s.sendBuf (pingText s.sequence rpcId ++ [10])).2
      (snprintf s.sendBuf (pingText s.sequence rpcId ++ [10])).1.length
      ((snprintf s.sendBuf (pingText s.sequence rpcId ++ [10])).1.take
        (snprintf s.sendBuf (pingText s.sequence rpcId ++ [10])).2) request id).Good) :
    (pingText s.sequence rpcId ++ [10]).length < s.sendBuf.length ∧
      ∀ c ∈ cstr rpcId, IsPlain c := by
  obtain ⟨hsize, ⟨text, hbytes, -, hread⟩, -⟩ := h
  have hl := length_snprintf (pingText s.sequence rpcId ++ [10])
    (Nat.le_trans (by decide) hs.1)
  rw [hl] at hsize
  have hn := size_snprintf hs.2 hsize
  rw [hn] at hsize hbytes
  have hlt : (pingText s.sequence rpcId ++ [10]).length < s.sendBuf.length := by
    refine Nat.lt_of_le_of_ne hsize fun heq => ?_
    have hlast := last_snprintf heq (Nat.le_trans (by decide) hs.1)
    rw [List.take_of_length_le (by rw [hl, heq])] at hbytes
    rw [hbytes, List.getLast?_append] at hlast
    cases hlast
  refine ⟨hlt, plain_of_read s.sequence ?_⟩
  rw [take_snprintf hlt] at hbytes
  rw [List.append_cancel_right hbytes, hread, hr]

/-- A ping is good exactly if it fits. -/
theorem ping_good {s : Sender} (hs : Sized s) (goes : Bool) :
    Sized (ping s goes).1 ∧ ((∀ c ∈ (ping s goes).2, c.Good) ↔ PingFits s) := by
  unfold ping
  cases hid : s.rpcId with
  | none => exact ⟨hs, by simp [PingFits, hid, Call.Good]⟩
  | some rpcId =>
    have hl := length_snprintf (pingText s.sequence rpcId ++ [10])
      (Nat.le_trans (by decide) hs.1)
    refine ⟨sized_sendSize ⟨hl.symm ▸ hs.1, hl.symm ▸ hs.2⟩ _ _ _ _, fun h => ?_, fun h c hc => ?_⟩
    · exact ⟨rpcId, hid, fits_of_good hs rfl (h _ rfl)⟩
    · obtain ⟨_, hid', hlt, hplain⟩ := h
      cases hid.symm.trans hid'
      cases hc
      have hn : (snprintf s.sendBuf (pingText s.sequence rpcId ++ [10])).2 =
          (pingText s.sequence rpcId ++ [10]).length := by
        have := hs.2
        exact if_pos (by omega)
      refine ⟨?_, ⟨pingText s.sequence rpcId, ?_, ?_, ?_⟩, ?_⟩
      · rw [hn, hl]
        exact hlt.le
      · rw [hn]
        exact take_snprintf hlt
      · rw [pingText_plain _ hplain]
        exact newline_notMem_write _
      · rw [pingText_plain _ hplain]
        exact read_write _
      · rintro n ⟨⟩
        exact find_create _ _ _

theorem step_good {s : Sender} (hs : Sized s) (op : Op) :
    Sized (step s op).1 ∧ ((∀ c ∈ (step s op).2, c.Good) ↔ op.Fits s) := by
  cases op with
  | send obj goes =>
    have hf : ∀ n ∈ (none : Option Int), find "id" obj = some (.number (.ofInt n)) :=
      fun n hn => by cases hn
    obtain ⟨h, hgood⟩ := sendObj_good hs hf goes
    exact ⟨h, iff_of_true hgood trivial⟩
  | submit r goes =>
    have hf : ∀ rpcId, ∀ n ∈ some s.sequence,
        find "id" (submitRequest s.toMembers rpcId r) = some (.number (.ofInt n)) := by
      rintro rpcId n ⟨⟩
      exact find_create _ _ _
    simp only [step, submit]
    split
    · exact ⟨hs, iff_of_true (fun c hc => by cases hc) trivial⟩
    · split
      · exact ⟨hs, iff_of_true (fun c hc => by cases hc) trivial⟩
      · split
        · exact ⟨hs, iff_of_true (fun c hc => by cases hc) trivial⟩
        · obtain ⟨h, hgood⟩ := sendObj_good hs (hf _) goes
          exact ⟨h, iff_of_true hgood trivial⟩
  | login extra goes =>
    have hf : ∀ n ∈ some (1 : Int),
        find "id" (loginRequest s.toMembers extra) = some (.number (.ofInt n)) := by
      rintro n ⟨⟩
      exact find_create _ _ _
    obtain ⟨h, hgood⟩ := sendObj_good hs hf goes
    exact ⟨h, iff_of_true hgood trivial⟩
  | ping goes => exact ping_good hs goes
  | other m => exact ⟨hs, iff_of_true (fun c hc => by cases hc) trivial⟩

theorem calls_good {s : Sender} (hs : Sized s) (ops : List Op) :
    (∀ c ∈ calls s ops, c.Good) ↔ Fits s ops := by
  induction ops generalizing s with
  | nil => simp [calls, Fits]
  | cons op ops ih =>
    obtain ⟨hs', hop⟩ := step_good hs op
    simp only [calls, Fits, List.mem_append, Option.mem_toList, or_imp, forall_and, ih hs']
    exact and_congr_left' hop

theorem sized_init (m : Members) : Sized { toMembers := m } := by
  unfold Sized
  simp only [List.length_replicate]
  omega

/-- **One line for one request.** In every run, every size that is passed to
`send(size)` fits the buffer, and the bytes are one line that reads as the request
with its id, exactly if every ping fits the buffer it finds and has an rpc id that
needs no escape. -/
theorem send_lines (m : Members) (ops : List Op) :
    (∀ c ∈ calls { toMembers := m } ops, c.Good) ↔ Fits { toMembers := m } ops :=
  calls_good (sized_init m) ops

/-- A pool assigns an rpc id of a thousand characters, the client pings. -/
theorem send_lines_long :
    ¬ ∀ c ∈ calls { rpcId := some (List.replicate 1000 97) } [.ping true], c.Good := by
  intro h
  obtain ⟨⟨rpcId, hid, hlt, -⟩, -⟩ := (calls_good (sized_init _) _).mp h
  cases hid
  revert hlt
  decide +kernel

end Rxs.L3.SendBuffer
