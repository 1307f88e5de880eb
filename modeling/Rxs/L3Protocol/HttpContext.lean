import Rxs.Core.Bytes

/-!
# A message of HTTP, piece by piece

The parser calls `HttpContext` back for each span of a message: the url, the name and
the value of a header, a part of the body. A span that is cut by the end of a read is
reported in pieces, the last of which can have no bytes; so can an empty value.

A name is kept until the first piece of the next one, or the end of the headers, says
that its value is complete. The url is what its last piece is.

* `on_append`: two pieces of a span in a row are one, the url apart.
* **`message_pieces`**: the listener is handed what it is handed for a message that
  comes in one piece, exactly when the url comes with its last piece.
* `message_pieces_fails`: a request that is cut in its url, or behind it.
-/
namespace Rxs

open Rxs.Core

/-- The map of the headers, in the order they were inserted. -/
structure HttpData where
  method : Nat := 0
  status : Nat := 0
  headers : List (Bytes × Bytes) := []
  body : Bytes := []
  url : Bytes := []
  deriving DecidableEq, Repr

/-- `listener`: `m_listener` was not reset. Ghost: `handed` is what the listener was
called with. -/
structure HttpContext extends HttpData where
  wasHeaderValue : Bool := false
  lastHeaderField : Bytes := []
  lastHeaderValue : Bytes := []
  listener : Bool := true
  handed : List HttpData := []
  deriving DecidableEq, Repr

namespace HttpContext

/-- What the parser calls. A request has a method, a response a status. -/
inductive Callback where
  | url (piece : Bytes)
  | headerField (piece : Bytes)
  | headerValue (piece : Bytes)
  | headersComplete (method : Option Nat) (status : Nat)
  | body (piece : Bytes)
  | messageComplete
  deriving DecidableEq, Repr

def tolower (c : UInt8) : UInt8 := if 65 ≤ c ∧ c ≤ 90 then c + 32 else c

/-- What is in the map stays.
mirrors src/base/net/http/HttpContext.cpp:281-288 -/
def setHeader (s : HttpContext) : HttpContext :=
  let name := s.lastHeaderField.map tolower
  { s with
    headers := if (s.headers.lookup name).isSome then s.headers
      else s.headers ++ [(name, s.lastHeaderValue)]
    lastHeaderField := []
    lastHeaderValue := [] }

/-- A name without bytes is not set. -/
def commit (s : HttpContext) : HttpContext := if s.lastHeaderField = [] then s else setHeader s

/-- mirrors src/base/net/http/HttpContext.cpp:194-210 -/
def onHeaderField (s : HttpContext) (piece : Bytes) : HttpContext :=
  if s.wasHeaderValue then { commit s with lastHeaderField := piece, wasHeaderValue := false }
  else { s with lastHeaderField := s.lastHeaderField ++ piece }

/-- mirrors src/base/net/http/HttpContext.cpp:213-225 -/
def onHeaderValue (s : HttpContext) (piece : Bytes) : HttpContext :=
  if s.wasHeaderValue then { s with lastHeaderValue := s.lastHeaderValue ++ piece }
  else { s with lastHeaderValue := piece, wasHeaderValue := true }

/-- mirrors src/base/net/http/HttpContext.cpp:228-278 -/
def on (s : HttpContext) : Callback → HttpContext
  | .url piece => { s with url := piece }
  | .headerField piece => onHeaderField s piece
  | .headerValue piece => onHeaderValue s piece
  | .headersComplete method status => commit { s with status := status, method := method.getD s.method }
  | .body piece => { s with body := s.body ++ piece }
  | .messageComplete =>
    if s.listener then { s with handed := s.handed ++ [s.toHttpData], listener := false } else s

/-- A read, what the parser calls back for it, and whether it goes on. -/
structure Fragment where
  data : Bytes
  callbacks : List Callback
  ok : Bool := true
  deriving DecidableEq, Repr

/-- mirrors src/base/net/http/HttpContext.cpp:121-128 -/
def parse (s : HttpContext) (f : Fragment) : Bool × HttpContext :=
  if f.data = [] then (true, s) else (f.ok, f.callbacks.foldl on s)

/-- Behind a read that does not parse the context is closed.
mirrors src/base/net/http/HttpServer.cpp:48-58 -/
def reads (s : HttpContext) : List Fragment → HttpContext
  | [] => s
  | f :: fs => if (s.parse f).1 then reads (s.parse f).2 fs else (s.parse f).2

/-- A new context; a client has its path for the url.
mirrors src/base/net/http/HttpContext.cpp:75-93 -/
def create (url : Bytes) : HttpContext := { url := url }

end HttpContext

namespace L3.HttpContext

open Rxs.HttpContext

/-- A message, with what `α` has for each of its spans; a response has no url. -/
structure Message (α : Type) where
  url : Option α
  headers : List (α × α)
  method : Option Nat
  status : Nat
  body : List α
  trailers : List (α × α)

/-- A span in one piece or more. -/
structure Pieces where
  pieces : List Bytes
  ne_nil : pieces ≠ []

def Pieces.span (p : Pieces) : Bytes := p.pieces.flatten

def Pieces.whole (p : Pieces) : Pieces := ⟨[p.span], List.cons_ne_nil _ _⟩

def Pieces.report (p : Pieces) (f : Bytes → Callback) : List Callback := p.pieces.map f

namespace Message

/-- The message when it comes in one piece. -/
def whole (m : Message Pieces) : Message Pieces where
  url := m.url.map Pieces.whole
  headers := m.headers.map fun h => (h.1.whole, h.2.whole)
  method := m.method
  status := m.status
  body := m.body.map Pieces.whole
  trailers := m.trailers.map fun h => (h.1.whole, h.2.whole)

/-- The callbacks for names and values. -/
def fields (headers : List (Pieces × Pieces)) : List Callback :=
  headers.flatMap fun h => h.1.report .headerField ++ h.2.report .headerValue

/-- The callbacks behind the url, up to the end of the message. -/
def rest (m : Message Pieces) : List Callback :=
  fields m.headers ++ .headersComplete m.method m.status ::
    (m.body.flatMap (·.report .body) ++ fields m.trailers)

/-- What the parser calls for the message. -/
def callbacks (m : Message Pieces) : List Callback :=
  (m.url.elim [] (·.report .url)) ++ (m.rest ++ [.messageComplete])

/-- The reads are all read, and make these callbacks. -/
def Delivered (m : Message Pieces) (fs : List Fragment) : Prop :=
  (∀ f ∈ fs, f.ok = true) ∧
    (fs.filter (·.data ≠ [])).flatMap Fragment.callbacks = m.callbacks

/-- The url comes with its last piece. -/
def UrlWhole (m : Message Pieces) : Prop := ∀ u ∈ m.url, u.pieces.dropLast.flatten = []

end Message

open Message

/-! ## One span -/

/-- The callbacks that go on where the piece before them ended. -/
inductive Accumulates : (Bytes → Callback) → Prop
  | field : Accumulates .headerField
  | value : Accumulates .headerValue
  | body : Accumulates .body

/-- **Two pieces in a row are one**, in any state. -/
theorem on_append {f : Bytes → Callback} (hf : Accumulates f) (s : HttpContext) (a b : Bytes) :
    (s.on (f a)).on (f b) = s.on (f (a ++ b)) := by
  cases hf with
  | field =>
    simp only [on, onHeaderField]
    by_cases h : s.wasHeaderValue <;> simp [h]
  | value =>
    simp only [on, onHeaderValue]
    by_cases h : s.wasHeaderValue <;> simp [h]
  | body => simp [on]

theorem report_eq {f : Bytes → Callback} (hf : Accumulates f) (s : HttpContext) (p : Pieces) :
    (p.report f).foldl on s = s.on (f p.span) := by
  obtain ⟨pieces, hne⟩ := p
  obtain ⟨a, ps, rfl⟩ := List.exists_cons_of_ne_nil hne
  simp only [Pieces.report, Pieces.span, List.map_cons, List.foldl_cons, List.flatten_cons]
  clear hne
  induction ps generalizing a with
  | nil => simp
  | cons b ps ih =>
    rw [List.map_cons, List.foldl_cons, on_append hf, ih, List.flatten_cons, List.append_assoc]

theorem report_whole {f : Bytes → Callback} (hf : Accumulates f) (s : HttpContext) (p : Pieces) :
    (p.whole.report f).foldl on s = (p.report f).foldl on s := by
  rw [report_eq hf, report_eq hf]
  simp [Pieces.whole, Pieces.span]

theorem fields_whole (s : HttpContext) (headers : List (Pieces × Pieces)) :
    (fields (headers.map fun h => (h.1.whole, h.2.whole))).foldl on s =
      (fields headers).foldl on s := by
  induction headers generalizing s with
  | nil => rfl
  | cons h hs ih =>
    simp only [fields, List.map_cons, List.flatMap_cons, List.foldl_append] at ih ⊢
    rw [report_whole .field, report_whole .value]
    exact ih _

theorem body_whole (s : HttpContext) (body : List Pieces) :
    ((body.map Pieces.whole).flatMap (·.report .body)).foldl on s =
      (body.flatMap (·.report .body)).foldl on s := by
  induction body generalizing s with
  | nil => rfl
  | cons p ps ih =>
    simp only [List.map_cons, List.flatMap_cons, List.foldl_append]
    rw [report_whole .body, ih]

/-- Behind the url all pieces are one. -/
theorem rest_whole (s : HttpContext) (m : Message Pieces) :
    m.whole.rest.foldl on s = m.rest.foldl on s := by
  simp only [rest, Message.whole, List.foldl_append, List.foldl_cons]
  rw [fields_whole, body_whole, fields_whole]

/-! ## The url -/

/-- Only its last piece stays. -/
theorem report_url (s : HttpContext) (p : Pieces) :
    (p.report .url).foldl on s = { s with url := p.pieces.getLast p.ne_nil } := by
  obtain ⟨pieces, hne⟩ := p
  simp only [Pieces.report]
  induction pieces generalizing s with
  | nil => exact absurd rfl hne
  | cons a ps ih =>
    rw [List.map_cons, List.foldl_cons]
    cases ps with
    | nil => rfl
    | cons b ps =>
      rw [ih _ (List.cons_ne_nil _ _), List.getLast_cons (List.cons_ne_nil _ _)]
      rfl

/-- The last piece is the whole span if the others have no bytes. -/
theorem getLast_eq_span (p : Pieces) :
    p.pieces.getLast p.ne_nil = p.span ↔ p.pieces.dropLast.flatten = [] := by
  have hspan : p.span = p.pieces.dropLast.flatten ++ p.pieces.getLast p.ne_nil := by
    conv_lhs => rw [Pieces.span, ← List.dropLast_append_getLast p.ne_nil]
    simp
  rw [hspan]
  constructor
  · intro h
    have := congrArg List.length h
    rw [List.length_append] at this
    exact List.length_eq_zero_iff.mp (by omega)
  · intro h
    rw [h, List.nil_append]

/-- The callbacks between the url and the end of the message. -/
def Inner (c : Callback) : Prop := c ≠ .messageComplete ∧ ∀ piece, c ≠ .url piece

/-- They do not look at the url, and the listener is not called. -/
theorem on_inner {c : Callback} (hc : Inner c) (s : HttpContext) (u : Bytes) :
    on { s with url := u } c = { on s c with url := u } ∧
      (on s c).listener = s.listener ∧ (on s c).handed = s.handed := by
  cases c with
  | url piece => exact absurd rfl (hc.2 piece)
  | headerField piece =>
    simp only [on, onHeaderField, commit, setHeader]
    split <;> [split; skip] <;> exact ⟨rfl, rfl, rfl⟩
  | headerValue piece =>
    simp only [on, onHeaderValue]
    split <;> exact ⟨rfl, rfl, rfl⟩
  | headersComplete method status =>
    simp only [on, commit, setHeader]
    split <;> exact ⟨rfl, rfl, rfl⟩
  | body piece => exact ⟨rfl, rfl, rfl⟩
  | messageComplete => exact absurd rfl hc.1

theorem foldl_inner {cs : List Callback} (hcs : ∀ c ∈ cs, Inner c) (s : HttpContext) (u : Bytes) :
    cs.foldl on { s with url := u } = { cs.foldl on s with url := u } ∧
      (cs.foldl on s).listener = s.listener ∧ (cs.foldl on s).handed = s.handed := by
  induction cs generalizing s with
  | nil => exact ⟨rfl, rfl, rfl⟩
  | cons c cs ih =>
    obtain ⟨hc, hcs⟩ := List.forall_mem_cons.mp hcs
    obtain ⟨hurl, hlistener, hhanded⟩ := on_inner hc s u
    obtain ⟨hurl', hlistener', hhanded'⟩ := ih hcs (on s c)
    rw [List.foldl_cons, List.foldl_cons, hurl]
    exact ⟨hurl', hlistener'.trans hlistener, hhanded'.trans hhanded⟩

theorem inner_fields (headers : List (Pieces × Pieces)) : ∀ c ∈ fields headers, Inner c := by
  intro c hc
  simp only [fields, List.mem_flatMap, List.mem_append, Pieces.report, List.mem_map] at hc
  obtain ⟨h, _, ⟨_, _, rfl⟩ | ⟨_, _, rfl⟩⟩ := hc <;> simp [Inner]

theorem inner_rest (m : Message Pieces) : ∀ c ∈ m.rest, Inner c := by
  intro c hc
  simp only [rest, List.mem_append, List.mem_cons, List.mem_flatMap, Pieces.report,
    List.mem_map] at hc
  rcases hc with hc | rfl | ⟨_, _, _, _, rfl⟩ | hc
  · exact inner_fields _ c hc
  · simp [Inner]
  · simp [Inner]
  · exact inner_fields _ c hc

/-! ## The message -/

/-- The url that is kept: the context's own if the message has none. -/
def lastUrl (path : Bytes) : Option Pieces → Bytes
  | none => path
  | some u => u.pieces.getLast u.ne_nil

/-- **What is handed over**: the url, and what the rest of the message leaves. -/
theorem handed_callbacks (m : Message Pieces) (path : Bytes) :
    (m.callbacks.foldl on (create path)).handed =
      [{ (m.rest.foldl on (create path)).toHttpData with url := lastUrl path m.url }] := by
  have hstart : (m.url.elim [] (·.report .url)).foldl on (create path) =
      { create path with url := lastUrl path m.url } := by
    cases m.url with
    | none => rfl
    | some u => exact report_url _ u
  obtain ⟨hurl, hlistener, hhanded⟩ :=
    foldl_inner (inner_rest m) (create path) (lastUrl path m.url)
  rw [callbacks, List.foldl_append, hstart, List.foldl_append, hurl]
  simp only [List.foldl_cons, List.foldl_nil, on, hlistener, hhanded]
  rfl

theorem reads_delivered {m : Message Pieces} {fs : List Fragment} (h : m.Delivered fs)
    (s : HttpContext) : s.reads fs = m.callbacks.foldl on s := by
  obtain ⟨hok, hcs⟩ := h
  rw [← hcs]
  clear hcs
  induction fs generalizing s with
  | nil => rfl
  | cons f fs ih =>
    obtain ⟨hf, hok⟩ := List.forall_mem_cons.mp hok
    by_cases hd : f.data = []
    · simp only [reads, parse, hd, if_true, ih _ hok]
      simp [hd]
    · simp only [reads, parse, hd, if_false, hf, if_true, ih _ hok]
      simp [hd]

/-- **However the reads are cut**, the listener is handed the url, the headers and the
body it is handed for the message in one read: exactly when the url comes with its last
piece. -/
theorem message_pieces (m : Message Pieces) (path : Bytes) {fs : List Fragment} {once : Fragment}
    (hfs : m.Delivered fs) (honce : m.whole.Delivered [once]) :
    ((create path).reads fs).handed = ((create path).reads [once]).handed ↔ m.UrlWhole := by
  rw [reads_delivered hfs, reads_delivered honce, handed_callbacks, handed_callbacks, rest_whole]
  have hiff : lastUrl path m.url = lastUrl path m.whole.url ↔ m.UrlWhole := by
    unfold UrlWhole Message.whole
    cases m.url with
    | none => simp [lastUrl]
    | some u =>
      simp only [lastUrl, Option.map_some, Pieces.whole, List.getLast_singleton, Option.mem_def,
        Option.some.injEq, forall_eq']
      exact getLast_eq_span u
  rw [← hiff]
  simp

/-- `GET /12` with a header that has no value. -/
def request (url : Pieces) : Message Pieces where
  url := some url
  headers := [(⟨[[72], [79]], by decide⟩, ⟨[[]], by decide⟩)]
  method := some 1
  status := 0
  body := []
  trailers := []

/-- The read up to the name's first byte, the read behind it, and both in one. -/
def first (url : List Bytes) : Fragment :=
  ⟨[71, 69, 84, 32, 47, 49, 50, 32, 72, 84, 84, 80, 47, 49, 46, 49, 13, 10, 72],
    url.map .url ++ [.headerField [72]], true⟩

def second : Fragment :=
  ⟨[79, 58, 13, 10, 13, 10],
    [.headerField [79], .headerValue [], .headersComplete (some 1) 0, .messageComplete], true⟩

def both : Fragment :=
  ⟨(first [[47, 49, 50]]).data ++ second.data,
    [.url [47, 49, 50], .headerField [72, 79], .headerValue [], .headersComplete (some 1) 0,
      .messageComplete], true⟩

/-- A name is cut: it is put together. -/
theorem message_pieces_name :
    ((create []).reads [first [[47, 49, 50]], second]).handed = ((create []).reads [both]).handed :=
  (message_pieces (request ⟨[[47, 49, 50]], by decide⟩) [] (by unfold Delivered; decide)
    (by unfold Delivered; decide)).mpr (by
      intro u hu
      cases hu
      rfl)

/-- `GET /12` in two reads, cut in the url, or behind it. -/
theorem message_pieces_fails : (¬ ∀ (m : Message Pieces) (path : Bytes) (fs : List Fragment)
      (once : Fragment), m.Delivered fs → m.whole.Delivered [once] →
      ((create path).reads fs).handed = ((create path).reads [once]).handed) ∧
    (request ⟨[[47, 49], [50]], by decide⟩).Delivered
      [⟨[71, 69, 84, 32, 47, 49], [.url [47, 49]], true⟩,
        ⟨(first []).data.drop 6, [.url [50], .headerField [72]], true⟩, second] ∧
    ((create []).reads [⟨[71, 69, 84, 32, 47, 49], [.url [47, 49]], true⟩,
      ⟨(first []).data.drop 6, [.url [50], .headerField [72]], true⟩, second]).handed.map
        HttpData.url = [[50]] ∧
    ((create []).reads [⟨[71, 69, 84, 32, 47, 49, 50], [.url [47, 49, 50]], true⟩,
      ⟨(first []).data.drop 7, [.url [], .headerField [72]], true⟩, second]).handed.map
        HttpData.url = [[]] ∧
    ((create []).reads [both]).handed.map HttpData.url = [[47, 49, 50]] := by
  refine ⟨fun h => ?_, by unfold Delivered; decide, by decide, by decide, by decide⟩
  have hcut := h (request ⟨[[47, 49], [50]], by decide⟩) []
    [⟨[71, 69, 84, 32, 47, 49], [.url [47, 49]], true⟩,
      ⟨(first []).data.drop 6, [.url [50], .headerField [72]], true⟩, second] both
    (by unfold Delivered; decide) (by unfold Delivered; decide)
  exact absurd hcut (by decide)

end L3.HttpContext

end Rxs
