import Mathlib.Algebra.Group.Nat.Defs
import Mathlib.Data.List.Nodup
import Rxs.Core.LTS

/-!
# Lookups of one host

`DnsUvBackend` asks the system for the addresses of one host and tells everyone who
waits. `resolve` calls are numbered; a number stands for the request object of the
call, which the backend holds weakly. All of it runs on the event loop's thread, and
a listener may call `resolve` again from inside `onResolved`.

`notify` walks the queue with iterators, which any change of the queue invalidates: a
`Walk` that is `stale` may not go on. One `Event` is a call, a callback of the loop, or
the next turn of the innermost walk. `bad`: something undefined has happened.

* `step`: one event; `none` if it cannot happen now.
* `Once`: nobody is told twice and nobody who waits is dropped.
* `inv_step`: what calls from outside keep.
* **`answered_once`**: with no calls from inside, and no answer from the cache while
  the system is asked, everyone is told once.
* `answered_once_fails`: a call from inside.
-/
namespace Rxs

open Rxs.Core

inductive AddressFamily where
  | AF_UNSPEC | AF_INET | AF_INET6
  deriving DecidableEq, Repr

/-- An address as the system returns it. -/
structure DnsRecord where
  family : AddressFamily
  ip : String
  deriving DecidableEq, Repr

namespace DnsRecords

/-- mirrors src/base/net/dns/DnsRecords.cpp:27-58 -/
def family (res : List DnsRecord) (ai_family : AddressFamily) : AddressFamily :=
  if ai_family = .AF_INET6 ∧ res.all (·.family ≠ .AF_INET6) then .AF_INET else ai_family

/-- mirrors src/base/net/dns/DnsRecords.cpp:64-94 -/
def ofAddrinfo (res : List DnsRecord) (ai_family : AddressFamily) : List DnsRecord :=
  match family res ai_family with
  | .AF_UNSPEC => res.filter (·.family ≠ .AF_UNSPEC)
  | f => res.filter (·.family = f)

end DnsRecords

/-- A loop over the queue: `inside` while the listener it has come to runs. -/
structure Walk where
  index : Nat := 0
  stop : Nat
  inside : Bool := false
  stale : Bool := false
  deriving DecidableEq, Repr

/-- Ghosts: `next` numbers the calls, `dead` are the requests that were destroyed,
`asked` is that the system works on `m_req`, `told` is who was told what. -/
structure DnsUvBackend where
  records : List DnsRecord := []
  ai_family : AddressFamily := .AF_UNSPEC
  status : Int := 0
  queue : List Nat := []
  req : Bool := false
  ts : Nat := 0
  walks : List Walk := []
  asked : Bool := false
  next : Nat := 0
  dead : List Nat := []
  told : List (Nat × List DnsRecord × Int) := []
  bad : Bool := false
  deriving DecidableEq, Repr

namespace DnsUvBackend

/-- The system knows no such name. -/
def UV_EAI_NONAME : Int := -3008

/-- The calls that were answered. -/
def answered (s : DnsUvBackend) : List Nat := s.told.map (·.1)

/-- The loop over the queue begins.
mirrors src/base/net/dns/DnsUvBackend.cpp:105-109 -/
def notify (s : DnsUvBackend) : DnsUvBackend :=
  { s with walks := { stop := s.queue.length } :: s.walks }

def spoil (w : Walk) : Walk := { w with stale := true }

/-- `queue` is another: no walk may go on. -/
def setQueue (s : DnsUvBackend) (queue : List Nat) : DnsUvBackend :=
  { s with queue := queue, walks := s.walks.map spoil }

/-- The clock's difference is one of 64-bit words.
mirrors src/base/net/dns/DnsUvBackend.cpp:78 -/
def cached (s : DnsUvBackend) (ttl now : Nat) : Prop := (now + 2 ^ 64 - s.ts) % 2 ^ 64 ≤ ttl

instance (s : DnsUvBackend) (ttl now : Nat) : Decidable (s.cached ttl now) := by
  unfold cached
  infer_instance

/-- `start` is what `uv_getaddrinfo` returns.
mirrors src/base/net/dns/DnsUvBackend.cpp:74-102 -/
def resolve (s : DnsUvBackend) (ttl : Nat) (ai_family : AddressFamily) (now : Nat) (start : Int) :
    DnsUvBackend :=
  let s := { s.setQueue (s.queue ++ [s.next]) with next := s.next + 1 }
  if s.cached ttl now then notify s
  else if s.req then s
  else
    let s := { s with ai_family := ai_family, req := true, status := start }
    if start = 0 then { s with asked := true } else notify s

/-- The innermost walk goes on: it tells the next listener that is still there, or
ends, which clears the queue and frees the request.
mirrors src/base/net/dns/DnsUvBackend.cpp:109-118 -/
def walk (s : DnsUvBackend) (w : Walk) (ws : List Walk) : DnsUvBackend :=
  if w.stale then { s with bad := true }
  else if h : w.index < w.stop ∧ w.index < s.queue.length then
    let n := s.queue[w.index]
    if n ∈ s.dead then { s with walks := { w with index := w.index + 1, inside := false } :: ws }
    else
      { s with walks := { w with index := w.index + 1, inside := true } :: ws
               told := s.told ++ [(n, s.records, s.status)] }
  else
    { { s with walks := ws }.setQueue [] with req := false, bad := s.bad || s.asked }

/-- mirrors src/base/net/dns/DnsUvBackend.cpp:121-150 -/
def onResolved (s : DnsUvBackend) (status : Int) (res : List DnsRecord) (now : Nat) :
    DnsUvBackend :=
  let s := { s with asked := false, status := status, ts := now }
  if status < 0 then notify { s with records := [] }
  else
    let s := { s with records := DnsRecords.ofAddrinfo res s.ai_family }
    notify (if s.records = [] then { s with status := UV_EAI_NONAME } else s)

inductive Event where
  | resolve (ttl : Nat) (ai_family : AddressFamily) (now : Nat) (start : Int)
  | onResolved (status : Int) (res : List DnsRecord) (now : Nat)
  | walk
  | destroy (n : Nat)
  deriving DecidableEq, Repr

/-- Code of others runs: there is no walk, or the innermost is at a listener. -/
def outside (s : DnsUvBackend) : Bool := s.walks.head?.all (·.inside)

def step (s : DnsUvBackend) : Event → Option DnsUvBackend
  | .resolve ttl ai_family now start =>
    if s.bad = false ∧ s.outside then some (resolve s ttl ai_family now start) else none
  | .onResolved status res now =>
    if s.bad = false ∧ s.walks = [] ∧ s.asked then some (onResolved s status res now) else none
  | .walk =>
    match s.walks with
    | w :: ws => if s.bad = false then some (walk s w ws) else none
    | [] => none
  | .destroy n =>
    if s.bad = false ∧ s.outside then some { s with dead := n :: s.dead } else none

def lts : LTS DnsUvBackend Event := .ofFn {} step

end DnsUvBackend

namespace L3.DnsUvBackend

open Rxs.DnsUvBackend

/-! ## What is asked of the backend -/

/-- Nobody is told twice, and everyone who made a call and is still there was told or
waits, for the system or for the walk. -/
structure Once (s : DnsUvBackend) : Prop where
  defined : s.bad = false
  once : s.answered.Nodup
  called : ∀ n ∈ s.answered, n < s.next
  waits : ∀ n < s.next, n ∉ s.dead →
    n ∈ s.answered ∨ n ∈ s.queue ∧ (s.asked = true ∨ s.walks ≠ [])

/-- Everyone who is still there was told. -/
def Settled (s : DnsUvBackend) : Prop := ∀ n < s.next, n ∉ s.dead → n ∈ s.answered

/-- A call comes from outside, and is answered from the cache only if the system is
not asked. -/
def Ok (s : DnsUvBackend) : DnsUvBackend.Event → Prop
  | .resolve ttl _ now _ => s.walks = [] ∧ (s.cached ttl now → s.asked = false)
  | _ => True

/-! ## What calls from outside keep -/

/-- `left` are those who are still to be told. -/
structure Queued (s : DnsUvBackend) (left : List Nat) : Prop where
  queue : s.queue.Nodup
  below : ∀ n ∈ s.queue, n < s.next
  once : s.answered.Nodup
  called : ∀ n ∈ s.answered, n < s.next
  fresh : ∀ n ∈ left, n ∉ s.answered
  waits : ∀ n < s.next, n ∉ s.dead → n ∈ s.answered ∨ n ∈ left

theorem Queued.congr {s s' : DnsUvBackend} {l : List Nat} (h : Queued s l)
    (hq : s'.queue = s.queue) (hn : s'.next = s.next) (ht : s'.told = s.told)
    (hd : s'.dead = s.dead) : Queued s' l := by
  have ha : s'.answered = s.answered := by
    unfold answered
    rw [ht]
  constructor
  · rw [hq]
    exact h.queue
  · rw [hq, hn]
    exact h.below
  · rw [ha]
    exact h.once
  · rw [ha, hn]
    exact h.called
  · rw [ha]
    exact h.fresh
  · rw [hn, hd, ha]
    exact h.waits

/-- No walk: those who are left wait for the system. -/
structure Idle (s : DnsUvBackend) : Prop where
  walks : s.walks = []
  queued : Queued s s.queue
  asked : s.queue ≠ [] → s.asked = true
  req : s.req = s.asked

/-- One walk, which may go on. -/
structure Walking (s : DnsUvBackend) (w : Walk) : Prop where
  walks : s.walks = [w]
  queued : Queued s (s.queue.drop w.index)
  stale : w.stale = false
  stop : w.stop = s.queue.length
  index : w.index ≤ s.queue.length
  asked : s.asked = false

def Inv (s : DnsUvBackend) : Prop := s.bad = false ∧ (Idle s ∨ ∃ w, Walking s w)

theorem inv_init : Inv {} :=
  ⟨rfl, .inl ⟨rfl, ⟨List.nodup_nil, nofun, List.nodup_nil, nofun, nofun, nofun⟩, nofun, rfl⟩⟩

/-- A walk begins. -/
theorem walking_notify {s : DnsUvBackend} (hw : s.walks = []) (hq : Queued s s.queue)
    (ha : s.asked = false) : Walking (notify s) { stop := s.queue.length } where
  walks := by
    unfold notify
    rw [hw]
  queued := hq.congr rfl rfl rfl rfl
  stale := rfl
  stop := rfl
  index := Nat.zero_le _
  asked := ha

/-- The queue that a call leaves. -/
theorem queued_call {s : DnsUvBackend} (h : Queued s s.queue) :
    Queued { s.setQueue (s.queue ++ [s.next]) with next := s.next + 1 } (s.queue ++ [s.next]) where
  queue := by
    refine List.nodup_append.mpr ⟨h.queue, List.nodup_singleton _, ?_⟩
    intro n hn m hm he
    have := h.below n hn
    have := List.mem_singleton.mp hm
    omega
  below n hn := by
    show n < s.next + 1
    rcases List.mem_append.mp hn with hn | hn
    · have := h.below n hn
      omega
    · have := List.mem_singleton.mp hn
      omega
  once := h.once
  called n hn := Nat.lt_succ_of_lt (h.called n hn)
  fresh n hn ha := by
    rcases List.mem_append.mp hn with hn | hn
    · exact h.fresh n hn ha
    · have := h.called n ha
      have := List.mem_singleton.mp hn
      omega
  waits n hn hd := by
    by_cases hnew : n = s.next
    · exact .inr (List.mem_append_right _ (List.mem_singleton.mpr hnew))
    · have hn : n < s.next + 1 := hn
      rcases h.waits n (by omega) hd with ha | hq
      · exact .inl ha
      · exact .inr (List.mem_append_left _ hq)

/-- **A call from outside.** -/
theorem inv_resolve {s : DnsUvBackend} (hbad : s.bad = false) (h : Idle s) {ttl now : Nat}
    (hc : s.cached ttl now → s.asked = false) (ai_family : AddressFamily) (start : Int) :
    Inv (resolve s ttl ai_family now start) := by
  have hq := queued_call h.queued
  have hw : { s.setQueue (s.queue ++ [s.next]) with next := s.next + 1 }.walks = [] := by
    show s.walks.map spoil = []
    rw [h.walks]
    rfl
  unfold resolve
  simp only
  by_cases hcached : s.cached ttl now
  · rw [if_pos (by exact hcached)]
    exact ⟨hbad, .inr ⟨_, walking_notify hw hq (hc hcached)⟩⟩
  · rw [if_neg (by exact hcached)]
    by_cases hreq : s.req = true
    · rw [if_pos (by exact hreq)]
      exact ⟨hbad, .inl ⟨hw, hq, fun _ => h.req ▸ hreq, h.req⟩⟩
    · rw [if_neg (by exact hreq)]
      have hasked : s.asked = false := by
        rw [← h.req]
        exact Bool.not_eq_true _ |>.mp hreq
      by_cases hstart : start = 0
      · rw [if_pos hstart]
        exact ⟨hbad, .inl ⟨hw, hq.congr rfl rfl rfl rfl, fun _ => rfl, rfl⟩⟩
      · rw [if_neg hstart]
        exact ⟨hbad, .inr ⟨_, walking_notify hw (hq.congr rfl rfl rfl rfl) hasked⟩⟩

/-- **The answer of the system.** -/
theorem inv_onResolved {s : DnsUvBackend} (hbad : s.bad = false) (h : Idle s) (status : Int)
    (res : List DnsRecord) (now : Nat) : Inv (onResolved s status res now) := by
  unfold onResolved
  simp only
  split
  · exact ⟨hbad, .inr ⟨_, walking_notify h.walks (h.queued.congr rfl rfl rfl rfl) rfl⟩⟩
  · split
    · exact ⟨hbad, .inr ⟨_, walking_notify h.walks (h.queued.congr rfl rfl rfl rfl) rfl⟩⟩
    · exact ⟨hbad, .inr ⟨_, walking_notify h.walks (h.queued.congr rfl rfl rfl rfl) rfl⟩⟩

/-- **One turn of the walk**: it comes nearer to its end, and at the end everyone who
is still there was told. -/
theorem inv_walk {s : DnsUvBackend} {w : Walk} (hbad : s.bad = false) (h : Walking s w) :
    let s' := walk s w []
    s'.bad = false ∧ s'.next = s.next ∧ s'.dead = s.dead ∧
      ((w.index = w.stop ∧ Idle s' ∧ s'.asked = false) ∨
        ∃ w', Walking s' w' ∧ w'.stop = w.stop ∧ w'.index = w.index + 1) := by
  intro s'
  have hdef : s' = walk s w [] := rfl
  clear_value s'
  unfold walk at hdef
  have hindex := h.index
  have hstop := h.stop
  rw [if_neg (by rw [h.stale]; exact Bool.false_ne_true)] at hdef
  by_cases hlt : w.index < w.stop ∧ w.index < s.queue.length
  · rw [dif_pos hlt] at hdef
    have hq := h.queued
    rw [List.drop_eq_getElem_cons hlt.2] at hq
    obtain ⟨hqueue, hbelow, honce, hcalled, hfresh, hwaits⟩ := hq
    have hmem : s.queue[w.index] ∈ s.queue := List.getElem_mem hlt.2
    simp only at hdef
    by_cases hdead : s.queue[w.index] ∈ s.dead
    · rw [if_pos hdead] at hdef
      refine ⟨hdef ▸ hbad, hdef ▸ rfl, hdef ▸ rfl, .inr ⟨{ w with index := w.index + 1, inside := false },
        ?_, rfl, rfl⟩⟩
      rw [hdef]
      refine ⟨rfl, ⟨hqueue, hbelow, honce, hcalled, fun n hn => hfresh n (.tail _ hn), ?_⟩,
        h.stale, h.stop, hlt.2, h.asked⟩
      intro n hn hd
      rcases hwaits n hn hd with ha | hl
      · exact .inl ha
      · rcases List.mem_cons.mp hl with he | hl
        · exact absurd (he ▸ hdead) hd
        · exact .inr hl
    · rw [if_neg hdead] at hdef
      refine ⟨hdef ▸ hbad, hdef ▸ rfl, hdef ▸ rfl, .inr ⟨{ w with index := w.index + 1, inside := true },
        ?_, rfl, rfl⟩⟩
      have ha : s'.answered = s.answered ++ [s.queue[w.index]] := by
        rw [hdef]
        exact List.map_append
      have hnodup : (s.queue.drop w.index).Nodup := hqueue.sublist (List.drop_sublist _ _)
      rw [List.drop_eq_getElem_cons hlt.2] at hnodup
      have hnot := (List.nodup_cons.mp hnodup).1
      have hq' : Queued s' (s.queue.drop (w.index + 1)) := by
        refine ⟨hdef ▸ hqueue, hdef ▸ hbelow, ?_, ?_, ?_, ?_⟩
        · rw [ha]
          refine List.nodup_append.mpr ⟨honce, List.nodup_singleton _, ?_⟩
          intro n hn m hm he
          rw [List.mem_singleton.mp hm] at he
          exact hfresh _ List.mem_cons_self (he ▸ hn)
        · intro n hn
          rw [ha] at hn
          rw [hdef]
          rcases List.mem_append.mp hn with hn | hn
          · exact hcalled n hn
          · exact hbelow n (List.mem_singleton.mp hn ▸ hmem)
        · intro n hn hin
          rw [ha] at hin
          rcases List.mem_append.mp hin with hin | hin
          · exact hfresh n (.tail _ hn) hin
          · exact hnot (List.mem_singleton.mp hin ▸ hn)
        · intro n hn hd
          rw [ha]
          rw [hdef] at hn hd
          rcases hwaits n hn hd with hin | hl
          · exact .inl (List.mem_append_left _ hin)
          · rcases List.mem_cons.mp hl with he | hl
            · exact .inl (List.mem_append_right _ (List.mem_singleton.mpr he))
            · exact .inr hl
      rw [hdef] at hq' ⊢
      exact ⟨rfl, hq', h.stale, h.stop, hlt.2, h.asked⟩
  · rw [dif_neg hlt] at hdef
    have hend : w.index = s.queue.length := by omega
    have hq := h.queued
    rw [hend, List.drop_length] at hq
    have hbad' : s'.bad = false := by
      rw [hdef]
      show (s.bad || s.asked) = false
      rw [hbad, h.asked]
      rfl
    refine ⟨hbad', hdef ▸ rfl, hdef ▸ rfl, .inl ⟨by omega, ?_, hdef ▸ h.asked⟩⟩
    rw [hdef]
    exact ⟨rfl, ⟨List.nodup_nil, nofun, hq.once, hq.called, nofun, hq.waits⟩, fun h0 => absurd rfl h0,
      h.asked.symm⟩

theorem queued_destroy {s : DnsUvBackend} {l : List Nat} (h : Queued s l) (n : Nat) :
    Queued { s with dead := n :: s.dead } l where
  queue := h.queue
  below := h.below
  once := h.once
  called := h.called
  fresh := h.fresh
  waits m hm hd := h.waits m hm fun hin => hd (List.mem_cons_of_mem _ hin)

theorem inv_step {s s' : DnsUvBackend} {e : DnsUvBackend.Event} (h : Inv s) (hok : Ok s e)
    (hs : step s e = some s') : Inv s' := by
  obtain ⟨hbad, h⟩ := h
  cases e with
  | resolve ttl ai_family now start =>
    obtain ⟨hw, hc⟩ := hok
    simp only [step] at hs
    split at hs
    · cases hs
      rcases h with h | ⟨w, h⟩
      · exact inv_resolve hbad h hc ai_family start
      · rw [h.walks] at hw
        cases hw
    · cases hs
  | onResolved status res now =>
    simp only [step] at hs
    split at hs
    · rename_i hg
      cases hs
      rcases h with h | ⟨w, h⟩
      · exact inv_onResolved hbad h status res now
      · rw [h.walks] at hg
        cases hg.2.1
    · cases hs
  | walk =>
    simp only [step] at hs
    rcases h with h | ⟨w, h⟩
    · rw [h.walks] at hs
      cases hs
    · rw [h.walks] at hs
      simp only [if_pos hbad] at hs
      cases hs
      obtain ⟨hbad', -, -, ⟨-, hi, -⟩ | ⟨w', hw', -, -⟩⟩ := inv_walk hbad h
      · exact ⟨hbad', .inl hi⟩
      · exact ⟨hbad', .inr ⟨w', hw'⟩⟩
  | destroy n =>
    simp only [step] at hs
    split at hs
    · cases hs
      refine ⟨hbad, ?_⟩
      rcases h with h | ⟨w, h⟩
      · exact .inl ⟨h.walks, queued_destroy h.queued n, h.asked, h.req⟩
      · exact .inr ⟨w, h.walks, queued_destroy h.queued n, h.stale, h.stop, h.index, h.asked⟩
    · cases hs

/-! ## The law -/

theorem inv_reachable {s : DnsUvBackend} (h : (lts.restrict Ok).Reachable s) : Inv s := by
  refine LTS.reachable_induction (fun s hs => ?_) (fun s e s' _ hi hs => ?_) h
  · cases hs
    exact inv_init
  · exact inv_step hi hs.1 hs.2

theorem once_of_inv {s : DnsUvBackend} (h : Inv s) : Once s := by
  obtain ⟨hbad, h | ⟨w, h⟩⟩ := h
  · refine ⟨hbad, h.queued.once, h.queued.called, fun n hn hd => ?_⟩
    rcases h.queued.waits n hn hd with ha | hl
    · exact .inl ha
    · exact .inr ⟨hl, .inl (h.asked (List.ne_nil_of_mem hl))⟩
  · refine ⟨hbad, h.queued.once, h.queued.called, fun n hn hd => ?_⟩
    rcases h.queued.waits n hn hd with ha | hl
    · exact .inl ha
    · refine .inr ⟨List.mem_of_mem_drop hl, .inr ?_⟩
      rw [h.walks]
      exact List.cons_ne_nil _ _

/-- The walk alone comes to its end. -/
theorem walk_settles {s : DnsUvBackend} {w : Walk} (hbad : s.bad = false) (h : Walking s w) :
    ∃ k s', LTS.exec step s (List.replicate k .walk) = some s' ∧ s'.next = s.next ∧
      s'.dead = s.dead ∧ s'.walks = [] ∧ Settled s' := by
  induction hm : w.stop - w.index generalizing s w with
  | zero =>
    obtain ⟨-, hn, hd, ⟨-, hi, ha⟩ | ⟨w', hw', hstop, hindex⟩⟩ := inv_walk hbad h
    · refine ⟨1, walk s w [], ?_, hn, hd, hi.walks, fun n hlt hnd => ?_⟩
      · simp only [List.replicate_one, LTS.exec, step, h.walks, if_pos hbad, Option.bind_some]
      · rcases hi.queued.waits n hlt hnd with hin | hq
        · exact hin
        · have := hi.asked (List.ne_nil_of_mem hq)
          rw [ha] at this
          cases this
    · have := hw'.index
      have := hw'.stop
      omega
  | succ m ih =>
    obtain ⟨hbad', hn, hd, ⟨heq, -, -⟩ | ⟨w', hw', hstop, hindex⟩⟩ := inv_walk hbad h
    · omega
    · obtain ⟨k, s', hrun, hn', hd', hwalks, hset⟩ := ih hbad' hw' (by omega)
      refine ⟨k + 1, s', ?_, hn'.trans hn, hd'.trans hd, hwalks, hset⟩
      rw [List.replicate_succ]
      simp only [LTS.exec, step, h.walks, if_pos hbad, Option.bind_some]
      exact hrun

/-- **Everyone is told once**: in every run whose calls come from outside, and are
answered from the cache only while the system is not asked. The answer of the
system, or the walk that has begun, tells everyone who waits. -/
theorem answered_once {s : DnsUvBackend} (h : (lts.restrict Ok).Reachable s) :
    Once s ∧ (s.walks = [] → s.asked = false → Settled s) ∧
      (s.walks = [] → s.asked = true → ∀ status res now, ∃ k s',
        LTS.exec step s (.onResolved status res now :: List.replicate k .walk) = some s' ∧
          s'.next = s.next ∧ s'.dead = s.dead ∧ s'.walks = [] ∧ Settled s') ∧
      (s.walks ≠ [] → ∃ k s', LTS.exec step s (List.replicate k .walk) = some s' ∧
        s'.next = s.next ∧ s'.dead = s.dead ∧ s'.walks = [] ∧ Settled s') := by
  have hi := inv_reachable h
  have honce := once_of_inv hi
  refine ⟨honce, fun hw ha n hn hd => ?_, fun hw ha status res now => ?_, fun hw => ?_⟩
  · rcases honce.waits n hn hd with hin | ⟨-, hq | hq⟩
    · exact hin
    · rw [ha] at hq
      cases hq
    · exact absurd hw hq
  · obtain ⟨hbad, hi | ⟨w, hi⟩⟩ := hi
    · have hstep : step s (.onResolved status res now) = some (onResolved s status res now) := by
        simp only [step]
        exact if_pos ⟨hbad, hw, ha⟩
      have hwalk : ∃ w, Walking (onResolved s status res now) w := by
        obtain ⟨-, hidle | hwalk⟩ := inv_onResolved hbad hi status res now
        · exfalso
          have hne : (onResolved s status res now).walks ≠ [] := by
            unfold onResolved
            simp only
            split
            · exact List.cons_ne_nil _ _
            · split <;> exact List.cons_ne_nil _ _
          exact hne hidle.walks
        · exact hwalk
      have hsame : (onResolved s status res now).next = s.next ∧
          (onResolved s status res now).dead = s.dead := by
        unfold onResolved
        simp only
        split
        · exact ⟨rfl, rfl⟩
        · split <;> exact ⟨rfl, rfl⟩
      obtain ⟨w, hwalk⟩ := hwalk
      obtain ⟨k, s', hrun, hn, hd, hws, hset⟩ :=
        walk_settles (inv_onResolved hbad hi status res now).1 hwalk
      refine ⟨k, s', ?_, hn.trans hsame.1, hd.trans hsame.2, hws, hset⟩
      simp only [LTS.exec, hstep, Option.bind_some]
      exact hrun
    · rw [hi.walks] at hw
      cases hw
  · obtain ⟨hbad, hi | ⟨w, hi⟩⟩ := hi
    · exact absurd hi.walks hw
    · exact walk_settles hbad hi

/-- Two calls before the answer, and the second listener is destroyed. -/
def twoCalls : List DnsUvBackend.Event :=
  [.resolve 30000 .AF_UNSPEC 100000 0, .resolve 30000 .AF_UNSPEC 100000 0, .destroy 1,
    .onResolved 0 [⟨.AF_INET, "1.2.3.4"⟩] 100100, .walk, .walk]

instance (s : DnsUvBackend) (e : DnsUvBackend.Event) : Decidable (Ok s e) := by
  cases e <;> unfold Ok <;> infer_instance

theorem answered_once_twoCalls :
    ∃ s, LTS.execOk step Ok {} twoCalls = some s ∧ s.answered = [0] ∧ Once s := by
  obtain ⟨s, hs⟩ : ∃ s, LTS.execOk step Ok {} twoCalls = some s :=
    Option.isSome_iff_exists.mp (by decide)
  have he : (LTS.execOk step Ok {} twoCalls).map answered = some [0] := by decide
  simp only [hs, Option.map_some, Option.some.injEq] at he
  have hr : (lts.restrict Ok).Reachable s := LTS.reachable_of_execOk hs
  exact ⟨s, hs, he, (answered_once hr).1⟩

/-- The first listener calls from inside, and is told again. -/
def callFromInside : List DnsUvBackend.Event :=
  [.resolve 30000 .AF_UNSPEC 100000 0, .onResolved 0 [⟨.AF_INET, "1.2.3.4"⟩] 100100, .walk,
    .resolve 30000 .AF_UNSPEC 100100 0, .walk]

theorem answered_once_fails : ¬ ∀ s, lts.Reachable s → Once s := by
  intro h
  obtain ⟨s, hs⟩ : ∃ s, LTS.exec step {} callFromInside = some s :=
    Option.isSome_iff_exists.mp (by decide)
  have he : (LTS.exec step {} callFromInside).map answered = some [0, 0] := by decide
  simp only [hs, Option.map_some, Option.some.injEq] at he
  have hr : lts.Reachable s := LTS.reachable_of_exec hs
  have honce := (h s hr).once
  rw [he] at honce
  exact absurd honce (by decide)

end L3.DnsUvBackend

end Rxs
