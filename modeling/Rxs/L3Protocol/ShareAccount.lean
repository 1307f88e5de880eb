import Rxs.Core.LTS
import Rxs.Core.Ledger
import Rxs.L3Protocol.Session

/-!
# Shares and callbacks

A share or a callback is registered under the sequence number before its request is
sent, and the number only moves on if the request goes out. A send that fails leaves
the registration behind: the next request takes the same number, and its response
reports the share or runs the callback.

Shares and callbacks are numbered from one counter and leave their map when they are
reported or run, so the ledger's law makes them come at most once. `Ok` excludes that
a request takes a number with a registration left behind, and a response that answers
no request and finds one.

* `inv_step`: the invariant, one lemma for each request and for a line.
* **`share_accounting`**: in every run of `Ok` steps.
* `share_accounting_fails`: a share that is never sent is reported.
-/
namespace Rxs.L3.ShareAccount

open Rxs.Core Rxs.Session

/-- `conn` is whatever happens to the connection, `others` are requests of other
clients, which draw from the same sequence. -/
inductive Event where
  | login (big : Bool) (w : Client.Write) (now : Nat)
  | submit (r : JobResult) (big : Bool) (w : Client.Write) (now : Nat)
  | ping (w : Client.Write) (now : Nat)
  | request (big : Bool) (w : Client.Write) (now : Nat)
  | line (env : Env) (doc : Option Json)
  | conn (c : Client)
  | others (n : Nat)

def step (s : Session) : Event → Option Session
  | .login big w now => some (login s big w now).2
  | .submit r big w now => some (submit s r big w now).2
  | .ping w now => some (ping s w now).2
  | .request big w now => some (request s big w now).2
  | .line env doc => parse s env doc
  | .conn c => some { s with conn := c }
  | .others n => some { s with sequence := s.sequence + n }

/-- A client before its first request; others may have sent `n`. -/
def start (id : Int) (pool : Session.Pool) (n : Nat) : Session :=
  { id := id, pool := pool, sequence := n + 1 }

def lts (id : Int) (pool : Session.Pool) (n : Nat) : LTS Session Event :=
  LTS.ofFn (start id pool n) step

/-- The request that carries a share. -/
def carrier (sh : Share) : Request := .share sh.number sh.result.diff sh.result.actualDiff

/-- A share is reported once, for the response to its request and with its difficulty;
a callback runs once, for the response to its request. -/
structure Accounted (s : Session) : Prop where
  once : (s.reports.map (·.share.number)).Nodup
  own : ∀ r ∈ s.reports, (r.id, carrier r.share) ∈ s.sent
  calledOnce : (s.called.map (·.callback.number)).Nodup
  calledOwn : ∀ c ∈ s.called, (c.id, Request.callback c.callback.number) ∈ s.sent

/-- A request under the sequence number goes out. -/
def out (s : Session) (big : Bool) (w : Client.Write) : Prop := big = false ∧ goes s.conn w

/-- A response has the id of a request that went out, or finds nothing. -/
def Answers (s : Session) : Option (Int × Json × Json) → Prop
  | some (n, _) =>
    n ∈ s.sent.map Prod.fst ∨ (get s.callbacks n = none ∧ get s.results n = none)
  | none => True

/-- The condition on a step: no request goes out under a number that has a share or a
callback (a share replaces a share), and a response without a request finds neither. -/
def Ok (s : Session) : Event → Prop
  | .submit r big w _ =>
    s.rpcId = some r.clientId → s.conn.state = .ConnectedState → r.diff ≠ 0 → out s big w →
      get s.callbacks s.sequence = none
  | .ping w _ =>
    goes s.conn w → get s.callbacks s.sequence = none ∧ get s.results s.sequence = none
  | .request big w _ =>
    out s big w → get s.callbacks s.sequence = none ∧ get s.results s.sequence = none
  | .line _ doc => Answers s (doc.bind response)
  | _ => True

/-! ## Registrations -/

/-- Numbers registered under ids, as a ledger. -/
def registry (made : Nat) (m : List (Int × Nat)) (spent : List Nat) : Ledger Int where
  next := made
  owed id := {k | (id, k) ∈ m}
  spent := spent

variable {made : Nat} {m m' : List (Int × Nat)} {spent : List Nat}

theorem sound_drop (h : (registry made m spent).Sound) (hm : ∀ p ∈ m', p ∈ m) :
    (registry made m' spent).Sound :=
  h.step (.drop _ fun _ _ hk => hm _ hk)

theorem sound_draw (h : (registry made m spent).Sound) (id : Int)
    (hm : ∀ p ∈ m', p = (id, made) ∨ p ∈ m) : (registry (made + 1) m' spent).Sound := by
  refine h.step (.draw id 1 _ (fun k hk => ?_) fun j hj k hk => ?_)
  · rcases hm _ hk with he | hk
    · cases he
      exact .inr ⟨Nat.le_refl _, Nat.lt_succ_self _⟩
    · exact .inl hk
  · exact (hm _ hk).resolve_left fun he => hj (congrArg Prod.fst he)

theorem sound_spend (h : (registry made m spent).Sound) {id : Int} {k : Nat} (hk : (id, k) ∈ m)
    (hm : ∀ p ∈ m', p ∈ m ∧ p.1 ≠ id) : (registry made m' (k :: spent)).Sound :=
  h.step (.spend id k _ hk (fun _ hy => absurd rfl (hm _ hy).2) fun _ _ _ hy => (hm _ hy).1)

variable {α : Type} {l : List (Int × α)} {id : Int} {v : α}

theorem mem_of_get (h : get l id = some v) : (id, v) ∈ l := by
  obtain ⟨p, hp, rfl⟩ := Option.map_eq_some_iff.mp h
  have hid : p.1 = id := by
    have hq := List.find?_some hp
    exact of_decide_eq_true hq
  rw [← hid]
  exact List.mem_of_find?_eq_some hp

theorem ne_of_get_none (h : get l id = none) {p : Int × α} (hp : p ∈ l) : p.1 ≠ id := by
  unfold Session.get at h
  rw [Option.map_eq_none_iff, List.find?_eq_none] at h
  intro he
  exact h p hp (decide_eq_true he)

theorem mem_erase {p : Int × α} : p ∈ erase l id ↔ p ∈ l ∧ p.1 ≠ id := by
  unfold Session.erase
  rw [List.mem_filter, decide_eq_true_iff]

theorem mem_insert {p : Int × α} (hp : p ∈ insert l id v) : p = (id, v) ∨ p ∈ l := by
  unfold Session.insert at hp
  split at hp
  · exact .inr hp
  · exact List.mem_cons.mp hp

/-- The entries of a map, by their numbers. -/
def numbers (number : α → Nat) (l : List (Int × α)) : List (Int × Nat) :=
  l.map fun p => (p.1, number p.2)

theorem mem_numbers {number : α → Nat} {p : Int × Nat} :
    p ∈ numbers number l ↔ ∃ v, (p.1, v) ∈ l ∧ number v = p.2 := by
  unfold numbers
  rw [List.mem_map]
  constructor
  · intro hp
    obtain ⟨⟨id, v⟩, hq, rfl⟩ := hp
    exact ⟨v, hq, rfl⟩
  · intro hp
    obtain ⟨v, hq, hn⟩ := hp
    exact ⟨_, hq, Prod.ext rfl hn⟩

/-! ## Invariant -/

/-- The request `req` went out under `id`, or none did. -/
def Known (sent : List (Int × Request)) (id : Int) (req : Request) : Prop :=
  (id, req) ∈ sent ∨ ∀ r, (id, r) ∉ sent

structure Inv (s : Session) : Prop where
  positive : 1 ≤ s.sequence
  ids : ∀ p ∈ s.sent, p.1 < s.sequence
  results : ∀ p ∈ s.results, p.1 ≤ s.sequence ∧ Known s.sent p.1 (carrier p.2)
  callbacks : ∀ p ∈ s.callbacks,
    p.1 ≤ s.sequence ∧ (1 < p.1 → Known s.sent p.1 (.callback p.2.number))
  shares : (registry s.made (numbers Share.number s.results)
    (s.reports.map (·.share.number)).reverse).Sound
  calls : (registry s.made (numbers Callback.number s.callbacks)
    (s.called.map (·.callback.number)).reverse).Sound
  own : ∀ r ∈ s.reports, (r.id, carrier r.share) ∈ s.sent
  calledOwn : ∀ c ∈ s.called, (c.id, Request.callback c.callback.number) ∈ s.sent

theorem inv_start (id : Int) (pool : Session.Pool) (n : Nat) : Inv (start id pool n) where
  positive := by
    show (1 : Int) ≤ n + 1
    omega
  ids p hp := absurd hp List.not_mem_nil
  results p hp := absurd hp List.not_mem_nil
  callbacks p hp := absurd hp List.not_mem_nil
  shares := Ledger.Sound.empty 0 fun _ _ hx => absurd hx List.not_mem_nil
  calls := Ledger.Sound.empty 0 fun _ _ hx => absurd hx List.not_mem_nil
  own r hr := absurd hr List.not_mem_nil
  calledOwn c hc := absurd hc List.not_mem_nil

/-- What the invariant is about. -/
structure Same (s s' : Session) : Prop where
  sequence : s'.sequence = s.sequence
  results : s'.results = s.results
  callbacks : s'.callbacks = s.callbacks
  made : s'.made = s.made
  sent : s'.sent = s.sent
  reports : s'.reports = s.reports
  called : s'.called = s.called

theorem Same.refl (s : Session) : Same s s := ⟨rfl, rfl, rfl, rfl, rfl, rfl, rfl⟩

theorem Same.trans {s t u : Session} (h₁ : Same s t) (h₂ : Same t u) : Same s u :=
  ⟨h₂.sequence.trans h₁.sequence, h₂.results.trans h₁.results, h₂.callbacks.trans h₁.callbacks,
    h₂.made.trans h₁.made, h₂.sent.trans h₁.sent, h₂.reports.trans h₁.reports,
    h₂.called.trans h₁.called⟩

variable {s s' : Session} {env : Env}

theorem Inv.same (hi : Inv s) (hs : Same s s') : Inv s' where
  positive := by rw [hs.sequence]; exact hi.positive
  ids := by rw [hs.sent, hs.sequence]; exact hi.ids
  results := by rw [hs.results, hs.sequence, hs.sent]; exact hi.results
  callbacks := by rw [hs.callbacks, hs.sequence, hs.sent]; exact hi.callbacks
  shares := by rw [hs.made, hs.results, hs.reports]; exact hi.shares
  calls := by rw [hs.made, hs.callbacks, hs.called]; exact hi.calls
  own := by rw [hs.reports, hs.sent]; exact hi.own
  calledOwn := by rw [hs.called, hs.sent]; exact hi.calledOwn

theorem same_conn (s : Session) (c : Client) : Same s { s with conn := c } :=
  ⟨rfl, rfl, rfl, rfl, rfl, rfl, rfl⟩

/-- A later number keeps what was registered below it. -/
theorem inv_later (hi : Inv s) (n : Nat) : Inv { s with sequence := s.sequence + n } where
  positive := by
    have := hi.positive
    show 1 ≤ s.sequence + n
    omega
  ids p hp := by
    have := hi.ids p hp
    show p.1 < s.sequence + n
    omega
  results p hp := by
    have := (hi.results p hp).1
    refine ⟨?_, (hi.results p hp).2⟩
    show p.1 ≤ s.sequence + n
    omega
  callbacks p hp := by
    have := (hi.callbacks p hp).1
    refine ⟨?_, (hi.callbacks p hp).2⟩
    show p.1 ≤ s.sequence + n
    omega
  shares := hi.shares
  calls := hi.calls
  own := hi.own
  calledOwn := hi.calledOwn

theorem Known.sent {sent : List (Int × Request)} {id' : Int} {req req' : Request}
    (hk : Known sent id req) (h : id = id' → (id, req) ∈ (id', req') :: sent) :
    Known ((id', req') :: sent) id req := by
  by_cases he : id = id'
  · exact .inl (h he)
  · rcases hk with hk | hk
    · exact .inl (List.mem_cons_of_mem _ hk)
    · refine .inr fun r hr => ?_
      rcases List.mem_cons.mp hr with hr | hr
      · exact he (congrArg Prod.fst hr)
      · exact hk r hr

/-- **A request goes out**: what is registered under its id is its own. -/
theorem inv_sent (hi : Inv s) {id : Int} {req : Request} (hid : id ≤ s.sequence)
    (hr : ∀ p ∈ s.results, p.1 = id → carrier p.2 = req)
    (hc : ∀ p ∈ s.callbacks, p.1 = id → 1 < id → Request.callback p.2.number = req) :
    Inv { s with sequence := s.sequence + 1, sent := (id, req) :: s.sent } where
  positive := (inv_later hi 1).positive
  ids p hp := by
    rcases List.mem_cons.mp hp with rfl | hp
    · exact Int.lt_add_one_of_le hid
    · exact (inv_later hi 1).ids p hp
  results p hp := by
    obtain ⟨hle, hk⟩ := (inv_later hi 1).results p hp
    refine ⟨hle, hk.sent fun he => ?_⟩
    rw [← hr p hp he, he]
    exact List.mem_cons_self
  callbacks p hp := by
    obtain ⟨hle, hk⟩ := (inv_later hi 1).callbacks p hp
    refine ⟨hle, fun h1 => (hk h1).sent fun he => ?_⟩
    rw [← hc p hp he (he ▸ h1), he]
    exact List.mem_cons_self
  shares := hi.shares
  calls := hi.calls
  own r hr' := List.mem_cons_of_mem _ (hi.own r hr')
  calledOwn c hc' := List.mem_cons_of_mem _ (hi.calledOwn c hc')

/-! ## Requests -/

theorem inv_sendSize (hi : Inv s) {id : Int} {req : Request} {w : Client.Write} {now : Nat}
    (hid : id ≤ s.sequence)
    (hr : goes s.conn w = true → ∀ p ∈ s.results, p.1 = id → carrier p.2 = req)
    (hc : goes s.conn w = true → ∀ p ∈ s.callbacks, p.1 = id → 1 < id →
      Request.callback p.2.number = req) : Inv (sendSize s id req w now).2 := by
  unfold sendSize
  by_cases hg : goes s.conn w = true
  · simp only [if_pos hg]
    exact (inv_sent hi hid (hr hg) (hc hg)).same ⟨rfl, rfl, rfl, rfl, rfl, rfl, rfl⟩
  · simp only [if_neg hg]
    exact hi.same (same_conn s _)

theorem inv_sendObj (hi : Inv s) {id : Int} {req : Request} {big : Bool} {w : Client.Write}
    {now : Nat} (hid : id ≤ s.sequence)
    (hr : out s big w → ∀ p ∈ s.results, p.1 = id → carrier p.2 = req)
    (hc : out s big w → ∀ p ∈ s.callbacks, p.1 = id → 1 < id →
      Request.callback p.2.number = req) : Inv (sendObj s id req big w now).2 := by
  unfold sendObj
  cases big with
  | true => exact hi.same (same_conn s _)
  | false => exact inv_sendSize hi hid (fun hg => hr ⟨rfl, hg⟩) fun hg => hc ⟨rfl, hg⟩

theorem inv_ping (hi : Inv s) {w : Client.Write} {now : Nat} (hok : Ok s (.ping w now)) :
    Inv (ping s w now).2 := by
  apply inv_sendSize hi (Int.le_refl _)
  · intro hg p hp he
    exact absurd he (ne_of_get_none (hok hg).2 hp)
  · intro hg p hp he
    exact absurd he (ne_of_get_none (hok hg).1 hp)

theorem inv_login (hi : Inv s) (big : Bool) (w : Client.Write) (now : Nat) :
    Inv (login s big w now).2 := by
  have h₀ : Inv { s with results := [] } :=
    { hi with
      results := fun p hp => absurd hp List.not_mem_nil
      shares := sound_drop hi.shares fun p hp => absurd hp List.not_mem_nil }
  apply inv_sendObj h₀ hi.positive
  · intro _ p hp
    exact absurd hp List.not_mem_nil
  · intro _ p _ _ h1
    exact absurd h1 (Int.lt_irrefl _)

/-- Nothing went out under the sequence number yet. -/
theorem Inv.unsent (hi : Inv s) (req : Request) : Known s.sent s.sequence req :=
  .inr fun _ hr => Int.lt_irrefl _ (hi.ids _ hr)

theorem inv_request (hi : Inv s) {big : Bool} {w : Client.Write} {now : Nat}
    (hok : Ok s (.request big w now)) : Inv (request s big w now).2 := by
  have h₀ : Inv { s with callbacks := insert s.callbacks s.sequence ⟨s.made, now⟩,
                         made := s.made + 1 } :=
    { hi with
      callbacks := fun p hp => by
        rcases mem_insert hp with rfl | hp
        · exact ⟨Int.le_refl _, fun _ => hi.unsent _⟩
        · exact hi.callbacks p hp
      shares := sound_draw hi.shares s.sequence fun _ => .inr
      calls := sound_draw hi.calls s.sequence fun p hp => by
        obtain ⟨v, hv, hn⟩ := mem_numbers.mp hp
        rcases mem_insert hv with he | hv
        · obtain ⟨hid, rfl⟩ := Prod.mk.inj he
          exact .inl (Prod.ext hid hn.symm)
        · exact .inr (mem_numbers.mpr ⟨v, hv, hn⟩) }
  apply inv_sendObj h₀ (Int.le_refl _)
  · intro ho p hp he
    exact absurd he (ne_of_get_none (hok ho).2 hp)
  · intro ho p hp he _
    rcases mem_insert hp with rfl | hp
    · rfl
    · exact absurd he (ne_of_get_none (hok ho).1 hp)

theorem inv_submit (hi : Inv s) {r : JobResult} {big : Bool} {w : Client.Write} {now : Nat}
    (hok : Ok s (.submit r big w now)) : Inv (submit s r big w now).2 := by
  unfold submit
  split
  · exact hi
  · rename_i hguard
    rw [not_or, not_not, not_not] at hguard
    split
    · exact hi.same (same_conn s _)
    · rename_i hdiff
      have h₀ (sh : Share) (hn : sh.number = s.made) :
          Inv { s with results := assign s.results s.sequence sh, made := s.made + 1 } :=
        { hi with
          results := fun p hp => by
            rcases List.mem_cons.mp hp with rfl | hp
            · exact ⟨Int.le_refl _, hi.unsent _⟩
            · exact hi.results p (mem_erase.mp hp).1
          shares := sound_draw hi.shares s.sequence fun p hp => by
            obtain ⟨v, hv, hk⟩ := mem_numbers.mp hp
            rcases List.mem_cons.mp hv with he | hv
            · obtain ⟨hid, rfl⟩ := Prod.mk.inj he
              exact .inl (Prod.ext hid (hk.symm.trans hn))
            · exact .inr (mem_numbers.mpr ⟨v, (mem_erase.mp hv).1, hk⟩)
          calls := sound_draw hi.calls s.sequence fun _ => .inr }
      apply inv_sendObj (h₀ _ rfl) (Int.le_refl _)
      · intro _ p hp he
        rcases List.mem_cons.mp hp with rfl | hp
        · rfl
        · exact absurd he (mem_erase.mp hp).2
      · intro ho p hp he
        exact absurd he (ne_of_get_none (hok hguard.1 hguard.2 hdiff ho) hp)

/-! ## Lines -/

theorem same_addExtension (now : Nat) (s : Session) (ext : Json) :
    Same s (addExtension now s ext) := by
  unfold addExtension
  split
  · dsimp only
    repeat' split
    all_goals exact ⟨rfl, rfl, rfl, rfl, rfl, rfl, rfl⟩
  · exact .refl s

theorem same_parseExtensions (s : Session) (result : Json) (now : Nat) :
    Same s (parseExtensions s result now) := by
  have hfold : ∀ (exts : List Json) (t : Session), Same t (exts.foldl (addExtension now) t) := by
    intro exts
    induction exts with
    | nil => exact fun t => .refl t
    | cons ext exts ih => exact fun t => (same_addExtension now t ext).trans (ih _)
  unfold parseExtensions
  dsimp only
  split
  · refine Same.trans ?_ (hfold _ _)
    exact ⟨rfl, rfl, rfl, rfl, rfl, rfl, rfl⟩
  · exact ⟨rfl, rfl, rfl, rfl, rfl, rfl, rfl⟩

theorem same_parseJob {params : Json} {code : Int} {r : Session × Bool × Int}
    (hr : parseJob s env params code = some r) : Same s r.1 := by
  unfold parseJob at hr
  split at hr
  · cases hr
  · cases hr
    exact .refl s
  · dsimp only at hr
    repeat' split at hr
    all_goals
      cases hr
      exact ⟨rfl, rfl, rfl, rfl, rfl, rfl, rfl⟩

theorem same_parseLogin {result : Json} {code : Int} {r : Session × Bool × Int}
    (hr : parseLogin s env result code = some r) : Same s r.1 := by
  unfold parseLogin at hr
  dsimp only at hr
  split at hr
  · cases hr
    exact ⟨rfl, rfl, rfl, rfl, rfl, rfl, rfl⟩
  · obtain ⟨q, hq, rfl⟩ := Option.map_eq_some_iff.mp hr
    have h₁ := same_parseExtensions
      { s with rpcId := result.getString (ascii "id") } result env.now
    have h₂ := h₁.trans (same_parseJob hq)
    exact ⟨h₂.sequence, h₂.results, h₂.callbacks, h₂.made, h₂.sent, h₂.reports, h₂.called⟩

theorem same_loggedIn (s : Session) (env : Env) : Same s (loggedIn s env) := by
  unfold loggedIn
  dsimp only
  split
  · split <;> exact ⟨rfl, rfl, rfl, rfl, rfl, rfl, rfl⟩
  · split <;> exact ⟨rfl, rfl, rfl, rfl, rfl, rfl, rfl⟩

theorem exists_sent {sent : List (Int × Request)} (h : id ∈ sent.map Prod.fst) :
    ∃ req, (id, req) ∈ sent := by
  obtain ⟨⟨id', req⟩, hp, rfl⟩ := List.mem_map.mp h
  exact ⟨req, hp⟩

/-- A response runs the callback of its own request. -/
theorem inv_handleResponse (hi : Inv s) {id : Int} (result error : Json) (now : Nat)
    (hs : id ∈ s.sent.map Prod.fst ∨ get s.callbacks id = none) :
    Inv (handleResponse s id result error now).2 := by
  unfold handleResponse
  split
  · exact hi
  · rename_i hid
    split
    · rename_i cb hcb
      have hmem := mem_of_get hcb
      have hsent : (id, Request.callback cb.number) ∈ s.sent := by
        rcases hs with hmap | hnone
        · obtain ⟨req, hreq⟩ := exists_sent hmap
          exact ((hi.callbacks _ hmem).2 (not_le.mp hid)).resolve_right fun hno => hno req hreq
        · rw [hnone] at hcb
          cases hcb
      exact
        { hi with
          callbacks := fun p hp => hi.callbacks p (mem_erase.mp hp).1
          calls := by
            rw [List.map_append, List.reverse_append]
            exact sound_spend hi.calls (mem_numbers.mpr ⟨cb, hmem, rfl⟩) fun p hp => by
              obtain ⟨v, hv, hn⟩ := mem_numbers.mp hp
              exact ⟨mem_numbers.mpr ⟨v, (mem_erase.mp hv).1, hn⟩, (mem_erase.mp hv).2⟩
          calledOwn := fun c hc => by
            rcases List.mem_append.mp hc with hc | hc
            · exact hi.calledOwn c hc
            · cases List.mem_singleton.mp hc
              exact hsent }
    · exact hi

/-- A response reports the share of its own request. -/
theorem inv_handleSubmitResponse (hi : Inv s) {id : Int} (error : Option Bytes) (now : Nat)
    (hs : id ∈ s.sent.map Prod.fst ∨ get s.results id = none) :
    Inv (handleSubmitResponse s id error now).2 := by
  unfold handleSubmitResponse
  split
  · rename_i sh hsh
    have hmem := mem_of_get hsh
    have hsent : (id, carrier sh) ∈ s.sent := by
      rcases hs with hmap | hnone
      · obtain ⟨req, hreq⟩ := exists_sent hmap
        exact (hi.results _ hmem).2.resolve_right fun hno => hno req hreq
      · rw [hnone] at hsh
        cases hsh
    exact
      { hi with
        results := fun p hp => hi.results p (mem_erase.mp hp).1
        shares := by
          rw [List.map_append, List.reverse_append]
          exact sound_spend hi.shares (mem_numbers.mpr ⟨sh, hmem, rfl⟩) fun p hp => by
            obtain ⟨v, hv, hn⟩ := mem_numbers.mp hp
            exact ⟨mem_numbers.mpr ⟨v, (mem_erase.mp hv).1, hn⟩, (mem_erase.mp hv).2⟩
        own := fun r hr => by
          rcases List.mem_append.mp hr with hr | hr
          · exact hi.own r hr
          · cases List.mem_singleton.mp hr
            exact hsent }
  · exact hi

theorem inv_parseResponse (hi : Inv s) {id : Int} {result error : Json}
    (hs : id ∈ s.sent.map Prod.fst ∨ (get s.callbacks id = none ∧ get s.results id = none))
    (hr : parseResponse s env id result error = some s') : Inv s' := by
  have h₁ := inv_handleResponse hi result error env.now (hs.imp_right And.left)
  unfold parseResponse at hr
  split at hr
  · rename_i t ht
    cases hr
    rw [ht] at h₁
    exact h₁
  · rename_i t ht
    -- not handled: the session is as it was
    have he : t = s := by
      unfold handleResponse at ht
      repeat' split at ht
      all_goals cases ht
      all_goals rfl
    rw [he] at hr
    split at hr
    · split at hr
      · rename_i message _
        cases hr
        have h₂ := inv_handleSubmitResponse hi (some (cstr message)) env.now
          (hs.imp_right And.right)
        split
        · exact h₂.same (same_conn _ _)
        · exact h₂
      · cases hr
    · split at hr
      · cases hr
        exact hi
      · split at hr
        · obtain ⟨r, hr', rfl⟩ := Option.map_eq_some_iff.mp hr
          have h₂ := same_parseLogin hr'
          split
          · exact hi.same (h₂.trans (same_loggedIn _ _))
          · exact hi.same (h₂.trans (same_conn _ _))
        · cases hr
          exact inv_handleSubmitResponse hi none env.now (hs.imp_right And.right)

theorem inv_parse (hi : Inv s) {doc : Option Json} (hok : Ok s (.line env doc))
    (hr : parse s env doc = some s') : Inv s' := by
  unfold parse at hr
  split at hr
  · cases hr
    exact hi
  · rename_i doc
    split at hr
    · cases hr
      exact hi
    · split at hr
      · rename_i id result error hresp
        have ha : Answers s (response doc) := hok
        rw [hresp] at ha
        exact inv_parseResponse hi ha hr
      · split at hr
        · cases hr
          exact hi
        · split at hr
          · cases hr
            unfold clientReconnect
            split
            · exact hi.same (same_conn s _)
            · exact hi
          · split at hr
            · cases hr
              exact hi
            · unfold parseNotification at hr
              split at hr
              · obtain ⟨r, hr', rfl⟩ := Option.map_eq_some_iff.mp hr
                have h₁ := hi.same (same_parseJob hr')
                split
                · exact h₁.same (same_conn _ _)
                · exact h₁.same (same_conn _ _)
              · cases hr
                exact hi

/-! ## Runs -/

theorem inv_step (hi : Inv s) {e : Event} (hok : Ok s e) (h : step s e = some s') : Inv s' := by
  cases e with
  | login big w now =>
    cases h
    exact inv_login hi big w now
  | submit r big w now =>
    cases h
    exact inv_submit hi hok
  | ping w now =>
    cases h
    exact inv_ping hi hok
  | request big w now =>
    cases h
    exact inv_request hi hok
  | line env doc => exact inv_parse hi hok h
  | conn c =>
    cases h
    exact hi.same (same_conn s c)
  | others n =>
    cases h
    exact inv_later hi n

theorem inv_inductive (id : Int) (pool : Session.Pool) (n : Nat) :
    ((lts id pool n).restrict Ok).Inductive Inv where
  init s hs := by
    rw [hs]
    exact inv_start id pool n
  step s e s' hi hs := inv_step hi hs.1 hs.2

/-- **Share accounting**, for any client, in every run in which no request takes the
number of a registration that was left behind. -/
theorem share_accounting {id : Int} {pool : Session.Pool} {n : Nat} {s : Session}
    (h : ((lts id pool n).restrict Ok).Reachable s) : Accounted s := by
  have hi := (inv_inductive id pool n).reachable h
  have once := (List.reverse_perm _).nodup_iff.mp hi.shares.nodup
  have calledOnce := (List.reverse_perm _).nodup_iff.mp hi.calls.nodup
  exact ⟨once, hi.own, calledOnce, hi.calledOwn⟩

/-! ## A number taken twice -/

instance (s : Session) (r : Option (Int × Json × Json)) : Decidable (Answers s r) := by
  cases r <;> (unfold Answers; infer_instance)

instance (s : Session) (e : Event) : Decidable (Ok s e) := by
  cases e <;> (unfold Ok out; infer_instance)

def selfSelect : Session.Pool := { algorithm := .RX_0, selfSelect := true }

/-- A reply to a request. -/
def reply (id : Int) (result : List (Bytes × Json)) : Event :=
  .line {} (some (.object [(ascii "id", .int id), (ascii "result", .object result)]))

/-- A connection, the login and its reply. -/
def loggedIn : List Event :=
  [.conn { state := .ConnectedState, socket := some 0 }, .login false .sent 0,
   reply 1 [(ascii "id", .string (ascii "w")), (ascii "job", .object
    [(ascii "job_id", .string (ascii "1")), (ascii "extra_nonce", .string []),
     (ascii "pool_wallet", .string (ascii "x")), (ascii "target", .string (ascii "ffffffff"))])]]

def share : JobResult := { clientId := ascii "w", diff := 1000, actualDiff := 2000 }

/-- A share, a ping and a callback, each answered. -/
def answered : List Event :=
  loggedIn ++ [.submit share false .sent 10, .ping .sent 20, .request false .sent 30,
    reply 3 [], reply 4 [], reply 2 []]

theorem share_accounting_answered : ∃ s,
    LTS.execOk step Ok (start 0 selfSelect 0) answered = some s ∧
      s.reports.map (fun r => (r.id, r.share.result.diff)) = [(2, 1000)] ∧
      s.called.map (·.id) = [4] ∧ Accounted s := by
  obtain ⟨s, hs⟩ : ∃ s, LTS.execOk step Ok (start 0 selfSelect 0) answered = some s :=
    Option.isSome_iff_exists.mp (by decide)
  have he : (LTS.execOk step Ok (start 0 selfSelect 0) answered).map
      (fun s => (s.reports.map (fun r => (r.id, r.share.result.diff)), s.called.map (·.id))) =
        some ([(2, 1000)], [4]) := by decide
  simp only [hs, Option.map_some, Option.some.injEq, Prod.mk.injEq] at he
  have hr : ((lts 0 selfSelect 0).restrict Ok).Reachable s := LTS.reachable_of_execOk hs
  exact ⟨s, hs, he.1, he.2, share_accounting hr⟩

/-- A share whose request is refused, and a ping that takes its number. -/
def refused : List Event :=
  loggedIn ++ [.submit share false .refused 10, .ping .sent 20, reply 2 []]

theorem share_accounting_fails : ¬ ∀ s, (lts 0 selfSelect 0).Reachable s → Accounted s := by
  intro h
  obtain ⟨s, hs⟩ : ∃ s, LTS.exec step (start 0 selfSelect 0) refused = some s :=
    Option.isSome_iff_exists.mp (by decide)
  have he : (LTS.exec step (start 0 selfSelect 0) refused).map
      (fun s => (s.reports.map (fun r => (r.id, carrier r.share)), s.sent)) =
        some ([(2, .share 0 1000 2000)], [(2, .ping), (1, .login)]) := by decide
  simp only [hs, Option.map_some, Option.some.injEq, Prod.mk.injEq] at he
  obtain ⟨hrep, hsent⟩ := he
  have hown := (h s (LTS.reachable_of_exec hs)).own
  cases hreports : s.reports with
  | nil =>
    rw [hreports] at hrep
    cases hrep
  | cons r rs =>
    have hr := hown r (by rw [hreports]; exact List.mem_cons_self)
    rw [hreports] at hrep
    have he : (r.id, carrier r.share) = (2, .share 0 1000 2000) := (List.cons.inj hrep).1
    rw [he, hsent] at hr
    exact absurd hr (by decide)

end Rxs.L3.ShareAccount
