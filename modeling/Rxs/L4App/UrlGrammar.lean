import Rxs.L4App.PoolEdit

/-!
# What an address says

`Url::parse` takes the text before the first colon, or between brackets, for the host
and what `strtol` makes of the text behind the colon, modulo 2^16, for the port.

* `Form`: an address is `[scheme://]host[:port]` or `[scheme://][v6]:port`.
* **`faithful_iff`**: exactly when a valid address has the form, with that host and
  that port.
-/
namespace Rxs.L4.UrlGrammar

open Rxs.Core Rxs.Stratum

/-! ## The form of an address -/

def IsDigit (c : UInt8) : Prop := 48 ≤ c ∧ c ≤ 57

instance : DecidablePred IsDigit := fun _ => inferInstanceAs (Decidable (_ ∧ _))

/-- A number as it is written: digits and nothing else. -/
def IsDecimal (t : Bytes) : Prop := t ≠ [] ∧ ∀ c ∈ t, IsDigit c

instance : DecidablePred IsDecimal := fun _ => inferInstanceAs (Decidable (_ ∧ _))

/-- mirrors src/base/net/stratum/Url.cpp:32-39 -/
def schemes : List (String × Scheme × Bool) :=
  [("stratum+tcp://", .STRATUM, false), ("stratum+ssl://", .STRATUM, true),
    ("socks5://", .SOCKS5, false), ("daemon+https://", .DAEMON, true),
    ("daemon+http://", .DAEMON, false)]

/-- `s` is a scheme and `base`, or there is no scheme. -/
def HasScheme (s base : Bytes) (scheme : Scheme) (tls : Bool) : Prop :=
  (strstr (ascii "://") s = none ∧ s = base ∧ scheme = .UNSPECIFIED ∧ tls = false) ∨
    ∃ e ∈ schemes, ∃ pre : Bytes, pre.map lower = ascii e.1 ∧ s = pre ++ base ∧
      scheme = e.2.1 ∧ tls = e.2.2

/-- A host, and the text of a port if there is one; a host that is a number stands in
brackets. -/
def HasHost (base host : Bytes) (port : Option Bytes) : Prop :=
  match port with
  | none => base = host ∧ 58 ∉ host ∧ host.head? ≠ some 91
  | some t =>
    base = host ++ 58 :: t ∧ 58 ∉ host ∧ host.head? ≠ some 91 ∨
      base = 91 :: (host ++ 93 :: 58 :: t) ∧ 93 ∉ host

/-- The address is what the text says. -/
def Form (s : Bytes) (u : Url) : Prop :=
  ∃ base host port, HasScheme s base u.scheme u.tls ∧ HasHost base host port ∧ host ≠ [] ∧
    u.host = some host ∧
    match port with
    | none => u.port = 3333
    | some t => IsDecimal t ∧ 1 ≤ digits t ∧ digits t ≤ 65535 ∧ u.port = digits t

/-- An address that is valid has the form. -/
def Faithful (s : Bytes) : Prop :=
  (Url.create (some s)).isValid = true → Form s (Url.create (some s))

/-! ## The texts of an address -/

/-- The texts that are taken for the host and the port, and what stands between the
bracket and the colon. -/
def split (base : Bytes) : Option (Bytes × Bytes × Bytes) :=
  if base.head? = some 91 then
    (strstr [93] base).bind fun tail => (strstr [58] tail).map fun port =>
      ((base.take (base.length - tail.length)).drop 1,
        (tail.take (tail.length - port.length)).drop 1, port.drop 1)
  else
    (strstr [58] base).map fun port => (base.take (base.length - port.length), [], port.drop 1)

/-- The number behind the colon is none for a port, or it is written as one, directly
behind a host that is not empty. -/
def Sound (s : Bytes) : Prop :=
  ∀ u base, Url.parseScheme {} s = some (u, base) →
    ∀ host between t, split base = some (host, between, t) → base.head? ≠ some 47 →
      strtol t % 65536 = 0 ∨
        (host ≠ [] ∧ between = [] ∧ IsDecimal t ∧ digits t < 65536)

/-! ## Searching -/

theorem strstr_single (c : UInt8) (s : Bytes) :
    strstr [c] s = none ∧ c ∉ s ∨
      ∃ x t, strstr [c] s = some (c :: t) ∧ s = x ++ c :: t ∧ c ∉ x := by
  induction s with
  | nil => exact .inl ⟨rfl, by simp⟩
  | cons d s ih =>
    by_cases hd : c = d
    · subst hd
      have hp : ([c] : Bytes).isPrefixOf (c :: s) = true := by simp [List.isPrefixOf]
      exact .inr ⟨[], s, if_pos hp, rfl, by simp⟩
    · have hp : ([c] : Bytes).isPrefixOf (d :: s) = false := by simp [List.isPrefixOf, hd]
      have hs : strstr [c] (d :: s) = strstr [c] s := by
        rw [strstr, hp]
        rfl
      obtain ⟨h, hn⟩ | ⟨x, t, h, rfl, hn⟩ := ih
      · exact .inl ⟨hs.trans h, by simp [hd, hn]⟩
      · exact .inr ⟨d :: x, t, hs.trans h, rfl, by simp [hd, hn]⟩

/-- A pattern is found where its first character is seen first. -/
theorem strstr_append {c : UInt8} {p x : Bytes} (h : c ∉ x) (y : Bytes) :
    strstr (c :: p) (x ++ (c :: p ++ y)) = some (c :: p ++ y) := by
  induction x with
  | nil =>
    have hp : (c :: p).isPrefixOf (c :: p ++ y) = true :=
      List.isPrefixOf_iff_prefix.mpr (List.prefix_append _ _)
    exact if_pos hp
  | cons d x ih =>
    obtain ⟨hd, hx⟩ := not_or.mp (mt List.mem_cons.mpr h)
    have hp : (c :: p).isPrefixOf (d :: (x ++ (c :: p ++ y))) = false := by
      simp [List.isPrefixOf, hd]
    rw [List.cons_append, strstr, hp]
    exact ih hx

theorem strstr_single_eq {c : UInt8} {x : Bytes} (h : c ∉ x) (t : Bytes) :
    strstr [c] (x ++ c :: t) = some (c :: t) := strstr_append (p := []) h t

/-! ## The scheme -/

theorem lower_sep {c : UInt8} (h : lower c = 58 ∨ lower c = 47) : lower c = c := by
  have hall : ∀ n : Fin 256, (lower (UInt8.ofFin n) = 58 ∨ lower (UInt8.ofFin n) = 47) →
      lower (UInt8.ofFin n) = UInt8.ofFin n := by decide +kernel
  exact hall c.toFin h

/-- Neither a colon nor a slash has another case. -/
theorem sep_of_lower {sep : Bytes} (h : sep.map lower = ascii "://") : sep = ascii "://" := by
  have he : ascii "://" = [58, 47, 47] := by decide
  rw [he] at h ⊢
  obtain ⟨a, b, c, rfl⟩ := List.length_eq_three.mp (by simpa using congrArg List.length h)
  simp only [List.map_cons, List.map_nil, List.cons.injEq, and_true] at h
  obtain ⟨ha, hb, hc⟩ := h
  rw [← lower_sep (.inl ha), ← lower_sep (.inr hb), ← lower_sep (.inr hc), ha, hb, hc]

/-- What is found in an address with a scheme. -/
theorem strstr_scheme {e : String × Scheme × Bool} (he : e ∈ schemes) {pre : Bytes}
    (h : pre.map lower = ascii e.1) (base : Bytes) :
    strstr (ascii "://") (pre ++ base) = some (ascii "://" ++ base) := by
  have hall : ∀ e ∈ schemes, (ascii e.1).drop ((ascii e.1).length - 3) = ascii "://" ∧
      (58 : UInt8) ∉ (ascii e.1).take ((ascii e.1).length - 3) := by decide
  obtain ⟨h₁, h₂⟩ := hall e he
  rw [← h, ← List.map_drop] at h₁
  rw [← h, ← List.map_take] at h₂
  have hn : 58 ∉ pre.take ((pre.map lower).length - 3) := fun hm =>
    h₂ (List.mem_map.mpr ⟨58, hm, by decide⟩)
  have hs : ascii "://" = 58 :: [47, 47] := by decide
  have hpre := List.take_append_drop ((pre.map lower).length - 3) pre
  rw [sep_of_lower h₁] at hpre
  rw [← hpre, List.append_assoc, hs]
  exact strstr_append hn base

theorem starts_iff {t : String} (ht : (ascii t).map lower = ascii t) (s : Bytes) :
    strncasecmp s (ascii t) t.length = true ↔ ascii t <+: s.map lower := by
  have hl : (ascii t).length = t.length := by rw [ascii, List.length_map, String.length_toList]
  rw [strncasecmp, decide_eq_true_eq, List.map_take, ← hl, List.take_length, ht,
    List.prefix_iff_eq_take, eq_comm]

theorem lower_scheme {e : String × Scheme × Bool} (he : e ∈ schemes) :
    (ascii e.1).map lower = ascii e.1 := by
  have hall : ∀ e ∈ schemes, (ascii e.1).map lower = ascii e.1 := by decide
  exact hall e he

/-- No scheme starts as another does. -/
theorem starts_eq {e e' : String × Scheme × Bool} (he : e ∈ schemes) (he' : e' ∈ schemes)
    {pre : Bytes} (h : pre.map lower = ascii e.1) (base : Bytes) :
    strncasecmp (pre ++ base) (ascii e'.1) e'.1.length = decide (e' = e) := by
  have hp : ascii e.1 <+: (pre ++ base).map lower := by
    rw [List.map_append, h]
    exact List.prefix_append _ _
  have hall : ∀ e ∈ schemes, ∀ e' ∈ schemes, ascii e.1 <+: ascii e'.1 → e' = e := by decide
  rw [Bool.eq_iff_iff, starts_iff (lower_scheme he'), decide_eq_true_eq]
  constructor
  · intro hp'
    obtain hq | hq := List.prefix_or_prefix_of_prefix hp hp'
    · exact hall e he e' he' hq
    · exact (hall e' he' e he hq).symm
  · rintro rfl
    exact hp

/-- The scheme is the one the text starts with, and the rest is what is behind it. -/
theorem parseScheme_of {s base : Bytes} {scheme : Scheme} {tls : Bool}
    (h : HasScheme s base scheme tls) :
    Url.parseScheme {} s = some ({ scheme := scheme, tls := tls }, base) := by
  obtain ⟨hn, rfl, rfl, rfl⟩ | ⟨e, he, pre, hpre, rfl, rfl, rfl⟩ := h
  · rw [Url.parseScheme, hn]
  · have hd : (ascii "://" ++ base).drop 3 = base := rfl
    have hs : ∀ e' ∈ schemes, strncasecmp (pre ++ base) (ascii e'.1) e'.1.length =
        decide (e' = e) := fun e' he' => starts_eq he he' hpre base
    simp only [schemes, List.forall_mem_cons, List.not_mem_nil, IsEmpty.forall_iff,
      implies_true, and_true] at hs
    obtain ⟨h₁, h₂, h₃, h₄, h₅⟩ := hs
    simp only [Url.parseScheme, strstr_scheme he hpre, hd, h₁, h₂, h₃, h₄, h₅]
    simp only [schemes, List.mem_cons, List.not_mem_nil, or_false] at he
    obtain rfl | rfl | rfl | rfl | rfl := he <;> rfl

theorem of_starts {e : String × Scheme × Bool} (he : e ∈ schemes) {s p : Bytes}
    (h : strncasecmp s (ascii e.1) e.1.length = true) (hp : strstr (ascii "://") s = some p) :
    HasScheme s (p.drop 3) e.2.1 e.2.2 := by
  obtain ⟨t, ht⟩ := (starts_iff (lower_scheme he) s).mp h
  obtain ⟨pre, base, rfl, hpre, -⟩ := List.map_eq_append_iff.mp ht.symm
  have hp' := strstr_scheme he hpre base
  cases hp.symm.trans hp'
  exact .inr ⟨e, he, pre, hpre, rfl, rfl, rfl⟩

theorem parseScheme_some {s base : Bytes} {u : Url} (h : Url.parseScheme {} s = some (u, base)) :
    HasScheme s base u.scheme u.tls ∧ u.host = none ∧ u.port = 3333 := by
  unfold Url.parseScheme at h
  split at h
  · rename_i hn
    cases h
    exact ⟨.inl ⟨hn, rfl, rfl, rfl⟩, rfl, rfl⟩
  · rename_i p hp
    dsimp only at h
    split at h
    · rename_i hs
      cases h
      exact ⟨of_starts (e := ("stratum+tcp://", .STRATUM, false)) (by decide) hs hp, rfl, rfl⟩
    split at h
    · rename_i hs
      cases h
      exact ⟨of_starts (e := ("stratum+ssl://", .STRATUM, true)) (by decide) hs hp, rfl, rfl⟩
    split at h
    · rename_i hs
      cases h
      exact ⟨of_starts (e := ("socks5://", .SOCKS5, false)) (by decide) hs hp, rfl, rfl⟩
    split at h
    · rename_i hs
      cases h
      exact ⟨of_starts (e := ("daemon+https://", .DAEMON, true)) (by decide) hs hp, rfl, rfl⟩
    split at h
    · rename_i hs
      cases h
      exact ⟨of_starts (e := ("daemon+http://", .DAEMON, false)) (by decide) hs hp, rfl, rfl⟩
    · cases h

/-! ## The port -/

theorem not_blank {c : UInt8} (h : IsDigit c) : Job.isspace c = false ∧ c ≠ 45 ∧ c ≠ 43 := by
  have hall : ∀ n : Fin 256, IsDigit (UInt8.ofFin n) →
      Job.isspace (UInt8.ofFin n) = false ∧ UInt8.ofFin n ≠ 45 ∧ UInt8.ofFin n ≠ 43 := by
    decide +kernel
  exact hall c.toFin h

/-- A number that is written is read as it is. -/
theorem strtol_decimal {t : Bytes} (h : IsDecimal t) (hd : digits t < 65536) :
    strtol t = digits t := by
  obtain ⟨c, t', rfl⟩ := List.exists_cons_of_ne_nil h.1
  obtain ⟨h₁, h₂, h₃⟩ := not_blank (h.2 c List.mem_cons_self)
  have hs : signed (c :: t') = (false, c :: t') := by
    simp [signed, h₁, h₂, h₃]
  simp only [strtol, hs, Bool.false_eq_true, if_false]
  omega

/-- What the text behind the scheme makes of the address. -/
def finish (u : Url) (s base : Bytes) : Url :=
  if base = [] ∨ base.head? = some 47 then u
  else
    match split base with
    | some (host, _, t) =>
      { u with url := some s, host := some host, port := Url.toPort (strtol t) }
    | none =>
      if base.head? = some 91 then { u with url := some s }
      else { u with url := some s, host := some base }

theorem create_eq (s : Bytes) :
    Url.create (some s) =
      match Url.parseScheme {} s with
      | none => {}
      | some (u, base) => finish u s base := by
  unfold Url.create Url.parse
  rcases h : Url.parseScheme {} s with _ | ⟨u, base⟩
  · simp only [h]
  · simp only [h, finish]
    split
    · rfl
    · unfold split
      split
      · unfold Url.parseIPv6
        rcases h₁ : strstr [93] base with _ | tail
        · rfl
        · rcases h₂ : strstr [58] tail with _ | port <;> simp [h₂]
      · rcases strstr [58] base with _ | port <;> rfl

theorem take_sub_append (x y : Bytes) : (x ++ y).take ((x ++ y).length - y.length) = x := by
  simp

/-- A text behind the scheme and what is taken from it. -/
theorem split_cases (base : Bytes) :
    split base = none ∧ (base.head? = some 91 ∨ 58 ∉ base) ∨
    (∃ host t, split base = some (host, [], t) ∧ base.head? ≠ some 91 ∧
      base = host ++ 58 :: t ∧ 58 ∉ host) ∨
    ∃ host between t, split base = some (host, between, t) ∧
      base = 91 :: (host ++ 93 :: (between ++ 58 :: t)) ∧ 93 ∉ host ∧ 58 ∉ between := by
  unfold split
  by_cases hb : base.head? = some 91
  · rw [if_pos hb]
    obtain ⟨h, -⟩ | ⟨x, tail, h, hx, hn⟩ := strstr_single 93 base
    · exact .inl ⟨by rw [h]; rfl, .inl hb⟩
    · rw [h, Option.bind_some]
      obtain ⟨h', -⟩ | ⟨y, t, h', hy, hn'⟩ := strstr_single 58 (93 :: tail)
      · exact .inl ⟨by rw [h']; rfl, .inl hb⟩
      · right; right
        obtain ⟨host, rfl⟩ : ∃ host, x = 91 :: host := by
          cases x with
          | nil => rw [hx] at hb; cases hb
          | cons c host => rw [hx] at hb; cases hb; exact ⟨host, rfl⟩
        obtain ⟨between, rfl⟩ : ∃ between, y = 93 :: between := by
          cases y with
          | nil => cases hy
          | cons c between => cases hy; exact ⟨between, rfl⟩
        refine ⟨host, between, t, ?_, ?_, fun hm => hn (List.mem_cons_of_mem _ hm),
          fun hm => hn' (List.mem_cons_of_mem _ hm)⟩
        · rw [h', Option.map_some, hx, take_sub_append, hy, take_sub_append]
          rfl
        · rw [hx, hy]
          rfl
  · rw [if_neg hb]
    obtain ⟨h, hn⟩ | ⟨x, t, h, hx, hn⟩ := strstr_single 58 base
    · exact .inl ⟨by rw [h]; rfl, .inr hn⟩
    · refine .inr (.inl ⟨x, t, ?_, hb, hx, hn⟩)
      rw [h, Option.map_some, hx, take_sub_append]
      rfl

/-- A form with a port says where the port stands. -/
theorem hasHost_split {base host t : Bytes} (h : HasHost base host (some t)) (h0 : host ≠ []) :
    split base = some (host, [], t) := by
  obtain ⟨rfl, hn, h91⟩ | ⟨rfl, hn⟩ := h
  · have hb : (host ++ 58 :: t).head? ≠ some 91 := by
      obtain ⟨c, host, rfl⟩ := List.exists_cons_of_ne_nil h0
      exact h91
    rw [split, if_neg hb, strstr_single_eq hn, Option.map_some, take_sub_append]
    rfl
  · have hn' : (93 : UInt8) ∉ 91 :: host := by simp [hn]
    have hs : strstr [93] (91 :: (host ++ 93 :: 58 :: t)) = some (93 :: 58 :: t) :=
      strstr_single_eq hn' _
    have hs' : strstr [58] (93 :: 58 :: t) = some (58 :: t) :=
      strstr_single_eq (x := [93]) (by decide) t
    have ht : (91 :: (host ++ 93 :: 58 :: t)).take
        ((91 :: (host ++ 93 :: 58 :: t)).length - (93 :: 58 :: t).length) = 91 :: host :=
      take_sub_append (91 :: host) _
    have hb : (91 :: (host ++ 93 :: 58 :: t)).head? = some 91 := rfl
    rw [split, if_pos hb, hs, Option.bind_some, hs', Option.map_some, ht]
    simp

theorem toPort_decimal {t : Bytes} (h : IsDecimal t) (hd : digits t < 65536) :
    Url.toPort (strtol t) = digits t := by
  rw [strtol_decimal h hd, Url.toPort]
  omega

theorem toPort_pos (n : Int) : 0 < Url.toPort n ↔ n % 65536 ≠ 0 := by
  unfold Url.toPort
  omega

section

variable {s base host between t : Bytes} {u : Url}

/-- An address with a port has the form exactly if the text of the port is one. -/
theorem port_iff (hp : Url.parseScheme {} s = some (u, base))
    (hsp : split base = some (host, between, t)) (h58 : 58 ∈ base)
    (hform : host ≠ [] → between = [] → HasHost base host (some t)) :
    (({ u with url := some s, host := some host, port := Url.toPort (strtol t) } : Url).isValid =
        true →
      Form s { u with url := some s, host := some host, port := Url.toPort (strtol t) }) ↔
    (strtol t % 65536 = 0 ∨ (host ≠ [] ∧ between = [] ∧ IsDecimal t ∧ digits t < 65536)) := by
  have hv : ({ u with url := some s, host := some host, port := Url.toPort (strtol t) } :
      Url).isValid = true ↔ strtol t % 65536 ≠ 0 := by
    simp only [Url.isValid, Option.isSome_some, Bool.true_and, decide_eq_true_eq, toPort_pos]
  rw [hv]
  constructor
  · intro h
    by_cases hz : strtol t % 65536 = 0
    · exact .inl hz
    · obtain ⟨base', host', port', hs, hh, h0, heq, hport⟩ := h hz
      obtain ⟨-, rfl⟩ := Prod.mk.inj (Option.some.inj (hp.symm.trans (parseScheme_of hs)))
      cases heq
      cases port' with
      | none =>
        obtain ⟨rfl, hn, -⟩ := hh
        exact absurd h58 hn
      | some t' =>
        cases hsp.symm.trans (hasHost_split hh h0)
        exact .inr ⟨h0, rfl, hport.1, Nat.lt_succ_of_le hport.2.2.1⟩
  · intro h hz
    obtain ⟨h0, hb, hd, hlt⟩ := h.resolve_left hz
    have hport := toPort_decimal hd hlt
    have hpos := (toPort_pos _).mpr hz
    rw [hport] at hpos
    exact ⟨base, host, some t, (parseScheme_some hp).1, hform h0 hb, h0, rfl, hd, hpos, by omega,
      hport⟩

/-- The same, for the address that is parsed. -/
theorem faithful_port (hp : Url.parseScheme {} s = some (u, base)) (h47 : base.head? ≠ some 47)
    (hsp : split base = some (host, between, t)) :
    Faithful s ↔
      strtol t % 65536 = 0 ∨ (host ≠ [] ∧ between = [] ∧ IsDecimal t ∧ digits t < 65536) := by
  have h0 : base ≠ [] := by
    rintro rfl
    cases hsp
  rw [Faithful, create_eq, hp]
  simp only [finish, if_neg (not_or.mpr ⟨h0, h47⟩), hsp]
  obtain ⟨hn, -⟩ | ⟨host', t', hsp', h91, hbase, hn⟩ | ⟨host', between', t', hsp', hbase, hn, -⟩ :=
    split_cases base
  · rw [hsp] at hn
    cases hn
  · cases hsp.symm.trans hsp'
    refine port_iff hp hsp (by rw [hbase]; simp) fun hne _ => .inl ⟨hbase, hn, fun hc => h91 ?_⟩
    rw [hbase]
    obtain ⟨c, host, rfl⟩ := List.exists_cons_of_ne_nil hne
    exact hc
  · cases hsp.symm.trans hsp'
    refine port_iff hp hsp (by rw [hbase]; simp) ?_
    rintro - rfl
    exact .inr ⟨hbase, hn⟩

end

/-- **An address that is valid has the form**, exactly where the text of its port is
one. -/
theorem faithful_iff (s : Bytes) : Faithful s ↔ Sound s := by
  constructor
  · intro h u base hp host between t hsp h47
    exact (faithful_port hp h47 hsp).mp h
  · intro h
    rcases hp : Url.parseScheme {} s with _ | ⟨u, base⟩
    · intro hv
      rw [create_eq, hp] at hv
      cases hv
    obtain ⟨hs, hh, hport⟩ := parseScheme_some hp
    by_cases hb : base = [] ∨ base.head? = some 47
    · intro hv
      rw [create_eq, hp] at hv
      simp [finish, hb, Url.isValid, hh] at hv
    obtain ⟨h0, h47⟩ := not_or.mp hb
    rcases hsp : split base with _ | ⟨host, between, t⟩
    · intro hv
      rw [create_eq, hp] at hv ⊢
      simp only [finish, if_neg hb, hsp] at hv ⊢
      by_cases h91 : base.head? = some 91
      · simp [Url.isValid, h91, hh] at hv
      · have hn : 58 ∉ base := by
          obtain ⟨-, hn⟩ | ⟨_, _, hsp', -⟩ | ⟨_, _, _, hsp', -⟩ := split_cases base
          · exact hn.resolve_left h91
          · cases hsp.symm.trans hsp'
          · cases hsp.symm.trans hsp'
        simp only [if_neg h91]
        exact ⟨base, base, none, hs, ⟨rfl, hn, h91⟩, h0, rfl, hport⟩
    · exact (faithful_port hp h47 hsp).mpr (h u base hp host between t hsp h47)

/-- A number that is taken for a port, though it has not the form or what stands before
it has not. -/
theorem not_faithful {s : Bytes} (hp : Url.parseScheme {} s = some ({}, s))
    (h47 : s.head? ≠ some 47)
    (h : ∃ r ∈ split s, strtol r.2.2 % 65536 ≠ 0 ∧
      ¬ (r.1 ≠ [] ∧ r.2.1 = [] ∧ IsDecimal r.2.2 ∧ digits r.2.2 < 65536)) : ¬ Faithful s := by
  obtain ⟨⟨host, between, t⟩, hsp, hz, hbad⟩ := h
  intro hf
  exact ((faithful_port hp h47 hsp).mp hf).elim hz hbad

/-- No host; a number that is none for a port; something behind the number or before
it; brackets with nothing in them; something behind the bracket. -/
theorem faithful_fails :
    ¬ Faithful (ascii ":3333") ∧ ¬ Faithful (ascii "a:65537") ∧ ¬ Faithful (ascii "a:80abc") ∧
      ¬ Faithful (ascii "a: 80") ∧ ¬ Faithful (ascii "[]:80") ∧
        ¬ Faithful (ascii "[::1]x:80") := by
  refine ⟨?_, ?_, ?_, ?_, ?_, ?_⟩
  all_goals exact not_faithful (by decide +kernel) (by decide) (by decide +kernel)

end Rxs.L4.UrlGrammar
