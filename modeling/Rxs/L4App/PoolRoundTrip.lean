import Mathlib.Data.List.TakeWhile
import Rxs.L4App.AlgorithmName
import Rxs.L4App.EnvExpand

/-!
# A pool, saved and loaded

`Pool::toJSON` writes what the mode of a pool has use for, `Pool(json)` reads every field,
and `Pool::isEqual` compares most of them.

* `create_url`, `create_proxy`: an address is read from its own text.
* `load_daemon`, `load_pool`: the pool that is loaded from a saved one.
* **`roundTrip_iff`**: when it is equal to the one that was saved.
-/
namespace Rxs.L4.PoolRoundTrip

open Rxs.Core Rxs.Stratum Rxs.L4.EnvExpand

/-! ## The writer -/

/-- mirrors src/base/tools/String.cpp:97-102 -/
def stringJSON : Option Bytes → Json
  | none => .null
  | some s => .string s

/-- mirrors src/base/crypto/Coin.cpp:46-55,99-104 -/
def coinJSON : Coin → Json
  | .INVALID => .null
  | .MONERO => .string (ascii "XMR")
  | .ARQMA => .string (ascii "ARQ")
  | .GRAFT => .string (ascii "GRFT")
  | .WOWNERO => .string (ascii "WOW")
  | .ZEPHYR => .string (ascii "ZEPH")
  | .TOWNFORGE => .string (ascii "Townforge")
  | .YADA => .string (ascii "YDA")

/-- mirrors src/base/net/stratum/ProxyUrl.cpp:48-60 -/
def proxyJSON (u : Url) : Json :=
  if !ProxyUrl.isValid u then .null
  else if u.host.isSome then stringJSON u.url
  else .int u.port

/-- mirrors src/base/net/stratum/Pool.cpp:249-300 -/
def toJSON (p : Pool) : Json :=
  .object
    ([(ascii "algo", .string (AlgorithmName.name p.algorithm)), (ascii "coin", coinJSON p.coin),
        (ascii "url", stringJSON p.url.url), (ascii "user", stringJSON p.user)] ++
      (if p.spendSecretKey.getD [] ≠ [] then
        [(ascii "spend-secret-key", stringJSON p.spendSecretKey)]
      else []) ++
      (if p.mode ≠ .MODE_DAEMON then
        [(ascii "pass", stringJSON p.password), (ascii "rig-id", stringJSON p.rigId),
          (ascii "nicehash", .bool p.flags.nicehash),
          (ascii "keepalive",
            if p.keepAlive = 0 ∨ p.keepAlive = Pool.kKeepAliveTimeout then
              .bool (p.keepAlive > 0)
            else .int p.keepAlive)]
      else []) ++
      [(ascii "enabled", .bool p.flags.enabled),
        (ascii "tls", .bool (p.flags.tls || p.url.tls)), (ascii "sni", .bool p.flags.sni),
        (ascii "tls-fingerprint", stringJSON p.fingerprint),
        (ascii "daemon", .bool (p.mode = .MODE_DAEMON)), (ascii "socks5", proxyJSON p.proxy)] ++
      if p.mode = .MODE_DAEMON then
        [(ascii "daemon-poll-interval", .int p.pollInterval),
          (ascii "daemon-job-timeout", .int p.jobTimeout),
          (ascii "daemon-zmq-port", .int p.zmqPort)]
      else
        [(ascii "self-select", stringJSON p.daemon.url),
          (ascii "submit-to-origin", .bool p.submitToOrigin)])

/-! ## What is asked -/

def load (env : Env) (object : Json) : Pool := Pool.ofJson (expand env) object

/-- The two pools are equal, with the same mode, daemon, ZMQ port and submission. -/
structure Same (p q : Pool) : Prop where
  isEqual : p.isEqual q = true
  mode : q.mode = p.mode
  daemon : q.daemon.url = p.daemon.url
  zmqPort : q.zmqPort = p.zmqPort
  submitToOrigin : q.submitToOrigin = p.submitToOrigin

/-- Nothing is expanded in the object. -/
def Plain (object : Json) : Prop :=
  ∀ key ∈ [ascii "user", ascii "pass", ascii "rig-id"], ∀ s,
    object.getString key = some s → placeholders s = []

/-- What a daemon's section leaves out was not set, or set to what is there without it. -/
structure DaemonReturns (object : Json) : Prop where
  password : object.getString (ascii "pass") = none
  rigId : object.getString (ascii "rig-id") = none
  keepAlive : Pool.keepAliveOf (object.getValue (ascii "keepalive")) 0 = 0
  nicehash : object.getBool (ascii "nicehash") false = true →
    (strstr (ascii "nicehash.com")
      ((Url.create (object.getString (ascii "url"))).host.getD [])).isSome = true
  daemon : Url.create (object.getString (ascii "self-select")) = {}

/-- What the section of a pool leaves out is the default. -/
structure PoolReturns (object : Json) : Prop where
  daemon : (Url.create (object.getString (ascii "self-select"))).url = none →
    Url.create (object.getString (ascii "self-select")) = {}
  pollInterval : object.getUint64 (ascii "daemon-poll-interval") 1000 = 1000
  jobTimeout : object.getUint64 (ascii "daemon-job-timeout") 15000 = 15000
  zmqPort : object.getInt (ascii "daemon-zmq-port") (-1) = -1

/-- The pool is a daemon's. -/
def IsDaemon (object : Json) : Prop :=
  (Url.create (object.getString (ascii "self-select"))).isValid = false ∧
    object.getBool (ascii "daemon") false = true

instance (object : Json) : Decidable (IsDaemon object) := inferInstanceAs (Decidable (_ ∧ _))

/-- All that is read is written, or is the default. -/
def Returns (object : Json) : Prop :=
  if (Url.create (object.getString (ascii "url"))).isValid then
    (ProxyUrl.isValid (ProxyUrl.create (object.getValue (ascii "socks5"))) = false →
      ProxyUrl.create (object.getValue (ascii "socks5")) = { port := 0 }) ∧
    if IsDaemon object then DaemonReturns object else PoolReturns object
  else
    (Url.create (object.getString (ascii "url"))).url = none →
      Url.create (object.getString (ascii "url")) = {}

/-! ## Addresses -/

theorem parseScheme_text {u v : Url} {s base : Bytes} (h : u.parseScheme s = some (v, base)) :
    v.url = u.url ∧ v.host = u.host ∧ v.port = u.port := by
  unfold Url.parseScheme at h
  split at h
  · cases h
    exact ⟨rfl, rfl, rfl⟩
  · dsimp only at h
    split_ifs at h <;> cases h <;> exact ⟨rfl, rfl, rfl⟩

/-- With a port there is a host. -/
def Complete (u : Url) : Prop := 0 < u.port → u.host.isSome = true

theorem parseIPv6_text (u : Url) (addr : Bytes) :
    (u.parseIPv6 addr).url = u.url ∧ (u.parseIPv6 addr = u ∨ (u.parseIPv6 addr).host.isSome) := by
  unfold Url.parseIPv6
  split
  · exact ⟨rfl, Or.inl rfl⟩
  · split
    · exact ⟨rfl, Or.inl rfl⟩
    · exact ⟨rfl, Or.inr rfl⟩

/-- What `parse` leaves: the scheme and nothing else, or the text and what is in it. -/
theorem parse_text {u : Url} (hu : u.url = none) (hh : u.host = none) (x : Option Bytes) :
    ((u.parse x).url = none ∧ (u.parse x).host = none ∧ (u.parse x).port = u.port) ∨
      ((u.parse x).url = x ∧ x.isSome = true ∧
        ((u.parse x).host = none → (u.parse x).port = u.port)) := by
  cases x with
  | none => exact Or.inl ⟨hu, hh, rfl⟩
  | some s =>
    cases hs : u.parseScheme s with
    | none =>
      have heq : u.parse (some s) = u := by simp only [Url.parse, hs]
      rw [heq]
      exact Or.inl ⟨hu, hh, rfl⟩
    | some r =>
      obtain ⟨v, base⟩ := r
      obtain ⟨hvu, hvh, hvp⟩ := parseScheme_text hs
      simp only [Url.parse, hs]
      split
      · exact Or.inl ⟨hvu.trans hu, hvh.trans hh, hvp⟩
      · right
        split
        · obtain ⟨hurl, heq | hhost⟩ := parseIPv6_text { v with url := some s } base
          · rw [heq]
            exact ⟨rfl, rfl, fun _ => hvp⟩
          · refine ⟨hurl, rfl, fun hnone => ?_⟩
            rw [hnone] at hhost
            cases hhost
        · split
          · exact ⟨rfl, rfl, fun hnone => by cases hnone⟩
          · exact ⟨rfl, rfl, fun hnone => by cases hnone⟩

/-- An address is read from its own text, if it has one. -/
theorem create_url (x : Option Bytes) :
    Url.create (Url.create x).url =
      if (Url.create x).url.isSome then Url.create x else {} := by
  unfold Url.create
  rcases parse_text (u := {}) rfl rfl x with ⟨hnone, -⟩ | ⟨hurl, hsome, -⟩
  · rw [hnone]
    rfl
  · rw [hurl, if_pos hsome]

theorem url_of_isValid {x : Option Bytes} (h : (Url.create x).isValid = true) :
    (Url.create x).url.isSome = true := by
  unfold Url.create at h ⊢
  rcases parse_text (u := {}) rfl rfl x with ⟨-, hhost, -⟩ | ⟨hurl, hsome, -⟩
  · simp [Url.isValid, hhost] at h
  · rw [hurl]
    exact hsome

/-- The text of an address is what was given. -/
theorem text_url (x : Option Bytes) : (Url.create x).url = none ∨ (Url.create x).url = x := by
  unfold Url.create
  rcases parse_text (u := {}) rfl rfl x with ⟨hnone, -⟩ | ⟨hurl, -⟩
  · exact Or.inl hnone
  · exact Or.inr hurl

/-! ## Texts -/

/-- No zero is in the text. -/
def Text (x : Option Bytes) : Prop := x.map cstr = x

theorem text_getString (object : Json) (key : Bytes) : Text (object.getString key) := by
  unfold Text Json.getString
  split
  · simp [cstr_cstr]
  · rfl

theorem getString_of_find {object : Json} {key : Bytes} {x : Option Bytes} (hx : Text x)
    (h : object.find key = some (stringJSON x)) : object.getString key = x := by
  unfold Json.getString
  rw [h]
  cases x with
  | none => rfl
  | some s => exact hx

theorem create_port {port : Nat} (h : port < 65536) :
    ProxyUrl.create (.int port) = { port := port } := by
  have hlt : (0 : Int) ≤ port ∧ (port : Int) < 2 ^ 32 := by omega
  have hport : Url.toPort port = port := by
    unfold Url.toPort
    omega
  rw [ProxyUrl.create, if_pos hlt, hport]

theorem create_proxy (v : Json) :
    ProxyUrl.create (proxyJSON (ProxyUrl.create v)) =
      if ProxyUrl.isValid (ProxyUrl.create v) then ProxyUrl.create v else { port := 0 } := by
  unfold proxyJSON
  cases hv : ProxyUrl.isValid (ProxyUrl.create v) with
  | false => rfl
  | true =>
    have hport : 0 < (ProxyUrl.create v).port := by
      simp only [ProxyUrl.isValid, Bool.and_eq_true, decide_eq_true_eq] at hv
      exact hv.1
    simp only [Bool.not_true, Bool.false_eq_true, if_false, if_true]
    cases v with
    | string s =>
      rcases parse_text (u := { port := 0 }) rfl rfl (some (cstr s)) with
        ⟨-, -, hp⟩ | ⟨hurl, -, hhost⟩
      · simp only [ProxyUrl.create, hp] at hport
        omega
      · have hsome : (ProxyUrl.create (.string s)).host.isSome = true := by
          by_contra hnone
          rw [Bool.not_eq_true, Option.isSome_eq_false_iff, Option.isNone_iff_eq_none] at hnone
          have := hhost hnone
          simp only [ProxyUrl.create, this] at hport
          omega
        have hurl : (ProxyUrl.create (.string s)).url = some (cstr s) := hurl
        rw [if_pos hsome, hurl]
        simp only [stringJSON, ProxyUrl.create, cstr_cstr]
    | int n =>
      by_cases hn : 0 ≤ n ∧ n < 2 ^ 32
      · have heq : ProxyUrl.create (.int n) = { port := Url.toPort n } := if_pos hn
        have hlt : Url.toPort n < 65536 := by
          unfold Url.toPort
          omega
        rw [heq]
        exact create_port hlt
      · have heq : ProxyUrl.create (.int n) = { port := 0 } := if_neg hn
        simp [heq] at hport
    | _ => simp [ProxyUrl.create] at hport

/-! ## What is read of what was written -/

theorem parse_algorithm (a : Algorithm) :
    Algorithm.parse (some (AlgorithmName.name a)) = a := by
  rw [AlgorithmName.parse_eq]
  cases a with
  | INVALID =>
    rw [AlgorithmName.parse_eq_scan]
    decide
  | _ => exact AlgorithmName.parse_name (by decide)

theorem getString_coin {object : Json} {c : Coin}
    (h : object.find (ascii "coin") = some (coinJSON c)) :
    Coin.parse (object.getString (ascii "coin")) = c := by
  unfold Json.getString
  rw [h]
  cases c <;> decide

theorem getString_algo {object : Json} {a : Algorithm}
    (h : object.find (ascii "algo") = some (.string (AlgorithmName.name a))) :
    Algorithm.parse (object.getString (ascii "algo")) = a := by
  unfold Json.getString
  rw [h]
  simp only [AlgorithmName.cstr_name, parse_algorithm]

section Members

variable (p : Pool)

/-- The members that are written in every mode. -/
theorem find_common :
    (toJSON p).find (ascii "algo") = some (.string (AlgorithmName.name p.algorithm)) ∧
    (toJSON p).find (ascii "coin") = some (coinJSON p.coin) ∧
    (toJSON p).find (ascii "url") = some (stringJSON p.url.url) ∧
    (toJSON p).find (ascii "user") = some (stringJSON p.user) ∧
    (toJSON p).find (ascii "enabled") = some (.bool p.flags.enabled) ∧
    (toJSON p).find (ascii "tls") = some (.bool (p.flags.tls || p.url.tls)) ∧
    (toJSON p).find (ascii "sni") = some (.bool p.flags.sni) ∧
    (toJSON p).find (ascii "tls-fingerprint") = some (stringJSON p.fingerprint) ∧
    (toJSON p).find (ascii "daemon") = some (.bool (p.mode = .MODE_DAEMON)) ∧
    (toJSON p).find (ascii "socks5") = some (proxyJSON p.proxy) := by
  unfold toJSON
  split_ifs <;> exact ⟨rfl, rfl, rfl, rfl, rfl, rfl, rfl, rfl, rfl, rfl⟩

/-- A daemon's other members. -/
theorem find_daemon (h : p.mode = .MODE_DAEMON) :
    (toJSON p).find (ascii "pass") = none ∧ (toJSON p).find (ascii "rig-id") = none ∧
    (toJSON p).find (ascii "nicehash") = none ∧ (toJSON p).find (ascii "keepalive") = none ∧
    (toJSON p).find (ascii "daemon-poll-interval") = some (.int p.pollInterval) ∧
    (toJSON p).find (ascii "daemon-job-timeout") = some (.int p.jobTimeout) ∧
    (toJSON p).find (ascii "daemon-zmq-port") = some (.int p.zmqPort) ∧
    (toJSON p).find (ascii "self-select") = none := by
  unfold toJSON
  rw [if_neg (not_not.mpr h), if_pos h]
  split_ifs <;> exact ⟨rfl, rfl, rfl, rfl, rfl, rfl, rfl, rfl⟩

def keepAliveJSON (keepAlive : Int) : Json :=
  if keepAlive = 0 ∨ keepAlive = Pool.kKeepAliveTimeout then .bool (keepAlive > 0)
  else .int keepAlive

/-- The other members of a pool that is no daemon. -/
theorem find_pool (h : p.mode ≠ .MODE_DAEMON) :
    (toJSON p).find (ascii "pass") = some (stringJSON p.password) ∧
    (toJSON p).find (ascii "rig-id") = some (stringJSON p.rigId) ∧
    (toJSON p).find (ascii "nicehash") = some (.bool p.flags.nicehash) ∧
    (toJSON p).find (ascii "keepalive") = some (keepAliveJSON p.keepAlive) ∧
    (toJSON p).find (ascii "daemon-poll-interval") = none ∧
    (toJSON p).find (ascii "daemon-job-timeout") = none ∧
    (toJSON p).find (ascii "daemon-zmq-port") = none ∧
    (toJSON p).find (ascii "self-select") = some (stringJSON p.daemon.url) ∧
    (toJSON p).find (ascii "submit-to-origin") = some (.bool p.submitToOrigin) := by
  unfold toJSON keepAliveJSON
  rw [if_pos h, if_neg h]
  by_cases hs : p.spendSecretKey.getD [] ≠ []
  · rw [if_pos hs]
    exact ⟨rfl, rfl, rfl, rfl, rfl, rfl, rfl, rfl, rfl⟩
  · rw [if_neg hs]
    exact ⟨rfl, rfl, rfl, rfl, rfl, rfl, rfl, rfl, rfl⟩

end Members

theorem keepAliveOf_json {n : Int} (h : 0 ≤ n ∧ n < 2 ^ 31) :
    Pool.keepAliveOf (keepAliveJSON n) 0 = n := by
  unfold keepAliveJSON Pool.kKeepAliveTimeout
  split
  case isTrue hn =>
    rcases hn with rfl | rfl <;> decide
  case isFalse =>
    simp only [Pool.keepAliveOf]
    rw [if_pos (by omega)]
    omega

/-! ## A pool that was loaded -/

/-- What holds of a pool that was loaded from an object with a valid address. -/
structure Loaded (env : Env) (p : Pool) : Prop where
  valid : p.url.isValid = true
  url : Url.create p.url.url = p.url
  urlText : Text p.url.url
  user : Text p.user ∧ expand env p.user = p.user
  password : Text p.password ∧ expand env p.password = p.password
  rigId : Text p.rigId ∧ expand env p.rigId = p.rigId
  fingerprint : Text p.fingerprint
  keepAlive : 0 ≤ p.keepAlive ∧ p.keepAlive < 2 ^ 31
  pollInterval : p.pollInterval < 2 ^ 64
  jobTimeout : p.jobTimeout < 2 ^ 64
  zmqPort : -2 ^ 31 ≤ p.zmqPort ∧ p.zmqPort < 2 ^ 31
  nicehash : (strstr (ascii "nicehash.com") (p.url.host.getD [])).isSome = true →
    p.flags.nicehash = true
  tls : p.url.tls = true → p.flags.tls = true
  daemonText : Text p.daemon.url
  daemon : Url.create p.daemon.url = if p.daemon.url.isSome then p.daemon else {}
  proxy : ProxyUrl.create (proxyJSON p.proxy) =
    if ProxyUrl.isValid p.proxy then p.proxy else { port := 0 }
  daemonUrl : p.daemon.isValid = true → p.daemon.url.isSome = true
  selfSelect : p.daemon.isValid = true → p.mode = .MODE_SELF_SELECT
  plain : p.daemon.isValid = false →
    (p.mode = .MODE_POOL ∨ p.mode = .MODE_DAEMON) ∧ p.submitToOrigin = false
  benchmark : p.benchmark = none

theorem getUint64_of_find {object : Json} {key : Bytes} {n d : Nat} (hn : n < 2 ^ 64)
    (h : object.find key = some (.int n)) : object.getUint64 key d = n := by
  simp only [Json.getUint64, Json.getIntegral, h]
  rw [if_pos (by omega)]
  rfl

theorem getInt_of_find {object : Json} {key : Bytes} {n d : Int}
    (hn : -2 ^ 31 ≤ n ∧ n < 2 ^ 31) (h : object.find key = some (.int n)) :
    object.getInt key d = n := by
  simp only [Json.getInt, Json.getIntegral, h]
  exact if_pos hn

theorem Loaded.tls_eq {env : Env} {p : Pool} (L : Loaded env p) :
    (p.flags.tls || p.url.tls || p.url.tls) = p.flags.tls := by
  have := L.tls
  revert this
  cases p.flags.tls <;> cases p.url.tls <;> simp

theorem Loaded.nicehash_eq {env : Env} {p : Pool} (L : Loaded env p) :
    (p.flags.nicehash || (strstr (ascii "nicehash.com") (p.url.host.getD [])).isSome) =
      p.flags.nicehash := by
  have := L.nicehash
  revert this
  cases p.flags.nicehash <;>
    cases (strstr (ascii "nicehash.com") (p.url.host.getD [])).isSome <;> simp

/-- A daemon, saved and loaded. -/
theorem load_daemon {env : Env} {p : Pool} (L : Loaded env p) (h : p.mode = .MODE_DAEMON) :
    load env (toJSON p) =
      { p with
        password := none
        rigId := none
        keepAlive := 0
        spendSecretKey := (toJSON p).getString (ascii "spend-secret-key")
        flags := { p.flags with
          nicehash := (strstr (ascii "nicehash.com") (p.url.host.getD [])).isSome }
        daemon := {}
        proxy := if ProxyUrl.isValid p.proxy then p.proxy else { port := 0 } } := by
  obtain ⟨halgo, hcoin, hurl, huser, hen, htls, hsni, hprint, hdaemon, hproxy⟩ := find_common p
  obtain ⟨hpass, hrig, hnice, hkeep, hpoll, htimeout, hzmq, hself⟩ := find_daemon p h
  have hurl := getString_of_find L.urlText hurl
  have huser := getString_of_find L.user.1 huser
  have hprint := getString_of_find L.fingerprint hprint
  have hpoll := getUint64_of_find (d := 1000) L.pollInterval hpoll
  have htimeout := getUint64_of_find (d := 15000) L.jobTimeout htimeout
  have hzmq := getInt_of_find (d := -1) L.zmqPort hzmq
  have hsubmit : p.submitToOrigin = false := by
    cases hv : p.daemon.isValid with
    | true => simp [L.selfSelect hv] at h
    | false => exact (L.plain hv).2
  unfold load Pool.ofJson
  simp only [hurl, L.url, L.valid, not_true_eq_false, if_false, huser, L.user.2, hprint, hpoll,
    htimeout, hzmq, getString_algo halgo, getString_coin hcoin, Json.getValue, hproxy, hkeep,
    Option.getD_some, Option.getD_none, L.proxy, Json.getBool, hen, htls, hsni, hdaemon, hnice,
    L.tls_eq]
  have hnone : ∀ key, (toJSON p).find key = none → (toJSON p).getString key = none := by
    intro key hkey
    simp [Json.getString, hkey]
  rw [hnone _ hpass, hnone _ hrig, hnone _ hself]
  simp only [h, decide_true, hsubmit, L.benchmark]
  rfl

/-- Any other pool. -/
theorem load_pool {env : Env} {p : Pool} (L : Loaded env p) (h : p.mode ≠ .MODE_DAEMON) :
    load env (toJSON p) =
      { p with
        pollInterval := 1000
        jobTimeout := 15000
        zmqPort := -1
        spendSecretKey := (toJSON p).getString (ascii "spend-secret-key")
        daemon := if p.daemon.url.isSome then p.daemon else {}
        proxy := if ProxyUrl.isValid p.proxy then p.proxy else { port := 0 } } := by
  obtain ⟨halgo, hcoin, hurl, huser, hen, htls, hsni, hprint, hdaemon, hproxy⟩ := find_common p
  obtain ⟨hpass, hrig, hnice, hkeep, hpoll, htimeout, hzmq, hself, hsubmit⟩ := find_pool p h
  have hurl := getString_of_find L.urlText hurl
  have huser := getString_of_find L.user.1 huser
  have hpass := getString_of_find L.password.1 hpass
  have hrig := getString_of_find L.rigId.1 hrig
  have hprint := getString_of_find L.fingerprint hprint
  have hself := getString_of_find L.daemonText hself
  have hvalid : (if p.daemon.url.isSome then p.daemon else {} : Url).isValid =
      p.daemon.isValid := by
    split
    case isTrue => rfl
    case isFalse hnone =>
      cases hv : p.daemon.isValid with
      | true => exact absurd (L.daemonUrl hv) hnone
      | false => rfl
  have hmode : (if p.daemon.isValid = true then Mode.MODE_SELF_SELECT else .MODE_POOL) =
      p.mode := by
    cases hv : p.daemon.isValid with
    | true => exact (L.selfSelect hv).symm
    | false => exact ((L.plain hv).1.resolve_right h).symm
  have horigin : (if p.daemon.isValid = true then p.submitToOrigin else false) =
      p.submitToOrigin := by
    cases hv : p.daemon.isValid with
    | true => rfl
    | false => exact (L.plain hv).2.symm
  unfold load Pool.ofJson
  simp only [hurl, L.url, L.valid, not_true_eq_false, if_false, huser, L.user.2, hprint, hpass,
    L.password.2, hrig, L.rigId.2, hself, L.daemon, hvalid, getString_algo halgo,
    getString_coin hcoin, Json.getValue, hproxy, hkeep, Option.getD_some, L.proxy, Json.getBool,
    hen, htls, hsni, hdaemon, hnice, L.tls_eq, L.nicehash_eq, hsubmit,
    keepAliveOf_json L.keepAlive,
    horigin, h, decide_false, Bool.false_eq_true, hmode, L.benchmark, Json.getUint64,
    Json.getIntegral, Json.getInt, hpoll, htimeout, hzmq]
  rfl

/-! ## Loading -/

theorem expand_plain (env : Env) {x : Option Bytes} (hx : Text x)
    (hp : ∀ s, x = some s → placeholders s = []) : expand env x = x := by
  cases x with
  | none => rfl
  | some s =>
    have hs : cstr s = s := Option.some.inj hx
    rw [expand_eq, createVars, hs, hp s rfl]
    rfl

theorem getIntegral_bounds {low high d : Int} (hd : low ≤ d ∧ d < high) (object : Json)
    (key : Bytes) : low ≤ object.getIntegral low high key d ∧
      object.getIntegral low high key d < high := by
  unfold Json.getIntegral
  split
  · split
    · assumption
    · exact hd
  · exact hd

theorem keepAliveOf_bounds (v : Json) :
    0 ≤ Pool.keepAliveOf v 0 ∧ Pool.keepAliveOf v 0 < 2 ^ 31 := by
  unfold Pool.keepAliveOf Pool.kKeepAliveTimeout
  split
  · split <;> omega
  · split <;> omega
  · omega

theorem getString_plain (env : Env) {object : Json} (hplain : Plain object) {key : Bytes}
    (hkey : key ∈ [ascii "user", ascii "pass", ascii "rig-id"]) :
    expand env (object.getString key) = object.getString key :=
  expand_plain env (text_getString object key) (hplain key hkey)

theorem text_create (object : Json) (key : Bytes) :
    Text (Url.create (object.getString key)).url := by
  rcases text_url (object.getString key) with h | h
  · rw [h]
    rfl
  · rw [h]
    exact text_getString object key

section Load

variable (env : Env) {object : Json}
  (hvalid : (Url.create (object.getString (ascii "url"))).isValid = true)

include hvalid

/-- The fields that are not copied. -/
theorem load_fields :
    (load env object).url = Url.create (object.getString (ascii "url")) ∧
    (load env object).daemon = Url.create (object.getString (ascii "self-select")) ∧
    (load env object).proxy = ProxyUrl.create (object.getValue (ascii "socks5")) ∧
    (load env object).keepAlive = Pool.keepAliveOf (object.getValue (ascii "keepalive")) 0 ∧
    (load env object).flags.nicehash = (object.getBool (ascii "nicehash") false ||
      (strstr (ascii "nicehash.com")
        ((Url.create (object.getString (ascii "url"))).host.getD [])).isSome) ∧
    (load env object).mode =
      (if (Url.create (object.getString (ascii "self-select"))).isValid then .MODE_SELF_SELECT
      else if object.getBool (ascii "daemon") false then .MODE_DAEMON
      else .MODE_POOL) ∧
    (load env object).pollInterval = object.getUint64 (ascii "daemon-poll-interval") 1000 ∧
    (load env object).jobTimeout = object.getUint64 (ascii "daemon-job-timeout") 15000 ∧
    (load env object).zmqPort = object.getInt (ascii "daemon-zmq-port") (-1) := by
  unfold load Pool.ofJson
  simp only [hvalid, not_true_eq_false, if_false]
  trivial

theorem load_texts (hplain : Plain object) :
    (load env object).user = object.getString (ascii "user") ∧
    (load env object).password = object.getString (ascii "pass") ∧
    (load env object).rigId = object.getString (ascii "rig-id") ∧
    (load env object).fingerprint = object.getString (ascii "tls-fingerprint") := by
  unfold load Pool.ofJson
  simp only [hvalid, not_true_eq_false, if_false, getString_plain env hplain, List.mem_cons,
    true_or, or_true]
  trivial

theorem loaded (hplain : Plain object) : Loaded env (load env object) := by
  obtain ⟨hurl, hdaemon, hproxy, hkeep, hnice, hmode, hpoll, htimeout, hzmq⟩ :=
    load_fields env hvalid
  obtain ⟨huser, hpass, hrig, hprint⟩ := load_texts env hvalid hplain
  have hback : ∀ {x : Option Bytes} {key}, x = object.getString key →
      key ∈ [ascii "user", ascii "pass", ascii "rig-id"] → Text x ∧ expand env x = x := by
    rintro x key rfl hkey
    exact ⟨text_getString object key, getString_plain env hplain hkey⟩
  exact
    { valid := hurl ▸ hvalid
      url := by rw [hurl, create_url, if_pos (url_of_isValid hvalid)]
      urlText := by
        rw [hurl]
        exact text_create object _
      user := hback huser (by simp)
      password := hback hpass (by simp)
      rigId := hback hrig (by simp)
      fingerprint := hprint ▸ text_getString object _
      keepAlive := hkeep ▸ keepAliveOf_bounds _
      pollInterval := by
        have := @getIntegral_bounds 0 (2 ^ 64) (1000 : Nat) (by omega)
          object (ascii "daemon-poll-interval")
        rw [hpoll, Json.getUint64]
        omega
      jobTimeout := by
        have := @getIntegral_bounds 0 (2 ^ 64) (15000 : Nat) (by omega)
          object (ascii "daemon-job-timeout")
        rw [htimeout, Json.getUint64]
        omega
      zmqPort := by
        rw [hzmq]
        exact getIntegral_bounds (by omega) object _
      nicehash := by
        rw [hurl, hnice]
        intro h
        rw [h, Bool.or_true]
      tls := by
        unfold load Pool.ofJson
        simp only [hvalid, not_true_eq_false, if_false]
        intro h
        rw [h, Bool.or_true]
      daemonText := hdaemon ▸ text_create object _
      daemon := by rw [hdaemon, create_url]
      proxy := by rw [hproxy, create_proxy]
      daemonUrl := by
        rw [hdaemon]
        exact url_of_isValid
      selfSelect := by
        rw [hdaemon, hmode]
        intro h
        rw [if_pos h]
      plain := by
        rw [hdaemon, hmode]
        intro h
        rw [h]
        refine ⟨?_, ?_⟩
        · split
          · contradiction
          · split
            · exact Or.inr rfl
            · exact Or.inl rfl
        · unfold load Pool.ofJson
          simp only [hvalid, not_true_eq_false, if_false]
          rw [if_neg (by simp [h])]
      benchmark := by
        unfold load Pool.ofJson
        simp only [hvalid, not_true_eq_false, if_false] }

end Load

/-! ## Saved and loaded -/

/-- A proxy that is not valid comes back as the empty one. -/
theorem proxy_same (u : Url) : (u = if ProxyUrl.isValid u then u else { port := 0 }) ↔
    (ProxyUrl.isValid u = false → u = { port := 0 }) := by
  cases ProxyUrl.isValid u <;> simp

theorem same_daemon {env : Env} {p : Pool} (L : Loaded env p) (h : p.mode = .MODE_DAEMON) :
    Same p (load env (toJSON p)) ↔
      (ProxyUrl.isValid p.proxy = false → p.proxy = { port := 0 }) ∧
      p.password = none ∧ p.rigId = none ∧ p.keepAlive = 0 ∧
      (p.flags.nicehash = true →
        (strstr (ascii "nicehash.com") (p.url.host.getD [])).isSome = true) ∧
      p.daemon = {} := by
  have hflags : (p.flags = { p.flags with
        nicehash := (strstr (ascii "nicehash.com") (p.url.host.getD [])).isSome }) ↔
      (p.flags.nicehash = true →
        (strstr (ascii "nicehash.com") (p.url.host.getD [])).isSome = true) := by
    have hhost := L.nicehash
    obtain ⟨flags, hf⟩ : ∃ flags, p.flags = flags := ⟨_, rfl⟩
    rw [hf] at hhost ⊢
    obtain ⟨enabled, nicehash, tls, sni⟩ := flags
    simp only [Flags.mk.injEq, true_and, and_true]
    constructor
    · rintro heq hn
      rw [← heq]
      exact hn
    · intro hn
      rw [Bool.eq_iff_iff]
      exact ⟨hn, hhost⟩
  rw [load_daemon L h]
  constructor
  · rintro ⟨heq, -, -, -, -⟩
    simp only [Pool.isEqual, Bool.and_eq_true, decide_eq_true_eq] at heq
    obtain ⟨⟨⟨⟨⟨⟨⟨⟨⟨⟨⟨⟨⟨hf, hk⟩, -⟩, -⟩, -⟩, -⟩, hpass⟩, hrig⟩, -⟩, -⟩, -⟩, -⟩, hd⟩, hx⟩ := heq
    exact ⟨(proxy_same p.proxy).mp hx, hpass, hrig, hk, hflags.mp hf, hd⟩
  · rintro ⟨hx, hpass, hrig, hk, hf, hd⟩
    have hx := (proxy_same p.proxy).mpr hx
    have hf := hflags.mpr hf
    refine ⟨?_, rfl, by rw [hd], rfl, rfl⟩
    simp only [Pool.isEqual, Bool.and_eq_true, decide_eq_true_eq]
    exact ⟨⟨⟨⟨⟨⟨⟨⟨⟨⟨⟨⟨⟨hf, hk⟩, trivial⟩, trivial⟩, trivial⟩, trivial⟩, hpass⟩, hrig⟩, trivial⟩,
      trivial⟩, trivial⟩, trivial⟩, hd⟩, hx⟩

theorem same_pool {env : Env} {p : Pool} (L : Loaded env p) (h : p.mode ≠ .MODE_DAEMON) :
    Same p (load env (toJSON p)) ↔
      (ProxyUrl.isValid p.proxy = false → p.proxy = { port := 0 }) ∧
      (p.daemon.url = none → p.daemon = {}) ∧
      p.pollInterval = 1000 ∧ p.jobTimeout = 15000 ∧ p.zmqPort = -1 := by
  have hdaemon : (p.daemon = if p.daemon.url.isSome then p.daemon else {}) ↔
      (p.daemon.url = none → p.daemon = {}) := by
    cases p.daemon.url <;> simp
  rw [load_pool L h]
  constructor
  · rintro ⟨heq, -, -, hz, -⟩
    simp only [Pool.isEqual, Bool.and_eq_true, decide_eq_true_eq] at heq
    obtain ⟨⟨⟨⟨-, hp⟩, ht⟩, hd⟩, hx⟩ := heq
    exact ⟨(proxy_same p.proxy).mp hx, hdaemon.mp hd, hp, ht, hz.symm⟩
  · rintro ⟨hx, hd, hp, ht, hz⟩
    have hx := (proxy_same p.proxy).mpr hx
    have hd := hdaemon.mpr hd
    refine ⟨?_, rfl, by rw [← hd], hz.symm, rfl⟩
    simp only [Pool.isEqual, Bool.and_eq_true, decide_eq_true_eq]
    exact ⟨⟨⟨⟨by simp, hp⟩, ht⟩, hd⟩, hx⟩

/-- An object without a valid address makes a pool of the address alone. -/
theorem load_invalid (env : Env) {object : Json}
    (h : (Url.create (object.getString (ascii "url"))).isValid = false) :
    load env object =
      { flags := { enabled := true }, url := Url.create (object.getString (ascii "url")) } := by
  unfold load Pool.ofJson
  simp only [h, Bool.false_eq_true, not_false_eq_true, if_true]

theorem same_invalid (env : Env) {object : Json}
    (h : (Url.create (object.getString (ascii "url"))).isValid = false) :
    Same (load env object) (load env (toJSON (load env object))) ↔
      ((Url.create (object.getString (ascii "url"))).url = none →
        Url.create (object.getString (ascii "url")) = {}) := by
  have htext := text_create object (ascii "url")
  have hback := create_url (object.getString (ascii "url"))
  rw [load_invalid env h]
  generalize Url.create (object.getString (ascii "url")) = u at h htext hback ⊢
  have hurl := getString_of_find htext
    (find_common { flags := { enabled := true }, url := u }).2.2.1
  have hback' : Url.create ((toJSON { flags := { enabled := true }, url := u }).getString
      (ascii "url")) = if u.url.isSome then u else {} := by rw [hurl, hback]
  have hinvalid : (if u.url.isSome then u else {} : Url).isValid = false := by
    split
    · exact h
    · rfl
  rw [load_invalid env (by rw [hback']; exact hinvalid), hback']
  constructor
  · rintro ⟨heq, -, -, -, -⟩ hnone
    simp only [Pool.isEqual, Bool.and_eq_true, decide_eq_true_eq, hnone] at heq
    simpa using heq.1.1.1.1.1.2
  · intro hu
    have heq : (if u.url.isSome then u else {} : Url) = u := by
      cases hnone : u.url with
      | none => simpa using (hu hnone).symm
      | some _ => rfl
    rw [heq]
    refine ⟨?_, rfl, rfl, rfl, rfl⟩
    simp [Pool.isEqual]

/-- For any object in which nothing is expanded: the pool that is loaded from the saved one is
equal to it, with the same mode, daemon, ZMQ port and submission, exactly where all that was
read is written or is the default. -/
theorem roundTrip_iff (env : Env) (object : Json) (hplain : Plain object) :
    Same (load env object) (load env (toJSON (load env object))) ↔ Returns object := by
  unfold Returns
  cases hvalid : (Url.create (object.getString (ascii "url"))).isValid with
  | false => simpa using same_invalid env hvalid
  | true =>
    have L := loaded env hvalid hplain
    obtain ⟨hurl, hdaemon, hproxy, hkeep, hnice, hmode, hpoll, htimeout, hzmq⟩ :=
      load_fields env hvalid
    obtain ⟨huser, hpass, hrig, hprint⟩ := load_texts env hvalid hplain
    rw [if_pos rfl]
    by_cases hd : IsDaemon object
    · have hmode' : (load env object).mode = .MODE_DAEMON := by
        rw [hmode, if_neg (by simp [hd.1]), if_pos hd.2]
      rw [if_pos hd, same_daemon L hmode', hproxy, hpass, hrig, hkeep, hnice, hurl, hdaemon]
      constructor
      · rintro ⟨hx, h₁, h₂, h₃, h₄, h₅⟩
        exact ⟨hx, h₁, h₂, h₃, fun hn => h₄ (by rw [hn]; rfl), h₅⟩
      · rintro ⟨hx, h₁, h₂, h₃, h₄, h₅⟩
        refine ⟨hx, h₁, h₂, h₃, fun hn => ?_, h₅⟩
        rcases (Bool.or_eq_true _ _).mp hn with hn | hn
        · exact h₄ hn
        · exact hn
    · have hmode' : (load env object).mode ≠ .MODE_DAEMON := by
        rw [hmode]
        intro h
        apply hd
        split at h
        · cases h
        · split at h
          · exact ⟨by simp_all, by assumption⟩
          · cases h
      rw [if_neg hd, same_pool L hmode', hproxy, hdaemon, hpoll, htimeout, hzmq]
      constructor
      · rintro ⟨hx, h₁, h₂, h₃, h₄⟩
        exact ⟨hx, h₁, h₂, h₃, h₄⟩
      · rintro ⟨hx, h₁, h₂, h₃, h₄⟩
        exact ⟨hx, h₁, h₂, h₃, h₄⟩

/-- An environment without variables. -/
def noEnv : Env := ⟨[], [], fun _ => none⟩

/-- A daemon with a password; a pool with the interval of a daemon; a proxy without a port;
an address that is a scheme only. -/
theorem roundTrip_fails :
    (¬Same (load noEnv (.object [(ascii "url", .string (ascii "host:1")),
        (ascii "daemon", .bool true), (ascii "pass", .string (ascii "x"))]))
      (load noEnv (toJSON (load noEnv (.object [(ascii "url", .string (ascii "host:1")),
        (ascii "daemon", .bool true), (ascii "pass", .string (ascii "x"))]))))) ∧
    (¬Same (load noEnv (.object [(ascii "url", .string (ascii "host:1")),
        (ascii "daemon-poll-interval", .int 500)]))
      (load noEnv (toJSON (load noEnv (.object [(ascii "url", .string (ascii "host:1")),
        (ascii "daemon-poll-interval", .int 500)]))))) ∧
    (¬Same (load noEnv (.object [(ascii "url", .string (ascii "host:1")),
        (ascii "socks5", .string (ascii "proxy"))]))
      (load noEnv (toJSON (load noEnv (.object [(ascii "url", .string (ascii "host:1")),
        (ascii "socks5", .string (ascii "proxy"))]))))) ∧
    ¬Same (load noEnv (.object [(ascii "url", .string (ascii "stratum+ssl:///"))]))
      (load noEnv (toJSON (load noEnv (.object
        [(ascii "url", .string (ascii "stratum+ssl:///"))])))) := by
  refine ⟨?_, ?_, ?_, ?_⟩
  · intro h
    exact absurd h.isEqual (by decide)
  · intro h
    exact absurd h.isEqual (by decide)
  · intro h
    exact absurd h.isEqual (by decide)
  · intro h
    exact absurd h.isEqual (by decide)

/-- A pool with an address alone. -/
theorem roundTrip_plain :
    Same (load noEnv (.object [(ascii "url", .string (ascii "host:3333"))]))
      (load noEnv (toJSON (load noEnv (.object
        [(ascii "url", .string (ascii "host:3333"))])))) := by
  refine (roundTrip_iff noEnv _ ?_).mpr ?_
  · intro key hkey s hs
    have hnone : Json.getString (.object [(ascii "url", .string (ascii "host:3333"))]) key =
        none := by
      simp only [List.mem_cons, List.not_mem_nil, or_false] at hkey
      rcases hkey with rfl | rfl | rfl <;> decide
    rw [hnone] at hs
    cases hs
  · unfold Returns
    rw [if_pos (by decide), if_neg (by decide)]
    exact ⟨fun _ => by decide, fun _ => by decide, by decide, by decide, by decide⟩

end Rxs.L4.PoolRoundTrip
