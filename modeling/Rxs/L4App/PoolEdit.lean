import Rxs.L1Encoding.BlockTemplate
import Rxs.L1Encoding.Json
import Rxs.L2Machine.JobText

/-!
# The pools of a configuration

`Pool(json)` makes a pool of an object: about twenty fields, which the clients read later.
A reload compares the lists of pools with `==`; where they are equal, the strategy that runs
stays, with the clients made of the list before.

* `isEqual_iff`: what two equal pools have in common.
* `keeps`: the strategy stays exactly for equal lists, and for lists without an active pool.
* **`edits`**: equal lists make the same clients, exactly unless the lists differ in the ZMQ
  port, the spend secret key, the submission to the origin or the benchmark, and in nothing
  else.
* `edits_ignored`: a daemon's ZMQ port.
-/
namespace Rxs

open Rxs.Core

/-! ## Names -/

/-- The table is sorted: the binary search finds what stands in it.
mirrors src/base/crypto/Algorithm.cpp:48-63,153-173 -/
def Algorithm.parse (name : Option Bytes) : Algorithm :=
  match name with
  | none => .INVALID
  | some name =>
    let aliases : List (String × Algorithm) :=
      [("randomarq", .RX_ARQ), ("randomgraft", .RX_GRAFT), ("randomsfx", .RX_SFX),
        ("randomwow", .RX_WOW), ("randomx", .RX_0), ("randomyada", .RX_YADA), ("rx", .RX_0),
        ("rx/0", .RX_0), ("rx/2", .RX_V2), ("rx/arq", .RX_ARQ), ("rx/graft", .RX_GRAFT),
        ("rx/sfx", .RX_SFX), ("rx/wow", .RX_WOW), ("rx/yada", .RX_YADA)]
    ((aliases.find? fun e => name.map lower = ascii e.1).map (·.2)).getD .INVALID

/-- `strcasecmp` finds no difference. -/
def strcasecmp (s : Bytes) (t : String) : Bool := s.map lower = (ascii t).map lower

/-- mirrors src/base/crypto/Coin.cpp:46-55,119-132 -/
def Coin.parse (name : Option Bytes) : Coin :=
  match name with
  | none => .INVALID
  | some name =>
    let coinInfo : List (Coin × String × String) :=
      [(.MONERO, "XMR", "Monero"), (.ARQMA, "ARQ", "ArQmA"), (.GRAFT, "GRFT", "Graft"),
        (.WOWNERO, "WOW", "Wownero"), (.ZEPHYR, "ZEPH", "Zephyr"),
        (.TOWNFORGE, "Townforge", "Townforge"), (.YADA, "YDA", "YadaCoin")]
    if name.length < 3 then .INVALID
    else ((coinInfo.find? fun e => strcasecmp name e.2.1 || strcasecmp name e.2.2).map
      (·.1)).getD .INVALID

namespace Stratum

/-! ## Addresses -/

/-- The text from the first place on where `pattern` stands. -/
def strstr (pattern : Bytes) : Bytes → Option Bytes
  | [] => if pattern = [] then some [] else none
  | c :: s => if pattern.isPrefixOf (c :: s) then some (c :: s) else strstr pattern s

def digits (s : Bytes) : Nat :=
  (s.takeWhile fun c => 48 ≤ c && c ≤ 57).foldl (fun n c => n * 10 + (c.toNat - 48)) 0

/-- Behind a sign, and whether it was a minus. -/
def signed (s : Bytes) : Bool × Bytes :=
  let s := s.dropWhile Job.isspace
  (s.head? = some 45, if s.head? = some 45 ∨ s.head? = some 43 then s.tail else s)

/-- `strtol(s, nullptr, 10)`. -/
def strtol (s : Bytes) : Int :=
  let n : Int := digits (signed s).2
  if (signed s).1 then max (-2 ^ 63) (-n) else min (2 ^ 63 - 1) n

/-- `strtoul(s, nullptr, 10)`. -/
def strtoul (s : Bytes) : Nat :=
  let n := digits (signed s).2
  if 2 ^ 64 ≤ n then 2 ^ 64 - 1 else if (signed s).1 then (2 ^ 64 - n) % 2 ^ 64 else n

inductive Scheme where
  | UNSPECIFIED | STRATUM | DAEMON | SOCKS5
  deriving DecidableEq, Repr

/-- A string is none where its data is null. -/
structure Url where
  tls : Bool := false
  scheme : Scheme := .UNSPECIFIED
  host : Option Bytes := none
  url : Option Bytes := none
  port : Nat := 3333
  deriving DecidableEq, Repr

namespace Url

def isValid (u : Url) : Bool := u.host.isSome && 0 < u.port

def toPort (n : Int) : Nat := (n % 65536).toNat

/-- mirrors src/base/net/stratum/Url.cpp:127-151 -/
def parseIPv6 (u : Url) (addr : Bytes) : Url :=
  match strstr [93] addr with
  | none => u
  | some tail =>
    match strstr [58] tail with
    | none => u
    | some port =>
      { u with
        host := some ((addr.take (addr.length - tail.length)).drop 1)
        port := toPort (strtol (port.drop 1)) }

/-- What is behind the scheme, which is known where there is one. -/
def parseScheme (u : Url) (url : Bytes) : Option (Url × Bytes) :=
  match strstr (ascii "://") url with
  | none => some (u, url)
  | some p =>
    let base := p.drop 3
    let starts (s : String) := strncasecmp url (ascii s) s.length
    if starts "stratum+tcp://" then some ({ u with scheme := .STRATUM, tls := false }, base)
    else if starts "stratum+ssl://" then some ({ u with scheme := .STRATUM, tls := true }, base)
    else if starts "socks5://" then some ({ u with scheme := .SOCKS5, tls := false }, base)
    else if starts "daemon+https://" then some ({ u with scheme := .DAEMON, tls := true }, base)
    else if starts "daemon+http://" then some ({ u with scheme := .DAEMON, tls := false }, base)
    else none

/-- mirrors src/base/net/stratum/Url.cpp:72-124 -/
def parse (u : Url) (url : Option Bytes) : Url :=
  match url with
  | none => u
  | some url =>
    match u.parseScheme url with
    | none => u
    | some (u, base) =>
      if base = [] ∨ base.head? = some 47 then u
      else
        let u := { u with url := some url }
        if base.head? = some 91 then u.parseIPv6 base
        else
          match strstr [58] base with
          | none => { u with host := some base }
          | some port =>
            { u with
              host := some (base.take (base.length - port.length))
              port := toPort (strtol (port.drop 1)) }

def create (url : Option Bytes) : Url := parse {} url

end Url

namespace ProxyUrl

/-- mirrors src/base/net/stratum/ProxyUrl.cpp:24-34 -/
def create (value : Json) : Url :=
  match value with
  | .string s => Url.parse { port := 0 } (some (cstr s))
  | .int n => if 0 ≤ n ∧ n < 2 ^ 32 then { port := Url.toPort n } else { port := 0 }
  | _ => { port := 0 }

def isValid (u : Url) : Bool := 0 < u.port && (u.scheme = .UNSPECIFIED || u.scheme = .SOCKS5)

/-- mirrors src/base/net/stratum/ProxyUrl.cpp:37-45 -/
def host (u : Url) : Option Bytes :=
  if u.host = none ∧ isValid u then some (ascii "127.0.0.1") else u.host

end ProxyUrl

/-! ## A benchmark -/

structure BenchConfig where
  algorithm : Algorithm
  dmi : Bool
  submit : Bool
  id : Option Bytes
  seed : Option Bytes
  token : Option Bytes
  user : Option Bytes
  size : Nat
  rotation : Nat
  hash : Nat
  deriving DecidableEq, Repr

namespace BenchConfig

/-- Without the sizes of a debug build.
mirrors src/base/net/stratum/benchmark/BenchConfig.cpp:126-150 -/
def getSize (benchmark : Option Bytes) : Nat :=
  match benchmark with
  | none => 0
  | some benchmark =>
    let size := strtoul benchmark
    if 1 ≤ size ∧ size ≤ 10 then
      if strcasecmp benchmark (toString size ++ "M") then size * 1000000 else 0
    else if size = 250 ∨ size = 500 then
      if strcasecmp benchmark (toString size ++ "K") then size * 1000 else 0
    else 0

/-- mirrors src/base/net/stratum/benchmark/BenchConfig.cpp:53-90 -/
def create (object : Json) (dmi : Bool) : Option BenchConfig :=
  if object.isEmpty then none
  else
    let size := getSize (object.getString (ascii "size"))
    let id := object.getString (ascii "verify")
    let rotation := ((object.getString (ascii "rotation")).map strtoul).getD 0
    if size = 0 ∧ id.getD [] = [] then none
    else
      let algorithm := Algorithm.parse (object.getString (ascii "algo"))
      some
        { algorithm := if algorithm.isRandomX then algorithm else .RX_0
          dmi := dmi
          submit := object.getBool (ascii "submit") false
          id := id
          seed := object.getString (ascii "seed")
          token := object.getString (ascii "token")
          user := object.getString (ascii "user")
          size := size
          rotation := rotation % 2 ^ 32
          hash := ((object.getString (ascii "hash")).map Job.strtoull16).getD 0 }

end BenchConfig

/-! ## A pool -/

inductive Mode where
  | MODE_POOL | MODE_DAEMON | MODE_SELF_SELECT | MODE_BENCHMARK
  deriving DecidableEq, Repr

/-- The bits of `m_flags`. -/
structure Flags where
  enabled : Bool := false
  nicehash : Bool := false
  tls : Bool := false
  sni : Bool := false
  deriving DecidableEq, Repr

structure Pool where
  algorithm : Algorithm := .INVALID
  submitToOrigin : Bool := false
  coin : Coin := .INVALID
  keepAlive : Int := 0
  mode : Mode := .MODE_POOL
  proxy : Url := { port := 0 }
  flags : Flags := {}
  fingerprint : Option Bytes := none
  password : Option Bytes := none
  rigId : Option Bytes := none
  user : Option Bytes := none
  spendSecretKey : Option Bytes := none
  pollInterval : Nat := 1000
  jobTimeout : Nat := 15000
  daemon : Url := {}
  url : Url := {}
  zmqPort : Int := -1
  benchmark : Option BenchConfig := none
  deriving DecidableEq, Repr

namespace Pool

def kKeepAliveTimeout : Int := 60

/-- mirrors src/base/net/stratum/Pool.cpp:343-351 and src/base/net/stratum/Pool.h:136-137 -/
def keepAliveOf (value : Json) (default : Int) : Int :=
  match value with
  | .int n => if -2 ^ 31 ≤ n ∧ n < 2 ^ 31 then max n 0 else default
  | .bool enable => if enable then kKeepAliveTimeout else 0
  | _ => default

/-- `expand` is `Env::expand`.
mirrors src/base/net/stratum/Pool.cpp:109-146 -/
def ofJson (expand : Option Bytes → Option Bytes) (object : Json) : Pool :=
  let url := Url.create (object.getString (ascii "url"))
  let pool : Pool := { flags := { enabled := true }, url := url }
  if ¬ url.isValid then pool
  else
    let daemon := Url.create (object.getString (ascii "self-select"))
    { pool with
      user := expand (object.getString (ascii "user"))
      spendSecretKey := object.getString (ascii "spend-secret-key")
      password := expand (object.getString (ascii "pass"))
      rigId := expand (object.getString (ascii "rig-id"))
      fingerprint := object.getString (ascii "tls-fingerprint")
      pollInterval := object.getUint64 (ascii "daemon-poll-interval") 1000
      jobTimeout := object.getUint64 (ascii "daemon-job-timeout") 15000
      algorithm := Algorithm.parse (object.getString (ascii "algo"))
      coin := Coin.parse (object.getString (ascii "coin"))
      daemon := daemon
      proxy := ProxyUrl.create (object.getValue (ascii "socks5"))
      zmqPort := object.getInt (ascii "daemon-zmq-port") pool.zmqPort
      flags :=
        { enabled := object.getBool (ascii "enabled") true
          nicehash := object.getBool (ascii "nicehash") false ||
            (strstr (ascii "nicehash.com") (url.host.getD [])).isSome
          tls := object.getBool (ascii "tls") false || url.tls
          sni := object.getBool (ascii "sni") false }
      keepAlive := keepAliveOf (object.getValue (ascii "keepalive")) pool.keepAlive
      mode :=
        if daemon.isValid then .MODE_SELF_SELECT
        else if object.getBool (ascii "daemon") false then .MODE_DAEMON
        else .MODE_POOL
      submitToOrigin :=
        if daemon.isValid then object.getBool (ascii "submit-to-origin") pool.submitToOrigin
        else pool.submitToOrigin }

/-- mirrors src/base/net/stratum/Pool.cpp:149-156 -/
def ofBenchmark (benchmark : BenchConfig) : Pool where
  mode := .MODE_BENCHMARK
  flags := { enabled := true }
  url := Url.create (some (ascii "benchmark"))
  benchmark := some benchmark

def isValid (p : Pool) : Bool := p.url.isValid

/-- mirrors src/base/net/stratum/Pool.cpp:175-195 -/
def isEnabled (p : Pool) : Bool := p.flags.enabled && p.isValid

/-- mirrors src/base/net/stratum/Pool.cpp:198-215 -/
def isEqual (p q : Pool) : Bool :=
  p.flags = q.flags && p.keepAlive = q.keepAlive && p.algorithm = q.algorithm &&
    p.coin = q.coin && p.mode = q.mode && p.fingerprint = q.fingerprint &&
    p.password = q.password && p.rigId = q.rigId && p.url = q.url && p.user = q.user &&
    p.pollInterval = q.pollInterval && p.jobTimeout = q.jobTimeout && p.daemon = q.daemon &&
    p.proxy = q.proxy

end Pool

/-- What a client is made of: its class with what the constructor is given, and what the
classes read of the pool they are set to. -/
structure Client where
  mode : Mode
  submitToOrigin : Bool
  benchmark : Option BenchConfig
  isValid : Bool
  user : Bytes
  password : Bytes
  rigId : Option Bytes
  url : Option Bytes
  host : Option Bytes
  port : Nat
  isTLS : Bool
  isSNI : Bool
  fingerprint : Option Bytes
  proxy : Option (Option Bytes × Nat)
  algorithm : Algorithm
  coin : Coin
  isNicehash : Bool
  keepAlive : Int
  zmq_port : Int
  pollInterval : Nat
  jobTimeout : Nat
  spendSecretKey : Option Bytes
  daemon : Url
  deriving DecidableEq, Repr

/-- mirrors src/base/net/stratum/Pool.cpp:218-246 and src/base/net/stratum/Pool.h:91-114 -/
def Pool.createClient (p : Pool) : Client where
  mode := p.mode
  submitToOrigin := p.submitToOrigin
  benchmark := p.benchmark
  isValid := p.isValid
  user := p.user.getD (ascii "x")
  password := p.password.getD (ascii "x")
  rigId := p.rigId
  url := p.url.url
  host := p.url.host
  port := p.url.port
  isTLS := p.flags.tls || p.url.tls
  isSNI := p.flags.sni
  fingerprint := p.fingerprint
  proxy := if ProxyUrl.isValid p.proxy then some (ProxyUrl.host p.proxy, p.proxy.port) else none
  algorithm := p.algorithm
  coin := p.coin
  isNicehash := p.flags.nicehash
  keepAlive := p.keepAlive
  zmq_port := p.zmqPort
  pollInterval := p.pollInterval
  jobTimeout := p.jobTimeout
  spendSecretKey := p.spendSecretKey
  daemon := p.daemon

structure Pools where
  retries : Int := 5
  retryPause : Int := 5
  data : List Pool := []
  deriving DecidableEq, Repr

namespace Pools

/-- mirrors src/base/net/stratum/Pools.cpp:58-65 -/
def isEqual (s t : Pools) : Bool :=
  s.data.length = t.data.length && s.retries = t.retries && s.retryPause = t.retryPause &&
    (s.data.zip t.data).all fun e => e.1.isEqual e.2

/-- mirrors src/base/net/stratum/Pools.cpp:104-115 -/
def active (s : Pools) : Nat := s.data.countP (·.isEnabled)

/-- mirrors src/base/net/stratum/Pools.cpp:192-206 -/
def setRetries (s : Pools) (retries : Int) : Pools :=
  if retries > 0 ∧ retries ≤ 1000 then { s with retries := retries } else s

def setRetryPause (s : Pools) (retryPause : Int) : Pools :=
  if retryPause > 0 ∧ retryPause ≤ 3600 then { s with retryPause := retryPause } else s

/-- mirrors src/base/net/stratum/Pools.cpp:118-150 -/
def load (s : Pools) (expand : Option Bytes → Option Bytes) (reader : Json) : Pools :=
  match BenchConfig.create (reader.getObject (ascii "benchmark"))
      (reader.getBool (ascii "dmi") true) with
  | some benchmark => { s with data := [Pool.ofBenchmark benchmark] }
  | none =>
    match reader.getArray (ascii "pools") with
    | .array values =>
      let pools := (values.filter (·.isObject)).map (Pool.ofJson expand)
      let s := { s with data := pools.filter (·.isValid) }
      (s.setRetries (reader.getInt (ascii "retries") 0)).setRetryPause
        (reader.getInt (ascii "retry-pause") 0)
    | _ => { s with data := [] }

end Pools

/-- The strategy that runs, by the list it was made of; it is told of the new configuration
and of the one before.
mirrors src/net/Network.cpp:139-153 -/
def Network.onConfigChanged (strategy config previous : Pools) : Pools :=
  if config.isEqual previous ∨ config.active = 0 then strategy else config

/-! ## What is compared -/

/-- What `isEqual` does not look at, as in a pool that has none of it. -/
def Pool.forget (p : Pool) : Pool :=
  { p with submitToOrigin := false, spendSecretKey := none, zmqPort := -1, benchmark := none }

/-- What `isEqual` does not look at. -/
structure Uncompared where
  zmqPort : Int
  spendSecretKey : Option Bytes
  submitToOrigin : Bool
  benchmark : Option BenchConfig
  deriving DecidableEq, Repr

def Pool.uncompared (p : Pool) : Uncompared :=
  ⟨p.zmqPort, p.spendSecretKey, p.submitToOrigin, p.benchmark⟩

theorem Pool.isEqual_iff (p q : Pool) : p.isEqual q = true ↔ p.forget = q.forget := by
  simp only [isEqual, forget, Bool.and_eq_true, decide_eq_true_eq, Pool.mk.injEq]
  constructor
  · rintro ⟨⟨⟨⟨⟨⟨⟨⟨⟨⟨⟨⟨⟨h₁, h₂⟩, h₃⟩, h₄⟩, h₅⟩, h₆⟩, h₇⟩, h₈⟩, h₉⟩, h₁₀⟩, h₁₁⟩, h₁₂⟩, h₁₃⟩, h₁₄⟩
    simp_all
  · intro h
    simp_all

/-- Pools that `isEqual` does not tell apart make the same client when the rest agrees. -/
theorem Pool.createClient_eq_iff {p q : Pool} (h : p.forget = q.forget) :
    p.createClient = q.createClient ↔ p.uncompared = q.uncompared := by
  simp only [forget, Pool.mk.injEq] at h
  simp only [createClient, uncompared, Client.mk.injEq, Uncompared.mk.injEq, isValid]
  constructor
  · intro hc
    simp_all
  · intro hu
    simp_all

namespace Pools

def forget (s : Pools) : Pools := { s with data := s.data.map Pool.forget }

def uncompared (s : Pools) : List Uncompared := s.data.map Pool.uncompared

/-- The client of every pool. -/
def clients (s : Pools) : List Client := s.data.map Pool.createClient

theorem all_isEqual_iff {ps qs : List Pool} :
    (ps.length = qs.length ∧ ((ps.zip qs).all fun e => e.1.isEqual e.2) = true) ↔
      ps.map Pool.forget = qs.map Pool.forget := by
  induction ps generalizing qs with
  | nil => cases qs <;> simp
  | cons p ps ih =>
    cases qs with
    | nil => simp
    | cons q qs =>
      have hrest := @ih qs
      simp only [List.length_cons, List.zip_cons_cons, List.all_cons, Bool.and_eq_true,
        List.map_cons, List.cons.injEq, Nat.add_right_cancel_iff, Pool.isEqual_iff]
      constructor
      · rintro ⟨hlen, hp, hps⟩
        exact ⟨hp, hrest.mp ⟨hlen, hps⟩⟩
      · rintro ⟨hp, hps⟩
        obtain ⟨hlen, hall⟩ := hrest.mpr hps
        exact ⟨hlen, hp, hall⟩

theorem isEqual_iff (s t : Pools) : s.isEqual t = true ↔ s.forget = t.forget := by
  have hall := @all_isEqual_iff s.data t.data
  simp only [isEqual, forget, Bool.and_eq_true, decide_eq_true_eq, Pools.mk.injEq]
  constructor
  · rintro ⟨⟨⟨hlen, hretries⟩, hpause⟩, hzip⟩
    exact ⟨hretries, hpause, hall.mp ⟨hlen, hzip⟩⟩
  · rintro ⟨hretries, hpause, hmap⟩
    obtain ⟨hlen, hzip⟩ := hall.mpr hmap
    exact ⟨⟨⟨hlen, hretries⟩, hpause⟩, hzip⟩

/-- Lists that agree in what is compared make the same clients when the rest agrees. -/
theorem clients_eq_iff {ps qs : List Pool} (h : ps.map Pool.forget = qs.map Pool.forget) :
    ps.map Pool.createClient = qs.map Pool.createClient ↔
      ps.map Pool.uncompared = qs.map Pool.uncompared := by
  induction ps generalizing qs with
  | nil =>
    rw [List.map_nil, eq_comm, List.map_eq_nil_iff] at h
    simp [h]
  | cons p ps ih =>
    cases qs with
    | nil => simp at h
    | cons q qs =>
      simp only [List.map_cons, List.cons.injEq] at h ⊢
      rw [Pool.createClient_eq_iff h.1, ih h.2]

/-- A new configuration with an active pool is taken unless it is equal. -/
theorem onConfigChanged_of_active {config previous : Pools} (h : config.active ≠ 0) :
    Network.onConfigChanged previous config previous =
      if config.isEqual previous then previous else config := by
  simp [Network.onConfigChanged, h]

end Pools

end Stratum

namespace L4.PoolEdit

open Stratum Stratum.Pools

/-- **Edits of the pools**: lists that a reload takes as equal make the same clients, exactly
unless they differ in what is not compared and in nothing else. -/
theorem pool_edit (s t : Stratum.Pools) :
    (s.isEqual t = true → s.clients = t.clients) ↔
      (s.forget = t.forget → s.uncompared = t.uncompared) := by
  rw [isEqual_iff]
  refine forall_congr' fun h => ?_
  exact clients_eq_iff (congrArg Stratum.Pools.data h)

/-- A daemon with a ZMQ port. -/
def daemonConfig (port : Int) : Json :=
  .object [(ascii "pools", .array [.object [(ascii "url", .string (ascii "127.0.0.1:18081")),
    (ascii "daemon", .bool true), (ascii "daemon-zmq-port", .int port)]])]

def loaded (port : Int) : Stratum.Pools := Stratum.Pools.load {} id (daemonConfig port)

/-- The strategy goes on with the port of before. -/
theorem pool_edit_ignored :
    (¬ ∀ s t : Stratum.Pools, s.isEqual t = true → s.clients = t.clients) ∧
      Network.onConfigChanged (loaded 18083) (loaded 18084) (loaded 18083) = loaded 18083 ∧
      (loaded 18083).clients ≠ (loaded 18084).clients := by
  have hequal : (loaded 18084).isEqual (loaded 18083) = true := by decide +kernel
  have hclients : (loaded 18083).clients ≠ (loaded 18084).clients := by decide +kernel
  refine ⟨fun h => hclients (h _ _ hequal).symm, ?_, hclients⟩
  rw [Network.onConfigChanged, if_pos (.inl hequal)]

end L4.PoolEdit

end Rxs
