import Rxs.L4App.ApiAccess
import Rxs.L4App.PoolEdit

/-!
# A configuration is read, and taken or rejected

The watcher of the configuration file and the API hand over a document. It is read into a
`Config` of its own, which replaces the one in force if it has an active pool. On the way the
reader also sets what belongs to the whole process: the colours and the verbosity of the log,
the configuration of DNS, and, where the document asks for one, the generated certificate.

* `read_globals`: what reading does to the process.
* `deliver_rejected`, `deliver_empty`, `deliver_taken`: which documents are taken.
* **`rejected_changes_nothing`**: a document that is rejected leaves everything as it was,
  exactly when it says of the process what is already so.
* `rejected_changes`: a document without pools.
-/
namespace Rxs

open Rxs.Core Rxs.Stratum

namespace Kernel

/-- mirrors src/base/net/dns/DnsConfig.h:47-56 -/
structure DnsConfig where
  ttl : Nat := 30
  ipv : Nat := 0
  deriving DecidableEq, Repr

/-- mirrors src/base/net/dns/DnsConfig.cpp:38-46 -/
def DnsConfig.create (value : Json) : DnsConfig :=
  let ipv := value.getUint (ascii "ip_version") 0
  { ipv := if ipv = 0 ∨ ipv = 4 ∨ ipv = 6 then ipv else 0
    ttl := max (value.getUint (ascii "ttl") 30) 1 }

/-- The files of a generated certificate. -/
structure CertFiles where
  cert : Option Bytes := none
  certKey : Option Bytes := none
  deriving DecidableEq, Repr

/-- What belongs to the process. -/
structure Globals where
  colors : Bool := true
  verbose : Nat := 0
  dns : DnsConfig := {}
  files : CertFiles := {}
  deriving DecidableEq, Repr

/-- What reading takes from elsewhere: the variables of the environment, and a certificate
that is generated for a name and written, as far as that succeeds. -/
structure ConfigEnv where
  expand : Option Bytes → Option Bytes
  generate : Option Bytes → CertFiles → CertFiles × Bool

structure TlsConfig where
  enabled : Bool := true
  cert : Option Bytes := none
  key : Option Bytes := none
  deriving DecidableEq, Repr

namespace TlsConfig

variable (env : ConfigEnv)

/-- Files that are there are not written again.
mirrors src/base/net/tls/TlsGen.cpp:79-98 and src/base/net/tls/TlsConfig.cpp:96-115 -/
def generate (t : TlsConfig) (files : CertFiles) (commonName : Option Bytes) :
    TlsConfig × CertFiles :=
  let (files, ok) :=
    if files.cert.isSome ∧ files.certKey.isSome then (files, true)
    else env.generate commonName files
  if ok then
    ({ t with
        cert := some (ascii "cert.pem"), key := some (ascii "cert_key.pem"), enabled := true },
      files)
  else (t, files)

def isValid (t : TlsConfig) : Bool := t.cert.getD [] ≠ [] && t.key.getD [] ≠ []

/-- mirrors src/base/net/tls/TlsConfig.cpp:55-93 -/
def create (value : Json) (files : CertFiles) : TlsConfig × CertFiles :=
  match value with
  | .object members =>
    let value : Json := .object members
    let key := value.getString (ascii "cert_key")
    let t : TlsConfig :=
      { enabled := value.getBool (ascii "enabled") true
        cert := value.getString (ascii "cert")
        key := if key = none then value.getString (ascii "cert-key") else key }
    if t.enabled ∧ ¬ t.isValid then generate env t files (value.getString (ascii "gen"))
    else (t, files)
  | .bool enabled =>
    if enabled then generate env {} files none else ({ enabled := false }, files)
  | .string s => generate env {} files (some (cstr s))
  | _ => ({ enabled := false }, files)

end TlsConfig

structure Title where
  enabled : Bool := true
  value : Option Bytes := none
  deriving DecidableEq, Repr

/-- mirrors src/base/kernel/config/Title.cpp:26-34 -/
def Title.create : Json → Title
  | .bool enabled => { enabled := enabled }
  | .string s => { value := some (cstr s) }
  | _ => {}

/-- What a configuration has read. `cpu` and `rx` are what their own readers are given. -/
structure Config where
  fileName : Option Bytes := none
  autoSave : Bool := true
  background : Bool := false
  dryRun : Bool := false
  syslog : Bool := false
  watch : Bool := true
  logFile : Option Bytes := none
  userAgent : Option Bytes := none
  printTime : Nat := 60
  title : Title := {}
  tls : TlsConfig := {}
  apiId : Option Bytes := none
  apiWorkerId : Option Bytes := none
  http : Http := { token_cstr := by simp }
  pools : Stratum.Pools := {}
  pauseOnBattery : Bool := false
  idleTime : Nat := 0
  cpu : Json := .null
  rx : Json := .null

namespace Config

variable (env : ConfigEnv)

def kIdleTime : Nat := 60

/-- mirrors src/base/kernel/config/BaseConfig.cpp:171-180 -/
def setVerbose (value : Json) (verbose : Nat) : Nat :=
  match value with
  | .bool b => if b then 1 else 0
  | .int n => if 0 ≤ n ∧ n < 2 ^ 32 then n.toNat else verbose
  | _ => verbose

/-- mirrors src/core/config/Config.cpp:76-84 -/
def setIdleTime (value : Json) (idleTime : Nat) : Nat :=
  match value with
  | .bool b => if b then kIdleTime else 0
  | .int n => if 0 ≤ n ∧ n < 2 ^ 32 then n.toNat else idleTime
  | _ => idleTime

/-- The configuration, the process, and whether there is an active pool.
mirrors src/base/kernel/config/BaseConfig.cpp:75-112 -/
def baseRead (c : Config) (g : Globals) (reader : Json) (fileName : Option Bytes) :
    Config × Globals × Bool :=
  let c := { c with fileName := fileName }
  if reader.isEmpty then (c, g, false)
  else
    let c := { c with
      autoSave := reader.getBool (ascii "autosave") c.autoSave
      background := reader.getBool (ascii "background") c.background
      dryRun := reader.getBool (ascii "dry-run") c.dryRun
      syslog := reader.getBool (ascii "syslog") c.syslog
      watch := reader.getBool (ascii "watch") c.watch
      logFile := reader.getString (ascii "log-file")
      userAgent := reader.getString (ascii "user-agent")
      printTime := min (reader.getUint (ascii "print-time") c.printTime) 3600
      title := Title.create (reader.getValue (ascii "title")) }
    let (tls, files) := TlsConfig.create env (reader.getValue (ascii "tls")) g.files
    let g := { g with
      files := files
      colors := reader.getBool (ascii "colors") g.colors
      verbose := setVerbose (reader.getValue (ascii "verbose")) g.verbose }
    let api := reader.getObject (ascii "api")
    let c := { c with
      tls := tls
      apiId := if api.isObject then api.getString (ascii "id") else c.apiId
      apiWorkerId := if api.isObject then api.getString (ascii "worker-id") else c.apiWorkerId
      http := c.http.load (reader.getObject (ascii "http"))
      pools := c.pools.load env.expand reader }
    let g := { g with dns := DnsConfig.create (reader.getObject (ascii "dns")) }
    (c, g, c.pools.active ≠ 0)

/-- mirrors src/core/config/Config.cpp:155-181 -/
def read (g : Globals) (reader : Json) (fileName : Option Bytes) : Config × Globals × Bool :=
  let (c, g, active) := baseRead env {} g reader fileName
  if active then
    ({ c with
        pauseOnBattery := reader.getBool (ascii "pause-on-battery") c.pauseOnBattery
        idleTime := setIdleTime (reader.getValue (ascii "pause-on-active")) c.idleTime
        cpu := reader.getValue (ascii "cpu")
        rx := reader.getValue (ascii "randomx") }, g, true)
  else (c, g, false)

def isWatch (c : Config) : Bool := c.watch && c.fileName.isSome

end Config

/-- The miner as far as it depends on its configuration. `strategy` is the list of pools the
running one was made of, `saved` what was last written to the file: the configuration, with
what belongs to the process. -/
structure Base where
  config : Config
  globals : Globals
  strategy : Stratum.Pools
  watcher : Bool
  saved : Option (Config × Globals) := none

namespace Base

variable (env : ConfigEnv)

/-- mirrors src/base/kernel/Base.cpp:101-111 -/
def replace (s : Base) (config : Config) : Base :=
  { s with
    config := config
    strategy := Network.onConfigChanged s.strategy config.pools s.config.pools }

/-- `writes`: the file can be written. -/
def save (s : Base) (config : Config) (writes : Bool) : Bool × Base :=
  if config.fileName.isSome ∧ writes then (true, { s with saved := some (config, s.globals) })
  else (false, s)

/-- mirrors src/base/kernel/Base.cpp:254-278 -/
def reload (s : Base) (json : Json) (writes : Bool) : Bool × Base :=
  if json.isEmpty then (false, s)
  else
    let (config, globals, ok) := Config.read env s.globals json s.config.fileName
    let s := { s with globals := globals }
    if ¬ ok then (false, s)
    else
      let (saved, s) := s.save config writes
      if config.isWatch ∧ s.watcher ∧ saved then (true, s) else (true, s.replace config)

/-- `doc`: what the file parses to. One that is no object, or an empty one, is not added to
the chain.
mirrors src/base/kernel/Base.cpp:296-313 and src/base/io/json/JsonChain.cpp:39-58 -/
def onFileChanged (s : Base) (fileName : Bytes) (doc : Option Json) : Bool × Base :=
  let chain := (doc.filter fun d => ¬ d.isEmpty).getD .null
  let (config, globals, ok) := Config.read env s.globals chain (doc.map fun _ => fileName)
  let s := { s with globals := globals }
  if ¬ ok then (false, s) else (true, s.replace config)

/-- Who hands a document over. -/
inductive Delivery where
  | api (json : Json) (writes : Bool)
  | file (fileName : Bytes) (doc : Option Json)

def Delivery.document : Delivery → Json
  | .api json _ => json
  | .file _ doc => doc.getD .null

/-- Whether the document is taken, and the miner behind. -/
def deliver (s : Base) : Delivery → Bool × Base
  | .api json writes => s.reload env json writes
  | .file fileName doc => s.onFileChanged env fileName doc

end Base

end Kernel

namespace L4.ConfigReject

open Kernel Kernel.Config Kernel.Base

variable (env : ConfigEnv)

/-- The pools a document names. -/
def poolsOf (json : Json) : Stratum.Pools := ({} : Stratum.Pools).load env.expand json

/-- What reading does to the process. -/
def readGlobals (g : Globals) (json : Json) : Globals where
  colors := json.getBool (ascii "colors") g.colors
  verbose := setVerbose (json.getValue (ascii "verbose")) g.verbose
  dns := DnsConfig.create (json.getObject (ascii "dns"))
  files := (TlsConfig.create env (json.getValue (ascii "tls")) g.files).2

theorem read_empty (g : Globals) {json : Json} (h : json.isEmpty = true)
    (fileName : Option Bytes) :
    (Config.read env g json fileName).2 = (g, false) := by
  simp [Config.read, baseRead, h]

theorem read_globals (g : Globals) {json : Json} (h : json.isEmpty = false)
    (fileName : Option Bytes) :
    (Config.read env g json fileName).2 =
      (readGlobals env g json, decide ((poolsOf env json).active ≠ 0)) := by
  by_cases ha : (poolsOf env json).active = 0
  · simp only [poolsOf] at ha
    simp [Config.read, baseRead, h, readGlobals, poolsOf, ha]
  · simp only [poolsOf] at ha
    simp [Config.read, baseRead, h, readGlobals, poolsOf, ha]

/-- A document with members is rejected for its pools; the process has taken what it says. -/
theorem deliver_rejected (s : Base) (d : Delivery) (h : d.document.isEmpty = false)
    (ha : (poolsOf env d.document).active = 0) :
    s.deliver env d = (false, { s with globals := readGlobals env s.globals d.document }) := by
  cases d with
  | api json writes =>
    have hread := read_globals env s.globals h s.config.fileName
    simp only [Delivery.document] at h ha hread
    simp [deliver, reload, h, hread, ha, Delivery.document]
  | file fileName doc =>
    cases doc with
    | none => simp [Delivery.document, Json.isEmpty] at h
    | some json =>
      have hread := read_globals env s.globals h (some fileName)
      simp only [Delivery.document, Option.getD_some] at h ha hread
      simp [deliver, onFileChanged, h, hread, ha, Delivery.document, Option.filter]

theorem deliver_empty (s : Base) (d : Delivery) (h : d.document.isEmpty = true) :
    s.deliver env d = (false, s) := by
  cases d with
  | api json writes =>
    simp only [Delivery.document] at h
    simp [deliver, reload, h]
  | file fileName doc =>
    have hchain : (doc.filter fun d => ¬ d.isEmpty).getD .null = .null := by
      cases doc with
      | none => rfl
      | some json =>
        simp only [Delivery.document, Option.getD_some] at h
        simp [Option.filter, h]
    have hread := @read_empty env s.globals .null rfl (doc.map fun _ => fileName)
    simp only [deliver, onFileChanged, hchain]
    simp [hread]

theorem deliver_taken (s : Base) (d : Delivery) (h : d.document.isEmpty = false)
    (ha : (poolsOf env d.document).active ≠ 0) : (s.deliver env d).1 = true := by
  cases d with
  | api json writes =>
    have hread := read_globals env s.globals h s.config.fileName
    simp only [Delivery.document] at h ha hread
    simp only [deliver, reload, h, hread, ha, Bool.false_eq_true, if_false, ne_eq,
      not_false_eq_true, decide_true, not_true_eq_false]
    split <;> rfl
  | file fileName doc =>
    cases doc with
    | none => simp [Delivery.document, Json.isEmpty] at h
    | some json =>
      have hread := read_globals env s.globals h (some fileName)
      simp only [Delivery.document, Option.getD_some] at h ha hread
      simp [deliver, onFileChanged, h, hread, ha, Option.filter]

/-- The document says of the process what is so. -/
structure InForce (g : Globals) (json : Json) : Prop where
  colors : json.getBool (ascii "colors") g.colors = g.colors
  verbose : setVerbose (json.getValue (ascii "verbose")) g.verbose = g.verbose
  dns : DnsConfig.create (json.getObject (ascii "dns")) = g.dns
  files : (TlsConfig.create env (json.getValue (ascii "tls")) g.files).2 = g.files

/-- The document is empty, has an active pool, or says of the process what is so. -/
def Harmless (g : Globals) (json : Json) : Prop :=
  json.isEmpty = true ∨ (poolsOf env json).active ≠ 0 ∨ InForce env g json

theorem inForce_iff (g : Globals) (json : Json) :
    readGlobals env g json = g ↔ InForce env g json := by
  constructor
  · intro h
    exact ⟨congrArg Globals.colors h, congrArg Globals.verbose h, congrArg Globals.dns h,
      congrArg Globals.files h⟩
  · rintro ⟨hcolors, hverbose, hdns, hfiles⟩
    simp [readGlobals, hcolors, hverbose, hdns, hfiles]

/-- **A rejected document** leaves the miner as it was, exactly when it is harmless. -/
theorem rejected_changes_nothing (s : Base) (d : Delivery) :
    ((s.deliver env d).1 = false → (s.deliver env d).2 = s) ↔
      Harmless env s.globals d.document := by
  cases h : d.document.isEmpty with
  | true => simp [deliver_empty env s d h, Harmless, h]
  | false =>
    by_cases ha : (poolsOf env d.document).active = 0
    · have hsame : ({ s with globals := readGlobals env s.globals d.document } : Base) = s ↔
          readGlobals env s.globals d.document = s.globals := by
        constructor
        · intro hs
          exact congrArg Base.globals hs
        · intro hg
          rw [hg]
      simp [deliver_rejected env s d h ha, hsame, inForce_iff, Harmless, h, ha]
    · simp [deliver_taken env s d h ha, Harmless, ha]

/-- Nothing in the environment, and no certificate can be written. -/
def bareEnv : ConfigEnv where
  expand := id
  generate _ files := (files, false)

/-- A miner that resolves to addresses of IPv6. -/
def running : Base where
  config := {}
  globals := { dns := { ipv := 6 } }
  strategy := {}
  watcher := false

/-- A document with one member, and no pool: DNS is back at its defaults. -/
theorem rejected_changes :
    ¬ ∀ env s d, (Base.deliver env s d).1 = false → (Base.deliver env s d).2 = s := by
  intro h
  have hrejected := deliver_rejected bareEnv running
    (.api (.object [(ascii "autosave", .bool true)]) true) rfl rfl
  have hsame := h bareEnv running (.api (.object [(ascii "autosave", .bool true)]) true)
  rw [hrejected] at hsame
  have hdns := congrArg (fun s => s.globals.dns.ipv) (hsame rfl)
  exact absurd hdns (by decide)

end L4.ConfigReject

end Rxs
