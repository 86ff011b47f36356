import BypassCore.Lib.Except
import BypassCore.Lib.GoStrings

/-!
# Reloading the inbound listeners

`app/inbound/listener.go`, `app/inbound/dns_listener.go` and `reloadInbounds` of
`cmd/bypasscore/runtime.go`. A listener takes a new configuration in two steps: `PrepareReload`
checks the configuration and builds everything it asks for, and the function it returns installs
what was built. `reloadInbounds` prepares all listeners, then commits one after the other, and
reloads those it has committed with their previous configuration when one fails.

A nil slice of the source is `none`.
-/

namespace BypassCore.Reload

open Lib GoStrings

structure DNSRuleConfig where
  domain : Option (List String)
  qType : Option (List String)
  action : String
  rCode : UInt16
deriving DecidableEq

structure InboundConfig where
  tag : String
  type : String
  listen : String
  port : Int
  network : String
  sniffing : Bool
  sniffingTimeoutMs : Int
  sniffingMaxBytes : Int
  udpSniffWaitMs : Int
  udpSniffMaxPackets : Int
  maxConcurrentQueries : Int
  maxTCPConnections : Int
  maxQueryBytes : Int
  dnsAllowedClients : Option (List String)
  dnsQueriesPerSecond : Int
  dnsQueryBurst : Int
  dnsGlobalQueriesPerSecond : Int
  dnsGlobalQueryBurst : Int
  dnsRules : Option (List DNSRuleConfig)
  dnsRawCacheEntries : Int
  dnsRawCacheMaxTTLSeconds : Int
  dnsRawCacheMaxBytes : Int
  dnsCertificateFile : String
  dnsKeyFile : String
  dnsDoHPath : String
  udpMaxSessions : Int
  udpMaxSessionsPerSource : Int
  udpSessionQueueBytes : Int
  udpSessionQueuePackets : Int
  udpSessionIdleTimeoutSeconds : Int
  tcpIdleTimeoutSeconds : Int
deriving DecidableEq, Inhabited

/-- What reloading uses from elsewhere: the values that listeners are built from, the parsers of
the standard library, and the comparison of control configurations. -/
structure Deps where
  Sniffer : Type
  Limits : Type
  DNSPolicy : Type
  NetPrefix : Type
  Control : Type
  /-- The parts of a configuration that only `buildSnapshot` reads. -/
  Other : Type
  Resources : Type
  toLower : String → String
  newSnifferWithOptions : Bool → Int → Int → Except String Sniffer
  udpResourceLimitsFromConfig : InboundConfig → Except String Limits
  tcpIdleTimeoutFromConfig : InboundConfig → Except String Int
  buildDNSRuntimePolicy : InboundConfig → Except String DNSPolicy
  parsePrefix : String → Except String NetPrefix
  splitHostPort : String → Except String String
  /-- Whether the address that `net.ParseIP` reads is a loopback address. -/
  isLoopback : String → Option Bool
  /-- `strings.EqualFold(host, "localhost")`. -/
  isLocalhost : String → Bool
  equivalentConfig : Control → Control → Bool

variable (D : Deps)

def normalizedInboundType (value : String) : String :=
  let value := D.toLower (trimSpace value)
  if value = "" then "redirect" else if value = "socks5" then "socks" else value

def normalizedInboundListen (cfg : InboundConfig) : String :=
  let value := trim (trimSpace cfg.listen) "[]"
  if value = "" then
    let typ := normalizedInboundType D cfg.type
    if typ = "dns" ∨ typ = "dot" ∨ typ = "doh" ∨ typ = "socks" then "127.0.0.1" else value
  else value

def parseNetworkItems : List String → Bool × Bool → Option (Bool × Bool)
  | [], networks => some networks
  | item :: items, (tcp, udp) =>
    match trimSpace item with
    | "tcp" => parseNetworkItems items (true, udp)
    | "udp" => parseNetworkItems items (tcp, true)
    | _ => none

def parseInboundNetworks (value : String) : Option (Bool × Bool) :=
  if trimSpace value = "" then some (true, false)
  else parseNetworkItems ((D.toLower value).splitOn ",") (false, false)

def normalizedInboundNetwork (cfg : InboundConfig) : String :=
  let value := trimSpace cfg.network
  if value = "" then
    if normalizedInboundType D cfg.type = "dns" then "tcp,udp" else "tcp"
  else
    match parseInboundNetworks D value with
    | none => D.toLower value
    | some (true, true) => "tcp,udp"
    | some (false, true) => "udp"
    | some (_, false) => "tcp"

def sameListenerBinding (left right : InboundConfig) : Bool :=
  normalizedInboundType D left.type = normalizedInboundType D right.type ∧
    normalizedInboundListen D left = normalizedInboundListen D right ∧ left.port = right.port ∧
    normalizedInboundNetwork D left = normalizedInboundNetwork D right

def effectiveDNSDoHPath (cfg : InboundConfig) : String :=
  let path := trimSpace cfg.dnsDoHPath
  if path = "" then "/dns-query" else path

def sameDNSIdentity (left right : InboundConfig) : Bool :=
  left.dnsCertificateFile = right.dnsCertificateFile ∧ left.dnsKeyFile = right.dnsKeyFile ∧
    effectiveDNSDoHPath left = effectiveDNSDoHPath right

/-! ### Listeners -/

/-- What a proxy listener has installed. Its dispatcher is its own; the limits are those of its
UDP listener, if it has one. -/
structure Listener where
  cfg : InboundConfig
  sniffer : D.Sniffer
  limits : Option D.Limits
  tcpIdleTimeout : Int

structure DNSListener where
  cfg : InboundConfig
  policy : D.DNSPolicy

inductive Inbound where
  | proxy (l : Listener D)
  | dns (l : DNSListener D)

inductive Prepared where
  | proxy (cfg : InboundConfig) (sniffer : D.Sniffer) (limits : Option D.Limits)
    (tcpIdleTimeout : Int)
  | dns (cfg : InboundConfig) (policy : D.DNSPolicy)

/-- What a pass over the listeners meets: the verdicts of `ValidateConfig`, which reads files, and
whether a listener is running when it prepares and when it commits. -/
structure Pass where
  validate : Nat → InboundConfig → Except String Unit
  running : Nat → Bool
  stillRunning : Nat → Bool

variable {D}

def Inbound.cfg : Inbound D → InboundConfig
  | .proxy l => l.cfg
  | .dns l => l.cfg

/-- The UDP limits that `PrepareReload` builds, for a listener that has a UDP listener. -/
def Listener.prepareLimits (l : Listener D) (cfg : InboundConfig) :
    Except String (Option D.Limits) :=
  match l.limits with
  | some _ => some <$> D.udpResourceLimitsFromConfig cfg
  | none => .ok none

def Listener.prepareReload (l : Listener D) (validate : InboundConfig → Except String Unit)
    (running : Bool) (cfg : InboundConfig) : Except String (Prepared D) := do
  validate cfg
  ensure running "inbound: inbound: listener is not running"
  ensure (sameListenerBinding D l.cfg cfg) "inbound: inbound: listen identity changed"
  ensure (l.cfg.tag = cfg.tag) "inbound: inbound: tag changes require restart"
  let sniffer ←
    D.newSnifferWithOptions cfg.sniffing cfg.sniffingTimeoutMs cfg.sniffingMaxBytes
  let limits ← l.prepareLimits cfg
  let tcpIdleTimeout ← D.tcpIdleTimeoutFromConfig cfg
  pure (.proxy cfg sniffer limits tcpIdleTimeout)

def DNSListener.prepareReload (l : DNSListener D)
    (validate : InboundConfig → Except String Unit) (running : Bool) (cfg : InboundConfig) :
    Except String (Prepared D) := do
  validate cfg
  ensure running "inbound: DNS inbound: listener is not running"
  ensure (sameListenerBinding D l.cfg cfg && sameDNSIdentity l.cfg cfg)
    "inbound: DNS inbound: listen identity changed"
  ensure (l.cfg.tag = cfg.tag) "inbound: DNS inbound: tag changes require restart"
  let policy ← D.buildDNSRuntimePolicy cfg
  pure (.dns cfg policy)

/-- `PrepareReload`. A nil configuration does not pass `ValidateConfig`. -/
def Inbound.prepareReload (l : Inbound D) (validate : InboundConfig → Except String Unit)
    (running : Bool) : Option InboundConfig → Except String (Prepared D)
  | none => .error "inbound: nil inbound configuration"
  | some cfg =>
    match l with
    | .proxy l => l.prepareReload validate running cfg
    | .dns l => l.prepareReload validate running cfg

def Inbound.commit (running : Bool) : Inbound D → Prepared D → Except String (Inbound D)
  | .proxy l, .proxy cfg sniffer limits tcpIdleTimeout => do
    ensure (running && sameListenerBinding D l.cfg cfg && decide (l.cfg.tag = cfg.tag))
      "inbound: inbound: listener changed after reload preparation"
    let limits := if l.limits.isSome then limits else none
    pure (.proxy ⟨cfg, sniffer, limits, tcpIdleTimeout⟩)
  | .dns l, .dns cfg policy => do
    ensure (running && sameListenerBinding D l.cfg cfg && decide (l.cfg.tag = cfg.tag))
      "inbound: DNS inbound: listener changed after reload preparation"
    pure (.dns ⟨cfg, policy⟩)
  -- a commit function is called on the listener that prepared it
  | _, _ => .error ""

def Inbound.reload (l : Inbound D) (pass : Pass) (index : Nat) (cfg : Option InboundConfig) :
    Except String (Inbound D) := do
  let prepared ← l.prepareReload (pass.validate index) (pass.running index) cfg
  l.commit (pass.stillRunning index) prepared

structure APIError where
  code : String
  message : String
  status : Nat

def reloadFailed (message : String) : APIError := ⟨"reload_failed", message, 500⟩

def restartRequired (message : String) : APIError := ⟨"restart_required", message, 409⟩

def joinErrors (errs : List String) : String := "\n".intercalate errs

def prepareAll (pass : Pass) :
    Nat → List (Inbound D) → List (Option InboundConfig) → Except String (List (Prepared D))
  | index, l :: ls, cfg :: cfgs => do
    let prepared ← l.prepareReload (pass.validate index) (pass.running index) cfg
    let rest ← prepareAll pass (index + 1) ls cfgs
    pure (prepared :: rest)
  | _, _, _ => .ok []

/-- The rollback loop of `reloadInbounds`, from an index on: the listeners after it and the errors
it meets. -/
def rollback (pass : Pass) :
    Nat → List (Inbound D) → List (Option InboundConfig) → List (Inbound D) × List String
  | index, l :: ls, cfg :: cfgs =>
    let (ls', errs) := rollback pass (index + 1) ls cfgs
    match l.reload pass index cfg with
    | .ok l' => (l' :: ls', errs)
    | .error e => (l :: ls', e :: errs)
  | _, ls, _ => (ls, [])

/-- The second loop of `reloadInbounds`: the listeners that are committed, and those to come. -/
def commitAll (pass undo : Pass) (previous : List (Option InboundConfig)) :
    List (Inbound D) → List (Inbound D × Prepared D) → List (Inbound D) × Option APIError
  | done, [] => (done, none)
  | done, (l, prepared) :: todo =>
    match l.commit (pass.stillRunning done.length) prepared with
    | .ok l' => commitAll pass undo previous (done ++ [l']) todo
    | .error e =>
      let (done, errs) := rollback undo 0 done previous
      (done ++ l :: todo.map Prod.fst, some (reloadFailed (joinErrors (e :: errs))))

def reloadInbounds (pass undo : Pass) (listeners : List (Inbound D))
    (previous next : List (Option InboundConfig)) : List (Inbound D) × Option APIError :=
  if listeners.length ≠ next.length then
    (listeners, some (restartRequired "inbound listener set changed"))
  else
    match prepareAll pass 0 listeners next with
    | .error e => (listeners, some (reloadFailed e))
    | .ok commits => commitAll pass undo previous [] (listeners.zip commits)

/-!
## Reloading the configuration

`Reload` of `cmd/bypasscore/runtime.go` and of `app/metrics/server.go`. A reload decodes the new
configuration, compares it with the active one, builds a snapshot, moves the listeners and the
metrics server, activates the snapshot and makes it the current one. Whatever fails on the way,
what has been moved is moved back.
-/

variable {D : Deps}

structure MetricsConfig where
  listen : String
  allowedClients : List String
  enablePprof : Bool
deriving DecidableEq

variable (D) in
/-- `metrics.Server`: its configuration and the clients it allows. -/
structure MetricsServer where
  config : MetricsConfig
  allowed : List D.NetPrefix

def normalizedListen (config : MetricsConfig) : String :=
  if trimSpace config.listen = "" then "127.0.0.1:9090" else trimSpace config.listen

def parseAllowed (D : Deps) : List String → Except String (List D.NetPrefix)
  | [] => .ok []
  | raw :: raws =>
    match D.parsePrefix raw with
    | .error e =>
      .error ("metrics: metrics: invalid allowedClients prefix " ++ raw ++ " > " ++ e)
    | .ok p => do
      let ps ← parseAllowed D raws
      pure (p :: ps)

def newMetrics (config : MetricsConfig) : Except String (MetricsServer D) := do
  let allowed ← parseAllowed D config.allowedClients
  pure ⟨config, allowed⟩

def MetricsServer.validate (s : MetricsServer D) : Except String Unit :=
  match D.splitHostPort (normalizedListen s.config) with
  | .error e => .error ("metrics: metrics: listen must be host:port > " ++ e)
  | .ok host =>
    let host := trim host "[]"
    let check (isLoopback : Bool) : Except String Unit :=
      ensure (isLoopback || !s.allowed.isEmpty)
        "metrics: metrics: non-loopback listen requires allowedClients"
    match D.isLoopback host with
    | some isLoopback => check isLoopback
    | none =>
      if D.isLocalhost host then check true
      else .error "metrics: metrics: listen host must be a literal IP or localhost"

def MetricsServer.reload (s : MetricsServer D) (config : MetricsConfig) :
    Except String (MetricsServer D) := do
  let candidate : MetricsServer D ← newMetrics config
  candidate.validate
  ensure (normalizedListen config = normalizedListen s.config)
    "metrics: metrics: listen change requires restart"
  pure ⟨config, candidate.allowed⟩

/-! ### The runtime service -/

variable (D) in
structure Config where
  inbounds : List (Option InboundConfig)
  metrics : Option MetricsConfig
  control : D.Control
  other : D.Other

variable (D) in
structure Snapshot where
  config : Config D
  hash : String
  revision : UInt64
  resources : D.Resources

/-- `reloadStatus`, without its time. -/
structure ReloadStatus where
  success : Bool
  error : String

variable (D) in
/-- The fields of `runtimeService` that `Reload` uses. -/
structure Service where
  current : Snapshot D
  reloadBusy : Bool
  closed : Bool
  lastReload : ReloadStatus
  inbounds : List (Inbound D)
  metrics : Option (MetricsServer D)

inductive Failure where
  | api (e : APIError)
  | plain (message : String)

def Failure.message : Failure → String
  | .api e => e.message
  | .plain message => message

structure Response where
  reloaded : Bool
  unchanged : Bool
  configHash : String
  configRevision : UInt64

variable (D) in
/-- A call of `Reload`: the `If-Match` values, and how each of its fallible steps goes. -/
structure Call where
  expectedValues : List String
  /-- `configFromRequest`: the configuration and its hash. -/
  config : Except String (Config D × String)
  buildSnapshot : Except String D.Resources
  /-- `Probe` of the new writer of DNS results, if there is one. -/
  probe : Except String Unit
  /-- The passes over the listeners: to the new configuration, back from an unfinished pass, back
  after a later step has failed, and back from that. -/
  apply : Pass
  undoApply : Pass
  revert : Pass
  undoRevert : Pass
  activate : Except String Unit
  closed : Bool

def metricsListen : Option MetricsConfig → String
  | none => ""
  | some config => normalizedListen config

def inboundCompatibility (index : Nat) (left right : Option InboundConfig) :
    Except APIError Unit :=
  match left, right with
  | some left, some right => do
    ensure (left.tag = right.tag) (restartRequired "inbound tag changes require restart")
    ensure (sameListenerBinding D left right && sameDNSIdentity left right)
      (restartRequired "inbound listen identity changed")
    ensure (left.sniffing = right.sniffing ∧ left.sniffingTimeoutMs = right.sniffingTimeoutMs ∧
        left.sniffingMaxBytes = right.sniffingMaxBytes ∧ left.dnsRules = right.dnsRules)
      (restartRequired
        "routing-affecting inbound sniffing or DNS rule changes require restart")
  | _, _ => .error ⟨"invalid_config", s!"main: inbound[{index}] is null", 400⟩

def inboundsCompatibility (D : Deps) :
    Nat → List (Option InboundConfig) → List (Option InboundConfig) → Except APIError Unit
  | index, left :: lefts, right :: rights => do
    inboundCompatibility (D := D) index left right
    inboundsCompatibility D (index + 1) lefts rights
  | _, _, _ => .ok ()

def reloadCompatibility (current next : Config D) : Except APIError Unit := do
  ensure (current.inbounds.length = next.inbounds.length)
    (restartRequired "adding or removing inbound listeners requires restart")
  inboundsCompatibility D 0 current.inbounds next.inbounds
  ensure (current.metrics.isNone = next.metrics.isNone ∧
      metricsListen current.metrics = metricsListen next.metrics)
    (restartRequired "metrics listener changes require restart")
  ensure (D.equivalentConfig current.control next.control)
    (restartRequired "control listener changes require restart")

/-- What an `If-Match` value names, without its quotes and the mark of a weak one. -/
def expected (value : String) : String :=
  trim (trimPrefix (trim (trimSpace value) "\"") "W/") "\""

example : expected " W/\"7\" " = "7" := by decide

/-- Whether there is an `If-Match` value and it names neither the revision nor the hash. -/
def mismatch (current : Snapshot D) : List String → Bool
  | [] => false
  | value :: _ =>
    expected value ≠ "" ∧ expected value ≠ toString current.revision.toNat ∧
      expected value ≠ current.hash

namespace Service

variable (s : Service D)

def fail (e : Failure) : Service D × Except Failure Response :=
  ({ s with lastReload := ⟨false, e.message⟩ }, .error e)

def reloadMetrics (config : Option MetricsConfig) : Except String (Option (MetricsServer D)) :=
  match s.metrics, config with
  | some m, some config => some <$> m.reload config
  | _, _ => .ok s.metrics

/-- The rollback of a reload whose listeners and metrics server have moved, and its errors. -/
def rollbackAll (c : Call D) (current next : Config D) : Service D × List String :=
  let (inbounds, inboundErr) :=
    reloadInbounds c.revert c.undoRevert s.inbounds next.inbounds current.inbounds
  let errs := (inboundErr.map APIError.message).toList
  match s.reloadMetrics current.metrics with
  | .ok metrics => ({ s with inbounds := inbounds, metrics := metrics }, errs)
  | .error e => ({ s with inbounds := inbounds }, errs ++ [e])

/-- `Reload` once the new snapshot has been built and probed. -/
def install (c : Call D) (next : Snapshot D) : Service D × Except Failure Response :=
  let current := s.current.config
  match reloadInbounds c.apply c.undoApply s.inbounds current.inbounds next.config.inbounds with
  | (inbounds, some e) => fail { s with inbounds := inbounds } (.api e)
  | (inbounds, none) =>
    let s := { s with inbounds := inbounds }
    match s.reloadMetrics next.config.metrics with
    | .error e =>
      let (inbounds, rollbackErr) := reloadInbounds c.revert c.undoRevert s.inbounds
        next.config.inbounds current.inbounds
      let message :=
        match rollbackErr with
        | none => e
        | some rollbackErr =>
          "main: metrics reload failed and inbound rollback failed:  > " ++
            joinErrors [e, rollbackErr.message]
      fail { s with inbounds := inbounds } (.plain message)
    | .ok metrics =>
      let s := { s with metrics := metrics }
      match c.activate with
      | .error e =>
        let (s, errs) := s.rollbackAll c current next.config
        s.fail (.plain (joinErrors (e :: errs)))
      | .ok _ =>
        if c.closed then
          let (s, errs) := s.rollbackAll c current next.config
          (s, .error (.plain (joinErrors ("main: runtime is closed" :: errs))))
        else
          ({ s with current := next, lastReload := ⟨true, ""⟩ },
            .ok ⟨true, false, next.hash, next.revision⟩)

def reload (s : Service D) (c : Call D) : Service D × Except Failure Response :=
  if s.reloadBusy then
    (s, .error (.api ⟨"busy", "a configuration reload is already running", 503⟩))
  else
    match c.config with
    | .error e => s.fail (.api ⟨"invalid_config", e, 400⟩)
    | .ok (cfg, hash) =>
      if s.closed then (s, .error (.plain "main: runtime is closed"))
      else if mismatch s.current c.expectedValues then
        s.fail (.api ⟨"revision_conflict",
          "If-Match does not match the active config revision or hash", 409⟩)
      else if hash = s.current.hash then (s, .ok ⟨false, true, hash, s.current.revision⟩)
      else
        match reloadCompatibility s.current.config cfg with
        | .error e => s.fail (.api e)
        | .ok _ =>
          match c.buildSnapshot with
          | .error e => s.fail (.api ⟨"invalid_config", e, 400⟩)
          | .ok resources =>
            match c.probe with
            | .error e => s.fail (.api ⟨"nftset_unavailable", e, 503⟩)
            | .ok _ => s.install c ⟨cfg, hash, s.current.revision + 1, resources⟩

end Service

def startLimits (cfg : InboundConfig) (wantUDP : Bool) : Except String (Option D.Limits) :=
  if wantUDP then some <$> D.udpResourceLimitsFromConfig cfg else .ok none

/-- `Start` of a listener: what is installed before its sockets are opened. -/
def startInbound (cfg : InboundConfig) (listen : Except String Unit) :
    Except String (Inbound D) := do
  let inboundType := D.toLower (trimSpace cfg.type)
  if inboundType = "dns" ∨ inboundType = "dot" ∨ inboundType = "doh" then
    let policy ← D.buildDNSRuntimePolicy cfg
    listen
    pure (.dns ⟨cfg, policy⟩)
  else
    let sniffer ←
      D.newSnifferWithOptions cfg.sniffing cfg.sniffingTimeoutMs cfg.sniffingMaxBytes
    let tcpIdleTimeout ← D.tcpIdleTimeoutFromConfig cfg
    match parseInboundNetworks D cfg.network with
    | none => .error "inbound: inbound: network must contain only tcp and/or udp"
    | some (_, wantUDP) =>
      let limits ← startLimits cfg wantUDP
      listen
      pure (.proxy ⟨cfg, sniffer, limits, tcpIdleTimeout⟩)

def startInbounds (listen : Nat → Except String Unit) :
    Nat → List (Option InboundConfig) → Except String (List (Inbound D))
  | _, [] => .ok []
  | _, none :: _ => .error "main: nil inbound configuration"
  | index, some cfg :: cfgs => do
    let l ← startInbound cfg (listen index)
    let ls ← startInbounds listen (index + 1) cfgs
    pure (l :: ls)

def startMetrics (listen : Except String Unit) :
    Option MetricsConfig → Except String (Option (MetricsServer D))
  | none => .ok none
  | some config => do
    let m : MetricsServer D ← newMetrics config
    m.validate
    listen
    pure (some m)

/-- `runRuntimeDaemon` up to the point where all listeners run. -/
def startService (cfg : Config D) (hash : String) (buildSnapshot : Except String D.Resources)
    (listenMetrics : Except String Unit) (listen : Nat → Except String Unit) :
    Except String (Service D) := do
  let resources ← buildSnapshot
  let metrics ← startMetrics listenMetrics cfg.metrics
  let inbounds ← startInbounds listen 0 cfg.inbounds
  pure {
    current := ⟨cfg, hash, 1, resources⟩
    reloadBusy := false
    closed := false
    lastReload := ⟨false, ""⟩
    inbounds := inbounds
    metrics := metrics }

end BypassCore.Reload
