import BypassCore.Lib.GoStrings
import BypassCore.Lib.JSON.Typed
import Mathlib.Data.List.TakeWhile

/-!
# The types of the configuration

`Config` of `cmd/bypasscore/main.go` with the types of its sections, from `infra/conf` and the
packages under `app`, and the `UnmarshalJSON` methods among them. What the standard library reads
from a text (addresses, floating-point numbers, base64) is a parameter.
-/

namespace BypassCore.ConfigFile

open Lib Lib.JSON List

structure Parsers (F : Type) where
  parseIP : Key → Option (List UInt8)
  parseFloat : Number → Option F
  /-- `base64.StdEncoding.DecodeString`. -/
  base64 : Key → Option (List UInt8)

inductive Address where
  | ip (bytes : List UInt8)
  | domain (name : Key)

def trimFunc (p : Char → Bool) (s : Key) : Key := ((s.dropWhile p).reverse.dropWhile p).reverse

def isAlphaNum (c : Char) : Bool :=
  ('0' ≤ c && c ≤ '9') || ('a' ≤ c && c ≤ 'z') || ('A' ≤ c && c ≤ 'Z')

/-- `IPAddress`, where an IPv4 address that is mapped into IPv6 is one of IPv4. -/
def ipAddress (ip : List UInt8) : Address :=
  if ip.length = 16 ∧ ip.take 12 = List.replicate 10 0 ++ [0xff, 0xff] then .ip (ip.drop 12)
  else .ip ip

def parseAddress {F : Type} (P : Parsers F) (addr : Key) : Address :=
  let addr :=
    if addr.head? = some '[' ∧ addr.getLast? = some ']' then addr.tail.dropLast else addr
  let addr :=
    if addr.head?.all isAlphaNum && addr.getLast?.all isAlphaNum then addr
    else trimFunc GoStrings.isSpace addr
  match P.parseIP addr with
  | some ip => ipAddress ip
  | none => .domain addr

inductive Mode where
  | freedom
  | blackhole
  | proxy
  | wireGuard
deriving DecidableEq

inductive HostAddress where
  | addr (a : Address)
  | addrs (as : List Address)

inductive Scalar (F : Type) where
  | bool (b : Bool)
  | str (s : Key)
  | int (n : ℤ)
  | any (g : Generic F)
  | bytes (b : Option (List UInt8))
  | mode (m : Mode)
  /-- An `Address` that has not been set has none. -/
  | address (a : Option Address)
  | strings (l : Option (List Key))
  | hosts (entries : Option (List (Key × Option HostAddress)))

variable {F : Type} (P : Parsers F)

def plain (zero : Scalar F) (read : Generic Number → Option (Scalar F)) : Schema (Scalar F) :=
  .leaf (.ofGeneric zero fun current g =>
    match g with
    | .null => some current
    | g => read g)

def bool : Schema (Scalar F) :=
  plain (.bool false) fun
    | .bool b => some (.bool b)
    | _ => none

def string : Schema (Scalar F) :=
  plain (.str []) fun
    | .str s => some (.str s)
    | _ => none

def int : Schema (Scalar F) :=
  plain (.int 0) fun
    | .num n => (GoBytes.atoi n.lit).map .int
    | _ => none

/-- The unsigned types, by their largest value. -/
def uint (max : ℕ) : Schema (Scalar F) :=
  plain (.int 0) fun
    | .num n => ((GoBytes.digits 0 n.lit).filter (· ≤ max)).map fun n => .int n
    | _ => none

def uint16 : Schema (Scalar F) := uint 65535

def uint32 : Schema (Scalar F) := uint 4294967295

def uint64 : Schema (Scalar F) := uint 18446744073709551615

def any : Schema (Scalar F) :=
  .leaf (.guard (Doc.allNumbers fun n => (P.parseFloat n).isSome)
    (.ofGeneric (.any .null) fun _ g => (g.convert P.parseFloat).map .any))

def byteOf : Generic Number → Option UInt8
  | .null => some 0
  | .num n => ((GoBytes.digits 0 n.lit).filter (· < 256)).map UInt8.ofNat
  | _ => none

def bytes : Schema (Scalar F) :=
  .leaf (.ofGeneric (.bytes none) fun _ g =>
    match g with
    | .null => some (.bytes none)
    | .str s => (P.base64 s).map fun b => .bytes (some b)
    | .arr items => (readAll byteOf items).map fun b => .bytes (some b)
    | _ => none)

/-! ### `UnmarshalJSON` -/

def addressOf : Generic Number → Option Address
  | .null => some (parseAddress P [])
  | .str s => some (parseAddress P s)
  | _ => none

def address : Schema (Scalar F) :=
  .leaf (.ofGeneric (.address none) fun _ g => (addressOf P g).map fun a => .address (some a))

def stringOf : Generic Number → Option Key
  | .null => some []
  | .str s => some s
  | _ => none

def stringList : Schema (Scalar F) :=
  .leaf (.ofGeneric (.strings none) fun _ g =>
    match g with
    | .null => some (.strings none)
    | .arr items => (readAll stringOf items).map fun l => .strings (some l)
    | .str s => some (.strings (some (s.splitOn ',')))
    | _ => none)

def hostIPOf : Generic Number → Option Address
  | .null => none
  | g =>
    match addressOf P g with
    | some (.ip bytes) => some (.ip bytes)
    | _ => none

def hostAddressOf : Generic Number → Option HostAddress
  | .null => none
  | .arr [] => none
  | .arr items => (readAll (hostIPOf P) items).map .addrs
  | g => (addressOf P g).map .addr

/-- An entry of the hosts, which may be a nil pointer. -/
def hostOf : Key × Generic Number → Option (Key × Option HostAddress)
  | (k, .null) => some (k, none)
  | (k, g) => (hostAddressOf P g).map fun h => (k, some h)

def hostsRead : Doc → Bool
  | .obj _ members => members.all fun m => (hostOf P (m.1, m.2.generic)).isSome
  | _ => true

def hostsWrapper : Schema (Scalar F) :=
  .leaf (.guard (hostsRead P) (.ofGeneric (.hosts none) fun _ g =>
    match g with
    | .null => some (.hosts none)
    | .obj members => (readAll (hostOf P) members).map fun entries => .hosts (some entries)
    | _ => none))

/-! #### The mode of an outbound -/

/-- `unicode.ToLower`, on the characters with a lower-case form in ASCII: beside the letters these
are the Kelvin sign and the capital I with a dot. -/
def toLower (c : Char) : Char :=
  if c.toNat = 0x212a then 'k' else if c.toNat = 0x130 then 'i' else c.toLower

def modeNames : List (Key × Mode) :=
  [("".toList, .freedom), ("freedom".toList, .freedom), ("direct".toList, .freedom),
    ("blackhole".toList, .blackhole), ("block".toList, .blackhole), ("proxy".toList, .proxy),
    ("wireguard".toList, .wireGuard), ("wg".toList, .wireGuard)]

/-- `Mode.UnmarshalJSON`, which looks at the text. -/
def Mode.unmarshalJSON (data : Key) : Option Mode :=
  if trimFunc GoStrings.isSpace data = "null".toList then some .freedom
  else
    modeNames.lookup ((trimFunc (· == ' ') (trimFunc (· == '"') data)).map toLower)

lemma mem_trimFunc {p : Char → Bool} {s : Key} {c : Char} (hc : c ∈ s) (hp : p c = false) :
    c ∈ trimFunc p s := by
  have hdrop : ∀ l : Key, c ∈ l → c ∈ l.dropWhile p := by
    intro l hl
    rw [← takeWhile_append_dropWhile (p := p) (l := l)] at hl
    rcases mem_append.mp hl with htake | hdrop
    · exact absurd (hp.symm.trans (mem_takeWhile_imp htake)) nofun
    · exact hdrop
  rw [trimFunc, mem_reverse]
  exact hdrop _ (mem_reverse.mpr (hdrop _ hc))

/-- Characters that only a text with an escape, an array or an object has. -/
def signs : List Char := ['\\', '[', '\x7b']

lemma signs_kept {c : Char} (hsign : c ∈ signs) :
    GoStrings.isSpace c = false ∧ (c == '"') = false ∧ (c == ' ') = false ∧ toLower c = c ∧
      c ∉ "null".toList ∧ ∀ n ∈ modeNames, c ∉ n.1 := by
  rw [signs, mem_cons, mem_cons, mem_singleton] at hsign
  rcases hsign with rfl | rfl | rfl <;> decide

/-- A text with one of the signs is no name of a mode. -/
lemma unmarshalJSON_eq_none {data : Key} {c : Char} (hsign : c ∈ signs) (hc : c ∈ data) :
    Mode.unmarshalJSON data = none := by
  obtain ⟨hspace, hquote, hblank, hlower, hnull, hnames⟩ := signs_kept hsign
  rw [Mode.unmarshalJSON, if_neg, lookup_eq_none_iff]
  · rintro ⟨name, m⟩ hn
    rw [bne_iff_ne]
    rintro rfl
    refine hnames _ hn (mem_map.mpr ⟨c, ?_, hlower⟩)
    exact mem_trimFunc (mem_trimFunc hc hquote) hblank
  · intro heq
    exact hnull (heq ▸ mem_trimFunc hc hspace)

lemma runes_raw_str (body : Text) :
    UTF8.runes (Doc.str body).raw = '"' :: (UTF8.runes body ++ ['"']) := by
  have hquote : (0x22 : UInt8) < 0x80 := by decide
  calc UTF8.runes (Doc.str body).raw
      = UTF8.runes ([] ++ 0x22 :: (body ++ 0x22 :: [])) := rfl
    _ = UTF8.runes [] ++ '"' :: UTF8.runes (body ++ 0x22 :: []) :=
        UTF8.runes_append_ascii hquote _ _
    _ = '"' :: (UTF8.runes body ++ ['"']) := by
        rw [UTF8.runes_append_ascii hquote]
        rfl

/-- The mode depends on the value: a text with an escape is refused. -/
lemma mode_eq {d d' : Doc} {m m' : Mode} (h : d.generic = d'.generic)
    (hm : Mode.unmarshalJSON (UTF8.runes d.raw) = some m)
    (hm' : Mode.unmarshalJSON (UTF8.runes d'.raw) = some m') : m = m' := by
  have hraw : UTF8.runes d.raw = UTF8.runes d'.raw := by
    have hescape : ∀ {body : Text} {m : Mode},
        Mode.unmarshalJSON (UTF8.runes (Doc.str body).raw) = some m →
          unquote body = UTF8.runes body := by
      intro body m hm
      refine unquote_eq_runes fun hmem => ?_
      have hsign : '\\' ∈ UTF8.runes (Doc.str body).raw :=
        UTF8.mem_runes (b := 0x5c) (by decide) (mem_cons_of_mem _ (mem_append_left _ hmem))
      rw [unmarshalJSON_eq_none (by decide) hsign] at hm
      cases hm
    cases d with
    | null => rw [generic_eq_null h.symm]
    | bool b => rw [generic_eq_bool h.symm]
    | num n => rw [generic_eq_num h.symm]
    | str body =>
      obtain ⟨body', rfl, hbody⟩ := generic_eq_str h.symm
      rw [runes_raw_str, runes_raw_str, ← hescape hm, ← hescape hm', hbody]
    | arr inner items =>
      have hsign : '[' ∈ UTF8.runes (Doc.arr inner items).raw :=
        UTF8.mem_runes (b := 0x5b) (by decide) mem_cons_self
      rw [unmarshalJSON_eq_none (by decide) hsign] at hm
      cases hm
    | obj inner members =>
      have hsign : '\x7b' ∈ UTF8.runes (Doc.obj inner members).raw :=
        UTF8.mem_runes (b := 0x7b) (by decide) mem_cons_self
      rw [unmarshalJSON_eq_none (by decide) hsign] at hm
      cases hm
  rw [hraw] at hm
  exact Option.some.inj (hm.symm.trans hm')

def mode : Schema (Scalar F) :=
  .leaf
    { zero := .mode .freedom
      read := fun _ d => (Mode.unmarshalJSON (UTF8.runes d.raw)).map .mode
      read_eq := by
        intro d d' a a' h ha ha'
        obtain ⟨m, hm, rfl⟩ := Option.map_eq_some_iff.mp ha
        obtain ⟨m', hm', rfl⟩ := Option.map_eq_some_iff.mp ha'
        rw [mode_eq h hm hm'] }

/-! ### Sections -/

def struct : List (String × Schema (Scalar F)) → Schema (Scalar F) := fun fields =>
  .struct (fields.foldr (fun f rest => .cons f.1.toList f.2 rest) .nil)

def bindConfig : Schema (Scalar F) := struct [("interface", string), ("localIP", string)]

def upstreamConfig : Schema (Scalar F) :=
  struct [("protocol", string), ("server", string), ("settings", .map (any P))]

def wireGuardPeerConfig : Schema (Scalar F) :=
  struct [("publicKey", string), ("endpoint", string), ("allowedIPs", .slice string),
    ("preSharedKey", string), ("keepAlive", uint16)]

def wireGuardConfig : Schema (Scalar F) :=
  struct [("secretKey", string), ("publicKey", string), ("address", .slice string),
    ("peers", .slice (.ptr wireGuardPeerConfig)), ("mtu", int), ("dns", .slice string),
    ("reserved", bytes P)]

def outbound : Schema (Scalar F) :=
  struct [("tag", string), ("mode", mode), ("bind", .ptr bindConfig),
    ("upstream", .ptr (upstreamConfig P)), ("wireguard", .ptr (wireGuardConfig P))]

def strategyConfig : Schema (Scalar F) := struct [("type", string), ("settings", .ptr .raw)]

def balancingRule : Schema (Scalar F) :=
  struct [("tag", string), ("selector", stringList), ("strategy", strategyConfig),
    ("fallbackTag", string)]

/-- The rules are kept as they are written. -/
def routerConfig : Schema (Scalar F) :=
  struct [("rules", .slice .raw), ("domainStrategy", .ptr string),
    ("balancers", .slice (.ptr balancingRule)), ("finalOutboundTag", string)]

def advancedNameServer : Schema (Scalar F) :=
  struct [("address", .ptr (address P)), ("clientIp", .ptr (address P)), ("port", uint16),
    ("skipFallback", bool), ("domains", stringList), ("expectedIPs", stringList),
    ("expectIPs", stringList), ("queryStrategy", string), ("tag", string), ("timeoutMs", uint64),
    ("disableCache", .ptr bool), ("serveStale", .ptr bool), ("serveExpiredTTL", .ptr uint32),
    ("finalQuery", bool), ("unexpectedIPs", stringList), ("outboundTag", string)]

/-- `NameServerConfig.UnmarshalJSON`, where a string sets the address alone. -/
def nameServerConfig : Schema (Scalar F) :=
  .orString
    (fun current s =>
      match current with
      | .struct (_ :: fields) =>
        .struct (.ptr (.leaf (.address (some (parseAddress P s)))) :: fields)
      | current => current)
    (advancedNameServer P)

def dnsConfig : Schema (Scalar F) :=
  struct [("servers", .slice (.ptr (nameServerConfig P))), ("hosts", .ptr (hostsWrapper P)),
    ("clientIp", .ptr (address P)), ("tag", string), ("queryStrategy", string),
    ("disableCache", bool), ("serveStale", bool), ("serveExpiredTTL", uint32),
    ("disableFallback", bool), ("disableFallbackIfMatch", bool), ("enableParallelQuery", bool),
    ("useSystemHosts", bool)]

def dnsRuleConfig : Schema (Scalar F) :=
  struct [("domain", .slice string), ("qType", .slice string), ("action", string),
    ("rcode", uint16)]

def inbound : Schema (Scalar F) :=
  struct [("tag", string), ("type", string), ("listen", string), ("port", int),
    ("network", string), ("sniffing", bool), ("sniffingTimeoutMs", int), ("sniffingMaxBytes", int),
    ("udpSniffWaitMs", int), ("udpSniffMaxPackets", int), ("maxConcurrentQueries", int),
    ("maxTCPConnections", int), ("maxQueryBytes", int), ("dnsAllowedClients", .slice string),
    ("dnsQueriesPerSecond", int), ("dnsQueryBurst", int), ("dnsGlobalQueriesPerSecond", int),
    ("dnsGlobalQueryBurst", int), ("dnsRules", .slice dnsRuleConfig), ("dnsRawCacheEntries", int),
    ("dnsRawCacheMaxTTLSeconds", int), ("dnsRawCacheMaxBytes", int),
    ("dnsCertificateFile", string), ("dnsKeyFile", string), ("dnsDoHPath", string),
    ("udpMaxSessions", int), ("udpMaxSessionsPerSource", int), ("udpSessionQueueBytes", int),
    ("udpSessionQueuePackets", int), ("udpSessionIdleTimeoutSeconds", int),
    ("tcpIdleTimeoutSeconds", int)]

def observatory : Schema (Scalar F) :=
  struct [("subject_selector", .slice string), ("probe_url", string), ("probe_interval", int),
    ("enable_concurrency", bool)]

def metrics : Schema (Scalar F) :=
  struct [("listen", string), ("allowedClients", .slice string), ("enablePprof", bool)]

def control : Schema (Scalar F) :=
  struct [("enabled", bool), ("socket", string), ("mode", string), ("maxRequestBytes", int),
    ("maxInflightRequestBytes", int), ("maxConcurrentRequests", int)]

def dnsResultEvents : Schema (Scalar F) :=
  struct [("socket", string), ("queueSize", int), ("maxDatagramBytes", int),
    ("maxQueueBytes", int)]

def policy : Schema (Scalar F) :=
  struct [("serverTags", .slice string), ("ipv4Set", string), ("ipv6Set", string)]

def dnsResultNFTSets : Schema (Scalar F) :=
  struct [("queueSize", int), ("batchSize", int), ("flushIntervalMs", int),
    ("policies", .slice policy)]

def config : Schema (Scalar F) :=
  struct [("outbounds", .slice (.ptr (outbound P))), ("routing", routerConfig),
    ("dns", .ptr (dnsConfig P)), ("inbounds", .slice (.ptr inbound)),
    ("observatory", .ptr observatory), ("metrics", .ptr metrics), ("control", .ptr control),
    ("dnsResultEvents", .ptr dnsResultEvents), ("dnsResultNFTSets", .ptr dnsResultNFTSets)]

/-!
## Loading a configuration file

`loadConfig` of `cmd/bypasscore/main.go`, which the installer runs, and `loadConfigAndHash` of
`cmd/bypasscore/runtime.go`, which the daemon runs when it starts and when it reloads. The second
one goes through the document three times: token by token for keys that come twice, into the
configuration, and into a value of any type that is encoded again for the hash.
-/

/-- The closure `walk` on the members of an object. Every member has at least one byte. -/
def walkObject (walk : String → Decoder → Except Failure Decoder) (path : String) :
    ℕ → List Key → Decoder → Except Failure Decoder
  | 0, _, _ => .error .malformed
  | n + 1, seen, decoder =>
    if decoder.more then do
      let (keyToken, decoder) ← decoder.token
      match keyToken with
      | .string key =>
        if key ∈ seen then
          .error (.message ("duplicate JSON key at " ++ path ++ "." ++ String.ofList key))
        else do
          let decoder ← walk (path ++ "." ++ String.ofList key) decoder
          walkObject walk path n (key :: seen) decoder
      | _ => .error (.message "invalid JSON object key")
    else do
      let (closing, decoder) ← decoder.token
      if closing = .endObject then .ok decoder else .error (.message "invalid JSON object")

def walkArray (walk : String → Decoder → Except Failure Decoder) (path : String) :
    ℕ → ℕ → Decoder → Except Failure Decoder
  | 0, _, _ => .error .malformed
  | n + 1, index, decoder =>
    if decoder.more then do
      let decoder ← walk (path ++ "[" ++ toString index ++ "]") decoder
      walkArray walk path n (index + 1) decoder
    else do
      let (closing, decoder) ← decoder.token
      if closing = .endArray then .ok decoder else .error (.message "invalid JSON array")

/-- The closure `walk`. A value inside another one is shorter. -/
def walk : ℕ → String → Decoder → Except Failure Decoder
  | 0, _, _ => .error .malformed
  | n + 1, path, decoder => do
    let (token, decoder) ← decoder.token
    match token with
    | .beginObject => walkObject (walk n) path (decoder.rest.length + 1) [] decoder
    | .beginArray => walkArray (walk n) path (decoder.rest.length + 1) 0 decoder
    | .endObject | .endArray => .error (.message "unexpected JSON delimiter")
    | .string _ | .other => .ok decoder

def rejectDuplicateJSONKeys (raw : Text) : Except Failure Unit := do
  let decoder ← walk (raw.length + 1) "$" (.new raw)
  match decoder.token with
  | .error .eof => .ok ()
  | .error e => .error e
  | .ok _ => .error (.message "multiple JSON values")

variable {F H : Type} (P : Parsers F) (sum : List Char → H)

def configOf (d : Doc) : Option (Value (Scalar F)) := (config P).decode (config P).zero d

def anyOf (d : Doc) : Option (Generic F) := d.generic.convert P.parseFloat

/-- `decodeConfig`, where `sum` is the SHA-256 sum in hexadecimal. -/
def decodeConfig (raw : Text) : Except Failure (Value (Scalar F) × H) := do
  (rejectDuplicateJSONKeys raw).mapError (.base "parse config.json")
  let (cfg, decoder) ← ((Decoder.new raw).decode (configOf P)).mapError (.base "parse config.json")
  match decoder.decode (anyOf P) with
  | .error .eof => do
    let (canonical, _) ← (Decoder.new raw).decode fun d => some d.generic
    .ok (cfg, sum canonical.marshal)
  | .error e => .error e
  | .ok _ => .error (.message "parse config.json: multiple JSON values")

def maxConfigBytes : ℕ := 16777216

def loadConfigAndHash (content : Text) : Except Failure (Value (Scalar F) × H) :=
  let raw := content.take (maxConfigBytes + 1)
  if maxConfigBytes < raw.length then .error (.message "config exceeds 16 MiB")
  else decodeConfig P sum raw

def loadConfig (content : Text) : Except Failure (Value (Scalar F)) := do
  let (cfg, decoder) ←
    ((Decoder.new content).decode (configOf P)).mapError (.base "parse config.json")
  match decoder.decode (anyOf P) with
  | .error .eof => .ok cfg
  | .error e => .error (.base "parse config.json" e)
  | .ok _ => .error (.message "parse config.json: multiple JSON values")

end BypassCore.ConfigFile
