import BypassCore.DNS.Query.Basic
import BypassCore.DNS.Response.Basic
import BypassCore.Inbound.RawCache
import BypassCore.Inbound.DNSAccess.Basic

/-!
# Answers of the DNS inbound

`app/inbound/dns_listener.go` and `dns_policy.go`: what the listener answers to one message. Wire
messages are parsed and written by `golang.org/x/net/dns/dnsmessage`, which enters as a parameter.
An empty answer means that nothing is sent. Upper and lower case are those of ASCII letters.
-/

namespace BypassCore.Inbound

open Lib

structure WireQuestion where
  name : List UInt8
  type : UInt16
  cls : UInt16

/-- The bodies of resources that the listener makes, and any other. -/
inductive WireBody (β : Type) where
  | a (ip : NetIP)
  | aaaa (ip : NetIP)
  | opt
  | other (body : β)

structure WireResource (β : Type) where
  name : List UInt8
  type : UInt16
  cls : UInt16
  ttl : UInt32
  body : WireBody β

structure WireMessage (β : Type) where
  header : DNS.Header
  questions : List WireQuestion := []
  answers : List (WireResource β) := []
  authorities : List (WireResource β) := []
  additionals : List (WireResource β) := []

/-- `Message.Unpack`, `Message.AppendPack`, and the calls of a `Parser` in `parseWireQuestions`. -/
structure WireCodec (β : Type) where
  unpack : List UInt8 → Option (WireMessage β)
  pack : WireMessage β → Option (List UInt8)
  questions : List UInt8 → Option (DNS.Header × List WireQuestion)

def IsResponse (raw : List UInt8) : Prop := 12 ≤ raw.length ∧ raw.getD 2 0 &&& 0x80 ≠ 0

instance (raw : List UInt8) : Decidable (IsResponse raw) := inferInstanceAs (Decidable (_ ∧ _))

/-- What the library documents: `Response` is the QR bit, and a message that is only a header is
written in twelve bytes. -/
structure WireCodec.Documented {β : Type} (C : WireCodec β) : Prop where
  response_eq : ∀ raw m, C.unpack raw = some m → m.header.response = decide (IsResponse raw)
  pack_header : ∀ header, ∃ packed, C.pack { header } = some packed ∧ packed.length = 12

def headerOf (id : UInt16) : DNS.Header :=
  { id, response := false, opCode := 0, authoritative := false, truncated := false
    recursionDesired := false, recursionAvailable := false, authenticData := false
    checkingDisabled := false, rCode := 0 }

def classINET : UInt16 := 1

def rCodeSuccess : UInt16 := 0

def rCodeFormatError : UInt16 := 1

def rCodeServerFailure : UInt16 := 2

def rCodeNotImplemented : UInt16 := 4

def rCodeRefused : UInt16 := 5

def rcodeBadVersion : UInt16 := 16

def maxDNSUDPPayload : ℕ := 4096

def maxDNSMessageSize : ℕ := 65535

def defaultDNSMaxQueryBytes : ℕ := 4096

variable {β γ : Type}

structure EDNSRequest where
  payload : ℕ
  version : UInt8

/-- `inspectEDNS`, with what its loop has found so far. -/
def inspectEDNS : Option EDNSRequest → List (WireResource β) → Except String (Option EDNSRequest)
  | result, [] => .ok result
  | result, extra :: rest =>
    if extra.type ≠ typeOPT ∨ extra.name ≠ ascii "." ∨ result.isSome then
      .error "invalid DNS additional section"
    else if extra.ttl >>> 24 ≠ 0 ∨ extra.ttl &&& 0x7fff ≠ 0 then
      .error "invalid EDNS request flags"
    else
      let payload := extra.cls.toNat
      let payload := if payload < 512 then 512 else payload
      let payload := if maxDNSUDPPayload < payload then maxDNSUDPPayload else payload
      inspectEDNS (some ⟨payload, (extra.ttl >>> 16).toUInt8⟩) rest

def ednsResource (rcode : UInt16) (edns : EDNSRequest) : WireResource β :=
  { name := ascii "."
    type := typeOPT
    cls := UInt16.ofNat edns.payload
    ttl := rcode.toUInt32 >>> 4 <<< 24
    body := .opt }

def udpLimit (edns : Option EDNSRequest) : ℕ := edns.elim 512 EDNSRequest.payload

def responseHeader (request : DNS.Header) (rcode : UInt16) (truncated : Bool) : DNS.Header :=
  { headerOf request.id with
    response := true
    opCode := request.opCode
    truncated := truncated
    recursionDesired := request.recursionDesired
    recursionAvailable := true
    checkingDisabled := request.checkingDisabled
    rCode := rcode }

def truncatedResponseFor (C : WireCodec β) (request : WireMessage β) (edns : Option EDNSRequest) :
    List UInt8 :=
  let response : WireMessage β :=
    { header := responseHeader request.header rCodeSuccess true
      questions := request.questions
      additionals := edns.toList.map (ednsResource rCodeSuccess) }
  (C.pack response).getD []

def responseFor (C : WireCodec β) (request : WireMessage β) (rcode : UInt16)
    (answers : List (WireResource β)) (udp : Bool) (edns : Option EDNSRequest) : List UInt8 :=
  let rcode := if 15 < rcode ∧ edns.isNone then rCodeServerFailure else rcode
  let response : WireMessage β :=
    { header := responseHeader request.header (rcode &&& 0x0f) false
      questions := request.questions
      answers := answers
      additionals := edns.toList.map (ednsResource rcode) }
  let limit := if udp then udpLimit edns else maxDNSMessageSize
  match C.pack response with
  | none => []
  | some packed =>
    if packed.length ≤ limit then packed
    else
      -- A truncated response has the question but no answers.
      match C.pack { response with
        header := { response.header with truncated := true }
        answers := [] } with
      | none => []
      | some packed => if packed.length ≤ limit then packed else []

def errorResponse (C : WireCodec β) (raw : List UInt8) (rcode : UInt16) : List UInt8 :=
  if raw.length < 2 then []
  else
    let header := headerOf ((raw.getD 0 0).toUInt16 <<< 8 ||| (raw.getD 1 0).toUInt16)
    let header :=
      if 4 ≤ raw.length then
        { header with
          recursionDesired := raw.getD 2 0 &&& 1 ≠ 0
          checkingDisabled := raw.getD 3 0 &&& 0x10 ≠ 0 }
      else header
    responseFor C { header } rcode [] true none

inductive DNSRuleAction where
  | direct
  | drop
  | returnRCode
  | hijack
deriving DecidableEq

/-- `compiledDNSRule`. A matcher is given by its method `MatchAny`. -/
structure CompiledDNSRule where
  matcher : Option (List UInt8 → Bool)
  qtypes : List UInt16
  action : DNSRuleAction
  rcode : UInt16

def trimDot (name : List UInt8) : List UInt8 :=
  if name.getLast? = some 46 then name.dropLast else name

/-- Whether the loop of `dnsActionForRules` stops at a rule. -/
def CompiledDNSRule.applies (rule : CompiledDNSRule) (question : WireQuestion) : Bool :=
  (rule.qtypes.isEmpty || question.type ∈ rule.qtypes) &&
    rule.matcher.all fun matchAny => matchAny (ASCII.toLower (trimDot question.name))

def dnsActionForRules (rules : List CompiledDNSRule) (question : WireQuestion) :
    DNSRuleAction × UInt16 :=
  match rules.find? fun rule => rule.applies question with
  | some rule => (rule.action, rule.rcode)
  | none =>
    if question.type = DNS.typeA ∨ question.type = DNS.typeAAAA then (.hijack, rCodeSuccess)
    else (.direct, rCodeSuccess)

/-! ### Lookups -/

/-- `dns.Client`, as it answers at some time. Raw lookups are there if it is a
`RawContextClient`. -/
structure Client where
  lookupIP : List UInt8 → DNS.IPOption → List NetIP × UInt32 × Option DNS.QueryErr
  lookupRaw : Option (List UInt8 → List UInt8 → Except DNS.QueryErr (List UInt8))

def cause : DNS.QueryErr → DNS.QueryErr
  | .base _ inner => cause inner
  | e => e

def rCodeFromError : Option DNS.QueryErr → UInt16
  | none => 0
  | some e =>
    match cause e with
    | .rcode code => code
    | _ => 0

def lookupRCode (edns : Option EDNSRequest) (lookupErr : Option DNS.QueryErr) : UInt16 :=
  let rcode := rCodeFromError lookupErr
  let rcode := if 0x0fff < rcode then rCodeServerFailure else rcode
  let rcode := if 15 < rcode ∧ edns.isNone then rCodeServerFailure else rcode
  if rcode = rCodeSuccess ∧ lookupErr.any (fun e => !e.is .emptyResponse) then rCodeServerFailure
  else rcode

/-- The resource for an address, if it is of the family that the question asks for. -/
def answerFor (question : WireQuestion) (ttl : UInt32) (ip : NetIP) : Option (WireResource β) :=
  let resource (body : WireBody β) : WireResource β :=
    ⟨question.name, question.type, classINET, ttl, body⟩
  if question.type = DNS.typeA then ip.to4.map fun v4 => resource (.a v4)
  else if question.type = DNS.typeAAAA then
    if ip.to4.isSome then none else ip.to16.map fun v6 => resource (.aaaa v6)
  else none

def validateRawResponse (C : WireCodec β) (query response : List UInt8) : Option String :=
  if query.length < 12 ∨ maxDNSMessageSize < query.length then
    some "invalid raw DNS query length"
  else if response.length < 12 ∨ maxDNSMessageSize < response.length then
    some "invalid raw DNS response length"
  else
    match C.questions query with
    | none => some "invalid raw DNS query"
    | some (queryHeader, queryQuestions) =>
      if queryHeader.response then some "raw DNS query has the response bit set"
      else if queryQuestions = [] then some "raw DNS query has no question"
      else
        match C.questions response with
        | none => some "invalid raw DNS response"
        | some (responseHeader, responseQuestions) =>
          if !responseHeader.response ∨ responseHeader.id ≠ queryHeader.id ∨
              responseHeader.opCode ≠ queryHeader.opCode then
            some "raw DNS response does not match query header"
          else if responseQuestions.length ≠ queryQuestions.length then
            some "raw DNS response does not match query questions"
          else if (responseQuestions.zip queryQuestions).any fun (r, q) =>
              !ASCII.equalFold r.name q.name || r.type ≠ q.type || r.cls ≠ q.cls then
            some "raw DNS response does not match query question"
          else none

/-- `rawCache.get`, which finds nothing if the cache is nil. -/
def rawCacheGet (D : RawCodec γ) (rawCache : Option RawCache) (raw : List UInt8) (now : ℤ) :
    Option RawCache × Option (List UInt8) :=
  match rawCache with
  | none => (none, none)
  | some c => let (c, found) := c.get D raw now; (some c, found)

/-- The response of the client to a query that the cache does not answer, and the cache afterwards;
no response if there is none that can be forwarded. -/
def fetchRaw (C : WireCodec β) (D : RawCodec γ)
    (lookupRaw : List UInt8 → List UInt8 → Except DNS.QueryErr (List UInt8))
    (rawCache : Option RawCache) (name raw : List UInt8) (now : ℤ) :
    Option (Option RawCache × Option (List UInt8)) :=
  match lookupRaw name raw with
  | .error _ => some (rawCache, none)
  | .ok response =>
    if (validateRawResponse C raw response).isSome then some (rawCache, none)
    else ((RawCacheOp.put raw response now).exec D rawCache).map fun c => (c, some response)

/-- `forwardRawQuery`, with the cache afterwards; `none` if it does not return. -/
def forwardRawQuery (C : WireCodec β) (D : RawCodec γ) (client : Client)
    (request : WireMessage β) (name raw : List UInt8) (udp : Bool) (edns : Option EDNSRequest)
    (rawCache : Option RawCache) (now : ℤ) : Option (Option RawCache × List UInt8) :=
  match client.lookupRaw with
  | none => some (rawCache, responseFor C request rCodeNotImplemented [] udp edns)
  | some lookupRaw => do
    let (rawCache, cached) := rawCacheGet D rawCache raw now
    let (rawCache, response) ←
      match cached with
      | some response => some (rawCache, some response)
      | none => fetchRaw C D lookupRaw rawCache name raw now
    match response with
    | none => some (rawCache, responseFor C request rCodeServerFailure [] udp edns)
    | some response =>
      if udp ∧ udpLimit edns < response.length then
        some (rawCache, truncatedResponseFor C request edns)
      else some (rawCache, response)

/-- The end of `handleQueryContext`: the addresses of the question name. -/
def answerQuestion (C : WireCodec β) (client : Client) (request : WireMessage β)
    (question : WireQuestion) (udp : Bool) (edns : Option EDNSRequest) : List UInt8 :=
  let option : DNS.IPOption :=
    { ipv4Enable := question.type = DNS.typeA
      ipv6Enable := question.type = DNS.typeAAAA }
  let (ips, ttl, lookupErr) := client.lookupIP question.name option
  let rcode := lookupRCode edns lookupErr
  let ips := if rcode ≠ rCodeSuccess then [] else ips
  responseFor C request rcode (ips.filterMap (answerFor question ttl)) udp edns

/-- `handleQueryContext` for a message with one question of class IN. -/
def handleQuestion (C : WireCodec β) (D : RawCodec γ) (client : Client)
    (dnsRules : List CompiledDNSRule) (rawCache : Option RawCache) (request : WireMessage β)
    (question : WireQuestion) (raw : List UInt8) (udp : Bool) (edns : Option EDNSRequest)
    (now : ℤ) : Option (Option RawCache × List UInt8) :=
  match dnsActionForRules dnsRules question with
  | (.drop, _) => some (rawCache, [])
  | (.returnRCode, ruleRCode) => some (rawCache, responseFor C request ruleRCode [] udp edns)
  | (.direct, _) => forwardRawQuery C D client request question.name raw udp edns rawCache now
  | (.hijack, _) =>
    if question.type ≠ DNS.typeA ∧ question.type ≠ DNS.typeAAAA then
      some (rawCache, responseFor C request rCodeNotImplemented [] udp edns)
    else some (rawCache, answerQuestion C client request question udp edns)

/-- `handleQueryContext` for a message that is not a response. -/
def handleRequest (C : WireCodec β) (D : RawCodec γ) (client : Client)
    (dnsRules : List CompiledDNSRule) (rawCache : Option RawCache) (request : WireMessage β)
    (raw : List UInt8) (udp : Bool) (now : ℤ) : Option (Option RawCache × List UInt8) :=
  let malformed := { request with questions := [] }
  match inspectEDNS none request.additionals with
  | .error _ => some (rawCache, responseFor C malformed rCodeFormatError [] udp none)
  | .ok edns =>
    if edns.any (fun edns => edns.version ≠ 0) then
      some (rawCache, responseFor C request rcodeBadVersion [] udp edns)
    else if request.header.opCode ≠ 0 then
      some (rawCache, responseFor C request rCodeNotImplemented [] udp edns)
    else if request.header.rCode ≠ rCodeSuccess ∨ ¬ request.answers.isEmpty ∨
        ¬ request.authorities.isEmpty then
      some (rawCache, responseFor C request rCodeFormatError [] udp edns)
    else
      match request.questions with
      | [question] =>
        if question.cls ≠ classINET then
          some (rawCache, responseFor C request rCodeNotImplemented [] udp edns)
        else handleQuestion C D client dnsRules rawCache request question raw udp edns now
      | _ => some (rawCache, responseFor C malformed rCodeFormatError [] udp edns)

/-- The size up to which `handleQueryContext` reads a message. -/
def queryLimit (queryBytes : ℕ) : ℕ :=
  if queryBytes < 512 ∨ maxDNSMessageSize < queryBytes then defaultDNSMaxQueryBytes
  else queryBytes

/-- `handleQueryContext`, with the cache afterwards; `none` if it does not return. -/
def handleQueryContext (C : WireCodec β) (D : RawCodec γ) (client : Client) (queryBytes : ℕ)
    (dnsRules : List CompiledDNSRule) (rawCache : Option RawCache) (raw : List UInt8) (udp : Bool)
    (now : ℤ) : Option (Option RawCache × List UInt8) :=
  if queryLimit queryBytes < raw.length then
    some (rawCache, errorResponse C raw rCodeFormatError)
  else
    match C.unpack raw with
    | none => some (rawCache, errorResponse C raw rCodeFormatError)
    | some request =>
      if request.header.response then some (rawCache, [])
      else handleRequest C D client dnsRules rawCache request raw udp now

/-- The handler can read a message: it is not too long, and it is well formed. -/
def Legible (C : WireCodec β) (queryBytes : ℕ) (raw : List UInt8) : Prop :=
  raw.length ≤ queryLimit queryBytes ∧ (C.unpack raw).isSome

instance (C : WireCodec β) (queryBytes : ℕ) (raw : List UInt8) :
    Decidable (Legible C queryBytes raw) := inferInstanceAs (Decidable (_ ∧ _))

variable {C : WireCodec β}

lemma length_responseFor (hC : C.Documented) (header : DNS.Header)
    (rcode : UInt16) : (responseFor C { header } rcode [] true none).length = 12 := by
  simp only [responseFor, Option.toList_none, List.map_nil, if_true]
  generalize responseHeader header _ false = response
  obtain ⟨packed, hpack, hlength⟩ := hC.pack_header response
  have hfits : packed.length ≤ udpLimit none := by
    rw [hlength]
    decide
  simp only [hpack, if_pos hfits]
  exact hlength

/-- An error response to a message with a header is always made. -/
lemma length_errorResponse (hC : C.Documented) {raw : List UInt8}
    (hraw : IsResponse raw) (rcode : UInt16) : (errorResponse C raw rcode).length = 12 := by
  have hlong : ¬ raw.length < 2 := by
    have := hraw.1
    omega
  rw [errorResponse, if_neg hlong]
  exact length_responseFor hC _ rcode

/-- The handler sends nothing to a response that it can read, and an error to any other. -/
lemma handleQueryContext_response (hC : C.Documented) {D : RawCodec γ}
    {client : Client} {queryBytes : ℕ} {dnsRules : List CompiledDNSRule}
    {rawCache : Option RawCache} {raw : List UInt8} {udp : Bool} {now : ℤ} (hraw : IsResponse raw) :
    handleQueryContext C D client queryBytes dnsRules rawCache raw udp now =
      some (rawCache,
        if Legible C queryBytes raw then [] else errorResponse C raw rCodeFormatError) := by
  rw [handleQueryContext]
  by_cases hlong : queryLimit queryBytes < raw.length
  · rw [if_pos hlong, if_neg]
    rintro ⟨hshort, -⟩
    omega
  · rw [if_neg hlong]
    cases hm : C.unpack raw with
    | none => simp [Legible, hm]
    | some m =>
      have hresponse : m.header.response = true := by
        rw [hC.response_eq raw m hm, decide_eq_true hraw]
      have hlegible : Legible C queryBytes raw := ⟨by omega, by rw [hm]; rfl⟩
      simp only [if_pos hresponse, if_pos hlegible]

/-!
## Serving DNS over UDP and TCP

`serveUDP`, `acceptTCP` and `serveTCP` of `app/inbound/dns_listener.go`. The loop over datagrams,
one loop for each connection, and one goroutine for each datagram that got a slot run concurrently;
`Reload` puts another policy in place at any time. A loop keeps the policy that it has loaded, so
policies are numbered objects, with their slots, limiters and cache. TLS connections are served by
the loop for TCP.
-/

structure Slots where
  size : ℕ
  taken : ℕ

def Slots.free (s : Slots) : Bool := s.taken < s.size

/-- `dnsRuntimePolicy`. A prefix is given by its method `Contains`. -/
structure DNSRuntimePolicy (IP : Type) where
  querySlots : Slots
  tcpSlots : Slots
  queryBytes : ℕ
  allowedClients : List (IP → Bool)
  rateLimiter : Option (DNSRateLimiter IP)
  globalLimiter : Option DNSGlobalRateLimiter
  dnsRules : List CompiledDNSRule
  rawCache : Option RawCache

/-- Where a loop is. A stage after the first ones has the number of the policy and the message. -/
inductive Stage (IP : Type) where
  | top
  | reading (policy : ℕ)
  /-- About to call `rateLimiter.allow`. -/
  | source (policy : ℕ) (raw : List UInt8) (ip : IP) (now : ℤ)
  /-- About to call `globalLimiter.allow`. -/
  | global (policy : ℕ) (raw : List UInt8) (now : ℤ)
  /-- About to ask for a query slot. -/
  | select (policy : ℕ) (raw : List UInt8)
  /-- A connection has a slot and is about to call `handleQuery`. -/
  | handling (policy : ℕ) (raw : List UInt8)

structure TCPConn (IP : Type) where
  peerIP : IP
  /-- The policy whose `tcpSlots` the connection has a slot of. -/
  slot : ℕ
  stage : Stage IP

inductive Loop where
  | udp
  | tcp (conn : ℕ)

structure UDPQuery where
  policy : ℕ
  raw : List UInt8

structure Reply where
  request : List UInt8
  response : List UInt8

structure DNSListener (IP : Type) where
  policy : ℕ → DNSRuntimePolicy IP
  /-- The policy that `currentPolicy` returns. -/
  current : ℕ
  cancelled : Bool
  udp : Stage IP
  conns : ℕ → Option (TCPConn IP)
  queries : List UDPQuery
  sent : List Reply

section Policy

variable {IP : Type} [DecidableEq IP]

def clientAllowed (ip : IP) (prefixes : List (IP → Bool)) : Bool :=
  prefixes.isEmpty || prefixes.any fun contains => contains ip

namespace DNSRuntimePolicy

variable (p : DNSRuntimePolicy IP)

def allowSource (ip : IP) (now : ℤ) : Bool × DNSRuntimePolicy IP :=
  match p.rateLimiter with
  | none => (true, p)
  | some l => let (ok, l) := l.allow ip now; (ok, { p with rateLimiter := some l })

def allowGlobal (now : ℤ) : Bool × DNSRuntimePolicy IP :=
  match p.globalLimiter with
  | none => (true, p)
  | some l => let (ok, l) := l.allow now; (ok, { p with globalLimiter := some l })

def takeQuerySlot : DNSRuntimePolicy IP :=
  { p with querySlots := { p.querySlots with taken := p.querySlots.taken + 1 } }

def releaseQuerySlot : DNSRuntimePolicy IP :=
  { p with querySlots := { p.querySlots with taken := p.querySlots.taken - 1 } }

def takeTCPSlot : DNSRuntimePolicy IP :=
  { p with tcpSlots := { p.tcpSlots with taken := p.tcpSlots.taken + 1 } }

def releaseTCPSlot : DNSRuntimePolicy IP :=
  { p with tcpSlots := { p.tcpSlots with taken := p.tcpSlots.taken - 1 } }

end DNSRuntimePolicy

end Policy

/-! ### Steps -/

/-- A step of a goroutine, with what comes from outside. `written` says whether a connection takes
what is written to it. -/
inductive DNSListenerEvent (IP : Type) where
  | install (policy : DNSRuntimePolicy IP)
  | cancel
  | accept (conn : ℕ) (peer : Option IP)
  | load (conn : ℕ)
  | hangup (conn : ℕ)
  /-- A message comes in on a connection, with the two bytes of its length in front. -/
  | frame (conn : ℕ) (hi lo : UInt8) (body : List UInt8) (now : ℤ)
  | datagram (raw : List UInt8) (peer : Option IP) (now : ℤ)
  | source (loop : Loop) (written : Bool)
  | global (loop : Loop) (written : Bool)
  /-- `done` says whether the case of the context is taken when it and another one are ready. -/
  | select (loop : Loop) (done written : Bool)
  | handleUDP (i : ℕ) (client : Client) (now : ℤ)
  /-- A connection's loop handles its message. -/
  | handleTCP (conn : ℕ) (client : Client) (now : ℤ) (written : Bool)

namespace DNSListener

variable {IP β γ : Type} [DecidableEq IP] (C : WireCodec β) (D : RawCodec γ) (s : DNSListener IP)

def setPolicy (i : ℕ) (p : DNSRuntimePolicy IP) : DNSListener IP :=
  { s with policy := Function.update s.policy i p }

def stage : Loop → Option (Stage IP)
  | .udp => some s.udp
  | .tcp conn => (s.conns conn).map TCPConn.stage

def goto : Loop → Stage IP → DNSListener IP
  | .udp, stage => { s with udp := stage }
  | .tcp conn, stage =>
    { s with
      conns := Function.update s.conns conn
        ((s.conns conn).map fun c => { c with stage := stage }) }

/-- A loop does not answer: the next datagram is read, or the connection is closed. -/
def giveUp : Loop → DNSListener IP
  | .udp => s.goto .udp .top
  | .tcp conn =>
    match s.conns conn with
    | none => s
    | some c =>
      { s with conns := Function.update s.conns conn none }.setPolicy c.slot
        (s.policy c.slot).releaseTCPSlot

def send (raw response : List UInt8) : DNSListener IP :=
  { s with sent := s.sent ++ [⟨raw, response⟩] }

/-- A loop writes a response and goes on, or is left if a connection does not take it. -/
def respond (loop : Loop) (raw response : List UInt8) (written : Bool) : DNSListener IP :=
  match loop with
  | .udp => (if response = [] then s else s.send raw response).goto .udp .top
  | .tcp conn =>
    if response = [] ∨ maxDNSMessageSize < response.length then s.giveUp (.tcp conn)
    else if written then (s.send raw response).goto (.tcp conn) .top
    else (s.send raw response).giveUp (.tcp conn)

/-- What a loop does with a message that a limiter refuses. Over UDP it is dropped. -/
def refuse (loop : Loop) (raw : List UInt8) (written : Bool) : DNSListener IP :=
  match loop with
  | .udp => s.giveUp .udp
  | .tcp conn => s.respond (.tcp conn) raw (errorResponse C raw rCodeRefused) written

def accept (conn : ℕ) (peer : Option IP) : DNSListener IP :=
  let policy := s.policy s.current
  match peer with
  | none => s
  | some peerIP =>
    if clientAllowed peerIP policy.allowedClients ∧ policy.tcpSlots.free then
      { s with conns := Function.update s.conns conn (some ⟨peerIP, s.current, .top⟩) }.setPolicy
        s.current policy.takeTCPSlot
    else s

def datagram (raw : List UInt8) (peer : Option IP) (now : ℤ) : DNSListener IP :=
  let policy := s.policy s.current
  let raw := raw.take (maxDNSMessageSize + 1)
  if policy.queryBytes < raw.length then s
  else
    match peer with
    | none => s
    | some peerIP =>
      if clientAllowed peerIP policy.allowedClients then
        s.goto .udp (.source s.current raw peerIP now)
      else s

/-- A round of `serveTCP` up to the limiters, under the policy that it has loaded. -/
def frame (conn : ℕ) (c : TCPConn IP) (policy : ℕ) (hi lo : UInt8)
    (body : List UInt8) (now : ℤ) : DNSListener IP :=
  let size := hi.toNat * 256 + lo.toNat
  if size = 0 ∨ (s.policy policy).queryBytes < size ∨ body.length < size then
    s.giveUp (.tcp conn)
  else s.goto (.tcp conn) (.source policy (body.take size) c.peerIP now)

def spawn (policy : ℕ) (raw : List UInt8) : DNSListener IP :=
  { s with queries := s.queries ++ [⟨policy, raw⟩] }

/-- The `select` of a loop. A datagram gets a goroutine with its slot. -/
def select (loop : Loop) (policy : ℕ) (raw : List UInt8)
    (done written : Bool) : DNSListener IP :=
  match loop with
  | .udp =>
    if (s.policy policy).querySlots.free then
      ((s.setPolicy policy (s.policy policy).takeQuerySlot).spawn policy raw).goto .udp .top
    else s.respond .udp raw (errorResponse C raw rCodeServerFailure) written
  | .tcp conn =>
    if (s.policy policy).querySlots.free ∧ ¬ (s.cancelled ∧ done) then
      (s.setPolicy policy (s.policy policy).takeQuerySlot).goto (.tcp conn) (.handling policy raw)
    else if s.cancelled then s.giveUp (.tcp conn)
    else s.respond (.tcp conn) raw (errorResponse C raw rCodeServerFailure) written

/-- `handleQuery`, under the policy that is in place, with the response. -/
def handleQuery (raw : List UInt8) (udp : Bool) (client : Client) (now : ℤ) :
    Option (DNSListener IP × List UInt8) :=
  let policy := s.policy s.current
  (handleQueryContext C D client policy.queryBytes policy.dnsRules policy.rawCache raw udp now).map
    fun (rawCache, response) => (s.setPolicy s.current { policy with rawCache }, response)

def release (policy : ℕ) : DNSListener IP :=
  s.setPolicy policy (s.policy policy).releaseQuerySlot

def step : DNSListenerEvent IP → Option (DNSListener IP)
  | .install policy => some { s.setPolicy (s.current + 1) policy with current := s.current + 1 }
  | .cancel => some { s with cancelled := true }
  | .accept conn peer => if (s.conns conn).isNone then some (s.accept conn peer) else none
  | .load conn =>
    match s.stage (.tcp conn) with
    | some .top => some (s.goto (.tcp conn) (.reading s.current))
    | _ => none
  | .hangup conn =>
    match s.stage (.tcp conn) with
    | some (.reading _) => some (s.giveUp (.tcp conn))
    | _ => none
  | .frame conn hi lo body now =>
    match s.conns conn with
    | some c =>
      match c.stage with
      | .reading policy => some (s.frame conn c policy hi lo body now)
      | _ => none
    | none => none
  | .datagram raw peer now =>
    match s.udp with
    | .top => some (s.datagram raw peer now)
    | _ => none
  | .source loop written =>
    match s.stage loop with
    | some (.source policy raw ip now) =>
      let (ok, p) := (s.policy policy).allowSource ip now
      let s := s.setPolicy policy p
      if ok then some (s.goto loop (.global policy raw now))
      else some (s.refuse C loop raw written)
    | _ => none
  | .global loop written =>
    match s.stage loop with
    | some (.global policy raw now) =>
      let (ok, p) := (s.policy policy).allowGlobal now
      let s := s.setPolicy policy p
      if ok then some (s.goto loop (.select policy raw))
      else some (s.refuse C loop raw written)
    | _ => none
  | .select loop done written =>
    match s.stage loop with
    | some (.select policy raw) => some (s.select C loop policy raw done written)
    | _ => none
  | .handleUDP i client now => do
    let q ← s.queries[i]?
    let (s, response) ← s.handleQuery C D q.raw true client now
    let s := { s with queries := s.queries.eraseIdx i }.release q.policy
    some (if response = [] then s else s.send q.raw response)
  | .handleTCP conn client now written =>
    match s.stage (.tcp conn) with
    | some (.handling policy raw) => do
      let (s, response) ← s.handleQuery C D raw false client now
      some ((s.release policy).respond (.tcp conn) raw response written)
    | _ => none

end DNSListener

end BypassCore.Inbound
