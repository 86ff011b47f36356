import BypassCore.DNS.Cache.Basic
import BypassCore.Lib.GoStrings
import BypassCore.Lib.Chase
import BypassCore.Lib.Except

/-!
# Responses to DNS requests

`parseResponseForRequest` of `app/dns/dnscommon.go`: the checks of the header and the question, the
CNAME records of the answer section, the walk from the question name along them, and the addresses
at its end. Wire messages are parsed by `golang.org/x/net/dns/dnsmessage`, which enters as a
parameter. Names are ASCII.
-/

namespace BypassCore.DNS

open Lib ASCII

structure Name where
  data : List UInt8
  ascii : ∀ b ∈ data, b < 128
deriving DecidableEq

def Name.lower (n : Name) : List UInt8 := toLower n.data

def typeA : UInt16 := 1

def typeCNAME : UInt16 := 5

def typeAAAA : UInt16 := 28

structure Question where
  name : Name
  type : UInt16
  cls : UInt16
deriving DecidableEq

/-- `dnsmessage.ResourceBody`, by the type of the record. -/
inductive Body where
  | a (ip : Vector UInt8 4)
  | aaaa (ip : Vector UInt8 16)
  | cname (target : Name)
  | other (type : UInt16) (h : type ≠ typeA ∧ type ≠ typeAAAA ∧ type ≠ typeCNAME)
deriving DecidableEq

def Body.type : Body → UInt16
  | .a _ => typeA
  | .aaaa _ => typeAAAA
  | .cname _ => typeCNAME
  | .other type _ => type

structure Resource where
  name : Name
  cls : UInt16
  ttl : UInt32
  body : Body
deriving DecidableEq

/-- `dnsmessage.Message`, without the sections that are only checked for their form. -/
structure Message where
  header : Header
  questions : List Question
  answers : List Resource
deriving DecidableEq

inductive QuestionError where
  | sectionDone
  | invalid (message : String)

def QuestionError.message : QuestionError → String
  | .sectionDone => "parsing/packing of this section has completed"
  | .invalid message => message

/-- `dnsmessage`: `Parser.Start`, the calls of `Parser.Question` after it, and `Message.Unpack`. -/
structure Parser (Payload : Type) where
  start : Payload → Except String Header
  question : Payload → Nat → Except QuestionError Question
  unpack : Payload → Except String Message

/-- The parser finds the header and the questions of the message. -/
def Parser.Faithful {Payload : Type} (P : Parser Payload) : Prop :=
  ∀ payload m, P.unpack payload = .ok m → P.start payload = .ok m.header ∧
    ∀ i, P.question payload i = (m.questions[i]?).elim (.error .sectionDone) .ok

structure Request where
  msg : Option Message

def defaultTTL : UInt32 := 300

def maxInt32 : UInt32 := 2147483647

structure TTL where
  ttl : UInt32 := defaultTTL
  hasTTL : Bool := false

def TTL.include (t : TTL) (value : UInt32) : TTL :=
  let value := if value = 0 then 1 else value
  let value := if value > maxInt32 then maxInt32 else value
  { ttl := if !t.hasTTL || value < t.ttl then value else t.ttl, hasTTL := true }

structure Alias where
  target : Name
  ttl : UInt32

def Alias.next (r : Alias) : List UInt8 := r.target.lower

def collectAliases (cls : UInt16) :
    GoMap (List UInt8) Alias → List Resource → Except String (GoMap (List UInt8) Alias)
  | aliases, [] => .ok aliases
  | aliases, answer :: answers =>
    match answer.body with
    | .cname target =>
      if answer.cls = cls then
        match aliases.lookup answer.name.lower with
        | some previous =>
          if equalFold previous.target.data target.data then
            collectAliases cls (aliases.insert answer.name.lower ⟨target, answer.ttl⟩) answers
          else .error "dns: conflicting DNS CNAME targets"
        | none =>
          collectAliases cls (aliases.insert answer.name.lower ⟨target, answer.ttl⟩) answers
      else collectAliases cls aliases answers
    | _ => collectAliases cls aliases answers

/-- `net.IPAddress(ip).IP()` of a 16-byte address: a mapped IPv4 address becomes 4 bytes. -/
def ipAddress (ip : List UInt8) : NetIP :=
  if ip.take 10 = List.replicate 10 0 ∧ ip[10]? = some 0xff ∧ ip[11]? = some 0xff then
    ip.drop 12
  else ip

def Body.ip : Body → Option NetIP
  | .a ip => some ip.toList
  | .aaaa ip => some (ipAddress ip.toList)
  | _ => none

/-- The address that a record gives to a question whose chain ends at a name. -/
def Resource.answerTo (q : Question) (owner : List UInt8) (r : Resource) : Option NetIP :=
  if r.cls = q.cls ∧ r.body.type = q.type ∧ equalFold r.name.data owner = true then
    r.body.ip
  else none

def addAnswer (q : Question) (owner : List UInt8) (s : List NetIP × TTL) (answer : Resource) :
    List NetIP × TTL :=
  match answer.answerTo q owner with
  | some ip => (s.1 ++ [ip], s.2.include answer.ttl)
  | none => s

/-- The record of a response, from the aliases on the chain and the name at its end. -/
def buildRecord (now : Int) (header : Header) (q : Question) (answers : List Resource)
    (passed : List Alias) (owner : List UInt8) : IPRecord :=
  let ttl := passed.foldl (fun t r => t.include r.ttl) {}
  let s := answers.foldl (addAnswer q owner) ([], ttl)
  { reqID := header.id
    ip := s.1
    expire := now + s.2.ttl.toNat * second
    rCode := header.rCode
    rawHeader := some header }

/-- The part of `parseResponseForRequest` that reads the answer section. -/
def readAnswers (now : Int) (header : Header) (q : Question) (answers : List Resource) :
    Except String IPRecord :=
  match collectAliases q.cls ∅ answers with
  | .error e => .error e
  | .ok aliases =>
    match chase aliases Alias.next [] q.name.lower with
    | none => .error "dns: DNS CNAME loop"
    | some (passed, owner) => .ok (buildRecord now header q answers passed owner)

def orElseError {α ε : Type} (message : String) (text : ε → String) :
    Except ε α → Except String α
  | .ok a => .ok a
  | .error e => .error ("dns: " ++ message ++ " > " ++ text e)

def noMoreQuestions : Except QuestionError Question → Except String Unit
  | .error .sectionDone => .ok ()
  | _ => .error "dns: DNS response contains unexpected questions"

def parseResponseForRequest {Payload : Type} (P : Parser Payload) (now : Int) (payload : Payload)
    (req : Option Request) : Except String IPRecord :=
  match req.bind Request.msg with
  | some ⟨reqHeader, [expected], _⟩ => do
    let header ← orElseError "failed to parse DNS response header" id (P.start payload)
    ensure header.response "dns: DNS message is not a response"
    ensure (header.id = reqHeader.id) "dns: DNS response ID mismatch"
    ensure (header.opCode = reqHeader.opCode) "dns: DNS response opcode mismatch"
    let question ← orElseError "DNS response has no matching question" QuestionError.message
      (P.question payload 0)
    ensure (equalFold question.name.data expected.name.data &&
        decide (question.type = expected.type) && decide (question.cls = expected.cls))
      "dns: DNS response question mismatch"
    noMoreQuestions (P.question payload 1)
    let message ← orElseError "invalid DNS response" id (P.unpack payload)
    readAnswers now header expected message.answers
  | _ => .error "dns: invalid DNS request metadata"

/-!
## Which answers are accepted

The CNAME records of the answer section form a relation on names.
-/

open Relation

/-! ### Chains -/

variable (cls : UInt16)

/-- A CNAME record of the answer section leads from one name to another. -/
def AliasOf (answers : List Resource) (a b : List UInt8) : Prop :=
  ∃ r ∈ answers, r.cls = cls ∧ ∃ target, r.body = .cname target ∧ r.name.lower = a ∧
    target.lower = b

/-- A name has two different targets. -/
def Conflicting (answers : List Resource) : Prop :=
  ∃ a b c, AliasOf cls answers a b ∧ AliasOf cls answers a c ∧ b ≠ c

/-- A cycle can be reached from a name. -/
def Cyclic (answers : List Resource) (start : List UInt8) : Prop :=
  ∃ n, ReflTransGen (AliasOf cls answers) start n ∧ TransGen (AliasOf cls answers) n n

def EndOfChain (answers : List Resource) (start e : List UInt8) : Prop :=
  ReflTransGen (AliasOf cls answers) start e ∧ ∀ b, ¬ AliasOf cls answers e b

section Collect

variable {cls : UInt16} {aliases m : GoMap (List UInt8) Alias} {done answers : List Resource}
  {r : Resource}

lemma aliasOf_append_singleton {a b : List UInt8} : AliasOf cls (done ++ [r]) a b ↔
      AliasOf cls done a b ∨
        r.cls = cls ∧ ∃ target, r.body = .cname target ∧ r.name.lower = a ∧ target.lower = b := by
  simp only [AliasOf, List.mem_append, List.mem_singleton, or_and_right, exists_or, exists_eq_left]

lemma link_insert {k a b : List UInt8} {r : Alias} :
    Link (aliases.insert k r) Alias.next a b ↔
      if a = k then r.next = b else Link aliases Alias.next a b := by
  simp only [Link, GoMap.lookup_insert_eq]
  split_ifs <;> simp

/-- What the map holds after a CNAME record that does not conflict with it. -/
lemma link_insert_iff (hinv : ∀ a b, Link aliases Alias.next a b ↔ AliasOf cls done a b)
    {target : Name} (hbody : r.body = .cname target) (hcls : r.cls = cls)
    (hsame : ∀ b, AliasOf cls done r.name.lower b → b = target.lower) (a b : List UInt8) :
    Link (aliases.insert r.name.lower ⟨target, r.ttl⟩) Alias.next a b ↔
      AliasOf cls (done ++ [r]) a b := by
  rw [link_insert, aliasOf_append_singleton]
  by_cases ha : a = r.name.lower
  · subst ha
    simp only [hbody, hcls, Body.cname.injEq, exists_eq_left', true_and]
    constructor
    · intro h
      exact .inr h
    · rintro (h | h)
      · exact (hsame b h).symm
      · exact h
  · rw [if_neg ha, hinv]
    constructor
    · intro h
      exact .inl h
    · rintro (h | ⟨-, _, -, rfl, -⟩)
      · exact h
      · exact absurd rfl ha

section

variable (h : ¬ (r.cls = cls ∧ ∃ target, r.body = .cname target))
include h

lemma aliasOf_skip (a b : List UInt8) : AliasOf cls (done ++ [r]) a b ↔ AliasOf cls done a b := by
  rw [aliasOf_append_singleton]
  constructor
  · rintro (h' | ⟨hcls, target, hbody, -⟩)
    · exact h'
    · exact absurd ⟨hcls, target, hbody⟩ h
  · exact Or.inl

lemma collectAliases_skip :
    collectAliases cls aliases (r :: answers) = collectAliases cls aliases answers := by
  rw [collectAliases]
  split
  · next target hbody =>
    rw [if_neg]
    intro hcls
    exact h ⟨hcls, target, hbody⟩
  · rfl

end

/-- The loop collects the links of the CNAME records, unless two of them conflict. -/
lemma collectAliases_spec (hinv : ∀ a b, Link aliases Alias.next a b ↔ AliasOf cls done a b) :
    (∃ m, collectAliases cls aliases answers = .ok m ∧
        ∀ a b, Link m Alias.next a b ↔ AliasOf cls (done ++ answers) a b) ∨
      collectAliases cls aliases answers = .error "dns: conflicting DNS CNAME targets" ∧
        Conflicting cls (done ++ answers) := by
  induction answers generalizing aliases done with
  | nil => exact .inl ⟨aliases, rfl, by simpa using hinv⟩
  | cons r answers ih =>
    have happ : done ++ r :: answers = (done ++ [r]) ++ answers := by simp
    rw [happ]
    by_cases hcname : r.cls = cls ∧ ∃ target, r.body = .cname target
    · obtain ⟨hcls, target, hbody⟩ := hcname
      simp only [collectAliases, hbody, if_pos hcls]
      cases hprev : aliases.lookup r.name.lower with
      | none =>
        refine ih (link_insert_iff hinv hbody hcls ?_)
        intro b hb
        obtain ⟨v, hv, -⟩ := (hinv _ _).mpr hb
        rw [hprev] at hv
        cases hv
      | some previous =>
        dsimp only
        by_cases hfold : equalFold previous.target.data target.data = true
        · rw [if_pos hfold]
          refine ih (link_insert_iff hinv hbody hcls ?_)
          intro b hb
          obtain ⟨v, hv, rfl⟩ := (hinv _ _).mpr hb
          rw [hprev] at hv
          cases hv
          exact equalFold_iff.mp hfold
        · rw [if_neg hfold]
          -- the record and the one before it give their name two targets
          refine .inr ⟨rfl, r.name.lower, previous.target.lower, target.lower, ?_, ?_, ?_⟩
          · obtain ⟨r', hr', hrest⟩ := (hinv _ _).mp ⟨previous, hprev, rfl⟩
            exact ⟨r', by simp [hr'], hrest⟩
          · exact ⟨r, by simp, hcls, target, hbody, rfl, rfl⟩
          · intro heq
            exact hfold (equalFold_iff.mpr heq)
    · rw [collectAliases_skip hcname]
      refine ih ?_
      intro a b
      rw [hinv, aliasOf_skip hcname]

lemma collectAliases_empty (cls : UInt16) (answers : List Resource) :
    (∃ m, collectAliases cls ∅ answers = .ok m ∧ Link m Alias.next = AliasOf cls answers) ∨
      collectAliases cls ∅ answers = .error "dns: conflicting DNS CNAME targets" ∧
        Conflicting cls answers := by
  have hinv : ∀ a b, Link (∅ : GoMap (List UInt8) Alias) Alias.next a b ↔ AliasOf cls [] a b := by
    intro a b
    simp [Link, AliasOf]
  rcases collectAliases_spec hinv with ⟨m, hm, hlink⟩ | h
  · refine .inl ⟨m, hm, ?_⟩
    ext a b
    exact hlink a b
  · exact .inr h

end Collect

variable {answers : List Resource} {q : Question} {m : GoMap (List UInt8) Alias}

lemma toLower_of_reflTransGen {cls : UInt16}
    {e : List UInt8} (h : ReflTransGen (AliasOf cls answers) q.name.lower e) : toLower e = e := by
  cases h with
  | refl => exact toLower_toLower _
  | tail _ hlink =>
    obtain ⟨-, -, -, target, -, -, rfl⟩ := hlink
    exact toLower_toLower _

/-- The address of a record of the type and class of a question, at the end of its chain. -/
def Resource.addressAt (q : Question) (e : List UInt8) (r : Resource) : Option NetIP :=
  if r.cls = q.cls ∧ r.body.type = q.type ∧ r.name.lower = e then r.body.ip else none

lemma answerTo_eq {e : List UInt8} (he : toLower e = e) (r : Resource) :
    r.answerTo q e = r.addressAt q e := by
  apply if_congr _ rfl rfl
  rw [equalFold_iff, he, Name.lower]

lemma foldl_addAnswer_fst (q : Question) (e : List UInt8) (answers : List Resource)
    (s : List NetIP × TTL) :
    (answers.foldl (addAnswer q e) s).1 = s.1 ++ answers.filterMap (Resource.answerTo q e) := by
  induction answers generalizing s with
  | nil => simp
  | cons r answers ih =>
    rw [List.foldl_cons, ih, addAnswer]
    cases hr : r.answerTo q e with
    | none => simp [hr]
    | some ip => simp [hr]

/-! ### Acceptance -/

lemma not_conflicting_of_link {cls : UInt16} (hlink : Link m Alias.next = AliasOf cls answers) :
    ¬ Conflicting cls answers := by
  rintro ⟨a, b, c, hb, hc, hne⟩
  rw [← hlink] at hb hc
  exact hne (link_unique hb hc)

lemma chase_eq_none_iff_cyclic {cls : UInt16} (hlink : Link m Alias.next = AliasOf cls answers)
    {start : List UInt8} : chase m Alias.next [] start = none ↔ Cyclic cls answers start := by
  rw [chase_eq_none_iff, hlink, Cyclic]

/-- The answer section is read unless its CNAME records conflict or lead into a cycle. -/
lemma readAnswers_cases (now : Int) (header : Header) (q : Question) (answers : List Resource) :
    (Conflicting q.cls answers ∧
        readAnswers now header q answers = .error "dns: conflicting DNS CNAME targets") ∨
      ¬ Conflicting q.cls answers ∧
        ((Cyclic q.cls answers q.name.lower ∧
            readAnswers now header q answers = .error "dns: DNS CNAME loop") ∨
          ¬ Cyclic q.cls answers q.name.lower ∧ ∃ m passed e,
            collectAliases q.cls ∅ answers = .ok m ∧ Link m Alias.next = AliasOf q.cls answers ∧
            chase m Alias.next [] q.name.lower = some (passed, e) ∧
            readAnswers now header q answers =
              .ok (buildRecord now header q answers passed e)) := by
  rw [readAnswers]
  rcases collectAliases_empty q.cls answers with ⟨m, hm, hlink⟩ | ⟨he, hconflict⟩
  · rw [hm, ← chase_eq_none_iff_cyclic hlink]
    refine .inr ⟨not_conflicting_of_link hlink, ?_⟩
    dsimp only
    cases hchase : chase m Alias.next [] q.name.lower with
    | none => exact .inl ⟨rfl, rfl⟩
    | some p => exact .inr ⟨nofun, m, p.1, p.2, rfl, hlink, hchase, rfl⟩
  · rw [he]
    exact .inl ⟨hconflict, rfl⟩

lemma readAnswers_isOk_iff (now : Int) (header : Header) (q : Question) (answers : List Resource) :
    (∃ r, readAnswers now header q answers = .ok r) ↔
      ¬ Conflicting q.cls answers ∧ ¬ Cyclic q.cls answers q.name.lower := by
  obtain ⟨hc, h⟩ | ⟨hc, ⟨hcyclic, h⟩ | ⟨hcyclic, m, passed, e, -, -, -, h⟩⟩ :=
    readAnswers_cases now header q answers
  · simp [h, hc]
  · simp [h, hcyclic]
  · simp [h, hc, hcyclic]

lemma readAnswers_eq_ok {now : Int} {header : Header}
    {r : IPRecord} (h : readAnswers now header q answers = .ok r) :
    ∃ m passed e, collectAliases q.cls ∅ answers = .ok m ∧
      Link m Alias.next = AliasOf q.cls answers ∧
        chase m Alias.next [] q.name.lower = some (passed, e) ∧
          r = buildRecord now header q answers passed e := by
  obtain ⟨-, h'⟩ | ⟨-, ⟨-, h'⟩ | ⟨-, m, passed, e, hm, hlink, hchase, h'⟩⟩ :=
    readAnswers_cases now header q answers <;> rw [h'] at h <;> cases h
  exact ⟨m, passed, e, hm, hlink, hchase, rfl⟩

lemma endOfChain_of_chase {cls : UInt16}
    (hlink : Link m Alias.next = AliasOf cls answers) {start e : List UInt8} {passed : List Alias}
    (hchase : chase m Alias.next [] start = some (passed, e)) :
    EndOfChain cls answers start e ∧ ∀ e', EndOfChain cls answers start e' → e' = e := by
  obtain ⟨hpath, hend⟩ := chase_eq_some hchase
  refine ⟨⟨hlink ▸ hpath, ?_⟩, ?_⟩
  · intro b hb
    rw [← hlink] at hb
    obtain ⟨v, hv, -⟩ := hb
    rw [hend] at hv
    cases hv
  · rintro e' ⟨hpath', hend'⟩
    rw [← hlink] at hpath' hend'
    refine end_unique hpath' hpath ?_ hend
    by_contra hne
    obtain ⟨v, hv⟩ := Option.ne_none_iff_exists'.mp hne
    exact hend' v.next ⟨v, hv, rfl⟩

lemma ip_of_readAnswers {now : Int} {header : Header}
    {r : IPRecord} (h : readAnswers now header q answers = .ok r) :
    ∃ e, EndOfChain q.cls answers q.name.lower e ∧
      (∀ e', EndOfChain q.cls answers q.name.lower e' → e' = e) ∧
      r.ip = answers.filterMap (Resource.addressAt q e) := by
  obtain ⟨m, passed, e, -, hlink, hchase, rfl⟩ := readAnswers_eq_ok h
  obtain ⟨hend, hunique⟩ := endOfChain_of_chase hlink hchase
  refine ⟨e, hend, hunique, ?_⟩
  show (answers.foldl (addAnswer q e) _).1 = _
  rw [foldl_addAnswer_fst]
  apply List.filterMap_congr
  intro r _
  exact answerTo_eq (toLower_of_reflTransGen hend.1) r

/-- A message that answers a question of a request: its header and its one question match. -/
def Matches (m : Message) (reqHeader : Header) (q : Question) : Prop :=
  m.header.response = true ∧ m.header.id = reqHeader.id ∧ m.header.opCode = reqHeader.opCode ∧
    ∃ q', m.questions = [q'] ∧ q'.name.lower = q.name.lower ∧ q'.type = q.type ∧ q'.cls = q.cls

section Accept

variable {Payload : Type} {P : Parser Payload} {now : Int} {payload : Payload} {m : Message}
variable {req : Option Request} {reqHeader : Header} {q : Question} {rest : List Resource}

lemma parse_eq_readAnswers (hP : P.Faithful) (hm : P.unpack payload = .ok m)
    (hreq : req.bind Request.msg = some ⟨reqHeader, [q], rest⟩) (hmatch : Matches m reqHeader q) :
    parseResponseForRequest P now payload req = readAnswers now m.header q m.answers := by
  obtain ⟨hstart, hquestion⟩ := hP payload m hm
  obtain ⟨hresp, hid, hop, q', hqs, hname, htype, hcls⟩ := hmatch
  have hfold : equalFold q'.name.data q.name.data = true := equalFold_iff.mpr hname
  simp [parseResponseForRequest, hreq, hstart, hquestion, hm, hqs, hresp, hid, hop, hfold, htype,
    hcls, orElseError, ensure, noMoreQuestions, bind, Except.bind]

end Accept

def exampleName (letter : UInt8) (h : letter < 128) : Name :=
  ⟨[letter, 46], by simp [h]⟩

def exampleQuestion : Question := ⟨exampleName 65 (by decide), typeA, 1⟩

def exampleMessage : Message where
  header := ⟨7, true, 0, false, false, true, true, false, false, 0⟩
  questions := [⟨exampleName 97 (by decide), typeA, 1⟩]
  answers := [
    ⟨exampleName 97 (by decide), 1, 60, .cname (exampleName 66 (by decide))⟩,
    ⟨exampleName 99 (by decide), 1, 60, .a #v[10, 0, 0, 9]⟩,
    ⟨exampleName 98 (by decide), 1, 30, .a #v[10, 0, 0, 1]⟩]

def exampleParser : Parser Unit where
  start _ := .ok exampleMessage.header
  question _ i := (exampleMessage.questions[i]?).elim (.error .sectionDone) .ok
  unpack _ := .ok exampleMessage

lemma exampleParser_faithful : exampleParser.Faithful := by
  intro payload m hm
  cases hm
  exact ⟨rfl, fun _ => rfl⟩

def classINET : UInt16 := 1

def ipString (ip : NetIP) : String := ".".intercalate (ip.map fun b => toString b.toNat)

/-- The loop of `probeIPv4Answer` that collects `aliases`. -/
def collectTargets :
    GoMap (List UInt8) (List UInt8) → List Resource →
      Except String (GoMap (List UInt8) (List UInt8))
  | aliases, [] => .ok aliases
  | aliases, answer :: answers =>
    match answer.body with
    | .cname record =>
      if answer.cls = classINET then
        let owner := answer.name.lower
        let target := record.lower
        if (aliases.lookup owner).any (· ≠ target) then
          .error "main: outbound DNS returned conflicting CNAME targets"
        else collectTargets (aliases.insert owner target) answers
      else collectTargets aliases answers
    | _ => collectTargets aliases answers

def Resource.ipv4At (owner : List UInt8) (answer : Resource) : Option NetIP :=
  match answer.body with
  | .a ip =>
    if answer.cls = classINET ∧ equalFold answer.name.data owner = true then some ip.toList
    else none
  | _ => none

def probeIPv4Answer (response : Message) (name : Name) : Except String String :=
  match collectTargets ∅ response.answers with
  | .error e => .error e
  | .ok aliases =>
    match chase aliases id [] name.lower with
    | none => .error "main: outbound DNS returned a CNAME loop"
    | some (_, owner) =>
      match response.answers.findSome? (Resource.ipv4At owner) with
      | some ip => .ok (ipString ip)
      | none => .error "main: outbound DNS response has no IPv4 address for the requested name"

def SameTargets (aliases : GoMap (List UInt8) Alias)
    (targets : GoMap (List UInt8) (List UInt8)) : Prop :=
  ∀ owner, targets.lookup owner = (aliases.lookup owner).map Alias.next

/-- What the collecting loops make of the same answers. -/
inductive SameCollected : Except String (GoMap (List UInt8) Alias) →
    Except String (GoMap (List UInt8) (List UInt8)) → Prop
  | conflict : SameCollected (.error "dns: conflicting DNS CNAME targets")
      (.error "main: outbound DNS returned conflicting CNAME targets")
  | ok {aliases : GoMap (List UInt8) Alias} {targets : GoMap (List UInt8) (List UInt8)}
    (h : SameTargets aliases targets) : SameCollected (.ok aliases) (.ok targets)

variable {aliases : GoMap (List UInt8) Alias} {targets : GoMap (List UInt8) (List UInt8)}
  {answers : List Resource}

lemma SameTargets.insert (h : SameTargets aliases targets) (owner : List UInt8) (r : Alias) :
    SameTargets (aliases.insert owner r) (targets.insert owner r.next) := by
  intro k
  rw [GoMap.lookup_insert_eq, GoMap.lookup_insert_eq, h]
  split_ifs <;> rfl

lemma sameCollected (h : SameTargets aliases targets) :
    SameCollected (collectAliases classINET aliases answers) (collectTargets targets answers) := by
  induction answers generalizing aliases targets with
  | nil => exact .ok h
  | cons answer answers ih =>
    rw [collectAliases, collectTargets]
    cases hbody : answer.body with
    | cname record =>
      dsimp only
      by_cases hcls : answer.cls = classINET
      · rw [if_pos hcls, if_pos hcls, h]
        have hnext := ih (h.insert answer.name.lower ⟨record, answer.ttl⟩)
        cases hprevious : aliases.lookup answer.name.lower with
        | none => exact hnext
        | some previous =>
          dsimp only
          by_cases hfold : equalFold previous.target.data record.data = true
          · have hsame : previous.next = record.lower := equalFold_iff.mp hfold
            rw [if_pos hfold, if_neg (by simp [hsame])]
            exact hnext
          · have hne : previous.next ≠ record.lower := fun hsame =>
              hfold (equalFold_iff.mpr hsame)
            rw [if_neg hfold, if_pos (by simp [hne])]
            exact .conflict
      · rw [if_neg hcls, if_neg hcls]
        exact ih h
    | _ => exact ih h

lemma sameTargets_empty : SameTargets ∅ ∅ := fun _ => rfl

lemma ipv4At_eq (name : Name) (owner : List UInt8) (r : Resource) :
    r.ipv4At owner = r.answerTo ⟨name, typeA, classINET⟩ owner := by
  rw [Resource.ipv4At, Resource.answerTo]
  cases hbody : r.body with
  | a ip => simp [Body.type, Body.ip]
  | aaaa ip => simp [Body.type, typeAAAA, typeA]
  | cname target => simp [Body.type, typeCNAME, typeA]
  | other type h => simp [Body.type, h.1]

/-- What the two functions make of the same answer section. -/
lemma readAnswers_probeIPv4Answer (now : Int) (m : Message) (name : Name) :
    (∃ r, readAnswers now m.header ⟨name, typeA, classINET⟩ m.answers = .ok r ∧
      probeIPv4Answer m name = r.ip.head?.elim
        (.error "main: outbound DNS response has no IPv4 address for the requested name")
        (fun ip => .ok (ipString ip))) ∨
    (readAnswers now m.header ⟨name, typeA, classINET⟩ m.answers =
        .error "dns: conflicting DNS CNAME targets" ∧
      probeIPv4Answer m name =
        .error "main: outbound DNS returned conflicting CNAME targets") ∨
    (readAnswers now m.header ⟨name, typeA, classINET⟩ m.answers =
        .error "dns: DNS CNAME loop" ∧
      probeIPv4Answer m name = .error "main: outbound DNS returned a CNAME loop") := by
  have hcollected : SameCollected (collectAliases classINET ∅ m.answers)
      (collectTargets ∅ m.answers) := sameCollected sameTargets_empty
  rw [readAnswers, probeIPv4Answer]
  generalize collectAliases classINET ∅ m.answers = x at hcollected ⊢
  generalize collectTargets ∅ m.answers = y at hcollected ⊢
  cases hcollected with
  | conflict => exact .inr (.inl ⟨rfl, rfl⟩)
  | @ok aliases targets h =>
    have hchase : chase targets id [] name.lower =
        (chase aliases Alias.next [] name.lower).map fun r => (r.1.map Alias.next, r.2) :=
      chase_map h (fun _ => rfl) [] name.lower
    dsimp only
    rw [hchase]
    cases chase aliases Alias.next [] name.lower with
    | none => exact .inr (.inr ⟨rfl, rfl⟩)
    | some p =>
      obtain ⟨passed, owner⟩ := p
      have hip : (buildRecord now m.header ⟨name, typeA, classINET⟩ m.answers passed owner).ip =
          m.answers.filterMap (Resource.ipv4At owner) := by
        rw [buildRecord, foldl_addAnswer_fst]
        exact List.filterMap_congr fun r _ => (ipv4At_eq name owner r).symm
      refine .inl ⟨_, rfl, ?_⟩
      rw [hip, List.head?_filterMap]
      dsimp only [Option.map_some]
      cases m.answers.findSome? (Resource.ipv4At owner) <;> rfl

section Agree

variable {Payload : Type} {P : Parser Payload} {now : Int} {payload : Payload} {m : Message}
  {req : Option Request} {reqHeader : Header} {name : Name} {rest : List Resource}

/-- For every response that matches a request for A records the two functions agree: the probe
returns an address exactly if the response is accepted and has one, namely the first; and it fails
for the same reason if the CNAME records conflict or lead into a cycle. -/
theorem probeIPv4Answer_agrees (hP : P.Faithful) (hm : P.unpack payload = .ok m)
    (hreq : req.bind Request.msg = some ⟨reqHeader, [⟨name, typeA, classINET⟩], rest⟩)
    (hmatch : Matches m reqHeader ⟨name, typeA, classINET⟩) :
    (∀ address, probeIPv4Answer m name = .ok address ↔
      ∃ r ip ips, parseResponseForRequest P now payload req = .ok r ∧ r.ip = ip :: ips ∧
        address = ipString ip) ∧
    (parseResponseForRequest P now payload req = .error "dns: conflicting DNS CNAME targets" →
      probeIPv4Answer m name = .error "main: outbound DNS returned conflicting CNAME targets") ∧
    (parseResponseForRequest P now payload req = .error "dns: DNS CNAME loop" →
      probeIPv4Answer m name = .error "main: outbound DNS returned a CNAME loop") := by
  rw [parse_eq_readAnswers hP hm hreq hmatch]
  obtain ⟨r, hr, hprobe⟩ | ⟨hr, hprobe⟩ | ⟨hr, hprobe⟩ := readAnswers_probeIPv4Answer now m name
  · rw [hr, hprobe]
    refine ⟨fun address => ?_, nofun, nofun⟩
    cases hip : r.ip with
    | nil => simp [hip]
    | cons ip ips => simp [hip, eq_comm]
  · rw [hr, hprobe]
    exact ⟨fun address => by simp, fun _ => rfl, by simp⟩
  · rw [hr, hprobe]
    exact ⟨fun address => by simp, by simp, fun _ => rfl⟩

/-- The probe for `A.` finds the address of `b.`, the only one of the record. -/
theorem probeIPv4Answer_agrees_example :
    let req : Request := ⟨some ⟨exampleMessage.header, [exampleQuestion], []⟩⟩
    probeIPv4Answer exampleMessage exampleQuestion.name = .ok "10.0.0.1" ∧
      ∃ r ip ips, parseResponseForRequest exampleParser 0 () (some req) = .ok r ∧
        r.ip = ip :: ips ∧ "10.0.0.1" = ipString ip := by
  have hmatch : Matches exampleMessage exampleMessage.header exampleQuestion :=
    ⟨rfl, rfl, rfl, _, rfl, rfl, rfl, rfl⟩
  have hprobe : probeIPv4Answer exampleMessage exampleQuestion.name = .ok "10.0.0.1" := by
    have hcollect : collectTargets ∅ exampleMessage.answers =
        .ok ((∅ : GoMap _ _).insert [97, 46] [98, 46]) := rfl
    rw [probeIPv4Answer, hcollect]
    dsimp only
    rw [chase_of_some (v := [98, 46]) (by simp) rfl, chase_of_none (by decide) rfl]
    rfl
  exact ⟨hprobe, ((probeIPv4Answer_agrees exampleParser_faithful rfl rfl hmatch).1 _).mp hprobe⟩

end Agree

end BypassCore.DNS
