import BypassCore.Geodata.StrMatcher.AC.Basic

/-!
# Static hosts

`app/dns/hosts.go`: a table of rules, each with addresses, a replacement domain or a response code.
A lookup asks the matcher for the rules of a domain and puts their addresses together; when that
gives one replacement domain only, it is looked up in turn, up to five times.
-/

namespace BypassCore.DNS.Hosts

open Lib Function

abbrev Name := List UInt8

/-- `net.Address`, with the response code that is one of its implementations. -/
inductive Address
  | ipv4 (ip : List UInt8)
  | ipv6 (ip : List UInt8)
  | domain (name : Name)
  | rcode (code : UInt16)
  deriving DecidableEq

/-- `net.IPAddress`: an IPv4 address that is mapped into IPv6 is one of IPv4. -/
def ipAddress (ip : List UInt8) : Option Address :=
  if ip.length = 4 then some (.ipv4 ip)
  else if ip.length = 16 then
    if ip.take 10 = List.replicate 10 0 ∧ ip[10]? = some 0xff ∧ ip[11]? = some 0xff then
      some (.ipv4 (ip.drop 12))
    else some (.ipv6 ip)
  else none

structure HostMapping (Rule : Type*) where
  domain : Rule
  ip : List (List UInt8)
  proxiedDomain : Name

inductive ConfigError (ε : Type*)
  | atoi (text : List UInt8)
  | matcher (err : ε)

structure StaticHosts where
  responses : List (List Address)
  matcher : Option (Name → List Nat)

def response {Rule ε : Type*} (mapping : HostMapping Rule) :
    Except (ConfigError ε) (List Address) :=
  match mapping.proxiedDomain with
  | 0x23 :: code =>
    match GoBytes.atoi code with
    | none => .error (.atoi code)
    | some rcode => .ok [.rcode (UInt16.ofInt rcode)]
  | [] => .ok (mapping.ip.filterMap ipAddress)
  | proxied => .ok [.domain proxied]

/-- `NewStaticHosts`, with the function that builds a matcher for some rules. -/
def newStaticHosts {Rule ε : Type} (buildDomainMatcher : List Rule → Except ε (Name → List Nat))
    (hosts : List (HostMapping Rule)) : Except (ConfigError ε) StaticHosts := do
  let responses ← hosts.mapM response
  if hosts.length = 0 then return ⟨[], none⟩
  match buildDomainMatcher (hosts.map HostMapping.domain) with
  | .error e => .error (.matcher e)
  | .ok matcher => .ok ⟨responses, some matcher⟩

/-- `dns.IPOption`, as far as it is read here. -/
structure IPOption where
  ipv4Enable : Bool
  ipv6Enable : Bool

def IPOption.enables (option : IPOption) : Address → Bool
  | .ipv4 _ => option.ipv4Enable
  | .ipv6 _ => option.ipv6Enable
  | _ => false

def filterIP (option : IPOption) (ips : List Address) : List Address := ips.filter option.enables

inductive LookupError
  | emptyResponse
  | rcode (code : UInt16)
  deriving DecidableEq

def errorOf (code : UInt16) : LookupError := if code = 0 then .emptyResponse else .rcode code

/-- What a lookup returns; the slice is nil for a domain that is not recorded. -/
abbrev Result := Except LookupError (Option (List Address))

def firstRCode (addrs : List Address) : Option UInt16 :=
  addrs.findSome? fun
    | .rcode code => some code
    | _ => none

section Lookup

variable (responses : List (List Address)) (matcher : Name → List Nat) (toLower : Name → Name)
  (option : IPOption)

def addressesOf (idx : Nat) : List Address := responses.getD idx []

def collect : List Nat → Except LookupError (List Address)
  | [] => .ok []
  | idx :: rest =>
    match firstRCode (addressesOf responses idx) with
    | some code => .error (errorOf code)
    | none => (collect rest).map (addressesOf responses idx ++ ·)

def lookupInternal (domain : Name) : Result :=
  match matcher domain with
  | [] => .ok none
  | matched => (collect responses matched).map some

inductive Found
  | error (err : LookupError)
  | absent
  | answer (addrs : List Address)
  | replaced (name : Name)

def find (domain : Name) : Found :=
  match lookupInternal responses matcher domain with
  | .error err => .error err
  | .ok none => .absent
  | .ok (some []) => .answer []
  | .ok (some [.domain name]) => .replaced name
  | .ok (some addrs) => .answer (filterIP option addrs)

/-- The end of `lookup`, with the function that unwraps a replacement domain. -/
def Found.result (unwrap : Name → Result) : Found → Result
  | .error err => .error err
  | .absent => .ok none
  | .answer addrs => .ok (some addrs)
  | .replaced name => (unwrap name).map fun unwrapped => some (unwrapped.getD [.domain name])

/-- `lookup`; at depth zero nothing is unwrapped. -/
def lookup : Nat → Name → Result
  | 0, domain => (find responses matcher option (toLower domain)).result fun _ => .ok none
  | maxDepth + 1, domain =>
    (find responses matcher option (toLower domain)).result (lookup maxDepth)

end Lookup

def StaticHosts.lookup (h : StaticHosts) (toLower : Name → Name) (domain : Name)
    (option : IPOption) : Result :=
  match h.matcher with
  | none => .ok none
  | some matcher => Hosts.lookup h.responses matcher toLower option 5 domain

/-!
## Lookups and the reports of the matcher

A matcher may report a rule more than once and in any order. What a lookup finds is described in
terms of the rules of a domain and of the report that the matcher gives for it.
-/

open List

variable {responses : List (List Address)} {S : Name → Finset Nat} {matcher : Name → List Nat}
  {toLower : Name → Name} {option : IPOption} {matched : List Nat} {domain name : Name}

/-- The matcher reports these rules, in any order and any number of times. -/
def Reports (S : Name → Finset Nat) (matcher : Name → List Nat) : Prop :=
  ∀ domain idx, idx ∈ matcher domain ↔ idx ∈ S domain

def NoRCode (responses : List (List Address)) (rules : Finset Nat) : Prop :=
  ∀ idx ∈ rules, firstRCode (addressesOf responses idx) = none

/-- Some rule of the domain is a response code, and all that are have the same one. -/
def UniqueRCode (responses : List (List Address)) (rules : Finset Nat) : Prop :=
  ∃ code, (∃ idx ∈ rules, firstRCode (addressesOf responses idx) = some code) ∧
    ∀ idx ∈ rules, ∀ code', firstRCode (addressesOf responses idx) = some code' → code' = code

/-- The only address among the rules of the domain is this replacement. -/
def Sole (responses : List (List Address)) (rules : Finset Nat) (name : Name) : Prop :=
  ∃ idx ∈ rules, addressesOf responses idx = [.domain name] ∧
    ∀ idx' ∈ rules, idx' ≠ idx → addressesOf responses idx' = []

/-- The domain is recorded, and every way to look it up ends without an address. -/
def Empties (responses : List (List Address)) (S : Name → Finset Nat) (toLower : Name → Name)
    (option : IPOption) : Nat → Name → Prop
  | 0, domain => S domain ≠ ∅ ∧ NoRCode responses (S domain) ∧
      (∀ idx ∈ S domain, ∀ addr ∈ addressesOf responses idx, option.enables addr = false) ∧
      ∀ name, ¬ Sole responses (S domain) name
  | maxDepth + 1, domain => S domain ≠ ∅ ∧ NoRCode responses (S domain) ∧
      (∀ idx ∈ S domain, ∀ addr ∈ addressesOf responses idx, option.enables addr = false) ∧
      ∀ name, Sole responses (S domain) name →
        Empties responses S toLower option maxDepth (toLower name)

abbrev addressesOfAll (responses : List (List Address)) (matched : List Nat) : List Address :=
  matched.flatMap (addressesOf responses)

lemma collect_of_noRCode (h : ∀ idx ∈ matched, firstRCode (addressesOf responses idx) = none) :
    collect responses matched = .ok (addressesOfAll responses matched) := by
  induction matched with
  | nil => rfl
  | cons idx rest ih =>
    rw [forall_mem_cons] at h
    simp [collect, h.1, ih h.2, Except.map]

variable {idx : Nat} {code : UInt16}

lemma collect_of_rcode (hidx : idx ∈ matched)
    (hcode : firstRCode (addressesOf responses idx) = some code) :
    ∃ idx' ∈ matched, ∃ code', firstRCode (addressesOf responses idx') = some code' ∧
      collect responses matched = .error (errorOf code') := by
  induction matched with
  | nil => cases hidx
  | cons first rest ih =>
    cases hfirst : firstRCode (addressesOf responses first) with
    | some code' =>
      exact ⟨first, mem_cons_self, code', hfirst, by simp [collect, hfirst]⟩
    | none =>
      have hrest : idx ∈ rest := by
        rcases mem_cons.mp hidx with rfl | hrest
        · rw [hfirst] at hcode
          cases hcode
        · exact hrest
      obtain ⟨idx', hmem, code', hcode', hcollect⟩ := ih hrest
      exact ⟨idx', mem_cons_of_mem _ hmem, code', hcode',
        by simp [collect, hfirst, hcollect, Except.map]⟩

/-- A single address comes from one rule, and the others have none. -/
lemma sole_of_addressesOfAll {rules : Finset Nat} (hrules : ∀ idx, idx ∈ matched ↔ idx ∈ rules)
    (h : addressesOfAll responses matched = [.domain name]) : Sole responses rules name := by
  obtain ⟨idx, hidx, haddr⟩ : ∃ idx ∈ matched, Address.domain name ∈ addressesOf responses idx := by
    have hmem : Address.domain name ∈ addressesOfAll responses matched := by simp [h]
    exact mem_flatMap.mp hmem
  obtain ⟨before, after, rfl⟩ := append_of_mem hidx
  have hlen := congrArg List.length h
  simp only [flatMap_append, flatMap_cons, length_append, length_singleton] at hlen
  have hpos := length_pos_of_mem haddr
  refine ⟨idx, (hrules idx).mp hidx, ?_, ?_⟩
  · obtain ⟨addr, haddr'⟩ := length_eq_one_iff.mp
      (show (addressesOf responses idx).length = 1 by omega)
    rw [haddr', mem_singleton] at haddr
    rw [haddr', haddr]
  · intro idx' hidx' hne
    have hnil : ∀ l : List Nat, (l.flatMap (addressesOf responses)).length = 0 → idx' ∈ l →
        addressesOf responses idx' = [] := fun l hl hmem =>
      flatMap_eq_nil_iff.mp (length_eq_zero_iff.mp hl) idx' hmem
    rcases mem_append.mp ((hrules idx').mpr hidx') with hmem | hmem
    · exact hnil before (by omega) hmem
    · rcases mem_cons.mp hmem with heq | hmem
      · exact absurd heq hne
      · exact hnil after (by omega) hmem

/-- When no rule is reported twice, a sole replacement is the single address. -/
lemma addressesOfAll_of_sole {rules : Finset Nat} (hrules : ∀ idx, idx ∈ matched ↔ idx ∈ rules)
    (hnodup : matched.Nodup) (h : Sole responses rules name) :
    addressesOfAll responses matched = [.domain name] := by
  obtain ⟨idx, hidx, haddr, hothers⟩ := h
  obtain ⟨before, after, rfl⟩ := append_of_mem ((hrules idx).mpr hidx)
  have hnil : ∀ l : List Nat, (∀ idx' ∈ l, idx' ∈ rules ∧ idx' ≠ idx) →
      l.flatMap (addressesOf responses) = [] := fun l hl =>
    flatMap_eq_nil_iff.mpr fun idx' hmem => hothers idx' (hl idx' hmem).1 (hl idx' hmem).2
  rw [nodup_middle, nodup_cons, mem_append, not_or] at hnodup
  rw [addressesOfAll, flatMap_append, flatMap_cons, haddr, hnil before, hnil after]
  · rfl
  · intro idx' hmem
    exact ⟨(hrules idx').mp (by simp [hmem]), fun heq => hnodup.1.2 (heq ▸ hmem)⟩
  · intro idx' hmem
    exact ⟨(hrules idx').mp (by simp [hmem]), fun heq => hnodup.1.1 (heq ▸ hmem)⟩

lemma find_absent (h : matcher domain = []) : find responses matcher option domain = .absent := by
  simp [find, lookupInternal, h]

lemma lookupInternal_of_ne_nil (h : matcher domain ≠ []) :
    lookupInternal responses matcher domain = (collect responses (matcher domain)).map some := by
  rw [lookupInternal]
  split
  · contradiction
  · rfl

/-- Which error is found: that of some rule, and that of any rule that is reported first. -/
lemma find_error (hidx : idx ∈ matcher domain)
    (hcode : firstRCode (addressesOf responses idx) = some code) :
    ∃ idx' ∈ matcher domain, ∃ code', firstRCode (addressesOf responses idx') = some code' ∧
      find responses matcher option domain = .error (errorOf code') := by
  obtain ⟨idx', hmem, code', hcode', hcollect⟩ := collect_of_rcode hidx hcode
  refine ⟨idx', hmem, code', hcode', ?_⟩
  rw [find, lookupInternal_of_ne_nil (ne_nil_of_mem hidx), hcollect]
  rfl

lemma find_error_of_first {rest : List Nat} (h : matcher domain = idx :: rest)
    (hcode : firstRCode (addressesOf responses idx) = some code) :
    find responses matcher option domain = .error (errorOf code) := by
  simp [find, lookupInternal, h, collect, hcode, Except.map]

section NoRCode

variable (hne : matcher domain ≠ [])
  (hnone : ∀ idx ∈ matcher domain, firstRCode (addressesOf responses idx) = none)

include hne hnone

lemma find_replaced (h : addressesOfAll responses (matcher domain) = [.domain name]) :
    find responses matcher option domain = .replaced name := by
  rw [find, lookupInternal_of_ne_nil hne, collect_of_noRCode hnone, h]
  rfl

lemma find_answer (h : ∀ name, addressesOfAll responses (matcher domain) ≠ [.domain name]) :
    find responses matcher option domain =
      .answer (filterIP option (addressesOfAll responses (matcher domain))) := by
  rw [find, lookupInternal_of_ne_nil hne, collect_of_noRCode hnone]
  revert h
  generalize addressesOfAll responses (matcher domain) = addrs
  intro h
  match addrs, h with
  | [], _ => rfl
  | [.domain name], h => exact absurd rfl (h name)
  | [.ipv4 _], _ => rfl
  | [.ipv6 _], _ => rfl
  | [.rcode _], _ => rfl
  | first :: _ :: _, _ => cases first <;> rfl

end NoRCode

section Found

variable (maxDepth : Nat)

lemma lookup_of_error {err : LookupError}
    (h : find responses matcher option (toLower domain) = .error err) :
    lookup responses matcher toLower option maxDepth domain = .error err := by
  cases maxDepth <;> simp [lookup, h, Found.result]

lemma lookup_of_absent (h : find responses matcher option (toLower domain) = .absent) :
    lookup responses matcher toLower option maxDepth domain = .ok none := by
  cases maxDepth <;> simp [lookup, h, Found.result]

lemma lookup_of_answer {addrs : List Address}
    (h : find responses matcher option (toLower domain) = .answer addrs) :
    lookup responses matcher toLower option maxDepth domain = .ok (some addrs) := by
  cases maxDepth <;> simp [lookup, h, Found.result]

/-- A replacement gives an empty answer only when its own lookup does. -/
lemma lookup_of_replaced (h : find responses matcher option (toLower domain) = .replaced name) :
    lookup responses matcher toLower option maxDepth domain = .ok (some []) ↔
      ∃ depth, maxDepth = depth + 1 ∧
        lookup responses matcher toLower option depth name = .ok (some []) := by
  cases maxDepth with
  | zero => simp [lookup, h, Found.result, Except.map]
  | succ depth =>
    simp only [lookup, h, Found.result, Nat.add_right_cancel_iff, exists_eq_left']
    rcases lookup responses matcher toLower option depth name with err | _ | addrs <;>
      simp [Except.map]

end Found

/-! ### Empty answers -/

lemma empties_iff {maxDepth : Nat} :
    Empties responses S toLower option maxDepth domain ↔
      S domain ≠ ∅ ∧ NoRCode responses (S domain) ∧
      (∀ idx ∈ S domain, ∀ addr ∈ addressesOf responses idx, option.enables addr = false) ∧
      ∀ name, Sole responses (S domain) name → ∃ depth, maxDepth = depth + 1 ∧
        Empties responses S toLower option depth (toLower name) := by
  cases maxDepth <;> simp [Empties]

section Reports

variable (hm : Reports S matcher)
include hm

lemma Reports.mem_addressesOfAll {addr : Address} :
    addr ∈ addressesOfAll responses (matcher domain) ↔
      ∃ idx ∈ S domain, addr ∈ addressesOf responses idx := by
  simp [hm domain]

lemma Reports.noRCode (h : NoRCode responses (S domain)) :
    ∀ idx ∈ matcher domain, firstRCode (addressesOf responses idx) = none :=
  fun idx hidx => h idx ((hm domain idx).mp hidx)

lemma Reports.ne_nil_iff : matcher domain ≠ [] ↔ S domain ≠ ∅ := by
  rw [← Finset.nonempty_iff_ne_empty]
  constructor
  · intro h
    obtain ⟨idx, hidx⟩ := exists_mem_of_ne_nil _ h
    exact ⟨idx, (hm domain idx).mp hidx⟩
  · rintro ⟨idx, hidx⟩
    exact ne_nil_of_mem ((hm domain idx).mpr hidx)

lemma Reports.eq_nil (h : S domain = ∅) : matcher domain = [] := by
  by_contra hne
  exact hm.ne_nil_iff.mp hne h

lemma Reports.find_cases (option : IPOption) (hne : S domain ≠ ∅)
    (hnone : NoRCode responses (S domain)) :
    (∃ name, addressesOfAll responses (matcher domain) = [.domain name] ∧
      find responses matcher option domain = .replaced name) ∨
    (∀ name, addressesOfAll responses (matcher domain) ≠ [.domain name]) ∧
      find responses matcher option domain =
        .answer (filterIP option (addressesOfAll responses (matcher domain))) := by
  have hne' := hm.ne_nil_iff.mpr hne
  have hnone' := hm.noRCode hnone
  by_cases h : ∃ name, addressesOfAll responses (matcher domain) = [.domain name]
  · obtain ⟨name, h⟩ := h
    exact .inl ⟨name, h, find_replaced hne' hnone' h⟩
  · have h' : ∀ name, addressesOfAll responses (matcher domain) ≠ [.domain name] :=
      fun name heq => h ⟨name, heq⟩
    exact .inr ⟨h', find_answer hne' hnone' h'⟩

/-- No IP is asked for among the rules, so the filter leaves nothing. -/
lemma Reports.filterIP_eq_nil_iff :
    filterIP option (addressesOfAll responses (matcher domain)) = [] ↔
      ∀ idx ∈ S domain, ∀ addr ∈ addressesOf responses idx, option.enables addr = false := by
  simp only [filterIP, filter_eq_nil_iff, hm.mem_addressesOfAll, Bool.not_eq_true]
  constructor
  · intro h idx hidx addr haddr
    exact h addr ⟨idx, hidx, haddr⟩
  · rintro h addr ⟨idx, hidx, haddr⟩
    exact h idx hidx addr haddr

lemma Empties.lookup_eq {maxDepth : Nat}
    (h : Empties responses S toLower option maxDepth (toLower domain)) :
    lookup responses matcher toLower option maxDepth domain = .ok (some []) := by
  induction maxDepth using Nat.strong_induction_on generalizing domain with
  | _ maxDepth ih =>
    obtain ⟨hne, hnone, hoff, hsole⟩ := empties_iff.mp h
    rcases hm.find_cases option hne hnone with ⟨name, hall, hfind⟩ | ⟨-, hfind⟩
    · obtain ⟨depth, rfl, hempties⟩ := hsole name (sole_of_addressesOfAll (hm _) hall)
      exact (lookup_of_replaced _ hfind).mpr ⟨depth, rfl, ih depth (Nat.lt_succ_self _) hempties⟩
    · rw [hm.filterIP_eq_nil_iff.mpr hoff] at hfind
      exact lookup_of_answer _ hfind

/-- If every rule is reported once and the answer is empty, it is empty for every report. -/
lemma empties_of_lookup (hnodup : ∀ domain, (matcher domain).Nodup) {maxDepth : Nat}
    (h : lookup responses matcher toLower option maxDepth domain = .ok (some [])) :
    Empties responses S toLower option maxDepth (toLower domain) := by
  induction maxDepth using Nat.strong_induction_on generalizing domain with
  | _ maxDepth ih =>
    have hne : S (toLower domain) ≠ ∅ := by
      intro hempty
      rw [lookup_of_absent _ (find_absent (hm.eq_nil hempty))] at h
      cases h
    have hnone : NoRCode responses (S (toLower domain)) := by
      intro idx hidx
      by_contra hcode
      obtain ⟨code, hcode⟩ := Option.ne_none_iff_exists'.mp hcode
      obtain ⟨_, _, code', _, hfind⟩ := find_error ((hm _ idx).mpr hidx) hcode
      rw [lookup_of_error _ hfind] at h
      cases h
    refine empties_iff.mpr ⟨hne, hnone, ?_⟩
    rcases hm.find_cases option hne hnone with ⟨name, hall, hfind⟩ | ⟨hall, hfind⟩
    · refine ⟨hm.filterIP_eq_nil_iff.mp (by rw [hall]; rfl), ?_⟩
      intro name' hsole
      obtain rfl : name' = name := by
        have := (addressesOfAll_of_sole (hm _) (hnodup _) hsole).symm.trans hall
        cases this
        rfl
      obtain ⟨depth, rfl, hdepth⟩ := (lookup_of_replaced _ hfind).mp h
      exact ⟨depth, rfl, ih depth (Nat.lt_succ_self _) hdepth⟩
    · rw [lookup_of_answer _ hfind] at h
      refine ⟨hm.filterIP_eq_nil_iff.mp (Option.some.inj (Except.ok.inj h)), ?_⟩
      intro name hsole
      exact absurd (addressesOfAll_of_sole (hm _) (hnodup _) hsole) (hall name)

end Reports

/-!
## Lookups that depend only on the rules

Lookups count what is reported, so a replacement domain that is reported twice is no longer a single
address: it is filtered out like any address that is not an IP. The results depend only on which
rules match where the replacement would have led to the same empty answer.
-/

open List

variable {r : List Address → List Address → Prop}

/-- Two results are the same, up to a relation on the addresses. -/
def Same (r : List Address → List Address → Prop) : Result → Result → Prop
  | .error err, .error err' => err = err'
  | .ok none, .ok none => True
  | .ok (some addrs), .ok (some addrs') => r addrs addrs'
  | _, _ => False

/-- The same addresses, however often. -/
def SameMembers (addrs addrs' : List Address) : Prop := ∀ addr, addr ∈ addrs ↔ addr ∈ addrs'

/-- The lookup of a domain depends only on which rules the matcher reports. -/
def DependsOnRules (r : List Address → List Address → Prop) (responses : List (List Address))
    (S : Name → Finset Nat) (toLower : Name → Name) (option : IPOption) (domain : Name) : Prop :=
  ∀ matcher matcher', Reports S matcher → Reports S matcher' →
    Same r ((⟨responses, some matcher⟩ : StaticHosts).lookup toLower domain option)
      ((⟨responses, some matcher'⟩ : StaticHosts).lookup toLower domain option)

noncomputable def once (S : Name → Finset Nat) (domain : Name) : List Nat := (S domain).toList

lemma reports_once (S : Name → Finset Nat) : Reports S (once S) := by
  intro domain idx
  exact Finset.mem_toList

lemma Reports.update (hm : Reports S matcher) (h : ∀ idx, idx ∈ matched ↔ idx ∈ S domain) :
    Reports S (update matcher domain matched) := by
  intro domain' idx
  by_cases heq : domain' = domain
  · subst heq
    rw [update_self]
    exact h idx
  · rw [update_of_ne heq]
    exact hm domain' idx

lemma errorOf_injective : Function.Injective errorOf := by
  intro code code' h
  simp only [errorOf] at h
  split_ifs at h with h0 h0'
  · rw [h0, h0']
  · exact LookupError.rcode.inj h

lemma lookup_of_first (option : IPOption) (maxDepth : Nat) {idx : Nat} {code : UInt16}
    (hidx : idx ∈ S (toLower domain)) (hcode : firstRCode (addressesOf responses idx) = some code) :
    ∃ matcher, Reports S matcher ∧
      lookup responses matcher toLower option maxDepth domain = .error (errorOf code) := by
  refine ⟨update (once S) (toLower domain) (idx :: once S (toLower domain)),
    (reports_once S).update ?_,
    lookup_of_error _ (find_error_of_first (update_self _ _ _) hcode)⟩
  intro idx'
  rw [mem_cons, reports_once S]
  exact ⟨fun h => h.elim (fun heq => heq ▸ hidx) id, Or.inr⟩

lemma DependsOnRules.noRCode_or_uniqueRCode
    (h : DependsOnRules r responses S toLower option domain) :
    NoRCode responses (S (toLower domain)) ∨ UniqueRCode responses (S (toLower domain)) := by
  by_cases hnone : NoRCode responses (S (toLower domain))
  · exact .inl hnone
  · simp only [NoRCode, not_forall] at hnone
    obtain ⟨idx, hidx, hsome⟩ := hnone
    obtain ⟨code, hcode⟩ := Option.ne_none_iff_exists'.mp hsome
    refine .inr ⟨code, ⟨idx, hidx, hcode⟩, ?_⟩
    intro idx' hidx' code' hcode'
    obtain ⟨matcher, hm, hlookup⟩ := lookup_of_first option 5 hidx hcode
    obtain ⟨matcher', hm', hlookup'⟩ := lookup_of_first option 5 hidx' hcode'
    have hsame := h matcher' matcher hm' hm
    simp only [StaticHosts.lookup, hlookup, hlookup'] at hsame
    exact errorOf_injective hsame

/-- With every rule reported twice nothing is a single replacement. -/
lemma lookup_twice (option : IPOption) (maxDepth : Nat) (hne : S (toLower domain) ≠ ∅)
    (hnone : NoRCode responses (S (toLower domain))) :
    ∃ matcher, Reports S matcher ∧ lookup responses matcher toLower option maxDepth domain =
      .ok (some (filterIP option (addressesOfAll responses (once S (toLower domain))) ++
        filterIP option (addressesOfAll responses (once S (toLower domain))))) := by
  let twice := once S (toLower domain) ++ once S (toLower domain)
  have hm : Reports S (update (once S) (toLower domain) twice) := by
    refine (reports_once S).update fun idx => ?_
    rw [mem_append, or_self, reports_once S]
  refine ⟨_, hm, ?_⟩
  have hall : addressesOfAll responses (update (once S) (toLower domain) twice
      (toLower domain)) = addressesOfAll responses (once S (toLower domain)) ++
        addressesOfAll responses (once S (toLower domain)) := by
    rw [update_self, addressesOfAll, flatMap_append]
  rcases hm.find_cases option hne hnone with ⟨name, hsingle, -⟩ | ⟨-, hfind⟩
  · -- an address that is there twice is not single
    rw [hall] at hsingle
    have := congrArg List.length hsingle
    rw [length_append, length_singleton] at this
    omega
  · rw [lookup_of_answer _ hfind, hall, filterIP, filter_append]
    rfl

lemma eq_of_same_nil (hr : ∀ addrs, r addrs [] → addrs = []) {result : Result}
    (h : Same r result (.ok (some []))) : result = .ok (some []) := by
  rcases result with err | _ | addrs
  · cases h
  · cases h
  · rw [hr addrs h]

/-- If the reports do not matter, a sole replacement leads to an empty answer. -/
lemma DependsOnRules.empties (h : DependsOnRules r responses S toLower option domain)
    (hr : ∀ addrs, r addrs [] → addrs = []) (hne : S (toLower domain) ≠ ∅)
    (hnone : NoRCode responses (S (toLower domain)))
    (hempty : filterIP option (addressesOfAll responses (once S (toLower domain))) = []) :
    Empties responses S toLower option 5 (toLower domain) := by
  obtain ⟨matcher, hm, hlookup⟩ := lookup_twice option 5 hne hnone
  rw [hempty] at hlookup
  have hsame := h (once S) matcher (reports_once S) hm
  simp only [StaticHosts.lookup, hlookup] at hsame
  exact empties_of_lookup (reports_once S) (fun _ => Finset.nodup_toList _)
    (eq_of_same_nil hr hsame)

/-- Reports that do not matter at all: nothing is recorded, or there is one error. -/
lemma dependsOnRules_of_fixed (hr : ∀ addrs, r addrs addrs)
    (h : ∃ result, ∀ matcher, Reports S matcher →
      lookup responses matcher toLower option 5 domain = result) :
    DependsOnRules r responses S toLower option domain := by
  obtain ⟨result, h⟩ := h
  intro matcher matcher' hm hm'
  simp only [StaticHosts.lookup, h matcher hm, h matcher' hm']
  rcases result with err | _ | addrs
  · rfl
  · trivial
  · exact hr addrs

lemma lookup_fixed (h : S (toLower domain) = ∅ ∨ UniqueRCode responses (S (toLower domain)) ∨
      Empties responses S toLower option 5 (toLower domain)) :
    ∃ result, ∀ matcher, Reports S matcher →
      lookup responses matcher toLower option 5 domain = result := by
  rcases h with hempty | ⟨code, ⟨idx, hidx, hcode⟩, hunique⟩ | hempties
  · exact ⟨_, fun matcher hm => lookup_of_absent _ (find_absent (hm.eq_nil hempty))⟩
  · refine ⟨.error (errorOf code), fun matcher hm => lookup_of_error _ ?_⟩
    obtain ⟨idx', hidx', code', hcode', hfind⟩ := find_error ((hm _ idx).mpr hidx) hcode
    rw [hfind, hunique idx' ((hm _ idx').mp hidx') code' hcode']
  · exact ⟨_, fun matcher hm => hempties.lookup_eq hm⟩

lemma dependsOnRules_of_not_sole (hnone : NoRCode responses (S (toLower domain)))
    (hsole : ∀ name, ¬ Sole responses (S (toLower domain)) name) :
    DependsOnRules SameMembers responses S toLower option domain := by
  by_cases hne : S (toLower domain) = ∅
  · exact dependsOnRules_of_fixed (fun _ _ => Iff.rfl) (lookup_fixed (.inl hne))
  have hlookup {matcher : Name → List Nat} (hm : Reports S matcher) :
      lookup responses matcher toLower option 5 domain =
        .ok (some (filterIP option (addressesOfAll responses (matcher (toLower domain))))) := by
    rcases hm.find_cases option hne hnone with ⟨name, hall, -⟩ | ⟨-, hfind⟩
    · exact absurd (sole_of_addressesOfAll (hm _) hall) (hsole name)
    · exact lookup_of_answer _ hfind
  intro matcher matcher' hm hm'
  simp only [StaticHosts.lookup, hlookup hm, hlookup hm']
  intro addr
  simp only [filterIP, mem_filter, hm.mem_addressesOfAll, hm'.mem_addressesOfAll]

/-- **Static hosts and the matcher.** The lookup of a domain depends only on which rules match, up
to the order of the addresses, exactly when no rule matches, when there is a response code and only
one, or when every way to look the domain up ends without an address. If the number of times that
an address is returned does not count either, it is enough that there is no response code and that
the only address among the rules is not a replacement. -/
theorem dependsOnRules_iff (responses : List (List Address)) (S : Name → Finset Nat)
    (toLower : Name → Name) (option : IPOption) (domain : Name) :
    (DependsOnRules List.Perm responses S toLower option domain ↔
      S (toLower domain) = ∅ ∨ UniqueRCode responses (S (toLower domain)) ∨
        Empties responses S toLower option 5 (toLower domain)) ∧
    (DependsOnRules SameMembers responses S toLower option domain ↔
      S (toLower domain) = ∅ ∨ UniqueRCode responses (S (toLower domain)) ∨
        Empties responses S toLower option 5 (toLower domain) ∨
        (NoRCode responses (S (toLower domain)) ∧
          ∀ name, ¬ Sole responses (S (toLower domain)) name)) := by
  refine ⟨⟨?_, ?_⟩, ⟨?_, ?_⟩⟩
  · intro h
    by_cases hne : S (toLower domain) = ∅
    · exact .inl hne
    rcases h.noRCode_or_uniqueRCode with hnone | hunique
    · refine .inr (.inr (h.empties (fun addrs => perm_nil.mp) hne hnone ?_))
      rcases (reports_once S).find_cases option hne hnone with ⟨name, hall, -⟩ | ⟨-, hfind⟩
      · rw [hall]
        rfl
      · -- what is answered is answered twice when the rules are reported twice
        obtain ⟨matcher, hm, hlookup⟩ := lookup_twice option 5 hne hnone
        have hsame := h (once S) matcher (reports_once S) hm
        simp only [StaticHosts.lookup, hlookup, lookup_of_answer 5 hfind] at hsame
        have hlength := Perm.length_eq hsame
        rw [length_append] at hlength
        exact length_eq_zero_iff.mp (by omega)
    · exact .inr (.inl hunique)
  · intro h
    exact dependsOnRules_of_fixed (fun _ => Perm.refl _) (lookup_fixed h)
  · intro h
    by_cases hne : S (toLower domain) = ∅
    · exact .inl hne
    rcases h.noRCode_or_uniqueRCode with hnone | hunique
    · by_cases hsole : ∃ name, Sole responses (S (toLower domain)) name
      · obtain ⟨name, hsole⟩ := hsole
        have hnil : ∀ addrs, SameMembers addrs [] → addrs = [] := fun addrs hs =>
          eq_nil_iff_forall_not_mem.mpr fun addr haddr => by simpa using (hs addr).mp haddr
        refine .inr (.inr (.inl (h.empties hnil hne hnone ?_)))
        rw [addressesOfAll_of_sole (reports_once S _) (Finset.nodup_toList _) hsole]
        rfl
      · exact .inr (.inr (.inr ⟨hnone, fun name hs => hsole ⟨name, hs⟩⟩))
    · exact .inr (.inl hunique)
  · rintro (h | h | h | ⟨hnone, hsole⟩)
    · exact dependsOnRules_of_fixed (fun _ _ => Iff.rfl) (lookup_fixed (.inl h))
    · exact dependsOnRules_of_fixed (fun _ _ => Iff.rfl) (lookup_fixed (.inr (.inl h)))
    · exact dependsOnRules_of_fixed (fun _ _ => Iff.rfl) (lookup_fixed (.inr (.inr h)))
    · exact dependsOnRules_of_not_sole hnone hsole

def adMapping : HostMapping StrMatcher.Matcher := ⟨⟨.substr, ascii "ad"⟩, [], ascii "x"⟩

/-- A matcher that gives a report for `adad` and none for anything else. -/
def reportAd (matched : List Nat) (domain : Name) : List Nat :=
  if domain = ascii "adad" then matched else []

/-- The automaton reports the keyword once for each place, and the replacement is lost. -/
theorem not_dependsOnRules_of_keyword :
    ((StrMatcher.ACAutomatonMatcherGroup.ofMatchers [(adMapping.domain, 0)]).build 10).bind
        (fun ac => ac.matchInput 10 (ascii "adad")) = some [0, 0] ∧
      (newStaticHosts (ε := Empty) (fun _ => .ok (reportAd [0, 0])) [adMapping]).toOption.map
          (fun h => h.lookup ASCII.toLower (ascii "adad") ⟨true, true⟩) =
        some (.ok (some [])) ∧
      (newStaticHosts (ε := Empty) (fun _ => .ok (reportAd [0])) [adMapping]).toOption.map
          (fun h => h.lookup ASCII.toLower (ascii "adad") ⟨true, true⟩) =
        some (.ok (some [.domain (ascii "x")])) ∧
      ¬ DependsOnRules SameMembers [[.domain (ascii "x")]]
        (fun domain => (reportAd [0] domain).toFinset) ASCII.toLower ⟨true, true⟩
        (ascii "adad") := by
  refine ⟨by decide +kernel, rfl, rfl, ?_⟩
  intro h
  have hm : Reports (fun domain => (reportAd [0] domain).toFinset) (reportAd [0]) := by
    intro domain idx
    exact mem_toFinset.symm
  have hm' : Reports (fun domain => (reportAd [0] domain).toFinset) (reportAd [0, 0]) := by
    intro domain idx
    by_cases hd : domain = ascii "adad" <;> simp [reportAd]
  have hsame : SameMembers [.domain (ascii "x")] [] := h (reportAd [0]) (reportAd [0, 0]) hm hm'
  simpa using (hsame (.domain (ascii "x"))).mp mem_cons_self

end BypassCore.DNS.Hosts
