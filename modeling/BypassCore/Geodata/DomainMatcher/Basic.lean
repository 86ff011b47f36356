import BypassCore.Lib.Except
import BypassCore.Geodata.StrMatcher.Linear.Basic
import BypassCore.Geodata.StrMatcher.Range

/-!
# Domain rules and the factory of hash matchers

A domain rule is a custom pattern or names a list of a geosite file. `MphDomainMatcherFactory` of
the `geodata` package builds one value matcher for a list of rules, in which every pattern carries
the index of its rule. A list that names a geosite list is shared under a key made of the texts of
its rules, for as long as somebody holds the matcher.

The geodata files, the compiler of regular expressions, the conversion to punycode, the hash of the
runtime and the order of equal elements under `sort.Slice` are parameters.
-/

namespace BypassCore.Geodata

open Lib StrMatcher

/-- `Domain_Type`; the enumeration is open. -/
inductive DomainType where
  | substr
  | regex
  | domain
  | full
  | other (number : Int)
deriving DecidableEq, Repr

def DomainType.name : DomainType → String
  | .substr => "Substr"
  | .regex => "Regex"
  | .domain => "Domain"
  | .full => "Full"
  | .other number => toString number

/-- `Domain`, its attributes apart, which only the loader reads. -/
structure Domain where
  type : DomainType
  value : List UInt8
deriving DecidableEq, Repr

structure GeoSiteRule where
  file : List UInt8
  code : List UInt8
  attrs : List UInt8
deriving DecidableEq, Repr

inductive DomainRule where
  | custom (d : Domain)
  | geosite (r : GeoSiteRule)
deriving DecidableEq, Repr

/-- What the factories take from outside the package. -/
structure Libraries where
  toASCII : List UInt8 → Except String (List UInt8)
  toASCII_lt : ∀ s t, toASCII s = .ok t → ∀ b ∈ t, b < 0x80
  newRegexMatcher : List UInt8 → Except String RegexMatcher
  /-- `loadSiteWithAttrs`, as long as the files do not change. -/
  loadSiteWithAttrs : GeoSiteRule → Except String (List Domain)
  memHash : UInt32 → List UInt8 → UInt32
  sort : SliceSort

inductive Charset where
  | ascii (hasUpper : Bool)
  | nonASCII
  | invalid
deriving DecidableEq, Repr

/-- The scan of `ToDomain`: it stops at the first byte that is not ASCII or not allowed. -/
def charset (hasUpper : Bool) : List UInt8 → Charset
  | [] => .ascii hasUpper
  | c :: rest =>
    if 0x80 ≤ c then .nonASCII
    else if 65 ≤ c ∧ c ≤ 90 then charset true rest
    else if 97 ≤ c ∧ c ≤ 122 ∨ 48 ≤ c ∧ c ≤ 57 ∨ c = 45 ∨ c = 46 then charset hasUpper rest
    else .invalid

def ldhError : String :=
  "pattern string does not conform to Letter-Digit-Hyphen (LDH) subset"

/-- The end of `ToDomain`, on a pattern that needs no conversion. -/
def lowerDomain (pattern : List UInt8) : Except String (List UInt8) :=
  match charset false pattern with
  | .ascii hasUpper => .ok (if hasUpper then ASCII.toLower pattern else pattern)
  | _ => .error ldhError

variable (lib : Libraries)

/-- `ToDomain`; what the conversion returns is ASCII, so it is done at most once. -/
def toDomain (pattern : List UInt8) : Except String (List UInt8) :=
  if charset false pattern = .nonASCII then (lib.toASCII pattern).bind lowerDomain
  else lowerDomain pattern

/-- `NewDomainPattern`, for the types that are not regular expressions. -/
def newDomainPattern (type : MatcherType) (pattern : List UInt8) : Except String AnyMatcher :=
  (toDomain lib pattern).map fun pattern => .basic ⟨type, pattern⟩

def parseDomain (d : Domain) : Except String AnyMatcher :=
  match d.type with
  | .substr => newDomainPattern lib .substr d.value
  | .regex => (lib.newRegexMatcher d.value).map .regex
  | .domain => newDomainPattern lib .domain d.value
  | .full => newDomainPattern lib .full d.value
  | .other _ => .error ("unknown domain type: " ++ d.type.name)

def colon : UInt8 := 0x3a

def atSign : UInt8 := 0x40

def comma : UInt8 := 0x2c

def GeoSiteRule.key (r : GeoSiteRule) : List UInt8 :=
  r.file ++ colon :: (r.code ++ atSign :: r.attrs)

/-- The text of a rule in the key, without the comma behind it. -/
def DomainRule.text : DomainRule → List UInt8
  | .custom d => Lib.ascii d.type.name ++ colon :: d.value
  | .geosite r => r.key

def DomainRule.isGeosite : DomainRule → Bool
  | .custom _ => false
  | .geosite _ => true

def rulesText (rules : List DomainRule) : List UInt8 :=
  rules.flatMap fun r => r.text ++ [comma]

def buildDomainRulesKey (rules : List DomainRule) : List UInt8 :=
  if rules.any DomainRule.isGeosite then rulesText rules else []

/-- Why a build returns no matcher: an error, or a search for seeds that has not ended. -/
inductive BuildError where
  | failed (message : String)
  | outOfFuel
deriving DecidableEq, Repr

/-- The matchers that a rule stands for. An invalid entry of a geosite list is left out. -/
def ruleMatchers : DomainRule → Except String (List AnyMatcher)
  | .custom d => (parseDomain lib d).map fun m => [m]
  | .geosite r =>
    (lib.loadSiteWithAttrs r).map fun domains =>
      domains.filterMap fun d => (parseDomain lib d).toOption

namespace MphDomainMatcherFactory

/-- The body of the loop of `BuildMatcher`: add what the rule stands for under its index. -/
def addRule (lib : Libraries) (g : MphValueMatcher) (rule : DomainRule × Nat) :
    Except String MphValueMatcher :=
  (ruleMatchers lib rule.1).map fun matchers =>
    matchers.foldl (fun g m => g.add m (UInt32.ofNat rule.2)) g

/-- The part of `BuildMatcher` behind the lookup, with fuel for the seeds. -/
def construct (lib : Libraries) (fuel : Nat) (rules : List DomainRule) :
    Except BuildError MphValueMatcher :=
  match rules.zipIdx.foldlM (addRule lib) .new with
  | .error message => .error (.failed message)
  | .ok g =>
    match g.build lib.memHash lib.sort fuel with
    | none => .error .outOfFuel
    | some g => .ok g

/-- The matchers in use, by the key of their rules (`shared`). -/
abbrev Shared := GoMap (List UInt8) MphValueMatcher

def buildMatcher (lib : Libraries) (fuel : Nat) (shared : Shared) (rules : List DomainRule) :
    Except BuildError MphValueMatcher × Shared :=
  if rules.length = 0 then (.error (.failed "empty domain rule list"), shared)
  else if buildDomainRulesKey rules ≠ [] then
    Memo.getOrCreate shared (buildDomainRulesKey rules) (construct lib fuel rules)
  else (construct lib fuel rules, shared)

variable {rules : List DomainRule}

lemma construct_eq_ok {lib : Libraries} {fuel : Nat}
    {g : MphValueMatcher} (h : construct lib fuel rules = .ok g) :
    ∃ g₀, rules.zipIdx.foldlM (addRule lib) .new = .ok g₀ ∧
      g₀.build lib.memHash lib.sort fuel = some g := by
  unfold construct at h
  split at h
  · cases h
  · rename_i g₀ hadd
    split at h
    · cases h
    · rename_i g' hbuild
      cases h
      exact ⟨g₀, hadd, hbuild⟩

lemma buildMatcher_empty_eq_ok {lib : Libraries} {fuel : Nat}
    {g : MphValueMatcher} (h : (buildMatcher lib fuel ∅ rules).1 = .ok g) :
    rules ≠ [] ∧ construct lib fuel rules = .ok g := by
  unfold buildMatcher at h
  split_ifs at h with hlen hkey
  · rw [Memo.getOrCreate_empty] at h
    exact ⟨fun h0 => hlen (List.length_eq_zero_iff.mpr h0), h⟩
  · exact ⟨fun h0 => hlen (List.length_eq_zero_iff.mpr h0), h⟩

end MphDomainMatcherFactory

/-!
## The factory of compact matchers

`CompactDomainMatcherFactory` of the `geodata` package. The custom rules of a list go to one linear
value matcher, each under its index. Every geosite list has a matcher of its own without values,
which is shared by all rules with the same text and kept beside the index of its rule.
-/

structure CompactDomainMatcher where
  custom : Option LinearValueMatcher
  matchers : List LinearAnyMatcher
  values : List UInt32

namespace CompactDomainMatcher

def new : CompactDomainMatcher := ⟨none, [], []⟩

def matchGeosites (c : CompactDomainMatcher) (input : List UInt8) : List UInt32 :=
  ((c.matchers.zip c.values).filter fun m => m.1.matchAny input).map Prod.snd

/-- `Match`, with fuel for the search of keywords. -/
def matchInput (sort : SliceSort) (fuel : Nat) (c : CompactDomainMatcher) (input : List UInt8) :
    Option (List UInt32) :=
  ((c.custom.map fun g => g.matchInput sort fuel input).getD (some [])).map fun custom =>
    custom ++ c.matchGeosites input

def matchAny (c : CompactDomainMatcher) (input : List UInt8) : Bool :=
  (c.custom.any fun g => g.matchAny input) || c.matchers.any fun m => m.matchAny input

end CompactDomainMatcher

namespace CompactDomainMatcherFactory

/-- The matchers of geosite lists in use, by the text of their rule (`shared`). -/
abbrev Shared := GoMap (List UInt8) LinearAnyMatcher

variable (lib : Libraries)

def construct (rule : GeoSiteRule) : Except String LinearAnyMatcher :=
  (ruleMatchers lib (.geosite rule)).map fun matchers => matchers.foldl LinearAnyMatcher.add .new

def getOrCreateFrom (shared : Shared) (rule : GeoSiteRule) :
    Except String LinearAnyMatcher × Shared :=
  Memo.getOrCreate shared rule.key (construct lib rule)

structure Building where
  shared : Shared
  compact : CompactDomainMatcher

/-- The body of the loop of `BuildMatcher`. An error leaves the lists that were shared so far. -/
def addRule (st : Building) (rule : DomainRule × Nat) : Except (String × Shared) Building :=
  match rule.1 with
  | .custom d =>
    match parseDomain lib d with
    | .error message => .error (message, st.shared)
    | .ok m =>
      .ok { st with
        compact := { st.compact with
          custom := some ((st.compact.custom.getD .new).add m (UInt32.ofNat rule.2)) } }
  | .geosite r =>
    match (getOrCreateFrom lib st.shared r).1 with
    | .error message => .error (message, (getOrCreateFrom lib st.shared r).2)
    | .ok m =>
      .ok ⟨(getOrCreateFrom lib st.shared r).2,
        { st.compact with
          matchers := st.compact.matchers ++ [m]
          values := st.compact.values ++ [UInt32.ofNat rule.2] }⟩

def buildMatcher (shared : Shared) (rules : List DomainRule) :
    Except String CompactDomainMatcher × Shared :=
  if rules.length = 0 then (.error "empty domain rule list", shared)
  else
    match rules.zipIdx.foldlM (addRule lib) ⟨shared, .new⟩ with
    | .error (message, shared) => (.error message, shared)
    | .ok st => (.ok st.compact, st.shared)

end CompactDomainMatcherFactory

/-!
## Sharing of domain matchers

The key of a list of rules joins the texts of the rules with separators that the texts themselves
can contain. Two lists with one key share a matcher, and then the second one gets indices of the
first. As long as no two different lists have one key, no caller can tell a shared matcher from one
of its own.
-/

open List

namespace MphDomainMatcherFactory

variable {lib : Libraries} {fuel : Nat} {rules : List DomainRule} {g : MphValueMatcher}

lemma holds_foldl_add {P : UInt32 → Prop} {value : UInt32} (hvalue : P value)
    {matchers : List AnyMatcher} (h : g.Holds P) :
    (matchers.foldl (fun g m => g.add m value) g).Holds P := by
  induction matchers generalizing g with
  | nil => exact h
  | cons m matchers ih => exact ih (h.add m hvalue)

lemma holds_foldlM_addRule {P : UInt32 → Prop} {indexed : List (DomainRule × Nat)}
    (hP : ∀ r ∈ indexed, P (UInt32.ofNat r.2)) (h : g.Holds P) {g' : MphValueMatcher}
    (hadd : indexed.foldlM (addRule lib) g = .ok g') : g'.Holds P := by
  induction indexed generalizing g with
  | nil =>
    cases hadd
    exact h
  | cons rule indexed ih =>
    obtain ⟨g₁, h₁, hadd⟩ := bind_eq_ok.mp hadd
    obtain ⟨matchers, -, rfl⟩ := map_eq_ok.mp h₁
    exact ih (fun r hr => hP r (mem_cons_of_mem _ hr))
      (holds_foldl_add (hP rule mem_cons_self) h) hadd

/-- Every value of a matcher built for a list is an index of the list. -/
lemma construct_holds (h : construct lib fuel rules = .ok g) :
    g.Holds fun v => v.toNat < rules.length := by
  obtain ⟨g₀, hadd, hbuild⟩ := construct_eq_ok h
  refine MphValueMatcher.Holds.build ?_ hbuild
  refine holds_foldlM_addRule ?_ MphValueMatcher.holds_new hadd
  intro r hr
  exact (Nat.mod_le _ _).trans_lt (snd_lt_of_mem_zipIdx hr)

/-! ### Runs of one factory -/

/-- What happens to a factory: a call, or an entry whose matcher nobody holds any more leaves. -/
inductive Event where
  | build (rules : List DomainRule)
  | collect (key : List UInt8)
deriving DecidableEq, Repr

structure Session where
  shared : Shared
  log : List (List DomainRule × Except BuildError MphValueMatcher)

def Session.new : Session := ⟨∅, []⟩

def Session.step (lib : Libraries) (fuel : Nat) (s : Session) : Event → Session
  | .build rules =>
    ⟨(buildMatcher lib fuel s.shared rules).2,
      s.log ++ [(rules, (buildMatcher lib fuel s.shared rules).1)]⟩
  | .collect key => ⟨s.shared.erase key, s.log⟩

def session (lib : Libraries) (fuel : Nat) (events : List Event) : Session :=
  events.foldl (Session.step lib fuel) .new

def requested (events : List Event) : List (List DomainRule) :=
  events.filterMap fun
    | .build rules => if buildDomainRulesKey rules ≠ [] then some rules else none
    | .collect _ => none

def KeysDistinct (lists : List (List DomainRule)) : Prop :=
  ∀ rules ∈ lists, ∀ rules' ∈ lists,
    buildDomainRulesKey rules = buildDomainRulesKey rules' → rules = rules'

instance (lists : List (List DomainRule)) : Decidable (KeysDistinct lists) :=
  inferInstanceAs (Decidable (∀ rules ∈ lists, ∀ rules' ∈ lists, _ → _))

variable {events : List Event}

lemma mem_requested :
    rules ∈ requested events ↔ .build rules ∈ events ∧ buildDomainRulesKey rules ≠ [] := by
  simp only [requested, mem_filterMap]
  constructor
  · rintro ⟨e, he, h⟩
    cases e with
    | build rules' =>
      dsimp only at h
      split_ifs at h with hkey
      cases h
      exact ⟨he, hkey⟩
    | collect key => cases h
  · rintro ⟨he, hkey⟩
    exact ⟨.build rules, he, if_pos hkey⟩

variable {calls : List (List DomainRule)}

lemma buildMatcher_fst {shared : Shared}
    (h : Memo.Shares buildDomainRulesKey (construct lib fuel) calls shared)
    (hcall : buildDomainRulesKey rules ≠ [] → rules ∈ calls) (hkeys : KeysDistinct calls) :
    (buildMatcher lib fuel shared rules).1 = (buildMatcher lib fuel ∅ rules).1 := by
  unfold buildMatcher
  split_ifs with hlen hkey
  · rfl
  · have hmem := hcall hkey
    obtain ⟨rules', h', hk, hres⟩ := h.getOrCreate_fst hmem
    rw [hres, hkeys rules' h' rules hmem hk, Memo.getOrCreate_empty]
  · rfl

lemma shares_buildMatcher {shared : Shared}
    (h : Memo.Shares buildDomainRulesKey (construct lib fuel) calls shared)
    (hcall : buildDomainRulesKey rules ≠ [] → rules ∈ calls) :
    Memo.Shares buildDomainRulesKey (construct lib fuel) calls
      (buildMatcher lib fuel shared rules).2 := by
  unfold buildMatcher
  split_ifs with hlen hkey
  · exact h
  · exact h.getOrCreate (hcall hkey)
  · exact h

/-- What a factory shares was made for a list it was asked for, and all its answers are those of an
empty factory. -/
structure Session.Faithful (lib : Libraries) (fuel : Nat) (calls : List (List DomainRule))
    (s : Session) : Prop where
  shares : Memo.Shares buildDomainRulesKey (construct lib fuel) calls s.shared
  log : ∀ call ∈ s.log, call.2 = (buildMatcher lib fuel ∅ call.1).1

lemma Session.Faithful.step (hkeys : KeysDistinct calls)
    {s : Session} (h : s.Faithful lib fuel calls) {e : Event}
    (he : ∀ rules, e = .build rules → buildDomainRulesKey rules ≠ [] → rules ∈ calls) :
    (s.step lib fuel e).Faithful lib fuel calls := by
  cases e with
  | build rules =>
    have hcall := he rules rfl
    refine ⟨shares_buildMatcher h.shares hcall, ?_⟩
    intro call hmem
    rcases mem_append.mp hmem with hmem | hmem
    · exact h.log call hmem
    · rw [mem_singleton.mp hmem]
      exact buildMatcher_fst h.shares hcall hkeys
  | collect key => exact ⟨h.shares.erase key, h.log⟩

lemma Session.Faithful.foldl (hkeys : KeysDistinct calls) (hevents : requested events ⊆ calls)
    {s : Session} (h : s.Faithful lib fuel calls) :
    (events.foldl (Session.step lib fuel) s).Faithful lib fuel calls := by
  induction events generalizing s with
  | nil => exact h
  | cons e events ih =>
    refine ih ?_ (h.step hkeys ?_)
    · intro rules hr
      have hr := mem_requested.mp hr
      exact hevents (mem_requested.mpr ⟨mem_cons_of_mem _ hr.1, hr.2⟩)
    · rintro rules rfl hkey
      exact hevents (mem_requested.mpr ⟨mem_cons_self, hkey⟩)

lemma buildMatcher_empty_lt (h : (buildMatcher lib fuel ∅ rules).1 = .ok g) {input : List UInt8}
    {matched : List UInt32} (hmatch : g.matchInput lib.memHash input = some matched) :
    ∀ v ∈ matched, v.toNat < rules.length :=
  (construct_holds (buildMatcher_empty_eq_ok h).2).matchInput hmatch

/-- **Sharing is invisible when keys are distinct.** Let any calls be made to one factory, with
entries leaving the table at any time. If no two different lists that name a geosite list have the
same key, every call returns what an empty factory returns for its list, and every index that a
matcher returns is one of the list it was returned for. -/
theorem sharing_invisible (lib : Libraries) (fuel : Nat) (events : List Event)
    (hkeys : KeysDistinct (requested events)) :
    ∀ call ∈ (session lib fuel events).log,
      call.2 = (buildMatcher lib fuel ∅ call.1).1 ∧
        ∀ g, call.2 = .ok g → ∀ input matched, g.matchInput lib.memHash input = some matched →
          ∀ v ∈ matched, v.toNat < call.1.length := by
  have hnew : Session.new.Faithful lib fuel (requested events) :=
    ⟨Memo.shares_empty, fun _ h => nomatch h⟩
  have h := hnew.foldl hkeys (List.Subset.refl _)
  intro call hcall
  have hfresh := h.log call hcall
  refine ⟨hfresh, ?_⟩
  intro g hg input matched hmatch
  rw [hg] at hfresh
  exact buildMatcher_empty_lt hfresh.symm hmatch

/-- A file with one full pattern in every list, and regular expressions that are literals. -/
def exampleLibraries : Libraries where
  toASCII _ := .error "idna: invalid label"
  toASCII_lt := by
    intro s t h
    cases h
  newRegexMatcher pattern := .ok ⟨fun s => contains s pattern⟩
  loadSiteWithAttrs _ := .ok [⟨.full, Lib.ascii "z"⟩]
  memHash := rollingHash
  sort := SliceSort.insertion

def exampleGeosite : DomainRule := .geosite ⟨Lib.ascii "geosite.dat", Lib.ascii "cn", []⟩

def threeRules : List DomainRule :=
  [exampleGeosite, .custom ⟨.regex, Lib.ascii "x"⟩, .custom ⟨.full, Lib.ascii "y"⟩]

def twoRules : List DomainRule := [exampleGeosite, .custom ⟨.regex, Lib.ascii "x,Full:y"⟩]

theorem sharing_invisible_threeRules :
    ∃ g, ((threeRules, .ok g) : List DomainRule × Except BuildError MphValueMatcher) ∈
        (session exampleLibraries 4 [.build [exampleGeosite], .build threeRules,
          .collect (buildDomainRulesKey threeRules), .build threeRules]).log ∧
      (buildMatcher exampleLibraries 4 ∅ threeRules).1 = .ok g := by
  refine ⟨_, mem_of_getElem? (i := 2) rfl, ?_⟩
  exact (sharing_invisible exampleLibraries 4 [.build [exampleGeosite], .build threeRules,
    .collect (buildDomainRulesKey threeRules), .build threeRules] (by decide) _
    (mem_of_getElem? (i := 2) rfl)).1.symm

/-- After a call with three rules, the list of two rules with the same key gets their matcher, which
returns the index of a third rule where a matcher of the list's own returns nothing. -/
theorem shared_index_out_of_range :
    ∃ g own,
      (session exampleLibraries 4 [.build threeRules, .build twoRules]).log[1]? =
          some (twoRules, .ok g) ∧
        g.matchInput exampleLibraries.memHash (Lib.ascii "y") = some [2] ∧
        g.matchAny exampleLibraries.memHash (Lib.ascii "y") = true ∧
        twoRules.length = 2 ∧
        (buildMatcher exampleLibraries 4 ∅ twoRules).1 = .ok own ∧
        own.matchInput exampleLibraries.memHash (Lib.ascii "y") = some [] ∧
        own.matchAny exampleLibraries.memHash (Lib.ascii "y") = false := by
  exact ⟨_, _, rfl, rfl, rfl, rfl, rfl, rfl, rfl⟩

/-! ### Keys of plain rules -/

def knownTypes : List DomainType := [.substr, .regex, .domain, .full]

/-- A rule whose text can be told from that of any other such rule: no text has a comma in it, a
custom rule is of a known type, and a geosite rule has no colon in the name of its file, no at sign
in its code and no file that is called like a type. -/
def Plain : DomainRule → Prop
  | .custom d => d.type ∈ knownTypes ∧ comma ∉ d.value
  | .geosite r => comma ∉ r.key ∧ colon ∉ r.file ∧ atSign ∉ r.code ∧
      ∀ type ∈ knownTypes, Lib.ascii type.name ≠ r.file

lemma colon_not_mem_name :
    ∀ type ∈ knownTypes, colon ∉ Lib.ascii type.name ∧ comma ∉ Lib.ascii type.name := by decide

lemma name_inj : ∀ type ∈ knownTypes, ∀ type' ∈ knownTypes,
    Lib.ascii type.name = Lib.ascii type'.name → type = type' := by decide

lemma Plain.comma_not_mem {rule : DomainRule} (h : Plain rule) : comma ∉ rule.text := by
  cases rule with
  | custom d =>
    intro hmem
    rcases mem_append.mp hmem with hmem | hmem
    · exact (colon_not_mem_name _ h.1).2 hmem
    · rcases mem_cons.mp hmem with hmem | hmem
      · exact absurd hmem (by decide)
      · exact h.2 hmem
  | geosite r => exact h.1

lemma Plain.text_inj {rule rule' : DomainRule} (h : Plain rule) (h' : Plain rule')
    (heq : rule.text = rule'.text) : rule = rule' := by
  cases rule with
  | custom d =>
    cases rule' with
    | custom d' =>
      obtain ⟨htype, hvalue⟩ :=
        append_sep_inj (colon_not_mem_name _ h.1).1 (colon_not_mem_name _ h'.1).1 heq
      obtain ⟨type, value⟩ := d
      obtain ⟨type', value'⟩ := d'
      have htype : type = type' := name_inj _ h.1 _ h'.1 htype
      have hvalue : value = value' := hvalue
      rw [htype, hvalue]
    | geosite r' =>
      have hfile := (append_sep_inj (colon_not_mem_name _ h.1).1 h'.2.1 heq).1
      exact absurd hfile (h'.2.2.2 d.type h.1)
  | geosite r =>
    cases rule' with
    | custom d' =>
      have hfile := (append_sep_inj h.2.1 (colon_not_mem_name _ h'.1).1 heq).1
      exact absurd hfile.symm (h.2.2.2 d'.type h'.1)
    | geosite r' =>
      obtain ⟨hfile, hrest⟩ := append_sep_inj h.2.1 h'.2.1 heq
      obtain ⟨hcode, hattrs⟩ := append_sep_inj h.2.2.1 h'.2.2.1 hrest
      obtain ⟨file, code, attrs⟩ := r
      obtain ⟨file', code', attrs'⟩ := r'
      have hfile : file = file' := hfile
      have hcode : code = code' := hcode
      have hattrs : attrs = attrs' := hattrs
      rw [hfile, hcode, hattrs]

lemma rulesText_cons (rule : DomainRule) (rules : List DomainRule) :
    rulesText (rule :: rules) = rule.text ++ comma :: rulesText rules := by
  simp [rulesText]

lemma rulesText_inj {rules rules' : List DomainRule} (h : ∀ r ∈ rules, Plain r)
    (h' : ∀ r ∈ rules', Plain r) (heq : rulesText rules = rulesText rules') : rules = rules' := by
  induction rules generalizing rules' with
  | nil =>
    cases rules' with
    | nil => rfl
    | cons rule' rules' =>
      exact absurd heq.symm (by simp [rulesText])
  | cons rule rules ih =>
    cases rules' with
    | nil =>
      exact absurd heq (by simp [rulesText])
    | cons rule' rules' =>
      rw [rulesText_cons, rulesText_cons] at heq
      have hr := h rule mem_cons_self
      have hr' := h' rule' mem_cons_self
      obtain ⟨htext, hrest⟩ := append_sep_inj hr.comma_not_mem hr'.comma_not_mem heq
      rw [hr.text_inj hr' htext, ih (fun r hr => h r (mem_cons_of_mem _ hr))
        (fun r hr => h' r (mem_cons_of_mem _ hr)) hrest]

/-- The key of a list of plain rules determines the list. -/
theorem buildDomainRulesKey_injOn :
    Set.InjOn buildDomainRulesKey
      {rules | buildDomainRulesKey rules ≠ [] ∧ ∀ r ∈ rules, Plain r} := by
  rintro rules ⟨hkey, h⟩ rules' ⟨hkey', h'⟩ heq
  have htext : ∀ {rules : List DomainRule}, buildDomainRulesKey rules ≠ [] →
      buildDomainRulesKey rules = rulesText rules := by
    intro rules hne
    unfold buildDomainRulesKey at hne ⊢
    split_ifs at hne ⊢
    · rfl
    · exact absurd rfl hne
  rw [htext hkey, htext hkey'] at heq
  exact rulesText_inj h h' heq

end MphDomainMatcherFactory
end BypassCore.Geodata
