import BypassCore.Geodata.IPMatcher.Partition
import BypassCore.Lib.Except
import BypassCore.Lib.GoStrings

/-!
# Matchers from rule lists

`buildOptimizedIPMatcher` of `common/geodata/ip_matcher.go`: the rules of a list are sorted into
four classes, inline or from a geodata file and plain or reversed, and each class becomes one
matcher. The sets of geoip rules are shared through a cache of weak pointers. What a geodata file
holds under a code is given by a function.
-/

namespace BypassCore

open Lib Prefix

structure GeoIPRule where
  file : String
  code : String
  reverseMatch : Bool

inductive IPRule where
  | custom (cidr : CIDR) (reverseMatch : Bool)
  | geoip (rule : GeoIPRule)

abbrev LoadIP := String → String → Except String (List CIDR)

def GeoIPRule.less (ri rj : GeoIPRule) : Bool :=
  if ri.file ≠ rj.file then ri.file < rj.file else ri.code < rj.code

def writeName : String × String → List Char
  | (file, code) => file.toList ++ ':' :: (code.toList ++ [','])

/-- The loop of `buildGeoIPRulesKey`: the names that are written. -/
def keyNames : Option GeoIPRule → List GeoIPRule → List (String × String)
  | _, [] => []
  | last, r :: rules =>
    if last.all fun last => r.file ≠ last.file ∨ r.code ≠ last.code then
      (r.file, r.code) :: keyNames (some r) rules
    else keyNames last rules

/-- `buildGeoIPRulesKey`, as a list of characters. -/
def buildGeoIPRulesKey (rules : List GeoIPRule) : List Char :=
  (keyNames none (rules.mergeSort fun ri rj => !rj.less ri)).flatMap writeName

abbrev MadeIPSet (N : Netipx) := {ipset : IPSet // ∃ cidrs, createFrom N (.ok cidrs) = .ok ipset}

/-- `IPSetFactory`: the sets that its cache still holds. -/
structure IPSetFactory (N : Netipx) where
  shared : GoMap (List Char) (MadeIPSet N)

variable {N : Netipx}

def newIPSetFactory : IPSetFactory N := ⟨∅⟩

def createFromCIDRs (N : Netipx) (cidrs : List CIDR) : Except String (MadeIPSet N) :=
  match h : createFrom N (.ok cidrs) with
  | .error e => .error e
  | .ok ipset => .ok ⟨ipset, cidrs, h⟩

def loadAll (load : LoadIP) (rules : List GeoIPRule) : Except String (List CIDR) :=
  List.flatten <$> rules.mapM fun r => load r.file r.code

/-- `GetOrCreateFromGeoIPRules`. The set in the cache may have been collected. -/
def IPSetFactory.getOrCreateFromGeoIPRules (load : LoadIP) (collected : Bool) (f : IPSetFactory N)
    (rules : List GeoIPRule) : Except String (MadeIPSet N) × IPSetFactory N :=
  match if collected then none else f.shared.lookup (buildGeoIPRulesKey rules) with
  | some ipset => (.ok ipset, f)
  | none =>
    match loadAll load rules >>= createFromCIDRs N with
    | .error e => (.error e, f)
    | .ok ipset => (.ok ipset, ⟨f.shared.insert (buildGeoIPRulesKey rules) ipset⟩)

/-- The inline rules of a list, plain or reversed. -/
def customCIDRs (reverse : Bool) (rules : List IPRule) : List CIDR :=
  rules.filterMap fun
    | .custom cidr reverseMatch => if reverseMatch = reverse then some cidr else none
    | .geoip _ => none

def geoipRules (reverse : Bool) (rules : List IPRule) : List GeoIPRule :=
  rules.filterMap fun
    | .custom _ _ => none
    | .geoip rule => if rule.reverseMatch = reverse then some rule else none

def newHeuristicIPMatcher (ipset : MadeIPSet N) (reverse : Bool) : HeuristicIPMatcher N :=
  ⟨ipset.1, reverse, ipset.2⟩

def customSubs (N : Netipx) (cidrs : List CIDR) (reverse : Bool) :
    Except String (List (HeuristicIPMatcher N)) :=
  if cidrs.length > 0 then
    (createFromCIDRs N cidrs).map fun ipset => [newHeuristicIPMatcher ipset reverse]
  else .ok []

def geoipSubs (load : LoadIP) (collected : Bool) (f : IPSetFactory N) (rules : List GeoIPRule)
    (reverse : Bool) : Except String (List (HeuristicIPMatcher N)) × IPSetFactory N :=
  if rules.length > 0 then
    match f.getOrCreateFromGeoIPRules load collected rules with
    | (ipset, f') => (ipset.map fun ipset => [newHeuristicIPMatcher ipset reverse], f')
  else (.ok [], f)

/-- The two kinds of `IPMatcher` that are built. -/
inductive IPMatcher (N : Netipx) where
  | single (m : HeuristicIPMatcher N)
  | multi (mm : HeuristicMultiIPMatcher N)

def IPMatcher.matchIP : IPMatcher N → NetIP → Bool
  | .single m => m.matchIP
  | .multi mm => mm.matchIP

def joinSubs : List (HeuristicIPMatcher N) → Except String (IPMatcher N)
  | [] => .error "no valid ip matcher"
  | [m] => .ok (.single m)
  | ms => .ok (.multi ⟨ms⟩)

/-- `buildOptimizedIPMatcher`. The cached set of either class of geoip rules may have been
collected. -/
def buildOptimizedIPMatcher (load : LoadIP) (collected : Bool → Bool) (f : IPSetFactory N)
    (rules : List IPRule) : Except String (IPMatcher N) × IPSetFactory N :=
  match customSubs N (customCIDRs false rules) false with
  | .error e => (.error e, f)
  | .ok posCustom =>
    match customSubs N (customCIDRs true rules) true with
    | .error e => (.error e, f)
    | .ok negCustom =>
      match geoipSubs load (collected false) f (geoipRules false rules) false with
      | (.error e, f) => (.error e, f)
      | (.ok posGeoip, f) =>
        match geoipSubs load (collected true) f (geoipRules true rules) true with
        | (.error e, f) => (.error e, f)
        | (.ok negGeoip, f) => (joinSubs (posCustom ++ negCustom ++ posGeoip ++ negGeoip), f)

/-- The factories that come from a new one when matchers are built and sets are collected. Their
geoip rules, plain or reversed, are among the lists `asked`. -/
inductive IPSetFactory.Reached (load : LoadIP) (asked : Set (List GeoIPRule)) :
    IPSetFactory N → Prop
  | new : Reached load asked newIPSetFactory
  | build (f : IPSetFactory N) (hf : Reached load asked f) (collected : Bool → Bool)
      (rules : List IPRule) (hrules : ∀ reverse, geoipRules reverse rules ∈ asked) :
      Reached load asked (buildOptimizedIPMatcher load collected f rules).2
  | collect (f : IPSetFactory N) (hf : Reached load asked f) (key : List Char) :
      Reached load asked ⟨f.shared.erase key⟩

/-!
## What a geoip rule means

A plain geoip rule is worth the CIDRs of its code. The reversed rules of one class are joined
before they are reversed, and the classes are joined after that, so that a reversed geoip rule and
its CIDRs may differ when there are other reversed rules.
-/

open List

/-! ### The addresses of a set -/

def CIDR.covers (c : CIDR) (x : Addr) : Bool :=
  (Addr.ofSlice c.ip).any fun addr =>
    (ofAddr addr c.prefixLen.toNat).any fun p => p.contains x

def covered (cidrs : List CIDR) (x : Addr) : Bool := cidrs.any fun c => c.covers x

variable {N : Netipx} {p : Prefix} {cidrs : List CIDR}

lemma mem_familyPrefixes {f : Family} :
    p ∈ familyPrefixes f cidrs ↔ ∃ c ∈ cidrs, ∃ addr, Addr.ofSlice c.ip = some addr ∧
      ofAddr addr c.prefixLen.toNat = some p ∧ addr.family = f := by
  simp only [familyPrefixes, mem_filterMap, Option.bind_eq_some_iff]
  refine exists_congr fun c => and_congr_right fun _ => exists_congr fun addr =>
    and_congr_right fun _ => ?_
  have h6 := addr.is6_eq_not_is4
  cases f <;> cases h4 : addr.is4 <;> simp [Addr.family, h4, h6]

lemma Prefix.family_of_contains {x : Addr} (h : p.contains x = true) :
    p.addr.family = x.family := by
  have hlen : p.addr.bytes.length = x.bytes.length := (of_decide_eq_true h).1
  simp [Addr.family, Addr.is4, hlen]

lemma Prefix.addr_of_ofAddr {addr : Addr} {n : ℕ} (h : ofAddr addr n = some p) : p.addr = addr := by
  rw [ofAddr] at h
  split_ifs at h
  cases h
  rfl

/-- The set of an address's family holds exactly the addresses that are covered. -/
lemma exists_familyPrefixes_iff {x : Addr} :
    (∃ p ∈ familyPrefixes x.family cidrs, p.contains x = true) ↔ covered cidrs x = true := by
  rw [covered, any_eq_true]
  simp only [mem_familyPrefixes, CIDR.covers, Option.any_eq_true]
  constructor
  · rintro ⟨p, ⟨c, hc, addr, haddr, hp, -⟩, hx⟩
    exact ⟨c, hc, addr, haddr, p, hp, hx⟩
  · rintro ⟨c, hc, addr, haddr, p, hp, hx⟩
    refine ⟨p, ⟨c, hc, addr, haddr, hp, ?_⟩, hx⟩
    rw [← addr_of_ofAddr hp]
    exact family_of_contains hx

lemma prefixes_eq_nil_of_maxPrefixLen {ps : List Prefix} (h : maxPrefixLen ps = 0xff) :
    ps = [] := by
  by_contra hne
  have hlt := foldl_longest_lt ps (n := 0) (by omega)
  simp only [maxPrefixLen] at h
  rw [if_neg (by simpa using hne)] at h
  split_ifs at h with hzero
  · cases h
  · have hval := congrArg UInt8.toNat h
    rw [UInt8.toNat_ofNat'] at hval
    simp only [UInt8.reduceToNat] at hval
    omega

/-- A set without prefixes is empty, so the sentinel `0xff` only saves the lookup. -/
lemma contains_eq_false_of_max {s : PrefixSet} (h : maxPrefixLen s.prefixes = 0xff) (x : Addr) :
    s.contains x = false := by
  rw [Bool.eq_false_iff, ne_eq, s.contains_iff, prefixes_eq_nil_of_maxPrefixLen h]
  simp

lemma createFrom_eq_ok {ipset : IPSet} (h : createFrom N (.ok cidrs) = .ok ipset) :
    N.buildIPSet (familyPrefixes .v4 cidrs) = .ok ipset.ipv4 ∧
      N.buildIPSet (familyPrefixes .v6 cidrs) = .ok ipset.ipv6 := by
  simp only [createFrom] at h
  split at h
  · cases h
  case h_2 ipv4 h4 =>
  split at h
  · cases h
  case h_2 ipv6 h6 =>
  cases h
  exact ⟨h4, h6⟩

lemma HeuristicIPMatcher.matchAddr_eq (m : HeuristicIPMatcher N)
    (h : createFrom N (.ok cidrs) = .ok m.ipset) (x : Addr) :
    m.matchAddr x = (covered cidrs x != m.reverse) := by
  obtain ⟨h4, h6⟩ := createFrom_eq_ok h
  obtain ⟨hmax4, hmax6⟩ := m.max_eq
  have hx6 := x.is6_eq_not_is4
  have hcov : (∃ p ∈ familyPrefixes x.family cidrs, p.contains x = true) ↔
      covered cidrs x = true := exists_familyPrefixes_iff
  cases hx4 : x.is4 with
  | true =>
    have hcontains : m.ipset.ipv4.contains x = covered cidrs x := by
      rw [Bool.eq_iff_iff, N.contains_build _ _ h4, ← hcov, Addr.family, if_pos hx4]
    rw [matchAddr]
    split_ifs with hmax
    · rw [← hcontains, contains_eq_false_of_max (hmax4 ▸ hmax), Bool.false_bne]
    · rw [hcontains]
  | false =>
    have hcontains : m.ipset.ipv6.contains x = covered cidrs x := by
      rw [Bool.eq_iff_iff, N.contains_build _ _ h6, ← hcov, Addr.family, if_neg (by simp [hx4])]
    rw [matchAddr, if_neg (by simp [hx4]), if_pos (by simp [hx6, hx4])]
    split_ifs with hmax
    · rw [← hcontains, contains_eq_false_of_max (hmax6 ▸ hmax), Bool.false_bne]
    · rw [hcontains]

/-! ### Keys -/

def names (rules : List GeoIPRule) : List (String × String) :=
  rules.map fun r => (r.file, r.code)

/-- Lists with the same key have the same files and codes. A code with a comma can be written like
two rules. -/
def KeysDistinct (asked : Set (List GeoIPRule)) : Prop :=
  ∀ rules ∈ asked, ∀ rules' ∈ asked, buildGeoIPRulesKey rules = buildGeoIPRulesKey rules' →
    ∀ name, name ∈ names rules ↔ name ∈ names rules'

/-! ### The factory -/

def GeoCovered (load : LoadIP) (rules : List GeoIPRule) (x : Addr) : Prop :=
  ∃ r ∈ rules, ∃ cidrs, load r.file r.code = .ok cidrs ∧ covered cidrs x = true

section Factory

variable {load : LoadIP} {f : IPSetFactory N} {rules rules' : List GeoIPRule} {x : Addr}
  {asked : Set (List GeoIPRule)} {cidrs : List CIDR}

lemma ne_nil_of_covered (h : covered cidrs x = true) : cidrs ≠ [] := by
  rintro rfl
  cases h

lemma GeoCovered.ne_nil (h : GeoCovered load rules x) : rules ≠ [] := by
  rintro rfl
  obtain ⟨r, hr, -⟩ := h
  cases hr

lemma geoCovered_iff_names : GeoCovered load rules x ↔ ∃ name ∈ names rules,
    ∃ cidrs, load name.1 name.2 = .ok cidrs ∧ covered cidrs x = true := by
  simp [GeoCovered, names]

lemma loadAll_cons_eq_ok {r : GeoIPRule} (h : loadAll load (r :: rules) = .ok cidrs) :
    ∃ first rest, load r.file r.code = .ok first ∧ loadAll load rules = .ok rest ∧
      cidrs = first ++ rest := by
  simp only [loadAll, mapM_cons, map_eq_ok] at h
  obtain ⟨lists, hlists, rfl⟩ := h
  obtain ⟨first, hfirst, hlists⟩ := bind_eq_ok.mp hlists
  obtain ⟨others, hothers, hlists⟩ := bind_eq_ok.mp hlists
  cases hlists
  exact ⟨first, others.flatten, hfirst, map_eq_ok.mpr ⟨others, hothers, rfl⟩, rfl⟩

lemma covered_loadAll (h : loadAll load rules = .ok cidrs) :
    covered cidrs x = true ↔ GeoCovered load rules x := by
  induction rules generalizing cidrs with
  | nil =>
    cases h
    simp [covered, GeoCovered]
  | cons r rules ih =>
    obtain ⟨first, rest, hfirst, hrest, rfl⟩ := loadAll_cons_eq_ok h
    have ih := ih hrest
    simp only [covered, any_append, Bool.or_eq_true] at ih ⊢
    rw [ih]
    simp [GeoCovered, hfirst, covered]

/-- The set under a key has the addresses of the rules with that key. -/
def IPSetFactory.Sound (load : LoadIP) (asked : Set (List GeoIPRule)) (f : IPSetFactory N) : Prop :=
  ∀ rules ∈ asked, ∀ ipset, f.shared.lookup (buildGeoIPRulesKey rules) = some ipset →
    ∃ cidrs, createFrom N (.ok cidrs) = .ok ipset.1 ∧
      ∀ x, covered cidrs x = true ↔ GeoCovered load rules x

lemma createFromCIDRs_eq_ok {ipset : MadeIPSet N}
    (h : createFromCIDRs N cidrs = .ok ipset) : createFrom N (.ok cidrs) = .ok ipset.1 := by
  rw [createFromCIDRs] at h
  split at h
  · cases h
  case h_2 ipset' hmade =>
  cases h
  exact hmade

lemma IPSetFactory.Sound.getOrCreate (hkeys : KeysDistinct asked) (hf : f.Sound load asked)
    (collected : Bool) (hrules : rules ∈ asked) :
    (f.getOrCreateFromGeoIPRules load collected rules).2.Sound load asked ∧
      ∀ ipset, (f.getOrCreateFromGeoIPRules load collected rules).1 = .ok ipset →
        ∃ cidrs, createFrom N (.ok cidrs) = .ok ipset.1 ∧
          ∀ x, covered cidrs x = true ↔ GeoCovered load rules x := by
  rw [getOrCreateFromGeoIPRules]
  cases hcached : if collected then none else f.shared.lookup (buildGeoIPRulesKey rules) with
  | some ipset =>
    refine ⟨hf, fun ipset' heq => ?_⟩
    cases heq
    split_ifs at hcached
    exact hf rules hrules ipset hcached
  | none =>
    cases hmade : loadAll load rules >>= createFromCIDRs N with
    | error e => exact ⟨hf, fun ipset heq => by cases heq⟩
    | ok ipset =>
      obtain ⟨cidrs, hcidrs, hset⟩ := bind_eq_ok.mp hmade
      have hmade := createFromCIDRs_eq_ok hset
      refine ⟨fun rules' hrules' ipset' hlookup => ?_, fun ipset' heq => ?_⟩
      · dsimp only at hlookup
        rw [GoMap.lookup_insert_eq] at hlookup
        split_ifs at hlookup with hkey
        · cases hlookup
          refine ⟨cidrs, hmade, fun x => ?_⟩
          simp only [covered_loadAll hcidrs, geoCovered_iff_names,
            hkeys rules hrules rules' hrules' hkey.symm]
        · exact hf rules' hrules' ipset' hlookup
      · cases heq
        exact ⟨cidrs, hmade, fun x => covered_loadAll hcidrs⟩

/-! ### The matcher of a list -/

variable {subs : List (HeuristicIPMatcher N)}

lemma customSubs_any {reverse : Bool} (h : customSubs N cidrs reverse = .ok subs) (x : Addr) :
    (subs.any fun m => m.matchAddr x) = true ↔
      cidrs ≠ [] ∧ ¬ (covered cidrs x = true ↔ reverse = true) := by
  rw [customSubs] at h
  split_ifs at h with hlen
  · obtain ⟨ipset, hset, rfl⟩ := map_eq_ok.mp h
    have hmatch := (newHeuristicIPMatcher ipset reverse).matchAddr_eq (createFromCIDRs_eq_ok hset) x
    rw [any_cons, any_nil, Bool.or_false, hmatch]
    simp [length_pos_iff.mp hlen, newHeuristicIPMatcher]
  · cases h
    simp [length_pos_iff.not.mp hlen]

lemma geoipSubs_any (hkeys : KeysDistinct asked) (hf : f.Sound load asked) (collected : Bool)
    (hrules : rules ∈ asked) (reverse : Bool) :
    (geoipSubs load collected f rules reverse).2.Sound load asked ∧
      ∀ subs, (geoipSubs load collected f rules reverse).1 = .ok subs → ∀ x,
        (subs.any fun m => m.matchAddr x) = true ↔
          rules ≠ [] ∧ ¬ (GeoCovered load rules x ↔ reverse = true) := by
  rw [geoipSubs]
  split_ifs with hlen
  · obtain ⟨hsound, hset⟩ := hf.getOrCreate hkeys collected hrules
    refine ⟨hsound, fun subs h x => ?_⟩
    obtain ⟨ipset, hipset, rfl⟩ := map_eq_ok.mp h
    obtain ⟨cidrs, hmade, hcov⟩ := hset ipset hipset
    have hmatch := (newHeuristicIPMatcher ipset reverse).matchAddr_eq hmade x
    rw [any_cons, any_nil, Bool.or_false, hmatch, bne_iff_ne, ne_eq, Bool.eq_iff_iff, hcov x]
    simp [length_pos_iff.mp hlen, newHeuristicIPMatcher]
  · refine ⟨hf, fun subs h x => ?_⟩
    cases h
    simp [length_pos_iff.not.mp hlen]

lemma joinSubs_matchIP {m : IPMatcher N} (h : joinSubs subs = .ok m) (ip : NetIP) :
    m.matchIP ip = true ↔
      ∃ x, N.fromStdIP ip = some x ∧ (subs.any fun m => m.matchAddr x) = true := by
  have hmatch : m.matchIP ip = (N.fromStdIP ip).any fun x => subs.any fun m => m.matchAddr x := by
    match subs, h with
    | [sub], h =>
      cases h
      cases hx : N.fromStdIP ip <;> simp [IPMatcher.matchIP, HeuristicIPMatcher.matchIP, hx]
    | sub :: sub' :: subs, h =>
      cases h
      cases hx : N.fromStdIP ip <;> simp [IPMatcher.matchIP, HeuristicMultiIPMatcher.matchIP, hx]
  rw [hmatch, Option.any_eq_true]

end Factory

def Accepts (load : LoadIP) (rules : List IPRule) (x : Addr) : Prop :=
  covered (customCIDRs false rules) x = true ∨
    (customCIDRs true rules ≠ [] ∧ ¬ covered (customCIDRs true rules) x = true) ∨
    GeoCovered load (geoipRules false rules) x ∨
    (geoipRules true rules ≠ [] ∧ ¬ GeoCovered load (geoipRules true rules) x)

section Build

variable {load : LoadIP} {f : IPSetFactory N} {asked : Set (List GeoIPRule)}

lemma IPSetFactory.Sound.build (hkeys : KeysDistinct asked) (hf : f.Sound load asked)
    (collected : Bool → Bool) {rules : List IPRule}
    (hrules : ∀ reverse, geoipRules reverse rules ∈ asked) :
    (buildOptimizedIPMatcher load collected f rules).2.Sound load asked ∧
      ∀ m, (buildOptimizedIPMatcher load collected f rules).1 = .ok m → ∀ ip,
        m.matchIP ip = true ↔ ∃ x, N.fromStdIP ip = some x ∧ Accepts load rules x := by
  rw [buildOptimizedIPMatcher]
  cases h₁ : customSubs N (customCIDRs false rules) false with
  | error e => exact ⟨hf, fun m h => by cases h⟩
  | ok posCustom =>
  cases h₂ : customSubs N (customCIDRs true rules) true with
  | error e => exact ⟨hf, fun m h => by cases h⟩
  | ok negCustom =>
  obtain ⟨hf₁, hpos⟩ := geoipSubs_any hkeys hf (collected false) (hrules false) false
  cases h₃ : geoipSubs load (collected false) f (geoipRules false rules) false with
  | mk r₃ f₁ =>
  rw [h₃] at hf₁ hpos
  cases r₃ with
  | error e => exact ⟨hf₁, fun m h => by cases h⟩
  | ok posGeoip =>
  dsimp only at hf₁ ⊢
  obtain ⟨hf₂, hneg⟩ := geoipSubs_any hkeys hf₁ (collected true) (hrules true) true
  cases h₄ : geoipSubs load (collected true) f₁ (geoipRules true rules) true with
  | mk r₄ f₂ =>
  rw [h₄] at hf₂ hneg
  cases r₄ with
  | error e => exact ⟨hf₂, fun m h => by cases h⟩
  | ok negGeoip =>
  refine ⟨hf₂, fun m hm ip => ?_⟩
  rw [joinSubs_matchIP hm]
  refine exists_congr fun x => and_congr_right fun _ => ?_
  simp only [any_append, Bool.or_eq_true, customSubs_any h₁, customSubs_any h₂, hpos posGeoip rfl,
    hneg negGeoip rfl, Accepts, Bool.false_eq_true, iff_false, iff_true, not_not,
    and_iff_right_of_imp ne_nil_of_covered, and_iff_right_of_imp GeoCovered.ne_nil, or_assoc]

lemma IPSetFactory.Reached.sound (hkeys : KeysDistinct asked) (hf : f.Reached load asked) :
    f.Sound load asked := by
  induction hf with
  | new =>
    intro rules _ ipset h
    cases h
  | build f _ collected rules hrules ih => exact (ih.build hkeys collected hrules).1
  | collect f _ key ih =>
    intro rules hrules ipset h
    rw [GoMap.lookup_erase_eq] at h
    split_ifs at h
    exact ih rules hrules ipset h

end Build

/-! ### A geoip rule in place of its CIDRs -/

def inlineRules (g : GeoIPRule) (cidrs : List CIDR) : List IPRule :=
  cidrs.map fun cidr => .custom cidr g.reverseMatch

section Interchange

variable {load : LoadIP} {g : GeoIPRule} {cidrs : List CIDR} {before after : List IPRule}
  {x : Addr} {reverse : Bool}

@[simp] lemma covered_append (cidrs cidrs' : List CIDR) (x : Addr) :
    covered (cidrs ++ cidrs') x = true ↔ covered cidrs x = true ∨ covered cidrs' x = true := by
  simp [covered]

@[simp] lemma geoCovered_append (rules rules' : List GeoIPRule) :
    GeoCovered load (rules ++ rules') x ↔ GeoCovered load rules x ∨ GeoCovered load rules' x := by
  simp only [GeoCovered, mem_append, or_and_right, exists_or]

@[simp] lemma customCIDRs_append (rules rules' : List IPRule) :
    customCIDRs reverse (rules ++ rules') =
      customCIDRs reverse rules ++ customCIDRs reverse rules' := filterMap_append

@[simp] lemma geoipRules_append (rules rules' : List IPRule) :
    geoipRules reverse (rules ++ rules') = geoipRules reverse rules ++ geoipRules reverse rules' :=
  filterMap_append

@[simp] lemma customCIDRs_geoip_cons (rules : List IPRule) :
    customCIDRs reverse (.geoip g :: rules) = customCIDRs reverse rules := rfl

lemma geoipRules_geoip_cons (rules : List IPRule) :
    geoipRules reverse (.geoip g :: rules) =
      if g.reverseMatch = reverse then g :: geoipRules reverse rules
      else geoipRules reverse rules := by
  split_ifs with h
  · simp [geoipRules, h]
  · simp [geoipRules, h]

lemma customCIDRs_inlineRules :
    customCIDRs reverse (inlineRules g cidrs) = if g.reverseMatch = reverse then cidrs else [] := by
  rw [inlineRules, customCIDRs]
  split_ifs with h
  · simp [h]
  · simp [h]

@[simp] lemma geoipRules_inlineRules : geoipRules reverse (inlineRules g cidrs) = [] := by
  simp [inlineRules, geoipRules]

lemma geoCovered_cons (hload : load g.file g.code = .ok cidrs) (rules : List GeoIPRule) :
    GeoCovered load (g :: rules) x ↔ covered cidrs x = true ∨ GeoCovered load rules x := by
  simp [GeoCovered, hload]

/-- The condition at an address that no plain rule accepts. Without other reversed rules the code
must not be empty. Next to reversed geoip rules it must be empty or hold the address exactly if
they do, and next to reversed inline rules it must hold the address exactly if they do. Next to
both, an address of the code must be in the one exactly if it is in the other. -/
def Exchanges (load : LoadIP) (cidrs : List CIDR) (others : List IPRule) (x : Addr) : Prop :=
  match customCIDRs true others, geoipRules true others with
  | [], [] => cidrs ≠ []
  | [], rule :: rules =>
    cidrs ≠ [] → (covered cidrs x = true ↔ GeoCovered load (rule :: rules) x)
  | custom :: customs, [] => covered cidrs x = true ↔ covered (custom :: customs) x = true
  | custom :: customs, rule :: rules => covered cidrs x = true →
    (covered (custom :: customs) x = true ↔ GeoCovered load (rule :: rules) x)

lemma accepts_iff_of_plain (hload : load g.file g.code = .ok cidrs) (hg : g.reverseMatch = false) :
    Accepts load (before ++ .geoip g :: after) x ↔
      Accepts load (before ++ inlineRules g cidrs ++ after) x := by
  simp only [Accepts, customCIDRs_append, geoipRules_append, customCIDRs_geoip_cons,
    geoipRules_geoip_cons, customCIDRs_inlineRules, geoipRules_inlineRules, covered_append,
    geoCovered_append, hg, if_true, Bool.false_eq_true, if_false, geoCovered_cons hload, append_nil]
  grind

lemma accepts_geoip_of_reversed (hload : load g.file g.code = .ok cidrs)
    (hg : g.reverseMatch = true) :
    Accepts load (before ++ .geoip g :: after) x ↔
      (covered (customCIDRs false (before ++ after)) x = true ∨
        GeoCovered load (geoipRules false (before ++ after)) x) ∨
      (customCIDRs true (before ++ after) ≠ [] ∧
        ¬ covered (customCIDRs true (before ++ after)) x = true) ∨
      ¬ covered cidrs x = true ∧ ¬ GeoCovered load (geoipRules true (before ++ after)) x := by
  simp only [Accepts, customCIDRs_append, geoipRules_append, customCIDRs_geoip_cons,
    geoipRules_geoip_cons, geoCovered_append, hg, if_true, geoCovered_cons hload]
  have hne : geoipRules true before ++ g :: geoipRules true after ≠ [] := by simp
  grind

lemma accepts_inlineRules_of_reversed (hg : g.reverseMatch = true) :
    Accepts load (before ++ inlineRules g cidrs ++ after) x ↔
      (covered (customCIDRs false (before ++ after)) x = true ∨
        GeoCovered load (geoipRules false (before ++ after)) x) ∨
      ((customCIDRs true (before ++ after) ≠ [] ∨ cidrs ≠ []) ∧ ¬ covered cidrs x = true ∧
        ¬ covered (customCIDRs true (before ++ after)) x = true) ∨
      geoipRules true (before ++ after) ≠ [] ∧
        ¬ GeoCovered load (geoipRules true (before ++ after)) x := by
  simp only [Accepts, customCIDRs_append, geoipRules_append, customCIDRs_inlineRules,
    geoipRules_inlineRules, covered_append, hg, Bool.true_eq_false, if_false, append_nil, ne_eq,
    append_eq_nil_iff]
  grind

lemma accepts_iff_of_reversed (hload : load g.file g.code = .ok cidrs)
    (hg : g.reverseMatch = true) :
    (Accepts load (before ++ .geoip g :: after) x ↔
        Accepts load (before ++ inlineRules g cidrs ++ after) x) ↔
      (¬ (covered (customCIDRs false (before ++ after)) x = true ∨
          GeoCovered load (geoipRules false (before ++ after)) x) →
        Exchanges load cidrs (before ++ after) x) := by
  rw [accepts_geoip_of_reversed hload hg, accepts_inlineRules_of_reversed hg, Exchanges]
  cases customCIDRs true (before ++ after) with
  | nil =>
    have hcustom : ¬ covered [] x = true := fun h => ne_nil_of_covered h rfl
    cases geoipRules true (before ++ after) with
    | nil =>
      have hgeoip : ¬ GeoCovered load [] x := fun h => h.ne_nil rfl
      grind
    | cons rule rules => grind
  | cons custom customs =>
    cases geoipRules true (before ++ after) with
    | nil =>
      have hgeoip : ¬ GeoCovered load [] x := fun h => h.ne_nil rfl
      grind
    | cons rule rules => grind

/-- While no two lists of geoip rules share a key, a list with a geoip rule and the list with the
rule's CIDRs in its place have matchers that agree on every IP exactly when the rule is plain or the
CIDRs exchange with the other reversed rules at every address that no plain rule accepts. -/
theorem buildOptimizedIPMatcher_interchange_iff (N : Netipx) (load : LoadIP)
    (before after : List IPRule) (g : GeoIPRule) (cidrs : List CIDR)
    (hload : load g.file g.code = .ok cidrs) (asked : Set (List GeoIPRule))
    (hkeys : KeysDistinct asked)
    (hrules : ∀ reverse, geoipRules reverse (before ++ .geoip g :: after) ∈ asked)
    (hrules' : ∀ reverse, geoipRules reverse (before ++ inlineRules g cidrs ++ after) ∈ asked)
    (f f' : IPSetFactory N) (hf : f.Reached load asked) (hf' : f'.Reached load asked)
    (collected collected' : Bool → Bool) (m m' : IPMatcher N)
    (hm : (buildOptimizedIPMatcher load collected f (before ++ .geoip g :: after)).1 = .ok m)
    (hm' : (buildOptimizedIPMatcher load collected' f'
      (before ++ inlineRules g cidrs ++ after)).1 = .ok m') :
    (∀ ip, m.matchIP ip = m'.matchIP ip) ↔
      (g.reverseMatch = true → ∀ ip x, N.fromStdIP ip = some x →
        ¬ (covered (customCIDRs false (before ++ after)) x = true ∨
          GeoCovered load (geoipRules false (before ++ after)) x) →
        Exchanges load cidrs (before ++ after) x) := by
  have hmatch := ((hf.sound hkeys).build hkeys collected hrules).2 m hm
  have hmatch' := ((hf'.sound hkeys).build hkeys collected' hrules').2 m' hm'
  have hagree : (∀ ip, m.matchIP ip = m'.matchIP ip) ↔ ∀ ip x, N.fromStdIP ip = some x →
        (Accepts load (before ++ .geoip g :: after) x ↔
          Accepts load (before ++ inlineRules g cidrs ++ after) x) := by
    refine forall_congr' fun ip => ?_
    rw [Bool.eq_iff_iff, hmatch ip, hmatch' ip]
    cases hx : N.fromStdIP ip with
    | none => simp
    | some x => simp
  rw [hagree]
  cases hg : g.reverseMatch with
  | false =>
    simp only [Bool.false_eq_true, false_implies, iff_true]
    exact fun ip x _ => accepts_iff_of_plain hload hg
  | true =>
    simp only [true_implies]
    exact forall_congr' fun ip => forall_congr' fun x => forall_congr' fun _ =>
      accepts_iff_of_reversed hload hg

end Interchange

def notLab : GeoIPRule := ⟨"office.dat", "LAB", true⟩

def loadLab : LoadIP := fun _ _ => .ok [⟨[192, 168, 0, 0], 16⟩]

/-- The rule alone agrees with its CIDR. -/
theorem buildOptimizedIPMatcher_interchange_lab :
    ∃ m m', (buildOptimizedIPMatcher loadLab (fun _ => false) (newIPSetFactory (N := Netipx.plain))
          ([] ++ .geoip notLab :: [])).1 = .ok m ∧
      (buildOptimizedIPMatcher loadLab (fun _ => false) (newIPSetFactory (N := Netipx.plain))
          ([] ++ inlineRules notLab [⟨[192, 168, 0, 0], 16⟩] ++ [])).1 = .ok m' ∧
      ∀ ip, m.matchIP ip = m'.matchIP ip := by
  have hkeys : KeysDistinct {[notLab], []} := by
    have hne : buildGeoIPRulesKey [notLab] ≠ buildGeoIPRulesKey [] := by
      simp [buildGeoIPRulesKey, keyNames, writeName]
    rintro _ (rfl | rfl) _ (rfl | rfl) hkey
    · exact fun _ => Iff.rfl
    · exact absurd hkey hne
    · exact absurd hkey.symm hne
    · exact fun _ => Iff.rfl
  exact ⟨_, _, rfl, rfl, (buildOptimizedIPMatcher_interchange_iff Netipx.plain loadLab [] [] notLab
    [⟨[192, 168, 0, 0], 16⟩] rfl {[notLab], []} hkeys (Bool.forall_bool.mpr ⟨.inr rfl, .inl rfl⟩)
    (fun _ => .inr rfl) _ _ .new .new (fun _ => false) (fun _ => false) _ _ rfl rfl).mpr
    fun _ _ _ _ _ => cons_ne_nil _ _⟩

/-- `!10.0.0.0/8` and `!ext:office.dat:LAB` accept `10.0.0.1`, which is not in the code; with the
CIDR of the code in place of the rule, both CIDRs are joined before they are reversed. -/
theorem buildOptimizedIPMatcher_not_interchange :
    ∃ m m', (buildOptimizedIPMatcher loadLab (fun _ => false) (newIPSetFactory (N := Netipx.plain))
          [.custom ⟨[10, 0, 0, 0], 8⟩ true, .geoip notLab]).1 = .ok m ∧
      (buildOptimizedIPMatcher loadLab (fun _ => false) (newIPSetFactory (N := Netipx.plain))
          ([.custom ⟨[10, 0, 0, 0], 8⟩ true] ++ inlineRules notLab [⟨[192, 168, 0, 0], 16⟩])).1 =
        .ok m' ∧ m.matchIP [10, 0, 0, 1] = true ∧ m'.matchIP [10, 0, 0, 1] = false :=
  ⟨_, _, rfl, rfl, by decide, by decide⟩

end BypassCore
