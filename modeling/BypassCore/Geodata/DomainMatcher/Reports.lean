import BypassCore.Geodata.DomainMatcher.Basic
import BypassCore.Geodata.StrMatcher.Linear.Exact

/-!
# What the two matchers report

A rule stands for some matchers. The matcher of the hash factory reports a rule when it accepts one
of the rule's matchers. The compact matcher has one set for each geosite list, and the first rule
with the text of a list decides what is in the set.
-/

namespace BypassCore.Geodata

open Lib StrMatcher List MphValueMatcher ASCII
open ACAutomatonMatcherGroup (LDH Lower Fits patterns isPatternByte isPatternByte_iff)

variable {lib : Libraries} {rules : List DomainRule} {v : UInt32}

/-! ### Patterns that are accepted -/

variable {pattern : List UInt8}

lemma charset_eq_ascii {hasUpper u : Bool} (h : charset hasUpper pattern = .ascii u) :
    (∀ b ∈ pattern, isUpper b = true ∨ isPatternByte b = true) ∧
      (u = false → hasUpper = false ∧ ∀ b ∈ pattern, isUpper b = false) := by
  induction pattern generalizing hasUpper with
  | nil =>
    cases h
    simp
  | cons c rest ih =>
    rw [charset] at h
    split_ifs at h with hascii hupper hbyte
    · obtain ⟨hall, hfalse⟩ := ih h
      have hc : isUpper c = true := by simpa [isUpper] using hupper
      exact ⟨forall_mem_cons.mpr ⟨.inl hc, hall⟩,
        fun hu => absurd (hfalse hu).1 Bool.true_eq_false_eq_False⟩
    · obtain ⟨hall, hfalse⟩ := ih h
      have hc : isPatternByte c = true := by
        rw [isPatternByte_iff]
        simpa [UInt8.le_iff_toNat_le, ← UInt8.toNat_inj] using hbyte
      have hlower : isUpper c = false := by
        rw [Bool.eq_false_iff]
        intro hu
        exact hupper (by simpa [isUpper] using hu)
      exact ⟨forall_mem_cons.mpr ⟨.inr hc, hall⟩,
        fun hu => ⟨(hfalse hu).1, forall_mem_cons.mpr ⟨hlower, (hfalse hu).2⟩⟩⟩

lemma ldh_toLower (h : ∀ b ∈ pattern, isUpper b = true ∨ isPatternByte b = true) :
    LDH (toLower pattern) := by
  intro c hc
  obtain ⟨b, hb, rfl⟩ := mem_map.mp hc
  rw [isPatternByte_iff, toNat_lowerByte]
  have hb := h b hb
  rw [isUpper_iff, isPatternByte_iff] at hb
  split_ifs <;> omega

lemma ldh_of_lowerDomain {domain : List UInt8} (h : lowerDomain pattern = .ok domain) :
    LDH domain := by
  unfold lowerDomain at h
  split at h
  · rename_i hasUpper hcharset
    obtain ⟨hall, hfalse⟩ := charset_eq_ascii hcharset
    cases h
    cases hasUpper with
    | true => exact ldh_toLower hall
    | false =>
      intro b hb
      refine (hall b hb).resolve_left ?_
      rw [(hfalse rfl).2 b hb]
      exact Bool.false_ne_true
  · cases h

/-- A pattern that `ToDomain` lets through is in the letters of domains. -/
lemma ldh_of_toDomain {domain : List UInt8} (h : toDomain lib pattern = .ok domain) :
    LDH domain := by
  unfold toDomain at h
  split_ifs at h
  · obtain ⟨ascii, -, h⟩ := bind_eq_ok.mp h
    exact ldh_of_lowerDomain h
  · exact ldh_of_lowerDomain h

variable {m : Matcher}

lemma ldh_of_newDomainPattern {type : MatcherType}
    (h : newDomainPattern lib type pattern = .ok (.basic m)) : LDH m.pattern := by
  obtain ⟨domain, hdomain, hm⟩ := map_eq_ok.mp h
  cases hm
  exact ldh_of_toDomain hdomain

lemma ldh_of_parseDomain {d : Domain} (h : parseDomain lib d = .ok (.basic m)) : LDH m.pattern := by
  unfold parseDomain at h
  split at h
  · exact ldh_of_newDomainPattern h
  · obtain ⟨r, -, hr⟩ := map_eq_ok.mp h
    cases hr
  · exact ldh_of_newDomainPattern h
  · exact ldh_of_newDomainPattern h
  · cases h

def matchersOf (lib : Libraries) (rule : DomainRule) : List AnyMatcher :=
  (ruleMatchers lib rule).toOption.getD []

def Accepted (lib : Libraries) (rules : List DomainRule) : Prop :=
  ∀ rule ∈ rules, ruleMatchers lib rule = .ok (matchersOf lib rule)

lemma matchersOf_eq {rule : DomainRule} {matchers : List AnyMatcher}
    (h : ruleMatchers lib rule = .ok matchers) : matchersOf lib rule = matchers := by
  rw [matchersOf, h]
  rfl

lemma matchersOf_custom (lib : Libraries) (d : Domain) :
    matchersOf lib (.custom d) = (parseDomain lib d).toOption.toList := by
  rw [matchersOf, ruleMatchers]
  cases parseDomain lib d <;> rfl

lemma parsed_of_toOption {d : Domain} {m : AnyMatcher}
    (h : (parseDomain lib d).toOption = some m) : parseDomain lib d = .ok m := by
  cases hd : parseDomain lib d with
  | error e => simp [hd, Except.toOption] at h
  | ok m' =>
    rw [hd] at h
    cases h
    rfl

lemma ldh_of_mem_matchersOf {rule : DomainRule}
    (h : .basic m ∈ matchersOf lib rule) : LDH m.pattern := by
  cases rule with
  | custom d =>
    rw [matchersOf_custom, Option.mem_toList] at h
    exact ldh_of_parseDomain (parsed_of_toOption h)
  | geosite r =>
    cases hr : lib.loadSiteWithAttrs r with
    | error e => simp [matchersOf, ruleMatchers, hr, Except.map, Except.toOption] at h
    | ok domains =>
      rw [matchersOf_eq (by rw [ruleMatchers, hr]; rfl), mem_filterMap] at h
      obtain ⟨d, -, hd⟩ := h
      exact ldh_of_parseDomain (parsed_of_toOption hd)

def registered (lib : Libraries) (indexed : List (DomainRule × Nat)) :
    List (AnyMatcher × UInt32) :=
  indexed.flatMap fun r => (matchersOf lib r.1).map fun m => (m, UInt32.ofNat r.2)

lemma mem_registered {m : AnyMatcher} :
    (m, v) ∈ registered lib rules.zipIdx ↔
      ∃ i rule, rules[i]? = some rule ∧ m ∈ matchersOf lib rule ∧ v = UInt32.ofNat i := by
  simp only [registered, mem_flatMap, mem_map, Prod.mk.injEq, Prod.exists, mem_zipIdx_iff_getElem?]
  constructor
  · rintro ⟨rule, i, hi, m', hm, rfl, rfl⟩
    exact ⟨i, rule, hi, hm, rfl⟩
  · rintro ⟨i, rule, hi, hm, rfl⟩
    exact ⟨rule, i, hi, m, hm, rfl, rfl⟩

lemma validPatterns_registered (indexed : List (DomainRule × Nat)) :
    ValidPatterns (registered lib indexed) := by
  intro m v hm
  simp only [registered, mem_flatMap, mem_map] at hm
  obtain ⟨r, -, m', hm', rfl, -⟩ := hm
  exact ldh_of_mem_matchersOf hm'

namespace MphDomainMatcherFactory

lemma foldl_add_collected (matchers : List AnyMatcher) (value : UInt32)
    (before : List (AnyMatcher × UInt32)) :
    matchers.foldl (fun g m => g.add m value) (collected before) =
      collected (before ++ matchers.map fun m => (m, value)) := by
  induction matchers generalizing before with
  | nil => simp
  | cons m matchers ih =>
    rw [foldl_cons, ← collected_concat, ih, append_assoc]
    rfl

/-- The loop over the rules adds the matchers of each of them. -/
lemma foldlM_addRule {indexed : List (DomainRule × Nat)} {before : List (AnyMatcher × UInt32)}
    {g : MphValueMatcher} (h : indexed.foldlM (addRule lib) (collected before) = .ok g) :
    g = collected (before ++ registered lib indexed) ∧
      ∀ r ∈ indexed, ruleMatchers lib r.1 = .ok (matchersOf lib r.1) := by
  induction indexed generalizing before with
  | nil =>
    cases h
    simp [registered]
  | cons r indexed ih =>
    obtain ⟨g₁, h₁, h⟩ := bind_eq_ok.mp h
    obtain ⟨matchers, hm, rfl⟩ := map_eq_ok.mp h₁
    rw [foldl_add_collected] at h
    obtain ⟨rfl, hrest⟩ := ih h
    have heq := matchersOf_eq hm
    refine ⟨?_, ?_⟩
    · rw [append_assoc, ← heq]
      rfl
    · intro r' hr'
      rcases mem_cons.mp hr' with rfl | hr'
      · rw [hm, heq]
      · exact hrest r' hr'

lemma buildMatcher_eq_ok {fuel : Nat} {g : MphValueMatcher}
    (h : (buildMatcher lib fuel ∅ rules).1 = .ok g) :
    rules ≠ [] ∧ Accepted lib rules ∧
      (collected (registered lib rules.zipIdx)).build lib.memHash lib.sort fuel = some g := by
  obtain ⟨hne, h⟩ := buildMatcher_empty_eq_ok h
  obtain ⟨g₀, hadd, hbuild⟩ := construct_eq_ok h
  have hadd : rules.zipIdx.foldlM (addRule lib) (collected []) = .ok g₀ := hadd
  obtain ⟨rfl, haccepted⟩ := foldlM_addRule hadd
  refine ⟨hne, ?_, hbuild⟩
  intro rule hrule
  obtain ⟨i, hi⟩ := mem_iff_getElem?.mp hrule
  exact haccepted (rule, i) (mem_zipIdx_iff_getElem?.mpr hi)

end MphDomainMatcherFactory
/-! ### The compact matcher -/

namespace CompactDomainMatcherFactory

variable {indexed : List (DomainRule × Nat)} {r : GeoSiteRule} {key : List UInt8}

def geosites (indexed : List (DomainRule × Nat)) : List GeoSiteRule :=
  indexed.filterMap fun
    | (.geosite r, _) => some r
    | (.custom _, _) => none

def customs (lib : Libraries) (indexed : List (DomainRule × Nat)) : List (AnyMatcher × UInt32) :=
  registered lib (indexed.filter fun r => !r.1.isGeosite)

def firstRule (geosites : List GeoSiteRule) (key : List UInt8) : Option GeoSiteRule :=
  geosites.find? fun r => r.key == key

/-- The rule that decides what is in the set of a geosite rule. -/
def source (indexed : List (DomainRule × Nat)) (r : GeoSiteRule) : GeoSiteRule :=
  (firstRule (geosites indexed) r.key).getD r

def setOf (lib : Libraries) (r : GeoSiteRule) : LinearAnyMatcher :=
  (matchersOf lib (.geosite r)).foldl LinearAnyMatcher.add .new

variable {s : LinearAnyMatcher}

lemma stores_foldl_add {before : List AnyMatcher} (h : s.Stores before)
    (matchers : List AnyMatcher) :
    (matchers.foldl LinearAnyMatcher.add s).Stores (before ++ matchers) := by
  induction matchers generalizing s before with
  | nil =>
    rw [append_nil]
    exact h
  | cons m matchers ih =>
    rw [append_cons]
    exact ih (h.add m)

lemma stores_setOf (lib : Libraries) (r : GeoSiteRule) :
    (setOf lib r).Stores (matchersOf lib (.geosite r)) :=
  stores_foldl_add LinearAnyMatcher.stores_new _

lemma construct_of_accepted
    (h : ruleMatchers lib (.geosite r) = .ok (matchersOf lib (.geosite r))) :
    construct lib r = .ok (setOf lib r) := by
  rw [construct, h]
  rfl

lemma mem_geosites : r ∈ geosites indexed ↔ ∃ i, (.geosite r, i) ∈ indexed := by
  simp only [geosites, mem_filterMap]
  constructor
  · rintro ⟨⟨d | r', i⟩, hi, hr⟩
    · cases hr
    · cases hr
      exact ⟨i, hi⟩
  · rintro ⟨i, hi⟩
    exact ⟨_, hi, rfl⟩

/-- A rule that comes later changes the first one with a text only if there was none. -/
lemma firstRule_concat (l : List GeoSiteRule) (r : GeoSiteRule) (key : List UInt8) :
    firstRule (l ++ [r]) key = (firstRule l key).or (if r.key = key then some r else none) := by
  by_cases h : r.key = key
  · simp [firstRule]
  · simp [firstRule]

lemma firstRule_isSome (h : r ∈ geosites indexed) :
    ∃ r₀, firstRule (geosites indexed) r.key = some r₀ := by
  refine Option.isSome_iff_exists.mp (find?_isSome.mpr ⟨r, h, ?_⟩)
  exact beq_self_eq_true _

structure Collects (lib : Libraries) (indexed : List (DomainRule × Nat)) (st : Building) :
    Prop where
  custom : (st.compact.custom.getD .new).Stores (customs lib indexed)
  length : st.compact.matchers.length = st.compact.values.length
  sets : ∀ {s v}, (s, v) ∈ st.compact.matchers.zip st.compact.values ↔
    ∃ r i, (.geosite r, i) ∈ indexed ∧ v = UInt32.ofNat i ∧ s = setOf lib (source indexed r)
  shared : ∀ key, st.shared.lookup key = (firstRule (geosites indexed) key).map (setOf lib)

lemma collects_new : Collects lib [] ⟨∅, .new⟩ where
  custom := LinearValueMatcher.stores_new
  length := rfl
  sets := by simp [CompactDomainMatcher.new]
  shared := by simp [geosites, firstRule]

lemma geosites_concat_custom (indexed : List (DomainRule × Nat)) (d : Domain) (i : Nat) :
    geosites (indexed ++ [(.custom d, i)]) = geosites indexed := by
  simp [geosites]

lemma geosites_concat (indexed : List (DomainRule × Nat)) (r : GeoSiteRule) (i : Nat) :
    geosites (indexed ++ [(.geosite r, i)]) = geosites indexed ++ [r] := by
  simp [geosites]

lemma addRule_custom (st : Building) {d : Domain} {m : AnyMatcher}
    (hm : parseDomain lib d = .ok m) (i : Nat) :
    addRule lib st (.custom d, i) =
      .ok { st with
        compact := { st.compact with
          custom := some ((st.compact.custom.getD .new).add m (UInt32.ofNat i)) } } := by
  simp only [addRule, hm]

lemma addRule_geosite (st : Building) (hs : (getOrCreateFrom lib st.shared r).1 = .ok s) (i : Nat) :
    addRule lib st (.geosite r, i) =
      .ok ⟨(getOrCreateFrom lib st.shared r).2,
        { st.compact with
          matchers := st.compact.matchers ++ [s]
          values := st.compact.values ++ [UInt32.ofNat i] }⟩ := by
  simp only [addRule, hs]

variable {st : Building}

section

variable (h : Collects lib indexed st)
include h

lemma Collects.addCustom {d : Domain} {i : Nat}
    (hd : ruleMatchers lib (.custom d) = .ok (matchersOf lib (.custom d))) :
    ∃ st', addRule lib st (.custom d, i) = .ok st' ∧
      Collects lib (indexed ++ [(.custom d, i)]) st' := by
  obtain ⟨m, hm, heq⟩ := map_eq_ok.mp hd
  refine ⟨_, addRule_custom st hm i, ?_, h.length, ?_, ?_⟩
  · have hcustoms : customs lib (indexed ++ [(.custom d, i)]) =
        customs lib indexed ++ [(m, UInt32.ofNat i)] := by
      simp [customs, registered, DomainRule.isGeosite, ← heq]
    rw [hcustoms]
    exact h.custom.add m _
  · intro s v
    rw [h.sets]
    simp [source, geosites_concat_custom]
  · intro key
    rw [geosites_concat_custom]
    exact h.shared key

lemma Collects.getOrCreateFrom (i : Nat)
    (hr : ruleMatchers lib (.geosite r) = .ok (matchersOf lib (.geosite r))) :
    (getOrCreateFrom lib st.shared r).1 =
        .ok (setOf lib (source (indexed ++ [(.geosite r, i)]) r)) ∧
      ∀ key, (getOrCreateFrom lib st.shared r).2.lookup key =
        (firstRule (geosites indexed ++ [r]) key).map (setOf lib) := by
  have hlookup := h.shared r.key
  unfold CompactDomainMatcherFactory.getOrCreateFrom source
  rw [geosites_concat, firstRule_concat]
  cases hfirst : firstRule (geosites indexed) r.key with
  | some r₀ =>
    rw [hfirst] at hlookup
    rw [Memo.getOrCreate_of_some hlookup]
    refine ⟨rfl, fun key => ?_⟩
    rw [h.shared key, firstRule_concat]
    by_cases hk : r.key = key
    · rw [← hk, hfirst]
      rfl
    · simp [hk]
  | none =>
    rw [hfirst] at hlookup
    rw [construct_of_accepted hr, Memo.getOrCreate_of_none hlookup]
    refine ⟨by simp, fun key => ?_⟩
    rw [GoMap.lookup_insert_eq, h.shared key, firstRule_concat]
    by_cases hk : key = r.key
    · rw [hk, hfirst]
      simp
    · simp [hk, Ne.symm hk]

/-- A geosite rule gets the set of the first rule with its text. -/
lemma Collects.addGeosite {i : Nat}
    (hr : ruleMatchers lib (.geosite r) = .ok (matchersOf lib (.geosite r))) :
    ∃ st', addRule lib st (.geosite r, i) = .ok st' ∧
      Collects lib (indexed ++ [(.geosite r, i)]) st' := by
  obtain ⟨hset, hshared⟩ := h.getOrCreateFrom i hr
  refine ⟨_, addRule_geosite st hset i, ?_, ?_, ?_, ?_⟩
  · have hcustoms : customs lib (indexed ++ [(.geosite r, i)]) = customs lib indexed := by
      simp [customs, DomainRule.isGeosite]
    rw [hcustoms]
    exact h.custom
  · simp [h.length]
  · intro s v
    have hold : ∀ r' j, (.geosite r', j) ∈ indexed →
        source (indexed ++ [(.geosite r, i)]) r' = source indexed r' := by
      intro r' j hj
      obtain ⟨r₀, hr₀⟩ := firstRule_isSome (mem_geosites.mpr ⟨j, hj⟩)
      rw [source, geosites_concat, firstRule_concat, source, hr₀]
      rfl
    rw [zip_append h.length, mem_append, h.sets]
    simp only [zip_cons_cons, zip_nil_right, mem_singleton, Prod.mk.injEq,
      mem_append, DomainRule.geosite.injEq, or_and_right, exists_or]
    refine or_congr ?_ ?_
    · refine exists_congr fun r' => exists_congr fun j => and_congr_right fun hj => ?_
      rw [hold r' j hj]
    · constructor
      · rintro ⟨rfl, rfl⟩
        exact ⟨r, i, ⟨rfl, rfl⟩, rfl, rfl⟩
      · rintro ⟨_, _, ⟨rfl, rfl⟩, rfl, rfl⟩
        exact ⟨rfl, rfl⟩
  · intro key
    rw [geosites_concat]
    exact hshared key

end

lemma Collects.foldlM {before : List (DomainRule × Nat)} (h : Collects lib before st)
    (haccepted : ∀ r ∈ indexed, ruleMatchers lib r.1 = .ok (matchersOf lib r.1)) :
    ∃ st', indexed.foldlM (addRule lib) st = .ok st' ∧ Collects lib (before ++ indexed) st' := by
  induction indexed generalizing before st with
  | nil =>
    rw [append_nil]
    exact ⟨st, rfl, h⟩
  | cons rule indexed ih =>
    obtain ⟨rule, i⟩ := rule
    have hrule := haccepted (rule, i) mem_cons_self
    obtain ⟨st₁, h₁, hst₁⟩ : ∃ st₁, addRule lib st (rule, i) = .ok st₁ ∧
        Collects lib (before ++ [(rule, i)]) st₁ := by
      cases rule with
      | custom d => exact h.addCustom hrule
      | geosite r => exact h.addGeosite hrule
    obtain ⟨st', h', hst'⟩ := ih hst₁ fun r hr => haccepted r (mem_cons_of_mem _ hr)
    refine ⟨st', ?_, ?_⟩
    · rw [foldlM_cons, h₁]
      exact h'
    · rw [append_cons]
      exact hst'

lemma buildMatcher_of_accepted (hne : rules ≠ []) (h : Accepted lib rules) :
    ∃ st, (buildMatcher lib ∅ rules).1 = .ok st.compact ∧ Collects lib rules.zipIdx st := by
  have haccepted : ∀ r ∈ rules.zipIdx, ruleMatchers lib r.1 = .ok (matchersOf lib r.1) :=
    fun r hr => h r.1 (fst_mem_of_mem_zipIdx hr)
  have hnew : Collects lib [] ⟨∅, .new⟩ := collects_new
  obtain ⟨st, hst, hcollects⟩ := hnew.foldlM haccepted
  refine ⟨st, ?_, hcollects⟩
  rw [buildMatcher, if_neg (fun h0 => hne (length_eq_zero_iff.mp h0)), hst]

end CompactDomainMatcherFactory
end BypassCore.Geodata
