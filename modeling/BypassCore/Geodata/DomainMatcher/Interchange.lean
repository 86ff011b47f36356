import BypassCore.Geodata.DomainMatcher.Reports

/-!
# When the two factories are interchangeable

Both factories serve the same interface, one on desktop and server platforms and one on mobile
ones. They report the same rules as long as every rule is accepted by both. They differ on patterns
with a dot in front and on empty ones, on geosite lists whose rules have one text, and behind the
first 65536 custom keywords.
-/

namespace BypassCore.Geodata

open Lib StrMatcher List CompactDomainMatcherFactory CompactDomainMatcher
  MphDomainMatcherFactory AnyMatcher
open ACAutomatonMatcherGroup (Lower Fits Lost KeywordSeen patterns)
open MphMatcherGroup (LookedUp DotSuffix TableAccepts)
open CompactDomainMatcherFactory (customs source Collects)
open MphDomainMatcherFactory (exampleLibraries threeRules exampleGeosite)

variable {lib : Libraries} {rules : List DomainRule} {input : List UInt8} {v : UInt32}

/-- All keywords of the rules. They share one automaton. -/
def allKeywords (lib : Libraries) (rules : List DomainRule) : List (List UInt8) :=
  patterns (keywords (registered lib rules.zipIdx))

def HashReports (lib : Libraries) (rules : List DomainRule) (input : List UInt8)
    (rule : DomainRule) : Prop :=
  ∃ m ∈ matchersOf lib rule, HashAccepts (allKeywords lib rules) input m

/-- The compact matcher accepts one of the matchers of a rule. For a geosite rule these are the
matchers of the first rule with the same text. -/
def CompactReports (lib : Libraries) (rules : List DomainRule) (input : List UInt8) :
    DomainRule → Prop
  | .custom d => ∃ m ∈ matchersOf lib (.custom d), LinearAccepts input m
  | .geosite r => ∃ m ∈ matchersOf lib (.geosite (source rules.zipIdx r)), LinearAccepts input m

structure Interchangeable (lib : Libraries) (rules : List DomainRule) (input : List UInt8) :
    Prop where
  nonempty : [] ∉ patterns (keywords (customs lib rules.zipIdx))
  /-- A custom keyword in the input is one of the first 65536 ones. -/
  ordinal : ∀ k m w, (keywords (customs lib rules.zipIdx))[k]? = some (m, w) →
    m.pattern <:+: input → k < 2 ^ 16
  reports : ∀ rule ∈ rules, HashReports lib rules input rule ↔ CompactReports lib rules input rule
  /-- An empty keyword is not all that makes an empty input match. -/
  empty : input = [] → [] ∈ allKeywords lib rules → ∃ rule ∈ rules, HashReports lib rules [] rule

/-- The indices, the stored strings, the nodes and the match entries are counted by 32-bit words. -/
structure Sized (lib : Libraries) (rules : List DomainRule) : Prop where
  indices : rules.length ≤ 2 ^ 32
  strings : (MphMatcherGroup.ofMatchers ASCII.toLower
    (hashed (registered lib rules.zipIdx))).rules.length ≤ 2 ^ 32
  nodes : Fits (ACAutomatonMatcherGroup.ofMatchers (keywords (registered lib rules.zipIdx)))

/-! ### Where the two differ -/

/-- What only the hash matcher accepts: a full pattern with a dot in front at the end of a longer
input, and an empty domain for an empty input or one with a dot at its end. -/
def HashOnly (input : List UInt8) : AnyMatcher → Prop
  | .basic ⟨.full, p⟩ => p ≠ input ∧ DotSuffix input p
  | .basic ⟨.domain, p⟩ => p = [] ∧ (input = [] ∨ [dot] <:+ input)
  | _ => False

/-- What only the compact matcher accepts: a domain that is the input with a dot in front, and an
empty keyword that the automaton does not see. -/
def CompactOnly (all : List (List UInt8)) (input : List UInt8) : AnyMatcher → Prop
  | .basic ⟨.domain, p⟩ => p = dot :: input ∧ input ≠ [] ∧ input.head? ≠ some dot
  | .basic ⟨.substr, p⟩ => p = [] ∧ ¬ Lost all input
  | _ => False

variable {all : List (List UInt8)}

lemma domainAccepts_iff (p : List UInt8) :
    HashAccepts all input (.basic ⟨.domain, p⟩) ↔
      HashOnly input (.basic ⟨.domain, p⟩) ∨
        (TrieAccepts input p ∧ ¬ CompactOnly all input (.basic ⟨.domain, p⟩)) := by
  simp only [HashAccepts, TableAccepts, HashOnly, CompactOnly, LookedUp, DotSuffix, TrieAccepts,
    reduceCtorEq, false_and, or_false]
  cases p with
  | nil => simp
  | cons b q =>
    by_cases hb : b = dot
    · subst hb
      have hstrip : stripDot (dot :: q) = q := rfl
      have hlong : dot :: q <:+ input → q ≠ input := by
        rintro h rfl
        exact absurd h.length_le (by simp)
      simp only [head?_cons, and_true, reduceCtorEq, false_and, false_or, ne_eq,
        not_false_eq_true, true_and, List.cons.injEq]
      constructor
      · rintro ((rfl | h) | h)
        · exact ⟨.inl (suffix_refl _), fun h => hlong (suffix_refl _) h.1⟩
        · exact ⟨.inl h, fun h' => hlong h h'.1⟩
        · have h := (suffix_cons dot (dot :: q)).trans h
          exact ⟨.inl h, fun h' => hlong h h'.1⟩
      · rintro ⟨h | ⟨rfl, h⟩, hnot⟩
        · exact .inl (.inr h)
        · exact absurd ⟨rfl, h⟩ hnot
    · have hstrip : stripDot (b :: q) = b :: q := by
        simp [stripDot, hb]
      rw [hstrip]
      simp only [head?_cons, Option.some.injEq, hb, and_false, or_false, reduceCtorEq,
        false_and, false_or, ne_eq, not_false_eq_true, true_and, List.cons.injEq, and_true]
      constructor
      · rintro (rfl | h)
        · exact .inr ⟨rfl, by simp, by simpa using hb⟩
        · exact .inl h
      · rintro (h | ⟨rfl, -⟩)
        · exact .inr h
        · exact .inl rfl

/-- Where the two matchers make the same of a pattern. -/
theorem hashAccepts_iff (m : AnyMatcher) :
    HashAccepts all input m ↔
      HashOnly input m ∨ (LinearAccepts input m ∧ ¬ CompactOnly all input m) := by
  rcases m with ⟨type, p⟩ | r
  · cases type with
    | full =>
      simp only [HashAccepts, TableAccepts, LookedUp, HashOnly, LinearAccepts, CompactOnly]
      by_cases hp : p = input
      · simp [hp]
      · simp [hp]
    | domain => exact domainAccepts_iff p
    | substr =>
      simp only [HashAccepts, TableAccepts, KeywordSeen, HashOnly, LinearAccepts, CompactOnly]
      by_cases hp : p = []
      · simp [hp]
      · simp [hp]
  · simp [HashAccepts, HashOnly, LinearAccepts, CompactOnly]

/-- A pattern as it is commonly written: not empty and without a dot in front. -/
def Ordinary : AnyMatcher → Prop
  | .basic m => m.pattern ≠ [] ∧ m.pattern.head? ≠ some dot
  | .regex _ => True

variable {m : AnyMatcher}

lemma hashAccepts_iff_of_ordinary (h : Ordinary m) :
    HashAccepts all input m ↔ LinearAccepts input m := by
  rw [hashAccepts_iff]
  rcases m with ⟨type, p⟩ | r
  · obtain ⟨hne, hdot⟩ := h
    cases type with
    | full => simp_all [HashOnly, CompactOnly, DotSuffix]
    | domain =>
      have hcompact : p ≠ dot :: input := by
        rintro rfl
        exact hdot rfl
      simp_all [HashOnly, CompactOnly]
    | substr => simp_all [HashOnly, CompactOnly]
  · simp [HashOnly, CompactOnly]

lemma exists_registered {P : AnyMatcher → Prop} :
    (∃ m, (m, v) ∈ registered lib rules.zipIdx ∧ P m) ↔
      ∃ i rule, rules[i]? = some rule ∧ v = UInt32.ofNat i ∧ ∃ m ∈ matchersOf lib rule, P m := by
  simp only [mem_registered]
  constructor
  · rintro ⟨m, ⟨i, rule, hi, hm, hv⟩, hP⟩
    exact ⟨i, rule, hi, hv, m, hm, hP⟩
  · rintro ⟨i, rule, hi, hv, m, hm, hP⟩
    exact ⟨m, ⟨i, rule, hi, hm, hv⟩, hP⟩

lemma exists_index {P : DomainRule → Prop} :
    (∃ v i rule, rules[i]? = some rule ∧ v = UInt32.ofNat i ∧ P rule) ↔ ∃ rule ∈ rules, P rule := by
  constructor
  · rintro ⟨v, i, rule, hi, -, hrule⟩
    exact ⟨rule, mem_of_getElem? hi, hrule⟩
  · rintro ⟨rule, hrule, hP⟩
    obtain ⟨i, hi⟩ := mem_iff_getElem?.mp hrule
    exact ⟨_, i, rule, hi, rfl, hP⟩

lemma mph_reports {fuel : Nat} {g : MphValueMatcher}
    (hbuild : (MphValueMatcher.collected (registered lib rules.zipIdx)).build lib.memHash lib.sort
      fuel = some g) (hsize : Sized lib rules) (hs : Lower input) :
    (∃ vs, g.matchInput lib.memHash input = some vs ∧
        ∀ v, v ∈ vs ↔ ∃ i rule, rules[i]? = some rule ∧ v = UInt32.ofNat i ∧
          HashReports lib rules input rule) ∧
      (g.matchAny lib.memHash input = true ↔
        (∃ rule ∈ rules, HashReports lib rules input rule) ∨
          (input = [] ∧ [] ∈ allKeywords lib rules)) := by
  obtain ⟨⟨vs, hvs, hmem⟩, hany⟩ := MphValueMatcher.exact (validPatterns_registered _)
    hsize.strings hsize.nodes hbuild hs
  refine ⟨⟨vs, hvs, fun v => ?_⟩, ?_⟩
  · rw [hmem, exists_registered]
    rfl
  · rw [hany]
    simp only [exists_registered, exists_index]
    rfl

lemma mem_customs : (m, v) ∈ customs lib rules.zipIdx ↔
      ∃ i d, rules[i]? = some (.custom d) ∧ m ∈ matchersOf lib (.custom d) ∧
        v = UInt32.ofNat i := by
  simp only [customs, registered, mem_flatMap, mem_filter, mem_map, Prod.mk.injEq,
    Prod.exists, mem_zipIdx_iff_getElem?]
  constructor
  · rintro ⟨d | r, i, ⟨hi, hg⟩, m', hm, rfl, rfl⟩
    · exact ⟨i, d, hi, hm, rfl⟩
    · cases hg
  · rintro ⟨i, d, hi, hm, rfl⟩
    exact ⟨.custom d, i, ⟨hi, rfl⟩, m, hm, rfl, rfl⟩

variable {st : CompactDomainMatcherFactory.Building}

lemma mem_matchGeosites
    (h : Collects lib rules.zipIdx st) :
    v ∈ st.compact.matchGeosites input ↔
      ∃ i r, rules[i]? = some (.geosite r) ∧ v = UInt32.ofNat i ∧
        CompactReports lib rules input (.geosite r) := by
  simp only [matchGeosites, mem_map, mem_filter, h.sets,
    Prod.exists, exists_eq_right, mem_zipIdx_iff_getElem?]
  constructor
  · rintro ⟨s, ⟨r, i, hi, hv, rfl⟩, hany⟩
    exact ⟨i, r, hi, hv, (stores_setOf lib _).matchAny.mp hany⟩
  · rintro ⟨i, r, hi, hv, hreports⟩
    exact ⟨_, ⟨r, i, hi, hv, rfl⟩, (stores_setOf lib _).matchAny.mpr hreports⟩

/-- What the two parts of the compact matcher accept. -/
lemma mem_parts (h : Collects lib rules.zipIdx st) :
    ((∃ m, (m, v) ∈ customs lib rules.zipIdx ∧ LinearAccepts input m) ∨
        v ∈ st.compact.matchGeosites input) ↔
      ∃ i rule, rules[i]? = some rule ∧ v = UInt32.ofNat i ∧
        CompactReports lib rules input rule := by
  rw [mem_matchGeosites h]
  constructor
  · rintro (⟨m, hm, hacc⟩ | ⟨i, r, hi, hv, hreports⟩)
    · obtain ⟨i, d, hi, hm, hv⟩ := mem_customs.mp hm
      exact ⟨i, .custom d, hi, hv, m, hm, hacc⟩
    · exact ⟨i, .geosite r, hi, hv, hreports⟩
  · rintro ⟨i, d | r, hi, hv, hreports⟩
    · obtain ⟨m, hm, hacc⟩ := hreports
      exact .inl ⟨m, mem_customs.mpr ⟨i, d, hi, hm, hv⟩, hacc⟩
    · exact .inr ⟨i, r, hi, hv, hreports⟩

lemma exists_mem_matchGeosites
    (h : Collects lib rules.zipIdx st) :
    (∃ v, v ∈ st.compact.matchGeosites input) ↔
      (st.compact.matchers.any fun m => m.matchAny input) = true := by
  simp only [matchGeosites, mem_map, mem_filter, Prod.exists, exists_eq_right, any_eq_true]
  constructor
  · rintro ⟨v, s, hs, hany⟩
    exact ⟨s, (of_mem_zip hs).1, hany⟩
  · rintro ⟨s, hs, hany⟩
    rw [← map_fst_zip h.length.le] at hs
    obtain ⟨⟨s', v⟩, hs', rfl⟩ := mem_map.mp hs
    exact ⟨v, s', hs', hany⟩

lemma custom_matchInput (c : CompactDomainMatcher) (fuel : Nat) :
    (c.custom.map fun g => g.matchInput lib.sort fuel input).getD (some []) =
      (c.custom.getD .new).matchInput lib.sort fuel input := by
  cases c.custom <;> rfl

lemma compact_matchInput_mono {c : CompactDomainMatcher} {fuel fuel' : Nat} (hle : fuel ≤ fuel')
    {vs : List UInt32} (h : c.matchInput lib.sort fuel input = some vs) :
    c.matchInput lib.sort fuel' input = some vs := by
  rw [matchInput, custom_matchInput] at h ⊢
  obtain ⟨custom, hcustom, rfl⟩ := Option.map_eq_some_iff.mp h
  rw [LinearValueMatcher.matchInput_mono hle hcustom]
  rfl

lemma compact_matchAny
    (h : Collects lib rules.zipIdx st) :
    st.compact.matchAny input = true ↔ ∃ rule ∈ rules, CompactReports lib rules input rule := by
  have hcustom : (st.compact.custom.any fun g => g.matchAny input) =
      (st.compact.custom.getD .new).matchAny input := by
    cases st.compact.custom <;> rfl
  rw [matchAny, hcustom, Bool.or_eq_true, h.custom.matchAny, ← exists_mem_matchGeosites h,
    ← exists_or]
  simp only [mem_parts h, exists_index]

/-! ### The values of custom keywords -/

lemma isKeyword_iff : m.isKeyword = true ↔ ∃ b, m = .basic b ∧ b.type = .substr := by
  cases m with
  | basic b => simp [isKeyword]
  | regex r => simp [isKeyword]

/-- The custom part reports what it accepts if the keywords keep their values. -/
lemma mem_custom_part
    (hord : ∀ k m w, (keywords (customs lib rules.zipIdx))[k]? = some (m, w) →
      m.pattern <:+: input → k < 2 ^ 16) :
    LinearValueMatcher.Returned (customs lib rules.zipIdx) input v ↔
      ∃ m, (m, v) ∈ customs lib rules.zipIdx ∧ LinearAccepts input m := by
  constructor
  · rintro (⟨m, hm, -, hacc⟩ | ⟨k, m, w, hk, hin, rfl⟩)
    · exact ⟨m, hm, hacc⟩
    · rw [getD_values hk (hord k m w hk hin)]
      obtain ⟨hm, htype⟩ := mem_keywords.mp (mem_of_getElem? hk)
      refine ⟨.basic m, hm, ?_⟩
      simp only [LinearAccepts, htype]
      exact hin
  · rintro ⟨m, hm, hacc⟩
    cases hkey : m.isKeyword with
    | false => exact .inl ⟨m, hm, hkey, hacc⟩
    | true =>
      obtain ⟨b, rfl, htype⟩ := isKeyword_iff.mp hkey
      simp only [LinearAccepts, htype] at hacc
      obtain ⟨k, hk⟩ := mem_iff_getElem?.mp (mem_keywords.mpr ⟨hm, htype⟩)
      exact .inr ⟨k, b, v, hk, hacc, (getD_values hk (hord k b v hk hacc)).symm⟩

lemma compact_reports
    (h : Collects lib rules.zipIdx st) (hne : [] ∉ patterns (keywords (customs lib rules.zipIdx)))
    (hord : ∀ k m w, (keywords (customs lib rules.zipIdx))[k]? = some (m, w) →
      m.pattern <:+: input → k < 2 ^ 16) {fuel : Nat} (hfuel : input.length ≤ fuel) :
    ∃ vs, st.compact.matchInput lib.sort fuel input = some vs ∧
      ∀ v, v ∈ vs ↔ ∃ i rule, rules[i]? = some rule ∧ v = UInt32.ofNat i ∧
        CompactReports lib rules input rule := by
  obtain ⟨custom, hcustom, hmem⟩ := h.custom.matchInput lib.sort hne hfuel
  refine ⟨custom ++ st.compact.matchGeosites input, ?_, fun v => ?_⟩
  · rw [matchInput, custom_matchInput, hcustom]
    rfl
  · rw [mem_append, hmem, mem_custom_part hord, mem_parts h]

/-- The indices of rules fit into 32 bits. -/
lemma index_inj (hlen : rules.length ≤ 2 ^ 32) {i j : Nat} {rule rule' : DomainRule}
    (hi : rules[i]? = some rule) (hj : rules[j]? = some rule')
    (h : UInt32.ofNat i = UInt32.ofNat j) : i = j := by
  have hi := (List.getElem?_eq_some_iff.mp hi).1
  have hj := (List.getElem?_eq_some_iff.mp hj).1
  have h := congrArg UInt32.toNat h
  rwa [UInt32.toNat_ofNat_of_lt' (show i < 2 ^ 32 by omega),
    UInt32.toNat_ofNat_of_lt' (show j < 2 ^ 32 by omega)] at h

lemma length_matchersOf_custom (lib : Libraries) (d : Domain) :
    (matchersOf lib (.custom d)).length ≤ 1 := by
  rw [matchersOf_custom, Option.length_toList]
  split_ifs <;> decide

lemma nodup_customs (hlen : rules.length ≤ 2 ^ 32) :
    ((customs lib rules.zipIdx).map Prod.snd).Nodup := by
  have hidx : rules.zipIdx.Pairwise fun a b => a.2 ≠ b.2 :=
    pairwise_map.mp (nodup_zipIdx_map_snd rules)
  refine pairwise_map.mpr ?_
  refine pairwise_flatMap.mpr ⟨?_, ?_⟩
  · rintro ⟨d | r, i⟩ hr
    · have hle := length_matchersOf_custom lib d
      rcases hm : matchersOf lib (.custom d) with - | ⟨m, - | ⟨m', ms⟩⟩
      · exact List.Pairwise.nil
      · exact pairwise_singleton _ _
      · rw [hm] at hle
        simp at hle
    · simp [DomainRule.isGeosite] at hr
  · refine List.Pairwise.imp_of_mem ?_ (hidx.filter _)
    rintro ⟨rule, i⟩ ⟨rule', j⟩ hr hr' hne x hx y hy heq
    obtain ⟨m, -, rfl⟩ := mem_map.mp hx
    obtain ⟨m', -, rfl⟩ := mem_map.mp hy
    have hi := mem_zipIdx_iff_getElem?.mp (mem_filter.mp hr).1
    have hj := mem_zipIdx_iff_getElem?.mp (mem_filter.mp hr').1
    exact hne (index_inj hlen hi hj heq)

lemma keywords_values_sublist (ms : List (AnyMatcher × UInt32)) :
    List.Sublist ((keywords ms).map Prod.snd) (ms.map Prod.snd) := by
  induction ms with
  | nil => exact Sublist.refl _
  | cons a ms ih =>
    obtain ⟨m | r, v⟩ := a
    · by_cases hm : m.type = .substr
      · simpa [keywords, hm] using ih
      · simpa [keywords, hm] using ih.cons v
    · exact ih.cons v

lemma lt_of_mem_custom_part (hlen : rules.length ≤ 2 ^ 32) {k : Nat} {m : Matcher} {w : UInt32}
    (hk : (keywords (customs lib rules.zipIdx))[k]? = some (m, w))
    (hw : LinearValueMatcher.Returned (customs lib rules.zipIdx) input w) : k < 2 ^ 16 := by
  obtain ⟨hm, htype⟩ := mem_keywords.mp (mem_of_getElem? hk)
  rcases hw with ⟨m', hm', hkey, -⟩ | ⟨k', m', w', hk', -, hw⟩
  · have heq : .basic m = m' :=
      congrArg Prod.fst (inj_on_of_nodup_map (nodup_customs hlen) hm hm' rfl)
    rw [← heq, isKeyword_iff.mpr ⟨m, rfl, htype⟩] at hkey
    cases hkey
  · have hnodup := (nodup_customs hlen).sublist (keywords_values_sublist (customs lib rules.zipIdx))
    have hlt := (List.getElem?_eq_some_iff.mp hk').1
    have hlt' : k' % 2 ^ 16 < ((keywords (customs lib rules.zipIdx)).map Prod.snd).length := by
      rw [length_map]
      exact lt_of_le_of_lt (Nat.mod_le _ _) hlt
    have heq : ((keywords (customs lib rules.zipIdx)).map Prod.snd)[k' % 2 ^ 16]? =
        ((keywords (customs lib rules.zipIdx)).map Prod.snd)[k]? := by
      rw [getElem?_map (i := k), hk, hw, getD_eq_getElem?_getD, getElem?_eq_getElem hlt']
      rfl
    rw [← (getElem?_inj hlt' hnodup).mp heq]
    exact Nat.mod_lt _ (Nat.two_pow_pos 16)

/-- The first rule with a text is the rule itself if the text determines the rule. -/
lemma source_eq {r : GeoSiteRule} (hr : .geosite r ∈ rules)
    (hkeys : ∀ r', .geosite r' ∈ rules → r'.key = r.key → r' = r) : source rules.zipIdx r = r := by
  have hmem : ∀ {r'}, r' ∈ geosites rules.zipIdx ↔ .geosite r' ∈ rules := by
    intro r'
    rw [mem_geosites, mem_iff_getElem?]
    simp only [mem_zipIdx_iff_getElem?]
  obtain ⟨r₀, hr₀⟩ := firstRule_isSome (hmem.mpr hr)
  have hkey : r₀.key = r.key := by
    obtain ⟨hkey, -⟩ := find?_eq_some_iff_append.mp hr₀
    exact eq_of_beq hkey
  rw [source, hr₀, hkeys r₀ (hmem.mp (mem_of_find?_eq_some hr₀)) hkey]
  rfl

/-- **The two factories are interchangeable on ordinary rules.** These are rules whose patterns are
not empty and have no dot in front, with geosite rules that differ in their texts and at most 65536
custom keywords. -/
theorem interchangeable_of_ordinary
    (hordinary : ∀ rule ∈ rules, ∀ m ∈ matchersOf lib rule, Ordinary m)
    (hkeys : ∀ r r', .geosite r ∈ rules → .geosite r' ∈ rules → r'.key = r.key → r' = r)
    (hfew : (keywords (customs lib rules.zipIdx)).length ≤ 2 ^ 16) (input : List UInt8) :
    Interchangeable lib rules input := by
  have hnil : ∀ {rule p}, rule ∈ rules → .basic ⟨.substr, p⟩ ∈ matchersOf lib rule → p ≠ [] :=
    fun hrule hm => (hordinary _ hrule _ hm).1
  refine ⟨?_, ?_, ?_, ?_⟩
  · intro hmem
    obtain ⟨v, hm⟩ := LinearValueMatcher.mem_patterns_keywords.mp hmem
    obtain ⟨i, d, hi, hm, -⟩ := mem_customs.mp hm
    exact hnil (mem_of_getElem? hi) hm rfl
  · intro k m w hk _
    exact lt_of_lt_of_le (List.getElem?_eq_some_iff.mp hk).1 hfew
  · intro rule hrule
    have hsame : HashReports lib rules input rule ↔
        ∃ m ∈ matchersOf lib rule, LinearAccepts input m := by
      refine exists_congr fun m => and_congr_right fun hm => ?_
      exact hashAccepts_iff_of_ordinary (hordinary rule hrule m hm)
    cases rule with
    | custom d => exact hsame
    | geosite r =>
      rw [hsame, CompactReports, source_eq hrule fun r' hr' => hkeys r r' hrule hr']
  · rintro - hmem
    obtain ⟨v, hm⟩ := LinearValueMatcher.mem_patterns_keywords.mp hmem
    obtain ⟨i, rule, hi, hm, -⟩ := mem_registered.mp hm
    exact absurd rfl (hnil (mem_of_getElem? hi) hm)

/-! ### The two matchers -/

/-- Two matchers of one rule list give the same answers: both `Match` calls return, with the same
set of indices, and the `MatchAny` calls agree. -/
def SameAnswers (lib : Libraries) (g : MphValueMatcher) (c : CompactDomainMatcher)
    (input : List UInt8) : Prop :=
  (∃ vs cs fuel, g.matchInput lib.memHash input = some vs ∧
      c.matchInput lib.sort fuel input = some cs ∧ ∀ v, v ∈ vs ↔ v ∈ cs) ∧
    g.matchAny lib.memHash input = c.matchAny input

section Answers

variable {fuel : Nat} {g : MphValueMatcher} {st : CompactDomainMatcherFactory.Building}
  {vs cs : List UInt32}

lemma nonempty_of_returns (h : Collects lib rules.zipIdx st)
    (hcs : st.compact.matchInput lib.sort fuel input = some cs) :
    [] ∉ patterns (keywords (customs lib rules.zipIdx)) := by
  intro hnil
  rw [matchInput, custom_matchInput, h.custom.matchInput_of_nil lib.sort hnil] at hcs
  cases hcs

/-- The hash matcher reports a custom keyword in the input under its own value. So the compact
matcher can only agree if it keeps that value. -/
lemma ordinal_of_reported (h : Collects lib rules.zipIdx st) (hlen : rules.length ≤ 2 ^ 32)
    (hne : [] ∉ patterns (keywords (customs lib rules.zipIdx)))
    (hcs : st.compact.matchInput lib.sort fuel input = some cs)
    (hreported : ∀ i rule, rules[i]? = some rule → HashReports lib rules input rule →
      UInt32.ofNat i ∈ cs) :
    ∀ k m w, (keywords (customs lib rules.zipIdx))[k]? = some (m, w) →
      m.pattern <:+: input → k < 2 ^ 16 := by
  intro k m w hk hin
  have hkey := mem_of_getElem? hk
  obtain ⟨hm, htype⟩ := mem_keywords.mp hkey
  obtain ⟨i, d, hi, hmd, rfl⟩ := mem_customs.mp hm
  have hpattern : m.pattern ≠ [] := by
    intro hnil
    exact hne (mem_map.mpr ⟨_, hkey, hnil⟩)
  have hw := hreported i _ hi ⟨_, hmd, .inr ⟨htype, .inl ⟨hpattern, hin⟩⟩⟩
  -- with enough fuel the custom part is known
  have hcs := compact_matchInput_mono (Nat.le_max_left fuel input.length) hcs
  obtain ⟨custom, hcustom, hmem⟩ :=
    h.custom.matchInput lib.sort hne (Nat.le_max_right fuel input.length)
  rw [matchInput, custom_matchInput, hcustom] at hcs
  cases hcs
  rcases mem_append.mp hw with hw | hw
  · exact lt_of_mem_custom_part hlen hk ((hmem _).mp hw)
  · obtain ⟨j, r, hj, hij, -⟩ := (mem_matchGeosites h).mp hw
    rw [index_inj hlen hi hj hij, hj] at hi
    cases hi

lemma same_indices_iff (hlen : rules.length ≤ 2 ^ 32) {P Q : DomainRule → Prop}
    (hvs : ∀ v, v ∈ vs ↔ ∃ i rule, rules[i]? = some rule ∧ v = UInt32.ofNat i ∧ P rule)
    (hcs : ∀ v, v ∈ cs ↔ ∃ i rule, rules[i]? = some rule ∧ v = UInt32.ofNat i ∧ Q rule) :
    (∀ v, v ∈ vs ↔ v ∈ cs) ↔ ∀ rule ∈ rules, P rule ↔ Q rule := by
  have hmem : ∀ {R : DomainRule → Prop} {i rule}, rules[i]? = some rule →
      ((∃ j rule', rules[j]? = some rule' ∧ UInt32.ofNat i = UInt32.ofNat j ∧ R rule') ↔
        R rule) := by
    intro R i rule hi
    constructor
    · rintro ⟨j, rule', hj, hij, hR⟩
      rw [← index_inj hlen hi hj hij, hi] at hj
      cases hj
      exact hR
    · exact fun hR => ⟨i, rule, hi, rfl, hR⟩
  constructor
  · intro hsame rule hrule
    obtain ⟨i, hi⟩ := mem_iff_getElem?.mp hrule
    have hi' := hsame (UInt32.ofNat i)
    rwa [hvs, hcs, hmem hi, hmem hi] at hi'
  · intro hrules v
    rw [hvs, hcs]
    refine exists_congr fun i => exists_congr fun rule => and_congr_right fun hi => ?_
    rw [hrules rule (mem_of_getElem? hi)]

/-- **When the two matchers of a rule list give the same answers.** -/
theorem sameAnswers_iff_interchangeable
    (hbuild : (buildMatcher lib fuel ∅ rules).1 = .ok g)
    (hsize : Sized lib rules) (hs : Lower input) :
    ∃ c, (buildMatcher lib ∅ rules).1 = .ok c ∧
      (SameAnswers lib g c input ↔ Interchangeable lib rules input) := by
  obtain ⟨hrules, haccepted, hbuild⟩ := buildMatcher_eq_ok hbuild
  obtain ⟨st, hst, hcollects⟩ :=
    buildMatcher_of_accepted hrules haccepted
  obtain ⟨⟨vs, hvs, hmem⟩, hany⟩ := mph_reports hbuild hsize hs
  refine ⟨st.compact, hst, ?_, ?_⟩
  · rintro ⟨⟨vs', cs, fuel', hvs', hcs, hsame⟩, hanys⟩
    rw [hvs] at hvs'
    cases hvs'
    have hne := nonempty_of_returns hcollects hcs
    have hord := ordinal_of_reported hcollects hsize.indices hne hcs fun i rule hi hreports =>
      (hsame _).mp ((hmem _).mpr ⟨i, rule, hi, rfl, hreports⟩)
    obtain ⟨cs', hcs', hmem'⟩ :=
      compact_reports hcollects hne hord (Nat.le_max_right fuel' input.length)
    rw [compact_matchInput_mono (Nat.le_max_left fuel' input.length) hcs] at hcs'
    cases hcs'
    have hreports := (same_indices_iff hsize.indices hmem hmem').mp hsame
    refine ⟨hne, hord, hreports, ?_⟩
    rintro rfl hnil
    rw [hany.mpr (.inr ⟨rfl, hnil⟩)] at hanys
    obtain ⟨rule, hrule, hrep⟩ := (compact_matchAny hcollects).mp hanys.symm
    exact ⟨rule, hrule, (hreports rule hrule).mpr hrep⟩
  · rintro ⟨hne, hord, hreports, hempty⟩
    obtain ⟨cs, hcs, hmem'⟩ := compact_reports hcollects hne hord (Nat.le_refl input.length)
    refine ⟨⟨vs, cs, _, hvs, hcs, ?_⟩, ?_⟩
    · exact (same_indices_iff hsize.indices hmem hmem').mpr hreports
    · rw [Bool.eq_iff_iff, hany, compact_matchAny hcollects]
      constructor
      · rintro (⟨rule, hrule, hrep⟩ | ⟨rfl, hnil⟩)
        · exact ⟨rule, hrule, (hreports rule hrule).mp hrep⟩
        · obtain ⟨rule, hrule, hrep⟩ := hempty rfl hnil
          exact ⟨rule, hrule, (hreports rule hrule).mp hrep⟩
      · rintro ⟨rule, hrule, hrep⟩
        exact .inl ⟨rule, hrule, (hreports rule hrule).mpr hrep⟩

end Answers

theorem sameAnswers_threeRules :
    ∃ g c,
      (buildMatcher exampleLibraries 4 ∅ threeRules).1 = .ok g ∧
      (buildMatcher exampleLibraries ∅ threeRules).1 = .ok c ∧
      SameAnswers exampleLibraries g c (Lib.ascii "y") := by
  obtain ⟨g, hg⟩ : ∃ g, (buildMatcher exampleLibraries 4 ∅ threeRules).1 = .ok g := ⟨_, rfl⟩
  have hsize : Sized exampleLibraries threeRules := ⟨by decide, by decide, by decide⟩
  have hlower : Lower (Lib.ascii "y") := by decide
  obtain ⟨c, hc, hiff⟩ := sameAnswers_iff_interchangeable hg hsize hlower
  refine ⟨g, c, hg, hc, hiff.mpr (interchangeable_of_ordinary ?_ ?_ (by decide) _)⟩
  · intro rule hrule m hm
    simp only [threeRules, mem_cons, not_mem_nil, or_false] at hrule
    rcases hrule with rfl | rfl | rfl
    · have hm : m ∈ [basic ⟨.full, Lib.ascii "z"⟩] := hm
      rw [mem_singleton.mp hm]
      exact ⟨by decide, by decide⟩
    · have hm : m ∈ [regex ⟨fun s => contains s (Lib.ascii "x")⟩] := hm
      rw [mem_singleton.mp hm]
      exact trivial
    · have hm : m ∈ [basic ⟨.full, Lib.ascii "y"⟩] := hm
      rw [mem_singleton.mp hm]
      exact ⟨by decide, by decide⟩
  · intro r r' hr hr' _
    simp only [threeRules, exampleGeosite, mem_cons, not_mem_nil, or_false, reduceCtorEq,
      DomainRule.geosite.injEq] at hr hr'
    rw [hr, hr']

def dottedRules : List DomainRule := [.custom ⟨.domain, Lib.ascii ".a"⟩]

/-- The compact matcher takes a domain with a dot in front for the domain without it. The hash
matcher does not. -/
theorem dotted_domain_differs :
    ∃ g c,
      (buildMatcher exampleLibraries 4 ∅ dottedRules).1 = .ok g ∧
      (buildMatcher exampleLibraries ∅ dottedRules).1 = .ok c ∧
      g.matchInput exampleLibraries.memHash (Lib.ascii "a") = some [] ∧
      c.matchInput exampleLibraries.sort 1 (Lib.ascii "a") = some [0] ∧
      g.matchAny exampleLibraries.memHash (Lib.ascii "a") = false ∧
      c.matchAny (Lib.ascii "a") = true := by
  exact ⟨_, _, rfl, rfl, rfl, rfl, rfl, rfl⟩

end BypassCore.Geodata
