import BypassCore.Geodata.StrMatcher.Linear.Basic

/-!
# What the linear matchers return

The map, the trie and the lists return the values of the matchers that they accept. Keywords are the
exception: their results pass through words in which an index has 16 bits, so a keyword behind the
first 65536 ones is reported as another one. The search for an empty keyword does not return.
-/

namespace BypassCore.StrMatcher

open Lib List Trie

open ACAutomatonMatcherGroup (patterns)

variable {s p input : List UInt8} {v : UInt32}

def LinearAccepts (input : List UInt8) : AnyMatcher → Prop
  | .basic m =>
    match m.type with
    | .full => m.pattern = input
    | .domain => TrieAccepts input m.pattern
    | .substr => m.pattern <:+: input
  | .regex m => m.accepts input = true

def AnyMatcher.isKeyword : AnyMatcher → Bool
  | .basic m => m.type == .substr
  | .regex _ => false

/-- The value at the low 16 bits of an index below 65536 is the keyword's own. -/
lemma getD_values {α : Type} {ms : List (α × UInt32)} {a : α} {i : Nat}
    (hi : ms[i]? = some (a, v)) (hlt : i < 2 ^ 16) : (ms.map Prod.snd).getD (i % 2 ^ 16) 0 = v := by
  rw [Nat.mod_eq_of_lt hlt, getD_eq_getElem?_getD, getElem?_map, hi]
  rfl

/-! ### Occurrences of a keyword -/

lemma infix_iff_drop : p <:+: s ↔ ∃ i, i ≤ s.length ∧ p <+: s.drop i := by
  constructor
  · rintro ⟨front, back, rfl⟩
    refine ⟨front.length, by simp, ?_⟩
    rw [append_assoc, drop_left]
    exact ⟨back, rfl⟩
  · rintro ⟨i, -, h⟩
    exact h.isInfix.trans (drop_suffix i s).isInfix

lemma lastIndex_eq_none_iff : lastIndex s p = none ↔ ¬ p <:+: s := by
  rw [infix_iff_drop, lastIndex, find?_eq_none]
  simp only [mem_reverse, List.mem_range, Nat.lt_succ_iff, isPrefixOf_iff_prefix,
    not_exists, not_and]

lemma start_of_lastIndex {j : Nat} (h : lastIndex s p = some j) : p <+: s.drop j := by
  obtain ⟨hfound, -⟩ := find?_eq_some_iff_append.mp h
  exact isPrefixOf_iff_prefix.mp hfound

lemma lastIndex_nil (s : List UInt8) : lastIndex s [] = some s.length := by
  simp [lastIndex, range_succ]

namespace SubstrMatcherGroup

/-- The search for a keyword that is not empty returns, and finds it if the input has it. -/
lemma occurrences_spec (hp : p ≠ []) (n : Nat) (hn : n ≤ input.length) (fuel : Nat)
    (hfuel : n ≤ fuel) :
    ∃ places, occurrences input p fuel (lastIndex (input.take n) p) = some places ∧
      (places ≠ [] ↔ p <:+: input.take n) := by
  induction n using Nat.strong_induction_on generalizing fuel with
  | h n ih =>
    cases hj : lastIndex (input.take n) p with
    | none =>
      refine ⟨[], by cases fuel <;> rfl, ?_⟩
      rw [lastIndex_eq_none_iff] at hj
      simp [hj]
    | some j =>
      have hstart := start_of_lastIndex hj
      -- what is found has a byte, so it starts before the end
      have hlt : j < n := by
        have hlen := hstart.length_le
        have hpos := length_pos_iff.mpr hp
        rw [length_drop, length_take] at hlen
        omega
      obtain ⟨fuel, rfl⟩ : ∃ k, fuel = k + 1 := ⟨fuel - 1, by omega⟩
      obtain ⟨places, hplaces, -⟩ := ih j hlt (hlt.le.trans hn) fuel (by omega)
      refine ⟨j :: places, ?_, ?_⟩
      · rw [occurrences, hplaces]
        rfl
      · refine iff_of_true (cons_ne_nil _ _) ?_
        exact hstart.isInfix.trans (drop_suffix j _).isInfix

/-- The search for an empty keyword does not return. -/
lemma occurrences_nil (fuel : Nat) {j : Nat} (hj : j ≤ input.length) :
    occurrences input [] fuel (some j) = none := by
  induction fuel with
  | zero => rfl
  | succ fuel ih =>
    rw [occurrences, lastIndex_nil, length_take, Nat.min_eq_left hj, ih]
    rfl

variable {fuel : Nat}

lemma occurrences_mono {fuel' : Nat} (hle : fuel ≤ fuel') {j : Option Nat}
    {places : List Nat} (h : occurrences input p fuel j = some places) :
    occurrences input p fuel' j = some places := by
  induction fuel generalizing fuel' j places with
  | zero =>
    cases j with
    | none =>
      cases h
      cases fuel' <;> rfl
    | some j => cases h
  | succ fuel ih =>
    cases j with
    | none =>
      cases h
      cases fuel' <;> rfl
    | some j =>
      obtain ⟨rest, hrest, rfl⟩ := Option.map_eq_some_iff.mp h
      obtain ⟨k, rfl⟩ : ∃ k, fuel' = k + 1 := ⟨fuel' - 1, by omega⟩
      rw [occurrences, ih (Nat.le_of_succ_le_succ hle) hrest]
      rfl

variable {indexed : List (List UInt8 × Nat)}

lemma entries_mono {fuel' : Nat} (hle : fuel ≤ fuel')
    {result : List Nat} (h : entries fuel input indexed = some result) :
    entries fuel' input indexed = some result := by
  induction indexed generalizing result with
  | nil => exact h
  | cons e indexed ih =>
    obtain ⟨places, hplaces, h⟩ := Option.bind_eq_some_iff.mp h
    obtain ⟨others, hothers, h⟩ := Option.bind_eq_some_iff.mp h
    rw [entries, occurrences_mono hle hplaces, ih hothers]
    exact h

variable {g : SubstrMatcherGroup}

lemma matchInput_mono {sort : SliceSort} {fuel' : Nat} (hle : fuel ≤ fuel')
    {vs : List UInt32} (h : g.matchInput sort fuel input = some vs) :
    g.matchInput sort fuel' input = some vs := by
  obtain ⟨result, hresult, rfl⟩ := Option.map_eq_some_iff.mp h
  rw [matchInput, entries_mono hle hresult]
  rfl

lemma entry_mod (i j : Nat) : entry i j % 2 ^ 16 = i % 2 ^ 16 := by
  unfold entry
  omega

/-- The low bits of the entries are those of the indices of the keywords in the input. -/
lemma entries_spec (hne : ∀ e ∈ indexed, e.1 ≠ []) (hfuel : input.length ≤ fuel) :
    ∃ result, entries fuel input indexed = some result ∧
      ∀ k, (∃ e ∈ result, e % 2 ^ 16 = k) ↔ ∃ e ∈ indexed, e.1 <:+: input ∧ e.2 % 2 ^ 16 = k := by
  induction indexed with
  | nil => exact ⟨[], rfl, by simp⟩
  | cons e indexed ih =>
    obtain ⟨pattern, i⟩ := e
    obtain ⟨places, hplaces, hfound⟩ :=
      occurrences_spec (hne _ mem_cons_self) input.length le_rfl fuel hfuel
    rw [take_length] at hplaces hfound
    obtain ⟨others, hothers, hrest⟩ := ih fun e he => hne e (mem_cons_of_mem _ he)
    refine ⟨places.map (entry i) ++ others, ?_, fun k => ?_⟩
    · rw [entries, hplaces, hothers]
      rfl
    · have hhere : (∃ e ∈ places.map (entry i), e % 2 ^ 16 = k) ↔
          pattern <:+: input ∧ i % 2 ^ 16 = k := by
        rw [← hfound]
        constructor
        · rintro ⟨e, he, rfl⟩
          obtain ⟨j, hj, rfl⟩ := mem_map.mp he
          exact ⟨ne_nil_of_mem hj, (entry_mod i j).symm⟩
        · rintro ⟨hplaces, rfl⟩
          obtain ⟨j, hj⟩ := exists_mem_of_ne_nil _ hplaces
          exact ⟨entry i j, mem_map_of_mem hj, entry_mod i j⟩
      simp only [mem_append, or_and_right, exists_or, mem_cons, exists_eq_left, hhere, hrest]

lemma entries_of_nil {e : List UInt8 × Nat}
    (he : e ∈ indexed) (hnil : e.1 = []) (fuel : Nat) : entries fuel input indexed = none := by
  induction indexed with
  | nil => cases he
  | cons e' indexed ih =>
    obtain ⟨pattern, i⟩ := e'
    rw [entries]
    rcases mem_cons.mp he with rfl | he
    · have hnil : pattern = [] := hnil
      rw [hnil, lastIndex_nil, occurrences_nil fuel le_rfl]
      rfl
    · rw [ih he]
      cases occurrences input pattern fuel (lastIndex input pattern) <;> rfl

lemma mem_arrange (sort : SliceSort) (l : List Nat) {e : Nat} : e ∈ arrange sort l ↔ e ∈ l := by
  unfold arrange
  split
  · split_ifs
    · simp [or_comm]
    · rfl
  · rfl
  · rfl
  · exact (sort.perm _ _).mem_iff

/-- A group of keywords, none of which is empty, returns the value of the keyword at the low 16 bits
of the index of every keyword in the input. -/
lemma matchInput_spec (sort : SliceSort) (hne : [] ∉ g.patterns) (hfuel : input.length ≤ fuel) :
    ∃ vs, g.matchInput sort fuel input = some vs ∧
      ∀ v, v ∈ vs ↔ ∃ i p, g.patterns[i]? = some p ∧ p <:+: input ∧
        v = g.values.getD (i % 2 ^ 16) 0 := by
  have hne' : ∀ e ∈ g.patterns.zipIdx, e.1 ≠ [] := by
    rintro ⟨p, i⟩ he rfl
    exact hne (fst_mem_of_mem_zipIdx he)
  obtain ⟨result, hresult, hlow⟩ := entries_spec hne' hfuel
  rw [matchInput, hresult]
  refine ⟨_, rfl, fun v => ?_⟩
  simp only [mem_map, mem_arrange]
  constructor
  · rintro ⟨e, he, rfl⟩
    obtain ⟨⟨p, i⟩, hp, hin, hi⟩ := (hlow _).mp ⟨e, he, rfl⟩
    refine ⟨i, p, mem_zipIdx_iff_getElem?.mp hp, hin, ?_⟩
    rw [hi]
  · rintro ⟨i, p, hp, hin, rfl⟩
    obtain ⟨e, he, hi⟩ :=
      (hlow _).mpr ⟨(p, i), mem_zipIdx_iff_getElem?.mpr hp, hin, rfl⟩
    exact ⟨e, he, by rw [hi]⟩

/-- A group with an empty keyword does not return. -/
lemma matchInput_of_nil (sort : SliceSort) (hnil : [] ∈ g.patterns)
    (fuel : Nat) : g.matchInput sort fuel input = none := by
  obtain ⟨i, hi⟩ := mem_iff_getElem?.mp hnil
  have he : ([], i) ∈ g.patterns.zipIdx := mem_zipIdx_iff_getElem?.mpr hi
  rw [matchInput, entries_of_nil he rfl]
  rfl

def ofMatchers (matchers : List (List UInt8 × UInt32)) : SubstrMatcherGroup :=
  matchers.foldl (fun g m => g.addSubstrMatcher m.1 m.2) new

variable {matchers : List (List UInt8 × UInt32)}

lemma ofMatchers_eq : ofMatchers matchers = ⟨matchers.map Prod.fst, matchers.map Prod.snd⟩ := by
  induction matchers using List.reverseRecOn with
  | nil => rfl
  | append_singleton ms m ih =>
    rw [ofMatchers, foldl_append, ← ofMatchers, ih, map_append, map_append]
    rfl

def Contained (matchers : List (List UInt8 × UInt32)) (input : List UInt8) (v : UInt32) : Prop :=
  ∃ p, (p, v) ∈ matchers ∧ p <:+: input

/-- The value stands at the low 16 bits of the index of a pattern in the input. -/
def Wrapped (matchers : List (List UInt8 × UInt32)) (input : List UInt8) (v : UInt32) : Prop :=
  ∃ i p w, matchers[i]? = some (p, w) ∧ p <:+: input ∧
    (matchers.map Prod.snd).getD (i % 2 ^ 16) 0 = v

/-- **When a group of keywords is total and exact.** No pattern is empty, and a pattern in the input
behind the first 65536 ones makes no difference: the value at the low 16 bits of its index is bound
to a pattern in the input, and its own value stands at such a place. -/
theorem substrMatcherGroup_exact_iff (sort : SliceSort)
    (matchers : List (List UInt8 × UInt32)) (input : List UInt8) :
    ((∃ fuel vs, (ofMatchers matchers).matchInput sort fuel input = some vs ∧
        ∀ v, v ∈ vs ↔ Contained matchers input v) ∧
      ((ofMatchers matchers).matchAny input = true ↔ ∃ v, Contained matchers input v)) ↔
    (∀ p v, (p, v) ∈ matchers → p ≠ []) ∧
      ∀ i p v, 2 ^ 16 ≤ i → matchers[i]? = some (p, v) → p <:+: input →
        Contained matchers input ((matchers.map Prod.snd).getD (i % 2 ^ 16) 0) ∧
          Wrapped matchers input v := by
  rw [ofMatchers_eq]
  have hany : (SubstrMatcherGroup.mk (matchers.map Prod.fst) (matchers.map Prod.snd)).matchAny
      input = true ↔ ∃ v, Contained matchers input v := by
    simp only [matchAny, any_eq_true, mem_map, contains_iff]
    constructor
    · rintro ⟨_, ⟨⟨p, v⟩, hm, rfl⟩, hin⟩
      exact ⟨v, p, hm, hin⟩
    · rintro ⟨v, p, hm, hin⟩
      exact ⟨p, ⟨(p, v), hm, rfl⟩, hin⟩
  rw [and_iff_left hany]
  by_cases hnil : [] ∈ matchers.map Prod.fst
  · refine iff_of_false ?_ fun h => ?_
    · rintro ⟨fuel, vs, hvs, -⟩
      rw [matchInput_of_nil sort hnil] at hvs
      cases hvs
    · obtain ⟨⟨p, v⟩, hm, rfl⟩ := mem_map.mp hnil
      exact h.1 _ v hm rfl
  · have hne : ∀ p v, (p, v) ∈ matchers → p ≠ [] := by
      rintro p v hm rfl
      exact hnil (mem_map.mpr ⟨([], v), hm, rfl⟩)
    rw [and_iff_right hne]
    obtain ⟨vs, hvs, hmem⟩ := matchInput_spec
      (g := ⟨matchers.map Prod.fst, matchers.map Prod.snd⟩) sort hnil (le_refl input.length)
    have hwrapped : ∀ v, v ∈ vs ↔ Wrapped matchers input v := by
      simp [hmem, Wrapped, eq_comm]
    constructor
    · rintro ⟨fuel, vs', hvs', hexact⟩ i p v - hi hin
      have hmax := (matchInput_mono (Nat.le_max_left _ fuel) hvs).symm.trans
        (matchInput_mono (Nat.le_max_right _ _) hvs')
      cases hmax
      simp only [hwrapped] at hexact
      exact ⟨(hexact _).mp ⟨i, p, v, hi, hin, rfl⟩, (hexact v).mpr ⟨p, mem_of_getElem? hi, hin⟩⟩
    · intro h
      refine ⟨_, vs, hvs, fun v => (hwrapped v).trans ⟨?_, ?_⟩⟩
      · rintro ⟨i, p, w, hi, hin, rfl⟩
        rcases lt_or_ge i (2 ^ 16) with hlt | hge
        · rw [getD_values hi hlt]
          exact ⟨p, mem_of_getElem? hi, hin⟩
        · exact (h i p w hge hi hin).1
      · rintro ⟨p, hm, hin⟩
        obtain ⟨i, hi⟩ := mem_iff_getElem?.mp hm
        rcases lt_or_ge i (2 ^ 16) with hlt | hge
        · exact ⟨i, p, v, hi, hin, getD_values hi hlt⟩
        · exact (h i p v hge hi hin).2

/-- The search for an empty pattern does not end. -/
theorem substrMatcherGroup_empty_pattern :
    ¬ ∃ fuel vs, (ofMatchers [([], 7)]).matchInput .insertion fuel [97] = some vs ∧
      ∀ v, v ∈ vs ↔ Contained [([], 7)] [97] v := by
  rintro ⟨fuel, vs, hvs, -⟩
  rw [matchInput_of_nil _ mem_cons_self] at hvs
  cases hvs

end SubstrMatcherGroup

namespace LinearValueMatcher

variable {g : LinearValueMatcher} {matchers : List (AnyMatcher × UInt32)}

structure Stores (g : LinearValueMatcher) (matchers : List (AnyMatcher × UInt32)) : Prop where
  full : ∀ {input v}, v ∈ ((g.full.getD ∅).lookup input).getD [] ↔
    (.basic ⟨.full, input⟩, v) ∈ matchers
  fullAny : ∀ {input}, ((g.full.getD ∅).lookup input).isSome = true ↔
    ∃ v, (.basic ⟨.full, input⟩, v) ∈ matchers
  domain : ∀ {q v}, v ∈ (g.domain.getD .new).valueAt [] q ↔
    ∃ p, (.basic ⟨.domain, p⟩, v) ∈ matchers ∧ labels p = q
  substr : g.substr.getD .new = ⟨patterns (keywords matchers), (keywords matchers).map Prod.snd⟩
  regex : g.regex.getD [] = regexes matchers

lemma stores_new : Stores new [] where
  full := by simp [new]
  fullAny := by simp [new]
  domain := by
    intro q v
    simp [new, DomainMatcherGroup.new]
  substr := rfl
  regex := rfl

lemma Stores.add (h : Stores g matchers) (m : AnyMatcher) (value : UInt32) :
    Stores (g.add m value) (matchers ++ [(m, value)]) := by
  obtain ⟨type, pattern⟩ | r := m
  · cases type with
    | full =>
      refine ⟨?_, ?_, h.domain.trans (by simp), h.substr.trans (by simp [keywords]),
        h.regex.trans (by simp [regexes])⟩
      · intro input v
        simp only [LinearValueMatcher.add, FullMatcherGroup.addFullMatcher, Option.getD_some,
          GoMap.lookup_insert_eq, mem_append, ← h.full]
        split_ifs with hi
        · subst hi
          simp
        · simp [hi]
      · intro input
        simp only [LinearValueMatcher.add, FullMatcherGroup.addFullMatcher, Option.getD_some,
          GoMap.lookup_insert_eq, mem_append, exists_or, ← h.fullAny]
        split_ifs with hi
        · subst hi
          simp
        · simp [hi]
    | domain =>
      refine ⟨h.full.trans (by simp), h.fullAny.trans (by simp), ?_,
        h.substr.trans (by simp [keywords]), h.regex.trans (by simp [regexes])⟩
      intro q v
      simp only [LinearValueMatcher.add, DomainMatcherGroup.addDomainMatcher, Option.getD_some,
        valueAt_update, mem_append, or_and_right, exists_or, ← h.domain]
      split_ifs with hq
      · simp [hq]
      · simp [Ne.symm hq]
    | substr =>
      refine ⟨h.full.trans (by simp), h.fullAny.trans (by simp), h.domain.trans (by simp), ?_,
        h.regex.trans (by simp [regexes])⟩
      simp [LinearValueMatcher.add, h.substr, SubstrMatcherGroup.addSubstrMatcher, patterns,
        keywords]
  · refine ⟨h.full.trans (by simp), h.fullAny.trans (by simp), h.domain.trans (by simp),
      h.substr.trans (by simp [keywords]), ?_⟩
    simp [LinearValueMatcher.add, h.regex, regexes]

/-! ### What a value matcher returns -/

lemma matchInput_eq (sort : SliceSort) (fuel : Nat) (g : LinearValueMatcher) (input : List UInt8) :
    g.matchInput sort fuel input =
      ((g.substr.getD .new).matchInput sort fuel input).map fun substr =>
        compositeMatches (nonEmpty [((g.full.getD ∅).lookup input).getD [],
          DomainMatcherGroup.matchInput (g.domain.getD .new) input, substr,
          SimpleMatcherGroup.matchInput (g.regex.getD []) input]) := by
  obtain ⟨full, domain, substr, regex⟩ := g
  have hfull : (full.map fun full => FullMatcherGroup.matchInput full input).getD [] =
      ((full.getD ∅).lookup input).getD [] := by
    cases full <;> rfl
  have hregex : (regex.map fun regex => regex.matchInput input).getD [] =
      SimpleMatcherGroup.matchInput (regex.getD []) input := by
    cases regex <;> rfl
  have hdomain : (domain.map fun domain => DomainMatcherGroup.matchInput domain input).getD [] =
      DomainMatcherGroup.matchInput (domain.getD .new) input := by
    cases domain with
    | none =>
      unfold DomainMatcherGroup.matchInput
      rw [walk_of_leaf rfl]
      rfl
    | some domain => rfl
  have hsubstr : (substr.map fun substr => substr.matchInput sort fuel input).getD (some []) =
      (substr.getD .new).matchInput sort fuel input := by
    cases substr <;> rfl
  rw [matchInput, hsubstr]
  rw [hfull, hregex, hdomain]
  cases (substr.getD .new).matchInput sort fuel input <;> rfl

lemma matchInput_mono {sort : SliceSort} {fuel fuel' : Nat} (hle : fuel ≤ fuel')
    {vs : List UInt32} (h : g.matchInput sort fuel input = some vs) :
    g.matchInput sort fuel' input = some vs := by
  rw [matchInput_eq] at h ⊢
  obtain ⟨substr, hsubstr, rfl⟩ := Option.map_eq_some_iff.mp h
  rw [SubstrMatcherGroup.matchInput_mono hle hsubstr]
  rfl

lemma matchAny_eq (g : LinearValueMatcher) (input : List UInt8) :
    g.matchAny input =
      (((g.full.getD ∅).lookup input).isSome ||
        DomainMatcherGroup.matchAny (g.domain.getD .new) input ||
        (g.substr.getD .new).matchAny input ||
        SimpleMatcherGroup.matchAny (g.regex.getD []) input) := by
  obtain ⟨full, domain, substr, regex⟩ := g
  have hdomain : (domain.any fun domain => DomainMatcherGroup.matchAny domain input) =
      DomainMatcherGroup.matchAny (domain.getD .new) input := by
    cases domain with
    | none => exact (walkAny_of_leaf rfl).symm
    | some domain => rfl
  rw [matchAny, hdomain]
  cases full <;> cases substr <;> cases regex <;> rfl

lemma Stores.mem_domain (h : Stores g matchers) :
    v ∈ DomainMatcherGroup.matchInput (g.domain.getD .new) input ↔
      ∃ p, (.basic ⟨.domain, p⟩, v) ∈ matchers ∧ TrieAccepts input p := by
  simp only [DomainMatcherGroup.mem_matchInput, h.domain, exists_labels_mem_starts]

lemma Stores.domainAny (h : Stores g matchers) :
    DomainMatcherGroup.matchAny (g.domain.getD .new) input = true ↔
      ∃ v p, (.basic ⟨.domain, p⟩, v) ∈ matchers ∧ TrieAccepts input p := by
  simp only [DomainMatcherGroup.matchAny_iff, h.mem_domain]

lemma exists_matcher {P : AnyMatcher → Prop} :
    (∃ m, (m, v) ∈ matchers ∧ P m) ↔
      (∃ p, (.basic ⟨.full, p⟩, v) ∈ matchers ∧ P (.basic ⟨.full, p⟩)) ∨
        (∃ p, (.basic ⟨.domain, p⟩, v) ∈ matchers ∧ P (.basic ⟨.domain, p⟩)) ∨
        (∃ p, (.basic ⟨.substr, p⟩, v) ∈ matchers ∧ P (.basic ⟨.substr, p⟩)) ∨
        ∃ r, (.regex r, v) ∈ matchers ∧ P (.regex r) := by
  constructor
  · rintro ⟨⟨type, p⟩ | r, hm, hP⟩
    · cases type with
      | full => exact .inl ⟨p, hm, hP⟩
      | domain => exact .inr (.inl ⟨p, hm, hP⟩)
      | substr => exact .inr (.inr (.inl ⟨p, hm, hP⟩))
    · exact .inr (.inr (.inr ⟨r, hm, hP⟩))
  · rintro (⟨p, hm, hP⟩ | ⟨p, hm, hP⟩ | ⟨p, hm, hP⟩ | ⟨r, hm, hP⟩)
    · exact ⟨_, hm, hP⟩
    · exact ⟨_, hm, hP⟩
    · exact ⟨_, hm, hP⟩
    · exact ⟨_, hm, hP⟩

lemma mem_patterns_keywords :
    p ∈ patterns (keywords matchers) ↔ ∃ v, (.basic ⟨.substr, p⟩, v) ∈ matchers := by
  unfold patterns
  rw [mem_map]
  constructor
  · rintro ⟨⟨⟨type, p⟩, v⟩, hm, rfl⟩
    obtain ⟨hm, rfl⟩ := mem_keywords.mp hm
    exact ⟨v, hm⟩
  · rintro ⟨v, hm⟩
    exact ⟨(⟨.substr, p⟩, v), mem_keywords.mpr ⟨hm, rfl⟩, rfl⟩

lemma getElem?_patterns {ms : List (Matcher × UInt32)} {i : Nat} :
    (patterns ms)[i]? = some p ↔ ∃ m w, ms[i]? = some (m, w) ∧ m.pattern = p := by
  simp [patterns]

/-- The value of a matcher that is accepted, but for a keyword the value of the keyword at the low
16 bits of its index. -/
def Returned (matchers : List (AnyMatcher × UInt32)) (input : List UInt8) (v : UInt32) : Prop :=
  (∃ m, (m, v) ∈ matchers ∧ m.isKeyword = false ∧ LinearAccepts input m) ∨
    ∃ i m w, (keywords matchers)[i]? = some (m, w) ∧ m.pattern <:+: input ∧
      v = ((keywords matchers).map Prod.snd).getD (i % 2 ^ 16) 0

/-- **What a linear value matcher returns.** With an empty keyword `Match` does not return. -/
theorem Stores.matchInput (h : Stores g matchers) (sort : SliceSort)
    (hne : [] ∉ patterns (keywords matchers)) {fuel : Nat} (hfuel : input.length ≤ fuel) :
    ∃ vs, g.matchInput sort fuel input = some vs ∧ ∀ v, v ∈ vs ↔ Returned matchers input v := by
  rw [matchInput_eq, h.substr]
  obtain ⟨substr, hsubstr, hmem⟩ := SubstrMatcherGroup.matchInput_spec sort
    (g := ⟨patterns (keywords matchers), (keywords matchers).map Prod.snd⟩) hne hfuel
  rw [hsubstr]
  refine ⟨_, rfl, fun v => ?_⟩
  rw [mem_compositeMatches]
  simp only [mem_cons, not_mem_nil, or_false, exists_eq_or_imp, exists_eq_left, h.full,
    h.mem_domain, hmem, h.regex, mem_regex_part]
  constructor
  · rintro (hv | ⟨p, hv, hacc⟩ | ⟨i, p, hp, hin, rfl⟩ | ⟨r, hr, hacc⟩)
    · exact .inl ⟨.basic ⟨.full, input⟩, hv, rfl, rfl⟩
    · exact .inl ⟨.basic ⟨.domain, p⟩, hv, rfl, hacc⟩
    · obtain ⟨m, w, hm, rfl⟩ := getElem?_patterns.mp hp
      exact .inr ⟨i, m, w, hm, hin, rfl⟩
    · exact .inl ⟨.regex r, hr, rfl, hacc⟩
  · rintro (hm | ⟨i, m, w, hm, hin, rfl⟩)
    · rcases exists_matcher.mp hm with ⟨p, hp, -, rfl⟩ | ⟨p, hp, -, hacc⟩ | ⟨p, -, hk, -⟩ |
        ⟨r, hr, -, hacc⟩
      · exact .inl hp
      · exact .inr (.inl ⟨p, hp, hacc⟩)
      · cases hk
      · exact .inr (.inr (.inr ⟨r, hr, hacc⟩))
    · exact .inr (.inr (.inl ⟨i, _, getElem?_patterns.mpr ⟨m, w, hm, rfl⟩, hin, rfl⟩))

/-- An empty keyword keeps `Match` from returning. -/
theorem Stores.matchInput_of_nil (h : Stores g matchers) (sort : SliceSort)
    (hnil : [] ∈ patterns (keywords matchers)) (fuel : Nat) :
    g.matchInput sort fuel input = none := by
  rw [matchInput_eq, h.substr, SubstrMatcherGroup.matchInput_of_nil sort hnil]
  rfl

/-- `MatchAny` tells whether a matcher is accepted. -/
theorem Stores.matchAny (h : Stores g matchers) :
    g.matchAny input = true ↔ ∃ v m, (m, v) ∈ matchers ∧ LinearAccepts input m := by
  rw [matchAny_eq, h.substr, h.regex]
  simp only [Bool.or_eq_true, h.fullAny, h.domainAny, SubstrMatcherGroup.matchAny, contains_iff,
    any_eq_true, mem_patterns_keywords, regexAny_iff, exists_matcher, exists_or, or_assoc]
  refine or_congr ?_ (or_congr_right (or_congr_left ?_))
  · simp [LinearAccepts]
  · constructor
    · rintro ⟨p, ⟨v, hm⟩, hin⟩
      exact ⟨v, p, hm, hin⟩
    · rintro ⟨v, p, hm, hin⟩
      exact ⟨p, ⟨v, hm⟩, hin⟩

end LinearValueMatcher

/-! ### The matcher without values -/

namespace LinearAnyMatcher

variable {s : LinearAnyMatcher} {matchers : List AnyMatcher}

structure Stores (s : LinearAnyMatcher) (matchers : List AnyMatcher) : Prop where
  full : ∀ {input}, ((s.full.getD ∅).lookup input).isSome = true ↔
    .basic ⟨.full, input⟩ ∈ matchers
  domain : ∀ {q}, (s.domain.getD .new).valueAt false q = true ↔
    ∃ p, .basic ⟨.domain, p⟩ ∈ matchers ∧ labels p = q
  substr : ∀ {p}, p ∈ s.substr.getD [] ↔ .basic ⟨.substr, p⟩ ∈ matchers
  regex : ∀ {m}, m ∈ s.regex.getD [] ↔ m ∈ matchers ∧ ∃ r, m = .regex r

lemma stores_new : Stores new [] where
  full := by simp [new]
  domain := by
    intro q
    simp [new, DomainMatcherSet.new]
  substr := by simp [new]
  regex := by simp [new]

/-- Only a regular expression goes to the list. -/
lemma Stores.regex_concat (h : Stores s matchers) (b : Matcher) {m : AnyMatcher} :
    m ∈ s.regex.getD [] ↔ m ∈ matchers ++ [.basic b] ∧ ∃ r, m = .regex r := by
  rw [h.regex]
  refine and_congr_left ?_
  rintro ⟨r, rfl⟩
  simp

lemma Stores.add (h : Stores s matchers) (m : AnyMatcher) : Stores (s.add m) (matchers ++ [m]) := by
  obtain ⟨type, pattern⟩ | r := m
  · cases type with
    | full =>
      refine ⟨?_, h.domain.trans (by simp), h.substr.trans (by simp), h.regex_concat _⟩
      intro input
      simp only [LinearAnyMatcher.add, Option.getD_some, GoMap.lookup_insert_eq, mem_append,
        ← h.full]
      split_ifs with hi
      · simp [hi]
      · simp [hi]
    | domain =>
      refine ⟨h.full.trans (by simp), ?_, h.substr.trans (by simp), h.regex_concat _⟩
      intro q
      simp only [LinearAnyMatcher.add, DomainMatcherSet.addDomainMatcher, Option.getD_some,
        valueAt_update, mem_append, or_and_right, exists_or, ← h.domain,
        mem_singleton, AnyMatcher.basic.injEq, Matcher.mk.injEq, true_and, exists_eq_left]
      split_ifs with hq
      · simp [hq]
      · simp [Ne.symm hq]
    | substr =>
      refine ⟨h.full.trans (by simp), h.domain.trans (by simp), ?_, h.regex_concat _⟩
      simp [LinearAnyMatcher.add, h.substr]
  · refine ⟨h.full.trans (by simp), h.domain.trans (by simp), h.substr.trans (by simp), ?_⟩
    intro m
    simp only [LinearAnyMatcher.add, Option.getD_some, mem_append, mem_singleton,
      h.regex, or_and_right]
    refine or_congr_right ⟨?_, And.left⟩
    rintro rfl
    exact ⟨rfl, r, rfl⟩

/-- The trie of marks tells whether it accepts a domain. -/
lemma Stores.domainAny (h : Stores s matchers) :
    DomainMatcherSet.matchAny (s.domain.getD .new) input = true ↔
      ∃ p, .basic ⟨.domain, p⟩ ∈ matchers ∧ TrieAccepts input p := by
  rw [DomainMatcherSet.matchAny, walkAny_iff (id_eq false)]
  simp only [id, h.domain, exists_labels_mem_starts]

lemma matchAny_eq (s : LinearAnyMatcher) (input : List UInt8) :
    s.matchAny input =
      (((s.full.getD ∅).lookup input).isSome ||
        DomainMatcherSet.matchAny (s.domain.getD .new) input ||
        ((s.substr.getD []).any fun pattern => contains input pattern) ||
        (s.regex.getD []).any fun m => m.accepts input) := by
  obtain ⟨full, domain, substr, regex⟩ := s
  have hdomain : (domain.any fun domain => DomainMatcherSet.matchAny domain input) =
      DomainMatcherSet.matchAny (domain.getD .new) input := by
    cases domain with
    | none => exact (walkAny_of_leaf rfl).symm
    | some domain => rfl
  rw [matchAny, hdomain]
  cases full <;> cases substr <;> cases regex <;> rfl

/-- `MatchAny` tells whether a matcher is accepted. -/
theorem Stores.matchAny (h : Stores s matchers) :
    s.matchAny input = true ↔ ∃ m ∈ matchers, LinearAccepts input m := by
  rw [matchAny_eq]
  simp only [Bool.or_eq_true, h.full, h.domainAny, any_eq_true, h.substr, contains_iff, h.regex]
  constructor
  · rintro (((hm | ⟨p, hm, hacc⟩) | ⟨p, hm, hin⟩) | ⟨_, ⟨hm, r, rfl⟩, hacc⟩)
    · exact ⟨_, hm, rfl⟩
    · exact ⟨_, hm, hacc⟩
    · exact ⟨_, hm, hin⟩
    · exact ⟨_, hm, hacc⟩
  · rintro ⟨⟨type, p⟩ | r, hm, hacc⟩
    · cases type with
      | full =>
        have hp : p = input := hacc
        subst hp
        exact .inl (.inl (.inl hm))
      | domain => exact .inl (.inl (.inr ⟨p, hm, hacc⟩))
      | substr => exact .inl (.inr ⟨p, hm, hacc⟩)
    · exact .inr ⟨_, ⟨hm, r, rfl⟩, hacc⟩

end LinearAnyMatcher
end BypassCore.StrMatcher
