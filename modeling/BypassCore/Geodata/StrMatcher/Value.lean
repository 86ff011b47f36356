import BypassCore.Geodata.StrMatcher.Mph
import BypassCore.Geodata.StrMatcher.AC.Exact

/-!
# The value matcher with a hash table and an automaton

`MphValueMatcher` of the `strmatcher` package binds values to matchers of any type: full and domain
matchers go to a minimal perfect hash group, keywords to an automaton, and regular expressions to a
list. What a regular expression accepts is a parameter.
-/

namespace BypassCore.StrMatcher

open Lib MphMatcherGroup ASCII

structure RegexMatcher where
  accepts : List UInt8 → Bool

inductive AnyMatcher
  | basic (m : Matcher)
  | regex (m : RegexMatcher)

def AnyMatcher.accepts : AnyMatcher → List UInt8 → Bool
  | .basic m => m.accepts
  | .regex m => m.accepts

def compositeMatches (matched : List (List UInt32)) : List UInt32 := matched.flatten

def nonEmpty (matched : List (List UInt32)) : List (List UInt32) :=
  matched.filter fun m => 0 < m.length

@[simp] lemma mem_compositeMatches {matched : List (List UInt32)} {v : UInt32} :
    v ∈ compositeMatches (nonEmpty matched) ↔ ∃ m ∈ matched, v ∈ m := by
  simp only [compositeMatches, nonEmpty, List.mem_flatten, List.mem_filter, decide_eq_true_eq]
  constructor
  · rintro ⟨m, ⟨hm, -⟩, hv⟩
    exact ⟨m, hm, hv⟩
  · rintro ⟨m, hm, hv⟩
    exact ⟨m, ⟨hm, List.length_pos_of_mem hv⟩, hv⟩

abbrev SimpleMatcherGroup := List (AnyMatcher × UInt32)

namespace SimpleMatcherGroup

def matchInput (g : SimpleMatcherGroup) (input : List UInt8) : List UInt32 :=
  (g.filter fun e => e.1.accepts input).map Prod.snd

def matchAny (g : SimpleMatcherGroup) (input : List UInt8) : Bool :=
  g.any fun e => e.1.accepts input

end SimpleMatcherGroup

structure MphValueMatcher where
  mph : Option MphMatcherGroup
  ac : Option ACAutomatonMatcherGroup
  regex : Option SimpleMatcherGroup

namespace MphValueMatcher

def new : MphValueMatcher := ⟨none, none, none⟩

/-- `Add`. Patterns are ASCII, so that `strings.ToLower` changes ASCII letters only. -/
def add (g : MphValueMatcher) (matcher : AnyMatcher) (value : UInt32) : MphValueMatcher :=
  match matcher with
  | .basic m =>
    match m.type with
    | .full =>
      { g with mph := some ((g.mph.getD .new).addFullMatcher toLower m.pattern value) }
    | .domain =>
      { g with mph := some ((g.mph.getD .new).addDomainMatcher toLower m.pattern value) }
    | .substr => { g with ac := some ((g.ac.getD .new).addSubstrMatcher m.pattern value) }
  | .regex m => { g with regex := some (g.regex.getD [] ++ [(.regex m, value)]) }

/-- `Build`, with fuel for the seeds of the hash table. -/
def build (memHash : UInt32 → List UInt8 → UInt32) (sort : SliceSort) (fuel : Nat)
    (g : MphValueMatcher) : Option MphValueMatcher := do
  let mph ← g.mph.mapM fun mph => mph.build memHash sort fuel
  let ac ← g.ac.mapM fun ac => ac.build ac.nodes.length
  return { g with mph, ac }

def matchInput (memHash : UInt32 → List UInt8 → UInt32) (g : MphValueMatcher)
    (input : List UInt8) : Option (List UInt32) := do
  let ac ← (g.ac.map fun ac => ac.matchInput (2 * ac.nodes.length) input).getD (some [])
  let mph := (g.mph.map fun mph => mph.matchInput memHash input).getD []
  let regex := (g.regex.map fun regex => regex.matchInput input).getD []
  return compositeMatches (nonEmpty [mph, ac, regex])

def matchAny (memHash : UInt32 → List UInt8 → UInt32) (g : MphValueMatcher)
    (input : List UInt8) : Bool :=
  g.mph.any (fun mph => mph.matchAny memHash input) || g.ac.any (fun ac => ac.matchAny input) ||
    g.regex.any fun regex => regex.matchAny input

variable {memHash : UInt32 → List UInt8 → UInt32}

lemma matchInput_eq {g : MphValueMatcher} {input : List UInt8} {ac : List UInt32}
    (h : (g.ac.map fun ac => ac.matchInput (2 * ac.nodes.length) input).getD (some []) = some ac) :
    g.matchInput memHash input =
      some (compositeMatches (nonEmpty [(g.mph.map fun mph => mph.matchInput memHash input).getD [],
        ac, (g.regex.map fun regex => regex.matchInput input).getD []])) := by
  rw [matchInput, h]
  rfl

lemma build_eq_some {sort : SliceSort} {fuel : Nat}
    {g g' : MphValueMatcher} (hbuild : g.build memHash sort fuel = some g') :
    (g.mph.mapM fun mph => mph.build memHash sort fuel) = some g'.mph ∧
      (g.ac.mapM fun ac => ac.build ac.nodes.length) = some g'.ac ∧ g'.regex = g.regex := by
  obtain ⟨mph, hmph, hbuild⟩ := Option.bind_eq_some_iff.mp hbuild
  obtain ⟨ac, hac, hbuild⟩ := Option.bind_eq_some_iff.mp hbuild
  cases hbuild
  exact ⟨hmph, hac, rfl⟩

/-- A part that has been built was there before. -/
lemma mapM_eq_some {α β : Type} {f : α → Option β} {x : Option α} {b : β}
    (h : x.mapM f = some (some b)) : ∃ a, x = some a ∧ f a = some b := by
  cases x with
  | none => cases h
  | some a =>
    obtain ⟨b', hb', h⟩ := Option.map_eq_some_iff.mp h
    cases h
    exact ⟨a, rfl, hb'⟩

end MphValueMatcher

/-!
## What the value matcher returns

The value matcher with a hash table and an automaton returns the values of the matchers it accepts.
On patterns without a dot in front that are not empty this is what the matchers themselves accept.
The hash table takes a full pattern with a dot in front for every input that ends in it, and the
automaton sees an empty keyword only where it falls back to its root.
-/

open List

open ACAutomatonMatcherGroup (LDH Lower Fits Keywords KeywordSeen patterns)

variable {input : List UInt8} {v : UInt32}

/-! ### The parts of the matcher -/

def hashed (matchers : List (AnyMatcher × UInt32)) : List (Matcher × UInt32) :=
  matchers.filterMap fun
    | (.basic m, v) => if m.type = .substr then none else some (m, v)
    | (.regex _, _) => none

def keywords (matchers : List (AnyMatcher × UInt32)) : List (Matcher × UInt32) :=
  matchers.filterMap fun
    | (.basic m, v) => if m.type = .substr then some (m, v) else none
    | (.regex _, _) => none

def regexes (matchers : List (AnyMatcher × UInt32)) : List (AnyMatcher × UInt32) :=
  matchers.filterMap fun
    | (.basic _, _) => none
    | (.regex m, v) => some (.regex m, v)

variable {matchers : List (AnyMatcher × UInt32)}

lemma hashed_append (l l' : List (AnyMatcher × UInt32)) :
    hashed (l ++ l') = hashed l ++ hashed l' :=
  filterMap_append

lemma keywords_append (l l' : List (AnyMatcher × UInt32)) :
    keywords (l ++ l') = keywords l ++ keywords l' :=
  filterMap_append

lemma regexes_append (l l' : List (AnyMatcher × UInt32)) :
    regexes (l ++ l') = regexes l ++ regexes l' :=
  filterMap_append

variable {m : Matcher}

lemma mem_hashed : (m, v) ∈ hashed matchers ↔ (.basic m, v) ∈ matchers ∧ m.type ≠ .substr := by
  simp only [hashed, mem_filterMap]
  constructor
  · rintro ⟨⟨m' | m', v'⟩, hm, h⟩
    · obtain ⟨ht, h⟩ := Option.ite_none_left_eq_some.mp h
      cases h
      exact ⟨hm, ht⟩
    · cases h
  · rintro ⟨hm, ht⟩
    exact ⟨_, hm, if_neg ht⟩

lemma mem_keywords : (m, v) ∈ keywords matchers ↔ (.basic m, v) ∈ matchers ∧ m.type = .substr := by
  simp only [keywords, mem_filterMap]
  constructor
  · rintro ⟨⟨m' | m', v'⟩, hm, h⟩
    · dsimp only at h
      split_ifs at h with ht
      cases h
      exact ⟨hm, ht⟩
    · cases h
  · rintro ⟨hm, ht⟩
    exact ⟨_, hm, if_pos ht⟩

lemma mem_regexes {m : AnyMatcher} :
    (m, v) ∈ regexes matchers ↔ (m, v) ∈ matchers ∧ ∃ r, m = .regex r := by
  simp only [regexes, mem_filterMap]
  constructor
  · rintro ⟨⟨m' | r, v'⟩, hm, h⟩
    · cases h
    · cases h
      exact ⟨hm, r, rfl⟩
  · rintro ⟨hm, r, rfl⟩
    exact ⟨_, hm, rfl⟩

lemma mem_regex_part :
    v ∈ SimpleMatcherGroup.matchInput (regexes matchers) input ↔
      ∃ r, (.regex r, v) ∈ matchers ∧ r.accepts input = true := by
  simp only [SimpleMatcherGroup.matchInput, mem_map, mem_filter, Prod.exists,
    exists_eq_right, mem_regexes]
  constructor
  · rintro ⟨_, ⟨hm, r, rfl⟩, hacc⟩
    exact ⟨r, hm, hacc⟩
  · rintro ⟨r, hm, hacc⟩
    exact ⟨.regex r, ⟨hm, r, rfl⟩, hacc⟩

lemma regexAny_iff :
    SimpleMatcherGroup.matchAny (regexes matchers) input = true ↔
      ∃ v r, (.regex r, v) ∈ matchers ∧ r.accepts input = true := by
  simp only [SimpleMatcherGroup.matchAny, any_eq_true, Prod.exists, mem_regexes]
  constructor
  · rintro ⟨_, v, ⟨hm, r, rfl⟩, hacc⟩
    exact ⟨v, r, hm, hacc⟩
  · rintro ⟨v, r, hm, hacc⟩
    exact ⟨.regex r, v, ⟨hm, r, rfl⟩, hacc⟩

namespace MphValueMatcher

lemma mph_concat (toLower : List UInt8 → List UInt8) (ms : List (Matcher × UInt32))
    (m : Matcher × UInt32) :
    ofMatchers toLower (ms ++ [m]) = (ofMatchers toLower ms).addMatcher toLower m :=
  foldl_append

lemma ac_concat (ms : List (Matcher × UInt32)) (m : Matcher × UInt32) :
    ACAutomatonMatcherGroup.ofMatchers (ms ++ [m]) =
      (ACAutomatonMatcherGroup.ofMatchers ms).addMatcher m :=
  foldl_append

def ifAny {α β : Type} : List α → β → Option β
  | [], _ => none
  | _ :: _, b => some b

@[simp] lemma ifAny_concat {α β : Type} (l : List α) (a : α) (b : β) :
    ifAny (l ++ [a]) b = some b := by
  cases l <;> rfl

lemma ifAny_of_ne_nil {α β : Type} {l : List α} (h : l ≠ []) (b : β) : ifAny l b = some b := by
  cases l with
  | nil => exact absurd rfl h
  | cons a l => rfl

def collected (matchers : List (AnyMatcher × UInt32)) : MphValueMatcher where
  mph := ifAny (hashed matchers) (ofMatchers toLower (hashed matchers))
  ac := ifAny (keywords matchers) (ACAutomatonMatcherGroup.ofMatchers (keywords matchers))
  regex := ifAny (regexes matchers) (regexes matchers)

lemma getD_mph_collected :
    (collected matchers).mph.getD .new = ofMatchers toLower (hashed matchers) := by
  unfold collected
  cases hashed matchers <;> rfl

lemma getD_ac_collected :
    (collected matchers).ac.getD .new = ACAutomatonMatcherGroup.ofMatchers (keywords matchers) := by
  unfold collected
  cases keywords matchers <;> rfl

lemma getD_regex_collected : (collected matchers).regex.getD [] = regexes matchers := by
  unfold collected
  cases regexes matchers <;> rfl

lemma collected_concat (m : AnyMatcher) (value : UInt32) :
    collected (matchers ++ [(m, value)]) = (collected matchers).add m value := by
  rw [collected, hashed_append, keywords_append, regexes_append]
  cases m with
  | regex r =>
    have hhashed : hashed [(.regex r, value)] = [] := rfl
    have hkeywords : keywords [(.regex r, value)] = [] := rfl
    have hregexes : regexes [(.regex r, value)] = [(.regex r, value)] := rfl
    rw [hhashed, hkeywords, hregexes, append_nil, append_nil, ifAny_concat, add,
      getD_regex_collected]
    rfl
  | basic b =>
    have hregexes : regexes [(.basic b, value)] = [] := rfl
    rw [hregexes, append_nil]
    by_cases ht : b.type = .substr
    · have hhashed : hashed [(.basic b, value)] = [] := by simp [hashed, ht]
      have hkeywords : keywords [(.basic b, value)] = [(b, value)] := by simp [keywords, ht]
      rw [hhashed, hkeywords, append_nil, ifAny_concat, ac_concat, ← getD_ac_collected]
      simp only [add, ACAutomatonMatcherGroup.addMatcher, ht]
      rfl
    · have hhashed : hashed [(.basic b, value)] = [(b, value)] := by simp [hashed, ht]
      have hkeywords : keywords [(.basic b, value)] = [] := by simp [keywords, ht]
      rw [hhashed, hkeywords, append_nil, ifAny_concat, mph_concat, ← getD_mph_collected]
      obtain ⟨_ | _ | _, pattern⟩ := b
      · rfl
      · rfl
      · exact absurd rfl ht

end MphValueMatcher

/-- What the value matcher makes of one of its matchers, given all its keywords. -/
def HashAccepts (all : List (List UInt8)) (input : List UInt8) : AnyMatcher → Prop
  | .basic m => TableAccepts input m ∨ (m.type = .substr ∧ KeywordSeen all input m.pattern)
  | .regex m => m.accepts input = true

def ValidPatterns (matchers : List (AnyMatcher × UInt32)) : Prop :=
  ∀ m v, (.basic m, v) ∈ matchers → LDH m.pattern

lemma toLower_of_ldh {p : List UInt8} (h : LDH p) : toLower p = p := by
  refine (map_congr_left ?_).trans (map_id p)
  intro b hb
  have hb := ACAutomatonMatcherGroup.isPatternByte_iff.mp (h b hb)
  apply UInt8.toNat_inj.mp
  rw [toNat_lowerByte, if_neg (by omega)]
  rfl

/-! ### The three parts -/

namespace MphValueMatcher

variable {memHash : UInt32 → List UInt8 → UInt32} {sort : SliceSort} {fuel : Nat}

lemma mph_part (input : List UInt8) (hvalid : ValidPatterns matchers)
    (hsize : (ofMatchers toLower (hashed matchers)).rules.length ≤ 2 ^ 32)
    {mph : Option MphMatcherGroup}
    (hbuild : ((collected matchers).mph.mapM fun mph => mph.build memHash sort fuel) = some mph) :
    (∀ v, v ∈ (mph.map fun mph => mph.matchInput memHash input).getD [] ↔
        ∃ m, (m, v) ∈ hashed matchers ∧ TableAccepts input m) ∧
      ((mph.any fun mph => mph.matchAny memHash input) = true ↔
        ∃ v m, (m, v) ∈ hashed matchers ∧ TableAccepts input m) := by
  unfold collected at hbuild
  by_cases hnil : hashed matchers = []
  · rw [hnil] at hbuild
    cases hbuild
    simp [hnil]
  · rw [ifAny_of_ne_nil hnil] at hbuild
    obtain ⟨g, hg, rfl⟩ := Option.map_eq_some_iff.mp hbuild
    have hlower : ∀ m ∈ hashed matchers, toLower m.1.pattern = m.1.pattern := by
      rintro ⟨m, w⟩ hm
      exact toLower_of_ldh (hvalid m w (mem_hashed.mp hm).1)
    have hserves := (registers_ofMatchers hlower).build no_substr_registration hsize hg
    refine ⟨fun v => ?_, ?_⟩
    · exact hserves.mem_matchInput.trans lookedUp_flatMap
    · rw [Option.any_some, hserves.matchAny_iff]
      constructor
      · rintro ⟨s, t, v, hs⟩
        obtain ⟨m, hm⟩ := lookedUp_flatMap.mp ⟨s, t, hs⟩
        exact ⟨v, m, hm⟩
      · rintro ⟨v, m, hm⟩
        obtain ⟨s, t, hs⟩ := lookedUp_flatMap.mpr ⟨m, hm⟩
        exact ⟨s, t, v, hs⟩

lemma ac_part (hvalid : ValidPatterns matchers)
    (hfits : Fits (ACAutomatonMatcherGroup.ofMatchers (keywords matchers))) (hs : Lower input)
    {ac : Option ACAutomatonMatcherGroup}
    (hbuild : ((collected matchers).ac.mapM fun ac => ac.build ac.nodes.length) = some ac) :
    (∃ vs, (ac.map fun ac => ac.matchInput (2 * ac.nodes.length) input).getD (some []) = some vs ∧
        ∀ v, v ∈ vs ↔ ∃ m, (m, v) ∈ keywords matchers ∧
          KeywordSeen (patterns (keywords matchers)) input m.pattern) ∧
      ((ac.any fun ac => ac.matchAny input) = true ↔
        (∃ v m, (m, v) ∈ keywords matchers ∧
            KeywordSeen (patterns (keywords matchers)) input m.pattern) ∨
          (input = [] ∧ [] ∈ patterns (keywords matchers))) := by
  unfold collected at hbuild
  by_cases hnil : keywords matchers = []
  · rw [hnil] at hbuild
    cases hbuild
    exact ⟨⟨[], rfl, by simp [hnil]⟩, by simp [hnil, patterns]⟩
  · rw [ifAny_of_ne_nil hnil] at hbuild
    obtain ⟨g, hg, rfl⟩ := Option.map_eq_some_iff.mp hbuild
    have hkeywords : Keywords (keywords matchers) := by
      refine ⟨?_, ?_⟩
      · rintro ⟨m, w⟩ hm
        exact (mem_keywords.mp hm).2
      · rintro ⟨m, w⟩ hm
        exact hvalid m w (mem_keywords.mp hm).1
    obtain ⟨g', hg', hmatch, hany⟩ := hkeywords.exact hfits hs
    obtain rfl : g = g' := Option.some_inj.mp (hg.symm.trans hg')
    exact ⟨hmatch, hany⟩

lemma regex_part (matchers : List (AnyMatcher × UInt32)) (input : List UInt8) :
    ((collected matchers).regex.map fun regex => regex.matchInput input).getD [] =
        SimpleMatcherGroup.matchInput (regexes matchers) input ∧
      ((collected matchers).regex.any fun regex => regex.matchAny input) =
        SimpleMatcherGroup.matchAny (regexes matchers) input := by
  unfold collected
  cases regexes matchers <;> exact ⟨rfl, rfl⟩

/-- A matcher is accepted by the part it goes to. -/
lemma exists_hashAccepts {all : List (List UInt8)} :
    (∃ m, (m, v) ∈ matchers ∧ HashAccepts all input m) ↔
      (∃ m, (m, v) ∈ hashed matchers ∧ TableAccepts input m) ∨
        (∃ m, (m, v) ∈ keywords matchers ∧ KeywordSeen all input m.pattern) ∨
        (∃ r, (.regex r, v) ∈ matchers ∧ r.accepts input = true) := by
  simp only [mem_hashed, mem_keywords]
  constructor
  · rintro ⟨m | r, hm, h⟩
    · rcases h with h | ⟨ht, h⟩
      · refine .inl ⟨m, ⟨hm, ?_⟩, h⟩
        intro ht
        rw [TableAccepts, ht] at h
        exact h
      · exact .inr (.inl ⟨m, ⟨hm, ht⟩, h⟩)
    · exact .inr (.inr ⟨r, hm, h⟩)
  · rintro (⟨m, ⟨hm, -⟩, h⟩ | ⟨m, ⟨hm, ht⟩, h⟩ | ⟨r, hm, h⟩)
    · exact ⟨.basic m, hm, .inl h⟩
    · exact ⟨.basic m, hm, .inr ⟨ht, h⟩⟩
    · exact ⟨.regex r, hm, h⟩

/-- **What the value matcher returns.** After a build that returns, `Match` returns the values of
the matchers it accepts, and `MatchAny` tells whether there is one, except that for an empty input
any empty keyword counts. -/
theorem exact (hvalid : ValidPatterns matchers)
    (hsize : (ofMatchers toLower (hashed matchers)).rules.length ≤ 2 ^ 32)
    (hfits : Fits (ACAutomatonMatcherGroup.ofMatchers (keywords matchers))) {g : MphValueMatcher}
    (hbuild : (collected matchers).build memHash sort fuel = some g) (hs : Lower input) :
    (∃ vs, g.matchInput memHash input = some vs ∧
        ∀ v, v ∈ vs ↔ ∃ m, (m, v) ∈ matchers ∧
          HashAccepts (patterns (keywords matchers)) input m) ∧
      (g.matchAny memHash input = true ↔
        (∃ v m, (m, v) ∈ matchers ∧ HashAccepts (patterns (keywords matchers)) input m) ∨
          (input = [] ∧ [] ∈ patterns (keywords matchers))) := by
  obtain ⟨hmphBuild, hacBuild, hregexBuild⟩ := build_eq_some hbuild
  obtain ⟨hmph, hmphAny⟩ := mph_part input hvalid hsize hmphBuild
  obtain ⟨⟨acMatched, hacMatched, hac⟩, hacAny⟩ := ac_part hvalid hfits hs hacBuild
  have hregex := regex_part matchers input
  rw [← hregexBuild] at hregex
  constructor
  · refine ⟨_, matchInput_eq hacMatched, fun v => ?_⟩
    rw [mem_compositeMatches, exists_hashAccepts, ← hmph, ← hac, ← mem_regex_part, hregex.1]
    simp
  · simp only [exists_hashAccepts, exists_or]
    rw [MphValueMatcher.matchAny, Bool.or_eq_true, Bool.or_eq_true, hmphAny, hacAny, hregex.2,
      regexAny_iff]
    rw [or_assoc, or_assoc, or_assoc, or_assoc]
    exact or_congr_right (or_congr_right or_comm)

end MphValueMatcher
end BypassCore.StrMatcher
