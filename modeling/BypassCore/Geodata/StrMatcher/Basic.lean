import BypassCore.Lib.GoStrings

/-!
# The basic string matchers

Full, domain and substring matchers of the `strmatcher` package, and the concatenation of match
results that its matcher groups share. A string is the list of its bytes.
-/

namespace BypassCore.StrMatcher

open Lib List

def dot : UInt8 := 0x2e

/-- `Type`, regular expressions apart. -/
inductive MatcherType where
  | full
  | domain
  | substr
deriving DecidableEq, Repr

/-- A `FullMatcher`, `DomainMatcher` or `SubstrMatcher`. -/
structure Matcher where
  type : MatcherType
  pattern : List UInt8
deriving DecidableEq, Repr

def fullMatch (pattern s : List UInt8) : Bool := pattern == s

def domainMatch (pattern s : List UInt8) : Bool :=
  if !pattern.isSuffixOf s then false
  else s.length == pattern.length || s.getD (s.length - pattern.length - 1) 0 == dot

/-- `strings.Contains`: some position of the string starts with the text. -/
def contains (s text : List UInt8) : Bool := s.tails.any fun rest => text.isPrefixOf rest

def substrMatch (pattern s : List UInt8) : Bool := contains s pattern

def Matcher.accepts (m : Matcher) (s : List UInt8) : Bool :=
  match m.type with
  | .full => fullMatch m.pattern s
  | .domain => domainMatch m.pattern s
  | .substr => substrMatch m.pattern s

variable {s : List UInt8}

@[simp] lemma fullMatch_iff {pattern : List UInt8} : fullMatch pattern s = true ↔ pattern = s := by
  simp [fullMatch]

/-- On a string that ends in the pattern and is longer, the byte in front of it decides. -/
lemma domainMatch_append (front pattern : List UInt8) (b : UInt8) :
    domainMatch pattern (front ++ b :: pattern) = (b == dot) := by
  have hs : pattern.isSuffixOf (front ++ b :: pattern) = true :=
    isSuffixOf_iff_suffix.mpr ⟨front ++ [b], by simp⟩
  have hlen : (front ++ b :: pattern).length = front.length + 1 + pattern.length := by
    rw [length_append, length_cons, Nat.add_assoc, Nat.add_comm 1]
  have hpos : front.length + 1 + pattern.length - pattern.length - 1 = front.length := by
    rw [Nat.add_sub_cancel, Nat.add_sub_cancel]
  have hne : (front.length + 1 + pattern.length == pattern.length) = false := by simp
  rw [domainMatch, hs, hlen]
  simp

lemma domainMatch_iff {pattern : List UInt8} :
    domainMatch pattern s = true ↔ pattern = s ∨ dot :: pattern <:+ s := by
  by_cases hs : pattern <:+ s
  · obtain ⟨front, rfl⟩ := hs
    rcases eq_nil_or_concat front with rfl | ⟨front, b, rfl⟩
    · simp [domainMatch]
    · rw [concat_eq_append, append_assoc, singleton_append, domainMatch_append, beq_iff_eq]
      constructor
      · rintro rfl
        exact .inr ⟨front, rfl⟩
      · rintro (h | ⟨front', h⟩)
        · have hlen := congrArg List.length h
          rw [length_append, length_cons] at hlen
          omega
        · exact (cons_eq_cons.mp (append_inj_right' h rfl)).1.symm
  · -- neither the pattern nor a dot and the pattern ends the string
    have hf : pattern.isSuffixOf s = false := by
      rw [Bool.eq_false_iff, ne_eq, isSuffixOf_iff_suffix]
      exact hs
    constructor
    · intro h
      rw [domainMatch, hf] at h
      cases h
    · rintro (rfl | h)
      · exact absurd suffix_rfl hs
      · exact absurd ((suffix_cons dot pattern).trans h) hs

@[simp] lemma contains_iff {text : List UInt8} : contains s text = true ↔ text <:+: s := by
  simp only [contains, any_eq_true, mem_tails, isPrefixOf_iff_prefix]
  constructor
  · rintro ⟨rest, hrest, htext⟩
    exact htext.isInfix.trans hrest.isInfix
  · rintro ⟨front, back, rfl⟩
    exact ⟨text ++ back, ⟨front, by simp⟩, back, rfl⟩

/-- The values registered for one pattern, by the kind of matcher. -/
abbrev MatcherValues := MatcherType → List UInt32

def MatcherValues.add (vs : MatcherValues) (type : MatcherType) (value : UInt32) : MatcherValues :=
  Function.update vs type (vs type ++ [value])

@[simp] lemma MatcherValues.mem_add {vs : MatcherValues} {type t : MatcherType}
    {value v : UInt32} : v ∈ vs.add type value t ↔ v ∈ vs t ∨ (t = type ∧ v = value) := by
  by_cases h : t = type
  · subst h
    simp [add]
  · simp [add, h]

/-- `CompositeMatchesReverse`: later matches first. -/
def compositeMatchesReverse : List (List UInt32) → List UInt32
  | [] => []
  | [m] => m
  | ms => ms.reverse.flatten

@[simp] lemma mem_compositeMatchesReverse {ms : List (List UInt32)} {v : UInt32} :
    v ∈ compositeMatchesReverse ms ↔ v ∈ ms.flatten := by
  unfold compositeMatchesReverse
  split
  · simp
  · simp
  · simp only [mem_flatten, mem_reverse]

def acceptedValues (matchers : List (Matcher × UInt32)) (s : List UInt8) : List UInt32 :=
  (matchers.filter fun m => m.1.accepts s).map Prod.snd

variable {matchers : List (Matcher × UInt32)}

@[simp] lemma mem_acceptedValues {v : UInt32} :
    v ∈ acceptedValues matchers s ↔ ∃ m, (m, v) ∈ matchers ∧ m.accepts s = true := by
  simp [acceptedValues]

lemma acceptedValues_ne_nil : acceptedValues matchers s ≠ [] ↔ ∃ v, v ∈ acceptedValues matchers s :=
  ⟨exists_mem_of_ne_nil _, fun ⟨_, h⟩ => ne_nil_of_mem h⟩

end BypassCore.StrMatcher
