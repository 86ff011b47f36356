import BypassCore.Geodata.StrMatcher.Value
import BypassCore.Lib.Trie
import BypassCore.Lib.Buckets

/-!
# The linear matchers

`LinearValueMatcher` and `LinearAnyMatcher` of the `strmatcher` package: a map for full patterns, a
trie of labels for domains, and lists that are gone through for keywords and regular expressions.
The first one binds values to matchers, the second one only tells whether one of them matches.

The search for the occurrences of a keyword goes on to the left of the last one found. It has fuel
here, because it does not end for an empty keyword.
-/

namespace BypassCore.StrMatcher

open Lib Trie List

abbrev FullMatcherGroup := GoMap (List UInt8) (List UInt32)

namespace FullMatcherGroup

variable (g : FullMatcherGroup)

def addFullMatcher (pattern : List UInt8) (value : UInt32) : FullMatcherGroup :=
  g.insert pattern ((g.lookup pattern).getD [] ++ [value])

def matchInput (input : List UInt8) : List UInt32 :=
  (g.lookup input).getD []

def matchAny (input : List UInt8) : Bool := (g.lookup input).isSome

end FullMatcherGroup

/-- The labels of a domain from the last one, and what stands in front of the first dot. -/
def cut : List UInt8 → List (List UInt8) × List UInt8
  | [] => ([], [])
  | b :: rest =>
    if b = dot then ((cut rest).1 ++ [(cut rest).2], []) else ((cut rest).1, b :: (cut rest).2)

/-- The labels that the loops over a domain go through, from the last one. The loops end when
nothing is left, so a dot at the start of the domain has no label in front of it. -/
def labels (domain : List UInt8) : List (List UInt8) :=
  if (cut domain).2 = [] then (cut domain).1 else (cut domain).1 ++ [(cut domain).2]

/-- `DomainMatcherGroup`: a trie of labels with the values of each domain. -/
abbrev DomainMatcherGroup := Trie (List UInt8) (List UInt32)

namespace DomainMatcherGroup

def new : DomainMatcherGroup := .node [] []

variable (g : DomainMatcherGroup)

def addDomainMatcher (pattern : List UInt8) (value : UInt32) : DomainMatcherGroup :=
  g.update [] (· ++ [value]) (labels pattern)

def hasValues (values : List UInt32) : Bool := 0 < values.length

def matchInput (input : List UInt8) : List UInt32 :=
  compositeMatchesReverse (g.walk hasValues (labels input))

def matchAny (input : List UInt8) : Bool :=
  g.walkAny hasValues (labels input)

end DomainMatcherGroup

/-- `DomainMatcherSet`: a trie of labels that marks each domain. -/
abbrev DomainMatcherSet := Trie (List UInt8) Bool

namespace DomainMatcherSet

def new : DomainMatcherSet := .node false []

def addDomainMatcher (s : DomainMatcherSet) (pattern : List UInt8) : DomainMatcherSet :=
  s.update false (fun _ => true) (labels pattern)

def matchAny (s : DomainMatcherSet) (input : List UInt8) : Bool := s.walkAny id (labels input)

end DomainMatcherSet

def lastIndex (s text : List UInt8) : Option Nat :=
  (range (s.length + 1)).reverse.find? fun i => text.isPrefixOf (s.drop i)

structure SubstrMatcherGroup where
  patterns : List (List UInt8)
  values : List UInt32

namespace SubstrMatcherGroup

def new : SubstrMatcherGroup := ⟨[], []⟩

def addSubstrMatcher (g : SubstrMatcherGroup) (pattern : List UInt8) (value : UInt32) :
    SubstrMatcherGroup :=
  ⟨g.patterns ++ [pattern], g.values ++ [value]⟩

/-- The loop over the occurrences of a pattern: their places, from the last one. -/
def occurrences (input pattern : List UInt8) : Nat → Option Nat → Option (List Nat)
  | _, none => some []
  | 0, some _ => none
  | fuel + 1, some j =>
    (occurrences input pattern fuel (lastIndex (input.take j) pattern)).map (j :: ·)

/-- An entry of the result: the place in the upper and the index of the pattern in the lower 16
bits of a word. -/
def entry (i j : Nat) : Nat := (j * 2 ^ 16) % 2 ^ 32 + i % 2 ^ 16

def entries (fuel : Nat) (input : List UInt8) : List (List UInt8 × Nat) → Option (List Nat)
  | [] => some []
  | (pattern, i) :: rest => do
    let places ← occurrences input pattern fuel (lastIndex input pattern)
    let others ← entries fuel input rest
    return places.map (entry i) ++ others

def arrange (sort : SliceSort) : List Nat → List Nat
  | [a, b] => if a > b then [b, a] else [a, b]
  | [a] => [a]
  | [] => []
  | result => sort.sort (fun a b => a < b) result

def matchInput (sort : SliceSort) (fuel : Nat) (g : SubstrMatcherGroup) (input : List UInt8) :
    Option (List UInt32) :=
  (entries fuel input g.patterns.zipIdx).map fun result =>
    (arrange sort result).map fun e => g.values.getD (e % 2 ^ 16) 0

def matchAny (g : SubstrMatcherGroup) (input : List UInt8) : Bool :=
  g.patterns.any fun pattern => contains input pattern

end SubstrMatcherGroup

structure LinearValueMatcher where
  full : Option FullMatcherGroup
  domain : Option DomainMatcherGroup
  substr : Option SubstrMatcherGroup
  regex : Option SimpleMatcherGroup

namespace LinearValueMatcher

def new : LinearValueMatcher := ⟨none, none, none, none⟩

def add (g : LinearValueMatcher) (matcher : AnyMatcher) (value : UInt32) : LinearValueMatcher :=
  match matcher with
  | .basic m =>
    match m.type with
    | .full =>
      { g with full := some (FullMatcherGroup.addFullMatcher (g.full.getD ∅) m.pattern value) }
    | .domain =>
      { g with
        domain := some (DomainMatcherGroup.addDomainMatcher (g.domain.getD .new) m.pattern value) }
    | .substr => { g with substr := some ((g.substr.getD .new).addSubstrMatcher m.pattern value) }
  | .regex m => { g with regex := some (g.regex.getD [] ++ [(.regex m, value)]) }

def matchInput (sort : SliceSort) (fuel : Nat) (g : LinearValueMatcher) (input : List UInt8) :
    Option (List UInt32) := do
  let substr ← (g.substr.map fun substr => substr.matchInput sort fuel input).getD (some [])
  let full := (g.full.map fun full => FullMatcherGroup.matchInput full input).getD []
  let domain := (g.domain.map fun domain => DomainMatcherGroup.matchInput domain input).getD []
  let regex := (g.regex.map fun regex => regex.matchInput input).getD []
  return compositeMatches (nonEmpty [full, domain, substr, regex])

def matchAny (g : LinearValueMatcher) (input : List UInt8) : Bool :=
  (g.full.any fun full => FullMatcherGroup.matchAny full input) ||
    (g.domain.any fun domain => DomainMatcherGroup.matchAny domain input) ||
    (g.substr.any fun substr => substr.matchAny input) ||
    g.regex.any fun regex => regex.matchAny input

end LinearValueMatcher

structure LinearAnyMatcher where
  full : Option (GoMap (List UInt8) Unit)
  domain : Option DomainMatcherSet
  substr : Option (List (List UInt8))
  regex : Option (List AnyMatcher)

namespace LinearAnyMatcher

def new : LinearAnyMatcher := ⟨none, none, none, none⟩

def add (s : LinearAnyMatcher) (matcher : AnyMatcher) : LinearAnyMatcher :=
  match matcher with
  | .basic m =>
    match m.type with
    | .full => { s with full := some ((s.full.getD ∅).insert m.pattern ()) }
    | .domain =>
      { s with domain := some (DomainMatcherSet.addDomainMatcher (s.domain.getD .new) m.pattern) }
    | .substr => { s with substr := some (s.substr.getD [] ++ [m.pattern]) }
  | .regex m => { s with regex := some (s.regex.getD [] ++ [.regex m]) }

def matchAny (s : LinearAnyMatcher) (input : List UInt8) : Bool :=
  (s.full.any fun full => (full.lookup input).isSome) ||
    (s.domain.any fun domain => DomainMatcherSet.matchAny domain input) ||
    (s.substr.any fun substr => substr.any fun pattern => contains input pattern) ||
    s.regex.any fun regex => regex.any fun m => m.accepts input

end LinearAnyMatcher

/-!
## Labels of domains

A trie of labels accepts a domain when the labels of the pattern are the last labels of the domain.
This is the test for a dot and the pattern at the end of the domain, or for the pattern itself,
except that a dot in front of the pattern makes no difference and that an empty pattern, which has
no labels, is never met.
-/

variable {s p q front : List UInt8} {ls ls' : List (List UInt8)}

/-- Write labels, given from the last one, with a dot in front of each. -/
def join (ls : List (List UInt8)) : List UInt8 := ls.reverse.flatMap (dot :: ·)

lemma join_concat (ls : List (List UInt8)) (l : List UInt8) :
    join (ls ++ [l]) = dot :: (l ++ join ls) := by
  simp [join]

lemma join_append (ls ls' : List (List UInt8)) : join (ls ++ ls') = join ls' ++ join ls := by
  simp [join]

/-- A domain is what stands in front of its first dot, and its labels. -/
lemma cut_join (s : List UInt8) : (cut s).2 ++ join (cut s).1 = s := by
  induction s with
  | nil => rfl
  | cons b s ih =>
    rw [cut]
    split_ifs with hb
    · rw [join_concat, ih, nil_append, hb]
    · rw [cons_append, ih]

def allLabels (s : List UInt8) : List (List UInt8) := (cut s).1 ++ [(cut s).2]

lemma join_allLabels (s : List UInt8) : join (allLabels s) = dot :: s := by
  rw [allLabels, join_concat, cut_join]

lemma cut_append_dot (front q : List UInt8) :
    cut (front ++ dot :: q) = (allLabels q ++ (cut front).1, (cut front).2) := by
  induction front with
  | nil => simp [cut, allLabels]
  | cons b front ih =>
    rw [cons_append, cut, ih, cut]
    split_ifs with hb
    · rw [append_assoc]
    · rfl

/-- The labels behind the dots start with those of a domain exactly when the string ends in a dot
and the domain. -/
lemma allLabels_start_iff : allLabels q <+: (cut s).1 ↔ dot :: q <:+ s := by
  constructor
  · rintro ⟨rest, hrest⟩
    refine ⟨(cut s).2 ++ join rest, ?_⟩
    rw [← join_allLabels, append_assoc, ← join_append, hrest, cut_join]
  · rintro ⟨front, rfl⟩
    rw [cut_append_dot]
    exact ⟨_, rfl⟩

lemma allLabels_inj (h : allLabels s = allLabels q) : s = q := by
  have hjoin := congrArg join h
  rw [join_allLabels, join_allLabels] at hjoin
  exact tail_eq_of_cons_eq hjoin

/-- Nothing stands in front of the first dot of a string that is empty or starts with a dot. -/
lemma cut_snd_eq_nil_iff : (cut s).2 = [] ↔ s = [] ∨ s.head? = some dot := by
  cases s with
  | nil => simp [cut]
  | cons b s =>
    rw [cut]
    split_ifs with hb
    · simp [hb]
    · simp [hb]

def stripDot (p : List UInt8) : List UInt8 := if p.head? = some dot then p.tail else p

/-- The labels of a pattern are all labels of the pattern without a dot in front. -/
lemma labels_eq (hp : p ≠ []) : labels p = allLabels (stripDot p) := by
  unfold labels stripDot
  by_cases hd : p.head? = some dot
  · rw [if_pos hd]
    cases p with
    | nil => exact absurd rfl hp
    | cons b q =>
      rw [head?_cons, Option.some_inj] at hd
      rw [cut, if_pos hd]
      rfl
  · rw [if_neg (fun h => (cut_snd_eq_nil_iff.mp h).elim hp hd), if_neg hd]
    rfl

lemma labels_ne_nil (hp : p ≠ []) : labels p ≠ [] := by
  rw [labels_eq hp, allLabels]
  simp

def TrieAccepts (s p : List UInt8) : Prop :=
  p ≠ [] ∧ (dot :: stripDot p <:+ s ∨
    (s = stripDot p ∧ s ≠ [] ∧ s.head? ≠ some dot))

/-- The labels of a pattern are the last ones of a domain. -/
theorem labels_start_iff (hp : p ≠ []) : labels p <+: labels s ↔ TrieAccepts s p := by
  unfold TrieAccepts
  rw [labels_eq hp, and_iff_right hp]
  by_cases hs : (cut s).2 = []
  · rw [labels, if_pos hs, allLabels_start_iff]
    refine (or_iff_left ?_).symm
    rintro ⟨-, hne, hd⟩
    exact (cut_snd_eq_nil_iff.mp hs).elim hne hd
  · have hs' : s ≠ [] ∧ s.head? ≠ some dot := by
      rw [cut_snd_eq_nil_iff, not_or] at hs
      exact hs
    rw [labels, if_neg hs, prefix_concat_iff, allLabels_start_iff, or_comm]
    refine or_congr_right ⟨fun h => ?_, fun h => ?_⟩
    · exact ⟨(allLabels_inj h).symm, hs'⟩
    · rw [← h.1]
      rfl

/-!
## What the tries of labels return

A trie of labels returns the values of the domains that accept the input, those of longer domains
first. It agrees with the test of each domain when the domains are not empty and have no dot in
front.
-/

open List

variable {s p p' input front l : List UInt8}

/-- The walk of a trie along a domain comes to the labels of the patterns that accept it. -/
lemma labels_mem_starts_iff : labels p ∈ starts (labels s) ↔ TrieAccepts s p := by
  rw [mem_starts]
  by_cases hp : p = []
  · subst hp
    exact iff_of_false (fun h => h.1 rfl) fun h => h.1 rfl
  · rw [and_iff_right (labels_ne_nil hp), labels_start_iff hp]

lemma exists_labels_mem_starts {P : List UInt8 → Prop} :
    (∃ q ∈ starts (labels s), ∃ p, P p ∧ labels p = q) ↔ ∃ p, P p ∧ TrieAccepts s p := by
  simp only [← labels_mem_starts_iff]
  constructor
  · rintro ⟨_, hq, p, hp, rfl⟩
    exact ⟨p, hp, hq⟩
  · rintro ⟨p, hp, hq⟩
    exact ⟨_, hq, p, hp, rfl⟩

/-! ### The loops over a domain -/

/-- The inner loop of the three functions: from the index `j` back to a dot or to the start. The
label in front of the index `i`, and where the next label ends. -/
def labelBefore (s : List UInt8) (i : Nat) : Nat → List UInt8 × Nat
  | 0 => if s.getD 0 0 = dot then ((s.take i).drop 1, 0) else (s.take i, 0)
  | j + 1 => if s.getD (j + 1) 0 = dot then ((s.take i).drop (j + 2), j + 1) else labelBefore s i j

lemma labelBefore_snd_le (s : List UInt8) (i j : Nat) : (labelBefore s i j).2 ≤ j := by
  induction j with
  | zero =>
    rw [labelBefore]
    split_ifs <;> rfl
  | succ j ih =>
    rw [labelBefore]
    split_ifs
    · exact le_rfl
    · exact ih.trans (Nat.le_succ j)

/-- The outer loop: the labels in front of the index `i`. -/
def labelLoop (s : List UInt8) : Nat → List (List UInt8)
  | 0 => []
  | i + 1 => (labelBefore s (i + 1) i).1 :: labelLoop s (labelBefore s (i + 1) i).2
termination_by i => i
decreasing_by exact Nat.lt_succ_of_le (labelBefore_snd_le s (i + 1) i)

lemma cut_of_not_mem (h : dot ∉ l) : cut l = ([], l) := by
  induction l with
  | nil => rfl
  | cons b l ih =>
    obtain ⟨hb, hl⟩ := not_or.mp (mem_cons.not.mp h)
    rw [cut, ih hl, if_neg (Ne.symm hb)]

lemma labels_of_not_mem (h : dot ∉ l) (hl : l ≠ []) : labels l = [l] := by
  rw [labels, cut_of_not_mem h, if_neg hl, nil_append]

lemma labels_append_dot (h : dot ∉ l) : labels (front ++ dot :: l) = l :: labels front := by
  rw [labels, labels, cut_append_dot, allLabels, cut_of_not_mem h]
  split_ifs <;> rfl

lemma drop_take_eq_cons {i j : Nat} (hj : j < i) (hi : i ≤ s.length) :
    (s.take i).drop j = s.getD j 0 :: (s.take i).drop (j + 1) := by
  have hlen : j < (s.take i).length := by
    rw [length_take]
    omega
  have hget : s.getD j 0 = (s.take i)[j] := by
    rw [← getElem_eq_getD (h := hj.trans_le hi), getElem_take]
  rw [hget, getElem_cons_drop]

lemma labels_take {i j : Nat} (hj : j < i) (hi : i ≤ s.length) (hd : s.getD j 0 = dot)
    (h : dot ∉ (s.take i).drop (j + 1)) :
    labels (s.take i) = (s.take i).drop (j + 1) :: labels (s.take j) := by
  have hsplit : s.take i = s.take j ++ dot :: (s.take i).drop (j + 1) := by
    rw [← hd, ← drop_take_eq_cons hj hi, ← min_eq_left hj.le, ← take_take,
      min_eq_left hj.le, take_append_drop]
  exact (congrArg labels hsplit).trans (labels_append_dot h)

/-- Where the inner loop stops, when there is no dot behind the index `j`. -/
lemma labelBefore_spec {i j : Nat} (hj : j < i) (hi : i ≤ s.length)
    (h : dot ∉ (s.take i).drop (j + 1)) :
    labels (s.take i) = (labelBefore s i j).1 :: labels (s.take (labelBefore s i j).2) := by
  have hstep : s.getD j 0 ≠ dot → dot ∉ (s.take i).drop j := by
    intro hd
    rw [drop_take_eq_cons hj hi]
    exact not_mem_cons_of_ne_of_not_mem (Ne.symm hd) h
  induction j with
  | zero =>
    rw [labelBefore]
    split_ifs with hd
    · exact labels_take hj hi hd h
    · have hne : s.take i ≠ [] := by
        rw [← drop_zero (l := s.take i), drop_take_eq_cons hj hi]
        exact cons_ne_nil _ _
      exact labels_of_not_mem (hstep hd) hne
  | succ j ih =>
    rw [labelBefore]
    split_ifs with hd
    · exact labels_take hj hi hd h
    · have hno := hstep hd
      refine ih (Nat.lt_of_succ_lt hj) hno fun hd' => ?_
      rw [drop_take_eq_cons (Nat.lt_of_succ_lt hj) hi]
      exact not_mem_cons_of_ne_of_not_mem (Ne.symm hd') hno

/-- The loops go through the labels of the domain. -/
theorem labelLoop_eq (s : List UInt8) : labelLoop s s.length = labels s := by
  suffices h : ∀ i ≤ s.length, labelLoop s i = labels (s.take i) by
    rw [h s.length le_rfl, take_length]
  intro i
  induction i using Nat.strong_induction_on with
  | _ i ih =>
    intro hi
    cases i with
    | zero =>
      rw [labelLoop]
      rfl
    | succ i =>
      have hle := labelBefore_snd_le s (i + 1) i
      have hspec := labelBefore_spec (Nat.lt_succ_self i) hi (by simp)
      rw [labelLoop, hspec, ih _ (Nat.lt_succ_of_le hle) (by omega)]

/-- A pattern that the tries treat as a domain matcher does. -/
structure IsDomain (p : List UInt8) : Prop where
  nonempty : p ≠ []
  noDot : p.head? ≠ some dot

section

variable (h : IsDomain p)
include h

lemma labels_of_isDomain : labels p = allLabels p := by
  rw [labels_eq h.nonempty, stripDot, if_neg h.noDot]

/-- For such a pattern the test of the trie is the test of the matcher. -/
lemma IsDomain.trieAccepts_iff : TrieAccepts input p ↔ domainMatch p input = true := by
  rw [TrieAccepts, stripDot, if_neg h.noDot, domainMatch_iff, and_iff_right h.nonempty, or_comm]
  refine or_congr_left ⟨fun hs => hs.1.symm, ?_⟩
  rintro rfl
  exact ⟨rfl, h.nonempty, h.noDot⟩

lemma IsDomain.eq_of_labels (h' : IsDomain p') (heq : labels p = labels p') : p = p' := by
  rw [labels_of_isDomain h, labels_of_isDomain h'] at heq
  exact allLabels_inj heq

lemma IsDomain.length_le (h' : IsDomain p') (hstart : labels p' <+: labels p) :
    p'.length ≤ p.length := by
  rw [labels_of_isDomain h, labels_of_isDomain h'] at hstart
  obtain ⟨rest, hrest⟩ := hstart
  have hjoin := congrArg (fun ls => (join ls).length) hrest
  simp only [join_append, join_allLabels, length_append, length_cons] at hjoin
  omega

end

variable {matchers : List (List UInt8 × UInt32)}

namespace DomainMatcherGroup

/-- A group to which the matchers have been added, each with its value. -/
def ofMatchers (matchers : List (List UInt8 × UInt32)) : DomainMatcherGroup :=
  matchers.foldl (fun g m => g.addDomainMatcher m.1 m.2) new

/-- A node has the values of the patterns with its labels, in the order of insertion. -/
lemma valueAt_ofMatchers (matchers : List (List UInt8 × UInt32)) (q : List (List UInt8)) :
    (ofMatchers matchers).valueAt [] q =
      (matchers.filter fun m => labels m.1 = q).map Prod.snd := by
  induction matchers using reverseRecOn with
  | nil => exact valueAt_fresh q
  | append_singleton matchers m ih =>
    rw [ofMatchers, foldl_concat, addDomainMatcher, valueAt_update, filter_append, map_append, ← ih]
    split_ifs with hq
    · subst hq
      simp [ofMatchers]
    · simp [ofMatchers, Ne.symm hq]

lemma compositeMatchesReverse_eq (ms : List (List UInt32)) :
    compositeMatchesReverse ms = ms.reverse.flatten := by
  unfold compositeMatchesReverse
  split <;> simp

lemma hasValues_nil : hasValues [] = false := rfl

/-- The values of a walk, from the longest domain. -/
lemma matchInput_eq (g : DomainMatcherGroup) (input : List UInt8) :
    g.matchInput input = (starts (labels input)).reverse.flatMap fun q => g.valueAt [] q := by
  -- a node without values adds nothing
  have hflat : ∀ vss : List (List UInt32), (vss.filter hasValues).flatten = vss.flatten := by
    intro vss
    induction vss with
    | nil => rfl
    | cons vs vss ih =>
      cases vs with
      | nil => exact ih
      | cons v vs => exact congrArg (v :: vs ++ ·) ih
  rw [matchInput, compositeMatchesReverse_eq, walk_eq hasValues_nil, ← filter_reverse, hflat,
    ← map_reverse, flatMap_def]

lemma matchInput_ofMatchers (matchers : List (List UInt8 × UInt32)) (input : List UInt8) :
    (ofMatchers matchers).matchInput input =
      (gather (fun m => labels m.1) (starts (labels input)).reverse matchers).map
        Prod.snd := by
  simp only [matchInput_eq, valueAt_ofMatchers, gather, map_flatMap]

variable {g : DomainMatcherGroup}

lemma mem_matchInput {v : UInt32} :
    v ∈ g.matchInput input ↔ ∃ q ∈ starts (labels input), v ∈ g.valueAt [] q := by
  rw [matchInput_eq, mem_flatMap]
  simp only [mem_reverse]

lemma matchAny_iff : g.matchAny input = true ↔ ∃ v, v ∈ g.matchInput input := by
  rw [matchAny, walkAny_iff hasValues_nil]
  simp only [mem_matchInput, hasValues, decide_eq_true_eq, length_pos_iff_exists_mem]
  rw [exists_comm]
  simp only [exists_and_left]

end DomainMatcherGroup

/-! ### Marks -/

namespace DomainMatcherSet

def ofPatterns (patterns : List (List UInt8)) : DomainMatcherSet :=
  patterns.foldl (fun s p => s.addDomainMatcher p) new

lemma valueAt_ofPatterns (patterns : List (List UInt8)) (q : List (List UInt8)) :
    (ofPatterns patterns).valueAt false q = decide (∃ p ∈ patterns, labels p = q) := by
  induction patterns using reverseRecOn with
  | nil =>
    rw [ofPatterns, foldl_nil, new]
    simp
  | append_singleton patterns p ih =>
    rw [ofPatterns, foldl_concat, addDomainMatcher, valueAt_update]
    split_ifs with hq
    · simp [hq]
    · rw [← ofPatterns, ih]
      simp [Ne.symm hq]

lemma matchAny_ofPatterns {patterns : List (List UInt8)} :
    (ofPatterns patterns).matchAny input = true ↔ ∃ p ∈ patterns, TrieAccepts input p := by
  rw [matchAny, walkAny_iff (id_eq false)]
  simp only [valueAt_ofPatterns, id, decide_eq_true_eq]
  exact exists_labels_mem_starts

end DomainMatcherSet

/-- **Domains.** The trie with values returns those of the matchers that accept the input, once for
each of them: longer patterns first, and one pattern's values in the order of insertion. Both tries
tell whether there is such a matcher. -/
theorem domainMatcherGroup_exact (h : ∀ m ∈ matchers, IsDomain m.1) (input : List UInt8) :
    (∃ found : List (List UInt8 × UInt32),
      (DomainMatcherGroup.ofMatchers matchers).matchInput input = found.map Prod.snd ∧
      found.Perm (matchers.filter fun m => domainMatch m.1 input) ∧
      (found.Pairwise fun m m' => m'.1.length ≤ m.1.length) ∧
      ∀ p, (found.filter fun m => m.1 = p) =
        (matchers.filter fun m => domainMatch m.1 input).filter fun m => m.1 = p) ∧
    ((DomainMatcherGroup.ofMatchers matchers).matchAny input = true ↔
      ∃ m ∈ matchers, domainMatch m.1 input = true) ∧
    ((DomainMatcherSet.ofPatterns (matchers.map Prod.fst)).matchAny input = true ↔
      ∃ m ∈ matchers, domainMatch m.1 input = true) := by
  have hnodup : (starts (labels input)).reverse.Nodup := by
    rw [nodup_reverse]
    refine (pairwise_starts (labels input)).imp ?_
    rintro q _ ⟨-, hlt⟩ rfl
    exact lt_irrefl _ hlt
  have hmem : ∀ m ∈ matchers, domainMatch m.1 input = true ↔
      labels m.1 ∈ (starts (labels input)).reverse := by
    intro m hm
    rw [mem_reverse, labels_mem_starts_iff, (h m hm).trieAccepts_iff]
  refine ⟨⟨_, DomainMatcherGroup.matchInput_ofMatchers matchers input, ?_, ?_, ?_⟩, ?_, ?_⟩
  · exact perm_gather hnodup hmem
  · refine pairwise_gather ?_ (pairwise_reverse.mpr ?_)
    · intro m hm m' hm' heq
      rw [(h m hm).eq_of_labels (h m' hm') heq]
    · refine (pairwise_starts (labels input)).imp fun hstart => ?_
      rintro m hm m' hm' rfl rfl
      exact (h m hm).length_le (h m' hm') hstart.1
  · intro p
    refine filter_gather hnodup hmem (k := labels p) fun m hm => ?_
    rw [of_decide_eq_true hm]
  · rw [DomainMatcherGroup.matchAny_iff, DomainMatcherGroup.matchInput_ofMatchers]
    simp only [mem_map, mem_gather]
    rw [exists_comm]
    simp only [exists_eq_right']
    exact exists_congr fun m => and_congr_right fun hm => (hmem m hm).symm
  · rw [DomainMatcherSet.matchAny_ofPatterns]
    simp only [mem_map, exists_exists_and_eq_and]
    exact exists_congr fun m => and_congr_right fun hm => (h m hm).trieAccepts_iff

/-- Domains below each other, one of them twice, and one with an empty label. -/
def nestedDomains : List (List UInt8 × UInt32) :=
  [(ascii "com", 1), (ascii "a.com", 2), (ascii "com", 3), (ascii "b..com.", 4)]

theorem domainMatcherGroup_exact_nested :
    (DomainMatcherGroup.ofMatchers nestedDomains).matchAny (ascii "x.a.com") = true := by
  have hdomains : ∀ m ∈ nestedDomains, IsDomain m.1 := by
    have hall : ∀ m ∈ nestedDomains, m.1 ≠ [] ∧ m.1.head? ≠ some dot := by decide
    exact fun m hm => ⟨(hall m hm).1, (hall m hm).2⟩
  exact (domainMatcherGroup_exact hdomains (ascii "x.a.com")).2.1.mpr ⟨_, mem_cons_self, by decide⟩

example : (DomainMatcherGroup.ofMatchers nestedDomains).matchInput (ascii "x.a.com") = [2, 1, 3] :=
  by decide

end BypassCore.StrMatcher
