import BypassCore.Geodata.StrMatcher.Basic
import BypassCore.Lib.UTF8

/-!
# The literal filter of regular expressions

`RegexMatcher` of the `strmatcher` package looks for strings that every match contains before it
asks the regular expression. A tree of `regexp/syntax` and what it matches are given here as the Go
packages define them: a match goes from one place of the input to another, and reads runes.
-/

namespace BypassCore.StrMatcher.Regex

open Lib UTF8 List

/-- The assertions of `syntax.Op` that match no text. -/
inductive EmptyOp where
  | beginLine
  | endLine
  | beginText
  | endText
  | wordBoundary
  | noWordBoundary

/-- `syntax.Regexp`, by its operator. A rune is its number; `fold` is the flag `FoldCase`, and `max`
is absent where it is -1. -/
inductive Regexp where
  | noMatch
  | emptyMatch
  | literal (fold : Bool) (runes : List Nat)
  | charClass (ranges : List (Nat × Nat))
  | anyCharNotNL
  | anyChar
  | empty (op : EmptyOp)
  | capture (sub : Regexp)
  | star (sub : Regexp)
  | plus (sub : Regexp)
  | quest (sub : Regexp)
  | rep (min : Nat) (max : Option Nat) (sub : Regexp)
  | concat (subs : List Regexp)
  | alternate (subs : List Regexp)

/-- The rune at the start of a text, with its width. A byte that starts none is an error of its
own. -/
def readRune : List UInt8 → Option (Nat × Nat)
  | [] => none
  | b :: t =>
    match decodeRune (b :: t) with
    | some (c, n) => some (c.toNat, n)
    | none => some (runeError.toNat, 1)

def isWord (b : UInt8) : Bool :=
  (0x30 ≤ b && b ≤ 0x39) || (0x41 ≤ b && b ≤ 0x5a) || b == 0x5f || (0x61 ≤ b && b ≤ 0x7a)

def EmptyOp.holds (s : List UInt8) (i : Nat) : EmptyOp → Bool
  | .beginLine => (s.take i).getLast?.all (· == 0x0a)
  | .endLine => s[i]?.all (· == 0x0a)
  | .beginText => i == 0
  | .endText => i == s.length
  | .wordBoundary => (s.take i).getLast?.any isWord != s[i]?.any isWord
  | .noWordBoundary => (s.take i).getLast?.any isWord == s[i]?.any isWord

def Reads (s : List UInt8) (test : Nat → Bool) (i j : Nat) : Prop :=
  ∃ r n, readRune (s.drop i) = some (r, n) ∧ test r = true ∧ j = i + n

/-- A tree matches the input between two places. Which runes differ only by their case is a
parameter. -/
inductive Matches (same : Nat → Nat → Bool) (s : List UInt8) : Regexp → Nat → Nat → Prop
  | emptyMatch {i} : Matches same s .emptyMatch i i
  | literalNil {fold i} : Matches same s (.literal fold []) i i
  | literalCons {fold r rs i j k} (hr : Reads s (if fold then same r else (r == ·)) i j)
    (hrs : Matches same s (.literal fold rs) j k) : Matches same s (.literal fold (r :: rs)) i k
  | charClass {ranges i j} (h : Reads s (fun r => ranges.any fun p => p.1 ≤ r && r ≤ p.2) i j) :
    Matches same s (.charClass ranges) i j
  | anyCharNotNL {i j} (h : Reads s (· != 0x0a) i j) : Matches same s .anyCharNotNL i j
  | anyChar {i j} (h : Reads s (fun _ => true) i j) : Matches same s .anyChar i j
  | empty {op : EmptyOp} {i} (h : op.holds s i = true) : Matches same s (.empty op) i i
  | capture {sub i j} (h : Matches same s sub i j) : Matches same s (.capture sub) i j
  | starNil {sub i} : Matches same s (.star sub) i i
  | starCons {sub i j k} (h : Matches same s sub i j) (hs : Matches same s (.star sub) j k) :
    Matches same s (.star sub) i k
  | plus {sub i j k} (h : Matches same s sub i j) (hs : Matches same s (.star sub) j k) :
    Matches same s (.plus sub) i k
  | questNone {sub i} : Matches same s (.quest sub) i i
  | questSome {sub i j} (h : Matches same s sub i j) : Matches same s (.quest sub) i j
  | repNil {max sub i} : Matches same s (.rep 0 max sub) i i
  | repCons {min max sub i j k} (hmax : max ≠ some 0) (h : Matches same s sub i j)
    (hs : Matches same s (.rep (min - 1) (max.map (· - 1)) sub) j k) :
    Matches same s (.rep min max sub) i k
  | concatNil {i} : Matches same s (.concat []) i i
  | concatCons {sub subs i j k} (h : Matches same s sub i j)
    (hs : Matches same s (.concat subs) j k) : Matches same s (.concat (sub :: subs)) i k
  | alternate {sub subs i j} (hsub : sub ∈ subs) (h : Matches same s sub i j) :
    Matches same s (.alternate subs) i j

/-- A tree matches somewhere in the input, from a place where a rune starts. -/
def Found (same : Nat → Nat → Bool) (re : Regexp) (s : List UInt8) : Prop :=
  ∃ i j, Relation.ReflTransGen (Reads s fun _ => true) 0 i ∧ Matches same s re i j

/-- The `regexp` package: the parser with the flags of `syntax.Perl`, and the search. -/
structure Engine where
  same : Nat → Nat → Bool
  parse : List UInt8 → Option Regexp
  matchString : Regexp → List UInt8 → Bool
  matchString_iff : ∀ re s, matchString re s = true ↔ Found same re s

/-! ### The filter -/

mutual

def requiredLiterals : Regexp → List (List UInt8) → List (List UInt8)
  | .literal fold runes, dst =>
    if !fold && !runes.contains runeError.toNat then dst ++ [runes.flatMap encodeRune] else dst
  | .capture sub, dst | .plus sub, dst => requiredLiterals sub dst
  | .rep min _ sub, dst => if 0 < min then requiredLiterals sub dst else dst
  | .concat subs, dst => requiredLiteralsOf subs dst
  | _, dst => dst

/-- The loop of `requiredLiterals` over the parts of a concatenation. -/
def requiredLiteralsOf : List Regexp → List (List UInt8) → List (List UInt8)
  | [], dst => dst
  | sub :: subs, dst => requiredLiteralsOf subs (requiredLiterals sub dst)

end

structure RegexMatcher where
  pattern : Regexp
  literals : List (List UInt8)

variable (engine : Engine)

def newRegexMatcher (pattern : List UInt8) : Option RegexMatcher :=
  (engine.parse pattern).map fun parsed =>
    ⟨parsed, (requiredLiterals parsed []).mergeSort fun a b => b.length ≤ a.length⟩

def RegexMatcher.accepts (m : RegexMatcher) (s : List UInt8) : Bool :=
  if m.literals.any fun literal => !contains s literal then false
  else engine.matchString m.pattern s

variable {engine} {same : Nat → Nat → Bool} {s : List UInt8}

lemma take_of_readRune {t : List UInt8} {r n : Nat} (h : readRune t = some (r, n))
    (hr : r ≠ runeError.toNat) : t.take n = encodeRune r := by
  cases t with
  | nil => cases h
  | cons b t =>
    rw [readRune] at h
    cases hd : decodeRune (b :: t) with
    | none =>
      rw [hd] at h
      cases h
      exact absurd rfl hr
    | some p =>
      rw [hd] at h
      cases h
      exact take_of_decodeRune hd

/-- What is read as a literal without case folding stands in the input, unless it has an error. -/
lemma start_of_literal {runes : List Nat} {re : Regexp} {i j : Nat} (h : Matches same s re i j)
    (hre : re = .literal false runes) (herr : runeError.toNat ∉ runes) :
    runes.flatMap encodeRune <+: s.drop i := by
  induction h generalizing runes with
  | literalNil =>
    cases hre
    exact nil_prefix
  | @literalCons _ r rs i _ _ hr _ ih =>
    cases hre
    obtain ⟨hr0, herr⟩ := not_or.mp (mem_cons.not.mp herr)
    obtain ⟨r', n, hread, htest, rfl⟩ := hr
    obtain rfl : r = r' := by simpa using htest
    have hrest := ih rfl herr
    rw [← drop_drop] at hrest
    rw [flatMap_cons, ← take_of_readRune hread (Ne.symm hr0)]
    have happend := (prefix_append_right_inj ((s.drop i).take n)).mpr hrest
    rwa [List.take_append_drop] at happend
  | _ => cases hre

variable {dst : List (List UInt8)} {literal : List UInt8} {i j : Nat}

lemma infix_of_literal {fold : Bool} {runes : List Nat}
    (h : Matches same s (.literal fold runes) i j)
    (hl : literal ∈ requiredLiterals (.literal fold runes) dst) :
    literal ∈ dst ∨ literal <:+: s := by
  rw [requiredLiterals] at hl
  split_ifs at hl with hfold
  · rw [mem_append, mem_singleton] at hl
    refine hl.imp_right ?_
    rintro rfl
    simp only [Bool.and_eq_true, Bool.not_eq_true', contains_eq_mem,
      decide_eq_false_iff_not] at hfold
    obtain ⟨rfl, herr⟩ := hfold
    exact (start_of_literal h rfl herr).isInfix.trans (drop_suffix i s).isInfix
  · exact .inl hl

/-- A literal that is collected occurs in every input with a match. -/
lemma infix_of_matches {re : Regexp} (h : Matches same s re i j)
    (hl : literal ∈ requiredLiterals re dst) : literal ∈ dst ∨ literal <:+: s := by
  induction h generalizing dst with
  | @literalNil fold i => exact infix_of_literal (@Matches.literalNil same s fold i) hl
  | literalCons hr hrs => exact infix_of_literal (.literalCons hr hrs) hl
  | capture _ ih | plus _ _ ih =>
    exact ih hl
  | repCons _ _ _ ih =>
    rw [requiredLiterals] at hl
    split_ifs at hl
    · exact ih hl
    · exact .inl hl
  | concatCons _ _ ih ihs =>
    rcases ihs (by rwa [requiredLiterals]) with hdst | hs
    · exact ih hdst
    · exact .inr hs
  | _ => exact .inl hl

/-- **The filter.** A regular expression matches with the filter as it does without it. -/
theorem regexMatcher_accepts {pattern : List UInt8} {m : RegexMatcher}
    (h : newRegexMatcher engine pattern = some m) (s : List UInt8) :
    engine.parse pattern = some m.pattern ∧
      m.accepts engine s = engine.matchString m.pattern s ∧
      ∀ re, Found engine.same re s → ∀ literal ∈ requiredLiterals re [], literal <:+: s := by
  have hall : ∀ re, Found engine.same re s → ∀ literal ∈ requiredLiterals re [],
      literal <:+: s := by
    rintro re ⟨i, j, -, hmatch⟩ literal hl
    exact (infix_of_matches hmatch hl).resolve_left not_mem_nil
  obtain ⟨parsed, hparsed, rfl⟩ := Option.map_eq_some_iff.mp h
  refine ⟨hparsed, ?_, hall⟩
  rw [RegexMatcher.accepts]
  split_ifs with hmissing
  · obtain ⟨literal, hl, hno⟩ := any_eq_true.mp hmissing
    rw [eq_comm, Bool.eq_false_iff, ne_eq, engine.matchString_iff]
    intro hfound
    rw [mem_mergeSort] at hl
    rw [contains_iff.mpr (hall parsed hfound literal hl)] at hno
    cases hno
  · rfl

/-- An engine that reads one pattern. -/
noncomputable def literalEngine : Engine where
  same := (· == ·)
  parse pattern :=
    if pattern = ascii "(ab)+c" then
      some (.concat [.plus (.capture (.literal false [0x61, 0x62])), .literal false [0x63]])
    else none
  matchString re s := @decide (Found (· == ·) re s) (Classical.propDecidable _)
  matchString_iff _ _ := @decide_eq_true_iff _ (Classical.propDecidable _)

theorem regexMatcher_accepts_literal :
    ∃ m, newRegexMatcher literalEngine (ascii "(ab)+c") = some m ∧
      m.accepts literalEngine (ascii "xababc") =
        literalEngine.matchString m.pattern (ascii "xababc") := by
  have h : newRegexMatcher literalEngine (ascii "(ab)+c") = some _ := rfl
  exact ⟨_, h, (regexMatcher_accepts h (ascii "xababc")).2.1⟩

end BypassCore.StrMatcher.Regex
