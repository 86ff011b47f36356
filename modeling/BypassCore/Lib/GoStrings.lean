import Mathlib.Data.UInt

/-!
# Go strings as bytes

A Go string is a sequence of bytes. Where the code looks into a string it is modelled as a list of
bytes, and a literal of the source as the bytes of its ASCII text.
-/

namespace Lib

open List

def ascii (s : String) : List UInt8 := s.toList.map fun c => UInt8.ofNat c.toNat

/-- The text in front of the first separator is determined. -/
lemma append_sep_inj {α : Type*} {a b x y : List α} {sep : α} (ha : sep ∉ a) (hb : sep ∉ b)
    (h : a ++ sep :: x = b ++ sep :: y) : a = b ∧ x = y := by
  induction a generalizing b with
  | nil =>
    cases b with
    | nil => exact ⟨rfl, tail_eq_of_cons_eq h⟩
    | cons c b =>
      rw [cons_append] at h
      have hc : sep = c := head_eq_of_cons_eq h
      exact absurd (hc ▸ mem_cons_self) hb
  | cons c a ih =>
    cases b with
    | nil =>
      rw [nil_append] at h
      have hc : c = sep := head_eq_of_cons_eq h
      exact absurd (hc ▸ mem_cons_self) ha
    | cons d b =>
      rw [cons_append] at h
      obtain ⟨rfl, hrest⟩ := cons_eq_cons.mp h
      obtain ⟨rfl, rfl⟩ := ih (fun hm => ha (mem_cons_of_mem _ hm))
        (fun hm => hb (mem_cons_of_mem _ hm)) hrest
      exact ⟨rfl, rfl⟩

end Lib

/-!
## Case folding of ASCII strings

`strings.ToLower` and `strings.EqualFold` of Go on strings of ASCII bytes. Two such strings are
equal under case folding exactly when their lower-case forms are the same.
-/

namespace Lib.ASCII

def isUpper (b : UInt8) : Bool := 65 ≤ b && b ≤ 90

def lowerByte (b : UInt8) : UInt8 := if isUpper b then b + 32 else b

def toLower (s : List UInt8) : List UInt8 := s.map lowerByte

/-- One round of the loop of `strings.EqualFold`: the smaller byte is an upper-case letter and the
larger one its lower-case form. -/
def foldEq (s t : UInt8) : Bool :=
  s == t || (if t < s then isUpper t && s == t + 32 else isUpper s && t == s + 32)

def equalFold : List UInt8 → List UInt8 → Bool
  | [], [] => true
  | a :: s, b :: t => foldEq a b && equalFold s t
  | _, _ => false

lemma isUpper_iff {b : UInt8} : isUpper b = true ↔ 65 ≤ b.toNat ∧ b.toNat ≤ 90 := by
  simp [isUpper, UInt8.le_iff_toNat_le]

lemma toNat_add_of_isUpper {b : UInt8} (h : isUpper b = true) : (b + 32).toNat = b.toNat + 32 := by
  rw [isUpper_iff] at h
  exact Nat.mod_eq_of_lt (by simp; omega)

lemma toNat_lowerByte (b : UInt8) :
    (lowerByte b).toNat = if 65 ≤ b.toNat ∧ b.toNat ≤ 90 then b.toNat + 32 else b.toNat := by
  simp only [lowerByte, isUpper_iff]
  split_ifs with h
  · exact toNat_add_of_isUpper (isUpper_iff.mpr h)
  · rfl

lemma lowerByte_lowerByte (b : UInt8) : lowerByte (lowerByte b) = lowerByte b := by
  apply UInt8.toNat_inj.mp
  rw [toNat_lowerByte, toNat_lowerByte]
  split_ifs <;> omega

@[simp] lemma toLower_toLower (s : List UInt8) : toLower (toLower s) = toLower s := by
  simp [toLower, lowerByte_lowerByte]

lemma isUpper_and_eq_iff {c s : UInt8} :
    (isUpper c && s == c + 32) = true ↔ (65 ≤ c.toNat ∧ c.toNat ≤ 90) ∧ s.toNat = c.toNat + 32 := by
  rw [Bool.and_eq_true, beq_iff_eq, ← UInt8.toNat_inj, ← isUpper_iff]
  apply and_congr_right
  intro h
  rw [toNat_add_of_isUpper h]

lemma foldEq_iff (a b : UInt8) : foldEq a b = true ↔ lowerByte a = lowerByte b := by
  rw [← UInt8.toNat_inj, toNat_lowerByte, toNat_lowerByte, foldEq, Bool.or_eq_true, beq_iff_eq,
    ← UInt8.toNat_inj]
  by_cases hlt : b < a
  · rw [if_pos hlt, isUpper_and_eq_iff]
    rw [UInt8.lt_iff_toNat_lt] at hlt
    split_ifs <;> omega
  · rw [if_neg hlt, isUpper_and_eq_iff]
    rw [UInt8.lt_iff_toNat_lt] at hlt
    split_ifs <;> omega

lemma equalFold_iff {s t : List UInt8} : equalFold s t = true ↔ toLower s = toLower t := by
  induction s generalizing t with
  | nil => cases t <;> simp [equalFold, toLower]
  | cons a s ih =>
    cases t with
    | nil => simp [equalFold, toLower]
    | cons b t =>
      rw [equalFold, Bool.and_eq_true, foldEq_iff, ih]
      simp [toLower]

end Lib.ASCII

/-!
## Functions of the Go package `strings`
-/

namespace Lib.GoStrings

def isSpace (c : Char) : Bool :=
  let n := c.toNat
  (9 ≤ n && n ≤ 13) || n == 32 || n == 0x85 || n == 0xA0 || n == 0x1680 ||
    (0x2000 ≤ n && n ≤ 0x200a) || n == 0x2028 || n == 0x2029 || n == 0x202f || n == 0x205f ||
    n == 0x3000

def trimFunc (s : String) (p : Char → Bool) : String :=
  String.ofList ((s.toList.dropWhile p).reverse.dropWhile p).reverse

def trimSpace (s : String) : String := trimFunc s isSpace

def trim (s cutset : String) : String := trimFunc s fun c => c ∈ cutset.toList

def trimPrefix (s start : String) : String :=
  if start.toList.isPrefixOf s.toList then String.ofList (s.toList.drop start.length) else s

end Lib.GoStrings

/-!
## Functions of the Go packages `bytes`, `strconv` and `net` on byte strings

An occurrence that is found in a byte string is found at the same place when more bytes follow.
-/

namespace Lib.GoBytes

open List Option

/-- `bytes.Index`, with `none` for -1. -/
def index (sep : List UInt8) : List UInt8 → Option Nat
  | [] => if sep = [] then some 0 else none
  | b :: s => if sep <+: b :: s then some 0 else (index sep s).map (· + 1)

/-- The rest of `bytes.Split`: `skip` bytes of a separator are still to pass, and `part` is what
stands before, reversed. -/
def splitFrom (sep : List UInt8) : Nat → List UInt8 → List UInt8 → List (List UInt8)
  | _, part, [] => [part.reverse]
  | skip + 1, part, _ :: s => splitFrom sep skip part s
  | 0, part, b :: s =>
    if sep <+: b :: s then part.reverse :: splitFrom sep (sep.length - 1) [] s
    else splitFrom sep 0 (b :: part) s

/-- `bytes.Split`, for a separator that is not empty. -/
def split (sep s : List UInt8) : List (List UInt8) := splitFrom sep 0 [] s

def splitN2 (sep : UInt8) (s : List UInt8) : List (List UInt8) :=
  match s.dropWhile (· != sep) with
  | [] => [s]
  | _ :: rest => [s.takeWhile (· != sep), rest]

/-- `strings.ContainsAny`, for a set of ASCII characters. -/
def containsAny (s chars : List UInt8) : Bool := s.any fun b => chars.contains b

/-- `strings.Trim`, for a set of ASCII characters. -/
def trim (s cutset : List UInt8) : List UInt8 :=
  ((s.dropWhile fun b => cutset.contains b).reverse.dropWhile fun b => cutset.contains b).reverse

def digits : Nat → List UInt8 → Option Nat
  | n, [] => some n
  | n, b :: s => if 0x30 ≤ b ∧ b ≤ 0x39 then digits (n * 10 + (b.toNat - 0x30)) s else none

def atoi (s : List UInt8) : Option Int :=
  let magnitude (t : List UInt8) : Option Nat := if t = [] then none else digits 0 t
  let value : Option Int :=
    match s with
    | 0x2b :: t => (magnitude t).map fun n => (n : Int)
    | 0x2d :: t => (magnitude t).map fun n => -(n : Int)
    | t => (magnitude t).map fun n => (n : Int)
  value.filter fun n => decide (-2 ^ 63 ≤ n ∧ n < 2 ^ 63)

def lastIndexByte (s : List UInt8) (c : UInt8) : Option Nat :=
  (s.reverse.findIdx? (· == c)).map fun i => s.length - 1 - i

/-- `net.SplitHostPort`, with `none` for an error. -/
def splitHostPort (hostport : List UInt8) : Option (List UInt8 × List UInt8) := do
  let i ← lastIndexByte hostport 0x3a
  let (host, j, k) ←
    if hostport.head? = some 0x5b then do
      -- the closing bracket stands right before the last colon
      let close ← hostport.findIdx? (· == 0x5d)
      if close + 1 = i then some ((hostport.take close).drop 1, 1, close + 1) else none
    else
      if (hostport.take i).contains 0x3a then none else some (hostport.take i, 0, 0)
  if (hostport.drop j).contains 0x5b then none
  else if (hostport.drop k).contains 0x5d then none
  else some (host, hostport.drop (i + 1))

/-! ### Occurrences -/

variable {sep s : List UInt8} {i : Nat}

lemma isPrefix_append_iff (h : sep.length ≤ s.length) (t : List UInt8) :
    sep <+: s ++ t ↔ sep <+: s := by
  constructor
  · intro hp
    exact prefix_of_prefix_length_le hp (prefix_append s t) h
  · intro hp
    exact hp.trans (prefix_append s t)

section

variable (h : index sep s = some i)
include h

lemma length_le_of_index : i + sep.length ≤ s.length := by
  induction s generalizing i with
  | nil =>
    simp only [index] at h
    split_ifs at h with hsep
    cases h
    simp [hsep]
  | cons b s ih =>
    simp only [index] at h
    split_ifs at h with hsep
    · cases h
      rw [Nat.zero_add]
      exact hsep.length_le
    · obtain ⟨j, hj, rfl⟩ := map_eq_some_iff.mp h
      have hle := ih hj
      simp only [length_cons]
      omega

lemma index_append (t : List UInt8) : index sep (s ++ t) = some i := by
  induction s generalizing i with
  | nil =>
    simp only [index] at h
    split_ifs at h with hsep
    cases h
    subst hsep
    cases t <;> simp [index]
  | cons b s ih =>
    have hlen : sep.length ≤ (b :: s).length := by
      have hle := length_le_of_index h
      omega
    have hiff : sep <+: b :: (s ++ t) ↔ sep <+: b :: s := isPrefix_append_iff hlen t
    simp only [index, cons_append, hiff] at h ⊢
    split_ifs at h ⊢ with hsep
    · exact h
    · obtain ⟨j, hj, rfl⟩ := map_eq_some_iff.mp h
      rw [ih hj]
      rfl

/-- What stands before a found occurrence does not depend on what follows it. -/
lemma take_of_index (t : List UInt8) : (s ++ t).take i = s.take i := by
  have hle := length_le_of_index h
  exact take_append_of_le_length (by omega)

lemma isPrefix_drop_of_index : sep <+: s.drop i := by
  induction s generalizing i with
  | nil =>
    simp only [index] at h
    split_ifs at h with hsep
    cases h
    simp [hsep]
  | cons b s ih =>
    simp only [index] at h
    split_ifs at h with hsep
    · cases h
      exact hsep
    · obtain ⟨j, hj, rfl⟩ := map_eq_some_iff.mp h
      exact ih hj

end

lemma index_isSome_of_isPrefix_drop (h : sep <+: s.drop i) : (index sep s).isSome := by
  induction s generalizing i with
  | nil =>
    rw [drop_nil, prefix_nil] at h
    simp [index, h]
  | cons b s ih =>
    simp only [index]
    split_ifs with hsep
    · rfl
    · cases i with
      | zero => exact absurd h hsep
      | succ i =>
        rw [isSome_map]
        exact ih h

/-- An occurrence is found in the part of the string that ends with it, and in no shorter one. -/
lemma index_take (h : index sep s = some i) (n : Nat) :
    index sep (s.take n) = if i + sep.length ≤ n then some i else none := by
  have hsame : ∀ k, index sep (s.take n) = some k → k = i := by
    intro k hk
    have happend := index_append hk (s.drop n)
    rw [List.take_append_drop, h] at happend
    exact (Option.some.inj happend).symm
  split_ifs with hn
  · have hfound : (index sep (s.take n)).isSome := by
      apply index_isSome_of_isPrefix_drop (i := i)
      rw [drop_take]
      obtain ⟨t, ht⟩ := isPrefix_drop_of_index h
      rw [← ht, take_append, take_of_length_le (by omega)]
      exact prefix_append sep _
    obtain ⟨k, hk⟩ := isSome_iff_exists.mp hfound
    rw [hk, hsame k hk]
  · cases hk : index sep (s.take n) with
    | none => rfl
    | some k =>
      have hle := length_le_of_index hk
      have hlen := length_take_le n s
      rw [hsame k hk] at hle
      omega

end Lib.GoBytes
