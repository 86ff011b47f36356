import Mathlib.Data.List.Infix
import Mathlib.Data.List.Lookmap

/-!
# Tries

A tree whose edges carry labels and whose nodes carry values. A value is changed at the end of a
path, and the nodes on the way are made when they are missing. What a node that was made in this way
carries is what a missing node stands for, so a trie is a function from paths to values.

A walk follows a path and looks at the values on the way. It ends where the trie does.
-/

namespace Lib

open List

inductive Trie (L V : Type) where
  | node (value : V) (children : List (L × Trie L V))

namespace Trie

variable {L V : Type} [DecidableEq L]

def value : Trie L V → V
  | .node v _ => v

def children : Trie L V → List (L × Trie L V)
  | .node _ cs => cs

def child (t : Trie L V) (l : L) : Option (Trie L V) := t.children.lookup l

def setChild (t : Trie L V) (l : L) (c : Trie L V) : Trie L V :=
  .node t.value ((l, c) :: t.children.filter fun e => e.1 != l)

/-- Change the value at the end of a path; missing nodes are made with the value `fresh`. -/
def update (fresh : V) (f : V → V) : List L → Trie L V → Trie L V
  | [], t => .node (f t.value) t.children
  | l :: path, t => t.setChild l (update fresh f path ((t.child l).getD (.node fresh [])))

def valueAt (fresh : V) : List L → Trie L V → V
  | [], t => t.value
  | l :: path, t => ((t.child l).map (valueAt fresh path)).getD fresh

/-- Follow a path and collect the values that count, until the trie ends. -/
def walk (counts : V → Bool) : List L → Trie L V → List V
  | [], _ => []
  | l :: path, t =>
    match t.child l with
    | none => []
    | some c =>
      let found := if counts c.value then [c.value] else []
      if c.children.isEmpty then found else found ++ walk counts path c

def walkAny (counts : V → Bool) : List L → Trie L V → Bool
  | [], _ => false
  | l :: path, t =>
    match t.child l with
    | none => false
    | some c => if counts c.value then true
      else if c.children.isEmpty then false else walkAny counts path c

variable {fresh : V} {f : V → V} {t : Trie L V} {path q : List L}

lemma lookup_filter_ne (cs : List (L × Trie L V)) {l l' : L} (h : l' ≠ l) :
    (cs.filter fun e => e.1 != l).lookup l' = cs.lookup l' := by
  induction cs with
  | nil => rfl
  | cons e cs ih =>
    obtain ⟨k, c⟩ := e
    by_cases hk : k = l
    · subst hk
      have hne : (l' == k) = false := by simpa using h
      simp [lookup_cons, hne, ih]
    · have hkeep : (k != l) = true := by simpa using hk
      simp only [filter_cons, hkeep, if_true, lookup_cons, ih]

lemma child_setChild (t : Trie L V) (l l' : L) (c : Trie L V) :
    (t.setChild l c).child l' = if l' = l then some c else t.child l' := by
  unfold child setChild children
  split_ifs with h
  · subst h
    exact lookup_cons_self
  · have hne : (l' == l) = false := by simpa using h
    rw [lookup_cons, hne]
    exact lookup_filter_ne _ h

/-- An empty node stands for missing ones. -/
@[simp] lemma valueAt_fresh (path : List L) : valueAt fresh path (.node fresh []) = fresh := by
  cases path <;> rfl

lemma valueAt_cons (l : L) (path : List L) (t : Trie L V) :
    valueAt fresh (l :: path) t = valueAt fresh path ((t.child l).getD (.node fresh [])) := by
  rw [valueAt]
  cases t.child l with
  | none => exact (valueAt_fresh path).symm
  | some c => rfl

/-- **Update.** The value at the path changes, and no other. -/
theorem valueAt_update (path q : List L) (t : Trie L V) :
    valueAt fresh q (update fresh f path t) =
      if q = path then f (valueAt fresh path t) else valueAt fresh q t := by
  induction path generalizing q t with
  | nil =>
    cases q with
    | nil => rfl
    | cons l q =>
      rfl
  | cons l path ih =>
    cases q with
    | nil =>
      rfl
    | cons l' q =>
      rw [update, valueAt_cons, child_setChild]
      by_cases hl : l' = l
      · subst hl
        rw [if_pos rfl, Option.getD_some, ih, valueAt_cons, valueAt_cons]
        simp
      · rw [if_neg hl, if_neg (fun h => hl (cons_eq_cons.mp h).1), valueAt_cons]

/-- The non-empty starts of a path, from the shortest one. -/
def starts : List L → List (List L)
  | [] => []
  | l :: path => [l] :: (starts path).map (l :: ·)

omit [DecidableEq L] in
lemma mem_starts : q ∈ starts path ↔ q ≠ [] ∧ q <+: path := by
  induction path generalizing q with
  | nil => simp [starts]
  | cons l path ih =>
    rw [starts, mem_cons, mem_map]
    simp only [ih]
    cases q with
    | nil => simp
    | cons l' q =>
      rw [cons_prefix_cons]
      constructor
      · rintro (hq | ⟨q', ⟨-, hq'⟩, heq⟩)
        · obtain ⟨rfl, rfl⟩ := cons_eq_cons.mp hq
          exact ⟨cons_ne_nil _ _, rfl, nil_prefix⟩
        · obtain ⟨rfl, rfl⟩ := cons_eq_cons.mp heq
          exact ⟨cons_ne_nil _ _, rfl, hq'⟩
      · rintro ⟨-, rfl, hq⟩
        by_cases hq0 : q = []
        · subst hq0
          exact .inl rfl
        · exact .inr ⟨q, ⟨hq0, hq⟩, rfl⟩

omit [DecidableEq L] in
/-- Each start goes on to the next ones. -/
lemma pairwise_starts (path : List L) :
    (starts path).Pairwise fun q q' => q <+: q' ∧ q.length < q'.length := by
  induction path with
  | nil => exact List.Pairwise.nil
  | cons l path ih =>
    rw [starts, pairwise_cons, pairwise_map]
    constructor
    · intro q' hq'
      obtain ⟨q, hq, rfl⟩ := mem_map.mp hq'
      refine ⟨cons_prefix_cons.mpr ⟨rfl, nil_prefix⟩, ?_⟩
      exact Nat.succ_lt_succ (length_pos_iff.mpr (mem_starts.mp hq).1)
    · refine ih.imp fun h => ?_
      exact ⟨cons_prefix_cons.mpr ⟨rfl, h.1⟩, Nat.succ_lt_succ h.2⟩

section Walk

variable {counts : V → Bool} (hfresh : counts fresh = false)

def here (counts : V → Bool) (c : Trie L V) : List V := if counts c.value then [c.value] else []

/-- A walk from a leaf finds nothing, so it makes no difference that the loop ends there. -/
lemma walk_of_leaf {c : Trie L V} (hleaf : c.children.isEmpty = true) (path : List L) :
    walk counts path c = [] := by
  cases path with
  | nil => rfl
  | cons l path =>
    have hnone : c.child l = none := by
      rw [child, List.isEmpty_iff.mp hleaf]
      rfl
    simp only [walk, hnone]

lemma walk_cons_of_some {l : L} {c : Trie L V} (h : t.child l = some c) (path : List L) :
    walk counts (l :: path) t = here counts c ++ walk counts path c := by
  simp only [walk, h]
  by_cases hleaf : c.children.isEmpty = true
  · rw [if_pos hleaf, walk_of_leaf hleaf, append_nil]
    rfl
  · rw [if_neg hleaf]
    rfl

include hfresh in
/-- A walk finds the values that count at the starts of its path, in this order. -/
theorem walk_eq (path : List L) (t : Trie L V) :
    walk counts path t = ((starts path).map fun q => valueAt fresh q t).filter counts := by
  induction path generalizing t with
  | nil => rfl
  | cons l path ih =>
    have hmap : ((starts (l :: path)).map fun q => valueAt fresh q t) =
        ((t.child l).getD (.node fresh [])).value ::
          (starts path).map fun q => valueAt fresh q ((t.child l).getD (.node fresh [])) := by
      simp only [starts, map_cons, map_map, valueAt_cons, Function.comp_def]
      rfl
    rw [hmap]
    cases hc : t.child l with
    | none =>
      -- beyond the end of the trie every value is fresh, and does not count
      have hnone : walk counts (l :: path) t = [] := by simp only [walk, hc]
      rw [hnone, eq_comm]
      simp [value, hfresh]
    | some c =>
      rw [walk_cons_of_some hc, ih, Option.getD_some, filter_cons, here]
      split_ifs <;> rfl

/-- A walk for one value succeeds when it finds some value. -/
lemma walkAny_eq (counts : V → Bool) (path : List L) (t : Trie L V) :
    walkAny counts path t = !(walk counts path t).isEmpty := by
  induction path generalizing t with
  | nil => rfl
  | cons l path ih =>
    cases hc : t.child l with
    | none => simp [walk, walkAny, hc]
    | some c =>
      simp only [walk, walkAny, hc]
      split_ifs with hv hleaf
      · rfl
      · rfl
      · rfl
      · rw [ih]
        rfl

lemma walkAny_of_leaf {c : Trie L V} (hleaf : c.children.isEmpty = true) :
    walkAny counts path c = false := by
  rw [walkAny_eq, walk_of_leaf hleaf]
  rfl

include hfresh in
theorem walkAny_iff :
    walkAny counts path t = true ↔ ∃ q ∈ starts path, counts (valueAt fresh q t) = true := by
  rw [walkAny_eq, Bool.not_eq_true', isEmpty_eq_false_iff_exists_mem]
  simp [walk_eq hfresh]

end Walk

end Trie
end Lib
