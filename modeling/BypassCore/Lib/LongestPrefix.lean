import Mathlib.Data.List.Infix
import Mathlib.Data.List.Nodup
import Mathlib.Data.List.Perm.Subperm
import Mathlib.Data.Set.Insert

/-!
# Longest prefixes in a set of words

A trie whose edges prepend letters holds a set of words that is closed under dropping the first
letter. The state after a word is the longest prefix of the word in the set, and the link of a word
is its longest proper prefix in the set. This is all that an automaton with failure links computes:
the state after one more letter is found from the state before, the link of a longer word from the
link of the shorter one, and links can be compressed to the words that matter.
-/

namespace Lib

open List

variable {α : Type*} {T S : Set (List α)} {u w x f p : List α} {e : α}

/-- A prefix of `w` other than `w` lacks its last letter. -/
lemma isPrefix_dropLast (h : p <+: w) (hne : p ≠ w) : p <+: w.dropLast := by
  obtain ⟨t, rfl⟩ := h
  have ht : t ≠ [] := by
    rintro rfl
    exact hne (append_nil p).symm
  rw [dropLast_append_of_ne_nil ht]
  exact ⟨_, rfl⟩

lemma dropLast_start (w : List α) : w.dropLast <+: w := by
  exact dropLast_prefix w

structure Longest (T : Set (List α)) (u w : List α) : Prop where
  start : w <+: u
  mem : w ∈ T
  longest : ∀ {p}, p <+: u → p ∈ T → p <+: w

namespace Longest

lemma self (h : w ∈ T) : Longest T w w := ⟨⟨[], append_nil w⟩, h, fun hp _ => hp⟩

lemma unique (h : Longest T u w) (h' : Longest T u x) : w = x := by
  have hwx := h'.longest h.start h.mem
  have hxw := h.longest h'.start h'.mem
  exact hwx.eq_of_length (Nat.le_antisymm hwx.length_le hxw.length_le)

lemma eq_of_mem (h : Longest T u w) (hu : u ∈ T) : u = w := (self hu).unique h

lemma nil (h : [] ∈ T) : Longest T [] [] := self h

lemma length_lt (h : Longest T w.dropLast f) (hw : w ≠ []) : f.length < w.length := by
  have hle := h.start.length_le
  rw [length_dropLast] at hle
  exact hle.trans_lt (Nat.sub_one_lt (length_pos_iff.mpr hw).ne')

/-- **Transition.** One more letter in front: only the state matters, not the word. -/
lemma cons (hT : ∀ {e p}, e :: p ∈ T → p ∈ T) (h : Longest T u w) (hx : Longest T (e :: w) x) :
    Longest T (e :: u) x := by
  refine ⟨hx.start.trans ?_, hx.mem, ?_⟩
  · exact cons_prefix_cons.mpr ⟨rfl, h.start⟩
  · intro p hp hpT
    cases p with
    | nil => exact nil_prefix
    | cons a p =>
      obtain ⟨rfl, hpu⟩ := cons_prefix_cons.mp hp
      exact hx.longest (cons_prefix_cons.mpr ⟨rfl, h.longest hpu (hT hpT)⟩) hpT

/-- A word outside the set has the state of the word without its last letter. -/
lemma of_dropLast (hw : w ∉ T) (h : Longest T w.dropLast x) : Longest T w x := by
  refine ⟨h.start.trans (dropLast_start w), h.mem, ?_⟩
  intro p hp hpT
  apply h.longest (isPrefix_dropLast hp ?_) hpT
  rintro rfl
  exact hw hpT

/-- The prefixes that lie in a part of the set are those of the state. -/
lemma start_iff (h : Longest T u w) (hp : p ∈ T) : p <+: u ↔ p <+: w :=
  ⟨fun hpu => h.longest hpu hp, fun hpw => hpw.trans h.start⟩

/-- The link of a word may stay when it matters itself. -/
lemma compress (hS : insert [] S ⊆ T) (h : Longest T u f) (hf : f ∈ S) :
    Longest (insert [] S) u f :=
  ⟨h.start, Set.mem_insert_of_mem _ hf, fun hp hpS => h.longest hp (hS hpS)⟩

/-- Otherwise its own compressed link takes its place. -/
lemma compress_skip (hS : insert [] S ⊆ T) (h : Longest T u f) (hf : f ∉ S)
    (hx : Longest (insert [] S) f.dropLast x) : Longest (insert [] S) u x := by
  refine ⟨(hx.start.trans (dropLast_start f)).trans h.start, hx.mem, ?_⟩
  intro p hp hpS
  rcases Set.mem_insert_iff.mp hpS with rfl | hpS'
  · exact nil_prefix
  · apply hx.longest (isPrefix_dropLast (h.longest hp (hS hpS)) ?_) hpS
    rintro rfl
    exact hf hpS'

end Longest

/-- The words that matter among the prefixes of `w` are `w` itself and those of its compressed
link. -/
lemma start_iff_or_link (h : Longest (insert [] S) w.dropLast f) (hp : p ∈ S) :
    p <+: w ↔ p = w ∨ p <+: f := by
  constructor
  · intro hpw
    by_cases hne : p = w
    · exact .inl hne
    · exact .inr (h.longest (isPrefix_dropLast hpw hne) (Set.mem_insert_of_mem _ hp))
  · rintro (rfl | hpf)
    · exact prefix_rfl
    · exact (hpf.trans h.start).trans (dropLast_start w)

lemma nodup_tails (w : List α) : w.tails.Nodup := by
  induction w with
  | nil => exact nodup_singleton _
  | cons e w ih =>
    rw [tails_cons, nodup_cons]
    refine ⟨fun hmem => ?_, ih⟩
    have hle := ((mem_tails _ _).mp hmem).length_le
    exact absurd hle (Nat.not_succ_le_self _)

/-- A closed set has a word for every tail of a word, so its words are shorter than it is large. -/
lemma length_lt_of_closed {W : List (List α)} (hclosed : ∀ {e w}, e :: w ∈ W → w ∈ W)
    (hw : w ∈ W) : w.length < W.length := by
  have hsub : w.tails ⊆ W := by
    intro x hx
    obtain ⟨front, rfl⟩ := (mem_tails _ _).mp hx
    clear hx
    induction front with
    | nil => exact hw
    | cons e front ih => exact ih (hclosed hw)
  have hle := (subperm_of_subset (nodup_tails w) hsub).length_le
  rwa [length_tails] at hle

end Lib
