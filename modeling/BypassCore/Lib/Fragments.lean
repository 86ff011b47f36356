import Mathlib.Data.List.Basic
import Mathlib.Data.Nat.Find
import Mathlib.Order.Bounds.Basic
import Mathlib.Order.MinMax

/-!
# Putting fragments together

Fragments of a list, each at its offset, in any order, with overlaps and repetitions. Sorted by
their offsets they are put together from the front until the first gap. What comes out is the
longest prefix of the list that the fragments cover.
-/

namespace Lib

open List

variable {α : Type*}

/-- Some elements that stand together, and the place of the first. -/
structure Fragment (α : Type*) where
  offset : ℕ
  data : List α
deriving DecidableEq

namespace Fragment

def Agrees (s : List α) (f : Fragment α) : Prop := f.data <+: s.drop f.offset

instance [DecidableEq α] (s : List α) (f : Fragment α) : Decidable (f.Agrees s) :=
  inferInstanceAs (Decidable (_ <+: _))

def stop (f : Fragment α) : ℕ := f.offset + f.data.length

def Covered (fs : List (Fragment α)) (i : ℕ) : Prop := ∃ f ∈ fs, f.offset ≤ i ∧ i < f.stop

/-- The length of the longest prefix of a list that the fragments cover without a gap. -/
def Reaches (s : List α) (fs : List (Fragment α)) (n : ℕ) : Prop :=
  IsGreatest {n | n ≤ s.length ∧ ∀ i < n, Covered fs i} n

/-- Put sorted fragments together behind `data`, until a gap or up to a limit. -/
def assemble (limit : ℕ) : List α → List (Fragment α) → List α
  | data, [] => data
  | data, f :: fs =>
    if data.length < f.offset then data
    else
      let start := data.length - f.offset
      let data := if start < f.data.length then data ++ f.data.drop start else data
      if limit ≤ data.length then data.take limit else assemble limit data fs

variable {s data : List α} {f : Fragment α} {fs fs' : List (Fragment α)} {n m limit : ℕ}

lemma Agrees.stop_le (h : f.Agrees s) (hoffset : f.offset ≤ s.length) : f.stop ≤ s.length := by
  have hlen := IsPrefix.length_le h
  rw [length_drop] at hlen
  rw [stop]
  omega

/-- A fragment that begins in a prefix lengthens it. -/
lemma take_append_drop (h : f.Agrees s) (hoffset : f.offset ≤ n) :
    s.take n ++ f.data.drop (n - f.offset) = s.take (max n f.stop) := by
  obtain ⟨t, ht⟩ := h
  by_cases hstop : f.stop ≤ n
  · have hdata : f.data.length ≤ n - f.offset := by
      rw [stop] at hstop
      omega
    rw [drop_eq_nil_of_le hdata, append_nil, max_eq_left hstop]
  · rw [stop] at hstop
    have hrest : (s.drop n).take (f.stop - n) = f.data.drop (n - f.offset) := by
      have hdrop : s.drop n = f.data.drop (n - f.offset) ++ t := by
        rw [← drop_append_of_le_length (by omega), ht, drop_drop]
        congr 1
        omega
      rw [hdrop, take_append_of_le_length (by rw [length_drop, stop]; omega),
        take_of_length_le (by rw [length_drop, stop]; omega)]
    rw [max_eq_right (by rw [stop]; omega), ← hrest]
    have hsum : f.stop = n + (f.stop - n) := by
      rw [stop]
      omega
    rw [hsum, take_add, Nat.add_sub_cancel_left]

/-- The data after a fragment that begins in a prefix. -/
lemma assemble_cons (h : f.Agrees s) (hn : n ≤ s.length) (hoffset : f.offset ≤ n) :
    assemble limit (s.take n) (f :: fs) =
      if limit ≤ (s.take (max n f.stop)).length then (s.take (max n f.stop)).take limit
      else assemble limit (s.take (max n f.stop)) fs := by
  have hlen : (s.take n).length = n := length_take_of_le hn
  have hdata : (if n - f.offset < f.data.length then s.take n ++ f.data.drop (n - f.offset)
      else s.take n) = s.take (max n f.stop) := by
    rw [← take_append_drop h hoffset]
    split_ifs with hstart
    · rfl
    · rw [drop_eq_nil_of_le (Nat.le_of_not_lt hstart), append_nil]
  rw [assemble, hlen, if_neg (Nat.not_lt.mpr hoffset)]
  dsimp only
  rw [hdata]

lemma reaches_of_gap (hn : n ≤ s.length) (hcover : ∀ i < n, Covered fs i)
    (hgap : n < s.length → ¬ Covered fs n) : Reaches s fs n := by
  refine ⟨⟨hn, hcover⟩, ?_⟩
  rintro m ⟨hm, hmcover⟩
  by_contra hlt
  rw [not_le] at hlt
  exact hgap (hlt.trans_le hm) (hmcover n hlt)

/-- The loop goes on from a prefix that the fragments before it cover. -/
lemma reaches_assemble {before : List (Fragment α)} (hlimit : s.length ≤ limit)
    (hsorted : fs.Pairwise fun f g => f.offset ≤ g.offset) (hagrees : ∀ f ∈ fs, f.Agrees s)
    (hn : n ≤ s.length) (hcover : ∀ i < n, Covered before i) (hbefore : ∀ f ∈ before, f.stop ≤ n) :
    ∃ m, Reaches s (before ++ fs) m ∧ assemble limit (s.take n) fs = s.take m := by
  induction fs generalizing before n with
  | nil =>
    refine ⟨n, reaches_of_gap hn ?_ ?_, rfl⟩
    · rwa [append_nil]
    · rintro - ⟨f, hf, -, hlt⟩
      rw [append_nil] at hf
      exact absurd (hbefore f hf) (Nat.not_le.mpr hlt)
  | cons f fs ih =>
    rw [pairwise_cons] at hsorted
    rw [forall_mem_cons] at hagrees
    have hleft (i : ℕ) (hi : i < n) : Covered (before ++ f :: fs) i := by
      obtain ⟨g, hg, hgi⟩ := hcover i hi
      exact ⟨g, mem_append_left _ hg, hgi⟩
    by_cases hoffset : f.offset ≤ n
    · rw [assemble_cons hagrees.1 hn hoffset]
      have hmax : max n f.stop ≤ s.length :=
        max_le hn (hagrees.1.stop_le (hoffset.trans hn))
      have hbefore' : ∀ g ∈ before ++ [f], g.stop ≤ max n f.stop := by
        intro g hg
        rcases mem_append.mp hg with hg | hg
        · exact (hbefore g hg).trans (le_max_left _ _)
        · rw [mem_singleton.mp hg]
          exact le_max_right _ _
      have hcover' : ∀ i < max n f.stop, Covered (before ++ [f]) i := by
        intro i hi
        by_cases hin : i < n
        · obtain ⟨g, hg, hgi⟩ := hcover i hin
          exact ⟨g, mem_append_left _ hg, hgi⟩
        · refine ⟨f, by simp, ?_, ?_⟩
          · omega
          · exact (lt_max_iff.mp hi).resolve_left hin
      have happ : before ++ f :: fs = (before ++ [f]) ++ fs := by simp
      rw [length_take_of_le hmax, happ]
      split_ifs with hfull
      · -- the whole list is there
        refine ⟨max n f.stop, reaches_of_gap hmax ?_ ?_, ?_⟩
        · intro i hi
          obtain ⟨g, hg, hgi⟩ := hcover' i hi
          exact ⟨g, mem_append_left _ hg, hgi⟩
        · intro hlt
          omega
        · rw [take_take, min_eq_right (hmax.trans hlimit)]
      · exact ih hsorted.2 hagrees.2 hmax hcover' hbefore'
    · -- the fragments from here on begin behind the gap
      rw [not_le] at hoffset
      refine ⟨n, reaches_of_gap hn hleft ?_, ?_⟩
      · rintro - ⟨g, hg, hstart, hstop⟩
        rcases mem_append.mp hg with hg | hg
        · exact absurd (hbefore g hg) (Nat.not_le.mpr hstop)
        · have hfg : f.offset ≤ g.offset := by
            rcases mem_cons.mp hg with rfl | hg
            · exact le_rfl
            · exact hsorted.1 g hg
          omega
      · rw [assemble, length_take_of_le hn, if_pos hoffset]

/-- Sorted fragments of a list give the longest prefix that they cover. -/
theorem assemble_eq_take (hlimit : s.length ≤ limit)
    (hsorted : fs.Pairwise fun f g => f.offset ≤ g.offset) (hagrees : ∀ f ∈ fs, f.Agrees s)
    (hn : Reaches s fs n) : assemble limit [] fs = s.take n := by
  obtain ⟨m, hm, heq⟩ : ∃ m, Reaches s ([] ++ fs) m ∧ assemble limit (s.take 0) fs = s.take m :=
    reaches_assemble hlimit hsorted hagrees (Nat.zero_le _)
      (fun i hi => absurd hi (Nat.not_lt_zero i)) (forall_mem_nil _)
  rw [hn.unique hm]
  exact heq

lemma exists_reaches (s : List α) (fs : List (Fragment α)) : ∃ n, Reaches s fs n := by
  classical
  let P : ℕ → Prop := fun n => ∀ i < n, Covered fs i
  have hzero : P 0 := fun i hi => absurd hi (Nat.not_lt_zero i)
  refine ⟨Nat.findGreatest P s.length, ⟨Nat.findGreatest_le _, ?_⟩, ?_⟩
  · exact Nat.findGreatest_spec (Nat.zero_le _) hzero
  · rintro m ⟨hm, hcover⟩
    exact Nat.le_findGreatest hm hcover

lemma Reaches.mono (hn : Reaches s fs n) (hm : Reaches s fs' m) (h : ∀ f ∈ fs, f ∈ fs') :
    n ≤ m := by
  refine hm.2 ⟨hn.1.1, fun i hi => ?_⟩
  obtain ⟨f, hf, hfi⟩ := hn.1.2 i hi
  exact ⟨f, h f hf, hfi⟩

lemma reaches_congr (h : ∀ f, f ∈ fs ↔ f ∈ fs') : Reaches s fs n ↔ Reaches s fs' n := by
  simp only [Reaches, Covered, h]

end Fragment

end Lib
