import Mathlib.Data.List.Sort

/-!
# Go slices

What stands at a place of a slice, after an `append` and behind the first element.

`sort.Slice` is not stable: it leaves a permutation of the slice in which nothing comes before a
smaller element. Which of these permutations is open, so results are stated for every `SliceSort`.
-/

namespace Lib

section Places

open List

variable {α : Type*} {l : List α} {x y : α} {i j : Nat}

/-- What stands at a place after one more element has been appended. -/
lemma getElem?_concat_iff : (l ++ [x])[i]? = some y ↔ l[i]? = some y ∨ (i = l.length ∧ y = x) := by
  rw [getElem?_append]
  split_ifs with h
  · simp [h.ne]
  · rw [getElem?_eq_none (Nat.not_lt.mp h)]
    rcases Nat.lt_or_eq_of_le (Nat.not_lt.mp h) with hlt | rfl
    · have hne : i ≠ l.length := hlt.ne'
      have hpos : i - l.length ≠ 0 := Nat.sub_ne_zero_of_lt hlt
      simp [hne, hpos]
    · simp [eq_comm]

/-- What comes after the head of a list is what stands at a later place. -/
lemma mem_tail_iff : x ∈ l.tail ↔ ∃ i, i ≠ 0 ∧ l[i]? = some x := by
  rw [mem_iff_getElem?]
  constructor
  · rintro ⟨i, hi⟩
    rw [getElem?_tail] at hi
    exact ⟨i + 1, Nat.succ_ne_zero i, hi⟩
  · rintro ⟨i, h0, hi⟩
    obtain ⟨j, rfl⟩ := Nat.exists_eq_succ_of_ne_zero h0
    exact ⟨j, by rw [getElem?_tail]; exact hi⟩

/-- What reading out of range gives can be appended without a difference. -/
lemma getD_concat_self (l : List α) (d : α) (i : Nat) : (l ++ [d]).getD i d = l.getD i d := by
  rw [getD_eq_getElem?_getD, getD_eq_getElem?_getD, getElem?_append]
  split_ifs with h
  · rfl
  · rw [getElem?_eq_none (Nat.not_lt.mp h)]
    cases i - l.length <;> rfl

lemma getD_modify (hi : i < l.length) (f : α → α) (d : α) :
    (l.modify i f).getD j d = if j = i then f (l.getD j d) else l.getD j d := by
  rw [getD_eq_getElem?_getD, getD_eq_getElem?_getD, getElem?_modify]
  by_cases h : j = i
  · simp [h, hi]
  · simp [h, Ne.symm h]

end Places

/-- What `sort.Slice` does to a slice, given the order of its elements. -/
structure SliceSort where
  sort : {α : Type} → (α → α → Bool) → List α → List α
  perm : ∀ {α : Type} (less : α → α → Bool) (l : List α), (sort less l).Perm l
  sorted : ∀ {α : Type} (less : α → α → Bool) (l : List α),
    (∀ a b c, less b a = false → less c b = false → less c a = false) →
    (∀ a b, less b a = false ∨ less a b = false) →
    (sort less l).Pairwise fun a b => less b a = false

def SliceSort.insertion : SliceSort where
  sort less l := l.insertionSort fun a b => less b a = false
  perm _ l := List.perm_insertionSort _ l
  sorted less l htrans htotal :=
    have : IsTrans _ fun a b => less b a = false := ⟨fun a b c => htrans a b c⟩
    have : Std.Total fun a b => less b a = false := ⟨htotal⟩
    List.pairwise_insertionSort _ l

end Lib
