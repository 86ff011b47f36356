import Mathlib.Data.List.Basic
import Mathlib.Data.List.Pairwise

/-!
# Buckets

The elements of a list, put into buckets by their keys. When the buckets are emptied one after the
other, every element with one of the keys comes out once, and those of one bucket come out in the
order in which they went in.
-/

namespace Lib

open List

variable {α κ : Type*} [DecidableEq κ] {f : α → κ} {keys : List κ} {l : List α}

def gather (f : α → κ) (keys : List κ) (l : List α) : List α :=
  keys.flatMap fun k => l.filter fun a => f a = k

lemma gather_cons (k : κ) (keys : List κ) (l : List α) :
    gather f (k :: keys) l = (l.filter fun a => f a = k) ++ gather f keys l :=
  flatMap_cons

lemma mem_gather {a : α} : a ∈ gather f keys l ↔ a ∈ l ∧ f a ∈ keys := by
  simp only [gather, mem_flatMap, mem_filter, decide_eq_true_eq]
  constructor
  · rintro ⟨k, hk, ha, rfl⟩
    exact ⟨ha, hk⟩
  · rintro ⟨ha, hk⟩
    exact ⟨f a, hk, ha, rfl⟩

variable {P : α → Bool}

/-- Every element with one of the keys comes out once. -/
theorem perm_gather (hkeys : keys.Nodup) (hP : ∀ a ∈ l, P a = true ↔ f a ∈ keys) :
    (gather f keys l).Perm (l.filter P) := by
  induction keys generalizing P with
  | nil =>
    rw [filter_eq_nil_iff.mpr fun a ha h => not_mem_nil ((hP a ha).mp h)]
    exact Perm.nil
  | cons k keys ih =>
    obtain ⟨hk, hkeys⟩ := nodup_cons.mp hkeys
    have hfirst : ((l.filter P).filter fun a => f a = k) = l.filter fun a => f a = k := by
      rw [filter_filter]
      refine filter_congr fun a ha => ?_
      by_cases hfa : f a = k
      · simp [hfa, hP a ha]
      · simp [hfa]
    have hrest : (gather f keys l).Perm ((l.filter P).filter fun a => !decide (f a = k)) := by
      rw [filter_filter]
      refine ih hkeys fun a ha => ?_
      rw [Bool.and_eq_true, Bool.not_eq_true', decide_eq_false_iff_not, hP a ha, mem_cons]
      constructor
      · rintro ⟨hne, h⟩
        exact h.resolve_left hne
      · intro h
        exact ⟨fun heq => hk (heq ▸ h), .inr h⟩
    rw [gather_cons, ← hfirst]
    exact (hrest.append_left _).trans (filter_append_perm _ _)

/-- Elements of one bucket keep their order. -/
theorem filter_gather (hkeys : keys.Nodup) (hP : ∀ a ∈ l, P a = true ↔ f a ∈ keys)
    {Q : α → Bool} {k : κ} (hQ : ∀ a, Q a = true → f a = k) :
    (gather f keys l).filter Q = (l.filter P).filter Q := by
  have hnone : ∀ {k' : κ}, k ≠ k' → ((l.filter fun a => f a = k').filter Q) = [] := by
    intro k' hk'
    rw [filter_filter, filter_eq_nil_iff]
    intro a _ ha
    rw [Bool.and_eq_true, decide_eq_true_eq] at ha
    exact hk' ((hQ a ha.1).symm.trans ha.2)
  have hgather : (gather f keys l).filter Q = if k ∈ keys then l.filter Q else [] := by
    clear hP
    induction keys with
    | nil => simp [gather]
    | cons k' keys ih =>
      obtain ⟨hk', hkeys⟩ := nodup_cons.mp hkeys
      rw [gather_cons, filter_append, ih hkeys]
      by_cases hk : k = k'
      · -- the first bucket has all of them
        subst hk
        rw [if_neg hk', if_pos mem_cons_self, append_nil, filter_filter]
        refine filter_congr fun a _ => ?_
        cases hqa : Q a with
        | false => rfl
        | true => simp [hQ a hqa]
      · rw [hnone hk]
        simp [hk]
  rw [hgather, filter_filter]
  split_ifs with hk
  · refine filter_congr fun a ha => ?_
    cases hqa : Q a with
    | false => rfl
    | true => exact ((hP a ha).mpr (hQ a hqa ▸ hk)).symm
  · rw [eq_comm, filter_eq_nil_iff]
    intro a ha h
    rw [Bool.and_eq_true] at h
    exact hk (hQ a h.1 ▸ (hP a ha).mp h.2)

/-- What relates the elements of one bucket, and those of one bucket to those of a later one,
relates each element to the later ones. -/
theorem pairwise_gather {R : α → α → Prop} (hsame : ∀ a ∈ l, ∀ b ∈ l, f a = f b → R a b)
    (hkeys : keys.Pairwise fun k k' => ∀ a ∈ l, ∀ b ∈ l, f a = k → f b = k' → R a b) :
    (gather f keys l).Pairwise R := by
  induction keys with
  | nil => exact List.Pairwise.nil
  | cons k keys ih =>
    obtain ⟨hlater, hkeys⟩ := pairwise_cons.mp hkeys
    rw [gather_cons, pairwise_append]
    refine ⟨?_, ih hkeys, ?_⟩
    · refine pairwise_of_forall_mem_list fun a ha b hb => ?_
      rw [mem_filter, decide_eq_true_eq] at ha hb
      exact hsame a ha.1 b hb.1 (ha.2.trans hb.2.symm)
    · intro a ha b hb
      rw [mem_filter, decide_eq_true_eq] at ha
      obtain ⟨hb, hkey⟩ := mem_gather.mp hb
      exact hlater _ hkey a ha.1 b hb ha.2 rfl

end Lib
