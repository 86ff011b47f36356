import Mathlib.Data.List.Nodup

/-!
# Resources in custody

Resources are numbered in the order in which they are made. Each one is in a list of idle ones, or
held by one party, or gone. A party holds at most one resource. Where a resource is, is a function
of its number, so that no resource is in two places and no two parties hold the same one.
-/

namespace Lib

open Function

inductive Place (ι : Type*) where
  | unmade
  | idle
  | held (i : ι)
  | gone

section Holders

variable {ι α : Type*} [DecidableEq ι] {f : ι → Option α} {i : ι} {a b : α}

/-- Who has something after a party has got it. -/
lemma exists_update_some (hi : f i = none) :
    (∃ j, update f i (some a) j = some b) ↔ b = a ∨ ∃ j, f j = some b := by
  constructor
  · rintro ⟨j, hj⟩
    rw [update_apply] at hj
    split_ifs at hj with hji
    · cases hj
      exact .inl rfl
    · exact .inr ⟨j, hj⟩
  · rintro (rfl | ⟨j, hj⟩)
    · exact ⟨i, update_self ..⟩
    · have hji : j ≠ i := by
        rintro rfl
        rw [hi] at hj
        cases hj
      exact ⟨j, by rw [update_of_ne hji, hj]⟩

/-- Who has something after the only party that may have it has given it away. -/
lemma exists_update_none (ha : ∀ j, f j = some a → j = i) (hi : ∀ b, f i = some b → b = a) :
    (∃ j, update f i none j = some b) ↔ b ≠ a ∧ ∃ j, f j = some b := by
  constructor
  · rintro ⟨j, hj⟩
    rw [update_apply] at hj
    split_ifs at hj with hji
    refine ⟨?_, j, hj⟩
    rintro rfl
    exact hji (ha j hj)
  · rintro ⟨hba, j, hj⟩
    have hji : j ≠ i := by
      rintro rfl
      exact hba (hi b hj)
    exact ⟨j, by rw [update_of_ne hji, hj]⟩

end Holders

/-- The list of idle resources, what each party holds and the number of resources made are as the
places say. -/
structure Custody {ι : Type*} (idle : List ℕ) (holds : ι → Option ℕ) (made : ℕ)
    (place : ℕ → Place ι) : Prop where
  nodup : idle.Nodup
  mem_idle : ∀ r, r ∈ idle ↔ place r = .idle
  holds_iff : ∀ i r, holds i = some r ↔ place r = .held i
  unmade_iff : ∀ r, place r = .unmade ↔ made ≤ r

/-- An update from one value to another does not change where a third value is taken. -/
lemma update_eq_iff_of_ne {α β : Type*} [DecidableEq α] {f : α → β} {a : α} {b c : β}
    (ha : f a ≠ c) (hb : b ≠ c) (x : α) : update f a b x = c ↔ f x = c := by
  rw [update_apply]
  split_ifs with hx
  · subst hx
    exact iff_of_false hb ha
  · rfl

namespace Custody

section

variable {ι : Type*} {idle : List ℕ} {holds : ι → Option ℕ} {made r : ℕ} {i : ι}
  {place : ℕ → Place ι}

lemma eq_of_holds (h : Custody idle holds made place) {j : ι} (hi : holds i = some r)
    (hj : holds j = some r) : i = j := by
  rw [h.holds_iff] at hi hj
  rw [hi] at hj
  cases hj
  rfl

lemma drain (h : Custody idle holds made place) :
    Custody [] holds made fun r => if r ∈ idle then .gone else place r := by
  have hplace (p : Place ι) (hidle : p ≠ .idle) (hgone : p ≠ .gone) (r : ℕ) :
      (if r ∈ idle then .gone else place r) = p ↔ place r = p := by
    split_ifs with hr
    · rw [(h.mem_idle r).mp hr]
      exact iff_of_false hgone.symm hidle.symm
    · rfl
  refine ⟨List.nodup_nil, fun r => ?_, fun i r => ?_, fun r => ?_⟩
  · split_ifs with hr
    · simp
    · simpa using (h.mem_idle r).not.mp hr
  · rw [hplace (.held i) nofun nofun, h.holds_iff]
  · rw [hplace .unmade nofun nofun, h.unmade_iff]

end

variable {ι : Type*} [DecidableEq ι] {idle : List ℕ} {holds : ι → Option ℕ} {made r : ℕ} {i : ι}
  {place : ℕ → Place ι}

lemma holds_get (h : Custody idle holds made place) (hnone : holds i = none)
    (hr : ∀ j, place r ≠ .held j) (j : ι) (r' : ℕ) :
    update holds i (some r) j = some r' ↔ update place r (.held i) r' = .held j := by
  rw [update_apply, update_apply]
  split_ifs with hj hr' hr'
  · simp [hj, hr']
  · subst hj
    rw [← h.holds_iff, hnone]
    simp [Ne.symm hr']
  · rw [h.holds_iff, hr']
    refine iff_of_false (hr j) fun he => hj ?_
    cases he
    rfl
  · exact h.holds_iff j r'

lemma holds_put (h : Custody idle holds made place) (hi : holds i = some r) {p : Place ι}
    (hp : ∀ j, p ≠ .held j) (j : ι) (r' : ℕ) :
    update holds i none j = some r' ↔ update place r p r' = .held j := by
  rw [update_apply, update_apply]
  split_ifs with hj hr' hr'
  · exact iff_of_false nofun (hp j)
  · subst hj
    refine iff_of_false nofun fun he => hr' ?_
    rw [← h.holds_iff, hi] at he
    cases he
    rfl
  · rw [hr']
    exact iff_of_false (fun he => hj (h.eq_of_holds he hi)) (hp j)
  · exact h.holds_iff j r'

lemma take (h : Custody (r :: idle) holds made place) (hnone : holds i = none) :
    Custody idle (update holds i (some r)) made (update place r (.held i)) := by
  have hr : place r = .idle := (h.mem_idle r).mp List.mem_cons_self
  obtain ⟨hnot, hnodup⟩ := List.nodup_cons.mp h.nodup
  refine ⟨hnodup, fun r' => ?_, h.holds_get hnone (by simp [hr]), fun r' => ?_⟩
  · rw [update_apply]
    split_ifs with hr'
    · subst hr'
      exact iff_of_false hnot nofun
    · rw [← h.mem_idle, List.mem_cons, or_iff_right hr']
  · exact (update_eq_iff_of_ne (by simp [hr]) (by simp) r').trans (h.unmade_iff r')

section

variable (h : Custody idle holds made place)
include h

lemma make (hnone : holds i = none) :
    Custody idle (update holds i (some made)) (made + 1) (update place made (.held i)) := by
  have hmade : place made = .unmade := (h.unmade_iff made).mpr (Nat.le_refl made)
  refine ⟨h.nodup, fun r' => ?_, h.holds_get hnone (by simp [hmade]), fun r' => ?_⟩
  · exact (h.mem_idle r').trans (update_eq_iff_of_ne (by simp [hmade]) (by simp) r').symm
  · rw [update_apply]
    split_ifs with hr'
    · subst hr'
      simp
    · rw [h.unmade_iff]
      omega

lemma drop (hi : holds i = some r) :
    Custody idle (update holds i none) made (update place r .gone) := by
  have hr : place r = .held i := (h.holds_iff i r).mp hi
  refine ⟨h.nodup, fun r' => ?_, h.holds_put hi nofun, fun r' => ?_⟩
  · exact (h.mem_idle r').trans (update_eq_iff_of_ne (by simp [hr]) (by simp) r').symm
  · exact (update_eq_iff_of_ne (by simp [hr]) (by simp) r').trans (h.unmade_iff r')

lemma store (hi : holds i = some r) :
    Custody (idle ++ [r]) (update holds i none) made (update place r .idle) := by
  have hr : place r = .held i := (h.holds_iff i r).mp hi
  have hnot : r ∉ idle := by simp [h.mem_idle, hr]
  refine ⟨?_, fun r' => ?_, h.holds_put hi nofun, fun r' => ?_⟩
  · rw [List.nodup_append_comm]
    exact List.nodup_cons.mpr ⟨hnot, h.nodup⟩
  · rw [List.mem_append, h.mem_idle, update_apply]
    split_ifs with hr' <;> simp [hr']
  · exact (update_eq_iff_of_ne (by simp [hr]) (by simp) r').trans (h.unmade_iff r')

end

end Custody

end Lib
