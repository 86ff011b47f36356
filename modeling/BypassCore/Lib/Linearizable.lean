import Mathlib.Data.List.Perm.Basic
import Mathlib.Order.Basic

/-!
# Linearizable histories

A completed call has an operation and the times of its invocation and its return. A set of calls
is linearizable when the operations, applied one after another in an order that respects real
time, lead from the initial to the final value. It is enough to find, for each call, a commit
point between its invocation and its return such that the order of these points does so.
-/

namespace Lib

open List

variable {σ ω α β : Type*}

/-- Apply operations one after another, failing at the first one that fails. -/
def applyAll (apply : σ → ω → Option σ) : σ → List ω → Option σ
  | s, [] => some s
  | s, o :: os => (apply s o).bind fun s' => applyAll apply s' os

variable {apply : σ → ω → Option σ}

lemma applyAll_append {s : σ} {os ps : List ω} :
    applyAll apply s (os ++ ps) = (applyAll apply s os).bind fun s' => applyAll apply s' ps := by
  induction os generalizing s with
  | nil => rfl
  | cons o os ih => cases h : apply s o <;> simp [applyAll, h, ih]

/-- What each of the operations preserves, their sequence preserves. -/
lemma applyAll_invariant {I : σ → Prop} {os : List ω}
    (hstep : ∀ o ∈ os, ∀ s t, I s → apply s o = some t → I t) {s t : σ} (hs : I s)
    (h : applyAll apply s os = some t) : I t := by
  induction os generalizing s with
  | nil =>
    cases h
    exact hs
  | cons o os ih =>
    obtain ⟨s', ho, hos⟩ := Option.bind_eq_some_iff.mp h
    apply ih _ (hstep o mem_cons_self s s' hs ho) hos
    intro o' ho'
    exact hstep o' (mem_cons_of_mem _ ho')

structure Completed (ω : Type*) where
  op : ω
  invoked : Nat
  returned : Nat

/-- The calls have an order that respects real time and leads from `init` to `final`. -/
def Linearizable (apply : σ → ω → Option σ) (init final : σ) (calls : List (Completed ω)) : Prop :=
  ∃ order : List (Completed ω), order.Perm calls ∧
    order.Pairwise (fun a b => ¬ b.returned < a.invoked) ∧
    applyAll apply init (order.map Completed.op) = some final

/-- A permutation of an image is the image of a permutation. -/
lemma exists_perm_map_eq {f : α → β} {l : List α} {m : List β} (h : (l.map f).Perm m) :
    ∃ l' : List α, l'.Perm l ∧ l'.map f = m := by
  have hl : Forall₂ (fun b a => b = f a) (l.map f) l := by
    rw [forall₂_map_left_iff]
    exact forall₂_same.mpr fun a _ => rfl
  obtain ⟨l', hmap, hperm⟩ := perm_comp_forall₂ h.symm hl
  refine ⟨l', hperm, ?_⟩
  rw [← forall₂_eq_eq_eq, forall₂_map_left_iff]
  exact hmap.flip.imp fun _ _ => Eq.symm

/-- A commit point: the operation, the invocation of its call and the time it took effect. -/
structure Commit (ω : Type*) where
  op : ω
  invoked : Nat
  time : Nat

/-- Calls are linearizable when they commit between their invocation and their return and the
commits in their order lead from `init` to `final`. -/
theorem linearizable_of_commits {init final : σ} {calls : List (Completed ω × Nat)}
    {commits : List (Commit ω)}
    (hperm : (calls.map fun c => (⟨c.1.op, c.1.invoked, c.2⟩ : Commit ω)).Perm commits)
    (hbetween : ∀ c ∈ calls, c.1.invoked ≤ c.2 ∧ c.2 ≤ c.1.returned)
    (hsorted : commits.Pairwise fun a b => a.time < b.time)
    (happly : applyAll apply init (commits.map Commit.op) = some final) :
    Linearizable apply init final (calls.map Prod.fst) := by
  obtain ⟨order, horder, hmap⟩ := exists_perm_map_eq hperm
  refine ⟨order.map Prod.fst, horder.map _, ?_, ?_⟩
  · rw [← hmap, pairwise_map] at hsorted
    rw [pairwise_map]
    refine hsorted.imp_of_mem ?_
    intro a b ha hb hlt
    have hwa := hbetween a (horder.mem_iff.mp ha)
    have hwb := hbetween b (horder.mem_iff.mp hb)
    simp only at hlt
    omega
  · rw [← happly, ← hmap, map_map, map_map]
    rfl

end Lib
