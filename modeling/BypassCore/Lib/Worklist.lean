import Mathlib.Data.List.Pairwise
import Mathlib.Order.Nat

/-!
# Worklists

A loop that takes the front of a queue, visits it and puts what it has found at the end of the
queue, until the queue is empty. An invariant speaks of the state, of what has been visited and of
what is queued. When nothing can be visited more than a bounded number of times in all, the loop
ends.

In a breadth-first search the queue is ordered by depth, so everything found that is less deep than
the front of the queue has been visited.
-/

namespace Lib

open List

variable {σ α : Type*}

def worklist (visit : σ → α → σ × List α) : Nat → σ → List α → Option σ
  | _, s, [] => some s
  | 0, _, _ :: _ => none
  | fuel + 1, s, a :: queue => worklist visit fuel (visit s a).1 (queue ++ (visit s a).2)

section Rule

variable {visit : σ → α → σ × List α} {I : σ → List α → List α → Prop} {s : σ} {queue : List α}
  (hvisit : ∀ s done a queue, I s done (a :: queue) →
    I (visit s a).1 (done ++ [a]) (queue ++ (visit s a).2))
include hvisit

/-- What a loop returns satisfies the invariant with an empty queue. -/
lemma worklist_inv {fuel : Nat} {done : List α} (hI : I s done queue) {t : σ}
    (h : worklist visit fuel s queue = some t) : ∃ done', I t done' [] := by
  induction fuel generalizing s done queue with
  | zero =>
    cases queue with
    | nil =>
      cases h
      exact ⟨done, hI⟩
    | cons a queue => cases h
  | succ fuel ih =>
    cases queue with
    | nil =>
      cases h
      exact ⟨done, hI⟩
    | cons a queue => exact ih (hvisit s done a queue hI) h

/-- A loop that can visit at most `n` elements ends. -/
lemma worklist_isSome {n : Nat} (hbound : ∀ s done queue, I s done queue → done.length ≤ n)
    {fuel : Nat} {done : List α} (hI : I s done queue) (hfuel : n ≤ fuel + done.length) :
    ∃ t, worklist visit fuel s queue = some t := by
  induction fuel generalizing s done queue with
  | zero =>
    cases queue with
    | nil => exact ⟨s, rfl⟩
    | cons a queue =>
      -- one visit more would exceed the bound
      have hle := hbound _ _ _ (hvisit s done a queue hI)
      rw [length_append, length_singleton] at hle
      omega
  | succ fuel ih =>
    cases queue with
    | nil => exact ⟨s, rfl⟩
    | cons a queue =>
      refine ih (hvisit s done a queue hI) ?_
      rw [length_append, length_singleton]
      omega

end Rule

/-- What has been visited and what is queued come in the order of their depth, and the queue spans
no more than two levels. -/
structure BreadthFirst (depth : α → Nat) (done queue : List α) : Prop where
  sorted : (done ++ queue).Pairwise fun a b => depth a ≤ depth b
  near : ∀ a ∈ queue.head?, ∀ b ∈ queue, depth b ≤ depth a + 1

namespace BreadthFirst

variable {depth : α → Nat} {done queue found : List α} {a : α}

/-- A visit finds elements of the next level. -/
lemma visit (h : BreadthFirst depth done (a :: queue))
    (hfound : ∀ b ∈ found, depth b = depth a + 1) :
    BreadthFirst depth (done ++ [a]) (queue ++ found) := by
  obtain ⟨-, hqueue, hcross⟩ := pairwise_append.mp h.sorted
  have hle : ∀ b ∈ queue ++ found, depth b ≤ depth a + 1 := by
    intro b hb
    rcases mem_append.mp hb with hb | hb
    · exact h.near a rfl b (mem_cons_of_mem _ hb)
    · exact (hfound b hb).le
  have hge : ∀ b ∈ queue ++ found, depth a ≤ depth b := by
    intro b hb
    rcases mem_append.mp hb with hb | hb
    · exact (pairwise_cons.mp hqueue).1 b hb
    · exact (Nat.le_succ _).trans (hfound b hb).ge
  constructor
  · have hlists : done ++ [a] ++ (queue ++ found) = (done ++ a :: queue) ++ found := by simp
    rw [hlists, pairwise_append]
    refine ⟨h.sorted, pairwise_of_forall_mem_list ?_, ?_⟩
    · intro b hb c hc
      rw [hfound b hb, hfound c hc]
    · intro b hb c hc
      rw [hfound c hc]
      rcases mem_append.mp hb with hb | hb
      · exact (hcross b hb a mem_cons_self).trans (Nat.le_succ _)
      · exact h.near a rfl b hb
  · intro b hb c hc
    exact (hle c hc).trans (Nat.succ_le_succ (hge b (mem_of_mem_head? hb)))

/-- What has been found at a smaller depth than the front has been visited. -/
lemma mem_done (h : BreadthFirst depth done (a :: queue)) {b : α}
    (hb : b ∈ done ++ a :: queue) (hlt : depth b < depth a) : b ∈ done := by
  rcases mem_append.mp hb with hb | hb
  · exact hb
  · have hsorted := (pairwise_append.mp h.sorted).2.1
    rcases mem_cons.mp hb with rfl | hb
    · exact absurd hlt (Nat.lt_irrefl _)
    · exact absurd hlt (Nat.not_lt.mpr ((pairwise_cons.mp hsorted).1 b hb))

end BreadthFirst
end Lib
