import BypassCore.Lib.Slices
import Mathlib.Data.List.TakeWhile
import Mathlib.Data.Prod.Lex
import Mathlib.Data.String.Basic
import Mathlib.Order.Nat

/-!
# The least-load strategy

`app/router/strategy_leastload.go`: the nodes that pass are sorted by a strict total order, and the
baselines cut a prefix off. Slicing beyond the nodes is `none`, as it would panic.
-/

namespace BypassCore.Router.LeastLoad

open Lib List

structure HealthPing where
  average : ℤ
  deviation : ℤ
  all : ℤ
  fail : ℤ

structure Node where
  tag : String
  countAll : ℤ
  countFail : ℤ
  rttAverage : ℤ
  rttDeviationCost : ℤ

/-- `StrategyLeastLoadConfig`. What is computed in floating point is given: the weighted cost of a
deviation, and whether failures exceed the tolerance. -/
structure Settings where
  expected : ℤ
  baselines : List ℤ
  maxRTT : ℤ
  cost : String → ℤ → ℤ
  intolerable : HealthPing → Bool

variable (s : Settings) (candidates : List String) (v : OutboundStatus)

def less (left right : Node) : Bool :=
  if left.rttDeviationCost ≠ right.rttDeviationCost then
    left.rttDeviationCost < right.rttDeviationCost
  else if left.rttAverage ≠ right.rttAverage then left.rttAverage < right.rttAverage
  else if left.countFail ≠ right.countFail then left.countFail < right.countFail
  else if left.countAll ≠ right.countAll then left.countAll > right.countAll
  else left.tag < right.tag

variable (sorting : SliceSort) (status : List OutboundStatus)

/-- `nodes[:n]`. -/
def slice (nodes : List Node) (n : ℕ) : Option (List Node) :=
  if n ≤ nodes.length then some (nodes.take n) else none

/-- A node as the tuple by which it is sorted; more samples come first. -/
def key (n : Node) : ℤ ×ₗ ℤ ×ₗ ℤ ×ₗ ℤ ×ₗ String :=
  toLex (n.rttDeviationCost, toLex (n.rttAverage, toLex (n.countFail, toLex (-n.countAll, n.tag))))

structure Cut (nodes : List Node) (baselines : List ℤ) (count : ℕ) : Prop where
  le : count ≤ nodes.length
  below : ∀ n ∈ nodes.take count, ∃ b ∈ baselines, n.rttDeviationCost < b
  above : ∀ n ∈ nodes.drop count, ∀ b ∈ baselines, b ≤ n.rttDeviationCost

variable {nodes : List Node} {baselines : List ℤ} {count : ℕ}

variable (hsorted : nodes.Pairwise fun a b => a.rttDeviationCost ≤ b.rttDeviationCost)

include hsorted

/-- Costs do not decrease, so the inner loop finds every node below the baseline. -/
lemma Cut.concat (h : Cut nodes baselines count) (baseline : ℤ) :
    Cut nodes (baselines ++ [baseline]) (count +
      ((nodes.drop count).takeWhile fun n => n.rttDeviationCost < baseline).length) := by
  set p : Node → Bool := fun n => n.rttDeviationCost < baseline
  have hsplit := takeWhile_append_dropWhile (p := p) (l := nodes.drop count)
  have htake : nodes.take (count + ((nodes.drop count).takeWhile p).length) =
      nodes.take count ++ (nodes.drop count).takeWhile p := by
    rw [take_add, ← prefix_iff_eq_take.mp ( takeWhile_prefix p)]
  have hdrop : nodes.drop (count + ((nodes.drop count).takeWhile p).length) =
      (nodes.drop count).dropWhile p := by
    rw [← drop_drop]
    nth_rewrite 2 [← hsplit]
    exact drop_left
  refine ⟨?_, ?_, ?_⟩
  · have hle := ( takeWhile_prefix p (l := nodes.drop count)).length_le
    rw [length_drop] at hle
    have := h.le
    omega
  · rw [htake]
    intro n hn
    obtain hn | hn := mem_append.mp hn
    · obtain ⟨b, hb, hlt⟩ := h.below n hn
      exact ⟨b, mem_append_left _ hb, hlt⟩
    · exact ⟨baseline, by simp, by simpa [p] using mem_takeWhile_imp hn⟩
  · rw [hdrop]
    intro n hn b hb
    obtain hb | hb := mem_append.mp hb
    · exact h.above n ((dropWhile_suffix p).subset hn) b hb
    · -- The first node that is not below the baseline has the least cost of those left.
      rw [mem_singleton.mp hb]
      have hpair := hsorted.sublist ((dropWhile_suffix p).sublist.trans (drop_sublist count nodes))
      cases hd : (nodes.drop count).dropWhile p with
      | nil => simp [hd] at hn
      | cons m ms =>
        have hm : baseline ≤ m.rttDeviationCost := by
          have := head_dropWhile_not p (l := nodes.drop count) (by simp [hd])
          simpa [hd, p] using this
        rw [hd] at hn hpair
        obtain rfl | hn := mem_cons.mp hn
        · exact hm
        · exact hm.trans (rel_of_pairwise_cons hpair hn)

omit hsorted

end BypassCore.Router.LeastLoad
