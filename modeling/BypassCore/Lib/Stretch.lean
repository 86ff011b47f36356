import Mathlib.Algebra.Order.Group.Nat

/-!
# Stretches of equal values

A sequence is cut where two neighbours differ. The stretch of a position is the number of cuts
before it, so that two positions are in one stretch exactly when the sequence is constant from the
one to the other.
-/

namespace Lib.Stretch

variable {α : Type*} [DecidableEq α]

/-- The number of positions up to `k` where the value changes. -/
def rank (f : ℕ → α) : ℕ → ℕ
  | 0 => 0
  | k + 1 => if f k = f (k + 1) then rank f k else rank f k + 1

variable {f : ℕ → α} {i j k : ℕ}

lemma rank_succ_of_eq (h : f k = f (k + 1)) : rank f (k + 1) = rank f k := if_pos h

lemma rank_succ_of_ne (h : f k ≠ f (k + 1)) : rank f (k + 1) = rank f k + 1 := if_neg h

end Lib.Stretch
