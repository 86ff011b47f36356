import BypassCore.Geodata.IPMatcher.GeoIP

/-!
# Reloading matchers

`common/geodata/ip_registry.go`. A `DynamicIPMatcher` remembers how it was turned around, and does
the same to the matcher that replaces its own one.
-/

namespace BypassCore

open Lib List

variable {N : Netipx}

namespace IPMatcher

def mapMatchers (f : HeuristicIPMatcher N → HeuristicIPMatcher N) : IPMatcher N → IPMatcher N
  | .single m => .single (f m)
  | .multi mm => .multi ⟨mm.matchers.map f⟩

def toggleReverse : IPMatcher N → IPMatcher N :=
  mapMatchers fun m => { m with reverse := !m.reverse }

def setReverse (reverse : Bool) : IPMatcher N → IPMatcher N :=
  mapMatchers fun m => { m with reverse := reverse }

lemma mapMatchers_mapMatchers (f g : HeuristicIPMatcher N → HeuristicIPMatcher N)
    (m : IPMatcher N) : mapMatchers f (mapMatchers g m) = mapMatchers (f ∘ g) m := by
  cases m <;> simp [mapMatchers]

@[simp] lemma toggleReverse_toggleReverse (m : IPMatcher N) :
    m.toggleReverse.toggleReverse = m := by
  cases m <;> simp [toggleReverse, mapMatchers, Function.comp_def]

@[simp] lemma toggleReverse_setReverse (b : Bool) (m : IPMatcher N) :
    (m.setReverse b).toggleReverse = m.setReverse !b :=
  mapMatchers_mapMatchers ..

@[simp] lemma setReverse_toggleReverse (b : Bool) (m : IPMatcher N) :
    m.toggleReverse.setReverse b = m.setReverse b :=
  mapMatchers_mapMatchers ..

@[simp] lemma setReverse_setReverse (b c : Bool) (m : IPMatcher N) :
    (m.setReverse c).setReverse b = m.setReverse b :=
  mapMatchers_mapMatchers ..

end IPMatcher

structure DynamicIPMatcher (N : Netipx) where
  rules : List IPRule
  matcher : IPMatcher N
  reverse : Bool
  reverseSet : Bool

namespace DynamicIPMatcher

def reload (d : DynamicIPMatcher N) (newMatcher : IPMatcher N) : DynamicIPMatcher N :=
  { d with
    matcher :=
      if d.reverseSet then newMatcher.setReverse d.reverse
      else if d.reverse then newMatcher.toggleReverse
      else newMatcher }

def new (rules : List IPRule) (matcher : IPMatcher N) : DynamicIPMatcher N :=
  reload ⟨rules, matcher, false, false⟩ matcher

inductive Turn where
  | toggleReverse
  | setReverse (reverse : Bool)

def turn (d : DynamicIPMatcher N) : Turn → DynamicIPMatcher N
  | .toggleReverse => { d with reverse := !d.reverse, matcher := d.matcher.toggleReverse }
  | .setReverse b => { d with reverse := b, reverseSet := true, matcher := d.matcher.setReverse b }

/-- An operation: a turn, or a reload with a new matcher. -/
def apply (d : DynamicIPMatcher N) : Turn ⊕ IPMatcher N → DynamicIPMatcher N
  | .inl t => d.turn t
  | .inr m => d.reload m

/-- Turning and reloading can be exchanged. -/
lemma reload_turn (d : DynamicIPMatcher N) (t : Turn) (m : IPMatcher N) :
    (d.turn t).reload m = (d.reload m).turn t := by
  obtain ⟨rules, matcher, reverse, reverseSet⟩ := d
  cases t <;> cases reverseSet <;> cases reverse <;> simp [turn, reload]

lemma reload_foldl_turn (ts : List Turn) (rules : List IPRule) (m m' : IPMatcher N) :
    (ts.foldl turn (new rules m)).reload m' = ts.foldl turn (new rules m') := by
  induction ts using List.reverseRecOn with
  | nil => rfl
  | append_singleton ts t ih => simp [reload_turn, ih]

end DynamicIPMatcher

structure IPRegistry (N : Netipx) where
  factory : IPSetFactory N
  matchers : List (DynamicIPMatcher N)

namespace IPRegistry

variable (load : LoadIP) (collected : ℕ → Bool → Bool)

/-- The first loop of `Reload`: the matchers from the `i`-th one on are built anew. -/
def rebuild : ℕ → IPSetFactory N → List (DynamicIPMatcher N) →
    Except String (List (IPMatcher N) × IPSetFactory N)
  | _, f, [] => .ok ([], f)
  | i, f, d :: ds =>
    match buildOptimizedIPMatcher load (collected i) f d.rules with
    | (.error e, _) => .error e
    | (.ok m, f) => (rebuild (i + 1) f ds).map fun (ms, f) => (m :: ms, f)

def reload (r : IPRegistry N) : Option String × IPRegistry N :=
  match rebuild load collected 0 newIPSetFactory r.matchers with
  | .error e => (some e, r)
  | .ok (ms, f) => (none, ⟨f, r.matchers.zipWith DynamicIPMatcher.reload ms⟩)

end IPRegistry

/-- After any operations a matcher is what one built from the data of the last reload is after the
turns alone; and a reload of the registry that fails leaves every matcher as it is. -/
theorem reload_keeps_orientation :
    (∀ (rules : List IPRule) (m : IPMatcher N) (ops : List (DynamicIPMatcher.Turn ⊕ IPMatcher N)),
      ops.foldl DynamicIPMatcher.apply (.new rules m) =
        (ops.filterMap Sum.getLeft?).foldl DynamicIPMatcher.turn
          (.new rules ((ops.filterMap Sum.getRight?).getLastD m))) ∧
    ∀ (load : LoadIP) (collected : ℕ → Bool → Bool) (r : IPRegistry N),
      (r.reload load collected).1 = none ∨ (r.reload load collected).2.matchers = r.matchers := by
  refine ⟨?_, ?_⟩
  · intro rules m ops
    induction ops using List.reverseRecOn with
    | nil => rfl
    | append_singleton ops op ih =>
      cases op with
      | inl t => simp [ih, DynamicIPMatcher.apply]
      | inr m' =>
        simp [ih, filterMap_cons, DynamicIPMatcher.apply, DynamicIPMatcher.reload_foldl_turn]
  · intro load collected r
    rw [IPRegistry.reload]
    split
    · exact .inr rfl
    · exact .inl rfl

end BypassCore
