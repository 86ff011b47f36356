import BypassCore.Lib.GoMap

/-!
# Following links

A map sends some keys to values, and each value links to a further key. Following the links from a
key ends at a key without a value, or comes back to a key it has seen. The first happens exactly
when no cycle can be reached.
-/

namespace Lib

open Relation List Option ReflTransGen

variable {K V : Type*} [DecidableEq K]

def Link (m : GoMap K V) (target : V → K) (a b : K) : Prop :=
  ∃ v, m.lookup a = some v ∧ target v = b

variable {visited : List K} {k : K}

lemma length_unvisited_lt {m : GoMap K V} {v : V} (hk : k ∉ visited) (hv : m.lookup k = some v) :
    (m.keys.filter (· ∉ k :: visited)).length < (m.keys.filter (· ∉ visited)).length := by
  have hsplit : m.keys.filter (· ∉ k :: visited) =
      (m.keys.filter (· ∉ visited)).filter (· ≠ k) := by
    rw [List.filter_filter]
    apply filter_congr
    intro x _
    simp
  rw [hsplit, length_filter_lt_length_iff_exists]
  refine ⟨k, mem_filter.mpr ⟨?_, by simpa using hk⟩, by simp⟩
  exact AList.mem_keys.mpr (AList.lookup_isSome.mp (by rw [hv]; rfl))

/-- Follow the links from a key: the values on the way and the last key, or nothing when a key
comes up twice. -/
def chase (m : GoMap K V) (target : V → K) (visited : List K) (k : K) : Option (List V × K) :=
  if _hk : k ∈ visited then none
  else
    match _hv : m.lookup k with
    | none => some ([], k)
    | some v =>
      (chase m target (k :: visited) (target v)).map fun r => (v :: r.1, r.2)
termination_by (m.keys.filter (· ∉ visited)).length
decreasing_by exact length_unvisited_lt _hk _hv

variable {m : GoMap K V} {target : V → K}

lemma link_unique {a b c : K} (hb : Link m target a b) (hc : Link m target a c) : b = c := by
  obtain ⟨v, hv, rfl⟩ := hb
  obtain ⟨w, hw, rfl⟩ := hc
  rw [hv] at hw
  cases hw
  rfl

/-- A successful chase ends at a key without a value. -/
lemma chase_eq_some {e : K} {vs : List V} (h : chase m target visited k = some (vs, e)) :
    ReflTransGen (Link m target) k e ∧ m.lookup e = none := by
  fun_induction chase m target visited k generalizing vs e with
  | case1 visited k hk => cases h
  | case2 visited k hk hv =>
    cases h
    exact ⟨.refl, hv⟩
  | case3 visited k hk v hv ih =>
    obtain ⟨r, hr, heq⟩ := map_eq_some_iff.mp h
    cases heq
    obtain ⟨hpath, hend⟩ := ih hr
    exact ⟨.head ⟨v, hv, rfl⟩ hpath, hend⟩

/-- The values on the way are those of the keys that are reached. -/
lemma mem_of_chase {e : K} {vs : List V} (h : chase m target visited k = some (vs, e)) {v : V} :
    v ∈ vs ↔ ∃ a, ReflTransGen (Link m target) k a ∧ m.lookup a = some v := by
  fun_induction chase m target visited k generalizing vs e with
  | case1 visited k hk => cases h
  | case2 visited k hk hnone =>
    cases h
    refine iff_of_false not_mem_nil ?_
    rintro ⟨a, hka, ha⟩
    rcases cases_head hka with rfl | ⟨b, ⟨w, hw, -⟩, -⟩
    · exact absurd (hnone.symm.trans ha) (some_ne_none _).symm
    · exact absurd (hnone.symm.trans hw) (some_ne_none _).symm
  | case3 visited k hk w hw ih =>
    obtain ⟨r, hr, heq⟩ := map_eq_some_iff.mp h
    cases heq
    rw [mem_cons, ih hr]
    constructor
    · rintro (rfl | ⟨a, hpath, ha⟩)
      · exact ⟨k, .refl, hw⟩
      · exact ⟨a, .head ⟨w, hw, rfl⟩ hpath, ha⟩
    · rintro ⟨a, hka, ha⟩
      rcases cases_head hka with rfl | ⟨b, hlink, hpath⟩
      · exact .inl (Option.some.inj (ha.symm.trans hw))
      · obtain rfl := link_unique hlink ⟨w, hw, rfl⟩
        exact .inr ⟨a, hpath, ha⟩

lemma chase_of_none (hk : k ∉ visited) (hv : m.lookup k = none) :
    chase m target visited k = some ([], k) := by
  rw [chase, dif_neg hk]
  split
  · rfl
  · rename_i v hv'
    rw [hv] at hv'
    cases hv'

lemma chase_of_some {v : V} (hk : k ∉ visited) (hv : m.lookup k = some v) :
    chase m target visited k =
      (chase m target (k :: visited) (target v)).map fun r => (v :: r.1, r.2) := by
  rw [chase, dif_neg hk]
  split
  · rename_i hv'
    rw [hv] at hv'
    cases hv'
  · rename_i v' hv'
    rw [hv] at hv'
    cases hv'
    rfl

/-- A map whose values are those of another, seen through a function, is followed alike. -/
lemma chase_map {W : Type*} {m' : GoMap K W} {target' : W → K} {f : V → W}
    (hm : ∀ k, m'.lookup k = (m.lookup k).map f) (hf : ∀ v, target' (f v) = target v)
    (visited : List K) (k : K) :
    chase m' target' visited k = (chase m target visited k).map fun r => (r.1.map f, r.2) := by
  fun_induction chase m target visited k with
  | case1 visited k hk => rw [chase, dif_pos hk, map_none]
  | case2 visited k hk hv =>
    have hv' : m'.lookup k = none := by rw [hm, hv, map_none]
    exact chase_of_none hk hv'
  | case3 visited k hk v hv ih =>
    have hv' : m'.lookup k = some (f v) := by rw [hm, hv, map_some]
    rw [chase_of_some hk hv', hf, ih, Option.map_map, Option.map_map]
    rfl

/-- A chase that fails has reached a cycle, if the keys it has visited lead to where it starts. -/
lemma chase_eq_none (hvisited : ∀ n ∈ visited, TransGen (Link m target) n k)
    (h : chase m target visited k = none) :
    ∃ n, ReflTransGen (Link m target) k n ∧ TransGen (Link m target) n n := by
  fun_induction chase m target visited k with
  | case1 visited k hk => exact ⟨k, .refl, hvisited k hk⟩
  | case2 visited k hk hv => cases h
  | case3 visited k hk v hv ih =>
    have hlink : Link m target k (target v) := ⟨v, hv, rfl⟩
    have hstep : ∀ n ∈ k :: visited, TransGen (Link m target) n (target v) := by
      exact forall_mem_cons.mpr ⟨.single hlink, fun n hn => (hvisited n hn).tail hlink⟩
    obtain ⟨n, hpath, hcycle⟩ := ih hstep (map_eq_none_iff.mp h)
    exact ⟨n, .head hlink hpath, hcycle⟩

/-- The links from a cycle stay on a cycle. -/
lemma transGen_of_link {a b : K} (ha : TransGen (Link m target) a a) (hab : Link m target a b) :
    TransGen (Link m target) b b := by
  obtain ⟨c, hac, hca⟩ := TransGen.head'_iff.mp ha
  obtain rfl := link_unique hab hac
  exact TransGen.tail' hca hab

lemma transGen_of_reflTransGen {a b : K} (ha : TransGen (Link m target) a a)
    (hab : ReflTransGen (Link m target) a b) : TransGen (Link m target) b b := by
  induction hab with
  | refl => exact ha
  | tail _ hlink ih => exact transGen_of_link ih hlink

/-- Of two keys that are reached from one key, one is reached from the other. -/
lemma reflTransGen_total {a b c : K} (hb : ReflTransGen (Link m target) a b)
    (hc : ReflTransGen (Link m target) a c) :
    ReflTransGen (Link m target) b c ∨ ReflTransGen (Link m target) c b :=
  total_of_right_unique (fun _ _ _ => link_unique) hb hc

lemma end_unique {a b c : K} (hb : ReflTransGen (Link m target) a b)
    (hc : ReflTransGen (Link m target) a c) (hbe : m.lookup b = none) (hce : m.lookup c = none) :
    b = c := by
  have hstay : ∀ {x y : K}, m.lookup x = none → ReflTransGen (Link m target) x y → x = y := by
    intro x y hx hxy
    rcases cases_head hxy with h | ⟨z, ⟨v, hv, -⟩, -⟩
    · exact h
    · rw [hx] at hv
      cases hv
  rcases reflTransGen_total hb hc with h | h
  · exact hstay hbe h
  · exact (hstay hce h).symm

lemma not_cycle_of_end {a e n : K} (he : ReflTransGen (Link m target) a e)
    (hend : m.lookup e = none) (hn : ReflTransGen (Link m target) a n) :
    ¬ TransGen (Link m target) n n := by
  intro hcycle
  have hee : TransGen (Link m target) e e := by
    rcases reflTransGen_total hn he with h | h
    · exact transGen_of_reflTransGen hcycle h
    · rcases cases_head h with rfl | ⟨z, ⟨v, hv, -⟩, -⟩
      · exact hcycle
      · rw [hend] at hv
        cases hv
  obtain ⟨z, ⟨v, hv, -⟩, -⟩ := TransGen.head'_iff.mp hee
  rw [hend] at hv
  cases hv

/-- A chase fails exactly when a cycle can be reached. -/
theorem chase_eq_none_iff : chase m target [] k = none ↔
    ∃ n, ReflTransGen (Link m target) k n ∧ TransGen (Link m target) n n := by
  constructor
  · intro h
    exact chase_eq_none (by simp) h
  · rintro ⟨n, hn, hcycle⟩
    cases hc : chase m target [] k with
    | none => rfl
    | some r =>
      obtain ⟨hpath, hend⟩ := chase_eq_some hc
      exact absurd hcycle (not_cycle_of_end hpath hend hn)

end Lib
