import BypassCore.Lib.GoMap
import Mathlib.Algebra.BigOperators.Ring.Finset

/-!
# Tallies

The keys of a map fall into classes, and a second map counts the keys of each class. A class
without keys has no entry. The counts are kept by adding one when a key is added and taking one off
when a key is deleted, and deleting the entry when nothing is left.
-/

namespace Lib

open List AList

variable {K V C : Type*} [DecidableEq C] {f : K → C} {m : GoMap K V} {counts : GoMap C ℤ} {k : K}
  {c : C}

def classCount (f : K → C) (m : GoMap K V) (c : C) : ℕ := (m.keys.map f).count c

def Tallies (f : K → C) (m : GoMap K V) (counts : GoMap C ℤ) : Prop :=
  ∀ c n, counts.lookup c = some n ↔ 0 < n ∧ n = classCount f m c

def tally (counts : GoMap C ℤ) (c : C) : ℤ := (counts.lookup c).getD 0

def tallySum (counts : GoMap C ℤ) : ℤ := ∑ c ∈ counts.keys.toFinset, tally counts c

namespace Tallies

lemma empty : Tallies f (∅ : GoMap K V) ∅ := by
  intro c n
  simp only [classCount, lookup_empty, keys_empty, map_nil, count_nil, reduceCtorEq, false_iff]
  omega

lemma tally_eq (h : Tallies f m counts) (c : C) : tally counts c = classCount f m c := by
  rw [tally]
  cases hc : counts.lookup c with
  | some n => exact ((h c n).mp hc).2
  | none =>
    by_contra hne
    have hpos : 0 < classCount f m c := by
      rw [Option.getD_none] at hne
      omega
    have hsome := (h c (classCount f m c)).mpr ⟨by omega, rfl⟩
    rw [hc] at hsome
    cases hsome

/-- A class has an entry exactly when it has a key. -/
lemma mem_keys_iff (h : Tallies f m counts) : c ∈ counts.keys ↔ c ∈ m.keys.map f := by
  rw [← AList.mem_keys, ← AList.lookup_isSome, Option.isSome_iff_exists, ← count_pos_iff]
  constructor
  · rintro ⟨n, hn⟩
    have := (h c n).mp hn
    rw [classCount] at this
    omega
  · intro hpos
    exact ⟨classCount f m c, (h c _).mpr ⟨by rw [classCount]; omega, rfl⟩⟩

/-- The counts add up to the number of keys. -/
theorem sum_eq_len (h : Tallies f m counts) : tallySum counts = m.len := by
  have hkeys : counts.keys.toFinset = (m.keys.map f).toFinset := by
    ext c
    rw [mem_toFinset, mem_toFinset, h.mem_keys_iff]
  calc tallySum counts = ∑ c ∈ (m.keys.map f).toFinset, ((m.keys.map f).count c : ℤ) := by
        rw [tallySum, hkeys]
        exact Finset.sum_congr rfl fun c _ => h.tally_eq c
    _ = (m.keys.map f).length := by
        rw [← Nat.cast_sum, sum_toFinset_count_eq_length]
    _ = m.len := by rw [length_map, GoMap.len]

end Tallies

variable [DecidableEq K]

lemma classCount_insert (h : m.lookup k = none) (v : V) (c : C) :
    classCount f (m.insert k v) c = classCount f m c + if c = f k then 1 else 0 := by
  have hk : k ∉ m.keys := mem_keys.not.mp (lookup_eq_none.mp h)
  rw [classCount, keys_insert, erase_of_not_mem hk, map_cons, count_cons, classCount]
  simp [eq_comm (b := c)]

lemma classCount_erase {v : V} (h : m.lookup k = some v) (c : C) :
    classCount f (m.erase k) c + (if c = f k then 1 else 0) = classCount f m c := by
  have hk : k ∈ m.keys := mem_keys.mp (lookup_isSome.mp (by rw [h]; rfl))
  have hperm : (m.keys.map f).Perm (f k :: (m.keys.erase k).map f) :=
    (perm_cons_erase hk).map f
  rw [classCount, classCount, hperm.count_eq, count_cons]
  simp [eq_comm (b := c)]

namespace Tallies

lemma inc (h : Tallies f m counts) (hk : m.lookup k = none) (v : V) :
    Tallies f (m.insert k v) (counts.insert (f k) (tally counts (f k) + 1)) := by
  intro c n
  rw [GoMap.lookup_insert_eq, classCount_insert hk, h.tally_eq]
  split_ifs with hc
  · subst hc
    rw [Option.some.injEq]
    omega
  · exact h c n

lemma dec (h : Tallies f m counts) {v : V} (hk : m.lookup k = some v) :
    Tallies f (m.erase k)
      (if 0 < tally counts (f k) - 1 then counts.insert (f k) (tally counts (f k) - 1)
        else counts.erase (f k)) := by
  intro c n
  have hcount := classCount_erase (f := f) hk c
  rw [h.tally_eq]
  by_cases hc : c = f k
  · subst hc
    rw [if_pos rfl] at hcount
    split_ifs with hpos
    · rw [GoMap.lookup_insert_eq, if_pos rfl, Option.some.injEq]
      omega
    · rw [GoMap.lookup_erase_eq, if_pos rfl]
      refine iff_of_false nofun ?_
      omega
  · rw [if_neg hc, Nat.add_zero] at hcount
    rw [hcount, ← h c n]
    split_ifs
    · rw [GoMap.lookup_insert_eq, if_neg hc]
    · rw [GoMap.lookup_erase_eq, if_neg hc]

end Tallies

end Lib
