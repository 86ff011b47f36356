import Mathlib.Data.List.AList
import Mathlib.Data.List.Count
import Mathlib.Data.List.Perm.Basic

/-!
# Go maps

A Go map is an association list with distinct keys. The language leaves the order of a `range`
open, so the order of the entries carries no meaning: a loop over a map goes through the entries
in an order that a `RangeOrder` chooses, and results are stated for every such order.
-/

namespace Lib

open List AList

abbrev GoMap (K V : Type*) := AList fun _ : K => V

/-- The orders in which the `range` loops of one call go through their maps, by loop. -/
structure RangeOrder where
  order : Nat → {α : Type} → List α → List α
  perm : ∀ n {α : Type} (l : List α), (order n l).Perm l

/-- Every loop goes through the entries as they are stored. -/
def RangeOrder.stored : RangeOrder := ⟨fun _ _ l => l, fun _ _ l => List.Perm.refl l⟩

namespace GoMap

variable {K V W α : Type*}

/-- Unlike the instance of Mathlib this one can be evaluated by the kernel. -/
instance [DecidableEq K] [DecidableEq V] : DecidableEq (GoMap K V) := fun m m' =>
  decidable_of_iff (m.entries = m'.entries) AList.ext_iff.symm

/-- Assign to every key a new value computed from its old one. -/
def mapVals (f : K → V → W) (m : GoMap K V) : GoMap K W :=
  ⟨m.entries.map fun e => ⟨e.1, f e.1 e.2⟩, List.NodupKeys.map₂ f m.entries m.nodupKeys⟩

@[simp] lemma entries_mapVals (f : K → V → W) (m : GoMap K V) :
    (m.mapVals f).entries = m.entries.map fun e => ⟨e.1, f e.1 e.2⟩ := rfl

variable (p : K → V → Bool)

/-- Delete the entries that do not pass a test, as a `range` loop does in any order. -/
def keep (m : GoMap K V) : GoMap K V :=
  ⟨m.entries.filter fun e => p e.1 e.2,
    List.NodupKeys.sublist List.filter_sublist m.nodupKeys⟩

def len (m : GoMap K V) : Nat := m.keys.length

lemma len_keep_le (m : GoMap K V) : (m.keep p).len ≤ m.len := by
  simp only [len, AList.keys, List.keys, length_map]
  exact length_filter_le _ m.entries

variable [DecidableEq K] {m : GoMap K V} {k : K} {v : V}

lemma lookup_eq_some_iff : m.lookup k = some v ↔ (⟨k, v⟩ : Sigma fun _ : K => V) ∈ m.entries :=
  mem_lookup_iff

lemma lookup_insert_eq (m : GoMap K V) (k k' : K) (v : V) :
    (m.insert k v).lookup k' = if k' = k then some v else m.lookup k' := by
  split_ifs with h
  · subst h
    exact lookup_insert m
  · exact lookup_insert_ne h

lemma lookup_erase_eq (m : GoMap K V) (k k' : K) :
    (m.erase k).lookup k' = if k' = k then none else m.lookup k' := by
  split_ifs with h
  · subst h
    exact lookup_erase _ m
  · exact lookup_erase_ne h

lemma lookup_keep (m : GoMap K V) (k : K) : (m.keep p).lookup k = (m.lookup k).filter (p k) := by
  ext v
  rw [lookup_eq_some_iff, Option.filter_eq_some_iff, lookup_eq_some_iff]
  exact mem_filter

lemma len_insert_of_none (h : m.lookup k = none) (v : V) :
    GoMap.len (m.insert k v) = m.len + 1 := by
  rw [len, keys_insert, length_cons, erase_of_not_mem (mem_keys.not.mp (lookup_eq_none.mp h)), len]

lemma len_insert_of_some (h : m.lookup k = some v) (v' : V) :
    GoMap.len (m.insert k v') = m.len := by
  have hk : k ∈ m.keys := mem_keys.mp (lookup_isSome.mp (by rw [h]; rfl))
  have := length_pos_of_mem hk
  rw [len, keys_insert, length_cons, length_erase_of_mem hk, len]
  omega

lemma len_erase_of_some (h : m.lookup k = some v) : GoMap.len (m.erase k) + 1 = m.len := by
  have hk : k ∈ m.keys := mem_keys.mp (lookup_isSome.mp (by rw [h]; rfl))
  have := length_pos_of_mem hk
  rw [len, keys_erase, length_erase_of_mem hk, len]
  omega

/-- A key that was there is taken out with its value. -/
lemma entries_erase_perm (h : m.lookup k = some v) :
    m.entries.Perm (⟨k, v⟩ :: (m.erase k).entries) := by
  have hk : k ∈ m.entries.keys := lookup_isSome.mp (by rw [h]; rfl)
  obtain ⟨w, l₁, l₂, -, hl, hkerase⟩ := exists_of_kerase hk
  have hw : m.lookup k = some w := by
    rw [lookup_eq_some_iff, hl]
    exact mem_append_right _ mem_cons_self
  rw [h] at hw
  cases hw
  show m.entries.Perm (⟨k, v⟩ :: m.entries.kerase k)
  rw [hkerase, hl]
  exact perm_middle

def insertAll (m : GoMap K V) (l : List (K × V)) : GoMap K V :=
  l.foldl (fun m e => m.insert e.1 e.2) m

lemma lookup_insertAll_of_notMem {l : List (K × V)}
    (h : k ∉ l.map Prod.fst) : (m.insertAll l).lookup k = m.lookup k := by
  induction l generalizing m with
  | nil => rfl
  | cons e l ih =>
    rw [map_cons, mem_cons, not_or] at h
    show (insertAll (m.insert e.1 e.2) l).lookup k = m.lookup k
    rw [ih h.2, lookup_insert_eq, if_neg h.1]

lemma lookup_insertAll_of_mem {l : List (K × V)}
    (hn : (l.map Prod.fst).Nodup) (h : (k, v) ∈ l) : (m.insertAll l).lookup k = some v := by
  induction l generalizing m with
  | nil => cases h
  | cons e l ih =>
    rw [map_cons, nodup_cons] at hn
    show (insertAll (m.insert e.1 e.2) l).lookup k = some v
    rcases mem_cons.mp h with rfl | h
    · rw [lookup_insertAll_of_notMem hn.1, lookup_insert_eq, if_pos rfl]
    · exact ih hn.2 h

/-- When each output names the key it comes from, an output occurs in the concatenation as often
as it occurs at its own key. -/
lemma count_flatMap_entries [BEq α] [LawfulBEq α] (m : GoMap K V) (out : K → V → List α) (κ : α → K)
    (hκ : ∀ k v, m.lookup k = some v → ∀ x ∈ out k v, κ x = k) (x : α) :
    (m.entries.flatMap fun e => out e.1 e.2).count x =
      ((m.lookup (κ x)).elim [] (out (κ x))).count x := by
  obtain ⟨l, hl⟩ := m
  have hκ' : ∀ e ∈ l, ∀ x ∈ out e.1 e.2, κ x = e.1 := fun e he x hx =>
    hκ e.1 e.2 (mem_dlookup hl he) x hx
  show _ = ((dlookup (κ x) l).elim [] (out (κ x))).count x
  clear hκ
  induction l with
  | nil => simp
  | cons e l ih =>
    obtain ⟨k, v⟩ := e
    obtain ⟨hk, hl'⟩ := nodupKeys_cons.mp hl
    have ih' := ih hl' fun e he => hκ' e (mem_cons_of_mem _ he)
    simp only [flatMap_cons, count_append]
    by_cases hx : κ x = k
    · -- the entry of `x` is the head: no later entry holds `x`
      subst hx
      have hn : dlookup (κ x) l = none := dlookup_eq_none.mpr hk
      rw [ih', hn]
      simp
    · have h0 : (out k v).count x = 0 := by
        rw [count_eq_zero]
        intro hmem
        exact hx (hκ' ⟨k, v⟩ mem_cons_self x hmem)
      rw [ih', h0, dlookup_cons_ne _ _ hx, Nat.zero_add]

end GoMap
end Lib

/-!
## Shared results

A computation that can fail is made once for a key, and its result is shared by later calls with
the same key for as long as the table holds it. An entry can leave the table at any time, as the
entries of a table of weak references do.

Every shared result was made for some call. A later call cannot tell it from a result of its own
when no two different calls have one key.
-/

namespace Lib.Memo

variable {α K V E : Type*} [DecidableEq K]

/-- Take the shared result for the key, or make one and share it unless it fails. -/
def getOrCreate (shared : GoMap K V) (key : K) (make : Except E V) : Except E V × GoMap K V :=
  match shared.lookup key with
  | some v => (.ok v, shared)
  | none =>
    match make with
    | .ok v => (.ok v, shared.insert key v)
    | .error e => (.error e, shared)

lemma getOrCreate_of_some {shared : GoMap K V} {key : K} {v : V} (h : shared.lookup key = some v)
    (make : Except E V) : getOrCreate shared key make = (.ok v, shared) := by
  unfold getOrCreate
  rw [h]

lemma getOrCreate_of_none {shared : GoMap K V} {key : K} {v : V} (h : shared.lookup key = none) :
    getOrCreate shared key (.ok v : Except E V) = (.ok v, shared.insert key v) := by
  unfold getOrCreate
  rw [h]

@[simp] lemma getOrCreate_empty (key : K) (make : Except E V) :
    (getOrCreate (∅ : GoMap K V) key make).1 = make := by
  unfold getOrCreate
  cases make <;> rfl

/-- Each shared result was made for one of the calls so far, under that call's key. -/
def Shares (key : α → K) (make : α → Except E V) (calls : List α) (shared : GoMap K V) : Prop :=
  ∀ k v, shared.lookup k = some v → ∃ a ∈ calls, key a = k ∧ make a = .ok v

variable {key : α → K} {make : α → Except E V} {calls : List α} {shared : GoMap K V} {a : α}

lemma shares_empty : Shares key make calls ∅ := by
  intro k v h
  cases h

section

variable (h : Shares key make calls shared)
include h

lemma Shares.erase (k : K) : Shares key make calls (shared.erase k) := by
  intro k' v hv
  rw [GoMap.lookup_erase_eq] at hv
  split_ifs at hv
  exact h k' v hv

/-- A call adds at most its own result. -/
lemma Shares.getOrCreate (ha : a ∈ calls) :
    Shares key make calls (Memo.getOrCreate shared (key a) (make a)).2 := by
  unfold Memo.getOrCreate
  split
  · exact h
  · split
    · rename_i v hmake
      intro k' v' hv
      rw [GoMap.lookup_insert_eq] at hv
      split_ifs at hv with hk
      · cases hv
        exact ⟨a, ha, hk.symm, hmake⟩
      · exact h k' v' hv
    · exact h

lemma Shares.getOrCreate_fst (ha : a ∈ calls) :
    ∃ b ∈ calls, key b = key a ∧ (Memo.getOrCreate shared (key a) (make a)).1 = make b := by
  unfold Memo.getOrCreate
  split
  · rename_i v hv
    obtain ⟨b, hb, hk, hmake⟩ := h _ _ hv
    exact ⟨b, hb, hk, hmake.symm⟩
  · refine ⟨a, ha, rfl, ?_⟩
    split
    · rename_i hmake
      exact hmake.symm
    · rename_i hmake
      exact hmake.symm

end

end Lib.Memo
