import BypassCore.Lib.Runs
import Mathlib.Algebra.GroupWithZero.Nat
import Mathlib.Algebra.Order.Group.Multiset
import Mathlib.Algebra.Ring.Int.Defs
import Mathlib.Data.List.Pairwise

/-!
# Goroutines

A goroutine is the list of the atomic operations that it has still to take. Taking the first one
changes the shared state, may put further operations in front of the others, as a call or a branch
does, and may start goroutines. An operation that waits for another goroutine cannot be taken.

What the goroutines have still to do is a multiset of operations. An invariant of the shared state
and of that multiset holds along every interleaving if each operation keeps it.
-/

namespace Lib.Goroutines

open List Multiset

variable {σ α : Type*}

structure Effect (σ α : Type*) where
  state : σ
  /-- What the goroutine does next, before the rest. -/
  next : List α
  spawned : List (List α)

def Effect.added (e : Effect σ α) : Multiset α := ↑(e.next ++ e.spawned.flatten)

structure Config (σ α : Type*) where
  state : σ
  goroutines : List (List α)

namespace Config

variable {exec : σ → α → Option (Effect σ α)} {c c' : Config σ α} {i : Nat}

def ops (c : Config σ α) : Multiset α := c.goroutines.flatten

def spawn (c : Config σ α) (g : List α) : Config σ α := { c with goroutines := c.goroutines ++ [g] }

def advance (exec : σ → α → Option (Effect σ α)) (c : Config σ α) (i : Nat) :
    Option (Config σ α) :=
  match c.goroutines[i]? with
  | some (op :: rest) =>
    (exec c.state op).map fun e =>
      ⟨e.state, c.goroutines.set i (e.next ++ rest) ++ e.spawned⟩
  | _ => none

lemma ops_spawn (c : Config σ α) (g : List α) : (c.spawn g).ops = ↑g + c.ops := by
  rw [ops, spawn, flatten_append, flatten_singleton, Multiset.add_comm]
  rfl

/-- Exactly one operation is taken, and its effect takes its place. -/
theorem advance_eq_some (h : c.advance exec i = some c') :
    ∃ op rest others e, c.goroutines[i]? = some (op :: rest) ∧ exec c.state op = some e ∧
      c.ops = op ::ₘ others ∧ c'.state = e.state ∧ c'.ops = e.added + others := by
  unfold advance at h
  rcases hg : c.goroutines[i]? with - | ⟨- | ⟨op, rest⟩⟩
  · rw [hg] at h
    cases h
  · rw [hg] at h
    cases h
  · rw [hg] at h
    obtain ⟨e, he, rfl⟩ := Option.map_eq_some_iff.mp h
    refine ⟨op, rest, ↑(rest ++ (c.goroutines.eraseIdx i).flatten), e, rfl, he, ?_, rfl, ?_⟩
    · exact coe_eq_coe.mpr (pick_perm hg).flatten
    · have hperm := (pick_set_perm hg (e.next ++ rest)).flatten
      rw [ops, flatten_append, ← coe_add, coe_eq_coe.mpr hperm,
        Effect.added, coe_add, coe_add, coe_eq_coe]
      simp only [flatten_cons, append_assoc]
      refine Perm.append_left _ ?_
      rw [← append_assoc]
      exact perm_append_comm

end Config
end Lib.Goroutines

/-!
## Threads on a shared state

A configuration is a shared state and the threads on it, each a value of its local state: where it
stands and what it holds. A step lets one thread take its next atomic operation, under a choice the
environment makes for it; an operation that waits sees the other threads and may not be enabled.

What the threads hold is added up over them. A quantity of the shared state that every operation
changes against what its thread holds is conserved, and a property of each thread holds of all if an
operation establishes it for its own thread and keeps it for the others.
-/

namespace Lib.Threads

open List Option

structure Config (σ τ : Type*) where
  shared : σ
  threads : List τ

variable {σ τ χ : Type*}

namespace Config

def spawn (c : Config σ τ) (t : τ) : Config σ τ := { c with threads := c.threads ++ [t] }

def advance (exec : List τ → σ → τ → χ → Option (σ × τ)) (c : Config σ τ) (i : ℕ) (x : χ) :
    Option (Config σ τ) :=
  c.threads[i]?.bind fun t =>
    (exec c.threads c.shared t x).map fun r => ⟨r.1, c.threads.set i r.2⟩

def fork (start : τ → Option (τ × τ)) (c : Config σ τ) (i : ℕ) : Option (Config σ τ) :=
  c.threads[i]?.bind fun t =>
    (start t).map fun r => { c with threads := c.threads.set i r.1 }.spawn r.2

variable {exec : List τ → σ → τ → χ → Option (σ × τ)} {c c' : Config σ τ} {i : ℕ} {x : χ}

lemma advance_eq_some (h : c.advance exec i x = some c') :
    ∃ t s' t', c.threads[i]? = some t ∧ exec c.threads c.shared t x = some (s', t') ∧
      c' = ⟨s', c.threads.set i t'⟩ := by
  obtain ⟨t, ht, h⟩ := bind_eq_some_iff.mp h
  obtain ⟨⟨s', t'⟩, hexec, rfl⟩ := map_eq_some_iff.mp h
  exact ⟨t, s', t', ht, hexec, rfl⟩

lemma fork_eq_some {start : τ → Option (τ × τ)} (h : c.fork start i = some c') :
    ∃ t t' u, c.threads[i]? = some t ∧ start t = some (t', u) ∧
      c' = ⟨c.shared, c.threads.set i t' ++ [u]⟩ := by
  obtain ⟨t, ht, h⟩ := bind_eq_some_iff.mp h
  obtain ⟨⟨t', u⟩, hstart, rfl⟩ := map_eq_some_iff.mp h
  exact ⟨t, t', u, ht, hstart, rfl⟩

/-- Where no thread can take an operation, each of them waits or has ended. -/
lemma exec_eq_none (h : ∀ i x, c.advance exec i x = none) {t : τ} (ht : t ∈ c.threads) (x : χ) :
    exec c.threads c.shared t x = none := by
  obtain ⟨i, hi⟩ := mem_iff_getElem?.mp ht
  have hstuck := h i x
  rw [advance, hi, bind_some, map_eq_none_iff] at hstuck
  exact hstuck

end Config

/-! ### What the threads hold -/

section Total

variable {M : Type*} [AddCommMonoid M] {ts : List τ} {i : ℕ} {t : τ}

def total (share : τ → M) (ts : List τ) : M := (ts.map share).sum

@[simp] lemma total_nil (share : τ → M) : total share [] = 0 := rfl

@[simp] lemma total_cons (share : τ → M) (t : τ) (ts : List τ) :
    total share (t :: ts) = share t + total share ts := by
  rw [total, map_cons, sum_cons, total]

lemma total_concat (share : τ → M) (ts : List τ) (t : τ) :
    total share (ts ++ [t]) = total share ts + share t := by
  rw [total, map_append, sum_append, map_singleton, sum_singleton, total]

lemma total_pick (hi : ts[i]? = some t) (share : τ → M) :
    total share ts = share t + total share (ts.eraseIdx i) := by
  exact ((pick_perm hi).map share).sum_eq

lemma total_set (hi : ts[i]? = some t) (share : τ → M) (t' : τ) :
    total share (ts.set i t') = share t' + total share (ts.eraseIdx i) := by
  exact ((pick_set_perm hi t').map share).sum_eq

lemma total_add (f g : τ → M) (ts : List τ) :
    total (fun t => f t + g t) ts = total f ts + total g ts :=
  sum_map_add

variable {share : τ → M}

lemma total_eq_zero (h : ∀ t ∈ ts, share t = 0) : total share ts = 0 := by
  refine sum_eq_zero ?_
  intro m hm
  obtain ⟨t, ht, rfl⟩ := List.mem_map.mp hm
  exact h t ht

/-- What an operation adds to the shared quantity and to what its thread holds, it adds to the
whole. -/
lemma increased_set (quantity : σ → M) (hi : ts[i]? = some t) {s s' : σ} {t' : τ}
    {added : M} (h : quantity s' + share t' = quantity s + share t + added) :
    quantity s' + total share (ts.set i t') = quantity s + total share ts + added := by
  rw [total_set hi, total_pick hi, ← add_assoc, ← add_assoc, h, add_right_comm]

/-- An operation that changes the shared quantity against what its thread holds conserves the
whole. -/
lemma conserved_set (quantity : σ → M) (hi : ts[i]? = some t) {s s' : σ} {t' : τ}
    (h : quantity s' + share t' = quantity s + share t) :
    quantity s' + total share (ts.set i t') = quantity s + total share ts := by
  rw [total_set hi, total_pick hi, ← add_assoc, ← add_assoc, h]

end Total

section Order

variable {ts : List τ} {t : τ}

lemma total_nonneg {share : τ → ℤ} (h : ∀ t ∈ ts, 0 ≤ share t) : 0 ≤ total share ts := by
  induction ts with
  | nil => exact Int.le_refl _
  | cons t ts ih =>
    obtain ⟨ht, hts⟩ := forall_mem_cons.mp h
    exact Int.add_nonneg ht (ih hts)

/-- One thread holds no more than all of them. -/
lemma share_le_total {share : τ → ℤ} (h : ∀ t ∈ ts, 0 ≤ share t) (ht : t ∈ ts) :
    share t ≤ total share ts := by
  obtain ⟨i, hi⟩ := mem_iff_getElem?.mp ht
  rw [total_pick hi]
  have hothers : 0 ≤ total share (ts.eraseIdx i) :=
    total_nonneg fun u hu => h u (mem_of_mem_eraseIdx hu)
  omega

/-- Shares that grow by a bounded amount each. -/
lemma total_le_add {f g : τ → ℕ} {k : ℕ} (h : ∀ t ∈ ts, f t ≤ g t + k) :
    total f ts ≤ total g ts + k * ts.length := by
  induction ts with
  | nil => exact Nat.zero_le _
  | cons t ts ih =>
    obtain ⟨ht, hts⟩ := forall_mem_cons.mp h
    have hle := ih hts
    rw [total_cons, total_cons, length_cons, Nat.mul_succ]
    omega

end Order

section Multisets

variable {α : Type*} {f : τ → Multiset α} {ts : List τ} {a : α}

lemma mem_total : a ∈ total f ts ↔ ∃ t ∈ ts, a ∈ f t := by
  induction ts with
  | nil => simp
  | cons t ts ih => rw [total_cons, Multiset.mem_add, ih, exists_mem_cons_iff]

lemma countP_total (p : α → Prop) [DecidablePred p] :
    (total f ts).countP p = total (fun t => (f t).countP p) ts := by
  induction ts with
  | nil => rfl
  | cons t ts ih => rw [total_cons, total_cons, Multiset.countP_add, ih]

/-- What one thread holds alone, the others do not. -/
lemma notMem_of_nodup_total {i : ℕ} {t u : τ} (h : (total f ts).Nodup) (hi : ts[i]? = some t)
    (ht : a ∈ f t) (hu : u ∈ ts.eraseIdx i) : a ∉ f u := by
  intro hau
  rw [total_pick hi, Multiset.nodup_add] at h
  exact Multiset.disjoint_left.mp h.2.2 ht (mem_total.mpr ⟨u, hu, hau⟩)

lemma index_eq_of_nodup_total {i j : ℕ} {t u : τ} (h : (total f ts).Nodup)
    (hi : ts[i]? = some t) (hj : ts[j]? = some u) (ht : a ∈ f t) (hu : a ∈ f u) : i = j := by
  by_contra hne
  refine notMem_of_nodup_total h hi ht ?_ hu
  exact mem_eraseIdx_iff_getElem?.mpr ⟨j, Ne.symm hne, hj⟩

end Multisets

variable {ts : List τ}

/-- What an operation establishes for its thread and keeps for the others holds of all. -/
lemma forall_mem_set {P P' : τ → Prop} {t' : τ} (h : ∀ t ∈ ts, P t)
    (hkept : ∀ t ∈ ts, P t → P' t) (ht' : P' t') (i : ℕ) : ∀ t ∈ ts.set i t', P' t := by
  intro t ht
  rcases mem_or_eq_of_mem_set ht with ht | rfl
  · exact hkept t ht (h t ht)
  · exact ht'

/-- What held of the mover before its operation is not kept. -/
lemma forall_mem_set_others {P' : τ → Prop} {i : ℕ} {t t' : τ}
    (hi : ts[i]? = some t) (hothers : ∀ u ∈ ts.eraseIdx i, P' u) (ht' : P' t') :
    ∀ u ∈ ts.set i t', P' u := by
  intro u hu
  rcases mem_cons.mp ((pick_set_perm hi t').mem_iff.mp hu) with rfl | hu
  · exact ht'
  · exact hothers u hu

lemma mem_set_of_ne {i : ℕ} {t t' u : τ} (hi : ts[i]? = some t) (hu : u ∈ ts)
    (hne : u ≠ t) : u ∈ ts.set i t' := by
  rcases mem_cons.mp ((pick_perm hi).mem_iff.mp hu) with rfl | hu
  · exact absurd rfl hne
  · exact (pick_set_perm hi t').mem_iff.mpr (mem_cons_of_mem _ hu)

lemma mem_set_self {i : ℕ} {t : τ} (hi : ts[i]? = some t) (t' : τ) : t' ∈ ts.set i t' :=
  (pick_set_perm hi t').mem_iff.mpr mem_cons_self

lemma exists_mem_set {P : τ → Prop} {i : ℕ} {t t' : τ} (hi : ts[i]? = some t)
    (h : ∃ u ∈ ts, P u) (ht : P t → P t') : ∃ u ∈ ts.set i t', P u := by
  obtain ⟨u, hu, hP⟩ := h
  by_cases hne : u = t
  · subst hne
    exact ⟨t', mem_set_self hi t', ht hP⟩
  · exact ⟨u, mem_set_of_ne hi hu hne, hP⟩

lemma forall_mem_concat {P : τ → Prop} {t : τ} (h : ∀ t ∈ ts, P t) (ht : P t) :
    ∀ u ∈ ts ++ [t], P u :=
  forall_mem_append.mpr ⟨h, forall_mem_singleton.mpr ht⟩

section Unique

variable {κ : Type*} {key : τ → Option κ} {ts : List τ} {i : ℕ} {t u : τ}

def Apart (key : τ → Option κ) (t u : τ) : Prop := ∀ k, key t = some k → key u ≠ some k

def Unique (key : τ → Option κ) (ts : List τ) : Prop := ts.Pairwise (Apart key)

lemma unique_nil : Unique key [] := List.Pairwise.nil

lemma Unique.concat (h : Unique key ts) (ht : ∀ u ∈ ts, Apart key u t) :
    Unique key (ts ++ [t]) := by
  refine pairwise_append.mpr ⟨h, pairwise_singleton _ _, ?_⟩
  intro u hu v hv
  rw [mem_singleton.mp hv]
  exact ht u hu

/-- A thread that takes an operation keeps its key. -/
lemma Unique.set (h : Unique key ts) (hi : ts[i]? = some t) (hkey : key u = key t) :
    Unique key (ts.set i u) := by
  have hmap : (ts.set i u).map key = ts.map key := by
    obtain ⟨hlt, rfl⟩ := List.getElem?_eq_some_iff.mp hi
    rw [map_set, hkey, ← getElem_map key (h := by rwa [length_map]), set_getElem_self]
  have hpair : ((ts.set i u).map key).Pairwise fun a b => ∀ k, a = some k → b ≠ some k := by
    rw [hmap]
    exact pairwise_map.mpr h
  rw [pairwise_map] at hpair
  exact hpair

lemma Unique.eq {k : κ} (h : Unique key ts) (ht : t ∈ ts) (hu : u ∈ ts) (hkt : key t = some k)
    (hku : key u = some k) : t = u := by
  have : Std.Symm (Apart key) := ⟨fun _ _ hap k hk hk' => hap k hk' hk⟩
  by_contra hne
  exact List.Pairwise.forall h ht hu hne k hkt hku

end Unique

end Lib.Threads
