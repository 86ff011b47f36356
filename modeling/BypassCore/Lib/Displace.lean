import Mathlib.Data.List.Nodup

/-!
# Hash, displace and compress

The second level of a perfect hash table. The keys come in buckets, and every seed is a hash
function of its own. The buckets are placed one after another: a bucket tries one seed after the
other until its keys fall on slots that are free, and gives back what it has taken whenever a key
falls on a slot in use. The seed that worked is kept as the displacement of the bucket.

Placing never disturbs what a table holds, so in the end every key lies at the slot that the seed of
its bucket gives it.
-/

namespace Lib.Displace

open List

/-- A table under construction: its slots, and which of them are in use. -/
structure Table (κ : Type*) where
  occupied : List Bool
  slots : List κ
  length_eq : occupied.length = slots.length

variable {κ σ : Type*}

namespace Table

def make (zero : κ) (n : Nat) : Table κ :=
  ⟨List.replicate n false, List.replicate n zero, by simp⟩

def take (t : Table κ) (j : Nat) (k : κ) : Table κ :=
  ⟨t.occupied.set j true, t.slots.set j k, by simp [t.length_eq]⟩

def free (zero : κ) (t : Table κ) (j : Nat) : Table κ :=
  ⟨t.occupied.set j false, t.slots.set j zero, by simp [t.length_eq]⟩

def size (t : Table κ) : Nat := t.slots.length

def Holds (t : Table κ) (j : Nat) (k : κ) : Prop :=
  t.occupied[j]? = some true ∧ t.slots[j]? = some k

@[simp] lemma size_make (zero : κ) (n : Nat) : (make zero n).size = n := by
  simp [size, make]

@[simp] lemma size_take (t : Table κ) (j : Nat) (k : κ) : (t.take j k).size = t.size := by
  simp [size, take]

@[simp] lemma size_free (zero : κ) (t : Table κ) (j : Nat) : (t.free zero j).size = t.size := by
  simp [size, free]

@[simp] lemma size_foldl_free (zero : κ) (t : Table κ) (js : List Nat) :
    (js.foldl (free zero) t).size = t.size := by
  induction js generalizing t with
  | nil => rfl
  | cons j js ih => rw [foldl_cons, ih, size_free]

variable {zero k k' : κ} {t t' t'' : Table κ} {i j : Nat}

lemma holds_take (hj : j < t.size) : (t.take j k).Holds j k := by
  have hj' : j < t.occupied.length := by rw [t.length_eq]; exact hj
  exact ⟨getElem?_set_self hj', getElem?_set_self hj⟩

/-- A slot in use is not the free one a key falls on. -/
lemma Holds.ne (h : t.Holds i k) (hfree : t.occupied.getD j false = false) : j ≠ i := by
  rintro rfl
  rw [getD_eq_getElem?_getD, h.1] at hfree
  cases hfree

lemma Holds.take (h : t.Holds i k) (hfree : t.occupied.getD j false = false) :
    (t.take j k').Holds i k := by
  have hne := h.ne hfree
  exact ⟨(getElem?_set_ne hne).trans h.1, (getElem?_set_ne hne).trans h.2⟩

lemma Holds.free (h : t.Holds i k) (hne : j ≠ i) : (t.free zero j).Holds i k :=
  ⟨(getElem?_set_ne hne).trans h.1, (getElem?_set_ne hne).trans h.2⟩

lemma Holds.foldl_free {js : List Nat} (h : t.Holds i k) (hi : i ∉ js) :
    (js.foldl (Table.free zero) t).Holds i k := by
  induction js generalizing t with
  | nil => exact h
  | cons j js ih =>
    rw [mem_cons, not_or] at hi
    exact ih (h.free (Ne.symm hi.1)) hi.2

structure Extends (t t' : Table κ) : Prop where
  size_eq : t'.size = t.size
  holds : ∀ {i k}, t.Holds i k → t'.Holds i k

lemma Extends.refl (t : Table κ) : t.Extends t := ⟨rfl, fun h => h⟩

lemma Extends.trans (h : t.Extends t') (h' : t'.Extends t'') : t.Extends t'' :=
  ⟨h'.size_eq.trans h.size_eq, fun hk => h'.holds (h.holds hk)⟩

/-- Every entry of the slots, used or not, satisfies `p`. -/
def All (p : κ → Prop) (t : Table κ) : Prop := ∀ x ∈ t.slots, p x

variable {p : κ → Prop}

lemma All.take (h : t.All p) (hk : p k) : (t.take j k).All p := by
  intro x hx
  rcases mem_or_eq_of_mem_set hx with hx | rfl
  · exact h x hx
  · exact hk

lemma All.free (h : t.All p) (hz : p zero) : (t.free zero j).All p := by
  intro x hx
  rcases mem_or_eq_of_mem_set hx with hx | rfl
  · exact h x hx
  · exact hz

lemma All.foldl_free {js : List Nat} (h : t.All p) (hz : p zero) :
    (js.foldl (Table.free zero) t).All p := by
  induction js generalizing t with
  | nil => exact h
  | cons j js ih => exact ih (h.free hz)

lemma all_make (hz : p zero) (n : Nat) : (make zero n).All p := by
  intro x hx
  rw [eq_of_mem_replicate hx]
  exact hz

end Table

open Table

/-! ### One bucket -/

/-- Put the keys on their slots one after another. When one falls on a slot in use, the slots taken
so far are given back. -/
def tryBucket (zero : κ) (slot : κ → Nat) : Table κ → List Nat → List κ → Bool × Table κ
  | t, _, [] => (true, t)
  | t, hashed, k :: ks =>
    if t.occupied.getD (slot k) false then (false, hashed.foldl (free zero) t)
    else tryBucket zero slot (t.take (slot k) k) (hashed ++ [slot k]) ks

/-- Try one seed after another, as long as the fuel lasts. -/
def placeBucket (zero : κ) (slot : σ → κ → Nat) (next : σ → σ) (ks : List κ) :
    Nat → σ → Table κ → Option (σ × Table κ)
  | 0, _, _ => none
  | fuel + 1, seed, t =>
    if (tryBucket zero (slot seed) t [] ks).1 then
      some (seed, (tryBucket zero (slot seed) t [] ks).2)
    else placeBucket zero slot next ks fuel (next seed) (tryBucket zero (slot seed) t [] ks).2

section Try

variable {zero k : κ} {slot : κ → Nat} {t : Table κ} {hashed : List Nat} {ks : List κ} {i : Nat}

@[simp] lemma size_tryBucket : (tryBucket zero slot t hashed ks).2.size = t.size := by
  induction ks generalizing t hashed with
  | nil => rfl
  | cons k ks ih =>
    rw [tryBucket]
    split_ifs
    · exact size_foldl_free zero t hashed
    · rw [ih, size_take]

/-- Whether it succeeds or not, a try touches no slot that was in use before. -/
lemma tryBucket_holds (h : t.Holds i k) (hi : i ∉ hashed) :
    (tryBucket zero slot t hashed ks).2.Holds i k := by
  induction ks generalizing t hashed with
  | nil => exact h
  | cons k' ks ih =>
    rw [tryBucket]
    split_ifs with hc
    · exact h.foldl_free hi
    · rw [Bool.not_eq_true] at hc
      refine ih (h.take hc) ?_
      rw [mem_append, mem_singleton, not_or]
      exact ⟨hi, (h.ne hc).symm⟩

/-- A try that succeeds gives nothing back. -/
lemma tryBucket_keeps (hs : (tryBucket zero slot t hashed ks).1 = true) (h : t.Holds i k) :
    (tryBucket zero slot t hashed ks).2.Holds i k := by
  induction ks generalizing t hashed with
  | nil => exact h
  | cons k' ks ih =>
    rw [tryBucket] at hs ⊢
    by_cases hc : t.occupied.getD (slot k') false = true
    · rw [if_pos hc] at hs
      cases hs
    · rw [if_neg hc] at hs ⊢
      exact ih hs (h.take (Bool.not_eq_true _ ▸ hc))

lemma tryBucket_success (hslot : ∀ k, slot k < t.size)
    (hs : (tryBucket zero slot t hashed ks).1 = true) :
    ∀ k ∈ ks, (tryBucket zero slot t hashed ks).2.Holds (slot k) k := by
  induction ks generalizing t hashed with
  | nil => simp
  | cons k' ks ih =>
    rw [tryBucket] at hs ⊢
    by_cases hc : t.occupied.getD (slot k') false = true
    · rw [if_pos hc] at hs
      cases hs
    · rw [if_neg hc] at hs ⊢
      intro k hk
      rcases mem_cons.mp hk with rfl | hk
      · exact tryBucket_keeps hs (holds_take (hslot k))
      · exact ih (fun k => by rw [size_take]; exact hslot k) hs k hk

lemma tryBucket_all {p : κ → Prop} (h : t.All p) (hz : p zero) (hks : ∀ k ∈ ks, p k) :
    (tryBucket zero slot t hashed ks).2.All p := by
  induction ks generalizing t hashed with
  | nil => exact h
  | cons k' ks ih =>
    rw [tryBucket]
    split_ifs
    · exact h.foldl_free hz
    · exact ih (h.take (hks k' mem_cons_self)) fun k hk => hks k (mem_cons_of_mem _ hk)

end Try

section Place

variable {zero : κ} {slot : σ → κ → Nat} {next : σ → σ} {ks : List κ} {fuel : Nat} {seed s : σ}
  {t t' : Table κ}

/-- A bucket that is placed leaves the rest of the table alone and has its keys on the slots its
seed gives them. -/
lemma placeBucket_spec (hslot : ∀ s k, slot s k < t.size)
    (h : placeBucket zero slot next ks fuel seed t = some (s, t')) :
    t.Extends t' ∧ ∀ k ∈ ks, t'.Holds (slot s k) k := by
  induction fuel generalizing seed t with
  | zero => cases h
  | succ fuel ih =>
    have hext : t.Extends (tryBucket zero (slot seed) t [] ks).2 :=
      ⟨size_tryBucket, fun hk => tryBucket_holds hk not_mem_nil⟩
    rw [placeBucket] at h
    split_ifs at h with hs
    · cases h
      exact ⟨hext, tryBucket_success (hslot _) hs⟩
    · obtain ⟨hext', hks⟩ := ih (fun s k => by rw [hext.size_eq]; exact hslot s k) h
      exact ⟨hext.trans hext', hks⟩

lemma placeBucket_all {p : κ → Prop} (ht : t.All p) (hz : p zero) (hks : ∀ k ∈ ks, p k)
    (h : placeBucket zero slot next ks fuel seed t = some (s, t')) : t'.All p := by
  induction fuel generalizing seed t with
  | zero => cases h
  | succ fuel ih =>
    rw [placeBucket] at h
    split_ifs at h with hs
    · cases h
      exact tryBucket_all ht hz hks
    · exact ih (tryBucket_all ht hz hks) h

end Place

/-- Place the buckets in the order given, each from the first seed on, and keep their seeds. -/
def placeAll (zero : κ) (slot : σ → κ → Nat) (first : σ) (next : σ → σ) (fuel : Nat)
    (buckets : List (List κ)) : List Nat → List σ → Table κ → Option (List σ × Table κ)
  | [], seeds, t => some (seeds, t)
  | b :: bs, seeds, t =>
    (placeBucket zero slot next (buckets.getD b []) fuel first t).bind fun r =>
      placeAll zero slot first next fuel buckets bs (seeds.set b r.1) r.2

section All

variable {zero : κ} {slot : σ → κ → Nat} {first : σ} {next : σ → σ} {fuel : Nat}
  {buckets : List (List κ)} {bs : List Nat} {seeds seeds' : List σ} {t t' : Table κ}

lemma placeAll_cons {b : Nat}
    (h : placeAll zero slot first next fuel buckets (b :: bs) seeds t = some (seeds', t')) :
    ∃ s u, placeBucket zero slot next (buckets.getD b []) fuel first t = some (s, u) ∧
      placeAll zero slot first next fuel buckets bs (seeds.set b s) u = some (seeds', t') := by
  obtain ⟨⟨s, u⟩, hp, hr⟩ := Option.bind_eq_some_iff.mp h
  exact ⟨s, u, hp, hr⟩

lemma placeAll_seeds {b : Nat} (hb : b ∉ bs)
    (h : placeAll zero slot first next fuel buckets bs seeds t = some (seeds', t')) :
    seeds'[b]? = seeds[b]? := by
  induction bs generalizing seeds t with
  | nil =>
    cases h
    rfl
  | cons c bs ih =>
    obtain ⟨s, u, -, hr⟩ := placeAll_cons h
    rw [mem_cons, not_or] at hb
    rw [ih hb.2 hr, getElem?_set_ne (Ne.symm hb.1)]

/-- **Displacement.** A finished table has every key of every bucket on the slot that the bucket's
seed gives it. -/
theorem placeAll_holds (hslot : ∀ s k, slot s k < t.size) (hn : bs.Nodup)
    (hlen : ∀ b ∈ bs, b < seeds.length)
    (h : placeAll zero slot first next fuel buckets bs seeds t = some (seeds', t')) :
    t.Extends t' ∧
      ∀ b ∈ bs, ∀ k ∈ buckets.getD b [], t'.Holds (slot (seeds'.getD b first) k) k := by
  induction bs generalizing seeds t with
  | nil =>
    cases h
    exact ⟨Extends.refl _, by simp⟩
  | cons b bs ih =>
    obtain ⟨s, u, hp, hr⟩ := placeAll_cons h
    obtain ⟨hb, hn'⟩ := nodup_cons.mp hn
    obtain ⟨hext, hks⟩ := placeBucket_spec hslot hp
    have hlen' : ∀ c ∈ bs, c < (seeds.set b s).length := by
      intro c hc
      rw [length_set]
      exact hlen c (mem_cons_of_mem _ hc)
    obtain ⟨hext', hrest⟩ := ih (fun s k => by rw [hext.size_eq]; exact hslot s k) hn' hlen' hr
    refine ⟨hext.trans hext', fun c hc k hk => ?_⟩
    rcases mem_cons.mp hc with rfl | hc
    · -- the rest of the loop neither changes the seed just written nor moves the bucket
      have hs : seeds'.getD c first = s := by
        rw [getD_eq_getElem?_getD, placeAll_seeds hb hr, getElem?_set_self (hlen c mem_cons_self)]
        rfl
      rw [hs]
      exact hext'.holds (hks k hk)
    · exact hrest c hc k hk

lemma placeAll_all {p : κ → Prop} (ht : t.All p) (hz : p zero)
    (hks : ∀ b ∈ bs, ∀ k ∈ buckets.getD b [], p k)
    (h : placeAll zero slot first next fuel buckets bs seeds t = some (seeds', t')) : t'.All p := by
  induction bs generalizing seeds t with
  | nil =>
    cases h
    exact ht
  | cons b bs ih =>
    obtain ⟨s, u, hp, hr⟩ := placeAll_cons h
    exact ih (placeBucket_all ht hz (hks b mem_cons_self) hp)
      (fun c hc => hks c (mem_cons_of_mem _ hc)) hr

end All
end Lib.Displace
