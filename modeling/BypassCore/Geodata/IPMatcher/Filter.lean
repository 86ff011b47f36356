import BypassCore.Geodata.IPMatcher.Batch
import Mathlib.Algebra.Order.Group.Multiset

/-!
# Splitting a list of IPs

`FilterIPs`, for one `HeuristicIPMatcher` and for a list of them. One matcher decides bucketed
addresses by their representative and the others one by one. A list of matchers works on two
views of the same input, one by prefix bucket and one by address, and empties the entries it has
matched; what is left of both views goes to `unmatched`.
-/

namespace BypassCore

open Lib GoMap

variable {N : Netipx}

structure IPBucket where
  rep : Addr
  ips : List NetIP

/-- Put an address into its bucket, which is made for the first address of a key. The address
that was read for a new bucket is returned as well; `none` is the `continue` on an illegal one. -/
def addToBucket (N : Netipx) (buckets : GoMap PrefixKey IPBucket) (key : PrefixKey) (ip : NetIP) :
    Option (GoMap PrefixKey IPBucket × Option Addr) :=
  match buckets.lookup key with
  | some b => some (buckets.insert key { b with ips := b.ips ++ [ip] }, none)
  | none => (N.fromStdIP ip).map fun ipx => (buckets.insert key ⟨ipx, [ip]⟩, some ipx)

namespace HeuristicIPMatcher

/-- Addresses decided one by one; an illegal address is ignored. -/
def filterEach (m : HeuristicIPMatcher N) (ips : List NetIP) : List NetIP × List NetIP :=
  (ips.filter fun ip => (N.fromStdIP ip).any m.matchAddr,
    ips.filter fun ip => (N.fromStdIP ip).any fun ipx => !m.matchAddr ipx)

def filterCollect (m : HeuristicIPMatcher N) :
    GoMap PrefixKey IPBucket → List NetIP → List NetIP → GoMap PrefixKey IPBucket × List NetIP
  | buckets, precise, [] => (buckets, precise)
  | buckets, precise, ip :: ips =>
    match prefixKeyFromIP ip with
    | none => m.filterCollect buckets precise ips
    | some key =>
      if (key.family = 4 ∧ m.heur .v4 = false) ∨ (key.family = 6 ∧ m.heur .v6 = false) then
        m.filterCollect buckets (precise ++ [ip]) ips
      else
        match addToBucket N buckets key ip with
        | none => m.filterCollect buckets precise ips
        | some (buckets, _) => m.filterCollect buckets precise ips

def filterIPs (m : HeuristicIPMatcher N) (ord : RangeOrder) (ips : List NetIP) :
    List NetIP × List NetIP :=
  match ips with
  | [] => ([], [])
  | [ip] =>
    match N.fromStdIP ip with
    | none => ([], [])
    | some ipx => if m.matchAddr ipx then ([ip], []) else ([], [ip])
  | ips =>
    if !m.heur .v4 && !m.heur .v6 then m.filterEach ips
    else
      let (buckets, precise) := m.filterCollect ∅ [] ips
      let ranged := ord.order 0 buckets.entries
      ((ranged.flatMap fun e => if m.matchAddr e.2.rep then e.2.ips else []) ++
          (m.filterEach precise).1,
        (ranged.flatMap fun e => if m.matchAddr e.2.rep then [] else e.2.ips) ++
          (m.filterEach precise).2)

end HeuristicIPMatcher

/-! ### A list of matchers -/

/-- The maps that `ipBucketViews.ensureForMatcher` makes and fills for one family. -/
structure FreshViews where
  buckets : GoMap PrefixKey IPBucket := ∅
  precise : GoMap Addr NetIP := ∅

def FreshViews.addIP (N : Netipx) (needHeur needPrec : Bool) (w : FreshViews) (key : PrefixKey)
    (ip : NetIP) : FreshViews :=
  let bucketed : Option (FreshViews × Option Addr) :=
    if needHeur then
      (addToBucket N w.buckets key ip).map fun (buckets, ipx) =>
        ({ w with buckets := buckets }, ipx)
    else some (w, none)
  match bucketed with
  | none => w
  | some (w, ipx) =>
    if needPrec then
      match ipx.or (N.fromStdIP ip) with
      | none => w
      | some ipx => { w with precise := w.precise.insert ipx ip }
    else w

/-- The loop of `ipBucketViews.ensureForMatcher`; an illegal address is skipped. -/
def FreshViews.fill (N : Netipx) (h4 p4 h6 p6 : Bool) :
    FreshViews → FreshViews → List NetIP → FreshViews × FreshViews
  | w4, w6, [] => (w4, w6)
  | w4, w6, ip :: ips =>
    match prefixKeyFromIP ip with
    | none => fill N h4 p4 h6 p6 w4 w6 ips
    | some key =>
      if key.family = 4 then fill N h4 p4 h6 p6 (w4.addIP N h4 p4 key ip) w6 ips
      else if key.family = 6 then fill N h4 p4 h6 p6 w4 (w6.addIP N h6 p6 key ip) ips
      else fill N h4 p4 h6 p6 w4 w6 ips

/-- The views of one family in `ipBucketViews`. A view is `nil` until a matcher needs it, and an
entry is `nil` once a matcher has taken it. -/
structure FamilyBucketViews where
  buckets : Option (GoMap PrefixKey (Option IPBucket)) := none
  precise : Option (GoMap Addr (Option NetIP)) := none

structure IPBucketViews where
  v4 : FamilyBucketViews := {}
  v6 : FamilyBucketViews := {}

def FamilyBucketViews.install (needHeur needPrec : Bool) (w : FreshViews)
    (v : FamilyBucketViews) : FamilyBucketViews where
  buckets := if needHeur then some (w.buckets.mapVals fun _ b => some b) else v.buckets
  precise := if needPrec then some (w.precise.mapVals fun _ ip => some ip) else v.precise

def IPBucketViews.ensureForMatcher (v : IPBucketViews) (m : HeuristicIPMatcher N)
    (ips : List NetIP) : IPBucketViews :=
  let needHeur4 := m.heur .v4 && v.v4.buckets.isNone
  let needHeur6 := m.heur .v6 && v.v6.buckets.isNone
  let needPrec4 := !m.heur .v4 && v.v4.precise.isNone
  let needPrec6 := !m.heur .v6 && v.v6.precise.isNone
  if !needHeur4 && !needHeur6 && !needPrec4 && !needPrec6 then v
  else
    let w := FreshViews.fill N needHeur4 needPrec4 needHeur6 needPrec6 {} {} ips
    ⟨v.v4.install needHeur4 needPrec4 w.1, v.v6.install needHeur6 needPrec6 w.2⟩

section Sweep

variable {K V : Type}

/-- A `range` over a view that takes the entries whose address is accepted: what it appends to
`matched`, and the view with these entries set to `nil`. -/
def sweepView (rep : K → V → Addr) (out : V → List NetIP) (accept : Addr → Bool)
    (order : List (Sigma fun _ : K => Option V) → List (Sigma fun _ : K => Option V))
    (view : GoMap K (Option V)) : List NetIP × GoMap K (Option V) :=
  ((order view.entries).flatMap fun e =>
      e.2.elim [] fun v => if accept (rep e.1 v) then out v else [],
    view.mapVals fun k v => v.filter fun v => !accept (rep k v))

/-- A `range` over a view that appends the entries that are left to `unmatched`. -/
def drainView (out : V → List NetIP)
    (order : List (Sigma fun _ : K => Option V) → List (Sigma fun _ : K => Option V))
    (view : Option (GoMap K (Option V))) : List NetIP :=
  view.elim [] fun view => (order view.entries).flatMap fun e => e.2.elim [] out

end Sweep

def FamilyBucketViews.sweep (ord : RangeOrder) (i : Nat) (heur : Bool)
    (m : HeuristicIPMatcher N) (w : FamilyBucketViews) : List NetIP × FamilyBucketViews :=
  if heur then
    let s := (w.buckets.map
      (sweepView (fun _ b => b.rep) (fun b => b.ips) m.matchAddr (ord.order i)))
    ((s.map Prod.fst).getD [], { w with buckets := s.map Prod.snd })
  else
    let s := (w.precise.map
      (sweepView (fun ipx _ => ipx) (fun ip => [ip]) m.matchAddr (ord.order i)))
    ((s.map Prod.fst).getD [], { w with precise := s.map Prod.snd })

namespace HeuristicMultiIPMatcher

def filterLoop (ord : RangeOrder) (ips : List NetIP) :
    Nat → List (HeuristicIPMatcher N) → IPBucketViews → List NetIP → List NetIP × IPBucketViews
  | _, [], views, matched => (matched, views)
  | i, m :: ms, views, matched =>
    let views := views.ensureForMatcher m ips
    let (out4, v4) := views.v4.sweep ord (2 * i) (m.heur .v4) m
    let (out6, v6) := views.v6.sweep ord (2 * i + 1) (m.heur .v6) m
    filterLoop ord ips (i + 1) ms ⟨v4, v6⟩ (matched ++ out4 ++ out6)

/-- `HeuristicMultiIPMatcher.FilterIPs`. `none` is a panic: `make` is asked for a capacity of
`n - len(matched)`, which must not be negative. -/
def filterIPs (mm : HeuristicMultiIPMatcher N) (ord : RangeOrder) (ips : List NetIP) :
    Option (List NetIP × List NetIP) :=
  match ips with
  | [] => some ([], [])
  | [ip] =>
    match N.fromStdIP ip with
    | none => some ([], [])
    | some ipx =>
      if mm.matchers.any fun m => m.matchAddr ipx then some ([ip], []) else some ([], [ip])
  | ips =>
    let (matched, views) := filterLoop ord ips 0 mm.matchers {} []
    let i := 2 * mm.matchers.length
    if ips.length < matched.length then none
    else
      some (matched,
        drainView (fun b => b.ips) (ord.order i) views.v4.buckets ++
          drainView (fun ip => [ip]) (ord.order (i + 1)) views.v4.precise ++
          drainView (fun b => b.ips) (ord.order (i + 2)) views.v6.buckets ++
          drainView (fun ip => [ip]) (ord.order (i + 3)) views.v6.precise)

end HeuristicMultiIPMatcher

/-!
## The views of `FilterIPs`

What the bucket view and the precise view of a list of IPs hold, and what the matcher loop of
`HeuristicMultiIPMatcher.FilterIPs` takes out of them and leaves in them, family by family.
-/

open List Option

/-! ### The bucket view of a list -/

/-- Whether an IP is legal and its address satisfies `q`. -/
def readsAs (N : Netipx) (q : Addr → Bool) (ip : NetIP) : Bool := (N.fromStdIP ip).any q

variable {ip : NetIP} {a : Addr}

lemma readsAs_of_fromStdIP (h : N.fromStdIP ip = some a)
    (q : Addr → Bool) : readsAs N q ip = q a := by
  simp [readsAs, h]

lemma readsAs_of_illegal (h : N.fromStdIP ip = none) (q : Addr → Bool) :
    readsAs N q ip = false := by
  simp [readsAs, h]

/-- What the loops do with a legal address that belongs into a bucket. -/
def putBucket (N : Netipx) (buckets : GoMap PrefixKey IPBucket) (ip : NetIP) :
    GoMap PrefixKey IPBucket :=
  ((prefixKeyFromIP ip).bind fun key => addToBucket N buckets key ip).elim buckets Prod.fst

def bucketsOf (N : Netipx) (ips : List NetIP) : GoMap PrefixKey IPBucket :=
  ips.foldl (putBucket N) ∅

/-- The bucket of the IPs of one key: its first address represents it. -/
def bucketAt (N : Netipx) : List NetIP → Option IPBucket
  | [] => none
  | ip :: ips => (N.fromStdIP ip).map fun ipx => ⟨ipx, ip :: ips⟩

def atKey (key : PrefixKey) (ips : List NetIP) : List NetIP :=
  ips.filter fun ip => prefixKeyFromIP ip = some key

lemma atKey_append (key : PrefixKey) (ips ips' : List NetIP) :
    atKey key (ips ++ ips') = atKey key ips ++ atKey key ips' :=
  filter_append ..

variable {b : IPBucket} {ips : List NetIP} {f : Family}

lemma bucketAt_append (h : bucketAt N ips = some b)
    (ip : NetIP) : bucketAt N (ips ++ [ip]) = some { b with ips := b.ips ++ [ip] } := by
  cases ips with
  | nil => cases h
  | cons ip' ips =>
    simp only [bucketAt, map_eq_some_iff] at h
    obtain ⟨a, ha, rfl⟩ := h
    simp [bucketAt, ha]

variable {key : PrefixKey}

lemma atKey_eq_nil_of_bucketAt (h : bucketAt N (atKey key ips) = none) : atKey key ips = [] := by
  cases hips : atKey key ips with
  | nil => rfl
  | cons ip rest =>
    have hkey : prefixKeyFromIP ip = some key := by
      have hmem : ip ∈ atKey key ips := hips ▸ mem_cons_self
      simpa using (mem_filter.mp hmem).2
    rw [hips, bucketAt, map_eq_none_iff] at h
    rw [prefixKeyFromIP_of_illegal h] at hkey
    cases hkey

lemma lookup_bucketsOf (N : Netipx) (ips : List NetIP) (key : PrefixKey) :
    (bucketsOf N ips).lookup key = bucketAt N (atKey key ips) := by
  induction ips using reverseRecOn generalizing key with
  | nil => rfl
  | append_singleton ips ip ih =>
    have hfold : bucketsOf N (ips ++ [ip]) = putBucket N (bucketsOf N ips) ip := by
      simp [bucketsOf]
    rw [hfold, atKey_append]
    cases ha : N.fromStdIP ip with
    | none =>
      have hkey := prefixKeyFromIP_of_illegal ha
      have hlast : atKey key [ip] = [] := by simp [atKey, hkey]
      rw [hlast, append_nil, ← ih]
      simp [putBucket, hkey]
    | some a =>
      have hkey := prefixKeyFromIP_of_fromStdIP ha
      have hput : putBucket N (bucketsOf N ips) ip = (bucketsOf N ips).insert a.key
          (((bucketsOf N ips).lookup a.key).elim ⟨a, [ip]⟩ fun b =>
            { b with ips := b.ips ++ [ip] }) := by
        cases hb : (bucketsOf N ips).lookup a.key <;> simp [putBucket, addToBucket, hkey, hb, ha]
      rw [hput, lookup_insert_eq]
      split_ifs with hk
      · subst hk
        have hlast : atKey a.key [ip] = [ip] := by simp [atKey, hkey]
        rw [hlast]
        cases hb : (bucketsOf N ips).lookup a.key with
        | some b => rw [elim_some, bucketAt_append (ih _ ▸ hb)]
        | none =>
          rw [atKey_eq_nil_of_bucketAt (ih _ ▸ hb)]
          simp [bucketAt, ha]
      · have hlast : atKey key [ip] = [] := by simp [atKey, hkey, Ne.symm hk]
        rw [hlast, append_nil, ih]

lemma mem_of_lookup_bucketsOf (h : (bucketsOf N ips).lookup key = some b) :
    b.ips = atKey key ips ∧ ∃ ip ∈ ips, N.fromStdIP ip = some b.rep ∧ b.rep.key = key := by
  rw [lookup_bucketsOf] at h
  cases hips : atKey key ips with
  | nil =>
    rw [hips] at h
    cases h
  | cons ip rest =>
    rw [hips, bucketAt, map_eq_some_iff] at h
    obtain ⟨a, ha, rfl⟩ := h
    have hmem : ip ∈ atKey key ips := hips ▸ mem_cons_self
    obtain ⟨hip, hkey⟩ := mem_filter.mp hmem
    rw [decide_eq_true_eq, prefixKeyFromIP_of_fromStdIP ha] at hkey
    exact ⟨rfl, ip, hip, ha, Option.some.inj hkey⟩

/-- `q` gives one answer to all addresses of a bucket. -/
def KeyUniform (N : Netipx) (ips : List NetIP) (q : Addr → Bool) : Prop :=
  ∀ ip ∈ ips, ∀ ip' ∈ ips, ∀ a b, N.fromStdIP ip = some a → N.fromStdIP ip' = some b →
    a.key = b.key → q a = q b

lemma KeyUniform.not {q : Addr → Bool} (h : KeyUniform N ips q) : KeyUniform N ips fun a => !q a :=
  fun ip hip ip' hip' a b ha hb hkey => congrArg _ (h ip hip ip' hip' a b ha hb hkey)

lemma mem_of_mem_bucket
    (h : (bucketsOf N ips).lookup key = some b) (hip : ip ∈ b.ips) :
    ip ∈ ips ∧ prefixKeyFromIP ip = some key := by
  rw [(mem_of_lookup_bucketsOf h).1] at hip
  simpa using mem_filter.mp hip

/-- Taking the buckets whose representative satisfies a predicate takes the IPs that do. -/
lemma bucketsOf_flatMap_perm {q : Addr → Bool} (hq : KeyUniform N ips q) :
    ((bucketsOf N ips).entries.flatMap fun e => if q e.2.rep then e.2.ips else []).Perm
      (ips.filter (readsAs N q)) := by
  rw [perm_iff_count]
  intro ip
  rw [count_flatMap_entries (bucketsOf N ips)
    (fun _ b => if q b.rep then b.ips else []) (fun ip => (prefixKeyFromIP ip).getD [])]
  · by_cases hleg : ip ∈ ips ∧ ∃ a, N.fromStdIP ip = some a
    · obtain ⟨hmem, a, ha⟩ := hleg
      have hkey := prefixKeyFromIP_of_fromStdIP ha
      have hat : ip ∈ atKey a.key ips := mem_filter.mpr ⟨hmem, by simp [hkey]⟩
      rw [hkey, getD_some]
      cases hb : (bucketsOf N ips).lookup a.key with
      | none =>
        have hnil := atKey_eq_nil_of_bucketAt (lookup_bucketsOf N ips _ ▸ hb)
        rw [hnil] at hat
        cases hat
      | some b =>
        obtain ⟨hips, ip', hip', hrep, hrkey⟩ := mem_of_lookup_bucketsOf hb
        have hqa : q b.rep = q a := hq ip' hip' ip hmem b.rep a hrep ha hrkey
        simp only [elim_some, hqa, hips]
        cases hacc : q a with
        | true =>
          rw [if_pos rfl, atKey, count_filter (by simp [hkey]),
            count_filter (by rw [readsAs_of_fromStdIP ha, hacc])]
        | false =>
          have hnot : ip ∉ ips.filter (readsAs N q) := by
            simp [readsAs_of_fromStdIP ha, hacc]
          simp [count_eq_zero.mpr hnot]
    · -- neither side holds an IP that is illegal or not in the list
      have hright : ip ∉ ips.filter (readsAs N q) := by
        intro hmem
        obtain ⟨hmem, hread⟩ := mem_filter.mp hmem
        cases ha : N.fromStdIP ip with
        | none => simp [readsAs_of_illegal ha] at hread
        | some a => exact hleg ⟨hmem, a, ha⟩
      rw [count_eq_zero.mpr hright, count_eq_zero]
      intro hin
      cases hb : (bucketsOf N ips).lookup ((prefixKeyFromIP ip).getD []) with
      | none => simp [hb] at hin
      | some b =>
        rw [hb, elim_some, mem_ite_nil_right] at hin
        obtain ⟨hmem, hkey⟩ := mem_of_mem_bucket hb hin.2
        cases ha : N.fromStdIP ip with
        | none => simp [prefixKeyFromIP_of_illegal ha] at hkey
        | some a => exact hleg ⟨hmem, a, ha⟩
  · intro key b hb ip hip
    rw [mem_ite_nil_right] at hip
    simp [(mem_of_mem_bucket hb hip.2).2]

/-- What `ensureForMatcher` does with a legal address of a precise view. -/
def putPrecise (N : Netipx) (precise : GoMap Addr NetIP) (ip : NetIP) : GoMap Addr NetIP :=
  (N.fromStdIP ip).elim precise fun ipx => precise.insert ipx ip

/-- The precise view of a list of IPs: the last IP of each address. -/
def preciseOf (N : Netipx) (ips : List NetIP) : GoMap Addr NetIP := ips.foldl (putPrecise N) ∅

def preciseIPs (N : Netipx) (ips : List NetIP) : List NetIP :=
  (preciseOf N ips).entries.map fun e => e.2

lemma preciseOf_append_singleton (N : Netipx) (ips : List NetIP) (ip : NetIP) :
    preciseOf N (ips ++ [ip]) = putPrecise N (preciseOf N ips) ip := by
  simp [preciseOf]

lemma of_lookup_preciseOf
    (h : (preciseOf N ips).lookup a = some ip) : ip ∈ ips ∧ N.fromStdIP ip = some a := by
  induction ips using reverseRecOn with
  | nil => cases h
  | append_singleton ips ip' ih =>
    rw [preciseOf_append_singleton, putPrecise] at h
    cases ha : N.fromStdIP ip' with
    | none =>
      rw [ha] at h
      exact ⟨mem_append_left _ (ih h).1, (ih h).2⟩
    | some b =>
      rw [ha, elim_some, lookup_insert_eq] at h
      split_ifs at h with hab
      · cases h
        exact ⟨by simp, by rw [ha, hab]⟩
      · exact ⟨mem_append_left _ (ih h).1, (ih h).2⟩

lemma mem_preciseOf_iff (N : Netipx) (ips : List NetIP) (a : Addr) :
    a ∈ preciseOf N ips ↔ a ∈ ips.filterMap N.fromStdIP := by
  induction ips using reverseRecOn with
  | nil => simp [preciseOf]
  | append_singleton ips ip ih =>
    rw [preciseOf_append_singleton, putPrecise, filterMap_append]
    cases ha : N.fromStdIP ip with
    | none => simp [ih, ha]
    | some b => simp [ih, ha, or_comm]

lemma fromStdIP_of_mem_preciseOf {e : Sigma fun _ : Addr => NetIP}
    (he : e ∈ (preciseOf N ips).entries) : N.fromStdIP e.2 = some e.1 :=
  (of_lookup_preciseOf (lookup_eq_some_iff.mpr he)).2

lemma mem_of_mem_preciseIPs (h : ip ∈ preciseIPs N ips) : ip ∈ ips := by
  obtain ⟨e, he, rfl⟩ := List.mem_map.mp h
  exact (of_lookup_preciseOf (lookup_eq_some_iff.mpr he)).1

lemma length_preciseIPs (N : Netipx) (ips : List NetIP) :
    (preciseIPs N ips).length = (ips.filterMap N.fromStdIP).dedup.length := by
  have hperm : (preciseOf N ips).keys.Perm (ips.filterMap N.fromStdIP).dedup := by
    rw [perm_ext_iff_of_nodup (preciseOf N ips).keys_nodup (nodup_dedup _)]
    intro a
    rw [mem_dedup, ← mem_preciseOf_iff, AList.mem_keys]
  rw [← hperm.length_eq, preciseIPs, AList.keys, List.keys, length_map, length_map]

lemma nodup_preciseIPs (N : Netipx) (ips : List NetIP) : (preciseIPs N ips).Nodup := by
  have hinj : ∀ e ∈ (preciseOf N ips).entries, ∀ e' ∈ (preciseOf N ips).entries,
      e.2 = e'.2 → e = e' := by
    rintro ⟨a, ip⟩ he ⟨a', ip'⟩ he' rfl
    have haa : some a = some a' :=
      (fromStdIP_of_mem_preciseOf he).symm.trans (fromStdIP_of_mem_preciseOf he')
    cases haa
    rfl
  exact Nodup.map_on hinj (NodupKeys.nodup (preciseOf N ips).nodupKeys)

/-- Without repeated addresses the precise view holds the whole list. -/
lemma preciseIPs_perm (hlegal : ∀ ip ∈ ips, N.fromStdIP ip ≠ none)
    (hnd : (ips.filterMap N.fromStdIP).Nodup) : (preciseIPs N ips).Perm ips := by
  have hlen : ips.length ≤ (preciseIPs N ips).length := by
    rw [length_preciseIPs, hnd.dedup, length_filterMap_eq_countP]
    apply le_of_eq
    rw [eq_comm, countP_eq_length]
    exact fun ip hip => isSome_iff_ne_none.mpr (hlegal ip hip)
  exact (subperm_of_subset (nodup_preciseIPs N ips)
    fun ip => mem_of_mem_preciseIPs).perm_of_length_le hlen

section Sweep

variable {K V : Type} (base : GoMap K V) (rep : K → V → Addr) (out : V → List NetIP)
  {order : List (Sigma fun _ : K => Option V) → List (Sigma fun _ : K => Option V)}

/-- A view from which the entries with a taken address are gone. -/
def viewLeft (taken : Addr → Bool) : GoMap K (Option V) :=
  base.mapVals fun k v => if taken (rep k v) then none else some v

def viewHits (q : Addr → Bool) : Multiset NetIP :=
  (base.entries.flatMap fun e => if q (rep e.1 e.2) then out e.2 else [] : List NetIP)

lemma viewLeft_false : viewLeft base rep (fun _ => false) = base.mapVals fun _ v => some v := by
  simp [viewLeft]

lemma viewHits_false : viewHits base rep out (fun _ => false) = 0 := by
  simp [viewHits]

/-- A sweep takes exactly the entries that are accepted and were still there. -/
lemma sweepView_snd (taken accept : Addr → Bool) :
    (sweepView rep out accept order (viewLeft base rep taken)).2 =
      viewLeft base rep fun a => taken a || accept a := by
  apply AList.ext
  simp only [sweepView, viewLeft, entries_mapVals, List.map_map]
  apply map_congr_left
  rintro ⟨k, v⟩ _
  by_cases ht : taken (rep k v) = true <;> by_cases ha : accept (rep k v) = true <;> simp [ht, ha]

lemma viewHits_add (q q' : Addr → Bool) (hdisj : ∀ a, q a = true → q' a = false) :
    viewHits base rep out q + viewHits base rep out q' =
      viewHits base rep out fun a => q a || q' a := by
  simp only [viewHits, Multiset.coe_add, Multiset.coe_eq_coe]
  refine (Perm.trans (flatMap_append_perm _ _ _) ?_)
  apply Perm.of_eq
  apply flatMap_congr
  rintro ⟨k, v⟩ _
  by_cases hq : q (rep k v) = true
  · simp [hdisj _ hq]
  · simp [hq]

section Order

variable (horder : ∀ l, (order l).Perm l)
include horder

lemma coe_sweepView_fst (taken accept : Addr → Bool) :
    ((sweepView rep out accept order (viewLeft base rep taken)).1 : Multiset NetIP) =
      viewHits base rep out fun a => !taken a && accept a := by
  rw [viewHits, Multiset.coe_eq_coe]
  refine ((horder _).flatMap_right _).trans (Perm.of_eq ?_)
  simp only [viewLeft, entries_mapVals, flatMap_map]
  apply flatMap_congr
  rintro ⟨k, v⟩ _
  cases taken (rep k v) <;> simp

lemma sweepView_fst (taken accept : Addr → Bool) :
    ((sweepView rep out accept order (viewLeft base rep taken)).1 : Multiset NetIP) +
        viewHits base rep out taken = viewHits base rep out fun a => taken a || accept a := by
  rw [coe_sweepView_fst base rep out horder, add_comm, viewHits_add]
  · congr 1
    funext a
    cases taken a <;> simp
  · intro a ha
    simp [ha]

/-- What is left is what a sweep takes that accepts everything. -/
lemma drainView_viewLeft (taken : Addr → Bool) :
    (drainView out order (some (viewLeft base rep taken)) : Multiset NetIP) =
      viewHits base rep out fun a => !taken a := by
  simpa [sweepView, drainView] using coe_sweepView_fst base rep out horder taken fun _ => true

end Order

end Sweep

/-! ### Filling the views -/

def familyIPs (N : Netipx) (f : Family) (ips : List NetIP) : List NetIP :=
  ips.filter (readsAs N fun a => a.family = f)

lemma mem_familyIPs_iff :
    ip ∈ familyIPs N f ips ↔ ip ∈ ips ∧ ∃ a, N.fromStdIP ip = some a ∧ a.family = f := by
  simp [familyIPs, readsAs, Option.any_eq_true]

/-- A legal address gets into its bucket; where it was read for that, it is `a`. -/
lemma addToBucket_eq (ha : N.fromStdIP ip = some a) (buckets : GoMap PrefixKey IPBucket) :
    ∃ ipx, addToBucket N buckets a.key ip = some (putBucket N buckets ip, ipx) ∧
      ipx.getD a = a := by
  have hkey := prefixKeyFromIP_of_fromStdIP ha
  cases hb : buckets.lookup a.key with
  | some b => exact ⟨none, by simp [putBucket, addToBucket, hkey, hb], rfl⟩
  | none => exact ⟨some a, by simp [putBucket, addToBucket, hkey, hb, ha], rfl⟩

/-- Filling the two maps of a family puts a legal address into those that are needed. -/
lemma FreshViews.addIP_of_fromStdIP (needHeur needPrec : Bool) (w : FreshViews)
    (ha : N.fromStdIP ip = some a) :
    w.addIP N needHeur needPrec a.key ip =
      { buckets := if needHeur then putBucket N w.buckets ip else w.buckets
        precise := if needPrec then putPrecise N w.precise ip else w.precise } := by
  obtain ⟨ipx, hadd, hx⟩ := addToBucket_eq ha w.buckets
  cases needHeur <;> cases needPrec <;> simp [addIP, hadd, hx, ha, putPrecise]

/-- The maps of a family after the IPs of a list were put into those that are needed. -/
def FreshViews.addAll (N : Netipx) (needHeur needPrec : Bool) (w : FreshViews)
    (ips : List NetIP) : FreshViews where
  buckets := if needHeur then ips.foldl (putBucket N) w.buckets else w.buckets
  precise := if needPrec then ips.foldl (putPrecise N) w.precise else w.precise

lemma FreshViews.addAll_cons (needHeur needPrec : Bool) (w : FreshViews)
    (ha : N.fromStdIP ip = some a) (ips : List NetIP) :
    w.addAll N needHeur needPrec (ip :: ips) =
      (w.addIP N needHeur needPrec a.key ip).addAll N needHeur needPrec ips := by
  rw [addIP_of_fromStdIP needHeur needPrec w ha]
  cases needHeur <;> cases needPrec <;> rfl

lemma FreshViews.fill_eq (N : Netipx) (h4 p4 h6 p6 : Bool) (w4 w6 : FreshViews) (ips : List NetIP) :
    FreshViews.fill N h4 p4 h6 p6 w4 w6 ips =
      (w4.addAll N h4 p4 (familyIPs N .v4 ips), w6.addAll N h6 p6 (familyIPs N .v6 ips)) := by
  induction ips generalizing w4 w6 with
  | nil => cases h4 <;> cases p4 <;> cases h6 <;> cases p6 <;> rfl
  | cons ip ips ih =>
    cases ha : N.fromStdIP ip with
    | none => simp [fill, prefixKeyFromIP_of_illegal ha, ih, familyIPs, readsAs_of_illegal ha]
    | some a =>
      simp only [fill, prefixKeyFromIP_of_fromStdIP ha, Addr.key_family_eq_four_iff,
        Addr.key_family_eq_six_iff, ih]
      cases hf : a.family with
      | v4 => simp [familyIPs, readsAs_of_fromStdIP ha, hf, addAll_cons _ _ w4 ha]
      | v6 => simp [familyIPs, readsAs_of_fromStdIP ha, hf, addAll_cons _ _ w6 ha]

def FamilyBucketViews.ensured (N : Netipx) (heur : Bool) (ips : List NetIP)
    (w : FamilyBucketViews) : FamilyBucketViews where
  buckets :=
    if heur && w.buckets.isNone then some ((bucketsOf N ips).mapVals fun _ b => some b)
    else w.buckets
  precise :=
    if !heur && w.precise.isNone then some ((preciseOf N ips).mapVals fun _ ip => some ip)
    else w.precise

lemma FamilyBucketViews.install_addAll (heur : Bool) (ips : List NetIP) (w : FamilyBucketViews) :
    w.install (heur && w.buckets.isNone) (!heur && w.precise.isNone)
        (FreshViews.addAll N (heur && w.buckets.isNone) (!heur && w.precise.isNone) {} ips) =
      w.ensured N heur ips := by
  cases hb : heur && w.buckets.isNone <;> cases hp : !heur && w.precise.isNone <;>
    simp [install, ensured, FreshViews.addAll, hb, hp, bucketsOf, preciseOf]

lemma IPBucketViews.ensureForMatcher_eq (v : IPBucketViews) (m : HeuristicIPMatcher N)
    (ips : List NetIP) :
    v.ensureForMatcher m ips =
      ⟨v.v4.ensured N (m.heur .v4) (familyIPs N .v4 ips),
        v.v6.ensured N (m.heur .v6) (familyIPs N .v6 ips)⟩ := by
  unfold ensureForMatcher
  dsimp only
  split_ifs with hneed
  · simp only [Bool.and_eq_true, Bool.not_eq_true'] at hneed
    obtain ⟨⟨⟨hh4, hh6⟩, hp4⟩, hp6⟩ := hneed
    simp [FamilyBucketViews.ensured, hh4, hh6, hp4, hp6]
  · simp only [FreshViews.fill_eq, FamilyBucketViews.install_addAll]

/-! ### The views over the matcher loop -/

section Family

variable (f : Family) (ips : List NetIP)

def usesView (h : Bool) (ms : List (HeuristicIPMatcher N)) : Bool := ms.any fun m => m.heur f = h

/-- Some matcher of the list that works on the view of the given kind accepts the address. -/
def acceptsVia (h : Bool) (ms : List (HeuristicIPMatcher N)) (a : Addr) : Bool :=
  ms.any fun m => m.heur f = h ∧ m.matchAddr a = true

lemma acceptsVia_eq_false {f : Family} {h : Bool} {ms : List (HeuristicIPMatcher N)}
    (hu : usesView f h ms = false) : acceptsVia f h ms = fun _ => false := by
  funext a
  simp only [usesView, List.any_eq_false, decide_eq_true_eq] at hu
  simp only [acceptsVia, List.any_eq_false, decide_eq_true_eq]
  exact fun m hm hacc => hu m hm hacc.1

/-- The views of a family after some matchers: one that was used holds what no matcher took. -/
structure FamilyBucketViews.Swept (ms : List (HeuristicIPMatcher N)) (w : FamilyBucketViews) :
    Prop where
  buckets : w.buckets =
    if usesView f true ms then
      some (viewLeft (bucketsOf N ips) (fun _ b => b.rep) (acceptsVia f true ms))
    else none
  precise : w.precise =
    if usesView f false ms then
      some (viewLeft (preciseOf N ips) (fun a _ => a) (acceptsVia f false ms))
    else none

/-- The IPs of a family that some matchers took out of their views. -/
def takenIPs (ms : List (HeuristicIPMatcher N)) : Multiset NetIP :=
  viewHits (bucketsOf N ips) (fun _ b => b.rep) (fun b => b.ips) (acceptsVia f true ms) +
    viewHits (preciseOf N ips) (fun a _ => a) (fun ip => [ip]) (acceptsVia f false ms)

/-- The IPs of a family that are left in the views that were used. -/
def restIPs (ms : List (HeuristicIPMatcher N)) : Multiset NetIP :=
  (if usesView f true ms then
    viewHits (bucketsOf N ips) (fun _ b => b.rep) (fun b => b.ips) fun a => !acceptsVia f true ms a
  else 0) +
    if usesView f false ms then
      viewHits (preciseOf N ips) (fun a _ => a) (fun ip => [ip]) fun a => !acceptsVia f false ms a
    else 0

end Family

variable {ms : List (HeuristicIPMatcher N)}

/-- The view a matcher works on is there when it sweeps it. -/
lemma ensured_view {K V : Type} {base : GoMap K V} {rep : K → V → Addr} {h : Bool}
    {view : Option (GoMap K (Option V))}
    (hview : view =
      if usesView f h ms then some (viewLeft base rep (acceptsVia f h ms)) else none) :
    (if view.isNone then some (base.mapVals fun _ v => some v) else view) =
      some (viewLeft base rep (acceptsVia f h ms)) := by
  cases hu : usesView f h ms with
  | true => simp [hview, hu]
  | false => simp [hview, acceptsVia_eq_false hu, viewLeft_false]

lemma usesView_append_self (ms : List (HeuristicIPMatcher N))
    (m : HeuristicIPMatcher N) : usesView f (m.heur f) (ms ++ [m]) = true := by
  simp [usesView]

variable {m : HeuristicIPMatcher N}

lemma usesView_append_other {h : Bool} (ms : List (HeuristicIPMatcher N)) (hm : m.heur f ≠ h) :
    usesView f h (ms ++ [m]) = usesView f h ms := by
  simp [usesView, hm]

lemma acceptsVia_append_self (ms : List (HeuristicIPMatcher N)) (m : HeuristicIPMatcher N) :
    acceptsVia f (m.heur f) (ms ++ [m]) =
      fun a => acceptsVia f (m.heur f) ms a || m.matchAddr a := by
  funext a
  simp [acceptsVia]

lemma acceptsVia_append_other {h : Bool} (ms : List (HeuristicIPMatcher N)) (hm : m.heur f ≠ h) :
    acceptsVia f h (ms ++ [m]) = acceptsVia f h ms := by
  funext a
  simp [acceptsVia, hm]

variable {w : FamilyBucketViews}

lemma FamilyBucketViews.Swept.step (hw : w.Swept f ips ms)
    (ord : RangeOrder) (i : Nat) (m : HeuristicIPMatcher N) :
    ((w.ensured N (m.heur f) ips).sweep ord i (m.heur f) m).2.Swept f ips (ms ++ [m]) ∧
      (((w.ensured N (m.heur f) ips).sweep ord i (m.heur f) m).1 : Multiset NetIP) +
        takenIPs f ips ms = takenIPs f ips (ms ++ [m]) := by
  have huse := usesView_append_self (f := f) ms m
  have hacc := acceptsVia_append_self (f := f) ms m
  cases hm : m.heur f with
  | true =>
    have hother : m.heur f ≠ false := by simp [hm]
    rw [hm] at huse hacc
    have hview := ensured_view hw.buckets
    simp only [sweep, ensured, if_true, Bool.true_and, hview, map_some, getD_some]
    refine ⟨⟨?_, ?_⟩, ?_⟩
    · rw [huse, hacc, sweepView_snd]
      rfl
    · rw [usesView_append_other ms hother, acceptsVia_append_other ms hother]
      exact hw.precise
    · rw [takenIPs, takenIPs, ← add_assoc, sweepView_fst _ _ _ (ord.perm i), hacc,
        acceptsVia_append_other ms hother]
  | false =>
    have hother : m.heur f ≠ true := by simp [hm]
    rw [hm] at huse hacc
    have hview := ensured_view hw.precise
    simp only [sweep, ensured, Bool.not_false, Bool.true_and, Bool.false_eq_true, if_false, hview,
      map_some, getD_some]
    refine ⟨⟨?_, ?_⟩, ?_⟩
    · rw [usesView_append_other ms hother, acceptsVia_append_other ms hother]
      exact hw.buckets
    · rw [huse, hacc, sweepView_snd]
      rfl
    · rw [takenIPs, takenIPs, add_left_comm, sweepView_fst _ _ _ (ord.perm i), hacc,
        acceptsVia_append_other ms hother]

lemma FamilyBucketViews.swept_nil (N : Netipx) (f : Family) (ips : List NetIP) :
    FamilyBucketViews.Swept (N := N) f ips [] {} :=
  ⟨rfl, rfl⟩

lemma takenIPs_nil (N : Netipx) (f : Family) (ips : List NetIP) :
    takenIPs (N := N) f ips [] = 0 := by
  have hnone : ∀ h, usesView f h ([] : List (HeuristicIPMatcher N)) = false := fun _ => rfl
  simp only [takenIPs, acceptsVia_eq_false (hnone _), viewHits_false, add_zero]

lemma FamilyBucketViews.Swept.drain (hw : w.Swept f ips ms) (ord : RangeOrder) (i j : Nat) :
    (drainView (fun b => b.ips) (ord.order i) w.buckets : Multiset NetIP) +
        drainView (fun ip => [ip]) (ord.order j) w.precise = restIPs f ips ms := by
  rw [hw.buckets, hw.precise]
  congr 1
  · split_ifs
    · exact drainView_viewLeft _ _ _ (ord.perm i) _
    · rfl
  · split_ifs
    · exact drainView_viewLeft _ _ _ (ord.perm j) _
    · rfl

end BypassCore
