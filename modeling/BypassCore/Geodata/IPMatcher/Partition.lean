import BypassCore.Geodata.IPMatcher.Filter
import Mathlib.Tactic.Abel

/-!
# When `FilterIPs` is a partition

One matcher always splits the legal IPs of a list into those it matches and the others. A list of
matchers does so as long as all matchers that meet an IP of a family work on the same view of it.
-/

namespace BypassCore

open Lib List Multiset HeuristicMultiIPMatcher

variable {N : Netipx}

/-- `matched` holds exactly the accepted occurrences and `unmatched` exactly the other well-formed
ones. -/
def IsPartition (ips : List NetIP) (accept : NetIP → Bool) (r : List NetIP × List NetIP) : Prop :=
  r.1.Perm (ips.filter accept) ∧
    r.2.Perm (ips.filter fun ip => ip.WellFormed ∧ accept ip = false)

instance (ips : List NetIP) (accept : NetIP → Bool) (r : List NetIP × List NetIP) :
    Decidable (IsPartition ips accept r) :=
  inferInstanceAs (Decidable (_ ∧ _))

/-- A partition in terms of what the addresses of the IPs satisfy. -/
lemma isPartition_readsAs_iff {ips : List NetIP} {q : Addr → Bool} {r : List NetIP × List NetIP} :
    IsPartition ips (readsAs N q) r ↔
      r.1.Perm (ips.filter (readsAs N q)) ∧ r.2.Perm (ips.filter (readsAs N fun a => !q a)) := by
  have hrest : ips.filter (fun ip => ip.WellFormed ∧ readsAs N q ip = false) =
      ips.filter (readsAs N fun a => !q a) := by
    apply List.filter_congr
    intro ip _
    cases ha : N.fromStdIP ip with
    | none =>
      have hw : ¬ ip.WellFormed := by simp [← N.fromStdIP_isSome, ha]
      simp [hw, readsAs_of_illegal ha]
    | some a =>
      have hw : ip.WellFormed := by simp [← N.fromStdIP_isSome, ha]
      simp [hw, readsAs_of_fromStdIP ha]
  rw [IsPartition, hrest]

variable (ips : List NetIP)

/-- The legal IPs whose address satisfies `q` are those that also satisfy `p` and the others. -/
lemma filter_readsAs_append_perm (p q : Addr → Bool) :
    ((ips.filter (readsAs N p)).filter (readsAs N q) ++
        (ips.filter (readsAs N fun a => !p a)).filter (readsAs N q)).Perm
      (ips.filter (readsAs N q)) := by
  have hright : (ips.filter (readsAs N fun a => !p a)).filter (readsAs N q) =
      (ips.filter (readsAs N q)).filter fun ip => !readsAs N p ip := by
    rw [List.filter_filter, List.filter_filter]
    apply List.filter_congr
    intro ip _
    cases ha : N.fromStdIP ip with
    | none => simp [readsAs_of_illegal ha]
    | some a => simp [readsAs_of_fromStdIP ha, Bool.and_comm]
  rw [List.filter_comm, hright]
  exact filter_append_perm _ _

namespace HeuristicIPMatcher

variable (m : HeuristicIPMatcher N)

lemma matchIP_eq_readsAs : m.matchIP = readsAs N m.matchAddr :=
  funext fun ip => (m.any_matchAddr_eq_matchIP ip).symm

lemma filterCollect_eq (buckets : GoMap PrefixKey IPBucket) (precise ips : List NetIP) :
    m.filterCollect buckets precise ips =
      ((ips.filter (readsAs N fun a => m.heur a.family)).foldl (putBucket N) buckets,
        precise ++ ips.filter (readsAs N fun a => !m.heur a.family)) := by
  induction ips generalizing buckets precise with
  | nil => simp [filterCollect]
  | cons ip ips ih =>
    cases ha : N.fromStdIP ip with
    | none => simp [filterCollect, prefixKeyFromIP_of_illegal ha, readsAs_of_illegal ha, ih]
    | some a =>
      have hsplit : ((a.key.family = 4 ∧ m.heur .v4 = false) ∨
          (a.key.family = 6 ∧ m.heur .v6 = false)) ↔ m.heur a.family = false := by
        rw [Addr.key_family_eq_four_iff, Addr.key_family_eq_six_iff]
        cases a.family <;> simp
      simp only [filterCollect, prefixKeyFromIP_of_fromStdIP ha, hsplit]
      cases hh : m.heur a.family with
      | false => simp [readsAs_of_fromStdIP ha, hh, ih]
      | true =>
        obtain ⟨ipx, hadd, -⟩ := addToBucket_eq ha buckets
        simp [readsAs_of_fromStdIP ha, hh, ih, hadd]

/-- Where a family is decided by bucket, so are the answers of the matcher. -/
lemma keyUniform_matchAddr (ips : List NetIP) :
    KeyUniform N (ips.filter (readsAs N fun a => m.heur a.family)) m.matchAddr := by
  intro ip hip _ _ a b ha _ hkey
  have hheur : m.heur a.family = true := by
    simpa [readsAs_of_fromStdIP ha] using (List.mem_filter.mp hip).2
  exact m.matchAddr_eq_of_key_eq hkey (by rw [m.heurKey_key, hheur])

/-- `FilterIPs` of one matcher splits the legal IPs by `Match`. -/
theorem filterIPs_isPartition (ord : RangeOrder) (ips : List NetIP) :
    IsPartition ips m.matchIP (m.filterIPs ord ips) := by
  rw [matchIP_eq_readsAs, isPartition_readsAs_iff]
  unfold filterIPs
  split
  · simp
  · next ip =>
    cases ha : N.fromStdIP ip with
    | none => simp [readsAs_of_illegal ha]
    | some a => cases hm : m.matchAddr a <;> simp [readsAs_of_fromStdIP ha, hm]
  · split_ifs with hheur
    · exact ⟨Perm.refl _, Perm.refl _⟩
    · rw [filterCollect_eq]
      have huniform := m.keyUniform_matchAddr ips
      constructor
      · refine Perm.trans (Perm.append_right _ ?_) (filter_readsAs_append_perm ips _ _)
        exact ((ord.perm 0 _).flatMap_right _).trans (bucketsOf_flatMap_perm huniform)
      · refine Perm.trans (Perm.append_right _ ?_) (filter_readsAs_append_perm ips _ _)
        refine ((ord.perm 0 _).flatMap_right _).trans (Perm.trans ?_
          (bucketsOf_flatMap_perm huniform.not))
        apply Perm.of_eq
        apply flatMap_congr
        rintro ⟨_, b⟩ _
        cases m.matchAddr b.rep <;> simp

end HeuristicIPMatcher

/-! ### A list of matchers -/

/-- The bucket view of a family loses nothing: what is taken by bucket is what is accepted. -/
lemma viewHits_bucketsOf {ips : List NetIP} {q : Addr → Bool} (hq : KeyUniform N ips q) :
    viewHits (bucketsOf N ips) (fun _ b => b.rep) (fun b => b.ips) q =
      (ips.filter (readsAs N q) : List NetIP) := by
  rw [viewHits, coe_eq_coe]
  exact bucketsOf_flatMap_perm hq

lemma viewHits_preciseOf (q : Addr → Bool) :
    viewHits (preciseOf N ips) (fun a _ => a) (fun ip => [ip]) q =
      ((preciseIPs N ips).filter (readsAs N q) : List NetIP) := by
  have hread : ∀ e ∈ (preciseOf N ips).entries, readsAs N q e.2 = q e.1 :=
    fun e he => readsAs_of_fromStdIP (fromStdIP_of_mem_preciseOf he) q
  rw [viewHits, coe_eq_coe, preciseIPs]
  generalize (preciseOf N ips).entries = l at hread
  induction l with
  | nil => rfl
  | cons e l ih =>
    have ih' := ih fun e' he' => hread e' (List.mem_cons_of_mem _ he')
    have he := hread e List.mem_cons_self
    cases hq : q e.1 <;> rw [hq] at he <;> simp [ih', hq, he]

lemma keyUniform_acceptsVia (f : Family) (ms : List (HeuristicIPMatcher N)) (ips : List NetIP) :
    KeyUniform N (familyIPs N f ips) (acceptsVia f true ms) := by
  intro ip hip _ _ a b ha _ hkey
  obtain ⟨_, a', ha', hf⟩ := mem_familyIPs_iff.mp hip
  rw [ha] at ha'
  cases ha'
  have hone : ∀ m : HeuristicIPMatcher N, (m.heur f = true ∧ m.matchAddr a = true) ↔
      (m.heur f = true ∧ m.matchAddr b = true) := by
    intro m
    refine and_congr_right fun hheur => ?_
    rw [m.matchAddr_eq_of_key_eq hkey (by rw [m.heurKey_key, hf, hheur])]
  simp only [acceptsVia, hone]

/-- Taken or left, a view that was used gives back all of its entries. -/
lemma viewHits_add_compl {K V : Type} (base : GoMap K V) (rep : K → V → Addr)
    (out : V → List NetIP) {f : Family} {h : Bool} (ms : List (HeuristicIPMatcher N)) :
    viewHits base rep out (acceptsVia f h ms) +
        (if usesView f h ms then viewHits base rep out fun a => !acceptsVia f h ms a else 0) =
      if usesView f h ms then viewHits base rep out fun _ => true else 0 := by
  cases hu : usesView f h ms with
  | false => simp [acceptsVia_eq_false hu, viewHits_false]
  | true =>
    rw [if_pos rfl, viewHits_add]
    · simp
    · simp +contextual

lemma filter_readsAs_true {ips : List NetIP} (hlegal : ∀ ip ∈ ips, N.fromStdIP ip ≠ none) :
    ips.filter (readsAs N fun _ => true) = ips := by
  rw [List.filter_eq_self]
  intro ip hip
  obtain ⟨a, ha⟩ := Option.ne_none_iff_exists'.mp (hlegal ip hip)
  rw [readsAs_of_fromStdIP ha]

lemma legal_of_mem_familyIPs {f : Family} {ips : List NetIP} :
    ∀ ip ∈ familyIPs N f ips, N.fromStdIP ip ≠ none := by
  intro ip hip
  obtain ⟨_, a, ha, _⟩ := mem_familyIPs_iff.mp hip
  simp [ha]

section Family

variable (f : Family) (ips : List NetIP) (ms : List (HeuristicIPMatcher N))

def acceptsAny (a : Addr) : Bool := ms.any fun m => m.matchAddr a

/-- The IPs of a family are handed out once by the bucket view and once more, one for each
address, by the precise view. -/
lemma takenIPs_add_restIPs :
    takenIPs f (familyIPs N f ips) ms + restIPs f (familyIPs N f ips) ms =
      (if usesView f true ms then (familyIPs N f ips : Multiset NetIP) else 0) +
        if usesView f false ms then (preciseIPs N (familyIPs N f ips) : Multiset NetIP) else 0 := by
  rw [takenIPs, restIPs, add_add_add_comm, viewHits_add_compl, viewHits_add_compl,
    viewHits_bucketsOf (fun _ _ _ _ _ _ _ _ _ => rfl), viewHits_preciseOf,
    filter_readsAs_true legal_of_mem_familyIPs,
    filter_readsAs_true fun ip hip => legal_of_mem_familyIPs ip (mem_of_mem_preciseIPs hip)]

/-- All matchers work on one and the same view of a family, and it shows every IP: nothing is lost
on a family without IPs, in the bucket view, and in the precise view of distinct addresses. -/
def OneView : Prop :=
  familyIPs N f ips = [] ∨
    (ms ≠ [] ∧ ∀ m ∈ ms, m.heur f = true) ∨
    (ms ≠ [] ∧ (∀ m ∈ ms, m.heur f = false) ∧
      ((familyIPs N f ips).filterMap N.fromStdIP).Nodup)

instance : Decidable (OneView f ips ms) := inferInstanceAs (Decidable (_ ∨ _))

variable {f ips ms}

lemma usesView_of_forall {h : Bool} (hne : ms ≠ []) (hall : ∀ m ∈ ms, m.heur f = h) :
    usesView f h ms = true ∧ usesView f (!h) ms = false ∧ acceptsVia f h ms = acceptsAny ms := by
  obtain ⟨m, hm⟩ := exists_mem_of_ne_nil ms hne
  refine ⟨?_, ?_, ?_⟩
  · simp only [usesView, any_eq_true, decide_eq_true_eq]
    exact ⟨m, hm, hall m hm⟩
  · simp only [usesView, any_eq_false]
    intro m' hm'
    simp [hall m' hm']
  · funext a
    rw [Bool.eq_iff_iff]
    simp only [acceptsVia, acceptsAny, any_eq_true, decide_eq_true_eq]
    exact exists_congr fun m' => and_congr_right fun hm' => and_iff_right (hall m' hm')

lemma OneView.taken_rest (h : OneView f ips ms) :
    takenIPs f (familyIPs N f ips) ms =
        ((familyIPs N f ips).filter (readsAs N (acceptsAny ms)) : List NetIP) ∧
      restIPs f (familyIPs N f ips) ms =
        ((familyIPs N f ips).filter (readsAs N fun a => !acceptsAny ms a) : List NetIP) := by
  rcases h with hnil | ⟨hne, hall⟩ | ⟨hne, hall, hnd⟩
  · simp [hnil, takenIPs, restIPs, viewHits, bucketsOf, preciseOf]
  · obtain ⟨hu, hu', hacc⟩ := usesView_of_forall hne hall
    have huniform := keyUniform_acceptsVia f ms ips
    rw [hacc] at huniform
    rw [takenIPs, restIPs, hu, show usesView f false ms = false from hu', hacc,
      acceptsVia_eq_false (h := false) hu', viewHits_false, viewHits_bucketsOf huniform,
      viewHits_bucketsOf huniform.not]
    simp
  · obtain ⟨hu, hu', hacc⟩ := usesView_of_forall hne hall
    have hperm := preciseIPs_perm legal_of_mem_familyIPs hnd
    rw [takenIPs, restIPs, hu, show usesView f true ms = false from hu', hacc,
      acceptsVia_eq_false (h := true) hu', viewHits_false, viewHits_preciseOf, viewHits_preciseOf]
    simp only [Bool.false_eq_true, if_false, if_true, zero_add, coe_eq_coe]
    exact ⟨hperm.filter _, hperm.filter _⟩

/-- Where every IP of a family is handed out exactly once, there is one view. -/
lemma oneView_of_total (h : takenIPs f (familyIPs N f ips) ms +
    restIPs f (familyIPs N f ips) ms = (familyIPs N f ips : Multiset NetIP)) :
    OneView f ips ms := by
  rw [takenIPs_add_restIPs] at h
  have hcard := congrArg card h
  have hlen : ((familyIPs N f ips).filterMap N.fromStdIP).length = (familyIPs N f ips).length := by
    rw [length_filterMap_eq_countP, countP_eq_length]
    exact fun ip hip => Option.isSome_iff_ne_none.mpr (legal_of_mem_familyIPs ip hip)
  have hdedup := length_preciseIPs N (familyIPs N f ips)
  cases ht : usesView f true ms with
  | false =>
    have hall : ∀ m ∈ ms, m.heur f = false := by
      simpa [usesView] using ht
    cases hf : usesView f false ms with
    | false =>
      simp only [ht, hf] at hcard
      exact .inl (eq_nil_of_length_eq_zero hcard.symm)
    | true =>
      have hne : ms ≠ [] := by
        rintro rfl
        cases hf
      simp only [ht, hf, Bool.false_eq_true, if_false, if_true, zero_add, coe_card] at hcard
      refine .inr (.inr ⟨hne, hall, ?_⟩)
      rw [← List.dedup_eq_self]
      exact (dedup_sublist _).eq_of_length (by omega)
  | true =>
    cases hf : usesView f false ms with
    | false =>
      have hall : ∀ m ∈ ms, m.heur f = true := by
        simpa [usesView] using hf
      have hne : ms ≠ [] := by
        rintro rfl
        cases ht
      exact .inr (.inl ⟨hne, hall⟩)
    | true =>
      -- both views hand out the family, so the precise one must be empty
      simp only [ht, hf, if_true, card_add, coe_card] at hcard
      have hzero : ((familyIPs N f ips).filterMap N.fromStdIP).dedup = [] :=
        eq_nil_of_length_eq_zero (by omega)
      rw [dedup_eq_nil] at hzero
      rw [hzero] at hlen
      exact .inl (eq_nil_of_length_eq_zero hlen.symm)

lemma mem_familyIPs_of_mem_total {ip : NetIP} (h : ip ∈ takenIPs f (familyIPs N f ips) ms +
    restIPs f (familyIPs N f ips) ms) : ip ∈ familyIPs N f ips := by
  rw [takenIPs_add_restIPs, Multiset.mem_add] at h
  rcases h with h | h
  · split_ifs at h
    · exact h
    · simp at h
  · split_ifs at h
    · exact mem_of_mem_preciseIPs h
    · simp at h

end Family

namespace HeuristicMultiIPMatcher

lemma matchIP_eq_readsAs (mm : HeuristicMultiIPMatcher N) :
    mm.matchIP = readsAs N (acceptsAny mm.matchers) := by
  funext ip
  unfold matchIP readsAs
  cases N.fromStdIP ip <;> rfl

/-- The matcher loop: `matched` collects what the matchers took out of the views of both
families. -/
lemma filterLoop_spec (ord : RangeOrder) (ips : List NetIP) (i : Nat)
    (done ms : List (HeuristicIPMatcher N)) (views : IPBucketViews) {matched : List NetIP}
    (h4 : views.v4.Swept .v4 (familyIPs N .v4 ips) done)
    (h6 : views.v6.Swept .v6 (familyIPs N .v6 ips) done)
    (hm : (matched : Multiset NetIP) = takenIPs .v4 (familyIPs N .v4 ips) done +
      takenIPs .v6 (familyIPs N .v6 ips) done) :
    (filterLoop ord ips i ms views matched).2.v4.Swept .v4 (familyIPs N .v4 ips) (done ++ ms) ∧
      (filterLoop ord ips i ms views matched).2.v6.Swept .v6 (familyIPs N .v6 ips) (done ++ ms) ∧
      ((filterLoop ord ips i ms views matched).1 : Multiset NetIP) =
        takenIPs .v4 (familyIPs N .v4 ips) (done ++ ms) +
          takenIPs .v6 (familyIPs N .v6 ips) (done ++ ms) := by
  induction ms generalizing i done views matched with
  | nil =>
    rw [append_nil]
    exact ⟨h4, h6, hm⟩
  | cons m ms ih =>
    obtain ⟨h4', hout4⟩ := h4.step ord (2 * i) m
    obtain ⟨h6', hout6⟩ := h6.step ord (2 * i + 1) m
    simp only [filterLoop, IPBucketViews.ensureForMatcher_eq]
    rw [append_cons]
    apply ih (i + 1) (done ++ [m]) _ h4' h6'
    rw [← hout4, ← hout6, ← coe_add, ← coe_add, hm]
    abel

/-- Outside the shortcuts, the call returns what the matchers took and what they left, unless the
taken IPs outnumber the input. -/
lemma filterIPs_spec (mm : HeuristicMultiIPMatcher N) (ord : RangeOrder) {ips : List NetIP}
    (hlen : 2 ≤ ips.length) :
    ∃ matched unmatched : List NetIP,
      mm.filterIPs ord ips =
        (if ips.length < matched.length then none else some (matched, unmatched)) ∧
      (matched : Multiset NetIP) = takenIPs .v4 (familyIPs N .v4 ips) mm.matchers +
        takenIPs .v6 (familyIPs N .v6 ips) mm.matchers ∧
      (unmatched : Multiset NetIP) = restIPs .v4 (familyIPs N .v4 ips) mm.matchers +
        restIPs .v6 (familyIPs N .v6 ips) mm.matchers := by
  have h0 : (([] : List NetIP) : Multiset NetIP) = takenIPs (N := N) .v4 (familyIPs N .v4 ips) [] +
        takenIPs (N := N) .v6 (familyIPs N .v6 ips) [] := by
    simp [takenIPs_nil]
  obtain ⟨h4, h6, hm⟩ := filterLoop_spec ord ips 0 [] mm.matchers {}
    (FamilyBucketViews.swept_nil N .v4 _) (FamilyBucketViews.swept_nil N .v6 _) h0
  rw [nil_append] at h4 h6 hm
  match ips, hlen with
  | ip :: ip' :: ips, _ =>
    refine ⟨_, _, rfl, hm, ?_⟩
    rw [← h4.drain ord (2 * mm.matchers.length) (2 * mm.matchers.length + 1),
      ← h6.drain ord (2 * mm.matchers.length + 2) (2 * mm.matchers.length + 3)]
    simp only [← coe_add]
    abel

end HeuristicMultiIPMatcher

lemma coe_filter_readsAs (q : Addr → Bool) :
    (ips.filter (readsAs N q) : Multiset NetIP) =
      ((familyIPs N .v4 ips).filter (readsAs N q) : List NetIP) +
        ((familyIPs N .v6 ips).filter (readsAs N q) : List NetIP) := by
  induction ips with
  | nil => rfl
  | cons ip ips ih =>
    cases ha : N.fromStdIP ip with
    | none => simpa [familyIPs, readsAs_of_illegal ha] using ih
    | some a =>
      cases hq : q a with
      | false =>
        cases hf : a.family <;> simpa [familyIPs, readsAs_of_fromStdIP ha, hq] using ih
      | true =>
        cases hf : a.family <;>
          simpa [familyIPs, readsAs_of_fromStdIP ha, hq, hf, ← cons_coe] using ih

lemma coe_partition_total (q : Addr → Bool) :
    (ips.filter (readsAs N q) : Multiset NetIP) +
        (ips.filter (readsAs N fun a => !q a) : List NetIP) =
      (familyIPs N .v4 ips : Multiset NetIP) + familyIPs N .v6 ips := by
  have hlegal : ∀ p : Addr → Bool, ∀ ip ∈ ips.filter (readsAs N p), N.fromStdIP ip ≠ none := by
    intro p ip hip hnone
    simp [readsAs_of_illegal hnone] at hip
  have hsplit := filter_readsAs_append_perm (N := N) ips q fun _ => true
  rw [filter_readsAs_true (hlegal _), filter_readsAs_true (hlegal _)] at hsplit
  rw [coe_add, coe_eq_coe.mpr hsplit, coe_filter_readsAs,
    filter_readsAs_true legal_of_mem_familyIPs, filter_readsAs_true legal_of_mem_familyIPs]

lemma not_mem_familyIPs_v4 {ips : List NetIP} {ip : NetIP} (h : ip ∈ familyIPs N .v6 ips) :
    ip ∉ familyIPs N .v4 ips := by
  intro h'
  obtain ⟨_, a, ha, hf⟩ := mem_familyIPs_iff.mp h
  obtain ⟨_, b, hb, hf'⟩ := mem_familyIPs_iff.mp h'
  rw [ha] at hb
  cases hb
  rw [hf] at hf'
  cases hf'

/-- Two multisets that are split by a predicate agree part by part. -/
lemma eq_of_add_eq_of_separated {α : Type*} (p : α → Prop) [DecidablePred p]
    {s t s' t' : Multiset α} (h : s + t = s' + t') (hs : ∀ x ∈ s, p x) (ht : ∀ x ∈ t, ¬ p x)
    (hs' : ∀ x ∈ s', p x) (ht' : ∀ x ∈ t', ¬ p x) : s = s' ∧ t = t' := by
  have hleft : s = s' := by
    have hfilter := congrArg (Multiset.filter p) h
    rwa [filter_add, filter_add, Multiset.filter_eq_self.mpr hs, Multiset.filter_eq_self.mpr hs',
      filter_eq_nil.mpr ht, filter_eq_nil.mpr ht', add_zero, add_zero] at hfilter
  exact ⟨hleft, by rwa [hleft, add_right_inj] at h⟩

namespace HeuristicMultiIPMatcher

lemma filterIPs_of_length_le_one (mm : HeuristicMultiIPMatcher N) (ord : RangeOrder)
    {ips : List NetIP} (hlen : ips.length ≤ 1) :
    ∃ r, mm.filterIPs ord ips = some r ∧
      r.1.Perm (ips.filter (readsAs N (acceptsAny mm.matchers))) ∧
      r.2.Perm (ips.filter (readsAs N fun a => !acceptsAny mm.matchers a)) := by
  match ips, hlen with
  | [], _ => exact ⟨([], []), rfl, by simp, by simp⟩
  | [ip], _ =>
    cases ha : N.fromStdIP ip with
    | none => exact ⟨([], []), by simp [filterIPs, ha], by simp [readsAs_of_illegal ha]⟩
    | some a =>
      cases hacc : acceptsAny mm.matchers a with
      | true =>
        have hany : (mm.matchers.any fun m => m.matchAddr a) = true := hacc
        exact ⟨([ip], []), by simp only [filterIPs, ha, hany, if_true],
          by simp [readsAs_of_fromStdIP ha, hacc]⟩
      | false =>
        have hany : (mm.matchers.any fun m => m.matchAddr a) = false := hacc
        exact ⟨([], [ip]), by simp only [filterIPs, ha, hany, Bool.false_eq_true, if_false],
          by simp [readsAs_of_fromStdIP ha, hacc]⟩

end HeuristicMultiIPMatcher

section Views

variable {ips matched unmatched : List NetIP} {ms : List (HeuristicIPMatcher N)}

section Families

variable
  (hm : (matched : Multiset NetIP) =
    takenIPs .v4 (familyIPs N .v4 ips) ms + takenIPs .v6 (familyIPs N .v6 ips) ms)
  (hu : (unmatched : Multiset NetIP) =
    restIPs .v4 (familyIPs N .v4 ips) ms + restIPs .v6 (familyIPs N .v6 ips) ms)
include hm hu

/-- Where what was taken and what was left partition the legal IPs, each family has one view. -/
lemma oneView_of_perm (hmatched : matched.Perm (ips.filter (readsAs N (acceptsAny ms))))
    (hunmatched : unmatched.Perm (ips.filter (readsAs N fun a => !acceptsAny ms a))) (f : Family) :
    OneView f ips ms := by
  have htotal : (takenIPs .v4 (familyIPs N .v4 ips) ms + restIPs .v4 (familyIPs N .v4 ips) ms) +
      (takenIPs .v6 (familyIPs N .v6 ips) ms + restIPs .v6 (familyIPs N .v6 ips) ms) =
      (familyIPs N .v4 ips : Multiset NetIP) + familyIPs N .v6 ips := by
    rw [← coe_partition_total ips (acceptsAny ms), ← coe_eq_coe.mpr hmatched,
      ← coe_eq_coe.mpr hunmatched, hm, hu]
    abel
  -- each family makes up its own part of the result
  obtain ⟨h4, h6⟩ := eq_of_add_eq_of_separated (· ∈ familyIPs N .v4 ips) htotal
    (fun ip => mem_familyIPs_of_mem_total)
    (fun ip hip => not_mem_familyIPs_v4 (mem_familyIPs_of_mem_total hip))
    (fun ip hip => hip) (fun ip hip => not_mem_familyIPs_v4 hip)
  cases f with
  | v4 => exact oneView_of_total h4
  | v6 => exact oneView_of_total h6

/-- Where each family has one view, what was taken and what was left partition the legal IPs. -/
lemma perm_of_oneView (hone : ∀ f, OneView f ips ms) :
    matched.Perm (ips.filter (readsAs N (acceptsAny ms))) ∧
      unmatched.Perm (ips.filter (readsAs N fun a => !acceptsAny ms a)) := by
  obtain ⟨ht4, hr4⟩ := (hone .v4).taken_rest
  obtain ⟨ht6, hr6⟩ := (hone .v6).taken_rest
  constructor
  · rw [← coe_eq_coe, hm, ht4, ht6]
    exact (coe_filter_readsAs ips _).symm
  · rw [← coe_eq_coe, hu, hr4, hr6]
    exact (coe_filter_readsAs ips _).symm

end Families

end Views

/-- `FilterIPs` of a list of matchers and of one matcher returns and partitions the legal IPs
exactly when the list has at most one IP or each family has one view. -/
theorem filterIPs_isPartition_iff (mm : HeuristicMultiIPMatcher N) (m : HeuristicIPMatcher N)
    (ord : RangeOrder) (ips : List NetIP) :
    ((∃ r, mm.filterIPs ord ips = some r ∧ IsPartition ips mm.matchIP r) ∧
        IsPartition ips m.matchIP (m.filterIPs ord ips)) ↔
      ips.length ≤ 1 ∨ ∀ f, OneView f ips mm.matchers := by
  rw [and_iff_left (m.filterIPs_isPartition ord ips), mm.matchIP_eq_readsAs]
  simp only [isPartition_readsAs_iff]
  rcases Nat.lt_or_ge 1 ips.length with hlen | hlen
  · rw [or_iff_right (by omega)]
    obtain ⟨matched, unmatched, heq, hm, hu⟩ := mm.filterIPs_spec ord hlen
    rw [heq]
    constructor
    · rintro ⟨r, hr, hmatched, hunmatched⟩
      split_ifs at hr with hcap
      cases hr
      exact oneView_of_perm hm hu hmatched hunmatched
    · intro hone
      obtain ⟨hmatched, hunmatched⟩ := perm_of_oneView hm hu hone
      have hcap : ¬ ips.length < matched.length := by
        rw [hmatched.length_eq, not_lt]
        exact length_filter_le _ _
      exact ⟨_, if_neg hcap, hmatched, hunmatched⟩
  · rw [iff_true_right (.inl hlen)]
    exact mm.filterIPs_of_length_le_one ord hlen

/-- A `netipx` that keeps the added prefixes as they are. -/
def Netipx.plain : Netipx where
  fromStdIP ip := Addr.ofSlice (ip.to4.getD ip)
  buildIPSet ps := .ok ⟨fun a => ps.any fun p => p.contains a, ps, by simp⟩
  fromStdIP_isSome ip := by
    by_cases h4 : ip.length = 4
    · simp [Addr.ofSlice, NetIP.to4, NetIP.WellFormed, h4]
    · by_cases hmap : ip.length = 16 ∧ ip.take 12 = v4InV6Prefix
      · simp [Addr.ofSlice, NetIP.to4, NetIP.WellFormed, hmap.1, hmap.2]
      · simp only [Addr.ofSlice, NetIP.to4, NetIP.WellFormed, h4, hmap, if_false, false_or]
        split_ifs with h16
        · simpa [h4] using h16
        · simpa [h4] using h16
  fromStdIP_bytes ip a h := by
    simp only [Addr.ofSlice] at h
    split_ifs at h
    cases h
    rfl
  contains_build ps s h := by
    cases h
    simp

def HeuristicIPMatcher.plain (cidrs : List CIDR) : HeuristicIPMatcher Netipx.plain :=
  ⟨_, false, cidrs, rfl⟩

/-- `10.0.0.0/8` and `10.0.0.1/32`: the second matcher takes `10.0.0.1` once more out of the
precise view, and `make` is asked for a capacity of -1. -/
theorem filterIPs_not_isPartition :
    ¬ ((∃ r, filterIPs
          ⟨[.plain [⟨[10, 0, 0, 0], 8⟩], .plain [⟨[10, 0, 0, 1], 32⟩]]⟩ RangeOrder.stored
          [[10, 0, 0, 1], [10, 0, 0, 2]] = some r ∧
        IsPartition [[10, 0, 0, 1], [10, 0, 0, 2]] (matchIP
          ⟨[.plain [⟨[10, 0, 0, 0], 8⟩], .plain [⟨[10, 0, 0, 1], 32⟩]]⟩) r) ∧
      IsPartition [[10, 0, 0, 1], [10, 0, 0, 2]]
        (HeuristicIPMatcher.plain [⟨[10, 0, 0, 0], 8⟩]).matchIP
        ((HeuristicIPMatcher.plain [⟨[10, 0, 0, 0], 8⟩]).filterIPs RangeOrder.stored
          [[10, 0, 0, 1], [10, 0, 0, 2]])) := by
  have hpanic : filterIPs
      ⟨[.plain [⟨[10, 0, 0, 0], 8⟩], .plain [⟨[10, 0, 0, 1], 32⟩]]⟩ RangeOrder.stored
      [[10, 0, 0, 1], [10, 0, 0, 2]] = none := by
    decide +kernel
  rintro ⟨⟨r, hr, -⟩, -⟩
  cases hr

end BypassCore
