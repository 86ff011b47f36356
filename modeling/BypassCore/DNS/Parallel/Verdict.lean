import BypassCore.DNS.Parallel.Basic
import Mathlib.Order.Interval.Finset.Nat

/-!
# The verdict of a parallel query

A result is stored when it arrives, and a group is only left when all its results are there and
none of them is an answer. The verdict therefore does not depend on the order of the arrivals.
-/

namespace BypassCore.DNS

open List Option QueryResult Collector

def Verdict.group (groupOf : List ℕ) : Verdict → Option ℕ
  | .answer client _ _ => groupOf[client]?
  | _ => none

inductive Justified (domain : String) (groupOf : List ℕ) (results received : List QueryResult) :
    Verdict → Prop
  /-- It is the answer of a client, and the clients of all earlier groups have failed. -/
  | answer (r : QueryResult) (hmem : r ∈ received) (hr : r.succeeds = true)
      (hearlier : ∀ r' ∈ results, ∀ g g', groupOf[r.index]? = some g →
        groupOf[r'.index]? = some g' → g' < g → r' ∈ received ∧ r'.succeeds = false) :
      Justified domain groupOf results received (.answer r.index r.ips r.ttl)
  /-- All clients have failed, and their errors are reported in the order of the clients. -/
  | error (hall : ∀ r ∈ results, r ∈ received ∧ r.succeeds = false) :
      Justified domain groupOf results received
        (.error (mergeQueryErrors domain (results.map failure)))

variable {groupOf : List ℕ} {received : List QueryResult}

lemma Justified.mono {domain : String} {results received' : List QueryResult} {v : Verdict}
    (h : Justified domain groupOf results received v) (hsub : received ⊆ received') :
    Justified domain groupOf results received' v := by
  cases h with
  | answer r hmem hr hearlier =>
    refine .answer r (hsub hmem) hr fun r' hr' g g' hg hg' hlt => ?_
    obtain ⟨hrecv, hfail⟩ := hearlier r' hr' g g' hg hg' hlt
    exact ⟨hsub hrecv, hfail⟩
  | error hall => exact .error fun r hr => ⟨hsub (hall r hr).1, (hall r hr).2⟩

/-- The results of the clients, each at its index. -/
structure Indexed (results : List QueryResult) (n : ℕ) : Prop where
  length_eq : results.length = n
  index_eq : ∀ (i : ℕ) (r : QueryResult), results[i]? = some r → r.index = i

section Indexed

variable {results : List QueryResult} {n : ℕ} {r r' : QueryResult}

section

variable (h : Indexed results n)
include h

lemma Indexed.getElem?_index (hr : r ∈ results) : results[r.index]? = some r := by
  obtain ⟨i, hi⟩ := mem_iff_getElem?.mp hr
  rwa [h.index_eq i r hi]

lemma Indexed.index_lt (hr : r ∈ results) : r.index < n := by
  rw [← h.length_eq]
  exact (List.getElem?_eq_some_iff.mp (h.getElem?_index hr)).1

lemma Indexed.eq_of_index_eq (hr : r ∈ results) (hr' : r' ∈ results) (heq : r.index = r'.index) :
    r = r' := by
  have hget := h.getElem?_index hr
  rw [heq, h.getElem?_index hr'] at hget
  exact (Option.some.inj hget).symm

lemma Indexed.map_index : results.map index = List.range n := by
  apply ext_getElem?
  intro i
  rcases Nat.lt_or_ge i n with hi | hi
  · rw [getElem?_map, getElem?_range hi, getElem?_eq_getElem (by rw [h.length_eq]; exact hi)]
    exact congrArg some (h.index_eq i _ (getElem?_eq_getElem _))
  · rw [getElem?_eq_none (by simpa [h.length_eq] using hi), getElem?_eq_none (by simpa using hi)]

lemma Indexed.nodup : (results.map index).Nodup := by
  rw [h.map_index]
  exact nodup_range

end

end Indexed

/-! ### The collector -/

def waiting (groupOf : List ℕ) (received : List QueryResult) (gi : ℕ) : Finset ℕ :=
  (Finset.range groupOf.length).filter fun k =>
    groupOf[k]? = some gi ∧ k ∉ received.map index

lemma mem_waiting {gi k : ℕ} :
    k ∈ waiting groupOf received gi ↔ groupOf[k]? = some gi ∧ k ∉ received.map index := by
  simp only [waiting, Finset.mem_filter, Finset.mem_range, and_iff_right_iff_imp]
  intro h
  exact (List.getElem?_eq_some_iff.mp h.1).1

namespace Collector

/-- What holds of the variables once some results were received: all of them are stored and
counted, and the groups before `nextGroup` have failed. -/
structure Inv (groups : List Group) (groupOf : List ℕ) (results received : List QueryResult)
    (c : Collector) : Prop where
  length_eq : c.results.length = results.length
  results_iff : ∀ (j : ℕ) (r : QueryResult),
    c.results[j]? = some (some r) ↔ r ∈ received ∧ r.index = j
  pending_eq : ∀ gi < groups.length,
    c.pending[gi]? = some ((waiting groupOf received gi).card : ℤ)
  next_le : c.nextGroup ≤ groups.length
  failed : ∀ r ∈ results, ∀ g, groupOf[r.index]? = some g → g < c.nextGroup →
    r ∈ received ∧ r.succeeds = false
  errs_eq : ∃ b ≤ results.length,
    (∀ k g : ℕ, groupOf[k]? = some g → (k < b ↔ g < c.nextGroup)) ∧
      c.errs = (results.take b).map failure

/-- The loop over the groups has stopped at a group that is not complete. -/
def Idle (groups : List Group) (groupOf : List ℕ) (received : List QueryResult) (c : Collector) :
    Prop :=
  c.nextGroup < groups.length → (waiting groupOf received c.nextGroup).Nonempty

section Inv

variable {clients : List Client} {groups : List Group} {groupOf : List ℕ}
  {results received : List QueryResult} {c : Collector} {g : Group} {r : QueryResult} {gi : ℕ}

section

variable (hruns : MaximalRuns clients groups groupOf)
include hruns

lemma waiting_nil_eq (hg : groups[gi]? = some g) :
    waiting groupOf [] gi = Finset.Icc g.start g.last := by
  ext k
  rw [mem_waiting, Finset.mem_Icc, hruns.members_iff gi g hg]
  simp

lemma inv_new (hres : Indexed results clients.length) :
    Inv groups groupOf results [] (new clients groups) where
  length_eq := by simp [new, hres.length_eq]
  results_iff j r := by simp [new, getElem?_replicate]
  pending_eq gi hgi := by
    have hg := getElem?_eq_getElem hgi
    have hle := hruns.nonempty gi _ hg
    rw [waiting_nil_eq hruns hg, Nat.card_Icc, new, getElem?_map, hg, map_some]
    congr 1
    omega
  next_le := Nat.zero_le _
  failed r _ g _ hlt := absurd hlt (Nat.not_lt_zero g)
  errs_eq := ⟨0, Nat.zero_le _, fun k g _ => by simp [new], rfl⟩

end

lemma waiting_append (hr : r.index ∉ received.map index) {gj : ℕ}
    (hgj : groupOf[r.index]? = some gj) :
    ((waiting groupOf (received ++ [r]) gi).card : ℤ) =
      (waiting groupOf received gi).card - if gj = gi then 1 else 0 := by
  have herase : waiting groupOf (received ++ [r]) gi =
      (waiting groupOf received gi).erase r.index := by
    ext k
    simp only [mem_waiting, Finset.mem_erase, map_append, map_cons, map_nil, mem_append,
      mem_singleton]
    tauto
  rw [herase]
  split_ifs with heq
  · have hmem : r.index ∈ waiting groupOf received gi := mem_waiting.mpr ⟨heq ▸ hgj, hr⟩
    rw [Finset.card_erase_of_mem hmem]
    have := Finset.card_pos.mpr ⟨_, hmem⟩
    omega
  · have hmem : r.index ∉ waiting groupOf received gi := by
      rw [mem_waiting, hgj, Option.some.injEq]
      exact fun h => heq h.1
    rw [Finset.erase_eq_of_notMem hmem, sub_zero]

lemma Inv.receive (hruns : MaximalRuns clients groups groupOf)
    (hres : Indexed results clients.length) (h : Inv groups groupOf results received c)
    (hr : r ∈ results) (hnew : r.index ∉ received.map index) :
    Inv groups groupOf results (received ++ [r]) (c.receive groupOf r) := by
  have hlt : r.index < groupOf.length := by
    rw [hruns.length_eq]
    exact hres.index_lt hr
  have hgj := getElem?_eq_getElem hlt
  refine ⟨?_, ?_, ?_, h.next_le, ?_, h.errs_eq⟩
  · exact length_set.trans h.length_eq
  · intro j r'
    have hj : r.index < c.results.length := by
      rw [h.length_eq, hres.length_eq]
      exact hres.index_lt hr
    rw [Collector.receive, getElem?_set, mem_append, mem_singleton]
    split_ifs with heq
    · subst heq
      rw [Option.some.injEq, Option.some.injEq]
      constructor
      · rintro rfl
        exact ⟨.inr rfl, rfl⟩
      · rintro ⟨hmem | rfl, hidx⟩
        · exact absurd (List.mem_map.mpr ⟨r', hmem, hidx⟩) hnew
        · rfl
    · rw [h.results_iff]
      constructor
      · rintro ⟨hmem, hidx⟩
        exact ⟨.inl hmem, hidx⟩
      · rintro ⟨hmem | rfl, hidx⟩
        · exact ⟨hmem, hidx⟩
        · exact absurd hidx heq
  · intro gi hgi
    rw [waiting_append hnew hgj, Collector.receive, getElem?_modify, h.pending_eq gi hgi,
      getD_eq_getElem?_getD, hgj]
    simp only [getD_some]
    split_ifs <;> simp
  · intro r' hr' g hg hlt
    obtain ⟨hmem, hfail⟩ := h.failed r' hr' g hg hlt
    exact ⟨mem_append_left _ hmem, hfail⟩

/-! ### The loop over the groups -/

lemma winner_eq_none (h : Inv groups groupOf results received c) (hw : c.winner g = none)
    (hr : r ∈ received) (hmem : g.start ≤ r.index ∧ r.index ≤ g.last) : r.succeeds = false := by
  have hnone := findSome?_eq_none_iff.mp hw r.index (Group.mem_members.mpr hmem)
  rw [(h.results_iff r.index r).mpr ⟨hr, rfl⟩] at hnone
  simpa using hnone

lemma mem_of_waiting_empty (hres : Indexed results clients.length)
    (hsub : received ⊆ results) (hempty : waiting groupOf received gi = ∅)
    (hr : r ∈ results) (hgi : groupOf[r.index]? = some gi) : r ∈ received := by
  have hidx : r.index ∈ received.map index := by
    by_contra hnot
    have := mem_waiting.mpr ⟨hgi, hnot⟩
    rw [hempty] at this
    exact Finset.notMem_empty _ this
  obtain ⟨r', hr', heq⟩ := List.mem_map.mp hidx
  rwa [← hres.eq_of_index_eq (hsub hr') hr heq]

lemma start_eq (hruns : MaximalRuns clients groups groupOf) {b : ℕ} (hg : groups[gi]? = some g)
    (hb : ∀ k g : ℕ, groupOf[k]? = some g → (k < b ↔ g < gi)) : g.start = b := by
  have hle := hruns.nonempty gi g hg
  have hstart := (hruns.members_iff gi g hg g.start).mp ⟨le_rfl, hle⟩
  have hbs : b ≤ g.start := Nat.not_lt.mp ((hb _ _ hstart).not.mpr (Nat.lt_irrefl gi))
  refine (Nat.eq_or_lt_of_le hbs).elim Eq.symm fun hlt => ?_
  -- A client between `b` and the start would be in a later group than the start is.
  have hlen : b < groupOf.length := hlt.trans (List.getElem?_eq_some_iff.mp hstart).1
  have hget := getElem?_eq_getElem hlen
  have hge : gi ≤ groupOf[b] := Nat.not_lt.mp ((hb _ _ hget).not.mp (Nat.lt_irrefl b))
  have hle' := hruns.ordered _ _ _ _ hbs hget hstart
  have hmem := (hruns.members_iff gi g hg b).mpr (hget.trans (congrArg some (by omega)))
  omega

section Runs

variable (hruns : MaximalRuns clients groups groupOf) (hres : Indexed results clients.length)
include hruns hres

/-- A complete group without an answer is left behind, with its errors. -/
lemma Inv.advance (h : Inv groups groupOf results received c) (hsub : received ⊆ results)
    (hg : groups[c.nextGroup]? = some g) (hempty : waiting groupOf received c.nextGroup = ∅)
    (hw : c.winner g = none) :
    Inv groups groupOf results received
      { c with
        errs := c.errs ++
          ((results.drop g.start).take (g.last + 1 - g.start)).map failure
        nextGroup := c.nextGroup + 1 } := by
  have hmembers := hruns.members_iff _ g hg
  have hle := hruns.nonempty _ g hg
  obtain ⟨b, hb, hbound, herrs⟩ := h.errs_eq
  obtain rfl := start_eq hruns hg hbound
  refine ⟨h.length_eq, h.results_iff, h.pending_eq, ?_, ?_, g.last + 1, ?_, ?_, ?_⟩
  · exact (List.getElem?_eq_some_iff.mp hg).1
  · intro r hr gr hgr hlt
    rcases Nat.lt_succ_iff_lt_or_eq.mp hlt with hlt | rfl
    · exact h.failed r hr gr hgr hlt
    · have hmem := mem_of_waiting_empty hres hsub hempty hr hgr
      exact ⟨hmem, winner_eq_none h hw hmem ((hmembers r.index).mpr hgr)⟩
  · have hlast := (hmembers g.last).mp ⟨hle, le_rfl⟩
    rw [hres.length_eq, ← hruns.length_eq]
    exact (List.getElem?_eq_some_iff.mp hlast).1
  · intro k gk hk
    have hin := hmembers k
    rw [hk, Option.some.injEq] at hin
    have := hbound k gk hk
    dsimp only
    omega
  · dsimp only
    rw [herrs, ← map_append, ← take_add]
    congr 2
    omega

/-- When all results have arrived and there was no answer, all groups have failed. -/
lemma Inv.verdict (h : Inv groups groupOf results received c)
    (hidle : Idle groups groupOf received c) (hall : results ⊆ received) (domain : String) :
    Justified domain groupOf results received (.error (mergeQueryErrors domain c.errs)) := by
  have hnext : c.nextGroup = groups.length := by
    refine (Nat.eq_or_lt_of_le h.next_le).elim id fun hlt => ?_
    obtain ⟨k, hk⟩ := hidle hlt
    obtain ⟨hk, hnot⟩ := mem_waiting.mp hk
    have hlen : k < results.length := by
      rw [hres.length_eq, ← hruns.length_eq]
      exact (List.getElem?_eq_some_iff.mp hk).1
    have hget := getElem?_eq_getElem hlen
    exact absurd (List.mem_map.mpr ⟨_, hall (mem_of_getElem? hget), hres.index_eq k _ hget⟩) hnot
  obtain ⟨b, hb, hbound, herrs⟩ := h.errs_eq
  have hgroup : ∀ k < results.length, ∃ g, groupOf[k]? = some g ∧ g < c.nextGroup := by
    intro k hk
    rw [hres.length_eq, ← hruns.length_eq] at hk
    have hget := getElem?_eq_getElem hk
    exact ⟨_, hget, hnext ▸ hruns.groupOf_lt k _ hget⟩
  have hb' : b = results.length := by
    refine (Nat.eq_or_lt_of_le hb).elim id fun hlt => ?_
    obtain ⟨g, hg, hlt'⟩ := hgroup b hlt
    exact absurd ((hbound b g hg).mpr hlt') (Nat.lt_irrefl b)
  rw [herrs, hb', take_length]
  refine .error fun r hr => ?_
  obtain ⟨g, hg, hlt⟩ := hgroup r.index (by rw [hres.length_eq]; exact hres.index_lt hr)
  exact h.failed r hr g hg hlt

end Runs

end Inv

end Collector

end BypassCore.DNS
