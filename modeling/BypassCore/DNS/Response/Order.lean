import BypassCore.DNS.Response.Basic
import Mathlib.Order.Lattice.Nat

/-!
# The order of the answer records

Whether a response is accepted, and with which addresses, does not depend on the order of its answer
records. The TTL may: of several CNAME records with one owner the last one is kept, and the TTLs of
the others do not count.
-/

namespace BypassCore.DNS

open Lib Relation List Resource

/-! ### The least TTL -/

/-- The TTL of a record as it counts: at least 1, and not more than an `int32` can hold. -/
def effectiveTTL (ttl : UInt32) : ℕ := min (max ttl.toNat 1) 2147483647

/-- The TTL of a response whose records have some TTLs: the least one, or the default. -/
def MinTTL (ttls : Set ℕ) (t : ℕ) : Prop := IsLeast ttls t ∨ ttls = ∅ ∧ t = defaultTTL.toNat

lemma MinTTL.unique {ttls : Set ℕ} {t t' : ℕ} (h : MinTTL ttls t) (h' : MinTTL ttls t') :
    t = t' := by
  rcases h with h | ⟨hempty, rfl⟩
  · rcases h' with h' | ⟨hempty, -⟩
    · exact h.unique h'
    · exact absurd h.1 (hempty ▸ Set.notMem_empty t)
  · rcases h' with h' | ⟨-, rfl⟩
    · exact absurd h'.1 (hempty ▸ Set.notMem_empty t')
    · rfl

namespace TTL

def value (value : UInt32) : UInt32 :=
  let value := if value = 0 then 1 else value
  if value > maxInt32 then maxInt32 else value

lemma toNat_value (v : UInt32) : (value v).toNat = effectiveTTL v := by
  simp only [value, effectiveTTL, maxInt32, UInt32.lt_iff_toNat_lt, ← UInt32.toNat_inj]
  split_ifs with hzero hone hlarge <;> simp_all <;> omega

lemma ttl_include (t : TTL) (v : UInt32) :
    (t.include v).ttl.toNat =
      if t.hasTTL then min t.ttl.toNat (effectiveTTL v) else effectiveTTL v := by
  have hinclude : (t.include v).ttl = if !t.hasTTL || value v < t.ttl then value v else t.ttl := rfl
  rw [hinclude, ← toNat_value]
  cases t.hasTTL with
  | false => rfl
  | true =>
    simp only [Bool.not_true, Bool.false_or, decide_eq_true_eq, UInt32.lt_iff_toNat_lt]
    split_ifs with hlt
    · rw [min_eq_right hlt.le]
    · rw [min_eq_left (Nat.le_of_not_lt hlt)]

def includeAll (t : TTL) (ttls : List UInt32) : TTL := ttls.foldl TTL.include t

lemma includeAll_isLeast {t : TTL} (ht : t.hasTTL = true) (ttls : List UInt32) :
    IsLeast (insert t.ttl.toNat {n | ∃ v ∈ ttls, effectiveTTL v = n})
      (t.includeAll ttls).ttl.toNat := by
  induction ttls generalizing t with
  | nil =>
    refine ⟨Set.mem_insert _ _, ?_⟩
    rintro n (rfl | ⟨v, hv, -⟩)
    · exact le_rfl
    · exact absurd hv not_mem_nil
  | cons v ttls ih =>
    have hv : (t.include v).ttl.toNat = min t.ttl.toNat (effectiveTTL v) := by
      rw [ttl_include, if_pos ht]
    have hrest := ih (t := t.include v) rfl
    rw [hv] at hrest
    obtain ⟨hmem, hle⟩ := hrest
    refine ⟨?_, ?_⟩
    · rcases hmem with hmin | ⟨w, hw, heq⟩
      · rcases min_choice t.ttl.toNat (effectiveTTL v) with hleft | hright
        · exact .inl (hmin.trans hleft)
        · exact .inr ⟨v, mem_cons_self, (hmin.trans hright).symm⟩
      · exact .inr ⟨w, mem_cons_of_mem _ hw, heq⟩
    · have hmin : (t.includeAll (v :: ttls)).ttl.toNat ≤ min t.ttl.toNat (effectiveTTL v) :=
        hle (Set.mem_insert _ _)
      rintro n (rfl | ⟨w, hw, rfl⟩)
      · exact hmin.trans (min_le_left _ _)
      · rcases mem_cons.mp hw with rfl | hw
        · exact hmin.trans (min_le_right _ _)
        · exact hle (.inr ⟨w, hw, rfl⟩)

/-- The TTL after all records is the least one. -/
lemma includeAll_spec (ttls : List UInt32) :
    MinTTL {n | ∃ v ∈ ttls, effectiveTTL v = n} (TTL.includeAll {} ttls).ttl.toNat := by
  cases ttls with
  | nil =>
    refine .inr ⟨?_, rfl⟩
    simp
  | cons v ttls =>
    refine .inl ?_
    have hv : (TTL.include {} v).ttl.toNat = effectiveTTL v := ttl_include {} v
    have hrest := includeAll_isLeast (t := TTL.include {} v) rfl ttls
    rw [hv] at hrest
    have hset : {n | ∃ w ∈ v :: ttls, effectiveTTL w = n} =
        insert (effectiveTTL v) {n | ∃ w ∈ ttls, effectiveTTL w = n} := by
      ext n
      simp [eq_comm]
    rw [hset]
    exact hrest

end TTL

/-! ### The TTL of a response -/

def Resource.aliasAt (cls : UInt16) (a : List UInt8) (r : Resource) : Option Alias :=
  match r.body with
  | .cname target => if r.cls = cls ∧ r.name.lower = a then some ⟨target, r.ttl⟩ else none
  | _ => none

variable {cls : UInt16} {r : Resource}

lemma aliasAt_cname {target : Name} (hbody : r.body = .cname target)
    (hcls : r.cls = cls) (a : List UInt8) :
    r.aliasAt cls a = if a = r.name.lower then some ⟨target, r.ttl⟩ else none := by
  simp only [aliasAt, hbody, hcls, true_and, eq_comm]

lemma aliasAt_eq_none (h : ¬ (r.cls = cls ∧ ∃ target, r.body = .cname target)) (a : List UInt8) :
    r.aliasAt cls a = none := by
  unfold aliasAt
  split
  · next target hbody => exact if_neg fun hc => h ⟨hc.1, target, hbody⟩
  · rfl

variable {answers : List Resource}

lemma collectAliases_cons {aliases m : GoMap (List UInt8) Alias}
    (h : collectAliases cls aliases (r :: answers) = .ok m) :
    ∃ aliases', collectAliases cls aliases' answers = .ok m ∧
      ∀ a, aliases'.lookup a = (r.aliasAt cls a).or (aliases.lookup a) := by
  by_cases hcname : r.cls = cls ∧ ∃ target, r.body = .cname target
  · obtain ⟨hcls, target, hbody⟩ := hcname
    refine ⟨aliases.insert r.name.lower ⟨target, r.ttl⟩, ?_, ?_⟩
    · simp only [collectAliases, hbody, if_pos hcls] at h
      split at h
      · split_ifs at h
        exact h
      · exact h
    · intro a
      rw [aliasAt_cname hbody hcls, GoMap.lookup_insert_eq]
      split_ifs <;> rfl
  · refine ⟨aliases, ?_, fun a => ?_⟩
    · rwa [collectAliases_skip hcname] at h
    · rw [aliasAt_eq_none hcname]
      rfl

lemma collectAliases_lookup {aliases m : GoMap (List UInt8) Alias}
    (h : collectAliases cls aliases answers = .ok m) (a : List UInt8) :
    m.lookup a = ((answers.filterMap (aliasAt cls a)).getLast?).or (aliases.lookup a) := by
  induction answers generalizing aliases with
  | nil =>
    cases h
    rfl
  | cons r answers ih =>
    obtain ⟨aliases', hrest, hlookup⟩ := collectAliases_cons h
    rw [ih hrest, hlookup, filterMap_cons]
    cases r.aliasAt cls a with
    | none => rfl
    | some v =>
      rw [getLast?_cons]
      cases (answers.filterMap (aliasAt cls a)).getLast? <;> rfl

lemma foldl_addAnswer_snd (q : Question) (e : List UInt8) (answers : List Resource)
    (s : List NetIP × TTL) :
    (answers.foldl (addAnswer q e) s).2 =
      s.2.includeAll ((answers.filter fun r => (r.answerTo q e).isSome).map ttl) := by
  induction answers generalizing s with
  | nil => rfl
  | cons r answers ih =>
    rw [foldl_cons, ih, addAnswer]
    cases hr : r.answerTo q e with
    | none => rw [filter_cons_of_neg (by simp [hr])]
    | some ip =>
      rw [filter_cons_of_pos (by simp [hr])]
      rfl

/-- The TTLs that count in an answer section as it stands: of the last CNAME record of each name on
the chain, and of the address records at its end. -/
def lastTTLs (q : Question) (answers : List Resource) (e : List UInt8) : Set ℕ :=
  {n | (∃ a v, ReflTransGen (AliasOf q.cls answers) q.name.lower a ∧
      (answers.filterMap (aliasAt q.cls a)).getLast? = some v ∧ effectiveTTL v.ttl = n) ∨
    ∃ r ∈ answers, (r.addressAt q e).isSome ∧ effectiveTTL r.ttl = n}

lemma ttl_of_readAnswers {now : Int} {header : Header} {q : Question}
    {r : IPRecord} (h : readAnswers now header q answers = .ok r) :
    ∃ e t, EndOfChain q.cls answers q.name.lower e ∧ r.expire = now + (t : ℕ) * second ∧
      MinTTL (lastTTLs q answers e) t := by
  obtain ⟨m, passed, e, hm, hlink, hchase, rfl⟩ := readAnswers_eq_ok h
  obtain ⟨hend, -⟩ := endOfChain_of_chase hlink hchase
  refine ⟨e, _, hend, rfl, ?_⟩
  have hlast : ∀ a, m.lookup a = (answers.filterMap (aliasAt q.cls a)).getLast? := by
    intro a
    rw [collectAliases_lookup hm]
    exact Option.or_none
  have hfold : passed.foldl (fun t r => t.include r.ttl) {} =
      TTL.includeAll {} (passed.map Alias.ttl) := by
    rw [TTL.includeAll, foldl_map]
  have hset : lastTTLs q answers e = {n | ∃ v ∈ passed.map Alias.ttl ++
      (answers.filter fun r => (r.answerTo q e).isSome).map ttl, effectiveTTL v = n} := by
    ext n
    simp only [mem_append, mem_map, mem_filter, mem_of_chase hchase, hlink, hlast,
      answerTo_eq (toLower_of_reflTransGen hend.1)]
    constructor
    · rintro (⟨a, v, hpath, hv, rfl⟩ | ⟨r, hr, haddress, rfl⟩)
      · exact ⟨v.ttl, .inl ⟨v, ⟨a, hpath, hv⟩, rfl⟩, rfl⟩
      · exact ⟨r.ttl, .inr ⟨r, ⟨hr, haddress⟩, rfl⟩, rfl⟩
    · rintro ⟨_, ⟨v, ⟨a, hpath, hv⟩, rfl⟩ | ⟨r, ⟨hr, haddress⟩, rfl⟩, rfl⟩
      · exact .inl ⟨a, v, hpath, hv, rfl⟩
      · exact .inr ⟨r, hr, haddress, rfl⟩
  rw [foldl_addAnswer_snd, hfold, TTL.includeAll, TTL.includeAll, ← foldl_append, hset]
  exact TTL.includeAll_spec _

section Perm

variable {q : Question} {answers answers' : List Resource}

lemma aliasOf_perm (h : answers'.Perm answers) (cls : UInt16) :
    AliasOf cls answers' = AliasOf cls answers := by
  ext a b
  simp only [AliasOf, h.mem_iff]

variable {header : Header}

/-- The error depends on the CNAME records, in any order. -/
lemma readAnswers_eq_error_iff {now : Int} {e : String} :
    readAnswers now header q answers = .error e ↔
      (Conflicting q.cls answers ∧ e = "dns: conflicting DNS CNAME targets") ∨
        ¬ Conflicting q.cls answers ∧ Cyclic q.cls answers q.name.lower ∧
          e = "dns: DNS CNAME loop" := by
  obtain ⟨hc, h⟩ | ⟨hc, ⟨hcyclic, h⟩ | ⟨hcyclic, m, passed, e', -, -, -, h⟩⟩ :=
    readAnswers_cases now header q answers
  · simp [h, hc, eq_comm]
  · simp [h, hc, hcyclic, eq_comm]
  · simp [h, hc, hcyclic]

lemma readAnswers_error_perm (h : answers'.Perm answers) {now : Int} {e : String} :
    readAnswers now header q answers' = .error e ↔ readAnswers now header q answers = .error e := by
  rw [readAnswers_eq_error_iff, readAnswers_eq_error_iff, Conflicting, Conflicting, Cyclic, Cyclic,
    aliasOf_perm h]

variable {e : List UInt8}

lemma endOfChain_perm (h : answers'.Perm answers) :
    EndOfChain q.cls answers' q.name.lower e ↔ EndOfChain q.cls answers q.name.lower e := by
  rw [EndOfChain, EndOfChain, aliasOf_perm h]

lemma ip_perm (h : answers'.Perm answers) {now : Int} {r r' : IPRecord}
    (hr : readAnswers now header q answers = .ok r)
    (hr' : readAnswers now header q answers' = .ok r') : r'.ip.Perm r.ip := by
  obtain ⟨e, hend, hunique, hip⟩ := ip_of_readAnswers hr
  obtain ⟨e', hend', -, hip'⟩ := ip_of_readAnswers hr'
  obtain rfl := hunique e' ((endOfChain_perm h).mp hend')
  rw [hip, hip']
  exact h.filterMap _

/-! ### The records that are used -/

/-- A record is used: it is a CNAME record of a name on the chain, or an address record at its
end. -/
def Uses (q : Question) (answers : List Resource) (r : Resource) : Prop :=
  (∃ a, ReflTransGen (AliasOf q.cls answers) q.name.lower a ∧ (r.aliasAt q.cls a).isSome) ∨
    ∃ e, EndOfChain q.cls answers q.name.lower e ∧ (r.addressAt q e).isSome

def usedTTLs (q : Question) (answers : List Resource) : Set ℕ :=
  {n | ∃ r ∈ answers, Uses q answers r ∧ effectiveTTL r.ttl = n}

/-- The least TTL is that of an address record, or of all CNAME records of one name. -/
def Steady (q : Question) (answers : List Resource) : Prop :=
  ∀ t, IsLeast (usedTTLs q answers) t →
    (∃ e, EndOfChain q.cls answers q.name.lower e ∧
      ∃ r ∈ answers, (r.addressAt q e).isSome ∧ effectiveTTL r.ttl = t) ∨
    ∃ a, ReflTransGen (AliasOf q.cls answers) q.name.lower a ∧
      (∃ r ∈ answers, (r.aliasAt q.cls a).isSome) ∧
        ∀ r ∈ answers, (r.aliasAt q.cls a).isSome → effectiveTTL r.ttl = t

variable {a : List UInt8} {r : Resource}

lemma ttl_of_aliasAt {cls : UInt16} {v : Alias} (h : r.aliasAt cls a = some v) : v.ttl = r.ttl := by
  unfold aliasAt at h
  split at h
  · split_ifs at h
    cases h
    rfl
  · cases h

/-- What counts in an order of the records is the TTL of a record that is used. -/
lemma lastTTLs_subset (h : answers'.Perm answers) (he : EndOfChain q.cls answers q.name.lower e) :
    lastTTLs q answers' e ⊆ usedTTLs q answers := by
  rintro n (⟨a, v, hpath, hlast, rfl⟩ | ⟨r, hr, haddress, rfl⟩)
  · obtain ⟨r, hr, hv⟩ := mem_filterMap.mp (mem_of_getLast? hlast)
    rw [aliasOf_perm h] at hpath
    exact ⟨r, h.mem_iff.mp hr, .inl ⟨a, hpath, by rw [hv]; rfl⟩, by rw [ttl_of_aliasAt hv]⟩
  · exact ⟨r, h.mem_iff.mp hr, .inr ⟨e, he, haddress⟩, rfl⟩

lemma exists_last (hr : r ∈ answers) (ha : (r.aliasAt q.cls a).isSome) :
    ∃ v, (answers.filterMap (aliasAt q.cls a)).getLast? = some v ∧
      ∃ r' ∈ answers, r'.aliasAt q.cls a = some v := by
  obtain ⟨w, hw⟩ := Option.isSome_iff_exists.mp ha
  have hne : answers.filterMap (aliasAt q.cls a) ≠ [] :=
    ne_nil_of_mem (mem_filterMap.mpr ⟨r, hr, hw⟩)
  refine ⟨_, getLast?_eq_some_getLast hne, ?_⟩
  exact mem_filterMap.mp (getLast_mem hne)

/-- If the least TTL is steady, it counts in every order of the records. -/
lemma mem_lastTTLs_of_steady (hsteady : Steady q answers) (h : answers'.Perm answers)
    (he : EndOfChain q.cls answers q.name.lower e)
    (hunique : ∀ e', EndOfChain q.cls answers q.name.lower e' → e' = e) {t : ℕ}
    (ht : IsLeast (usedTTLs q answers) t) : t ∈ lastTTLs q answers' e := by
  rcases hsteady t ht with ⟨e', he', r, hr, haddress, rfl⟩ | ⟨a, hpath, ⟨r, hr, ha⟩, hall⟩
  · obtain rfl := hunique e' he'
    exact .inr ⟨r, h.mem_iff.mpr hr, haddress, rfl⟩
  · obtain ⟨v, hlast, r', hr', hv⟩ := exists_last (h.mem_iff.mpr hr) ha
    refine .inl ⟨a, v, aliasOf_perm h q.cls ▸ hpath, hlast, ?_⟩
    rw [ttl_of_aliasAt hv]
    exact hall r' (h.mem_iff.mp hr') (by rw [hv]; rfl)

lemma lastTTLs_nonempty (h : answers'.Perm answers)
    (hunique : ∀ e', EndOfChain q.cls answers q.name.lower e' → e' = e)
    (hused : (usedTTLs q answers).Nonempty) : (lastTTLs q answers' e).Nonempty := by
  obtain ⟨n, r, hr, ⟨a, hpath, ha⟩ | ⟨e', he', haddress⟩, -⟩ := hused
  · obtain ⟨v, hlast, -⟩ := exists_last (h.mem_iff.mpr hr) ha
    exact ⟨_, .inl ⟨a, v, aliasOf_perm h q.cls ▸ hpath, hlast, rfl⟩⟩
  · obtain rfl := hunique e' he'
    exact ⟨_, .inr ⟨r, h.mem_iff.mpr hr, haddress, rfl⟩⟩

/-- Then the TTL of every order is the least one of all the records. -/
lemma minTTL_of_steady (hsteady : Steady q answers) (h : answers'.Perm answers)
    (he : EndOfChain q.cls answers q.name.lower e)
    (hunique : ∀ e', EndOfChain q.cls answers q.name.lower e' → e' = e) {t : ℕ}
    (ht : MinTTL (lastTTLs q answers' e) t) : MinTTL (usedTTLs q answers) t := by
  have hsubset := lastTTLs_subset h he
  rcases ht with hleast | ⟨hempty, hdefault⟩
  · have hused : (usedTTLs q answers).Nonempty := ⟨t, hsubset hleast.1⟩
    have hmin : IsLeast (usedTTLs q answers) (sInf (usedTTLs q answers)) :=
      ⟨Nat.sInf_mem hused, fun n hn => Nat.sInf_le hn⟩
    have hle := hleast.2 (mem_lastTTLs_of_steady hsteady h he hunique hmin)
    exact .inl ⟨hsubset hleast.1, fun n hn => hle.trans (hmin.2 hn)⟩
  · refine .inr ⟨?_, hdefault⟩
    by_contra hused
    obtain ⟨n, hn⟩ := lastTTLs_nonempty h hunique (Set.nonempty_iff_ne_empty.mpr hused)
    exact absurd hn (hempty ▸ Set.notMem_empty n)

/-- So it is for every order of the records that is read. -/
lemma least_of_steady (hsteady : Steady q answers) (h : answers'.Perm answers) {now : Int}
    {r : IPRecord} (hr : readAnswers now header q answers' = .ok r) :
    ∃ t : ℕ, r.expire = now + t * second ∧ MinTTL (usedTTLs q answers) t := by
  obtain ⟨e, hend, hunique, -⟩ := ip_of_readAnswers hr
  obtain ⟨e', t, hend', hexpire, hlast⟩ := ttl_of_readAnswers hr
  obtain rfl := hunique e' hend'
  simp only [endOfChain_perm h] at hend hunique
  exact ⟨t, hexpire, minTTL_of_steady hsteady h hend hunique hlast⟩

/-! #### The order in which the last record of a name has the greatest TTL -/

def byTTL (answers : List Resource) : List Resource :=
  answers.insertionSort fun r r' => effectiveTTL r.ttl ≤ effectiveTTL r'.ttl

lemma byTTL_perm (answers : List Resource) : (byTTL answers).Perm answers :=
  perm_insertionSort _ answers

lemma pairwise_byTTL (answers : List Resource) :
    (byTTL answers).Pairwise fun r r' => effectiveTTL r.ttl ≤ effectiveTTL r'.ttl :=
  have : IsTrans Resource fun r r' => effectiveTTL r.ttl ≤ effectiveTTL r'.ttl :=
    ⟨fun _ _ _ => le_trans⟩
  have : Std.Total fun r r' : Resource => effectiveTTL r.ttl ≤ effectiveTTL r'.ttl :=
    ⟨fun _ _ => le_total _ _⟩
  pairwise_insertionSort _ answers

/-- The last record of a name has the greatest TTL. -/
lemma le_last_byTTL {v : Alias} (hr : r ∈ answers) (ha : (r.aliasAt q.cls a).isSome)
    (hlast : ((byTTL answers).filterMap (aliasAt q.cls a)).getLast? = some v) :
    effectiveTTL r.ttl ≤ effectiveTTL v.ttl := by
  obtain ⟨w, hw⟩ := Option.isSome_iff_exists.mp ha
  have hmem : w ∈ (byTTL answers).filterMap (aliasAt q.cls a) :=
    mem_filterMap.mpr ⟨r, (byTTL_perm answers).mem_iff.mpr hr, hw⟩
  have hsorted : ((byTTL answers).filterMap (aliasAt q.cls a)).Pairwise
      fun v v' => effectiveTTL v.ttl ≤ effectiveTTL v'.ttl := by
    refine (pairwise_byTTL answers).filterMap _ ?_
    intro r₁ r₂ hle v₁ hv₁ v₂ hv₂
    rwa [ttl_of_aliasAt hv₁, ttl_of_aliasAt hv₂]
  rw [← ttl_of_aliasAt hw]
  obtain ⟨l, hl⟩ := getLast?_eq_some_iff.mp hlast
  rw [hl] at hmem hsorted
  rcases mem_append.mp hmem with hw' | hw'
  · exact (pairwise_append.mp hsorted).2.2 w hw' v mem_cons_self
  · rw [mem_singleton.mp hw']

lemma steady_of_byTTL (he : EndOfChain q.cls answers q.name.lower e)
    (hunique : ∀ e', EndOfChain q.cls answers q.name.lower e' → e' = e) {t : ℕ}
    (ht : MinTTL (lastTTLs q (byTTL answers) e) t) (hused : MinTTL (usedTTLs q answers) t) :
    Steady q answers := by
  intro t' hleast
  obtain rfl := hused.unique (.inl hleast)
  have hmem : t ∈ lastTTLs q (byTTL answers) e := by
    rcases ht with ht | ⟨hempty, -⟩
    · exact ht.1
    · exact absurd hempty (lastTTLs_nonempty (byTTL_perm answers) hunique ⟨t, hleast.1⟩).ne_empty
  rcases hmem with ⟨a, v, hpath, hlast, hv⟩ | ⟨r, hr, haddress, hr'⟩
  · rw [aliasOf_perm (byTTL_perm answers)] at hpath
    refine .inr ⟨a, hpath, ?_, ?_⟩
    · obtain ⟨r, hr, hra⟩ := mem_filterMap.mp (mem_of_getLast? hlast)
      exact ⟨r, (byTTL_perm answers).mem_iff.mp hr, by rw [hra]; rfl⟩
    · intro r hr ha
      refine le_antisymm ?_ (hleast.2 ⟨r, hr, .inl ⟨a, hpath, ha⟩, rfl⟩)
      rw [← hv]
      exact le_last_byTTL hr ha hlast
  · exact .inl ⟨e, he, r, (byTTL_perm answers).mem_iff.mp hr, haddress, hr'⟩

end Perm

/-! ### Responses -/

structure Reordered (m m' : Message) : Prop where
  header : m'.header = m.header
  questions : m'.questions = m.questions
  answers : m'.answers.Perm m.answers

section Responses

variable {Payload : Type} {P : Parser Payload} {now : Int} {payload payload' : Payload}
  {m m' : Message} {req : Option Request} {reqHeader : Header} {q : Question} {rest : List Resource}

variable (P now payload m req q) in
/-- The verdict on a response, its addresses and its TTL are the same for every order of the answer
records, and the TTL is the least one of the records that are used. -/
structure OrderFree : Prop where
  verdict : ∀ {payload' m'}, P.unpack payload' = .ok m' → Reordered m m' → ∀ e,
    parseResponseForRequest P now payload' req = .error e ↔
      parseResponseForRequest P now payload req = .error e
  ips : ∀ {payload' m'}, P.unpack payload' = .ok m' → Reordered m m' → ∀ {r r'},
    parseResponseForRequest P now payload req = .ok r →
      parseResponseForRequest P now payload' req = .ok r' → r'.ip.Perm r.ip
  ttl : ∀ {payload' m'}, P.unpack payload' = .ok m' → Reordered m m' → ∀ {r r'},
    parseResponseForRequest P now payload req = .ok r →
      parseResponseForRequest P now payload' req = .ok r' → r'.expire = r.expire
  least : ∀ {r}, parseResponseForRequest P now payload req = .ok r →
    ∃ t : ℕ, r.expire = now + t * second ∧ MinTTL (usedTTLs q m.answers) t

/-- A response does not depend on the order of its answer records if and only if it is rejected, or
the least TTL of the records that are used is steady. -/
theorem parseResponseForRequest_orderFree_iff (hP : P.Faithful) (hm : P.unpack payload = .ok m)
    (hreq : req.bind Request.msg = some ⟨reqHeader, [q], rest⟩) (hmatch : Matches m reqHeader q)
    (horders : ∀ answers', answers'.Perm m.answers →
      ∃ payload', P.unpack payload' = .ok { m with answers := answers' }) :
    OrderFree P now payload m req q ↔
      Conflicting q.cls m.answers ∨ Cyclic q.cls m.answers q.name.lower ∨ Steady q m.answers := by
  have hparse : parseResponseForRequest P now payload req = readAnswers now m.header q m.answers :=
    parse_eq_readAnswers hP hm hreq hmatch
  have hparse' : ∀ {payload' m'}, P.unpack payload' = .ok m' → Reordered m m' →
      parseResponseForRequest P now payload' req = readAnswers now m.header q m'.answers := by
    intro payload' m' hm' h
    rw [← h.header]
    refine parse_eq_readAnswers hP hm' hreq ?_
    rwa [Matches, h.header, h.questions]
  constructor
  · intro h
    by_contra hnot
    obtain ⟨hconflict, hcyclic, hsteady⟩ : ¬ Conflicting q.cls m.answers ∧
        ¬ Cyclic q.cls m.answers q.name.lower ∧ ¬ Steady q m.answers := by
      simpa only [not_or] using hnot
    obtain ⟨r, hr⟩ := (readAnswers_isOk_iff now m.header q m.answers).mpr ⟨hconflict, hcyclic⟩
    obtain ⟨e, hend, hunique, -⟩ := ip_of_readAnswers hr
    -- the records in the order of their TTLs
    obtain ⟨payload', hm'⟩ := horders _ (byTTL_perm m.answers)
    have hreordered : Reordered m { m with answers := byTTL m.answers } :=
      ⟨rfl, rfl, byTTL_perm m.answers⟩
    obtain ⟨r', hr'⟩ : ∃ r', readAnswers now m.header q (byTTL m.answers) = .ok r' := by
      rw [readAnswers_isOk_iff, Conflicting, Cyclic, aliasOf_perm (byTTL_perm m.answers)]
      exact ⟨hconflict, hcyclic⟩
    obtain ⟨t, hexpire, hused⟩ := h.least (hparse.trans hr)
    obtain ⟨e', t', hend', hexpire', hlast⟩ := ttl_of_readAnswers hr'
    obtain rfl := hunique e' ((endOfChain_perm (byTTL_perm m.answers)).mp hend')
    have hsame := h.ttl hm' hreordered (hparse.trans hr) ((hparse' hm' hreordered).trans hr')
    obtain rfl : t' = t := by
      rw [hexpire, hexpire', second] at hsame
      omega
    exact hsteady (steady_of_byTTL hend hunique hlast hused)
  · intro hcases
    -- every order has the least TTL of the records that are used
    have hleast : ∀ {answers' r}, answers'.Perm m.answers →
        readAnswers now m.header q answers' = .ok r →
          ∃ t : ℕ, r.expire = now + t * second ∧ MinTTL (usedTTLs q m.answers) t := by
      intro answers' r hperm hr
      have hok := (readAnswers_isOk_iff now m.header q answers').mp ⟨r, hr⟩
      rw [Conflicting, Cyclic, aliasOf_perm hperm] at hok
      rcases hcases with hconflict | hcyclic | hsteady
      · exact absurd hconflict hok.1
      · exact absurd hcyclic hok.2
      · exact least_of_steady hsteady hperm hr
    refine ⟨?_, ?_, ?_, ?_⟩
    · intro payload' m' hm' h e
      rw [hparse' hm' h, hparse]
      exact readAnswers_error_perm h.answers
    · intro payload' m' hm' h r r' hr hr'
      rw [hparse] at hr
      rw [hparse' hm' h] at hr'
      exact ip_perm h.answers hr hr'
    · intro payload' m' hm' h r r' hr hr'
      rw [hparse] at hr
      rw [hparse' hm' h] at hr'
      obtain ⟨t, hexpire, ht⟩ := hleast (.refl _) hr
      obtain ⟨t', hexpire', ht'⟩ := hleast h.answers hr'
      rw [hexpire, hexpire', ht.unique ht']
    · intro r hr
      rw [hparse] at hr
      exact hleast (.refl _) hr

end Responses

/-! #### Two CNAME records of one name -/

def messageParser : Parser Message where
  start m := .ok m.header
  question m i := (m.questions[i]?).elim (.error .sectionDone) .ok
  unpack m := .ok m

lemma messageParser_faithful : messageParser.Faithful := by
  intro payload m hm
  cases hm
  exact ⟨rfl, fun _ => rfl⟩

def exampleRequest : Request := ⟨some ⟨exampleMessage.header, [exampleQuestion], []⟩⟩

lemma a_lt : (97 : UInt8) < 128 := by decide

lemma b_lt : (98 : UInt8) < 128 := by decide

def twice (first second : UInt32) : Message where
  header := exampleMessage.header
  questions := exampleMessage.questions
  answers := [
    ⟨exampleName 97 a_lt, 1, first, .cname (exampleName 98 b_lt)⟩,
    ⟨exampleName 97 a_lt, 1, second, .cname (exampleName 98 b_lt)⟩]

lemma twice_reordered (first second : UInt32) :
    Reordered (twice first second) (twice second first) :=
  ⟨rfl, rfl, .swap _ _ _⟩

lemma matches_example {m : Message} (hheader : m.header = exampleMessage.header)
    (hquestions : m.questions = exampleMessage.questions) :
    Matches m exampleMessage.header exampleQuestion := by
  rw [Matches, hheader, hquestions]
  exact ⟨rfl, rfl, rfl, ⟨exampleName 97 a_lt, typeA, 1⟩, rfl, rfl, rfl, rfl⟩

def expiring (seconds : Int) : IPRecord := ⟨7, [], seconds * second, 0, some exampleMessage.header⟩

/-- The same two records in both orders: the TTL is that of the last one. -/
theorem twice_expire : Reordered (twice 60 30) (twice 30 60) ∧
    Matches (twice 60 30) exampleMessage.header exampleQuestion ∧
    parseResponseForRequest messageParser 0 (twice 60 30) (some exampleRequest) =
      .ok (expiring 30) ∧
    parseResponseForRequest messageParser 0 (twice 30 60) (some exampleRequest) =
      .ok (expiring 60) := by
  refine ⟨twice_reordered 60 30, matches_example rfl rfl, ?_, ?_⟩
  · decide +kernel
  · decide +kernel

/-- The CNAME records of each name have one TTL. -/
lemma steady_of_aliases {q : Question} {answers : List Resource}
    (h : ∀ a, ∀ r ∈ answers, ∀ r' ∈ answers, (r.aliasAt q.cls a).isSome →
      (r'.aliasAt q.cls a).isSome → r.ttl = r'.ttl) : Steady q answers := by
  rintro t ⟨⟨r, hr, ⟨a, hpath, ha⟩ | ⟨e, he, haddress⟩, rfl⟩, -⟩
  · refine .inr ⟨a, hpath, ⟨r, hr, ha⟩, ?_⟩
    intro r' hr' ha'
    rw [h a r' hr' r hr ha' ha]
  · exact .inl ⟨e, he, r, hr, haddress, rfl⟩

/-- One CNAME record leads from `a.` to `b.`, which has one of the two addresses. -/
theorem parseResponseForRequest_orderFree_chain :
    OrderFree messageParser 0 exampleMessage exampleMessage (some exampleRequest)
      exampleQuestion := by
  have hsteady : Steady exampleQuestion exampleMessage.answers := by
    apply steady_of_aliases
    intro a
    have hone : ∀ r ∈ exampleMessage.answers, (r.aliasAt 1 a).isSome → r.ttl = 60 := by
      simp [exampleMessage, aliasAt]
    intro r hr r' hr' ha ha'
    rw [hone r hr ha, hone r' hr' ha']
  have hmatch : Matches exampleMessage exampleMessage.header exampleQuestion :=
    matches_example rfl rfl
  have hreq : (some exampleRequest).bind Request.msg =
    some ⟨exampleMessage.header, [exampleQuestion], []⟩ := rfl
  have hm : messageParser.unpack exampleMessage = .ok exampleMessage := rfl
  rw [parseResponseForRequest_orderFree_iff messageParser_faithful hm hreq hmatch
    fun answers' _ => ⟨_, rfl⟩]
  exact .inr (.inr hsteady)

end BypassCore.DNS
