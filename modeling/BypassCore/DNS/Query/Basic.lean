import BypassCore.DNS.Cache.Basic
import BypassCore.Lib.GoTime

/-!
# Queries at a caching name server

`app/dns/nameserver_cached.go`: what a query takes from the cache, and how the records of the two
address families are put together.
-/

namespace BypassCore.DNS

open Lib GoTime CacheController

/-- The fields of `dns.IPOption` that a query reads. -/
structure IPOption where
  ipv4Enable : Bool
  ipv6Enable : Bool
deriving DecidableEq

def IPOption.only : Family → IPOption
  | .v4 => ⟨true, false⟩
  | .v6 => ⟨false, true⟩

def IPOption.enables (option : IPOption) : Family → Bool
  | .v4 => option.ipv4Enable
  | .v6 => option.ipv6Enable

inductive QueryErr where
  | recordNotFound
  | emptyResponse
  | rcode (code : UInt16)
  | closed
  /-- Any other value, by its identity. -/
  | other (id : Nat)
  | base (text : String) (inner : QueryErr)
  | multi (errs : List QueryErr)

namespace QueryErr

/-- `errors.Is`. A `multiError` cannot be compared and does not unwrap. -/
def is : QueryErr → QueryErr → Bool
  | .recordNotFound, .recordNotFound => true
  | .emptyResponse, .emptyResponse => true
  | .rcode code, .rcode code' => code = code'
  | .closed, .closed => true
  | .other id, .other id' => id = id'
  | .base _ inner, target => inner.is target
  | _, _ => false

/-- `errors.Combine`, of errors that are not nil. -/
def combine : List QueryErr → Option QueryErr
  | [] => none
  | e :: es => some (.multi (e :: es))

end QueryErr

/-! ### Records -/

variable (now : Int)

def IPRecord.ttl (r : IPRecord) : Int32 :=
  int32 ⌈seconds (sub r.expire now)⌉

def getIPs : Option IPRecord → List NetIP × Int32 × Option QueryErr
  | none => ([], 0, some .recordNotFound)
  | some r =>
    if r.rCode ≠ 0 then ([], r.ttl now, some (.rcode r.rCode))
    else if r.ip = [] then ([], r.ttl now, some .emptyResponse)
    else (r.ip, r.ttl now, none)

lemma getIPs_ttl (r : IPRecord) : (getIPs now (some r)).2.1 = r.ttl now := by
  simp only [getIPs]
  split_ifs <;> rfl

/-- The TTL of a record that is valid for some whole seconds, or expired some whole seconds ago. -/
lemma toInt_ttl_eq {r : IPRecord} {now n : Int} (hl : -2 ^ 31 ≤ n) (hu : n < 2 ^ 31)
    (h : r.expire = now + n * second) : (r.ttl now).toInt = n := by
  have hsub : GoTime.sub r.expire now = n * GoTime.second := by
    rw [h, GoTime.sub_eq] <;> simp only [second, GoTime.second] <;> omega
  have hsmall : |(n : ℚ)| < 2 ^ 53 := by
    have : |n| < 2 ^ 53 := by
      rw [abs_lt]
      constructor <;> omega
    exact_mod_cast this
  rw [IPRecord.ttl, hsub, GoTime.seconds_mul_second hsmall, Int.ceil_intCast, GoTime.int32,
    if_pos ⟨hl, hu⟩, Int32.toInt_ofInt_of_le hl hu]

lemma toInt_ttl_le {r : IPRecord} {now n : Int} (hlow : -2 ^ 31 ≤ n)
    (h : r.expire ≤ now + n * second) : (r.ttl now).toInt ≤ n := by
  have hsub : sub r.expire now ≤ n * second := by
    simp only [sub, second] at h ⊢
    omega
  have hl : -2 ^ 63 ≤ sub r.expire now := le_max_left _ _
  have hu : sub r.expire now < 2 ^ 63 := by
    rw [sub]
    omega
  have hceil := Int.ceil_le.mpr (seconds_le hl hu hsub)
  rw [IPRecord.ttl, int32]
  split_ifs with hfits
  · rwa [Int32.toInt_ofInt_of_le hfits.1 hfits.2]
  · rw [Int32.toInt_minValue]
    exact hlow

/-- `dns.DefaultTTL`, from which `merge` starts. -/
def defaultMergeTTL : Int32 := 300

/-- What a family adds when both are asked for: its addresses or its error, and its TTL. -/
def mergeFamily (r : Option IPRecord) :
    List NetIP × Int32 × List QueryErr → List NetIP × Int32 × List QueryErr
  | (allIPs, rTTL, errs) =>
    let (ips, ttl, err) := getIPs now r
    let rTTL := if r.isSome && ttl < rTTL then ttl else rTTL
    if ips ≠ [] then (allIPs ++ ips, rTTL, errs) else (allIPs, rTTL, errs ++ err.toList)

def mergeSingle (r : Option IPRecord) (errs : List QueryErr) :
    List NetIP × Int32 × Option QueryErr :=
  match getIPs now r with
  | (ips, ttl, err) =>
    if (err.any fun err => err.is .recordNotFound) && errs ≠ [] then
      ([], ttl, QueryErr.combine errs)
    else (ips, ttl, err)

def mergeResult : List NetIP × Int32 × List QueryErr → List NetIP × Int32 × Option QueryErr
  | (allIPs, rTTL, errs) =>
    if allIPs ≠ [] then (allIPs, rTTL, none)
    else
      match errs with
      | [e, e'] => if e.is e' then ([], rTTL, some e) else ([], rTTL, QueryErr.combine errs)
      | _ => ([], rTTL, QueryErr.combine errs)

/-- `merge`. The two times are those at which the records are read. -/
def merge (option : IPOption) (now4 now6 : Int) (rec4 rec6 : Option IPRecord)
    (errs : List QueryErr) : List NetIP × Int32 × Option QueryErr :=
  match option with
  | ⟨true, true⟩ =>
    mergeResult (mergeFamily now6 rec6 (mergeFamily now4 rec4 ([], defaultMergeTTL, errs)))
  | ⟨true, false⟩ => mergeSingle now4 rec4 errs
  | ⟨false, true⟩ => mergeSingle now6 rec6 errs
  | ⟨false, false⟩ => mergeResult ([], defaultMergeTTL, errs)

def CacheController.found (c : CacheController) (d : String) (f : Family) : Option IPRecord :=
  (c.findRecords d).bind fun r => r.get f

inductive Lookup where
  | closed
  | hit (ips : List NetIP) (ttl : UInt32) (err : Option QueryErr)
  /-- It answers from an expired record, with a TTL of one second, and fetches in the background. -/
  | stale (ips : List NetIP) (err : Option QueryErr)
  | fetch

/-- `queryIP`, up to the point where it fetches. -/
def CacheController.queryIP (c : CacheController) (now4 now6 : Int) (fqdn : String)
    (option : IPOption) : Lookup :=
  if c.closed then .closed
  else if c.disableCache then .fetch
  else
    match c.findRecords fqdn with
    | none => .fetch
    | some r =>
      if option.ipv4Enable && r.a.isNone || option.ipv6Enable && r.aaaa.isNone then .fetch
      else
        match merge option now4 now6 r.a r.aaaa [] with
        | (ips, ttl, err) =>
          if err.any fun err => err.is .recordNotFound then .fetch
          else if 0 < ttl then .hit ips ttl.toUInt32 err
          else if c.serveStale && (c.serveExpiredTTL == 0 || c.serveExpiredTTL < ttl) then
            .stale ips err
          else .fetch

/-!
## Merging the records of two families

The addresses, the TTL and the error that `merge` makes of the records of the families.
-/

/-- The whole seconds for which a record is still valid, rounded up. -/
def IPRecord.remaining (now : Int) (r : IPRecord) : Int := ⌈((r.expire - now : Int) : ℚ) / second⌉

variable {now : Int} {ips : List NetIP} {ttl : Int32} {errs : List QueryErr}

lemma toInt_ttl_le_remaining (now : Int) (r : IPRecord) :
    (r.ttl now).toInt ≤ max 1 (r.remaining now) := by
  refine toInt_ttl_le (by omega) ?_
  have hpos : (0 : ℚ) < second := by
    rw [second]
    norm_num
  have hle := (div_le_iff₀ hpos).mp (Int.le_ceil (((r.expire - now : Int) : ℚ) / second))
  have hle' : r.expire - now ≤ r.remaining now * second := by
    rw [IPRecord.remaining]
    exact_mod_cast hle
  simp only [second] at hle' ⊢
  omega

/-- A record that has been found gives no error for one that has not. -/
lemma getIPs_err (now : Int) (r : IPRecord) :
    ((getIPs now (some r)).2.2.any fun err => err.is .recordNotFound) = false := by
  simp only [getIPs]
  split_ifs <;> rfl

lemma getIPs_err_ne_none {r : Option IPRecord} (h : (getIPs now r).1 = []) :
    (getIPs now r).2.2 ≠ none := by
  cases r with
  | none => exact Option.some_ne_none _
  | some r =>
    simp only [getIPs] at h ⊢
    split_ifs at h ⊢ with hcode hip
    · exact Option.some_ne_none _
    · exact Option.some_ne_none _
    · exact absurd h hip

variable (r : Option IPRecord)

lemma mergeFamily_ips : (mergeFamily now r (ips, ttl, errs)).1 = ips ++ (getIPs now r).1 := by
  by_cases h : (getIPs now r).1 = [] <;> simp [mergeFamily, h]

lemma mergeFamily_errs_ne_nil {r : Option IPRecord} (h : (getIPs now r).1 = []) :
    (mergeFamily now r (ips, ttl, errs)).2.2 ≠ [] := by
  obtain ⟨err, herr⟩ := Option.ne_none_iff_exists'.mp (getIPs_err_ne_none h)
  simp [mergeFamily, h, herr]

lemma mergeFamily_ttl :
    (mergeFamily now r (ips, ttl, errs)).2.1 =
      if r.isSome && (getIPs now r).2.1 < ttl then (getIPs now r).2.1 else ttl := by
  simp only [mergeFamily]
  split_ifs <;> rfl

lemma mergeFamily_ttl_le : (mergeFamily now r (ips, ttl, errs)).2.1.toInt ≤ ttl.toInt := by
  rw [mergeFamily_ttl]
  split_ifs with h
  · rw [Bool.and_eq_true, decide_eq_true_eq] at h
    exact (Int32.lt_iff_toInt_lt.mp h.2).le
  · exact le_rfl

lemma mergeFamily_ttl_le_record (r : IPRecord) :
    (mergeFamily now (some r) (ips, ttl, errs)).2.1.toInt ≤ (r.ttl now).toInt := by
  rw [mergeFamily_ttl, getIPs_ttl]
  split_ifs with h
  · exact le_rfl
  · simpa [Int32.lt_iff_toInt_lt] using h

lemma mergeResult_ttl (m : List NetIP × Int32 × List QueryErr) : (mergeResult m).2.1 = m.2.1 := by
  simp only [mergeResult]
  split_ifs
  · rfl
  · split
    · split_ifs <;> rfl
    · rfl

variable {m : List NetIP × Int32 × List QueryErr}

lemma mergeResult_of_ips_ne_nil (h : m.1 ≠ []) : mergeResult m = (m.1, m.2.1, none) := by
  exact if_pos h

lemma mergeResult_of_ips_nil (h : m.1 = [])
    (herrs : m.2.2 ≠ []) : (mergeResult m).1 = [] ∧ (mergeResult m).2.2 ≠ none := by
  obtain ⟨ips, ttl, errs⟩ := m
  obtain ⟨e, es, rfl⟩ := List.exists_cons_of_ne_nil herrs
  simp only at h
  simp only [mergeResult, h, ne_eq, not_true_eq_false, if_false]
  split
  · split_ifs <;> exact ⟨rfl, nofun⟩
  · exact ⟨rfl, nofun⟩

/-! ## Fresh answers from the cache -/

open List Option

/-- The addresses that a record gives: none if its code is a failure. -/
def IPRecord.addresses (r : IPRecord) : List NetIP := if r.rCode = 0 then r.ip else []

/-- The records that are merged, with the times at which they are read, A before AAAA. -/
def enabledRecords (option : IPOption) (now : Family → Int) (records : Family → Option IPRecord) :
    List (Int × IPRecord) :=
  [Family.v4, Family.v6].flatMap fun f =>
    if option.enables f then (records f).toList.map fun r => (now f, r) else []

structure Merged (rs : List (Int × IPRecord)) (m : List NetIP × Int32 × Option QueryErr) :
    Prop where
  ips : m.1 = rs.flatMap fun r => r.2.addresses
  ttl : ∀ r ∈ rs, m.2.1.toInt ≤ (r.2.ttl r.1).toInt
  err : m.2.2 ≠ none ↔ m.1 = []

lemma getIPs_addresses (now : Int) (r : IPRecord) : (getIPs now (some r)).1 = r.addresses := by
  simp only [getIPs, IPRecord.addresses]
  by_cases hcode : r.rCode = 0
  · by_cases hip : r.ip = [] <;> simp [hcode, hip]
  · simp [hcode]

lemma merged_single (now : Int) (r : IPRecord) : Merged [(now, r)] (getIPs now (some r)) := by
  refine ⟨?_, ?_, ?_⟩
  · rw [getIPs_addresses, flatMap_singleton]
  · rw [forall_mem_singleton, getIPs_ttl]
  · refine ⟨?_, getIPs_err_ne_none⟩
    intro herr
    simp only [getIPs] at herr ⊢
    split_ifs at herr ⊢
    · rfl
    · rfl
    · exact absurd rfl herr

lemma merged_both (now4 now6 : Int) (r4 r6 : IPRecord) :
    Merged [(now4, r4), (now6, r6)] (merge ⟨true, true⟩ now4 now6 (some r4) (some r6) []) := by
  rw [merge]
  set m4 := mergeFamily now4 (some r4) ([], defaultMergeTTL, []) with hm4
  set m6 := mergeFamily now6 (some r6) m4 with hm6
  have hips4 : m4.1 = r4.addresses := by
    rw [mergeFamily_ips, getIPs_addresses, nil_append]
  have hips : m6.1 = r4.addresses ++ r6.addresses := by
    rw [mergeFamily_ips, getIPs_addresses, hips4]
  have hle : m6.2.1.toInt ≤ m4.2.1.toInt := mergeFamily_ttl_le _
  have hresult : (mergeResult m6).1 = m6.1 ∧ ((mergeResult m6).2.2 ≠ none ↔ m6.1 = []) := by
    by_cases hnil : m6.1 = []
    · have hnil6 : (getIPs now6 (some r6)).1 = [] := by
        rw [getIPs_addresses]
        exact (append_eq_nil_iff.mp (hips.symm.trans hnil)).2
      obtain ⟨hfirst, herr⟩ := mergeResult_of_ips_nil hnil (mergeFamily_errs_ne_nil hnil6)
      exact ⟨hfirst.trans hnil.symm, iff_of_true herr hnil⟩
    · rw [mergeResult_of_ips_ne_nil hnil]
      exact ⟨rfl, iff_of_false (fun h => h rfl) hnil⟩
  refine ⟨?_, ?_, ?_⟩
  · rw [hresult.1, hips]
    simp
  · rw [mergeResult_ttl, forall_mem_cons, forall_mem_singleton]
    exact ⟨hle.trans (mergeFamily_ttl_le_record r4), mergeFamily_ttl_le_record r6⟩
  · rw [hresult.2, hresult.1]

section Query

variable {c c' : CacheController} {option : IPOption} {now : Family → Int} {fqdn : String}
  {records records' : Family → Option IPRecord}

lemma merged_merge (hoption : ∃ f, option.enables f = true)
    (hfound : ∀ f, option.enables f = true → ∃ r, records f = some r) :
    Merged (enabledRecords option now records)
      (merge option (now .v4) (now .v6) (records .v4) (records .v6) []) := by
  obtain ⟨b4, b6⟩ := option
  cases b4 with
  | true =>
    obtain ⟨r4, hr4⟩ := hfound .v4 rfl
    cases b6 with
    | true =>
      obtain ⟨r6, hr6⟩ := hfound .v6 rfl
      have hrecords : enabledRecords ⟨true, true⟩ now records = [(now .v4, r4), (now .v6, r6)] := by
        simp [enabledRecords, IPOption.enables, hr4, hr6]
      rw [hrecords, hr4, hr6]
      exact merged_both _ _ r4 r6
    | false =>
      have hrecords : enabledRecords ⟨true, false⟩ now records = [(now .v4, r4)] := by
        simp [enabledRecords, IPOption.enables, hr4]
      rw [hrecords, hr4, merge, mergeSingle]
      simpa using merged_single (now .v4) r4
  | false =>
    cases b6 with
    | true =>
      obtain ⟨r6, hr6⟩ := hfound .v6 rfl
      have hrecords : enabledRecords ⟨false, true⟩ now records = [(now .v6, r6)] := by
        simp [enabledRecords, IPOption.enables, hr6]
      rw [hrecords, hr6, merge, mergeSingle]
      simpa using merged_single (now .v6) r6
    | false =>
      obtain ⟨f, hf⟩ := hoption
      cases f <;> cases hf

lemma merge_congr (h : ∀ f, option.enables f = true → records f = records' f)
    (errs : List QueryErr) :
    merge option (now .v4) (now .v6) (records .v4) (records .v6) errs =
      merge option (now .v4) (now .v6) (records' .v4) (records' .v6) errs := by
  obtain ⟨b4, b6⟩ := option
  cases b4 <;> cases b6
  · rfl
  · simp only [merge, h .v6 rfl]
  · simp only [merge, h .v4 rfl]
  · simp only [h .v4 rfl, h .v6 rfl]

def missing (option : IPOption) (records : Family → Option IPRecord) : Bool :=
  option.ipv4Enable && (records .v4).isNone || option.ipv6Enable && (records .v6).isNone

lemma missing_congr (h : ∀ f, option.enables f = true → records f = records' f) :
    missing option records = missing option records' := by
  obtain ⟨b4, b6⟩ := option
  cases b4 <;> cases b6
  · rfl
  · simp only [missing, h .v6 rfl, Bool.false_and]
  · simp only [missing, h .v4 rfl, Bool.false_and]
  · simp only [missing, h .v4 rfl, h .v6 rfl]

lemma exists_of_not_missing (h : missing option records = false) {f : Family}
    (hf : option.enables f = true) : ∃ r, records f = some r := by
  rw [missing, Bool.or_eq_false_iff, Bool.and_eq_false_imp, Bool.and_eq_false_imp] at h
  cases f with
  | v4 => exact isSome_iff_exists.mp (isNone_eq_false_iff.mp (h.1 hf))
  | v6 => exact isSome_iff_exists.mp (isNone_eq_false_iff.mp (h.2 hf))

variable (c now fqdn) in
lemma queryIP_eq (hoption : ∃ f, option.enables f = true) :
    c.queryIP (now .v4) (now .v6) fqdn option =
      if c.closed then .closed
      else if c.disableCache then .fetch
      else if missing option (c.found fqdn) then .fetch
      else
        match merge option (now .v4) (now .v6) (c.found fqdn .v4) (c.found fqdn .v6) [] with
        | (ips, ttl, err) =>
          if err.any fun err => err.is .recordNotFound then .fetch
          else if 0 < ttl then .hit ips ttl.toUInt32 err
          else if c.serveStale && (c.serveExpiredTTL == 0 || c.serveExpiredTTL < ttl) then
            .stale ips err
          else .fetch := by
  rw [queryIP]
  cases hrecords : c.findRecords fqdn with
  | none =>
    have hmissing : missing option (c.found fqdn) = true := by
      obtain ⟨f, hf⟩ := hoption
      have hnone : ∀ f, c.found fqdn f = none := by
        intro f
        rw [found, hrecords]
        rfl
      cases f <;> simp_all [missing, IPOption.enables]
    rw [if_pos hmissing]
  | some r =>
    have hfound : ∀ f, c.found fqdn f = r.get f := by
      intro f
      rw [found, hrecords]
      rfl
    simp only [missing, hfound]
    rfl

/-- A fresh answer is merged from the records of the families that are asked for. -/
lemma queryIP_eq_hit (hoption : ∃ f, option.enables f = true) {ips : List NetIP} {ttl : UInt32}
    {err : Option QueryErr} (h : c.queryIP (now .v4) (now .v6) fqdn option = .hit ips ttl err) :
    (∀ f, option.enables f = true → ∃ r, c.found fqdn f = some r) ∧
      ∃ t : Int32, merge option (now .v4) (now .v6) (c.found fqdn .v4) (c.found fqdn .v6) [] =
        (ips, t, err) ∧ 0 < t ∧ ttl = t.toUInt32 := by
  rw [queryIP_eq c now fqdn hoption] at h
  split_ifs at h with hclosed hdisable hmissing
  refine ⟨fun f => exists_of_not_missing (Bool.not_eq_true _ ▸ hmissing), ?_⟩
  split at h
  next ips' t err' hmerge =>
    split_ifs at h with hnone hpos
    cases h
    exact ⟨t, hmerge, hpos, rfl⟩

lemma toNat_toUInt32 {t : Int32} (h : 0 < t) : (t.toUInt32.toNat : Int) = t.toInt := by
  have hnonneg := Int32.lt_iff_toInt_lt.mp h
  rw [Int32.toNat_toUInt32_of_le (Int32.le_of_lt h), Int32.toNatClampNeg,
    Int.toNat_of_nonneg hnonneg.le]

variable {r : IPRecord}

lemma lt_expire_of_ttl_pos {now : Int} (h : 0 < (r.ttl now).toInt) : now < r.expire := by
  by_contra hle
  have hzero : (r.ttl now).toInt ≤ 0 := toInt_ttl_le (by omega) (by omega)
  omega

lemma remaining_pos {now : Int} (h : now < r.expire) : 1 ≤ r.remaining now := by
  rw [IPRecord.remaining, Int.one_le_ceil_iff]
  have hpos : (0 : ℚ) < second := by
    rw [second]
    norm_num
  have hsub : (0 : ℚ) < (r.expire - now : Int) := by exact_mod_cast Int.sub_pos.mpr h
  exact div_pos hsub hpos

variable (c option now fqdn) in
/-- A fresh answer: each family that is asked for has a record that is valid at the time it is read,
for as long as the TTL says, and the addresses are theirs. -/
structure Fresh (ips : List NetIP) (ttl : UInt32) (err : Option QueryErr) : Prop where
  records : ∀ f, option.enables f = true → ∃ r, c.found fqdn f = some r ∧ now f < r.expire ∧
    0 < (r.ttl (now f)).toInt ∧ (ttl.toNat : Int) ≤ (r.ttl (now f)).toInt ∧
      (ttl.toNat : Int) ≤ r.remaining (now f)
  addresses : ips = (enabledRecords option now (c.found fqdn)).flatMap fun r => r.2.addresses
  positive : 0 < ttl.toNat
  failed : err ≠ none ↔ ips = []

lemma mem_enabledRecords {f : Family} (hf : option.enables f = true)
    (hr : records f = some r) : (now f, r) ∈ enabledRecords option now records := by
  refine mem_flatMap.mpr ⟨f, by cases f <;> simp, ?_⟩
  rw [if_pos hf, hr]
  exact mem_singleton_self _

/-- A query that is answered from the cache as fresh has the answer of the valid records of the
families that are asked for, and no other record changes what a query does. -/
theorem queryIP_fresh (hoption : ∃ f, option.enables f = true) :
    (∀ ips ttl err, c.queryIP (now .v4) (now .v6) fqdn option = .hit ips ttl err →
      Fresh c option now fqdn ips ttl err) ∧
    ∀ c' : CacheController, c'.closed = c.closed → c'.disableCache = c.disableCache →
      c'.serveStale = c.serveStale → c'.serveExpiredTTL = c.serveExpiredTTL →
      (∀ f, option.enables f = true → c'.found fqdn f = c.found fqdn f) →
        c'.queryIP (now .v4) (now .v6) fqdn option = c.queryIP (now .v4) (now .v6) fqdn option := by
  constructor
  · intro ips ttl err h
    obtain ⟨hfound, t, hmerge, hpos, rfl⟩ := queryIP_eq_hit hoption h
    have hmerged : Merged (enabledRecords option now (c.found fqdn)) (ips, t, err) :=
      hmerge ▸ merged_merge hoption hfound
    have ht : 0 < t.toInt := by
      exact Int32.lt_iff_toInt_lt.mp hpos
    refine ⟨?_, hmerged.ips, ?_, hmerged.err⟩
    · intro f hf
      obtain ⟨r, hr⟩ := hfound f hf
      have hle : t.toInt ≤ (r.ttl (now f)).toInt :=
        hmerged.ttl (now f, r) (mem_enabledRecords hf hr)
      have hvalid := lt_expire_of_ttl_pos (ht.trans_le hle)
      have hmax := toInt_ttl_le_remaining (now f) r
      have hone := remaining_pos hvalid
      rw [toNat_toUInt32 hpos]
      exact ⟨r, hr, hvalid, ht.trans_le hle, hle, by omega⟩
    · have hnat := toNat_toUInt32 hpos
      omega
  · intro c' hclosed hdisable hstale hexpired hfound
    rw [queryIP_eq c' now fqdn hoption, queryIP_eq c now fqdn hoption, hclosed, hdisable, hstale,
      hexpired, missing_congr hfound, merge_congr hfound]

end Query

/-! #### A record with a failure code -/

variable (rCode : UInt16)

def fiveMinutes : IPRecord := ⟨1, [[10, 0, 0, 1]], 300 * second, rCode, none⟩

def storedRecord : CacheController :=
  ((newCacheController false false 0).updateRecord .v4 "a." (fiveMinutes rCode)).1

lemma found_storedRecord : (storedRecord rCode).found "a." .v4 = some (fiveMinutes rCode) := by
  rfl

lemma ttl_fiveMinutes : (fiveMinutes rCode).ttl 0 = 300 := by
  rw [← Int32.toInt_inj]
  exact toInt_ttl_eq (by decide) (by decide) (zero_add _).symm

lemma queryIP_storedRecord :
    (storedRecord rCode).queryIP 0 0 "a." ⟨true, false⟩ =
      .hit (fiveMinutes rCode).addresses 300 (getIPs 0 (some (fiveMinutes rCode))).2.2 := by
  have hmerge : merge ⟨true, false⟩ 0 0 ((storedRecord rCode).found "a." .v4)
      ((storedRecord rCode).found "a." .v6) [] = getIPs 0 (some (fiveMinutes rCode)) := by
    rw [found_storedRecord, merge, mergeSingle]
    simp
  have hoption : ∃ f, IPOption.enables ⟨true, false⟩ f = true := ⟨.v4, rfl⟩
  have hquery := queryIP_eq (storedRecord rCode) (fun _ => 0) "a." hoption
  simp only [hmerge] at hquery
  rw [hquery, ← getIPs_addresses 0, getIPs_ttl, ttl_fiveMinutes, getIPs_err]
  rfl

/-- The answer from a record with a failure code does not have its addresses. -/
theorem queryIP_failure_code :
    (storedRecord 3).found "a." .v4 = some (fiveMinutes 3) ∧ (fiveMinutes 3).ip = [[10, 0, 0, 1]] ∧
      (storedRecord 3).queryIP 0 0 "a." ⟨true, false⟩ = .hit [] 300 (some (.rcode 3)) := by
  refine ⟨found_storedRecord 3, rfl, ?_⟩
  rw [queryIP_storedRecord]
  rfl

def oneMinute : IPRecord := ⟨2, [List.replicate 15 0 ++ [1]], 60 * second, 0, none⟩

def storedBoth : CacheController := ((storedRecord 0).updateRecord .v6 "a." oneMinute).1

lemma ttl_oneMinute : oneMinute.ttl 0 = 60 := by
  rw [← Int32.toInt_inj]
  exact toInt_ttl_eq (by decide) (by decide) (zero_add _).symm

/-- Records of both families with success: the addresses of both, for the shorter time. -/
theorem queryIP_fresh_stored :
    storedBoth.queryIP 0 0 "a." ⟨true, true⟩ = .hit ((fiveMinutes 0).ip ++ oneMinute.ip) 60 none ∧
      Fresh storedBoth ⟨true, true⟩ (fun _ => 0) "a." ((fiveMinutes 0).ip ++ oneMinute.ip) 60
        none := by
  have hoption : ∃ f, IPOption.enables ⟨true, true⟩ f = true := ⟨.v4, rfl⟩
  have hmerge : merge ⟨true, true⟩ 0 0 (storedBoth.found "a." .v4) (storedBoth.found "a." .v6) [] =
      ((fiveMinutes 0).ip ++ oneMinute.ip, 60, none) := by
    have h4 : storedBoth.found "a." .v4 = some (fiveMinutes 0) := rfl
    have h6 : storedBoth.found "a." .v6 = some oneMinute := rfl
    rw [h4, h6, merge, mergeFamily, mergeFamily, getIPs, getIPs, ttl_fiveMinutes, ttl_oneMinute]
    rfl
  have hquery := queryIP_eq storedBoth (fun _ => 0) "a." hoption
  simp only [hmerge] at hquery
  exact ⟨hquery, (queryIP_fresh hoption).1 _ _ _ hquery⟩

end BypassCore.DNS
