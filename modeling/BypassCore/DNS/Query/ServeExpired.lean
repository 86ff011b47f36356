import BypassCore.DNS.Cache.Migration
import BypassCore.DNS.Query.Basic

/-!
# Serving expired records

A server that serves stale answers keeps an expired record for `serveExpiredTTL` seconds, or for
ever when that is zero. The cache holds the number negated as an `int32`. A query compares it with
the remaining TTL, which is negative then, and a cleanup adds it to the clock. Up to `2 ^ 31` the
two mean the same window. Beyond, the negation is positive: a query serves no expired record, and a
cleanup removes records that have not expired.
-/

namespace BypassCore.DNS

open Lib Option CacheController IPOption

/-- The cache, and whether its periodic cleanup was ever started. -/
structure Cleaned where
  state : State
  started : Bool

namespace Cleaned

def init (serveStale : Bool) (serveExpiredTTL : UInt32) : Cleaned :=
  ⟨State.init false serveStale serveExpiredTTL, false⟩

/-- A record that is stored starts the cleanup, unless stale records are kept for ever. -/
def starts (c : CacheController) : Step → Bool
  | .updateRecord _ _ _ =>
    !(c.disableCache || c.closed) && (!c.serveStale || c.serveExpiredTTL != 0)
  | _ => false

def beginsCleanup : Step → Bool
  | .collectExpiredKeys _ _ => true
  | _ => false

/-- The critical sections; a cleanup comes from the periodic task. -/
def step (s : Cleaned) (e : Step) : Option Cleaned :=
  if beginsCleanup e && !s.started then none
  else (DNS.step s.state e).map fun t => ⟨t, s.started || starts s.state.cache e⟩

end Cleaned

variable (c : CacheController)

def AnswersExpired (now : Int) (d : String) (f : Family) (r : IPRecord) : Prop :=
  c.queryIP now now d (.only f) = .stale (getIPs now (some r)).1 (getIPs now (some r)).2.2

def Answers (c : CacheController) (now : Int) (d : String) (f : Family) : Prop :=
  c.queryIP now now d (.only f) ≠ .fetch ∧ c.queryIP now now d (.only f) ≠ .closed

/-- The window for expired records is the configured one: a query answers from a record that expired
some whole seconds ago exactly within it, and a cleanup leaves alone what a query answers from. -/
structure ServesWindow (serveStale : Bool) (serveExpiredTTL : UInt32) : Prop where
  answers : ∀ es s, run Cleaned.step (.init serveStale serveExpiredTTL) es = some s →
    s.state.cache.closed = false → ∀ d f r, s.state.cache.found d f = some r →
      ∀ now e, 1 ≤ e → e < 2 ^ 31 → r.expire = now - e * second →
        (AnswersExpired s.state.cache now d f r ↔
          serveStale = true ∧ (serveExpiredTTL = 0 ∨ e < serveExpiredTTL.toNat))
  keeps : ∀ es s, run Cleaned.step (.init serveStale serveExpiredTTL) es = some s →
    ∀ i now s', s.step (.writeAndShrink i now) = some s' →
      ∀ d f r, s.state.cache.found d f = some r → Answers s.state.cache now d f →
        s'.state.cache.found d f = some r

/-- The stored window is the negated one as long as that fits an `int32`. -/
lemma toInt_neg_toInt32 (n : UInt32) :
    (-n.toInt32).toInt = if n.toNat ≤ 2 ^ 31 then -(n.toNat : Int) else 2 ^ 32 - n.toNat := by
  have hn := n.toNat_lt
  have h : n.toInt32.toInt = (n.toNat : Int).bmod (2 ^ 32) := by
    rw [← Int32.toInt_toBitVec, BitVec.toInt_eq_toNat_bmod]
    rfl
  rw [Int32.toInt_neg, h]
  split_ifs <;> simp only [Int.bmod] <;> omega

/-! ### Queries for one family -/

section Queries

variable {c : CacheController} {now : Int} {d : String} {f : Family} {r : IPRecord}

lemma merge_only (f : Family) (rec : Record) (now : Int) :
    merge (.only f) now now rec.a rec.aaaa [] = getIPs now (rec.get f) := by
  cases f <;> simp [merge, mergeSingle, only]

section Found

variable (hopen : c.closed = false) (hcache : c.disableCache = false)
  (hfound : c.found d f = some r)
include hopen hcache hfound

lemma queryIP_only :
    c.queryIP now now d (.only f) =
      if 0 < r.ttl now then
        .hit (getIPs now (some r)).1 (r.ttl now).toUInt32 (getIPs now (some r)).2.2
      else if c.serveStale && (c.serveExpiredTTL == 0 || c.serveExpiredTTL < r.ttl now) then
        .stale (getIPs now (some r)).1 (getIPs now (some r)).2.2 else .fetch := by
  obtain ⟨rec, hrec, hget⟩ := bind_eq_some_iff.mp hfound
  have hthere : ((only f).ipv4Enable && rec.a.isNone ||
      (only f).ipv6Enable && rec.aaaa.isNone) = false := by
    cases f with
    | v4 => simp [only, show rec.a = some r from hget]
    | v6 => simp [only, show rec.aaaa = some r from hget]
  rw [queryIP, hopen, hcache, hrec]
  simp only [Bool.false_eq_true, if_false, hthere, merge_only, hget, getIPs_err, getIPs_ttl]

/-- Within which window a query answers from an expired record. -/
lemma answersExpired_iff {e : Int} (hpos : 1 ≤ e) (he : e < 2 ^ 31)
    (hexpire : r.expire = now - e * second) :
    AnswersExpired c now d f r ↔
      c.serveStale = true ∧ (c.serveExpiredTTL.toInt = 0 ∨ c.serveExpiredTTL.toInt < -e) := by
  have httl : (r.ttl now).toInt = -e :=
    toInt_ttl_eq (by omega) (by omega) (by rw [hexpire, neg_mul, sub_eq_add_neg])
  have hneg : ¬ 0 < r.ttl now := by
    rw [Int32.lt_iff_toInt_lt, Int32.toInt_zero]
    omega
  rw [AnswersExpired, queryIP_only hopen hcache hfound]
  rw [← httl, ← Int32.lt_iff_toInt_lt, ← Int32.toInt_zero, Int32.toInt_inj]
  split_ifs with hstale
  · simpa using hstale
  · simpa using hstale

lemma not_answers_of_expired (hwindow : c.serveStale = true → c.serveExpiredTTL.toInt < 0)
    (hexpire : r.expire < c.cleanupTime now) : c.queryIP now now d (.only f) = .fetch := by
  have hrange := c.serveExpiredTTL.le_toInt
  rw [queryIP_only hopen hcache hfound]
  cases hstale : c.serveStale with
  | false =>
    have httl : (r.ttl now).toInt ≤ 0 := by
      refine toInt_ttl_le (by omega) ?_
      rw [cleanupTime, hstale] at hexpire
      simp only [Bool.false_and, Bool.false_eq_true, if_false] at hexpire
      omega
    rw [if_neg]
    · rfl
    · rw [Int32.lt_iff_toInt_lt, Int32.toInt_zero]
      omega
  | true =>
    have hneg := hwindow hstale
    have hne : c.serveExpiredTTL ≠ 0 := by
      rw [Ne, ← Int32.toInt_inj]
      exact hneg.ne
    have httl : (r.ttl now).toInt ≤ c.serveExpiredTTL.toInt := by
      refine toInt_ttl_le hrange ?_
      rw [cleanupTime, hstale] at hexpire
      simp only [Bool.true_and, bne_iff_ne, ne_eq, hne, not_false_eq_true, if_true] at hexpire
      omega
    have hpast : ¬ 0 < r.ttl now := by
      rw [Int32.lt_iff_toInt_lt, Int32.toInt_zero]
      omega
    have hout : ¬ c.serveExpiredTTL < r.ttl now := by
      rw [Int32.lt_iff_toInt_lt]
      omega
    rw [if_neg hpast, if_neg (by simp [hne, hout])]

end Found

end Queries

variable {d : String} {f : Family} {r : IPRecord} {s : Cleaned}

lemma recordOf_foldl_cleanupKey {time : Int} (keys : List String)
    {ips : GoMap String Record} (h : recordOf ips d f = some r) (hlive : ¬ r.expire < time) :
    recordOf (keys.foldl (cleanupKey time) ips) d f = some r := by
  induction keys generalizing ips with
  | nil => exact h
  | cons k keys ih =>
    apply ih
    rw [recordOf_cleanupKey, h, if_neg]
    rintro ⟨-, hexpired⟩
    exact hlive (by simpa [expiredBefore] using hexpired)

lemma found_of_idle {c : CacheController} (hidle : c.dirtyips = none) (d : String) (f : Family) :
    c.found d f = recordOf c.ips d f := by
  rw [found, findRecords, hidle, bind_none, or_none]
  rfl

lemma found_writeAndShrink {c : CacheController}
    (keys : List String) {now : Int} (h : c.found d f = some r)
    (hlive : ¬ r.expire < c.cleanupTime now) :
    (c.writeAndShrink keys now).1.found d f = some r := by
  cases hdirty : c.dirtyips with
  | some dirtyips =>
    rw [writeAndShrink, if_pos (by simp [hdirty])]
    exact h
  | none =>
    rw [found_of_idle hdirty] at h
    have hclean := recordOf_foldl_cleanupKey keys h hlive
    rcases writeAndShrink_cases hdirty keys now rfl with ⟨-, hnone, hips⟩ | ⟨-, hsome, hips⟩
    · rw [found_of_idle hnone, hips]
      exact hclean
    · -- the cleaned map was set aside, and the new one is empty
      rw [found, findRecords, hips, hsome]
      exact hclean

/-! ### Runs -/

/-- What never changes: the settings; and stale records that are kept for ever are never cleaned. -/
structure Configured (serveStale : Bool) (serveExpiredTTL : UInt32) (s : Cleaned) : Prop where
  cached : s.state.cache.disableCache = false
  stale : s.state.cache.serveStale = serveStale
  window : s.state.cache.serveExpiredTTL = -serveExpiredTTL.toInt32
  unbounded : serveStale = true → serveExpiredTTL = 0 → s.started = false ∧ s.state.cleanups = []

def CacheController.settings : Bool × Bool × Int32 :=
  (c.disableCache, c.serveStale, c.serveExpiredTTL)

lemma settings_updateRecord (f : Family) (d : String) (rep : IPRecord) :
    (c.updateRecord f d rep).1.settings = c.settings := by
  unfold updateRecord
  split_ifs
  · rfl
  · cases f <;> rfl

lemma settings_writeAndShrink (keys : List String) (now : Int) :
    (c.writeAndShrink keys now).1.settings = c.settings := by
  unfold writeAndShrink
  dsimp only
  split_ifs <;> rfl

variable {serveStale : Bool} {serveExpiredTTL : UInt32}

/-- Nothing changes the settings, and only the collection of keys adds a cleanup. -/
lemma keeps_step {s s' : State} {e : Step} (h : step s e = some s') :
    s'.cache.settings = s.cache.settings ∧
      (Cleaned.beginsCleanup e = false → s.cleanups = [] → s'.cleanups = []) := by
  cases e with
  | updateRecord f d rep =>
    cases h
    exact ⟨settings_updateRecord _ _ _ _, fun _ hnil => hnil⟩
  | collectExpiredKeys now ord =>
    cases h
    refine ⟨?_, fun he => by cases he⟩
    split_ifs <;> rfl
  | writeAndShrink i now =>
    obtain ⟨keys, hkeys, rfl⟩ := map_eq_some_iff.mp h
    refine ⟨settings_writeAndShrink _ _ _, fun _ hnil => ?_⟩
    rw [hnil] at hkeys
    cases hkeys
  | migrate i ord =>
    simp only [step] at h
    split at h
    · split at h <;> cases h <;> exact ⟨rfl, fun _ hnil => hnil⟩
    · cases h
  | flush i =>
    simp only [step] at h
    split at h
    · split_ifs at h
      cases h
      exact ⟨rfl, fun _ hnil => hnil⟩
    · cases h
  | clearDirty i =>
    simp only [step] at h
    split at h <;> cases h
    exact ⟨rfl, fun _ hnil => hnil⟩
  | close =>
    cases h
    exact ⟨rfl, fun _ hnil => hnil⟩

lemma Configured.step {s' : Cleaned} {e : Step} (h : Configured serveStale serveExpiredTTL s)
    (hstep : s.step e = some s') : Configured serveStale serveExpiredTTL s' := by
  unfold Cleaned.step at hstep
  split_ifs at hstep with hblocked
  obtain ⟨t, ht, rfl⟩ := map_eq_some_iff.mp hstep
  have hsettings := (keeps_step ht).1
  simp only [settings, Prod.mk.injEq] at hsettings
  obtain ⟨hdisable, hstale, hexpired⟩ := hsettings
  refine ⟨hdisable.trans h.cached, hstale.trans h.stale, hexpired.trans h.window, ?_⟩
  intro htrue hzero
  obtain ⟨hstarted, hnil⟩ := h.unbounded htrue hzero
  have hbegins : Cleaned.beginsCleanup e = false := by simpa [hstarted] using hblocked
  refine ⟨?_, (keeps_step ht).2 hbegins hnil⟩
  rw [hstarted]
  cases e with
  | updateRecord f d rep =>
    simp [Cleaned.starts, h.stale, h.window, htrue, hzero]
  | _ => rfl

lemma configured_of_run {es : List Step}
    (hr : run Cleaned.step (.init serveStale serveExpiredTTL) es = some s) :
    Configured serveStale serveExpiredTTL s := by
  refine run_invariant (fun s e s' hs he => hs.step he) ?_ hr
  exact ⟨rfl, rfl, rfl, fun _ _ => ⟨rfl, rfl⟩⟩

lemma Configured.answers (h : Configured serveStale serveExpiredTTL s)
    (hsmall : serveStale = true → serveExpiredTTL.toNat ≤ 2 ^ 31)
    (hopen : s.state.cache.closed = false)
    (hfound : s.state.cache.found d f = some r) {now e : Int} (hpos : 1 ≤ e) (he : e < 2 ^ 31)
    (hexpire : r.expire = now - e * second) :
    AnswersExpired s.state.cache now d f r ↔
      serveStale = true ∧ (serveExpiredTTL = 0 ∨ e < serveExpiredTTL.toNat) := by
  rw [answersExpired_iff hopen h.cached hfound hpos he hexpire, h.stale, h.window]
  refine and_congr_right fun hstale => ?_
  rw [toInt_neg_toInt32, if_pos (hsmall hstale), ← UInt32.toNat_inj, UInt32.toNat_zero]
  omega

lemma Configured.keeps {s' : Cleaned} (h : Configured serveStale serveExpiredTTL s)
    (hsmall : serveStale = true → serveExpiredTTL.toNat ≤ 2 ^ 31) {i : Nat} {now : Int}
    (hstep : s.step (.writeAndShrink i now) = some s')
    (hfound : s.state.cache.found d f = some r) (hanswers : Answers s.state.cache now d f) :
    s'.state.cache.found d f = some r := by
  obtain ⟨t, ht, rfl⟩ := map_eq_some_iff.mp hstep
  obtain ⟨keys, hkeys, rfl⟩ := map_eq_some_iff.mp ht
  refine found_writeAndShrink keys hfound ?_
  intro hexpired
  -- a record that the cleanup takes for expired would not be answered from
  have hopen : s.state.cache.closed = false := by
    rw [← Bool.not_eq_true]
    intro hclosed
    exact hanswers.2 (by rw [queryIP, if_pos hclosed])
  refine hanswers.1 (not_answers_of_expired hopen h.cached hfound ?_ hexpired)
  intro hstale
  rw [h.stale] at hstale
  rw [h.window, toInt_neg_toInt32, if_pos (hsmall hstale)]
  have hzero : serveExpiredTTL.toNat ≠ 0 := by
    intro hzero
    rw [(h.unbounded hstale (UInt32.toNat_inj.mp hzero)).2] at hkeys
    cases hkeys
  omega

def justExpired : IPRecord := ⟨0, [[10, 0, 0, 1]], -second, 0, none⟩

def storedOne (serveStale : Bool) (serveExpiredTTL : UInt32) : Cleaned where
  state :=
    { State.init false serveStale serveExpiredTTL with
      cache := ((State.init false serveStale serveExpiredTTL).cache.updateRecord .v4 "a."
        justExpired).1
      history := [.wrote "a." .v4 justExpired] }
  started := !serveStale || -serveExpiredTTL.toInt32 != 0

lemma run_storedOne (serveStale : Bool) (serveExpiredTTL : UInt32) :
    run Cleaned.step (.init serveStale serveExpiredTTL) [.updateRecord .v4 "a." justExpired] =
      some (storedOne serveStale serveExpiredTTL) := rfl

lemma found_storedOne (serveStale : Bool) (serveExpiredTTL : UInt32) :
    (storedOne serveStale serveExpiredTTL).state.cache.found "a." .v4 = some justExpired := rfl

/-- Beyond `2 ^ 31` seconds no expired record is answered from. -/
lemma not_answersExpired_storedOne (hbig : ¬ serveExpiredTTL.toNat ≤ 2 ^ 31) :
    ¬ AnswersExpired (storedOne serveStale serveExpiredTTL).state.cache 0 "a." .v4
      justExpired := by
  rw [answersExpired_iff rfl rfl (found_storedOne serveStale serveExpiredTTL) le_rfl
    (by norm_num) (by simp [justExpired])]
  have hpositive : (storedOne serveStale serveExpiredTTL).state.cache.serveExpiredTTL.toInt =
      2 ^ 32 - serveExpiredTTL.toNat :=
    (toInt_neg_toInt32 serveExpiredTTL).trans (if_neg hbig)
  have hlt := serveExpiredTTL.toNat_lt
  omega

lemma not_servesWindow (hstale : serveStale = true) (hbig : ¬ serveExpiredTTL.toNat ≤ 2 ^ 31) :
    ¬ ServesWindow serveStale serveExpiredTTL := by
  intro h
  have hiff := h.answers _ _ (run_storedOne serveStale serveExpiredTTL) rfl _ _ _
    (found_storedOne serveStale serveExpiredTTL) 0 1 le_rfl (by norm_num)
    (by simp [justExpired])
  exact not_answersExpired_storedOne hbig (hiff.mpr ⟨hstale, .inr (by omega)⟩)

/-- **The window for expired records.** It is the configured one exactly when the server does not
serve stale answers or the configured number of seconds is at most `2 ^ 31`. -/
theorem servesWindow_iff (serveStale : Bool) (serveExpiredTTL : UInt32) :
    ServesWindow serveStale serveExpiredTTL ↔
      (serveStale = true → serveExpiredTTL.toNat ≤ 2 ^ 31) := by
  constructor
  · intro h hstale
    by_contra hbig
    exact not_servesWindow hstale hbig h
  · intro hsmall
    constructor
    · intro es s hr hopen d f r hfound now e hpos he hexpire
      exact (configured_of_run hr).answers hsmall hopen hfound hpos he hexpire
    · intro es s hr i now s' hstep d f r hfound hanswers
      exact (configured_of_run hr).keeps hsmall hstep hfound hanswers

/-- With a window of three billion seconds a record that expired one second ago is not served. -/
theorem not_servesWindow_three_billion :
    ¬ AnswersExpired (storedOne true 3000000000).state.cache 0 "a." .v4 justExpired ∧
      ¬ ServesWindow true 3000000000 :=
  ⟨not_answersExpired_storedOne (by decide), not_servesWindow rfl (by decide)⟩

end BypassCore.DNS
