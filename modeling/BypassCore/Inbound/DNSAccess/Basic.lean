import BypassCore.Lib.Except
import BypassCore.Lib.GoMap
import BypassCore.Lib.TokenBucket

/-!
# Access policy of the DNS inbound

The rate limiters of `app/inbound/dns_access.go`, and the function that makes them from the
configuration. Token amounts are exact, and a time is a number of nanoseconds.
-/

namespace BypassCore.Inbound

open Lib GoMap

def maximumDNSRate : Int := 1000000

def maximumDNSRateClients : Nat := 4096

def seconds (d : Int) : ℚ := d / 10 ^ 9

def dnsRateClientIdleRetention : Int := 300 * 10 ^ 9

/-- `time.Time.Sub`, cut to the largest or the smallest duration. -/
def timeSub (t u : Int) : Int := max (-2 ^ 63) (min (2 ^ 63 - 1) (t - u))

structure DNSRateEntry where
  tokens : ℚ
  lastSeen : Int

structure DNSRateLimiter (IP : Type) where
  rate : ℚ
  burst : ℚ
  maxClients : Nat
  clients : GoMap IP DNSRateEntry
  checks : UInt64

/-- The global limiter; its time is zero until the first call. -/
structure DNSGlobalRateLimiter where
  rate : ℚ
  burst : ℚ
  tokens : ℚ
  lastSeen : Option Int

/-- The part of the configuration that the policy reads. -/
structure Config where
  dnsAllowedClients : List String
  dnsQueriesPerSecond : Int
  dnsQueryBurst : Int
  dnsGlobalQueriesPerSecond : Int
  dnsGlobalQueryBurst : Int

structure DNSAccessPolicy (IP P : Type) where
  allowed : List P
  perSource : Option (DNSRateLimiter IP)
  global : Option DNSGlobalRateLimiter

def ensureRate (field : String) (n : Int) : Except String Unit :=
  ensure (0 ≤ n ∧ n ≤ maximumDNSRate)
    ("DNS inbound: " ++ field ++ " must be between 0 and 1000000")

def ensureRequires (burstField rateField : String) (burst rate : Int) : Except String Unit :=
  ensure (¬ (rate = 0 ∧ burst ≠ 0)) ("DNS inbound: " ++ burstField ++ " requires " ++ rateField)

def burstOf (burst rate : Int) : Int := if burst = 0 then rate else burst

/-- The policy of a configuration. `parsePrefix` is `netip.ParsePrefix` with the masking and the
error text that the source puts around it. -/
def newDNSAccessPolicy {IP P : Type} (parsePrefix : String → Except String P) (cfg : Config) :
    Except String (DNSAccessPolicy IP P) := do
  let allowed ← cfg.dnsAllowedClients.mapM parsePrefix
  ensureRate "dnsQueriesPerSecond" cfg.dnsQueriesPerSecond
  ensureRate "dnsQueryBurst" cfg.dnsQueryBurst
  ensureRate "dnsGlobalQueriesPerSecond" cfg.dnsGlobalQueriesPerSecond
  ensureRate "dnsGlobalQueryBurst" cfg.dnsGlobalQueryBurst
  ensureRequires "dnsQueryBurst" "dnsQueriesPerSecond" cfg.dnsQueryBurst cfg.dnsQueriesPerSecond
  ensureRequires "dnsGlobalQueryBurst" "dnsGlobalQueriesPerSecond" cfg.dnsGlobalQueryBurst
    cfg.dnsGlobalQueriesPerSecond
  let perSource :=
    if 0 < cfg.dnsQueriesPerSecond then
      some ⟨cfg.dnsQueriesPerSecond, burstOf cfg.dnsQueryBurst cfg.dnsQueriesPerSecond,
        maximumDNSRateClients, ∅, 0⟩
    else none
  let global :=
    if 0 < cfg.dnsGlobalQueriesPerSecond then
      let burst := burstOf cfg.dnsGlobalQueryBurst cfg.dnsGlobalQueriesPerSecond
      some ⟨cfg.dnsGlobalQueriesPerSecond, burst, burst, none⟩
    else none
  return ⟨allowed, perSource, global⟩

def refilled (rate burst tokens : ℚ) (lastSeen now : Int) : ℚ :=
  let tokens := tokens + seconds (timeSub now lastSeen) * rate
  if burst < tokens then burst else tokens

namespace DNSRateLimiter

variable {IP : Type}

def removeIdle (l : DNSRateLimiter IP) (now : Int) : DNSRateLimiter IP :=
  { l with
    clients := l.clients.keep fun _ entry => !(entry.lastSeen < now - dnsRateClientIdleRetention) }

/-- The count of a call, and the sweep that comes with every 256th. -/
def check (l : DNSRateLimiter IP) (now : Int) : DNSRateLimiter IP :=
  let l := { l with checks := l.checks + 1 }
  if l.checks % 256 = 0 then l.removeIdle now else l

variable [DecidableEq IP]

/-- The end of `allow`: a token is taken from the entry if it has one, and the entry is stored. -/
def take (l : DNSRateLimiter IP) (ip : IP) (entry : DNSRateEntry) : Bool × DNSRateLimiter IP :=
  if entry.tokens < 1 then (false, { l with clients := l.clients.insert ip entry })
  else
    (true, { l with clients := l.clients.insert ip { entry with tokens := entry.tokens - 1 } })

def allow (l : DNSRateLimiter IP) (ip : IP) (now : Int) : Bool × DNSRateLimiter IP :=
  let l := l.check now
  match l.clients.lookup ip with
  | none =>
    if l.maxClients ≤ l.clients.len then
      let l := l.removeIdle now
      if l.maxClients ≤ l.clients.len then (false, l) else l.take ip ⟨l.burst, now⟩
    else l.take ip ⟨l.burst, now⟩
  | some entry => l.take ip ⟨refilled l.rate l.burst entry.tokens entry.lastSeen now, now⟩

/-- `allow` as a step: a call is a source and a time. -/
def step (l : DNSRateLimiter IP) (c : IP × Int) : Bool × DNSRateLimiter IP := l.allow c.1 c.2

end DNSRateLimiter

namespace DNSGlobalRateLimiter

def advance (l : DNSGlobalRateLimiter) (now : Int) : DNSGlobalRateLimiter :=
  match l.lastSeen with
  | none => { l with lastSeen := some now }
  | some lastSeen =>
    { l with tokens := refilled l.rate l.burst l.tokens lastSeen now, lastSeen := some now }

def allow (l : DNSGlobalRateLimiter) (now : Int) : Bool × DNSGlobalRateLimiter :=
  let l := l.advance now
  if l.tokens < 1 then (false, l) else (true, { l with tokens := l.tokens - 1 })

end DNSGlobalRateLimiter

/-- What every per-source limiter that is made satisfies. -/
structure DNSRateLimiter.Configured {IP : Type} (l : DNSRateLimiter IP) (rate burst : Nat) :
    Prop where
  rate_eq : l.rate = rate
  burst_eq : l.burst = burst
  rate_pos : 0 < rate
  rate_le : rate ≤ 1000000
  burst_pos : 0 < burst
  maxClients_eq : l.maxClients = maximumDNSRateClients
  clients_eq : l.clients = ∅
  checks_eq : l.checks = 0

lemma ensureRate_eq_ok {field : String} {n : Int} {u : Unit} :
    ensureRate field n = .ok u ↔ 0 ≤ n ∧ n ≤ maximumDNSRate := by
  simp [ensureRate, ensure_eq_ok]

lemma burstOf_pos {burst rate : Int} (hburst : 0 ≤ burst) (hrate : 0 < rate) :
    0 < burstOf burst rate := by
  rw [burstOf]
  split_ifs with h0
  · exact hrate
  · omega

lemma newDNSAccessPolicy_perSource {IP P : Type} {parsePrefix : String → Except String P}
    {cfg : Config} {policy : DNSAccessPolicy IP P} {l : DNSRateLimiter IP}
    (h : newDNSAccessPolicy parsePrefix cfg = .ok policy) (hl : policy.perSource = some l) :
    ∃ rate burst : Nat, l.Configured rate burst := by
  simp only [newDNSAccessPolicy, bind_eq_ok, ensureRate_eq_ok] at h
  obtain ⟨allowed, -, -, hrate, -, hburst, -, -, -, -, -, -, -, -, h⟩ := h
  cases h
  simp only [Option.ite_none_right_eq_some, Option.some.injEq] at hl
  obtain ⟨hpos, rfl⟩ := hl
  have hburstOf := burstOf_pos hburst.1 hpos
  have hmax : maximumDNSRate = 1000000 := rfl
  have hcast {n : Int} (hn : 0 < n) : (n : ℚ) = n.toNat := by
    exact_mod_cast (Int.toNat_of_nonneg hn.le).symm
  refine ⟨cfg.dnsQueriesPerSecond.toNat,
    (burstOf cfg.dnsQueryBurst cfg.dnsQueriesPerSecond).toNat, ?_⟩
  exact
    { rate_eq := hcast hpos
      burst_eq := hcast hburstOf
      rate_pos := by omega
      rate_le := by omega
      burst_pos := by omega
      maxClients_eq := rfl
      clients_eq := rfl
      checks_eq := rfl }

/-- A global limiter starts with a full bucket. -/
lemma newDNSAccessPolicy_global {IP P : Type} {parsePrefix : String → Except String P}
    {cfg : Config} {policy : DNSAccessPolicy IP P} {l : DNSGlobalRateLimiter}
    (h : newDNSAccessPolicy parsePrefix cfg = .ok policy) (hl : policy.global = some l) :
    0 ≤ l.rate ∧ 0 ≤ l.burst ∧ l.tokens = l.burst ∧ l.lastSeen = none := by
  simp only [newDNSAccessPolicy, bind_eq_ok, ensureRate_eq_ok] at h
  obtain ⟨allowed, -, -, -, -, -, -, -, -, hburst, -, -, -, -, h⟩ := h
  cases h
  simp only [Option.ite_none_right_eq_some, Option.some.injEq] at hl
  obtain ⟨hpos, rfl⟩ := hl
  have hcast {n : Int} (hn : 0 < n) : (0 : ℚ) ≤ n := by exact_mod_cast hn.le
  exact ⟨hcast hpos, hcast (burstOf_pos hburst.1 hpos), rfl, rfl⟩

/-!
## The bound on the rate of a source

The level of a source is what its entry holds now, and the burst while it has none. A sweep raises
the level of a source that it forgets, unless five minutes fill the bucket: then the limiter is a
token bucket for every source.
-/

variable {IP : Type} {l l' : DNSRateLimiter IP} {ip : IP} {now : Int}

lemma seconds_mono {t u : Int} (h : t ≤ u) : seconds t ≤ seconds u := by
  rw [seconds, seconds]
  have : (t : ℚ) ≤ u := by exact_mod_cast h
  linarith

lemma seconds_sub (t u : Int) : seconds (t - u) = seconds t - seconds u := by
  rw [seconds, seconds, seconds, Int.cast_sub]
  ring

lemma le_of_seconds_le {t u : Int} (h : seconds t ≤ seconds u) : t ≤ u := by
  rw [seconds, seconds] at h
  have : (t : ℚ) ≤ u := by linarith
  exact_mod_cast this

lemma seconds_zero : seconds 0 = 0 := by simp [seconds]

lemma refilled_eq_min (rate burst tokens : ℚ) (lastSeen now : Int) :
    refilled rate burst tokens lastSeen now =
      min burst (tokens + seconds (timeSub now lastSeen) * rate) := by
  simp only [refilled, min_def]
  split_ifs <;> linarith

lemma timeSub_le {t u : Int} (h : u ≤ t) : timeSub t u ≤ t - u := by
  rw [timeSub]
  omega

lemma timeSub_nonneg {t u : Int} (h : u ≤ t) : 0 ≤ timeSub t u := by
  rw [timeSub]
  omega

section Content

variable {rate burst t t' : ℚ} {entry : DNSRateEntry}

def content (rate burst : ℚ) (entry : DNSRateEntry) (t : ℚ) : ℚ :=
  min burst (entry.tokens + (t - seconds entry.lastSeen) * rate)

lemma content_le : content rate burst entry t ≤ burst := min_le_left _ _

lemma content_now (rate burst tokens : ℚ) (now : Int) :
    content rate burst ⟨tokens, now⟩ (seconds now) = min burst tokens := by
  rw [content, sub_self, zero_mul, add_zero]

lemma content_nonneg (hrate : 0 ≤ rate) (hburst : 0 ≤ burst) (htokens : 0 ≤ entry.tokens)
    (hseen : seconds entry.lastSeen ≤ t) : 0 ≤ content rate burst entry t :=
  le_min hburst (add_nonneg htokens (mul_nonneg (sub_nonneg.mpr hseen) hrate))

lemma content_refill (hrate : 0 ≤ rate) (ht : t ≤ t') :
    content rate burst entry t' ≤ content rate burst entry t + rate * (t' - t) := by
  have hgain : 0 ≤ rate * (t' - t) := mul_nonneg hrate (sub_nonneg.mpr ht)
  rw [content, content, min_add]
  refine le_min ?_ ?_
  · exact (min_le_left _ _).trans (by linarith)
  · exact (min_le_right _ _).trans (le_of_eq (by ring))

/-- What an entry is refilled to is at most its content: the difference of two times may be cut. -/
lemma refilled_le_content (hrate : 0 ≤ rate) (hseen : seconds entry.lastSeen ≤ seconds now) :
    refilled rate burst entry.tokens entry.lastSeen now ≤
      content rate burst entry (seconds now) := by
  have helapsed : seconds (timeSub now entry.lastSeen) ≤ seconds now - seconds entry.lastSeen := by
    rw [← seconds_sub]
    exact seconds_mono (timeSub_le (le_of_seconds_le hseen))
  have hgain := mul_le_mul_of_nonneg_right helapsed hrate
  rw [refilled_eq_min]
  exact min_le_min le_rfl (by linarith)

lemma refilled_nonneg (hrate : 0 ≤ rate) (hburst : 0 ≤ burst) (htokens : 0 ≤ entry.tokens)
    (hseen : seconds entry.lastSeen ≤ seconds now) :
    0 ≤ refilled rate burst entry.tokens entry.lastSeen now := by
  have helapsed := seconds_mono (timeSub_nonneg (le_of_seconds_le hseen))
  rw [seconds_zero] at helapsed
  rw [refilled_eq_min]
  exact le_min hburst (add_nonneg htokens (mul_nonneg helapsed hrate))

end Content

namespace DNSRateLimiter

/-! ### What a call can do -/

@[simp] lemma removeIdle_maxClients (l : DNSRateLimiter IP) (now : Int) :
    (l.removeIdle now).maxClients = l.maxClients := rfl

variable [DecidableEq IP]

structure Swept (now : Int) (l l' : DNSRateLimiter IP) : Prop where
  rate_eq : l'.rate = l.rate
  burst_eq : l'.burst = l.burst
  maxClients_eq : l'.maxClients = l.maxClients
  len_le : l'.clients.len ≤ l.clients.len
  lookup : ∀ ip, l'.clients.lookup ip = l.clients.lookup ip ∨
    ∃ entry, l.clients.lookup ip = some entry ∧
      entry.lastSeen < now - dnsRateClientIdleRetention ∧ l'.clients.lookup ip = none

lemma Swept.trans {l'' : DNSRateLimiter IP} (h : Swept now l l') (h' : Swept now l' l'') :
    Swept now l l'' where
  rate_eq := h'.rate_eq.trans h.rate_eq
  burst_eq := h'.burst_eq.trans h.burst_eq
  maxClients_eq := h'.maxClients_eq.trans h.maxClients_eq
  len_le := h'.len_le.trans h.len_le
  lookup := by
    intro ip
    rcases h.lookup ip with h1 | ⟨entry, h1, hidle, hnone⟩
    · rw [← h1]
      exact h'.lookup ip
    · rcases h'.lookup ip with h2 | ⟨entry', h2, -, -⟩
      · exact .inr ⟨entry, h1, hidle, h2.trans hnone⟩
      · rw [hnone] at h2
        cases h2

lemma lookup_removeIdle_of_none (h : l.clients.lookup ip = none) (now : Int) :
    (l.removeIdle now).clients.lookup ip = none := by
  rw [removeIdle, lookup_keep, h]
  rfl

lemma swept_removeIdle (l : DNSRateLimiter IP) (now : Int) : Swept now l (l.removeIdle now) where
  rate_eq := rfl
  burst_eq := rfl
  maxClients_eq := rfl
  len_le := len_keep_le _ _
  lookup := by
    intro ip
    rw [removeIdle, lookup_keep]
    cases h : l.clients.lookup ip with
    | none => exact .inl rfl
    | some entry =>
      by_cases hidle : entry.lastSeen < now - dnsRateClientIdleRetention
      · exact .inr ⟨entry, rfl, hidle, by rw [Option.filter_some, decide_eq_true hidle]; rfl⟩
      · exact .inl (by rw [Option.filter_some, decide_eq_false hidle]; rfl)

lemma swept_check (l : DNSRateLimiter IP) (now : Int) : Swept now l (l.check now) := by
  have hcount : Swept now l { l with checks := l.checks + 1 } :=
    ⟨rfl, rfl, rfl, le_rfl, fun _ => .inl rfl⟩
  rw [check]
  split_ifs
  · exact hcount.trans (swept_removeIdle _ now)
  · exact hcount

/-- What a call can do: after a sweep it is refused, or it takes from a new entry in a table that
is not full, or it takes from the entry of its source. -/
lemma allow_cases (l : DNSRateLimiter IP) (ip : IP) (now : Int) :
    ∃ l', Swept now l l' ∧ (l.allow ip now = (false, l') ∨
      (l'.clients.lookup ip = none ∧ l'.clients.len < l'.maxClients ∧
        l.allow ip now = l'.take ip ⟨l'.burst, now⟩) ∨
      ∃ entry, l'.clients.lookup ip = some entry ∧ l.allow ip now =
        l'.take ip ⟨refilled l'.rate l'.burst entry.tokens entry.lastSeen now, now⟩) := by
  have hcheck := swept_check l now
  rw [allow]
  cases hlookup : (l.check now).clients.lookup ip with
  | some entry => exact ⟨_, hcheck, .inr (.inr ⟨entry, hlookup, by simp⟩)⟩
  | none =>
    have hswept := hcheck.trans (swept_removeIdle (l.check now) now)
    by_cases hfull : (l.check now).maxClients ≤ (l.check now).clients.len
    · by_cases hstill : (l.check now).maxClients ≤ ((l.check now).removeIdle now).clients.len
      · exact ⟨_, hswept, .inl (by simp [hfull, hstill])⟩
      · refine ⟨_, hswept, .inr (.inl ⟨?_, not_le.mp hstill, ?_⟩)⟩
        · exact lookup_removeIdle_of_none hlookup now
        · simp [hfull, hstill]
    · exact ⟨_, hcheck, .inr (.inl ⟨hlookup, not_le.mp hfull, by simp [hfull]⟩)⟩

def Within (N : Nat) (l : DNSRateLimiter IP) : Prop := l.maxClients = N ∧ l.clients.len ≤ N

variable {entry : DNSRateEntry}

/-- What `take` stores: the tokens that are left, with the one that is taken at most what there
was. -/
lemma take_spec (l : DNSRateLimiter IP) (ip : IP) (entry : DNSRateEntry) :
    ∃ k, (l.take ip entry).2 = { l with clients := l.clients.insert ip ⟨k, entry.lastSeen⟩ } ∧
      (0 ≤ entry.tokens → 0 ≤ k) ∧ k + (if (l.take ip entry).1 then 1 else 0) ≤ entry.tokens := by
  rw [take]
  by_cases hlt : entry.tokens < 1
  · rw [if_pos hlt]
    exact ⟨entry.tokens, rfl, id, by simp⟩
  · rw [if_neg hlt]
    exact ⟨entry.tokens - 1, rfl, fun _ => sub_nonneg.mpr (not_lt.mp hlt), by simp⟩

lemma within_take {N : Nat} (h : l.Within N)
    (hroom : l.clients.lookup ip = none ∧ l.clients.len < l.maxClients ∨
      ∃ entry, l.clients.lookup ip = some entry) :
    (l.take ip entry).2.Within N := by
  obtain ⟨k, htake, -, -⟩ := take_spec l ip entry
  rw [htake]
  refine ⟨h.1, ?_⟩
  rcases hroom with ⟨hnone, hroom⟩ | ⟨_, hentry⟩
  · exact (len_insert_of_none hnone _).trans_le (h.1 ▸ hroom)
  · exact (len_insert_of_some hentry _).trans_le h.2

lemma within_step {N : Nat} (l : DNSRateLimiter IP) (c : IP × Int) (h : l.Within N) :
    (l.step c).2.Within N := by
  obtain ⟨l', hswept, hcall⟩ := allow_cases l c.1 c.2
  have hl' : l'.Within N := ⟨hswept.maxClients_eq.trans h.1, hswept.len_le.trans h.2⟩
  rw [step]
  rcases hcall with hcall | ⟨hnone, hroom, hcall⟩ | ⟨entry, hentry, hcall⟩
  · rw [hcall]
    exact hl'
  · rw [hcall]
    exact within_take hl' (.inl ⟨hnone, hroom⟩)
  · rw [hcall]
    exact within_take hl' (.inr ⟨entry, hentry⟩)

/-! ### The level of a source -/

/-- What the entry of a source holds at a time, and the burst if there is none. -/
def level (ip : IP) (l : DNSRateLimiter IP) (t : ℚ) : ℚ :=
  match l.clients.lookup ip with
  | none => l.burst
  | some entry => content l.rate l.burst entry t

structure Valid (rate burst : ℚ) (l : DNSRateLimiter IP) (t : ℚ) : Prop where
  rate_eq : l.rate = rate
  burst_eq : l.burst = burst
  entries : ∀ ip entry, l.clients.lookup ip = some entry →
    0 ≤ entry.tokens ∧ seconds entry.lastSeen ≤ t

variable {rate burst : ℚ} {t t' : ℚ}

lemma level_of_none (h : l.clients.lookup ip = none) : level ip l t = l.burst := by
  simp only [level, h]

lemma level_of_some (h : l.clients.lookup ip = some entry) :
    level ip l t = content l.rate l.burst entry t := by
  simp only [level, h]

lemma Valid.later (h : l.Valid rate burst t) (ht : t ≤ t') : l.Valid rate burst t' :=
  ⟨h.rate_eq, h.burst_eq, fun ip entry he => ⟨(h.entries ip entry he).1,
    (h.entries ip entry he).2.trans ht⟩⟩

lemma Valid.swept (h : l.Valid rate burst t) (hs : Swept now l l') : l'.Valid rate burst t where
  rate_eq := hs.rate_eq.trans h.rate_eq
  burst_eq := hs.burst_eq.trans h.burst_eq
  entries := by
    intro ip entry he
    rcases hs.lookup ip with h1 | ⟨_, _, _, h1⟩
    · exact h.entries ip entry (h1 ▸ he)
    · rw [h1] at he
      cases he

variable {tokens : ℚ}

lemma Valid.take (h : l.Valid rate burst (seconds now)) (htokens : 0 ≤ tokens) :
    (l.take ip ⟨tokens, now⟩).2.Valid rate burst (seconds now) := by
  obtain ⟨k, htake, hk, -⟩ := take_spec l ip ⟨tokens, now⟩
  rw [htake]
  refine ⟨h.rate_eq, h.burst_eq, ?_⟩
  intro ip' entry he
  rw [lookup_insert_eq] at he
  split_ifs at he
  · cases he
    exact ⟨hk htokens, le_rfl⟩
  · exact h.entries ip' entry he

lemma Valid.level_nonneg (h : l.Valid rate burst t) (hrate : 0 ≤ rate) (hburst : 0 ≤ burst) :
    0 ≤ level ip l t := by
  cases hlookup : l.clients.lookup ip with
  | none => rwa [level_of_none hlookup, h.burst_eq]
  | some entry =>
    obtain ⟨htokens, hseen⟩ := h.entries ip entry hlookup
    rw [level_of_some hlookup, h.burst_eq, h.rate_eq]
    exact content_nonneg hrate hburst htokens hseen

lemma Valid.level_le (h : l.Valid rate burst t) : level ip l t ≤ burst := by
  cases hlookup : l.clients.lookup ip with
  | none => rw [level_of_none hlookup, h.burst_eq]
  | some entry =>
    rw [level_of_some hlookup, h.burst_eq]
    exact content_le

lemma Valid.level_refill (h : l.Valid rate burst t) (hrate : 0 ≤ rate) (ht : t ≤ t') :
    level ip l t' ≤ level ip l t + rate * (t' - t) := by
  cases hlookup : l.clients.lookup ip with
  | none =>
    rw [level_of_none hlookup, level_of_none hlookup]
    have := mul_nonneg hrate (sub_nonneg.mpr ht)
    linarith
  | some entry =>
    rw [level_of_some hlookup, level_of_some hlookup, h.rate_eq]
    exact content_refill hrate ht

/-- Five minutes fill the bucket, so that forgetting an idle source does not raise its level. -/
lemma Valid.level_swept (h : l.Valid rate burst (seconds now)) (hs : Swept now l l')
    (hrate : 0 ≤ rate) (hfill : burst ≤ 300 * rate) :
    level ip l' (seconds now) ≤ level ip l (seconds now) := by
  have h' := h.swept hs
  rcases hs.lookup ip with hsame | ⟨entry, hentry, hidle, hnone⟩
  · rw [level, level, hsame, hs.rate_eq, hs.burst_eq]
  · rw [level_of_none hnone, level_of_some hentry, h'.burst_eq, h.burst_eq, h.rate_eq]
    have htokens := (h.entries ip entry hentry).1
    have hseconds : 300 ≤ seconds now - seconds entry.lastSeen := by
      rw [← seconds_sub, show (300 : ℚ) = seconds dnsRateClientIdleRetention by
        norm_num [seconds, dnsRateClientIdleRetention]]
      exact seconds_mono (by omega)
    have := mul_le_mul_of_nonneg_right hseconds hrate
    exact le_min le_rfl (by linarith)

/-- Taking from an entry that holds at most the level of its source. -/
lemma level_take_le (htokens : tokens ≤ level ip l (seconds now)) (ip' : IP) :
    level ip' (l.take ip ⟨tokens, now⟩).2 (seconds now) +
        (if ip' = ip ∧ (l.take ip ⟨tokens, now⟩).1 then 1 else 0) ≤ level ip' l (seconds now) := by
  obtain ⟨k, htake, -, hk⟩ := take_spec l ip ⟨tokens, now⟩
  rw [htake]
  by_cases hip : ip' = ip
  · subst hip
    rw [level_of_some (AList.lookup_insert l.clients), content_now]
    have hmin : min l.burst k ≤ k := min_le_right _ _
    simp only [true_and]
    linarith
  · rw [if_neg (fun h => hip h.1), add_zero, level, level, AList.lookup_insert_ne hip]

def time (c : IP × Int) : ℚ := seconds c.2

/-- What one call does to the level of every source. -/
lemma Valid.step (c : IP × Int) (h : l.Valid rate burst (time c)) (hrate : 0 ≤ rate)
    (hburst : 0 ≤ burst) (hfill : burst ≤ 300 * rate) :
    (l.step c).2.Valid rate burst (time c) ∧
      ∀ ip, level ip (l.step c).2 (time c) + (if ip = c.1 ∧ (l.step c).1 then 1 else 0) ≤
        level ip l (time c) := by
  obtain ⟨l', hswept, hcall⟩ := allow_cases l c.1 c.2
  have h' := h.swept hswept
  have hlevel (ip : IP) : level ip l' (time c) ≤ level ip l (time c) :=
    h.level_swept hswept hrate hfill
  have htake (tokens : ℚ) (h0 : 0 ≤ tokens) (hle : tokens ≤ level c.1 l' (seconds c.2)) :
      (l'.take c.1 ⟨tokens, c.2⟩).2.Valid rate burst (time c) ∧
        ∀ ip, level ip (l'.take c.1 ⟨tokens, c.2⟩).2 (time c) +
          (if ip = c.1 ∧ (l'.take c.1 ⟨tokens, c.2⟩).1 then 1 else 0) ≤ level ip l (time c) :=
    ⟨h'.take h0, fun ip => (level_take_le hle ip).trans (hlevel ip)⟩
  rw [DNSRateLimiter.step]
  rcases hcall with hcall | ⟨hnone, -, hcall⟩ | ⟨entry, hentry, hcall⟩
  · rw [hcall]
    exact ⟨h', fun ip => by simpa using hlevel ip⟩
  · rw [hcall]
    refine htake _ ?_ ?_
    · rwa [h'.burst_eq]
    · rw [level_of_none hnone]
  · rw [hcall]
    obtain ⟨htokens, hseen⟩ := h'.entries c.1 entry hentry
    refine htake _ ?_ ?_
    · rw [h'.rate_eq, h'.burst_eq]
      exact refilled_nonneg hrate hburst htokens hseen
    · rw [level_of_some hentry, h'.rate_eq]
      exact refilled_le_content hrate hseen

lemma isLevel (ip : IP) (hrate : 0 ≤ rate) (hburst : 0 ≤ burst) (hfill : burst ≤ 300 * rate) :
    Level step time (fun c : IP × Int => c.1 = ip) rate burst (Valid rate burst) (level ip) where
  later := Valid.later
  kept := fun h => (h.step _ hrate hburst hfill).1
  nonneg := fun h => h.level_nonneg hrate hburst
  le_burst := Valid.level_le
  refill := fun h => h.level_refill hrate
  other := by
    intro l c h
    have hstep := (h.step c hrate hburst hfill).2 ip
    split_ifs at hstep <;> linarith
  spend := by
    intro l c h hok hc
    simpa [hok, hc] using (h.step c hrate hburst hfill).2 ip

end DNSRateLimiter

end BypassCore.Inbound
