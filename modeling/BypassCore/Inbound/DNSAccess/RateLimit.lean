import BypassCore.Inbound.DNSAccess.Basic

/-!
# When the limit per source holds

A source that spends its burst and stays away for a little more than five minutes is forgotten by
the next sweep and gets a full bucket. That is within the limit exactly when its bucket would have
been full by then.
-/

namespace BypassCore.Inbound

open Lib AList

namespace DNSRateLimiter

variable {IP : Type}

def InOrder (calls : List (IP × Int)) : Prop := calls.Pairwise fun c c' => c.2 ≤ c'.2

variable {l : DNSRateLimiter IP} {rate burst : Nat}

/-! ### A source that is forgotten -/

def held (l : DNSRateLimiter IP) (ip : IP) (tokens : Nat) (t : Int) (n : Nat) : DNSRateLimiter IP :=
  { l with clients := singleton ip ⟨tokens, t⟩, checks := UInt64.ofNat n }

def emptied (l : DNSRateLimiter IP) (n : Nat) : DNSRateLimiter IP :=
  { l with clients := ∅, checks := UInt64.ofNat n }

variable {ip : IP} {t : Int} {tokens n : Nat}

lemma removeIdle_held (l : DNSRateLimiter IP) (ip : IP) (tokens n : Nat) (t now : Int) :
    (held l ip tokens t n).removeIdle now =
      if t < now - dnsRateClientIdleRetention then emptied l n else held l ip tokens t n := by
  split_ifs with h
  all_goals
    simp only [removeIdle, held, emptied, mk.injEq, true_and, and_true]
    refine ext ?_
    simp only [GoMap.keep, singleton_entries, List.filter_singleton, h]
    rfl

lemma count_held (l : DNSRateLimiter IP) (ip : IP) (tokens : Nat) (t : Int) (n : Nat) :
    { held l ip tokens t n with checks := (held l ip tokens t n).checks + 1 } =
      held l ip tokens t (n + 1) := by
  simp [held]

lemma check_held (l : DNSRateLimiter IP) (ip : IP) (tokens : Nat) (t : Int) (n : Nat) :
    (held l ip tokens t n).check t = held l ip tokens t (n + 1) := by
  rw [check, count_held]
  split_ifs
  · rw [removeIdle_held, if_neg]
    rw [dnsRateClientIdleRetention]
    omega
  · rfl

def forgetTime : Int := dnsRateClientIdleRetention + 1

/-- A source spends its burst at time zero, with refused calls up to the 255th of a round. It is
back with a burst at the time at which it is forgotten. -/
def forgottenCalls (ip : IP) (burst : Nat) : List (IP × Int) :=
  List.replicate (256 * burst + 255) (ip, 0) ++ List.replicate burst (ip, forgetTime)

lemma inOrder_forgottenCalls (ip : IP) (burst : Nat) : InOrder (forgottenCalls ip burst) := by
  rw [forgottenCalls, InOrder, List.pairwise_append]
  have hsame (m : Nat) (c : IP × Int) : (List.replicate m c).Pairwise fun c c' => c.2 ≤ c'.2 :=
    List.pairwise_replicate.mpr (.inr le_rfl)
  refine ⟨hsame _ _, hsame _ _, ?_⟩
  intro c hc c' hc'
  rw [List.eq_of_mem_replicate hc, List.eq_of_mem_replicate hc']
  show (0 : Int) ≤ forgetTime
  decide

lemma Configured.check_zero (h : l.Configured rate burst) : l.check 0 = emptied l 1 := by
  simp [check, emptied, h.checks_eq, ← h.clients_eq]

/-- The first call of the second burst is the last of a round, and its sweep forgets the source. -/
lemma check_forgotten (l : DNSRateLimiter IP) (ip : IP) (k : Nat) :
    (held l ip 0 0 (256 * k + 255)).check forgetTime = emptied l (256 * k + 256) := by
  have hround : UInt64.ofNat (256 * k + 256) % 256 = 0 := by
    rw [← UInt64.toNat_inj]
    show (256 * k + 256) % 18446744073709551616 % 256 = 0
    omega
  rw [check, count_held]
  exact (if_pos hround).trans ((removeIdle_held ..).trans (if_pos (by decide)))

variable [DecidableEq IP]

/-- A call from a source in a window of `d` seconds. -/
def InWindow (ip : IP) (start d : ℚ) (c : IP × Int) : Prop :=
  c.1 = ip ∧ start ≤ time c ∧ time c ≤ start + d

instance (ip : IP) (start d : ℚ) : DecidablePred (InWindow ip start d) :=
  fun _ => inferInstanceAs (Decidable (_ ∧ _))

/-- Every window of `d` seconds sees at most `burst + rate * d` admitted calls of a source. -/
def RateLimited (l : DNSRateLimiter IP) : Prop :=
  ∀ (calls : List (IP × Int)) (ip : IP) (start d : ℚ), InOrder calls → 0 ≤ d →
    (admitted step (InWindow ip start d) l calls : ℚ) ≤ l.burst + l.rate * d

lemma Configured.rateLimited (h : l.Configured rate burst) (hfill : burst ≤ 300 * rate) :
    l.RateLimited := by
  intro calls ip start d hcalls hd
  have hvalid (t : ℚ) : l.Valid rate burst t := by
    refine ⟨h.rate_eq, h.burst_eq, ?_⟩
    intro ip entry he
    rw [h.clients_eq] at he
    cases he
  have hlevel : Level step time (fun c : IP × Int => c.1 = ip) (rate : ℚ) burst
      (Valid rate burst) (level ip) :=
    isLevel ip (Nat.cast_nonneg rate) (Nat.cast_nonneg burst) (by exact_mod_cast hfill)
  rw [h.rate_eq, h.burst_eq]
  exact hlevel.admitted_le (fun c => Iff.rfl) (Nat.cast_nonneg rate) (Nat.cast_nonneg burst) hd
    (fun c _ => hvalid (time c)) (hcalls.imp fun hc => seconds_mono hc)

lemma take_tokens (l : DNSRateLimiter IP) (n tokens : Nat) (t : Int)
    (entries : GoMap IP DNSRateEntry)
    (hentries : ∀ entry, entries.insert ip entry = singleton ip entry) :
    take { l with clients := entries, checks := UInt64.ofNat n } ip ⟨tokens, t⟩ =
      (decide (1 ≤ tokens), held l ip (tokens - 1) t n) := by
  cases tokens with
  | zero => simp [take, held, hentries]
  | succ k =>
    have : ¬ ((k : ℚ) + 1 < 1) := by
      linarith
    simp [take, held, hentries]

/-- A call at the time of the last one takes a token if there is one. -/
lemma step_held (hburst : l.burst = burst) (htokens : tokens ≤ burst) :
    (held l ip tokens t n).step (ip, t) =
      (decide (1 ≤ tokens), held l ip (tokens - 1) t (n + 1)) := by
  have hlookup : (held l ip tokens t (n + 1)).clients.lookup ip = some ⟨tokens, t⟩ := by
    simp [held, lookup]
  have hfull : refilled l.rate l.burst tokens t t = tokens := by
    have : timeSub t t = 0 := by simp [timeSub]
    rw [refilled_eq_min, this, seconds_zero, zero_mul, add_zero, hburst]
    exact min_eq_right (by exact_mod_cast htokens)
  rw [step, allow, check_held]
  simp only [hlookup]
  rw [show (held l ip tokens t (n + 1)).rate = l.rate from rfl,
    show (held l ip tokens t (n + 1)).burst = l.burst from rfl, hfull]
  exact take_tokens l (n + 1) tokens t _ fun _ => insert_singleton_eq

lemma step_of_check (hburst : l.burst = burst) (hmax : 0 < l.maxClients)
    {l' : DNSRateLimiter IP} (hcheck : l'.check t = emptied l n) :
    l'.step (ip, t) = (decide (1 ≤ burst), held l ip (burst - 1) t n) := by
  have hlookup : (emptied l n).clients.lookup ip = none := rfl
  have hroom : ¬ (emptied l n).maxClients ≤ (emptied l n).clients.len := by
    simpa [emptied, GoMap.len, Nat.pos_iff_ne_zero] using hmax
  rw [step, allow, hcheck]
  simp only [if_neg hroom]
  rw [show (emptied l n).burst = burst from hburst]
  exact take_tokens l n burst t ∅ fun _ => insert_empty ip _

section Counting

variable {p : IP × Int → Prop} [DecidablePred p]

/-- Calls at one time are admitted while there are tokens. -/
lemma admitted_held (hp : p (ip, t)) (hburst : l.burst = burst) (htokens : tokens ≤ burst)
    (m : Nat) :
    admitted step p (held l ip tokens t n) (List.replicate m (ip, t)) = min m tokens ∧
      after step (held l ip tokens t n) (List.replicate m (ip, t)) =
        held l ip (tokens - m) t (n + m) := by
  induction m generalizing tokens n with
  | zero => simp [admitted, after]
  | succ m ih =>
    obtain ⟨hadmitted, hafter⟩ := ih (n := n + 1) (show tokens - 1 ≤ burst by omega)
    rw [List.replicate_succ, admitted, after, step_held hburst htokens, hafter]
    refine ⟨?_, ?_⟩
    · simp only [hp, and_true, decide_eq_true_eq]
      split_ifs <;> omega
    · rw [show tokens - 1 - m = tokens - (m + 1) by omega, show n + 1 + m = n + (m + 1) by omega]

/-- Calls at one time, of a source that has no entry after the check. -/
lemma admitted_of_check (hp : p (ip, t)) (hburst : l.burst = burst) (hmax : 0 < l.maxClients)
    {l' : DNSRateLimiter IP} (hcheck : l'.check t = emptied l n) (m : Nat) :
    admitted step p l' (List.replicate (m + 1) (ip, t)) = min (m + 1) burst ∧
      after step l' (List.replicate (m + 1) (ip, t)) = held l ip (burst - (m + 1)) t (n + m) := by
  obtain ⟨hadmitted, hafter⟩ :=
    admitted_held (n := n) hp hburst (show burst - 1 ≤ burst by omega) m
  rw [List.replicate_succ, admitted, after, step_of_check hburst hmax hcheck, hafter]
  refine ⟨?_, ?_⟩
  · simp only [hp, and_true, decide_eq_true_eq]
    split_ifs <;> omega
  · rw [show burst - 1 - m = burst - (m + 1) by omega]

end Counting

lemma admitted_forgottenCalls (h : l.Configured rate burst) (ip : IP)
    {p : IP × Int → Prop} [DecidablePred p] (h0 : p (ip, 0)) (h1 : p (ip, forgetTime)) :
    admitted step p l (forgottenCalls ip burst) = burst + burst := by
  have hmax : 0 < l.maxClients := by
    rw [h.maxClients_eq]
    decide
  have hpos := h.burst_pos
  obtain ⟨hfirst, hafter⟩ :=
    admitted_of_check h0 h.burst_eq hmax h.check_zero (256 * burst + 254)
  obtain ⟨m, hm⟩ := Nat.exists_eq_add_of_lt hpos
  rw [Nat.zero_add] at hm
  rw [show burst - (256 * burst + 254 + 1) = 0 by omega,
    show 1 + (256 * burst + 254) = 256 * burst + 255 by omega] at hafter
  have hsecond := (admitted_of_check h1 h.burst_eq hmax (check_forgotten l ip burst) m).1
  rw [← hm] at hsecond
  rw [forgottenCalls, admitted_append, hafter, hfirst]
  omega

/-- A bucket that five minutes do not fill is filled by forgetting it. -/
lemma Configured.not_rateLimited (h : l.Configured rate burst) (hlt : 300 * rate < burst)
    (ip : IP) : ¬ l.RateLimited := by
  intro hlimited
  have hstop : time (ip, forgetTime) = 300 + 1 / 10 ^ 9 := by
    norm_num [time, seconds, forgetTime, dnsRateClientIdleRetention]
  have hbound := hlimited (forgottenCalls ip burst) ip 0 (300 + 1 / 10 ^ 9)
    (inOrder_forgottenCalls ip burst) (by norm_num)
  rw [admitted_forgottenCalls h ip, h.rate_eq, h.burst_eq] at hbound
  · have hrate : (rate : ℚ) ≤ 1000000 := by exact_mod_cast h.rate_le
    have hburst : (300 * rate + 1 : ℚ) ≤ burst := by exact_mod_cast hlt
    push_cast at hbound
    linarith
  · refine ⟨rfl, ?_, ?_⟩ <;> norm_num [time, seconds]
  · exact ⟨rfl, by rw [hstop]; norm_num, by rw [hstop, zero_add]⟩

/-- One query per second with a burst of 301: an accepted configuration that does not keep the
limit. -/
theorem not_rateLimited_of_burst301 :
    ∃ (policy : DNSAccessPolicy (BitVec 32) String) (l : DNSRateLimiter (BitVec 32)),
      newDNSAccessPolicy (fun s => .ok s) ⟨[], 1, 301, 0, 0⟩ = .ok policy ∧
        policy.perSource = some l ∧ ¬ l.RateLimited := by
  refine ⟨⟨[], some ⟨1, 301, 4096, ∅, 0⟩, none⟩, ⟨1, 301, 4096, ∅, 0⟩, ?_, rfl, ?_⟩
  · norm_num [newDNSAccessPolicy]
    rfl
  · have hc : (⟨1, 301, 4096, ∅, 0⟩ : DNSRateLimiter (BitVec 32)).Configured 1 301 :=
      ⟨by norm_num, by norm_num, by decide, by decide, by decide, rfl, rfl, rfl⟩
    exact hc.not_rateLimited (by decide) 0

/-- **The limit per source.** For a limiter that the configuration makes, the table never outgrows
its limit, and the limit on the rate of every source holds for all sequences of calls exactly when
five minutes fill the bucket. -/
theorem rateLimited_iff [Inhabited IP] {P : Type} (parsePrefix : String → Except String P)
    (cfg : Config) (policy : DNSAccessPolicy IP P) (l : DNSRateLimiter IP)
    (h : newDNSAccessPolicy parsePrefix cfg = .ok policy) (hl : policy.perSource = some l) :
    (∀ calls, (after step l calls).clients.len ≤ l.maxClients) ∧
      (l.RateLimited ↔ l.burst ≤ 300 * l.rate) := by
  obtain ⟨rate, burst, hc⟩ := newDNSAccessPolicy_perSource h hl
  refine ⟨?_, ?_, ?_⟩
  · intro calls
    have hempty : l.Within l.maxClients := by
      refine ⟨rfl, ?_⟩
      rw [hc.clients_eq]
      exact Nat.zero_le _
    exact (after_invariant (I := Within l.maxClients) within_step hempty calls).2
  · intro hlimited
    rw [hc.rate_eq, hc.burst_eq]
    by_contra hle
    have hlt : 300 * rate < burst := by exact_mod_cast not_le.mp hle
    exact hc.not_rateLimited hlt default hlimited
  · intro hle
    rw [hc.rate_eq, hc.burst_eq] at hle
    exact hc.rateLimited (by exact_mod_cast hle)

def tenPerSecond : Config := ⟨[], 10, 0, 0, 0⟩

theorem rateLimited_iff_tenPerSecond :
    (⟨10, 10, 4096, ∅, 0⟩ : DNSRateLimiter (BitVec 32)).RateLimited :=
  (rateLimited_iff (fun s => .ok s) tenPerSecond ⟨[], some ⟨10, 10, 4096, ∅, 0⟩, none⟩ _
    (by norm_num [newDNSAccessPolicy]; rfl) rfl).2.mpr (by norm_num)

end DNSRateLimiter

/-! ### The global limit -/

namespace DNSGlobalRateLimiter

variable {l : DNSGlobalRateLimiter} {rate burst t t' : ℚ} {now : Int}

def level (l : DNSGlobalRateLimiter) (t : ℚ) : ℚ :=
  match l.lastSeen with
  | none => l.tokens
  | some lastSeen => content l.rate l.burst ⟨l.tokens, lastSeen⟩ t

structure Valid (rate burst : ℚ) (l : DNSGlobalRateLimiter) (t : ℚ) : Prop where
  rate_eq : l.rate = rate
  burst_eq : l.burst = burst
  tokens_nonneg : 0 ≤ l.tokens
  tokens_le : l.tokens ≤ burst
  seen : ∀ lastSeen, l.lastSeen = some lastSeen → seconds lastSeen ≤ t

def seenAt (l : DNSGlobalRateLimiter) (tokens : ℚ) (now : Int) : DNSGlobalRateLimiter :=
  { l with tokens := tokens, lastSeen := some now }

lemma Valid.seenAt (h : l.Valid rate burst t) {tokens : ℚ} (h0 : 0 ≤ tokens)
    (hle : tokens ≤ burst) : (l.seenAt tokens now).Valid rate burst (seconds now) :=
  ⟨h.rate_eq, h.burst_eq, h0, hle, by rintro _ ⟨⟩; exact le_rfl⟩

lemma Valid.level_seenAt (h : l.Valid rate burst t) {tokens : ℚ} (hle : tokens ≤ burst) :
    level (l.seenAt tokens now) (seconds now) = tokens :=
  (content_now l.rate l.burst tokens now).trans (min_eq_right (h.burst_eq ▸ hle))

/-- The refill gives at most the level. -/
lemma Valid.advance (h : l.Valid rate burst (seconds now)) (hrate : 0 ≤ rate) (hburst : 0 ≤ burst) :
    ∃ tokens, l.advance now = l.seenAt tokens now ∧ 0 ≤ tokens ∧ tokens ≤ burst ∧
      tokens ≤ level l (seconds now) := by
  rw [DNSGlobalRateLimiter.advance, level]
  cases hl : l.lastSeen with
  | none => exact ⟨l.tokens, rfl, h.tokens_nonneg, h.tokens_le, le_rfl⟩
  | some lastSeen =>
    have hseen := h.seen lastSeen hl
    let entry : DNSRateEntry := ⟨l.tokens, lastSeen⟩
    have hle : refilled rate l.burst entry.tokens entry.lastSeen now ≤
        content rate l.burst entry (seconds now) :=
      refilled_le_content hrate hseen
    have hnonneg : 0 ≤ refilled rate burst entry.tokens entry.lastSeen now :=
      refilled_nonneg hrate hburst h.tokens_nonneg hseen
    refine ⟨_, rfl, ?_, ?_, ?_⟩
    · rw [h.rate_eq, h.burst_eq]
      exact hnonneg
    · rw [h.rate_eq]
      exact hle.trans (content_le.trans h.burst_eq.le)
    · rw [h.rate_eq]
      exact hle

/-- What a call does: it leaves the tokens of the refill, or takes one of them. -/
lemma Valid.allow (h : l.Valid rate burst (seconds now)) (hrate : 0 ≤ rate) (hburst : 0 ≤ burst) :
    ∃ tokens, (l.allow now).2 = l.seenAt tokens now ∧ 0 ≤ tokens ∧ tokens ≤ burst ∧
      tokens + (if (l.allow now).1 then 1 else 0) ≤ level l (seconds now) := by
  obtain ⟨tokens, hadvance, h0, hburst, hle⟩ := h.advance hrate hburst
  simp only [DNSGlobalRateLimiter.allow, hadvance]
  by_cases hlt : (l.seenAt tokens now).tokens < 1
  · rw [if_pos hlt]
    exact ⟨tokens, rfl, h0, hburst, by simpa using hle⟩
  · rw [if_neg hlt]
    have hone : 1 ≤ tokens := not_lt.mp hlt
    exact ⟨tokens - 1, rfl, by linarith, by linarith, by simpa using hle⟩

lemma isLevel (hrate : 0 ≤ rate) (hburst : 0 ≤ burst) :
    Level allow seconds (fun _ => True) rate burst (Valid rate burst) level where
  later := fun h ht => { h with seen := fun lastSeen hl => (h.seen lastSeen hl).trans ht }
  kept := by
    intro l now h
    obtain ⟨tokens, hl, h0, hle, -⟩ := h.allow hrate hburst
    exact hl ▸ h.seenAt h0 hle
  nonneg := by
    intro l t h
    rw [level]
    cases hl : l.lastSeen with
    | none => exact h.tokens_nonneg
    | some lastSeen =>
      rw [h.rate_eq, h.burst_eq]
      exact content_nonneg hrate hburst h.tokens_nonneg (h.seen lastSeen hl)
  le_burst := by
    intro l t h
    rw [level]
    cases hl : l.lastSeen with
    | none => exact h.tokens_le
    | some lastSeen => exact content_le.trans h.burst_eq.le
  refill := by
    intro l t t' h ht
    rw [level, level]
    cases hl : l.lastSeen with
    | none =>
      have := mul_nonneg hrate (sub_nonneg.mpr ht)
      exact le_add_of_nonneg_right this
    | some lastSeen =>
      rw [h.rate_eq]
      exact content_refill hrate ht
  other := by
    intro l now h
    obtain ⟨tokens, hl, -, hle, hspent⟩ := h.allow hrate hburst
    rw [hl, h.level_seenAt hle]
    split_ifs at hspent <;> linarith
  spend := by
    intro l now h hok _
    obtain ⟨tokens, hl, -, hle, hspent⟩ := h.allow hrate hburst
    rw [hl, h.level_seenAt hle]
    simpa [hok] using hspent

/-- The global limiter never forgets, and its limit always holds. -/
theorem admitted_le_of_policy {IP P : Type} (parsePrefix : String → Except String P) (cfg : Config)
    (policy : DNSAccessPolicy IP P) (l : DNSGlobalRateLimiter)
    (h : newDNSAccessPolicy parsePrefix cfg = .ok policy) (hl : policy.global = some l)
    (calls : List Int) (hcalls : calls.Pairwise (· ≤ ·)) (start d : ℚ) (hd : 0 ≤ d) :
    (admitted allow (fun now => start ≤ seconds now ∧ seconds now ≤ start + d) l calls : ℚ) ≤
      l.burst + l.rate * d := by
  obtain ⟨hrate, hburst, htokens, hseen⟩ := newDNSAccessPolicy_global h hl
  have hvalid (t : ℚ) : l.Valid l.rate l.burst t := by
    refine ⟨rfl, rfl, htokens ▸ hburst, htokens.le, ?_⟩
    intro lastSeen hl
    rw [hseen] at hl
    cases hl
  exact (isLevel hrate hburst).admitted_le (fun c => (iff_of_eq (true_and _)).symm) hrate hburst hd
    (fun c _ => hvalid (seconds c)) (hcalls.imp fun hc => seconds_mono hc)

/-- Of four queries within one second at a rate of 1 and a burst of 2, the last two are refused. -/
theorem admitted_le_of_policy_refused :
    admitted allow (fun now => 0 ≤ seconds now ∧ seconds now ≤ 0 + 1) ⟨1, 2, 2, none⟩ [0, 0, 0, 1] =
        2 ∧
      (admitted allow (fun now => 0 ≤ seconds now ∧ seconds now ≤ 0 + 1) ⟨1, 2, 2, none⟩
        [0, 0, 0, 1] : ℚ) ≤ 2 + 1 * 1 :=
  ⟨by decide +kernel, admitted_le_of_policy (fun s => .ok s) ⟨[], 0, 0, 1, 2⟩
    (⟨[], none, some ⟨1, 2, 2, none⟩⟩ : DNSAccessPolicy ℕ String) _
    (by norm_num [newDNSAccessPolicy]; rfl) rfl [0, 0, 0, 1] (by simp) 0 1 zero_le_one⟩

end DNSGlobalRateLimiter

end BypassCore.Inbound
