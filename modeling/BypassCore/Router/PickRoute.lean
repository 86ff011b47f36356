import BypassCore.Router.Updates

/-!
# Picking a route while the table changes

`PickRoute` reads the rules and the domain strategy in one critical section and evaluates the rules
without the lock. If none of them applies it reads the final outbound tag in a second section, by
which time a reload may have replaced the whole table.
-/

namespace BypassCore.Router

open Lib List

variable {P : Parts}

/-- What a call of `PickRoute` meets outside the router: the context it routes, with what the
conditions make of it, and the choice of each balancer. -/
structure Query (P : Parts) where
  /-- `Condition.Apply`, at the context as it is and at the context with a DNS client. -/
  apply : Bool → P.Condition → Bool
  skipDNSResolve : Bool
  targetDomain : String
  pickOutbound : Balancer P → Except String String

structure Route where
  outboundTag : String
  ruleTag : String
  fallback : Bool
deriving DecidableEq

inductive PickErr where
  | noClue
  | balancer (error : String)
deriving DecidableEq

/-- `pickRouteInternal`, on the rules and the strategy that it has read. -/
def pickRouteInternal (q : Query P) (rules : List (Rule P)) (strategy : DomainStrategy) :
    Option (Rule P) :=
  let onDemand := decide (strategy = .ipOnDemand) && !q.skipDNSResolve
  match rules.find? fun rule => q.apply onDemand rule.condition with
  | some rule => some rule
  | none =>
    if strategy ≠ .ipIfNonMatch ∨ q.targetDomain.length = 0 ∨ q.skipDNSResolve = true then none
    else rules.find? fun rule => q.apply true rule.condition

/-- The route of a rule that applies, with `Rule.GetTag`. -/
def Rule.route (q : Query P) (rule : Rule P) : Except PickErr Route :=
  match rule.balancer with
  | none => .ok ⟨rule.tag, rule.ruleTag, false⟩
  | some balancer =>
    match q.pickOutbound balancer with
    | .error e => .error (.balancer e)
    | .ok tag => .ok ⟨tag, rule.ruleTag, false⟩

def finalRoute (finalTag : String) : Except PickErr Route :=
  if finalTag ≠ "" then .ok ⟨finalTag, "", true⟩ else .error .noClue

/-- `PickRoute`, when it reads its rules from one table and the final tag from another. -/
def pickRouteFrom (q : Query P) (base current : Table P) : Except PickErr Route :=
  match pickRouteInternal q base.rules base.domainStrategy with
  | some rule => rule.route q
  | none => finalRoute current.finalOutboundTag

def pickRoute (q : Query P) (table : Table P) : Except PickErr Route := pickRouteFrom q table table

/-! ### A call among updates -/

inductive PickPhase (P : Parts) where
  | called
  /-- It has read the rules and the strategy of a table. -/
  | evaluating (base : Table P)
  | returned (result : Except PickErr Route)

/-- A call of `PickRoute` and the updates that run at the same time. -/
structure PickState (P : Parts) where
  updates : State P
  phase : PickPhase P
  /-- The tables that were current since the call, up to its return. -/
  versions : List (Table P)

def PickState.init (updates : State P) : PickState P := ⟨updates, .called, [updates.table]⟩

inductive PickStep (P : Parts) where
  /-- A step of `ReloadRules` or `RemoveRule`. -/
  | update (step : Step P)
  | snapshot
  /-- The end of the call, with its second critical section if no rule applies. -/
  | finish

def pickStep (q : Query P) (s : PickState P) : PickStep P → Option (PickState P)
  | .update e =>
    (step s.updates e).map fun updates =>
      match s.phase with
      | .returned _ => { s with updates := updates }
      | _ => { s with updates := updates, versions := s.versions ++ [updates.table] }
  | .snapshot =>
    match s.phase with
    | .called => some { s with phase := .evaluating s.updates.table }
    | _ => none
  | .finish =>
    match s.phase with
    | .evaluating base =>
      some { s with phase := .returned (pickRouteFrom q base s.updates.table) }
    | _ => none

def OneVersion (q : Query P) (s : PickState P) : Prop :=
  ∀ result, s.phase = .returned result → ∃ table ∈ s.versions, result = pickRoute q table

/-- A call without a rule that applies ends when the final tag is that of the table whose rules it
has read. -/
def FinalTagKept (q : Query P) (s : PickState P) : PickStep P → Prop
  | .finish =>
    match s.phase with
    | .evaluating base =>
      pickRouteInternal q base.rules base.domainStrategy = none →
        s.updates.table.finalOutboundTag = base.finalOutboundTag
    | _ => True
  | _ => True

/-- What holds up to the return: the current table is among the versions, and so is the one that
was read. -/
def PickInv (q : Query P) (s : PickState P) : Prop :=
  match s.phase with
  | .called => s.updates.table ∈ s.versions
  | .evaluating base => s.updates.table ∈ s.versions ∧ base ∈ s.versions
  | .returned result => ∃ table ∈ s.versions, result = pickRoute q table

variable {q : Query P} {s s' : PickState P}

lemma pickRouteFrom_eq_pickRoute {base current : Table P}
    (h : pickRouteInternal q base.rules base.domainStrategy = none →
      current.finalOutboundTag = base.finalOutboundTag) :
    pickRouteFrom q base current = pickRoute q base := by
  rw [pickRoute, pickRouteFrom, pickRouteFrom]
  cases hrule : pickRouteInternal q base.rules base.domainStrategy with
  | some rule => rfl
  | none => rw [h hrule]

section

variable (h : PickInv q s)
include h

lemma PickInv.update {e : Step P} (hs : pickStep q s (.update e) = some s') : PickInv q s' := by
  obtain ⟨updates, -, rfl⟩ := Option.map_eq_some_iff.mp hs
  rw [PickInv] at h ⊢
  cases hphase : s.phase with
  | called => exact mem_append_right _ (mem_singleton_self _)
  | evaluating base =>
    rw [hphase] at h
    exact ⟨mem_append_right _ (mem_singleton_self _), mem_append_left _ h.2⟩
  | returned result =>
    rw [hphase] at h
    exact h

lemma PickInv.snapshot (hs : pickStep q s .snapshot = some s') : PickInv q s' := by
  rw [pickStep] at hs
  rw [PickInv] at h
  cases hphase : s.phase with
  | called =>
    rw [hphase] at h hs
    cases hs
    exact ⟨h, h⟩
  | evaluating base | returned result =>
    rw [hphase] at hs
    cases hs

lemma PickInv.finish (hg : FinalTagKept q s .finish) (hs : pickStep q s .finish = some s') :
    PickInv q s' := by
  rw [pickStep] at hs
  rw [PickInv] at h
  rw [FinalTagKept] at hg
  cases hphase : s.phase with
  | called | returned result =>
    rw [hphase] at hs
    cases hs
  | evaluating base =>
    rw [hphase] at h hs hg
    cases hs
    exact ⟨base, h.2, pickRouteFrom_eq_pickRoute hg⟩

lemma PickInv.step {e : PickStep P} (hg : FinalTagKept q s e) (hs : pickStep q s e = some s') :
    PickInv q s' := by
  cases e with
  | update e => exact h.update hs
  | snapshot => exact h.snapshot hs
  | finish => exact h.finish hg hs

lemma PickInv.oneVersion : OneVersion q s := by
  intro result hphase
  rw [PickInv, hphase] at h
  exact h

end

/-- Among any updates, a call returns what it would return alone at one of the versions that were
current during the call, if a rule applies or it ends with the final tag of the table whose rules it
has read. -/
theorem pickRoute_oneVersion (q : Query P) (updates : State P) (es : List (PickStep P))
    (s : PickState P) (hg : Guarded (pickStep q) (FinalTagKept q) (PickState.init updates) es)
    (hr : run (pickStep q) (PickState.init updates) es = some s) : OneVersion q s :=
  (Guarded.invariant (I := PickInv q) (fun _ _ _ h hg hs => h.step hg hs)
    (mem_singleton_self _) hg hr).oneVersion

def switchParts : Parts where
  Fields := Bool
  Condition := Bool
  Settings := Unit
  buildCondition := .ok
  toLower := id
  observatory := false

/-- A call at whose context exactly the rules apply that always do. -/
def switchQuery : Query switchParts where
  apply _ condition := condition
  skipDNSResolve := false
  targetDomain := "example.test"
  pickOutbound _ := .error "no balancer"

def oldTable : Table switchParts := ⟨[], ∅, .asIs, "old"⟩

def newConfig (finalTag : String) : Config switchParts :=
  ⟨.asIs, [some ⟨.tag "proxy", "all", true, none⟩], [], finalTag⟩

/-- A reload replaces the table after a call has read the rules. -/
def replacedRun (finalTag : String) : List (PickStep switchParts) :=
  [.snapshot, .update (.invoke (.reload (some (newConfig finalTag)) false)), .update (.lock 0),
    .update (.read 0), .update (.commit 0), .finish]

theorem pickRoute_oneVersion_sameTag :
    ∃ s, run (pickStep switchQuery) (.init (.init oldTable)) (replacedRun "old") = some s ∧
      s.phase = .returned (.ok ⟨"old", "", true⟩) ∧ OneVersion switchQuery s :=
  ⟨_, rfl, rfl, pickRoute_oneVersion switchQuery (.init oldTable) (replacedRun "old") _
    (guarded_cons trivial rfl (guarded_cons trivial rfl (guarded_cons trivial rfl
      (guarded_cons trivial rfl (guarded_cons trivial rfl
        (guarded_cons (fun _ => rfl) rfl trivial)))))) rfl⟩

/-- The reload brings a rule that applies and the final tag `new`. The call returns the new final
tag as the fallback of the old rules; alone it returns the fallback `old` before the reload and the
rule's tag after it. -/
theorem pickRoute_mixes_versions :
    ¬ ∀ (q : Query switchParts) (updates : State switchParts) (es : List (PickStep switchParts))
      (s : PickState switchParts), run (pickStep q) (.init updates) es = some s →
        OneVersion q s := by
  intro h
  obtain ⟨s, hr, hphase, hversions⟩ : ∃ s,
      run (pickStep switchQuery) (.init (.init oldTable)) (replacedRun "new") = some s ∧
      s.phase = .returned (.ok ⟨"new", "", true⟩) ∧
      s.versions.map (pickRoute switchQuery) =
        [.ok ⟨"old", "", true⟩, .ok ⟨"old", "", true⟩, .ok ⟨"old", "", true⟩,
          .ok ⟨"old", "", true⟩, .ok ⟨"proxy", "all", false⟩] :=
    ⟨_, rfl, rfl, rfl⟩
  obtain ⟨table, hmem, hresult⟩ := h _ _ _ s hr _ hphase
  have hroute := mem_map_of_mem (f := pickRoute switchQuery) hmem
  rw [hversions, ← hresult] at hroute
  simp at hroute

/-!
## The target IPs of a call

A context with a DNS client (`features/routing/dns/context.go`) looks the target up when a condition
asks for its IPs, and keeps the answer. What the conditions get is the same as if it had been known
before, and a call of `PickRoute` makes at most one lookup.
-/

variable {IP : Type}

/-- What a condition does at a context: it may ask for the target IPs, any number of times. The
other fields are not changed by a DNS client. -/
inductive Condition (IP : Type) where
  | holds (b : Bool)
  | getTargetIPs (next : List IP → Condition IP)
  /-- A round of the loop of `ConditionChan.Apply`. -/
  | chan (first rest : Condition IP)

def conditionChan (conditions : List (Condition IP)) : Condition IP :=
  conditions.foldr .chan (.holds true)

/-- The context of a call, with what the call meets outside the router. -/
structure Context (P : Parts) (IP : Type) where
  targetDomain : String
  targetIPs : List IP
  skipDNSResolve : Bool
  condition : P.Condition → Condition IP
  /-- `LookupIP` for both families; `none` is an error. -/
  lookupIP : String → Option (List IP)
  pickOutbound : Balancer P → Except String String

/-- A `ResolvableContext`, or the context as given if there is no client. -/
structure Resolvable (IP : Type) where
  client : Bool
  cacheIPs : List IP
  hasError : Bool
  /-- The calls of `LookupIP` so far. -/
  lookups : ℕ

/-- A condition, when the target has these IPs. -/
def Condition.eval (ips : List IP) : Condition IP → Bool
  | .holds b => b
  | .getTargetIPs next => (next ips).eval ips
  | .chan first rest => first.eval ips && rest.eval ips

namespace Context

variable (ctx : Context P IP)

def answer : Option (List IP) :=
  if ctx.targetDomain.length ≠ 0 then ctx.lookupIP ctx.targetDomain else none

/-- `GetTargetIPs`, where nothing is kept yet. -/
def resolve (r : Resolvable IP) : List IP × Resolvable IP :=
  let lookups := if ctx.targetDomain.length ≠ 0 then r.lookups + 1 else r.lookups
  match ctx.answer with
  | some ips => (ips, { r with cacheIPs := ips, lookups })
  | none =>
    if ctx.targetIPs.length ≠ 0 then
      (ctx.targetIPs, { r with cacheIPs := ctx.targetIPs, lookups })
    else ([], { r with hasError := true, lookups })

def getTargetIPs (r : Resolvable IP) : List IP × Resolvable IP :=
  if r.client = false then (ctx.targetIPs, r)
  else if r.cacheIPs.length > 0 then (r.cacheIPs, r)
  else if r.hasError then ([], r)
  else ctx.resolve r

def apply : Condition IP → Resolvable IP → Bool × Resolvable IP
  | .holds b, r => (b, r)
  | .getTargetIPs next, r => apply (next (ctx.getTargetIPs r).1) (ctx.getTargetIPs r).2
  | .chan first rest, r =>
    match apply first r with
    | (false, r) => (false, r)
    | (true, r) => apply rest r

def firstRule : List (Rule P) → Resolvable IP → Option (Rule P) × Resolvable IP
  | [], r => (none, r)
  | rule :: rules, r =>
    match ctx.apply (ctx.condition rule.condition) r with
    | (true, r) => (some rule, r)
    | (false, r) => firstRule rules r

def pickRouteInternal (rules : List (Rule P)) (strategy : DomainStrategy) :
    Option (Rule P) × Resolvable IP :=
  match ctx.firstRule rules ⟨strategy = .ipOnDemand && !ctx.skipDNSResolve, [], false, 0⟩ with
  | (some rule, r) => (some rule, r)
  | (none, r) =>
    if strategy ≠ .ipIfNonMatch ∨ ctx.targetDomain.length = 0 ∨ ctx.skipDNSResolve then (none, r)
    else ctx.firstRule rules ⟨true, [], false, r.lookups⟩

/-- The IPs of the target, as the context has them or with a DNS client. -/
def ips (client : Bool) : List IP :=
  if client then ctx.answer.getD ctx.targetIPs else ctx.targetIPs

def first (client : Bool) (rules : List (Rule P)) : Option (Rule P) :=
  rules.find? fun rule => (ctx.condition rule.condition).eval (ctx.ips client)

/-- The call, when all answers are known. -/
def query : Query P where
  apply client condition := (ctx.condition condition).eval (ctx.ips client)
  skipDNSResolve := ctx.skipDNSResolve
  targetDomain := ctx.targetDomain
  pickOutbound := ctx.pickOutbound

/-- What `PickRoute` makes of the rule that was found. -/
def returns (table : Table P) : Option (Rule P) → Except PickErr Route
  | some rule => rule.route ctx.query
  | none => finalRoute table.finalOutboundTag

/-- `PickRoute`, and the number of its lookups. -/
def pickRoute (table : Table P) : Except PickErr Route × ℕ :=
  let found := ctx.pickRouteInternal table.rules table.domainStrategy
  (ctx.returns table found.1, found.2.lookups)

/-- The states of a context: nothing is kept yet, or the outcome of the one lookup is. -/
def State (client : Bool) (r : Resolvable IP) : Prop :=
  r = ⟨client, [], false, 0⟩ ∨ client = true ∧ r = (ctx.resolve ⟨true, [], false, 0⟩).2

variable {ctx} {client : Bool} {r : Resolvable IP}

lemma State.lookups_le (h : ctx.State client r) : r.lookups ≤ if client then 1 else 0 := by
  rcases h with rfl | ⟨rfl, rfl⟩
  · exact Nat.zero_le _
  · unfold resolve
    cases ctx.answer with
    | some ips => grind
    | none => grind

lemma resolve_fst : (ctx.resolve r).1 = ctx.ips true := by
  unfold resolve ips
  cases ctx.answer with
  | some ips => rfl
  | none => grind

variable (hdns : ∀ ips, ctx.lookupIP ctx.targetDomain = some ips → ips ≠ [])
include hdns

/-- The outcome of a lookup answers the later questions. -/
lemma getTargetIPs_resolved :
    ctx.getTargetIPs (ctx.resolve ⟨true, [], false, 0⟩).2 =
      (ctx.ips true, (ctx.resolve ⟨true, [], false, 0⟩).2) := by
  unfold resolve ips
  cases hanswer : ctx.answer with
  | some ips =>
    have hlen : 0 < ips.length :=
      length_pos_iff.mpr (hdns ips (Option.ite_none_right_eq_some.mp hanswer).2)
    simp [getTargetIPs, hlen]
  | none =>
    by_cases hlen : ctx.targetIPs.length = 0
    · simp [getTargetIPs, length_eq_zero_iff.mp hlen]
    · simp [getTargetIPs, hlen]

lemma State.getTargetIPs (h : ctx.State client r) :
    (ctx.getTargetIPs r).1 = ctx.ips client ∧ ctx.State client (ctx.getTargetIPs r).2 := by
  rcases h with rfl | ⟨rfl, rfl⟩
  · cases client with
    | false => exact ⟨rfl, .inl rfl⟩
    | true => exact ⟨resolve_fst, .inr ⟨rfl, rfl⟩⟩
  · rw [getTargetIPs_resolved hdns]
    exact ⟨rfl, .inr ⟨rfl, rfl⟩⟩

lemma State.apply (c : Condition IP) (h : ctx.State client r) :
    (ctx.apply c r).1 = c.eval (ctx.ips client) ∧ ctx.State client (ctx.apply c r).2 := by
  induction c generalizing r with
  | holds b => exact ⟨rfl, h⟩
  | getTargetIPs next ih =>
    obtain ⟨hips, hstate⟩ := h.getTargetIPs hdns
    rw [Context.apply, Condition.eval, ← hips]
    nth_rewrite 2 [hips]
    exact ih _ hstate
  | chan first rest ihfirst ihrest =>
    obtain ⟨heval, hstate⟩ := ihfirst h
    rw [Context.apply, Condition.eval, ← heval]
    cases hfirst : ctx.apply first r with
    | mk b r =>
      rw [hfirst] at hstate
      cases b with
      | false => exact ⟨rfl, hstate⟩
      | true => exact ihrest hstate

lemma State.firstRule (rules : List (Rule P)) (h : ctx.State client r) :
    (ctx.firstRule rules r).1 = ctx.first client rules ∧
      ctx.State client (ctx.firstRule rules r).2 := by
  induction rules generalizing r with
  | nil => exact ⟨rfl, h⟩
  | cons rule rules ih =>
    obtain ⟨heval, hstate⟩ := h.apply hdns (ctx.condition rule.condition)
    rw [Context.firstRule, first, find?_cons, ← heval]
    cases hrule : ctx.apply (ctx.condition rule.condition) r with
    | mk b r =>
      rw [hrule] at hstate
      cases b with
      | true => exact ⟨rfl, hstate⟩
      | false => exact ih hstate

/-- The second pass over the rules is made with the context as new. -/
lemma pickRouteInternal_spec (rules : List (Rule P)) (strategy : DomainStrategy) :
    let onDemand := strategy = .ipOnDemand && !ctx.skipDNSResolve
    let once := strategy ≠ .ipIfNonMatch ∨ ctx.targetDomain.length = 0 ∨ ctx.skipDNSResolve
    let found := ctx.pickRouteInternal rules strategy
    found.1 = (ctx.first onDemand rules).or (if once then none else ctx.first true rules) ∧
      found.2.lookups ≤ 1 ∧
      (onDemand = false → (ctx.first false rules).isSome ∨ once → found.2.lookups = 0) := by
  intro onDemand once found
  have hnew : ctx.State onDemand ⟨onDemand, [], false, 0⟩ := .inl rfl
  obtain ⟨hrule, hstate⟩ := hnew.firstRule hdns rules
  unfold found Context.pickRouteInternal
  cases hfirst : ctx.firstRule rules ⟨onDemand, [], false, 0⟩ with
  | mk rule r =>
    rw [hfirst] at hrule hstate
    rw [← hrule]
    have hle := hstate.lookups_le
    have hzero : onDemand = false → r.lookups = 0 := by
      intro h
      rw [h] at hle
      exact Nat.le_zero.mp hle
    have hone : r.lookups ≤ 1 := hle.trans (by split_ifs <;> omega)
    cases rule with
    | some rule => exact ⟨rfl, hone, fun h _ => hzero h⟩
    | none =>
      by_cases hc : once
      · simp only [Option.none_or, once, if_pos hc]
        exact ⟨trivial, hone, fun h _ => hzero h⟩
      · have hoff : onDemand = false := by
          simp [onDemand, not_not.mp (not_or.mp hc).1]
        have hagain : ctx.State true ⟨true, [], false, r.lookups⟩ := by
          rw [hzero hoff]
          exact .inl rfl
        obtain ⟨hrule', hstate'⟩ := hagain.firstRule hdns rules
        simp only [once, if_neg hc]
        refine ⟨hrule', hstate'.lookups_le, fun _ h => ?_⟩
        rw [hoff] at hrule
        rw [← hrule] at h
        exact absurd (h.resolve_left Bool.noConfusion) hc

end Context

/-- The domain strategies: which rule a call returns, and when it queries DNS. -/
theorem pickRoute_resolves (ctx : Context P IP)
    (hdns : ∀ domain ips, ctx.lookupIP domain = some ips → ips ≠ []) (table : Table P) :
    (ctx.pickRoute table).2 ≤ 1 ∧
      (table.domainStrategy = .asIs ∨ ctx.skipDNSResolve = true →
        ctx.pickRoute table = (ctx.returns table (ctx.first false table.rules), 0)) ∧
      (table.domainStrategy = .ipIfNonMatch ∧ ctx.skipDNSResolve = false →
        (∀ rule, ctx.first false table.rules = some rule →
          ctx.pickRoute table = (ctx.returns table (some rule), 0)) ∧
        (ctx.first false table.rules = none → (ctx.pickRoute table).1 = ctx.returns table
          (if ctx.targetDomain.length = 0 then none else ctx.first true table.rules))) ∧
      (table.domainStrategy = .ipOnDemand ∧ ctx.skipDNSResolve = false →
        (ctx.pickRoute table).1 = ctx.returns table (ctx.first true table.rules)) := by
  obtain ⟨hrule, hle, hzero⟩ :=
    Context.pickRouteInternal_spec (hdns ctx.targetDomain) table.rules table.domainStrategy
  rw [Context.pickRoute]
  generalize ctx.pickRouteInternal table.rules table.domainStrategy = found at *
  refine ⟨hle, ?_, ?_, ?_⟩
  · rintro (has | hskip)
    · rw [hrule, hzero (by simp [has]) (by simp [has])]
      simp [has]
    · rw [hrule, hzero (by simp [hskip]) (by simp [hskip])]
      simp [hskip]
  · rintro ⟨hif, hskip⟩
    simp only [hif, hskip] at hrule hzero
    constructor
    · intro rule hfirst
      rw [hrule, hzero rfl (by simp [hfirst])]
      simp [hfirst]
    · intro hfirst
      rw [hrule]
      simp [hfirst]
  · rintro ⟨hon, hskip⟩
    rw [hrule]
    simp [hon, hskip]

def domainContext : Context switchParts ℕ where
  targetDomain := "example.test"
  targetIPs := []
  skipDNSResolve := false
  condition _ := conditionChan [.holds true, .getTargetIPs fun ips => .holds (7 ∈ ips)]
  lookupIP _ := some [7]
  pickOutbound _ := .error "no balancer"

theorem pickRoute_resolves_domain :
    (domainContext.pickRoute ⟨[⟨"proxy", "ip", none, true, none⟩], ∅, .ipIfNonMatch, ""⟩).1 =
      .ok ⟨"proxy", "ip", false⟩ :=
  ((pickRoute_resolves domainContext (by rintro _ _ ⟨⟩; exact cons_ne_nil _ _) _).2.2.1
    ⟨rfl, rfl⟩).2 rfl

end BypassCore.Router
