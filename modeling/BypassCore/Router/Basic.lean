import BypassCore.Lib.GoMap
import Mathlib.Data.Finset.Basic

/-!
# The routing table

The configuration of `app/router` and the two functions that change the table of a running router:
`ReloadRules`, which builds new rules and balancers on top of a base table and then commits them,
and `RemoveRule`.
-/

namespace BypassCore.Router

open Lib

/-- What the router takes from other packages: the fields a routing rule matches on and the
conditions built from them, the settings of the least-load strategy, `strings.ToLower`, and
whether an observatory is registered. -/
structure Parts where
  Fields : Type
  Condition : Type
  Settings : Type
  buildCondition : Fields → Except String Condition
  toLower : String → String
  observatory : Bool

inductive DomainStrategy where
  | asIs
  | ipIfNonMatch
  | ipOnDemand
deriving DecidableEq

inductive TargetTag where
  | unset
  | tag (tag : String)
  | balancingTag (tag : String)
deriving DecidableEq

/-- `WebhookConfig`. It is never populated. -/
structure WebhookConfig where
deriving DecidableEq

structure WebhookNotifier where
deriving DecidableEq

/-- `NewWebhookNotifier`: webhook support is removed. -/
def newWebhookNotifier (_ : WebhookConfig) : Except String (Option WebhookNotifier) := .ok none

structure RoutingRule (P : Parts) where
  targetTag : TargetTag
  ruleTag : String
  fields : P.Fields
  webhook : Option WebhookConfig

namespace RoutingRule

variable {P : Parts}

def getTag (rule : RoutingRule P) : String :=
  match rule.targetTag with
  | .tag tag => tag
  | _ => ""

def getBalancingTag (rule : RoutingRule P) : String :=
  match rule.targetTag with
  | .balancingTag tag => tag
  | _ => ""

end RoutingRule

/-- `BalancingRule`. The settings are `none` when they are missing, and otherwise what
`GetInstance` makes of them: an error, a message of another type, or least-load settings. -/
structure BalancingRule (P : Parts) where
  tag : String
  outboundSelector : List String
  strategy : String
  strategySettings : Option (Except String (Option P.Settings))
  fallbackTag : String

/-- `Config`. A list entry may be `nil`. -/
structure Config (P : Parts) where
  domainStrategy : DomainStrategy
  rule : List (Option (RoutingRule P))
  balancingRule : List (Option (BalancingRule P))
  finalOutboundTag : String

/-- `BalancingStrategy`, as `BalancingRule.Build` chooses it. -/
inductive Strategy (P : Parts) where
  | leastPing
  | roundRobin (fallbackTag : String)
  | leastLoad (settings : P.Settings)
  | random (fallbackTag : String)

/-- `Balancer`, without the managers it is connected to. -/
structure Balancer (P : Parts) where
  selectors : List String
  strategy : Strategy P
  fallbackTag : String

structure Rule (P : Parts) where
  tag : String
  ruleTag : String
  balancer : Option (Balancer P)
  condition : P.Condition
  webhook : Option WebhookNotifier

/-- The part of a `Router` that is guarded by `mu`. -/
structure Table (P : Parts) where
  rules : List (Rule P)
  balancers : GoMap String (Balancer P)
  domainStrategy : DomainStrategy
  finalOutboundTag : String

variable {P : Parts}

/-! ### Building -/

def BalancingRule.build (rule : BalancingRule P) : Except String (Balancer P) :=
  let balancer := fun strategy : Strategy P =>
    (⟨rule.outboundSelector, strategy, rule.fallbackTag⟩ : Balancer P)
  let strategy := P.toLower rule.strategy
  if strategy = "leastping" then .ok (balancer .leastPing)
  else if strategy = "roundrobin" then .ok (balancer (.roundRobin rule.fallbackTag))
  else if strategy = "leastload" then
    match rule.strategySettings with
    | none => .error "leastload strategy requires settings"
    | some (.error e) => .error e
    | some (.ok none) => .error "not a StrategyLeastLoadConfig"
    | some (.ok (some settings)) => .ok (balancer (.leastLoad settings))
  else if strategy = "random" ∨ strategy = "" then .ok (balancer (.random rule.fallbackTag))
  else .error "unrecognized balancer type"

def buildBalancers :
    GoMap String (Balancer P) → List (Option (BalancingRule P)) →
      Except String (GoMap String (Balancer P))
  | balancers, [] => .ok balancers
  | _, none :: _ => .error "nil or empty balancing rule"
  | balancers, some rule :: rules =>
    if rule.tag = "" then .error "nil or empty balancing rule"
    else if (balancers.lookup rule.tag).isSome then
      .error ("duplicate balancer tag " ++ rule.tag)
    else if (P.toLower rule.strategy = "leastping" ∨ P.toLower rule.strategy = "leastload") ∧
        P.observatory = false then
      .error ("balancer " ++ rule.tag ++ " requires observatory")
    else
      match rule.build with
      | .error e => .error e
      | .ok balancer => buildBalancers (balancers.insert rule.tag balancer) rules

def buildRule (balancers : GoMap String (Balancer P)) (rule : RoutingRule P) :
    Except String (Rule P) :=
  match P.buildCondition rule.fields with
  | .error e => .error e
  | .ok condition =>
    let webhook : Except String (Option WebhookNotifier) :=
      match rule.webhook with
      | none => .ok none
      | some config => newWebhookNotifier config
    match webhook with
    | .error e => .error e
    | .ok webhook =>
      if rule.getBalancingTag = "" then
        .ok ⟨rule.getTag, rule.ruleTag, none, condition, webhook⟩
      else
        match balancers.lookup rule.getBalancingTag with
        | none => .error ("balancer " ++ rule.getBalancingTag ++ " not found")
        | some balancer => .ok ⟨rule.getTag, rule.ruleTag, some balancer, condition, webhook⟩

/-- The rule loop of `ReloadRules`: the rules that are appended to the base. -/
def buildRules (balancers : GoMap String (Balancer P)) :
    Finset String → List (Option (RoutingRule P)) → Except String (List (Rule P))
  | _, [] => .ok []
  | _, none :: _ => .error "nil routing rule"
  | ruleTags, some rule :: rules =>
    if rule.ruleTag ≠ "" ∧ rule.ruleTag ∈ ruleTags then
      .error ("duplicate ruleTag " ++ rule.ruleTag)
    else
      match buildRule balancers rule with
      | .error e => .error e
      | .ok built =>
        let ruleTags := if rule.ruleTag = "" then ruleTags else insert rule.ruleTag ruleTags
        (buildRules balancers ruleTags rules).map fun built' => built :: built'

def ruleTagsOf (rules : List (Rule P)) : Finset String :=
  (rules.filterMap fun rule => if rule.ruleTag = "" then none else some rule.ruleTag).toFinset

/-- The part of `ReloadRules` between its two critical sections: the new rules and balancers, from
the base that was read in the first one. -/
def buildFrom (base : Table P) (config : Config P) (shouldAppend : Bool) :
    Except String (List (Rule P) × GoMap String (Balancer P)) :=
  let baseRules := if shouldAppend then base.rules else []
  let baseBalancers := if shouldAppend then base.balancers else ∅
  match buildBalancers baseBalancers config.balancingRule with
  | .error e => .error e
  | .ok balancers =>
    (buildRules balancers (ruleTagsOf baseRules) config.rule).map fun built =>
      (baseRules ++ built, balancers)

def commitRules (table : Table P) (config : Config P) (shouldAppend : Bool)
    (built : List (Rule P) × GoMap String (Balancer P)) : Table P :=
  if shouldAppend then { table with rules := built.1, balancers := built.2 }
  else ⟨built.1, built.2, config.domainStrategy, config.finalOutboundTag⟩

def reloadRules (table : Table P) (config : Option (Config P)) (shouldAppend : Bool) :
    Except String (Table P) :=
  match config with
  | none => .error "nil router config"
  | some config =>
    (buildFrom table config shouldAppend).map (commitRules table config shouldAppend)

def removeRule (table : Table P) (tag : String) : Except String (Table P) :=
  if tag = "" then .error "empty tag name!"
  else .ok { table with rules := table.rules.filter fun rule => rule.ruleTag ≠ tag }

/-! ### Built rules -/

variable {balancers : GoMap String (Balancer P)}

lemma ruleTag_of_buildRule {rule : RoutingRule P}
    {built : Rule P} (h : buildRule balancers rule = .ok built) : built.ruleTag = rule.ruleTag := by
  simp only [buildRule] at h
  split at h
  · cases h
  · split at h
    · cases h
    · split_ifs at h with htag
      · cases h
        rfl
      · split at h <;> cases h
        · rfl

variable {ruleTags : Finset String} {rules : List (Option (RoutingRule P))} {built : List (Rule P)}

/-- What a successful round of the rule loop has done. -/
lemma buildRules_cons_eq_ok {o : Option (RoutingRule P)}
    (h : buildRules balancers ruleTags (o :: rules) = .ok built) :
    ∃ rule b built', o = some rule ∧ ¬ (rule.ruleTag ≠ "" ∧ rule.ruleTag ∈ ruleTags) ∧
      buildRule balancers rule = .ok b ∧
      buildRules balancers
        (if rule.ruleTag = "" then ruleTags else insert rule.ruleTag ruleTags) rules =
          .ok built' ∧ built = b :: built' := by
  cases o with
  | none => cases h
  | some rule =>
    rw [buildRules] at h
    by_cases hdup : rule.ruleTag ≠ "" ∧ rule.ruleTag ∈ ruleTags
    · rw [if_pos hdup] at h
      cases h
    · rw [if_neg hdup] at h
      cases hb : buildRule balancers rule with
      | error e =>
        rw [hb] at h
        cases h
      | ok b =>
        rw [hb] at h
        dsimp only at h
        cases hrest : buildRules balancers
            (if rule.ruleTag = "" then ruleTags else insert rule.ruleTag ruleTags) rules with
        | error e =>
          rw [hrest] at h
          cases h
        | ok built' =>
          rw [hrest] at h
          cases h
          exact ⟨rule, b, built', rfl, hdup, hb, hrest, rfl⟩

lemma exists_of_mem_buildRules
    (h : buildRules balancers ruleTags rules = .ok built) {r : Rule P} (hr : r ∈ built) :
    ∃ rule, some rule ∈ rules ∧ rule.ruleTag = r.ruleTag := by
  induction rules generalizing ruleTags built with
  | nil =>
    cases h
    cases hr
  | cons o rules ih =>
    obtain ⟨rule, b, built', rfl, -, hb, hrest, rfl⟩ := buildRules_cons_eq_ok h
    rcases List.mem_cons.mp hr with rfl | hr
    · exact ⟨rule, List.mem_cons_self, (ruleTag_of_buildRule hb).symm⟩
    · obtain ⟨rule', hmem, htag⟩ := ih hrest hr
      exact ⟨rule', List.mem_cons_of_mem _ hmem, htag⟩

lemma buildFrom_eq_ok {base : Table P} {config : Config P} {shouldAppend : Bool}
    {built : List (Rule P) × GoMap String (Balancer P)}
    (h : buildFrom base config shouldAppend = .ok built) :
    ∃ balancers new, buildBalancers (if shouldAppend then base.balancers else ∅)
        config.balancingRule = .ok balancers ∧
      buildRules balancers (ruleTagsOf (if shouldAppend then base.rules else [])) config.rule =
        .ok new ∧ built = ((if shouldAppend then base.rules else []) ++ new, balancers) := by
  simp only [buildFrom] at h
  cases hb : buildBalancers (if shouldAppend then base.balancers else ∅) config.balancingRule with
  | error e =>
    rw [hb] at h
    cases h
  | ok balancers =>
    rw [hb] at h
    dsimp only at h
    cases hr : buildRules balancers
        (ruleTagsOf (if shouldAppend then base.rules else [])) config.rule with
    | error e =>
      rw [hr] at h
      cases h
    | ok new =>
      rw [hr] at h
      cases h
      exact ⟨balancers, new, rfl, hr, rfl⟩

lemma buildFrom_congr {base base' : Table P} {config : Config P} {shouldAppend : Bool}
    (h : shouldAppend = true → base.rules = base'.rules ∧ base.balancers = base'.balancers) :
    buildFrom base config shouldAppend = buildFrom base' config shouldAppend := by
  cases shouldAppend with
  | false => rfl
  | true => simp only [buildFrom, (h rfl).1, (h rfl).2]

/-!
## A router with its webhook notifiers

`Init`, `ReloadRules` and `RemoveRule` of `app/router`, one call after another, with the notifiers
that they create and close. Notifiers are numbered in the order of their creation. The notifiers of
this repository are a stub that is never created; here the constructor is a parameter, so that the
handling of notifiers in the router can be followed.
-/

/-- `NewWebhookNotifier`: it fails, or returns nil (`false`) or a notifier (`true`). -/
abbrev NewNotifier := WebhookConfig → Except String Bool

def stubNotifier : NewNotifier := fun config => (newWebhookNotifier config).map Option.isSome

/-- A rule with its notifier, and the balancing tag that it was configured with. -/
structure HookedRule (P : Parts) where
  rule : Rule P
  hook : Option ℕ
  balancingTag : String

structure LiveRouter (P : Parts) where
  rules : List (HookedRule P)
  balancers : GoMap String (Balancer P)
  domainStrategy : DomainStrategy
  finalOutboundTag : String
  /-- The notifiers from this one on are not created. -/
  next : ℕ
  closed : Finset ℕ

def hooksOf (rules : List (HookedRule P)) : List ℕ := rules.filterMap HookedRule.hook

def HookedRule.tag? (r : HookedRule P) : Option String :=
  if r.rule.ruleTag = "" then none else some r.rule.ruleTag

def tagsOf (rules : List (HookedRule P)) : List String := rules.filterMap HookedRule.tag?

structure Hooks where
  next : ℕ
  created : List ℕ

def Hooks.create (new : NewNotifier) (h : Hooks) :
    Option WebhookConfig → Except String (Option ℕ × Hooks)
  | none => .ok (none, h)
  | some config =>
    match new config with
    | .error e => .error e
    | .ok false => .ok (none, h)
    | .ok true => .ok (some h.next, ⟨h.next + 1, h.created ++ [h.next]⟩)

def findBalancer (balancers : GoMap String (Balancer P)) (tag : String) :
    Except String (Option (Balancer P)) :=
  if tag = "" then .ok none
  else
    match balancers.lookup tag with
    | none => .error ("balancer " ++ tag ++ " not found")
    | some balancer => .ok (some balancer)

/-- The loop over the routing rules, in `Init` and in `ReloadRules`: the rules that are built, and
the notifiers that were created up to its end. -/
def hookRules (new : NewNotifier) (balancers : GoMap String (Balancer P)) :
    Finset String → Hooks → List (Option (RoutingRule P)) →
      Except String (List (HookedRule P)) × Hooks
  | _, h, [] => (.ok [], h)
  | _, h, none :: _ => (.error "nil routing rule", h)
  | ruleTags, h, some rule :: rules =>
    if rule.ruleTag ≠ "" ∧ rule.ruleTag ∈ ruleTags then
      (.error ("duplicate ruleTag " ++ rule.ruleTag), h)
    else
      match P.buildCondition rule.fields with
      | .error e => (.error e, h)
      | .ok condition =>
        match h.create new rule.webhook with
        | .error e => (.error e, h)
        | .ok (hook, h) =>
          match findBalancer balancers rule.getBalancingTag with
          | .error e => (.error e, h)
          | .ok balancer =>
            let ruleTags := if rule.ruleTag = "" then ruleTags else insert rule.ruleTag ruleTags
            let built : HookedRule P :=
              ⟨⟨rule.getTag, rule.ruleTag, balancer, condition, hook.map fun _ => ⟨⟩⟩, hook,
                rule.getBalancingTag⟩
            let rest := hookRules new balancers ruleTags h rules
            (rest.1.map fun rules => built :: rules, rest.2)

/-! ### The calls -/

def checkBalancing : List (Option (BalancingRule P)) → Except String Unit
  | [] => .ok ()
  | none :: _ => .error "nil balancing rule"
  | some rule :: rules =>
    if (P.toLower rule.strategy = "leastping" ∨ P.toLower rule.strategy = "leastload") ∧
        P.observatory = false then
      .error ("balancer " ++ rule.tag ++ " requires observatory")
    else checkBalancing rules

/-- The balancer loop of `Init`. A nil rule has been refused before. -/
def initBalancers :
    GoMap String (Balancer P) → List (Option (BalancingRule P)) →
      Except String (GoMap String (Balancer P))
  | balancers, [] => .ok balancers
  | balancers, none :: rules => initBalancers balancers rules
  | balancers, some rule :: rules =>
    if rule.tag = "" then .error "empty balancer tag"
    else if (balancers.lookup rule.tag).isSome then
      .error ("duplicate balancer tag " ++ rule.tag)
    else
      match rule.build with
      | .error e => .error e
      | .ok balancer => initBalancers (balancers.insert rule.tag balancer) rules

/-- `Init`, with or without an outbound manager. If it fails, the second part are the notifiers
that it has closed. -/
def initRouter (new : NewNotifier) (manager : Bool) (config : Option (Config P)) :
    Except String (LiveRouter P) × Finset ℕ :=
  match config with
  | none => (.error "nil router config", ∅)
  | some config =>
    if manager = false ∧ config.balancingRule.length > 0 then
      (.error "router with balancers requires outbound manager", ∅)
    else
      match checkBalancing config.balancingRule with
      | .error e => (.error e, ∅)
      | .ok () =>
        match initBalancers ∅ config.balancingRule with
        | .error e => (.error e, ∅)
        | .ok balancers =>
          match hookRules new balancers ∅ ⟨0, []⟩ config.rule with
          | (.error e, h) => (.error e, h.created.toFinset)
          | (.ok rules, h) =>
            (.ok ⟨rules, balancers, config.domainStrategy, config.finalOutboundTag, h.next, ∅⟩, ∅)

namespace LiveRouter

def reloadRules (new : NewNotifier) (r : LiveRouter P) (config : Option (Config P))
    (shouldAppend : Bool) : Except String Unit × LiveRouter P :=
  match config with
  | none => (.error "nil router config", r)
  | some config =>
    let baseRules := if shouldAppend then r.rules else []
    let baseBalancers := if shouldAppend then r.balancers else ∅
    match buildBalancers baseBalancers config.balancingRule with
    | .error e => (.error e, r)
    | .ok balancers =>
      match hookRules new balancers (tagsOf baseRules).toFinset ⟨r.next, []⟩ config.rule with
      | (.error e, h) =>
        (.error e, { r with next := h.next, closed := r.closed ∪ h.created.toFinset })
      | (.ok built, h) =>
        (.ok (),
          { rules := baseRules ++ built
            balancers := balancers
            domainStrategy := if shouldAppend then r.domainStrategy else config.domainStrategy
            finalOutboundTag :=
              if shouldAppend then r.finalOutboundTag else config.finalOutboundTag
            next := h.next
            closed := if shouldAppend then r.closed else r.closed ∪ (hooksOf r.rules).toFinset })

def removeRule (r : LiveRouter P) (tag : String) : Except String Unit × LiveRouter P :=
  if tag = "" then (.error "empty tag name!", r)
  else
    (.ok (),
      { r with
        rules := r.rules.filter fun rule => rule.rule.ruleTag ≠ tag
        closed := r.closed ∪
          (hooksOf (r.rules.filter fun rule => rule.rule.ruleTag = tag)).toFinset })

def table (r : LiveRouter P) : Table P :=
  ⟨r.rules.map HookedRule.rule, r.balancers, r.domainStrategy, r.finalOutboundTag⟩

end LiveRouter

/-- The routers that `Init` makes and calls of `ReloadRules` and `RemoveRule`, successful or not,
lead to. -/
inductive LiveRouter.Reached (new : NewNotifier) : LiveRouter P → Prop
  | init (manager : Bool) (config : Option (Config P)) (r : LiveRouter P)
      (h : (initRouter new manager config).1 = .ok r) : Reached new r
  | reload (r : LiveRouter P) (hr : Reached new r) (config : Option (Config P))
      (shouldAppend : Bool) : Reached new (r.reloadRules new config shouldAppend).2
  | remove (r : LiveRouter P) (hr : Reached new r) (tag : String) :
      Reached new (r.removeRule tag).2

end BypassCore.Router
