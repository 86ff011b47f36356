import BypassCore.Lib.Except
import BypassCore.Router.Updates

/-!
# A reload happens or does not happen

Rules and balancers are built aside and committed at the end, so that a call which fails on the way
leaves the table alone; the notifiers it has created by then are closed. Along all calls the tags
stay distinct, and balancers stay registered under the tags of the rules that hold them.
-/

namespace BypassCore.Router

open Lib List HookedRule Finset

variable {P : Parts} {new : NewNotifier}

/-- The notifiers that were created on the way are numbered one after another. -/
structure Hooks.Grows (h h' : Hooks) (l : List ℕ) : Prop where
  next_eq : h'.next = h.next + l.length
  created_eq : h'.created = h.created ++ l
  range_eq : l = List.range' h.next l.length

lemma Hooks.Grows.refl (h : Hooks) : h.Grows h [] := ⟨rfl, (append_nil _).symm, rfl⟩

lemma Hooks.Grows.trans {h h' h'' : Hooks} {l l' : List ℕ} (hl : h.Grows h' l)
    (hl' : h'.Grows h'' l') : h.Grows h'' (l ++ l') where
  next_eq := by
    rw [hl'.next_eq, hl.next_eq, length_append, Nat.add_assoc]
  created_eq := by
    rw [hl'.created_eq, hl.created_eq, append_assoc]
  range_eq := by
    have hrange := hl'.range_eq
    rw [hl.next_eq] at hrange
    rw [length_append, ← range'_append_1, ← hl.range_eq, ← hrange]

lemma Hooks.Grows.mem_iff {h h' : Hooks} {l : List ℕ} (hl : h.Grows h' l) {hook : ℕ} :
    hook ∈ l ↔ h.next ≤ hook ∧ hook < h'.next := by
  rw [hl.next_eq, hl.range_eq, mem_range'_1, length_range']

lemma Hooks.create_eq_ok {h h' : Hooks} {webhook : Option WebhookConfig} {hook : Option ℕ}
    (hc : h.create new webhook = .ok (hook, h')) : h.Grows h' hook.toList := by
  cases webhook with
  | none =>
    cases hc
    exact .refl h
  | some config =>
    rw [create] at hc
    cases hnew : new config with
    | error e =>
      rw [hnew] at hc
      cases hc
    | ok made =>
      rw [hnew] at hc
      cases made with
      | false =>
        cases hc
        exact .refl h
      | true =>
        cases hc
        exact ⟨rfl, rfl, rfl⟩

/-! ### The rules of a call -/

variable (balancers : GoMap String (Balancer P))

/-- The rule holds the balancer that is registered under its tag. -/
def HookedRule.Bound (r : HookedRule P) : Prop :=
  ∀ balancer, r.rule.balancer = some balancer → balancers.lookup r.balancingTag = some balancer

lemma findBalancer_eq_ok {balancers : GoMap String (Balancer P)} {tag : String}
    {found : Option (Balancer P)} (h : findBalancer balancers tag = .ok found)
    {balancer : Balancer P} (hb : found = some balancer) :
    balancers.lookup tag = some balancer := by
  subst hb
  rw [findBalancer] at h
  split_ifs at h with hempty
  · cases h
  · cases hl : balancers.lookup tag with
    | none =>
      rw [hl] at h
      cases h
    | some b =>
      rw [hl] at h
      cases h
      rfl

structure BuiltRules (balancers : GoMap String (Balancer P)) (ruleTags : Finset String)
    (hooks : List ℕ) (built : List (HookedRule P)) : Prop where
  hooks_eq : hooksOf built = hooks
  nodup : (tagsOf built).Nodup
  fresh : ∀ tag ∈ tagsOf built, tag ∉ ruleTags
  bound : ∀ r ∈ built, r.Bound balancers

section Build

variable {balancers : GoMap String (Balancer P)}

lemma hooksOf_cons (r : HookedRule P) (rules : List (HookedRule P)) :
    hooksOf (r :: rules) = r.hook.toList ++ hooksOf rules := by
  rw [hooksOf, filterMap_cons]
  cases r.hook <;> rfl

lemma tagsOf_cons (r : HookedRule P) (rules : List (HookedRule P)) :
    tagsOf (r :: rules) = r.tag?.toList ++ tagsOf rules := by
  rw [tagsOf, filterMap_cons]
  cases r.tag? <;> rfl

lemma BuiltRules.cons {ruleTags : Finset String} {hooks : List ℕ} {built : List (HookedRule P)}
    {r : HookedRule P} (hnew : ¬ (r.rule.ruleTag ≠ "" ∧ r.rule.ruleTag ∈ ruleTags))
    (hr : r.Bound balancers)
    (h : BuiltRules balancers
      (if r.rule.ruleTag = "" then ruleTags else insert r.rule.ruleTag ruleTags) hooks built) :
    BuiltRules balancers ruleTags (r.hook.toList ++ hooks) (r :: built) := by
  refine ⟨?_, ?_, ?_, ?_⟩
  · rw [hooksOf_cons, h.hooks_eq]
  · rw [tagsOf_cons, tag?]
    split_ifs with hempty
    · exact h.nodup
    · refine nodup_cons.mpr ⟨fun hmem => ?_, h.nodup⟩
      have hnot := h.fresh _ hmem
      rw [if_neg hempty] at hnot
      exact hnot (mem_insert_self _ _)
  · intro tag htag
    rw [tagsOf_cons, tag?] at htag
    have hfresh := h.fresh tag
    split_ifs at htag hfresh with hempty
    · exact hfresh htag
    · rcases mem_cons.mp htag with rfl | htag
      · exact fun hmem => hnew ⟨hempty, hmem⟩
      · exact fun hmem => hfresh htag (mem_insert_of_mem hmem)
  · exact forall_mem_cons.mpr ⟨hr, h.bound⟩

/-- The loop over the rules creates its notifiers one after another; if it gets to its end, they
are those of the rules that it has built. -/
lemma hookRules_spec (new : NewNotifier) (balancers : GoMap String (Balancer P))
    (ruleTags : Finset String) (h : Hooks) (rules : List (Option (RoutingRule P))) :
    ∃ l, h.Grows (hookRules new balancers ruleTags h rules).2 l ∧
      ∀ built, (hookRules new balancers ruleTags h rules).1 = .ok built →
        BuiltRules balancers ruleTags l built := by
  induction rules generalizing ruleTags h with
  | nil =>
    refine ⟨[], .refl h, fun built hb => ?_⟩
    cases hb
    exact ⟨rfl, nodup_nil, by simp [tagsOf], by simp⟩
  | cons o rules ih =>
    have failed : ∀ {h' : Hooks} {l : List ℕ} {e : String}, h.Grows h' l →
        ∃ l, h.Grows h' l ∧ ∀ built : List (HookedRule P),
          (Except.error e : Except String (List (HookedRule P))) = .ok built →
            BuiltRules balancers ruleTags l built :=
      fun hl => ⟨_, hl, fun built hb => by cases hb⟩
    cases o with
    | none => exact failed (.refl h)
    | some rule =>
    rw [hookRules]
    by_cases hdup : rule.ruleTag ≠ "" ∧ rule.ruleTag ∈ ruleTags
    · rw [if_pos hdup]
      exact failed (.refl h)
    rw [if_neg hdup]
    cases P.buildCondition rule.fields with
    | error e => exact failed (.refl h)
    | ok condition =>
    cases hcreate : h.create new rule.webhook with
    | error e => exact failed (.refl h)
    | ok made =>
    obtain ⟨hook, h'⟩ := made
    have hgrows := Hooks.create_eq_ok hcreate
    cases hfind : findBalancer balancers rule.getBalancingTag with
    | error e => exact failed hgrows
    | ok balancer =>
    obtain ⟨l, hl, hbuilt⟩ := ih (if rule.ruleTag = "" then ruleTags
      else insert rule.ruleTag ruleTags) h'
    refine ⟨hook.toList ++ l, hgrows.trans hl, fun built hb => ?_⟩
    obtain ⟨rest, hrest, rfl⟩ := map_eq_ok.mp hb
    exact BuiltRules.cons (r := ⟨⟨rule.getTag, rule.ruleTag, balancer, condition,
      hook.map fun _ => ⟨⟩⟩, hook, rule.getBalancingTag⟩) hdup
        (fun b hb => findBalancer_eq_ok hfind hb) (hbuilt rest hrest)

lemma buildBalancers_keeps {base : GoMap String (Balancer P)}
    {rules : List (Option (BalancingRule P))} (h : buildBalancers base rules = .ok balancers)
    {tag : String} {balancer : Balancer P} (hb : base.lookup tag = some balancer) :
    balancers.lookup tag = some balancer := by
  induction rules generalizing base with
  | nil =>
    cases h
    exact hb
  | cons o rules ih =>
    cases o with
    | none => cases h
    | some rule =>
    rw [buildBalancers] at h
    split_ifs at h with hempty hdup hobs
    cases hbuild : rule.build with
    | error e =>
      rw [hbuild] at h
      cases h
    | ok built =>
      rw [hbuild] at h
      apply ih h
      rw [GoMap.lookup_insert_eq, if_neg, hb]
      rintro rfl
      rw [hb] at hdup
      exact hdup rfl

end Build

/-! ### Routers -/

namespace LiveRouter

/-- The tags of the rules are distinct, their balancers are registered, and their notifiers are
open. -/
structure Consistent (r : LiveRouter P) : Prop where
  tags_nodup : (tagsOf r.rules).Nodup
  bound : ∀ rule ∈ r.rules, rule.Bound r.balancers
  hooks_nodup : (hooksOf r.rules).Nodup
  hooks_lt : ∀ hook ∈ hooksOf r.rules, hook < r.next
  hooks_open : ∀ hook ∈ hooksOf r.rules, hook ∉ r.closed
  closed_lt : ∀ hook ∈ r.closed, hook < r.next

/-- What a failed reload leaves: the table as it was, its own notifiers closed and those of the
rules open. -/
structure FailedReload (r r' : LiveRouter P) : Prop where
  rules_eq : r'.rules = r.rules
  balancers_eq : r'.balancers = r.balancers
  domainStrategy_eq : r'.domainStrategy = r.domainStrategy
  finalOutboundTag_eq : r'.finalOutboundTag = r.finalOutboundTag
  created_closed : ∀ hook, r.next ≤ hook → hook < r'.next → hook ∈ r'.closed
  live_open : ∀ hook ∈ hooksOf r.rules, hook ∉ r'.closed

/-- What an append reload leaves: the strategy, the final tag and the rules, perhaps with more
rules after them. -/
structure Appended (r r' : LiveRouter P) : Prop where
  domainStrategy_eq : r'.domainStrategy = r.domainStrategy
  finalOutboundTag_eq : r'.finalOutboundTag = r.finalOutboundTag
  rules_prefix : r.rules <+: r'.rules

variable {r : LiveRouter P}

lemma failedReload_refl (hr : r.Consistent) : FailedReload r r :=
  ⟨rfl, rfl, rfl, rfl, fun _ hle hlt => absurd hlt (Nat.not_lt.mpr hle), hr.hooks_open⟩

variable {l : List ℕ} {h : Hooks}

lemma Consistent.failedReload (hr : r.Consistent) (hl : Hooks.Grows ⟨r.next, []⟩ h l) :
    FailedReload r { r with next := h.next, closed := r.closed ∪ h.created.toFinset } := by
  refine ⟨rfl, rfl, rfl, rfl, fun hook hle hlt => ?_, fun hook hlive hclosed => ?_⟩
  · refine mem_union_right _ (mem_toFinset.mpr ?_)
    rw [hl.created_eq]
    exact hl.mem_iff.mpr ⟨hle, hlt⟩
  · rcases mem_union.mp hclosed with hclosed | hclosed
    · exact hr.hooks_open hook hlive hclosed
    · rw [mem_toFinset, hl.created_eq] at hclosed
      exact Nat.not_lt.mpr (hl.mem_iff.mp hclosed).1 (hr.hooks_lt hook hlive)

lemma consistent_nil (balancers : GoMap String (Balancer P)) (domainStrategy : DomainStrategy)
    (finalOutboundTag : String) {next : ℕ} {closed : Finset ℕ}
    (hclosed : ∀ hook ∈ closed, hook < next) :
    Consistent (⟨[], balancers, domainStrategy, finalOutboundTag, next, closed⟩ : LiveRouter P) :=
  ⟨nodup_nil, by simp, nodup_nil, by simp [hooksOf], by simp [hooksOf], hclosed⟩

section

variable (hr : r.Consistent)
include hr

lemma Consistent.append {built : List (HookedRule P)} (hl : Hooks.Grows ⟨r.next, []⟩ h l)
    (hb : BuiltRules r.balancers (tagsOf r.rules).toFinset l built) :
    Consistent { r with rules := r.rules ++ built, next := h.next } := by
  have hnext : r.next ≤ h.next := by
    rw [hl.next_eq]
    exact Nat.le_add_right _ _
  have hhooks : hooksOf (r.rules ++ built) = hooksOf r.rules ++ l := by
    rw [hooksOf, filterMap_append, ← hooksOf, ← hooksOf, hb.hooks_eq]
  have htags : tagsOf (r.rules ++ built) = tagsOf r.rules ++ tagsOf built :=
    filterMap_append
  refine ⟨?_, ?_, ?_, ?_, ?_, ?_⟩
  · dsimp only
    rw [htags]
    refine hr.tags_nodup.append hb.nodup fun tag hold hnew => ?_
    exact hb.fresh tag hnew (mem_toFinset.mpr hold)
  · intro rule hrule
    rcases mem_append.mp hrule with hrule | hrule
    · exact hr.bound rule hrule
    · exact hb.bound rule hrule
  · dsimp only
    rw [hhooks]
    refine hr.hooks_nodup.append (hl.range_eq ▸ nodup_range') fun hook hold hnew => ?_
    exact Nat.not_lt.mpr (hl.mem_iff.mp hnew).1 (hr.hooks_lt hook hold)
  · dsimp only
    rw [hhooks]
    intro hook hhook
    rcases mem_append.mp hhook with hhook | hhook
    · exact (hr.hooks_lt hook hhook).trans_le hnext
    · exact (hl.mem_iff.mp hhook).2
  · dsimp only
    rw [hhooks]
    intro hook hhook hclosed
    rcases mem_append.mp hhook with hhook | hhook
    · exact hr.hooks_open hook hhook hclosed
    · exact Nat.not_lt.mpr (hl.mem_iff.mp hhook).1 (hr.closed_lt hook hclosed)
  · exact fun hook hclosed => (hr.closed_lt hook hclosed).trans_le hnext

/-- More balancers may be registered, as long as those of the rules stay. -/
lemma Consistent.setBalancers {balancers : GoMap String (Balancer P)}
    (h : ∀ tag balancer, r.balancers.lookup tag = some balancer →
      balancers.lookup tag = some balancer) : Consistent { r with balancers := balancers } :=
  { hr with bound := fun rule hrule b hb => h _ _ (hr.bound rule hrule b hb) }

lemma Consistent.fail (hl : Hooks.Grows ⟨r.next, []⟩ h l) :
    Consistent { r with next := h.next, closed := r.closed ∪ h.created.toFinset } := by
  have hnext : r.next ≤ h.next := by
    rw [hl.next_eq]
    exact Nat.le_add_right _ _
  refine ⟨hr.tags_nodup, hr.bound, hr.hooks_nodup, ?_, (hr.failedReload hl).live_open, ?_⟩
  · exact fun hook hhook => (hr.hooks_lt hook hhook).trans_le hnext
  · intro hook hclosed
    rcases mem_union.mp hclosed with hclosed | hclosed
    · exact (hr.closed_lt hook hclosed).trans_le hnext
    · rw [mem_toFinset, hl.created_eq] at hclosed
      exact (hl.mem_iff.mp hclosed).2

lemma Consistent.reloadRules (config : Option (Config P)) (shouldAppend : Bool) :
    (r.reloadRules new config shouldAppend).2.Consistent ∧
      (∀ e, (r.reloadRules new config shouldAppend).1 = .error e →
        FailedReload r (r.reloadRules new config shouldAppend).2) ∧
      (shouldAppend = true → Appended r (r.reloadRules new config shouldAppend).2) := by
  have same : Appended r r := ⟨rfl, rfl, prefix_refl _⟩
  cases config with
  | none => exact ⟨hr, fun _ _ => failedReload_refl hr, fun _ => same⟩
  | some config =>
  rw [LiveRouter.reloadRules]
  cases hbal : buildBalancers (if shouldAppend then r.balancers else ∅) config.balancingRule with
  | error e => exact ⟨hr, fun _ _ => failedReload_refl hr, fun _ => same⟩
  | ok balancers =>
  obtain ⟨l, hl, hbuilt⟩ := hookRules_spec new balancers
    (tagsOf (if shouldAppend then r.rules else [])).toFinset ⟨r.next, []⟩ config.rule
  dsimp only
  cases hrules : hookRules new balancers
    (tagsOf (if shouldAppend then r.rules else [])).toFinset ⟨r.next, []⟩ config.rule with
  | mk result h =>
  rw [hrules] at hl hbuilt
  cases result with
  | error e =>
    exact ⟨hr.fail hl, fun _ _ => hr.failedReload hl, fun _ => ⟨rfl, rfl, prefix_refl _⟩⟩
  | ok built =>
  have hb := hbuilt built rfl
  refine ⟨?_, fun e he => (by cases he), ?_⟩
  · cases shouldAppend with
    | true => exact (hr.setBalancers fun _ _ => buildBalancers_keeps hbal).append hl hb
    | false =>
      refine (consistent_nil balancers config.domainStrategy config.finalOutboundTag ?_).append
        hl hb
      intro hook hclosed
      rcases mem_union.mp hclosed with hclosed | hclosed
      · exact hr.closed_lt hook hclosed
      · exact hr.hooks_lt hook (mem_toFinset.mp hclosed)
  · rintro rfl
    exact ⟨rfl, rfl, prefix_append _ _⟩

lemma Consistent.removeRule (tag : String) : (r.removeRule tag).2.Consistent := by
  rw [LiveRouter.removeRule]
  split_ifs with hempty
  · exact hr
  have hsub : (r.rules.filter fun rule => rule.rule.ruleTag ≠ tag).Sublist r.rules :=
    filter_sublist
  have hhooks := hsub.filterMap hook
  -- A notifier belongs to one rule, so those of the removed rules are not those of the others.
  have hperm : ((r.rules.filter fun rule => rule.rule.ruleTag = tag) ++
      r.rules.filter fun rule => rule.rule.ruleTag ≠ tag).Perm r.rules := by
    simpa using filter_append_perm (fun rule => decide (rule.rule.ruleTag = tag)) r.rules
  have hnodup : (hooksOf ((r.rules.filter fun rule => rule.rule.ruleTag = tag) ++
      r.rules.filter fun rule => rule.rule.ruleTag ≠ tag)).Nodup :=
    (hperm.filterMap _).nodup_iff.mpr hr.hooks_nodup
  rw [hooksOf, filterMap_append] at hnodup
  refine ⟨hr.tags_nodup.sublist (hsub.filterMap _),
    fun rule hrule => hr.bound rule (hsub.subset hrule), hr.hooks_nodup.sublist hhooks,
    fun hook hhook => hr.hooks_lt hook (hhooks.subset hhook), ?_, ?_⟩
  · intro hook hhook hclosed
    rcases mem_union.mp hclosed with hclosed | hclosed
    · exact hr.hooks_open hook (hhooks.subset hhook) hclosed
    · exact disjoint_of_nodup_append hnodup (mem_toFinset.mp hclosed) hhook
  · intro hook hclosed
    rcases mem_union.mp hclosed with hclosed | hclosed
    · exact hr.closed_lt hook hclosed
    · refine hr.hooks_lt hook ?_
      exact (filter_sublist.filterMap _).subset (mem_toFinset.mp hclosed)

end

lemma consistent_init {manager : Bool} {config : Option (Config P)}
    (h : (initRouter new manager config).1 = .ok r) : r.Consistent := by
  cases config with
  | none => cases h
  | some config =>
  rw [initRouter] at h
  split_ifs at h with hmanager
  cases hcheck : checkBalancing config.balancingRule with
  | error e =>
    rw [hcheck] at h
    cases h
  | ok u =>
  cases hbal : initBalancers ∅ config.balancingRule with
  | error e =>
    rw [hcheck, hbal] at h
    cases h
  | ok balancers =>
  obtain ⟨l, hl, hbuilt⟩ := hookRules_spec new balancers ∅ ⟨0, []⟩ config.rule
  rw [hcheck, hbal] at h
  dsimp only at h
  cases hrules : hookRules new balancers ∅ ⟨0, []⟩ config.rule with
  | mk result hooks =>
  rw [hrules] at h hl hbuilt
  cases result with
  | error e => cases h
  | ok built =>
  cases h
  exact (consistent_nil balancers config.domainStrategy config.finalOutboundTag
    (by simp)).append hl (hbuilt built rfl)

lemma Reached.consistent (hr : r.Reached new) : r.Consistent := by
  induction hr with
  | init manager config r h => exact consistent_init h
  | reload r _ config shouldAppend ih => exact (ih.reloadRules config shouldAppend).1
  | remove r _ tag ih => exact ih.removeRule tag

end LiveRouter

/-- After `Init` and any calls of `ReloadRules` and `RemoveRule`, the table is consistent. A reload
that fails leaves it as it was, with the notifiers of the call closed and those of the rules open,
and an append reload keeps the strategy, the final tag and the rules in their order. -/
theorem reloadRules_all_or_nothing (new : NewNotifier) (r : LiveRouter P) (hr : r.Reached new) :
    r.Consistent ∧ ∀ (config : Option (Config P)) (shouldAppend : Bool),
      (∀ e, (r.reloadRules new config shouldAppend).1 = .error e →
        r.FailedReload (r.reloadRules new config shouldAppend).2) ∧
      (shouldAppend = true → r.Appended (r.reloadRules new config shouldAppend).2) :=
  ⟨hr.consistent, fun config shouldAppend => (hr.consistent.reloadRules config shouldAppend).2⟩

def nilRuleConfig : Config plainParts :=
  ⟨.asIs, [some ⟨.tag "direct", "b", (), some ⟨⟩⟩, none], [], ""⟩

theorem reloadRules_all_or_nothing_nilRule :
    ∃ r, (initRouter (fun _ => .ok true) false (some (plainConfig "a"))).1 = .ok r ∧
      (r.reloadRules (fun _ => .ok true) (some nilRuleConfig) true).1 =
        .error "nil routing rule" ∧
      (r.reloadRules (fun _ => .ok true) (some nilRuleConfig) true).2.closed = {0} ∧
      r.FailedReload (r.reloadRules (fun _ => .ok true) (some nilRuleConfig) true).2 :=
  ⟨_, rfl, rfl, rfl, ((reloadRules_all_or_nothing (fun _ => .ok true) _
    (.init false (some (plainConfig "a")) _ rfl)).2 (some nilRuleConfig) true).1 _ rfl⟩

/-! ### The constructor of this repository -/

lemma tagsOf_toFinset (rules : List (HookedRule P)) :
    (tagsOf rules).toFinset = ruleTagsOf (rules.map rule) := by
  rw [ruleTagsOf, filterMap_map]
  rfl

lemma buildRule_eq (rule : RoutingRule P) :
    buildRule balancers rule = (do
      let condition ← P.buildCondition rule.fields
      let balancer ← findBalancer balancers rule.getBalancingTag
      .ok ⟨rule.getTag, rule.ruleTag, balancer, condition, none⟩) := by
  rw [buildRule, findBalancer]
  cases P.buildCondition rule.fields with
  | error e => rfl
  | ok condition =>
    split_ifs with hempty
    · cases rule.webhook <;> rfl
    · cases balancers.lookup rule.getBalancingTag <;> cases rule.webhook <;> rfl

lemma hookRules_stub (ruleTags : Finset String) (h : Hooks)
    (rules : List (Option (RoutingRule P))) :
    (hookRules stubNotifier balancers ruleTags h rules).1.map (List.map rule) =
      buildRules balancers ruleTags rules := by
  induction rules generalizing ruleTags h with
  | nil => rfl
  | cons o rules ih =>
    cases o with
    | none => rfl
    | some rule =>
    have hcreate : h.create stubNotifier rule.webhook = .ok (none, h) := by
      cases rule.webhook <;> rfl
    rw [hookRules, buildRules, hcreate, buildRule_eq]
    by_cases hdup : rule.ruleTag ≠ "" ∧ rule.ruleTag ∈ ruleTags
    · rw [if_pos hdup, if_pos hdup]
      rfl
    rw [if_neg hdup, if_neg hdup]
    cases P.buildCondition rule.fields with
    | error e => rfl
    | ok condition =>
    cases findBalancer balancers rule.getBalancingTag with
    | error e => rfl
    | ok balancer =>
    dsimp only [Except.bind]
    rw [← ih _ h]
    cases (hookRules stubNotifier balancers (if rule.ruleTag = "" then ruleTags
      else insert rule.ruleTag ruleTags) h rules).1 <;> rfl

/-- With notifiers that are never created, the tables are those of `reloadRules`. -/
theorem reloadRules_stub_table (r : LiveRouter P) (config : Option (Config P))
    (shouldAppend : Bool) :
    (r.reloadRules stubNotifier config shouldAppend).1.map
        (fun _ => (r.reloadRules stubNotifier config shouldAppend).2.table) =
      reloadRules r.table config shouldAppend := by
  cases config with
  | none => rfl
  | some config =>
  have hbase : (if shouldAppend then r.table.rules else []) =
      (if shouldAppend then r.rules else []).map rule := by
    cases shouldAppend <;> rfl
  have hbal : r.table.balancers = r.balancers := rfl
  rw [LiveRouter.reloadRules, reloadRules, buildFrom, hbase, ← tagsOf_toFinset, hbal]
  cases buildBalancers (if shouldAppend then r.balancers else ∅) config.balancingRule with
  | error e => rfl
  | ok balancers =>
  dsimp only
  rw [← hookRules_stub _ _ ⟨r.next, []⟩]
  cases hookRules stubNotifier balancers
    (tagsOf (if shouldAppend then r.rules else [])).toFinset ⟨r.next, []⟩ config.rule with
  | mk result h =>
  cases result with
  | error e => rfl
  | ok built =>
    cases shouldAppend with
    | true =>
      simp only [Except.map, LiveRouter.table, commitRules, if_true, map_append]
    | false =>
      simp [Except.map, LiveRouter.table, commitRules]

end BypassCore.Router
