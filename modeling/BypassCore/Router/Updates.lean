import BypassCore.Router.Basic
import BypassCore.Lib.Runs
import BypassCore.Lib.Linearizable

/-!
# Concurrent updates of the routing table

`ReloadRules` calls exclude each other through `reloadMu`, but hold `mu` only while they read the
base table and while they commit. `RemoveRule` calls take `mu` alone, so they may come between the
two critical sections of a reload. An append reload then commits a list built on the rules that
were removed. Along the runs in which every append reload commits onto the rules it read, the
updates are linearizable.
-/

namespace BypassCore.Router

open Lib

variable {P : Parts}

/-! ### Calls and steps -/

inductive Op (P : Parts) where
  | reload (config : Option (Config P)) (shouldAppend : Bool)
  | remove (tag : String)

def applyOp (table : Table P) : Op P → Option (Table P)
  | .reload config shouldAppend => (reloadRules table config shouldAppend).toOption
  | .remove tag => (removeRule table tag).toOption

/-- How far a call is. A successful call remembers the step at which it committed. -/
inductive Phase (P : Parts) where
  | waiting
  /-- A reload that holds `reloadMu`. -/
  | locked
  | based (base : Table P)
  | succeeded (time : Nat)
  | failed (error : String)

/-- A call that has not returned. A step invokes one call at most, so the time of its invocation
names it. -/
structure Call (P : Parts) where
  op : Op P
  invoked : Nat
  phase : Phase P

/-- The router, its calls and the history of their commits and returns. -/
structure State (P : Parts) where
  table : Table P
  reloadMu : Option Nat
  time : Nat
  active : List (Call P)
  commits : List (Commit (Op P))
  /-- The successful calls that have returned, each with the time of its commit. -/
  succeeded : List (Completed (Op P) × Nat)

def State.init (table : Table P) : State P := ⟨table, none, 0, [], [], []⟩

/-- The atomic steps of the calls. A call is named by its place among the active ones. -/
inductive Step (P : Parts) where
  | invoke (op : Op P)
  /-- A reload checks its config and takes `reloadMu`. -/
  | lock (i : Nat)
  /-- A reload copies the table under the read lock. -/
  | read (i : Nat)
  /-- A reload builds its rules and commits them under the lock, or fails. -/
  | commit (i : Nat)
  | remove (i : Nat)
  /-- A call returns, and a reload releases `reloadMu`. -/
  | ret (i : Nat)

variable (s : State P)

def State.setPhase (i : Nat) (call : Call P) (phase : Phase P) : State P :=
  { s with active := s.active.set i { call with phase := phase } }

def State.succeed (i : Nat) (call : Call P) (table : Table P) : State P :=
  { s.setPhase i call (.succeeded s.time) with
    table := table
    commits := s.commits ++ [⟨call.op, call.invoked, s.time⟩] }

def effect : Step P → Option (State P)
  | .invoke op => some { s with active := s.active ++ [⟨op, s.time, .waiting⟩] }
  | .lock i =>
    s.active[i]?.bind fun call =>
      match call.op, call.phase with
      | .reload none _, .waiting => some (s.setPhase i call (.failed "nil router config"))
      | .reload (some _) _, .waiting =>
        if s.reloadMu = none then
          some { s.setPhase i call .locked with reloadMu := some call.invoked }
        else none
      | _, _ => none
  | .read i =>
    s.active[i]?.bind fun call =>
      match call.phase with
      | .locked => some (s.setPhase i call (.based s.table))
      | _ => none
  | .commit i =>
    s.active[i]?.bind fun call =>
      match call.op, call.phase with
      | .reload (some config) shouldAppend, .based base =>
        match buildFrom base config shouldAppend with
        | .error e => some (s.setPhase i call (.failed e))
        | .ok built => some (s.succeed i call (commitRules s.table config shouldAppend built))
      | _, _ => none
  | .remove i =>
    s.active[i]?.bind fun call =>
      match call.op, call.phase with
      | .remove tag, .waiting =>
        match removeRule s.table tag with
        | .error e => some (s.setPhase i call (.failed e))
        | .ok table => some (s.succeed i call table)
      | _, _ => none
  | .ret i =>
    s.active[i]?.bind fun call =>
      let released :=
        { s with
          active := s.active.eraseIdx i
          reloadMu := if s.reloadMu = some call.invoked then none else s.reloadMu }
      match call.phase with
      | .succeeded time =>
        some { released with
          succeeded := s.succeeded ++ [(⟨call.op, call.invoked, s.time⟩, time)] }
      | .failed _ => some released
      | _ => none

def step (e : Step P) : Option (State P) :=
  (effect s e).map fun t => { t with time := t.time + 1 }

def Op.Contains (tag : String) : Op P → Prop
  | .reload (some config) _ => ∃ rule, some rule ∈ config.rule ∧ rule.ruleTag = tag
  | _ => False

/-- The operation leaves the rules with the given tag alone: it neither replaces the list nor
removes the tag. -/
def Op.Spares (tag : String) : Op P → Prop
  | .reload _ shouldAppend => shouldAppend = true
  | .remove tag' => tag' ≠ tag

/-- No update is lost: once all calls have returned, the table is what the successful ones give in
an order that respects real time; a removed tag stays away until an operation brings it again; and
a rule stays until an operation replaces the list or removes its tag. -/
structure NoLostUpdate (init : Table P) (s : State P) : Prop where
  linearizable : s.active = [] →
    Linearizable applyOp init s.table (s.succeeded.map Prod.fst)
  removed : ∀ before tag after, s.commits.map Commit.op = before ++ .remove tag :: after →
    (∀ op ∈ after, ¬ op.Contains tag) → ∀ rule ∈ s.table.rules, rule.ruleTag ≠ tag
  kept : ∀ before op after, s.commits.map Commit.op = before ++ op :: after →
    ∀ t, applyAll applyOp init (before ++ [op]) = some t → ∀ rule ∈ t.rules,
      (∀ op' ∈ after, op'.Spares rule.ruleTag) → rule ∈ s.table.rules

/-- An append reload commits onto the rules that it read. -/
def OnBase : Step P → Prop
  | .commit i =>
    match s.active[i]? with
    | some ⟨.reload _ true, _, .based base⟩ => base.rules = s.table.rules
    | _ => True
  | _ => True

open List Option

variable {init : Table P} {s : State P}

lemma applyOp_reload_eq_some {table t : Table P} {config : Option (Config P)}
    {shouldAppend : Bool} (h : applyOp table (.reload config shouldAppend) = some t) :
    ∃ c built, config = some c ∧ buildFrom table c shouldAppend = .ok built ∧
      t = commitRules table c shouldAppend built := by
  cases config with
  | none => cases h
  | some c =>
    simp only [applyOp, reloadRules] at h
    cases hb : buildFrom table c shouldAppend with
    | error e =>
      rw [hb] at h
      cases h
    | ok built =>
      rw [hb] at h
      cases h
      exact ⟨c, built, rfl, hb, rfl⟩

lemma applyOp_remove_eq_some {table t : Table P} {tag : String}
    (h : applyOp table (.remove tag) = some t) :
    t = { table with rules := table.rules.filter fun rule => rule.ruleTag ≠ tag } := by
  simp only [applyOp, removeRule] at h
  split_ifs at h <;> cases h
  · rfl

@[simp] lemma commitRules_rules (table : Table P) (config : Config P) (shouldAppend : Bool)
    (built : List (Rule P) × GoMap String (Balancer P)) :
    (commitRules table config shouldAppend built).rules = built.1 := by
  cases shouldAppend <;> rfl

/-- An operation without the tag does not bring it back. -/
lemma applyOp_absent {tag : String} {op : Op P} (hop : ¬ op.Contains tag) {t t' : Table P}
    (ht : ∀ rule ∈ t.rules, rule.ruleTag ≠ tag) (h : applyOp t op = some t') :
    ∀ rule ∈ t'.rules, rule.ruleTag ≠ tag := by
  cases op with
  | reload config shouldAppend =>
    obtain ⟨c, built, rfl, hbuilt, rfl⟩ := applyOp_reload_eq_some h
    obtain ⟨balancers, new, -, hnew, rfl⟩ := buildFrom_eq_ok hbuilt
    intro rule hrule
    rw [commitRules_rules] at hrule
    rcases mem_append.mp hrule with hrule | hrule
    · split_ifs at hrule
      · exact ht rule hrule
      · cases hrule
    · obtain ⟨r, hr, htag⟩ := exists_of_mem_buildRules hnew hrule
      intro heq
      exact hop ⟨r, hr, htag.trans heq⟩
  | remove tag' =>
    rw [applyOp_remove_eq_some h]
    intro rule hrule
    exact ht rule (mem_of_mem_filter hrule)

lemma applyOp_keeps {rule : Rule P} {op : Op P} (hop : op.Spares rule.ruleTag) {t t' : Table P}
    (ht : rule ∈ t.rules) (h : applyOp t op = some t') : rule ∈ t'.rules := by
  cases op with
  | reload config shouldAppend =>
    obtain ⟨c, built, rfl, hbuilt, rfl⟩ := applyOp_reload_eq_some h
    obtain ⟨balancers, new, -, -, rfl⟩ := buildFrom_eq_ok hbuilt
    have happend : shouldAppend = true := hop
    rw [happend]
    exact mem_append_left _ ht
  | remove tag' =>
    rw [applyOp_remove_eq_some h]
    refine mem_filter.mpr ⟨ht, ?_⟩
    have hne : tag' ≠ rule.ruleTag := hop
    simpa using hne.symm

def Call.commit? (c : Call P) : Option (Commit (Op P)) :=
  match c.phase with
  | .succeeded time => some ⟨c.op, c.invoked, time⟩
  | _ => none

/-- What is known of a call by its phase: a reload between its two critical sections holds
`reloadMu`, and nobody has changed the balancers since it read them. -/
def Call.Ok (s : State P) (c : Call P) : Prop :=
  c.invoked < s.time ∧
    match c.phase with
    | .locked => s.reloadMu = some c.invoked
    | .based base => s.reloadMu = some c.invoked ∧ base.balancers = s.table.balancers
    | .succeeded time => c.invoked ≤ time ∧ time < s.time
    | _ => True

def returnedCommit (c : Completed (Op P) × Nat) : Commit (Op P) := ⟨c.1.op, c.1.invoked, c.2⟩

/-- What holds between the steps of a run in which append reloads commit onto their base. -/
structure Inv (init : Table P) (s : State P) : Prop where
  ok : ∀ c ∈ s.active, c.Ok s
  nodup : (s.active.map Call.invoked).Nodup
  sequential : applyAll applyOp init (s.commits.map Commit.op) = some s.table
  sorted : s.commits.Pairwise fun a b => a.time < b.time
  time_lt : ∀ c ∈ s.commits, c.time < s.time
  accounted : (s.active.filterMap Call.commit? ++ s.succeeded.map returnedCommit).Perm s.commits
  between : ∀ c ∈ s.succeeded, c.1.invoked ≤ c.2 ∧ c.2 ≤ c.1.returned

lemma inv_init (init : Table P) : Inv init (State.init init) := by
  constructor <;> simp [State.init, applyAll]

variable {t : State P}

/-- A call stays as it is over a step that leaves `reloadMu` and the balancers to its holder. -/
lemma Call.Ok.mono {c : Call P} (h : c.Ok s) (htime : s.time ≤ t.time)
    (hhold : s.reloadMu = some c.invoked →
      t.reloadMu = s.reloadMu ∧ t.table.balancers = s.table.balancers) : c.Ok t := by
  obtain ⟨hinv, hphase⟩ := h
  refine ⟨by omega, ?_⟩
  cases hp : c.phase with
  | waiting => trivial
  | failed e => trivial
  | locked =>
    rw [hp] at hphase
    exact (hhold hphase).1.trans hphase
  | based base =>
    rw [hp] at hphase
    exact ⟨(hhold hphase.1).1.trans hphase.1, hphase.2.trans (hhold hphase.1).2.symm⟩
  | succeeded time =>
    rw [hp] at hphase
    exact ⟨hphase.1, by omega⟩

section Others

variable {calls : List (Call P)} {i : Nat} {call : Call P}

/-- The other calls have other names. -/
lemma of_mem_eraseIdx (hn : (calls.map Call.invoked).Nodup) (hi : calls[i]? = some call)
    {c : Call P} (hc : c ∈ calls.eraseIdx i) : c ∈ calls ∧ c.invoked ≠ call.invoked := by
  refine ⟨mem_of_mem_eraseIdx hc, ?_⟩
  have hn' := ((pick_perm hi).map Call.invoked).nodup_iff.mp hn
  rw [map_cons, nodup_cons] at hn'
  intro heq
  exact hn'.1 (heq ▸ List.mem_map_of_mem hc)

lemma nodup_set (hn : (calls.map Call.invoked).Nodup) (hi : calls[i]? = some call)
    (phase : Phase P) : ((calls.set i { call with phase := phase }).map Call.invoked).Nodup := by
  rw [((pick_set_perm hi _).map Call.invoked).nodup_iff]
  exact ((pick_perm hi).map Call.invoked).nodup_iff.mp hn

end Others

/-! ### The steps -/

section Inv

variable (h : Inv init s)
include h

variable {call : Call P} {i : Nat}

/-- A step of a call that neither commits nor returns. -/
lemma Inv.quiet (hi : s.active[i]? = some call) (hcall : call.commit? = none) {phase : Phase P}
    (hphase : ({ call with phase := phase } : Call P).commit? = none) {mu : Option Nat}
    (hok : ({ call with phase := phase } : Call P).Ok
      { s.setPhase i call phase with reloadMu := mu, time := s.time + 1 })
    (hmu : ∀ n, n ≠ call.invoked → s.reloadMu = some n → mu = s.reloadMu) :
    Inv init { s.setPhase i call phase with reloadMu := mu, time := s.time + 1 } where
  ok := by
    intro c hc
    rcases mem_cons.mp ((pick_set_perm hi _).mem_iff.mp hc) with rfl | hc
    · exact hok
    · obtain ⟨hmem, hne⟩ := of_mem_eraseIdx h.nodup hi hc
      refine (h.ok c hmem).mono (Nat.le_succ _) ?_
      intro hhold
      exact ⟨hmu c.invoked hne hhold, rfl⟩
  nodup := nodup_set h.nodup hi phase
  sequential := h.sequential
  sorted := h.sorted
  time_lt := by
    intro c hc
    exact Nat.lt_succ_of_lt (h.time_lt c hc)
  accounted := by
    refine (Perm.append_right _ ?_).trans h.accounted
    refine ((pick_set_perm hi _).filterMap _).trans (Perm.trans ?_
      ((pick_perm hi).filterMap _).symm)
    rw [filterMap_cons_none hcall, filterMap_cons_none hphase]
  between := h.between

/-- A step of a call that takes effect as the operation does alone. -/
lemma Inv.succeed (hi : s.active[i]? = some call) (hcall : call.commit? = none) {table : Table P}
    (happly : applyOp s.table call.op = some table)
    (hbal : ∀ n, n ≠ call.invoked → s.reloadMu = some n → table.balancers = s.table.balancers) :
    Inv init { s.succeed i call table with time := s.time + 1 } where
  ok := by
    intro c hc
    rcases mem_cons.mp ((pick_set_perm hi _).mem_iff.mp hc) with rfl | hc
    · have hinv := (h.ok call (mem_of_getElem? hi)).1
      exact ⟨Nat.lt_succ_of_lt hinv, hinv.le, Nat.lt_succ_self _⟩
    · obtain ⟨hmem, hne⟩ := of_mem_eraseIdx h.nodup hi hc
      refine (h.ok c hmem).mono (Nat.le_succ _) ?_
      intro hhold
      exact ⟨rfl, hbal c.invoked hne hhold⟩
  nodup := nodup_set h.nodup hi _
  sequential := by
    show applyAll applyOp init ((s.commits ++ [_]).map Commit.op) = some table
    rw [map_append, applyAll_append, h.sequential]
    simp [applyAll, happly]
  sorted := by
    show (s.commits ++ [_]).Pairwise _
    rw [pairwise_append]
    refine ⟨h.sorted, pairwise_singleton _ _, ?_⟩
    intro a ha b hb
    rw [mem_singleton.mp hb]
    exact h.time_lt a ha
  time_lt := by
    intro c hc
    rcases mem_append.mp hc with hc | hc
    · exact Nat.lt_succ_of_lt (h.time_lt c hc)
    · rw [mem_singleton.mp hc]
      exact Nat.lt_succ_self _
  accounted := by
    -- the new commit moves from the front of the active calls to the end of the commits
    have hold : (s.active.filterMap Call.commit?).Perm
        ((s.active.eraseIdx i).filterMap Call.commit?) := by
      refine ((pick_perm hi).filterMap _).trans ?_
      rw [filterMap_cons_none hcall]
    refine (Perm.append_right _ ((pick_set_perm hi _).filterMap _)).trans ?_
    have hnew : (⟨call.op, call.invoked, .succeeded s.time⟩ : Call P).commit? =
        some ⟨call.op, call.invoked, s.time⟩ := rfl
    refine Perm.trans (Perm.cons _ ?_) (perm_append_singleton _ _).symm
    exact (Perm.append_right _ hold.symm).trans h.accounted
  between := h.between

lemma Inv.invoke (op : Op P) : Inv init
    { s with active := s.active ++ [⟨op, s.time, .waiting⟩], time := s.time + 1 } where
  ok := by
    intro c hc
    rcases mem_append.mp hc with hc | hc
    · refine (h.ok c hc).mono (Nat.le_succ _) ?_
      intro _
      exact ⟨rfl, rfl⟩
    · rw [mem_singleton.mp hc]
      exact ⟨Nat.lt_succ_self _, trivial⟩
  nodup := by
    rw [map_append, nodup_append]
    refine ⟨h.nodup, nodup_singleton _, ?_⟩
    intro n hn m hm
    obtain ⟨c, hc, rfl⟩ := List.mem_map.mp hn
    rw [mem_singleton.mp hm]
    exact (h.ok c hc).1.ne
  sequential := h.sequential
  sorted := h.sorted
  time_lt := by
    intro c hc
    exact Nat.lt_succ_of_lt (h.time_lt c hc)
  accounted := by
    have hnew : (⟨op, s.time, .waiting⟩ : Call P).commit? = none := rfl
    rw [filterMap_append, filterMap_cons_none hnew, filterMap_nil, append_nil]
    exact h.accounted
  between := h.between

/-- When a call leaves and gives up `reloadMu`, the others hold it as before. -/
lemma Inv.ok_eraseIdx (hi : s.active[i]? = some call)
    (htable : t.table = s.table) (htime : t.time = s.time + 1)
    (hmu : t.reloadMu = if s.reloadMu = some call.invoked then none else s.reloadMu) :
    ∀ c ∈ s.active.eraseIdx i, c.Ok t := by
  intro c hc
  obtain ⟨hmem, hne⟩ := of_mem_eraseIdx h.nodup hi hc
  refine (h.ok c hmem).mono (by omega) ?_
  intro hhold
  refine ⟨?_, by rw [htable]⟩
  rw [hmu, if_neg]
  rw [hhold, Option.some.injEq]
  exact hne

lemma Inv.nodup_eraseIdx (hi : s.active[i]? = some call) :
    ((s.active.eraseIdx i).map Call.invoked).Nodup := by
  have hn := ((pick_perm hi).map Call.invoked).nodup_iff.mp h.nodup
  exact (nodup_cons.mp hn).2

/-- A return takes the call off the active ones; a successful one joins the returned calls. -/
lemma Inv.ret (hs : step s (.ret i) = some t) : Inv init t := by
  obtain ⟨u, hu, rfl⟩ := map_eq_some_iff.mp hs
  obtain ⟨call, hi, heff⟩ := bind_eq_some_iff.mp hu
  have htime : ∀ c ∈ s.commits, c.time < s.time + 1 := by
    intro c hc
    exact Nat.lt_succ_of_lt (h.time_lt c hc)
  have hpick := (pick_perm hi).filterMap Call.commit?
  cases hp : call.phase with rw [hp] at heff
  | waiting | locked | based base => cases heff
  | failed e =>
    cases heff
    have hnone : call.commit? = none := by simp only [Call.commit?, hp]
    refine ⟨h.ok_eraseIdx hi rfl rfl rfl, h.nodup_eraseIdx hi, h.sequential, h.sorted, htime, ?_,
      h.between⟩
    rw [filterMap_cons_none hnone] at hpick
    exact (Perm.append_right _ hpick.symm).trans h.accounted
  | succeeded time =>
    cases heff
    have hsome : call.commit? = some ⟨call.op, call.invoked, time⟩ := by
      simp only [Call.commit?, hp]
    refine ⟨h.ok_eraseIdx hi rfl rfl rfl, h.nodup_eraseIdx hi, h.sequential, h.sorted, htime, ?_,
      ?_⟩
    · rw [filterMap_cons_some hsome] at hpick
      refine Perm.trans ?_ ((Perm.append_right _ hpick.symm).trans h.accounted)
      rw [map_append, ← append_assoc]
      exact perm_append_singleton _ _
    · intro c hc
      rcases mem_append.mp hc with hc | hc
      · exact h.between c hc
      · have hcall := (h.ok call (mem_of_getElem? hi)).2
        rw [hp] at hcall
        rw [mem_singleton.mp hc]
        exact ⟨hcall.1, hcall.2.le⟩

lemma Inv.lock (hs : step s (.lock i) = some t) : Inv init t := by
  obtain ⟨u, hu, rfl⟩ := map_eq_some_iff.mp hs
  obtain ⟨call, hi, heff⟩ := bind_eq_some_iff.mp hu
  have hinv := (h.ok call (mem_of_getElem? hi)).1
  split at heff
  · next hop hp =>
    cases heff
    refine h.quiet hi (by simp only [Call.commit?, hp]) rfl ⟨Nat.lt_succ_of_lt hinv, trivial⟩ ?_
    intro _ _ _
    rfl
  · next hop hp =>
    split_ifs at heff with hmu
    cases heff
    refine h.quiet hi (by simp only [Call.commit?, hp]) rfl ⟨Nat.lt_succ_of_lt hinv, rfl⟩ ?_
    intro n _ hn
    rw [hmu] at hn
    cases hn
  · cases heff

lemma Inv.read (hs : step s (.read i) = some t) : Inv init t := by
  obtain ⟨u, hu, rfl⟩ := map_eq_some_iff.mp hs
  obtain ⟨call, hi, heff⟩ := bind_eq_some_iff.mp hu
  have hcall := h.ok call (mem_of_getElem? hi)
  split at heff <;> cases heff
  · next hp =>
    have hmu := hcall.2
    rw [hp] at hmu
    refine h.quiet hi (by simp only [Call.commit?, hp]) rfl ⟨Nat.lt_succ_of_lt hcall.1, hmu, rfl⟩ ?_
    intro _ _ _
    rfl

/-- Committing a reload: with the base still current, it does what it does alone. -/
lemma Inv.commit (hg : OnBase s (.commit i)) (hs : step s (.commit i) = some t) : Inv init t := by
  obtain ⟨u, hu, rfl⟩ := map_eq_some_iff.mp hs
  obtain ⟨call, hi, heff⟩ := bind_eq_some_iff.mp hu
  have hcall := h.ok call (mem_of_getElem? hi)
  split at heff
  · next config shouldAppend base hop hp =>
    have hnone : call.commit? = none := by simp only [Call.commit?, hp]
    have hhold := hcall.2
    rw [hp] at hhold
    cases hb : buildFrom base config shouldAppend with
    | error e =>
      rw [hb] at heff
      cases heff
      refine h.quiet hi hnone rfl ⟨Nat.lt_succ_of_lt hcall.1, trivial⟩ ?_
      intro _ _ _
      rfl
    | ok built =>
      rw [hb] at heff
      cases heff
      have hbase : buildFrom s.table config shouldAppend = .ok built := by
        rw [← hb]
        apply buildFrom_congr
        intro happend
        obtain ⟨op, invoked, phase⟩ := call
        cases hop
        cases hp
        simp only [OnBase, hi, happend] at hg
        exact ⟨hg.symm, hhold.2.symm⟩
      apply h.succeed hi hnone
      · rw [hop]
        simp [applyOp, reloadRules, hbase]
        rfl
      · intro n hne hn
        rw [hhold.1, Option.some.injEq] at hn
        exact absurd hn.symm hne
  · cases heff

/-- A removal does what it does alone, and leaves the balancers. -/
lemma Inv.remove (hs : step s (.remove i) = some t) : Inv init t := by
  obtain ⟨u, hu, rfl⟩ := map_eq_some_iff.mp hs
  obtain ⟨call, hi, heff⟩ := bind_eq_some_iff.mp hu
  have hinv := (h.ok call (mem_of_getElem? hi)).1
  split at heff
  · next tag hop hp =>
    have hnone : call.commit? = none := by simp only [Call.commit?, hp]
    cases hr : removeRule s.table tag with
    | error e =>
      rw [hr] at heff
      cases heff
      refine h.quiet hi hnone rfl ⟨Nat.lt_succ_of_lt hinv, trivial⟩ ?_
      intro _ _ _
      rfl
    | ok table =>
      rw [hr] at heff
      cases heff
      have happly : applyOp s.table call.op = some table := by
        rw [hop, applyOp, hr]
        rfl
      apply h.succeed hi hnone happly
      intro _ _ _
      rw [hop] at happly
      rw [applyOp_remove_eq_some happly]
  · cases heff

lemma Inv.step {e : Step P} (hg : OnBase s e) (hs : step s e = some t) : Inv init t := by
  cases e with
  | invoke op =>
    cases hs
    exact h.invoke op
  | lock i => exact h.lock hs
  | read i => exact h.read hs
  | commit i => exact h.commit hg hs
  | remove i => exact h.remove hs
  | ret i => exact h.ret hs

lemma Inv.noLostUpdate : NoLostUpdate init s where
  linearizable := by
    intro hactive
    have hperm := h.accounted
    rw [hactive, filterMap_nil] at hperm
    exact linearizable_of_commits hperm h.between h.sorted h.sequential
  removed := by
    intro before tag after hcommits hafter
    have hseq := h.sequential
    rw [hcommits, applyAll_append] at hseq
    obtain ⟨t, ht, hrest⟩ := bind_eq_some_iff.mp hseq
    obtain ⟨t', ht', hrest'⟩ := bind_eq_some_iff.mp hrest
    refine applyAll_invariant (I := fun t => ∀ rule ∈ t.rules, rule.ruleTag ≠ tag) ?_ ?_ hrest'
    · intro op hop t t' ht h
      exact applyOp_absent (hafter op hop) ht h
    · rw [applyOp_remove_eq_some ht']
      intro rule hrule
      simpa using (mem_filter.mp hrule).2
  kept := by
    intro before op after hcommits t ht rule hrule hafter
    have hseq := h.sequential
    rw [hcommits, append_cons, applyAll_append, ht] at hseq
    refine applyAll_invariant (I := fun t => rule ∈ t.rules) ?_ hrule hseq
    intro op' hop' t t' ht h
    exact applyOp_keeps (hafter op' hop') ht h

end Inv

/-- Along a run in which every append reload commits onto the rules it read, no update is lost. -/
theorem noLostUpdate_of_onBase (init : Table P) (es : List (Step P)) (s : State P)
    (hg : Guarded step OnBase (State.init init) es)
    (hr : run step (State.init init) es = some s) : NoLostUpdate init s :=
  (Guarded.invariant (I := Inv init) (fun _ _ _ h hg hs => h.step hg hs) (inv_init init)
    hg hr).noLostUpdate

def plainParts : Parts where
  Fields := Unit
  Condition := Unit
  Settings := Unit
  buildCondition := .ok
  toLower := id
  observatory := false

def plainTable (ruleTag : String) : Table plainParts :=
  ⟨[⟨"direct", ruleTag, none, (), none⟩], ∅, .asIs, ""⟩

def plainConfig (ruleTag : String) : Config plainParts :=
  ⟨.asIs, [some ⟨.tag "direct", ruleTag, (), none⟩], [], ""⟩

/-- An append reload of rule `b` that is over before rule `a` is removed. -/
def onBaseRun : List (Step plainParts) :=
  [.invoke (.reload (some (plainConfig "b")) true), .lock 0, .read 0, .commit 0, .ret 0,
    .invoke (.remove "a"), .remove 0, .ret 0]

theorem noLostUpdate_of_onBase_sequential :
    ∃ s, run step (State.init (plainTable "a")) onBaseRun = some s ∧
      s.succeeded.length = 2 ∧ NoLostUpdate (plainTable "a") s :=
  ⟨_, rfl, rfl, noLostUpdate_of_onBase (plainTable "a") onBaseRun _
    (guarded_cons trivial rfl (guarded_cons trivial rfl (guarded_cons trivial rfl
      (guarded_cons rfl rfl (guarded_cons trivial rfl (guarded_cons trivial rfl
        (guarded_cons trivial rfl (guarded_cons trivial rfl trivial)))))))) rfl⟩

/-- Rule `a` is removed after an append reload has read its base and before it commits. Both calls
succeed, and rule `a` is back: no order of the two operations leaves it in the table. -/
theorem lost_removal :
    ¬ ∀ (init : Table plainParts) (es : List (Step plainParts)) (s : State plainParts),
      run step (State.init init) es = some s → NoLostUpdate init s := by
  intro h
  obtain ⟨s, hr, hactive, hcalls, hrules⟩ : ∃ s, run step (State.init (plainTable "a"))
      [.invoke (.reload (some (plainConfig "b")) true), .lock 0, .read 0, .invoke (.remove "a"),
        .remove 1, .commit 0, .ret 1, .ret 0] = some s ∧ s.active = [] ∧
      s.succeeded.map Prod.fst = [⟨.remove "a", 3, 6⟩,
        ⟨.reload (some (plainConfig "b")) true, 0, 7⟩] ∧ s.table.rules.length = 2 :=
    ⟨_, rfl, rfl, rfl, rfl⟩
  obtain ⟨order, hperm, -, happly⟩ := (h _ _ s hr).linearizable hactive
  rw [hcalls] at hperm
  have hlen := congrArg (Option.map fun t => t.rules.length) happly
  rw [map_some, hrules] at hlen
  obtain ⟨x, y, rfl⟩ := length_eq_two.mp hperm.length_eq
  have hx := hperm.mem_iff.mp (mem_cons_self (a := x))
  have hy := hperm.mem_iff.mp (mem_cons_of_mem x (mem_singleton_self y))
  simp only [mem_cons, not_mem_nil, or_false] at hx hy
  rcases hx with rfl | rfl <;> rcases hy with rfl | rfl <;> exact absurd hlen (by decide)

end BypassCore.Router
