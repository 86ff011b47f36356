import BypassCore.Runtime.Lease.Basic

/-!
# Reachable states of the runtime service

What an operation adds to the operations to take, and the rule by which an invariant of the service
and of these operations holds in every reachable state. The snapshots and leases that occur in a
reachable state were built and taken before.
-/

namespace BypassCore.Runtime

open Lib Goroutines List Service Op Function

variable {c : Choice} {sv sv' : Service} {op : Op} {others ops : Multiset Op}
  {e : Effect Service Op} {s t l : Nat}

@[simp] lemma added_onlyState : (onlyState sv).added = 0 := rfl

@[simp] lemma added_continueWith (next : List Op) : (continueWith sv next).added = ↑next := by
  simp [continueWith, Effect.added]

@[simp] lemma state_onlyState : (onlyState sv).state = sv := rfl

@[simp] lemma state_continueWith (next : List Op) : (continueWith sv next).state = sv := rfl

@[simp] lemma added_spawn (g : List Op) : (Effect.mk sv [] [g]).added = ↑g := by
  simp [Effect.added]

@[simp] lemma added_nil : (Effect.mk sv [] ([] : List (List Op))).added = 0 := rfl

namespace Service

variable {f : Snapshot → Snapshot} {g : Lease → Lease}

lemma snapshots_setSnapshot :
    (sv.setSnapshot s f).snapshots t = if t = s then f (sv.snapshots s) else sv.snapshots t :=
  update_apply _ _ _ _

lemma leases_setLease :
    (sv.setLease l g).leases t = if t = l then g (sv.leases l) else sv.leases t :=
  update_apply _ _ _ _

@[simp] lemma built_setSnapshot : (sv.setSnapshot s f).built = sv.built := rfl
@[simp] lemma leases_setSnapshot : (sv.setSnapshot s f).leases = sv.leases := rfl
@[simp] lemma leased_setSnapshot : (sv.setSnapshot s f).leased = sv.leased := rfl
@[simp] lemma closed_setSnapshot : (sv.setSnapshot s f).closed = sv.closed := rfl
@[simp] lemma snapshots_setLease : (sv.setLease l g).snapshots = sv.snapshots := rfl
@[simp] lemma built_setLease : (sv.setLease l g).built = sv.built := rfl
@[simp] lemma leased_setLease : (sv.setLease l g).leased = sv.leased := rfl
@[simp] lemma closed_setLease : (sv.setLease l g).closed = sv.closed := rfl

end Service

/-! ### Reachable states -/

/-- An operation that comes from outside, and what happens to the service with it. -/
inductive Starts (sv : Service) : Service → Op → Prop
  | call : Starts sv sv (.acquire .use)
  | hangUp (l : Nat) (h : (sv.leases l).tracked = true) : Starts sv sv (.closeConn l)
  | fire (s : Nat) (h : (sv.snapshots s).drainTimer = true) :
    Starts sv (sv.setSnapshot s fun x => { x with drainTimer := false }) (.force s)
  | reload : Starts sv sv .reload
  | close : Starts sv sv .close

def Op.fromOutside : Op → Bool
  | .acquire _ | .closeConn _ | .force _ | .reload | .close => true
  | _ => false

/-- Nothing but a timer changes when an operation comes from outside. -/
lemma Starts.eq_timers (h : Starts sv sv' op) :
    ∃ timers : Nat → Bool,
      sv' = { sv with snapshots := fun s => { sv.snapshots s with drainTimer := timers s } } := by
  cases h with
  | fire s _ =>
    refine ⟨fun t => if t = s then false else (sv.snapshots t).drainTimer, ?_⟩
    unfold setSnapshot
    congr 1
    funext t
    by_cases ht : t = s
    · subst ht
      simp
    · simp [ht]
  | _ => exact ⟨fun s => (sv.snapshots s).drainTimer, rfl⟩

lemma Starts.mem_of_mem_cons (h : Starts sv sv' op) {op' : Op} (hop : op' ∈ op ::ₘ ops)
    (hout : op'.fromOutside = false) : op' ∈ ops := by
  rcases Multiset.mem_cons.mp hop with rfl | hop
  · cases h <;> cases hout
  · exact hop

lemma step_cases {st st' : State} {ev : Event} (h : step st ev = some st') :
    (∃ i c op rest others e, ev = .go i c ∧ st.goroutines[i]? = some (op :: rest) ∧
        exec c st.state op = some e ∧ st.ops = op ::ₘ others ∧ st'.state = e.state ∧
        st'.ops = e.added + others) ∨
      ∃ op, Starts st.state st'.state op ∧ st'.ops = op ::ₘ st.ops := by
  cases ev with
  | go i c =>
    obtain ⟨op, rest, others, e, hi, he, hops, hstate, hops'⟩ := Config.advance_eq_some h
    exact .inl ⟨i, c, op, rest, others, e, rfl, hi, he, hops, hstate, hops'⟩
  | call =>
    cases h
    exact .inr ⟨_, .call, Config.ops_spawn _ _⟩
  | hangUp l =>
    by_cases hl : (st.state.leases l).tracked = true
    · rw [step, if_pos hl] at h
      cases h
      exact .inr ⟨_, .hangUp l hl, Config.ops_spawn _ _⟩
    · rw [step, if_neg hl] at h
      cases h
  | fire s =>
    by_cases hs : (st.state.snapshots s).drainTimer = true
    · rw [step, if_pos hs] at h
      cases h
      exact .inr ⟨_, .fire s hs, Config.ops_spawn _ _⟩
    · rw [step, if_neg hs] at h
      cases h
  | reload =>
    cases h
    exact .inr ⟨_, .reload, Config.ops_spawn _ _⟩
  | close =>
    cases h
    exact .inr ⟨_, .close, Config.ops_spawn _ _⟩

def Reachable (st : State) : Prop := ∃ es, run step init es = some st

lemma Reachable.after {st st' : State} {ev : Event} (h : Reachable st)
    (hstep : step st ev = some st') : Reachable st' := by
  obtain ⟨es, hr⟩ := h
  exact ⟨es ++ [ev], run_append.mpr ⟨st, hr, run_cons.mpr ⟨st', hstep, rfl⟩⟩⟩

/-- What every operation keeps, every reachable state has. A property of all reachable states that
is already known may be used. -/
theorem Reachable.induction {J I : Service → Multiset Op → Prop}
    (hJ : ∀ {st}, Reachable st → J st.state st.ops) (hinit : I .new 0)
    (hstarts : ∀ {sv sv' op ops}, J sv ops → I sv ops → Starts sv sv' op → I sv' (op ::ₘ ops))
    (hexec : ∀ {c sv op others e}, J sv (op ::ₘ others) → I sv (op ::ₘ others) →
      exec c sv op = some e → I e.state (e.added + others))
    {st : State} (h : Reachable st) : I st.state st.ops := by
  obtain ⟨es, hr⟩ := h
  have hinv : Reachable st ∧ I st.state st.ops := by
    refine run_invariant (I := fun st => Reachable st ∧ I st.state st.ops) ?_ ⟨⟨[], rfl⟩, hinit⟩ hr
    rintro st ev st' ⟨hst, hI⟩ hstep
    refine ⟨hst.after hstep, ?_⟩
    have hJst := hJ hst
    obtain ⟨i, c, op, rest, others, e, -, -, he, hops, hstate, hops'⟩ | ⟨op, hop, hops'⟩ :=
      step_cases hstep
    · rw [hops] at hI hJst
      rw [hstate, hops']
      exact hexec hJst hI he
    · rw [hops']
      exact hstarts hJst hI hop
  exact hinv.2

/-! ### The larger sections -/

def Op.acquired (sv : Service) : Op → Option Nat
  | .acquire _ => if sv.closed then none else sv.current
  | _ => none

def Op.released (sv : Service) : Op → Option Nat
  | .decrement l => some (sv.leases l).snapshot
  | _ => none

/-- Leases are only taken on the current snapshot. -/
lemma current_of_acquired (h : op.acquired sv = some s) : sv.current = some s := by
  cases op with
  | acquire p =>
    unfold acquired at h
    split_ifs at h
    exact h
  | _ => cases h

lemma acquire_cases (sv : Service) (p : Purpose) :
    ((Op.acquire p).acquired sv = none ∧ acquire sv p = onlyState sv) ∨
      ∃ s, (Op.acquire p).acquired sv = some s ∧
        acquire sv p = continueWith (sv.lend s) [p.follow sv.leased] := by
  unfold acquire
  split
  · rename_i s hc hcur
    exact .inr ⟨s, by simp [Op.acquired, hc, hcur], rfl⟩
  · rename_i h
    refine .inl ⟨?_, rfl⟩
    unfold acquired
    cases hc : sv.closed with
    | true => rfl
    | false =>
      cases hcur : sv.current with
      | none => rfl
      | some s => exact absurd hcur (h s hc)

lemma register_cases (sv : Service) (s : Nat) :
    (sv.closed = true ∧ register sv s = continueWith sv (forceClose s)) ∨
      (sv.closed = false ∧ ∃ v rest,
        (sv.retired.filter fun r => !(sv.snapshots r).closed) ++ [s] = v :: rest ∧
        ((maxRetiredSnapshots < rest.length + 1 ∧
            register sv s = continueWith { sv with retired := rest, victims := v :: sv.victims }
              [.goForce v]) ∨
          (rest.length + 1 ≤ maxRetiredSnapshots ∧
            register sv s = onlyState { sv with retired := v :: rest }))) := by
  unfold register
  cases hc : sv.closed with
  | true => exact .inl ⟨rfl, rfl⟩
  | false =>
    refine .inr ⟨rfl, ?_⟩
    rcases hk : (sv.retired.filter fun r => !(sv.snapshots r).closed) ++ [s] with - | ⟨v, rest⟩
    · simp at hk
    · refine ⟨v, rest, rfl, ?_⟩
      by_cases hlen : maxRetiredSnapshots < rest.length + 1
      · exact .inl ⟨hlen, by simp [hlen]⟩
      · exact .inr ⟨Nat.le_of_not_lt hlen, by simp [hlen]⟩

lemma swap_cases (sv : Service) (l n : Nat) :
    (sv.closed = true ∧ swap sv l n = continueWith sv (retire n ++ release l)) ∨
      (sv.closed = false ∧ sv.current = none ∧
        swap sv l n = continueWith { sv with current := some n } (release l)) ∨
      ∃ old, sv.closed = false ∧ sv.current = some old ∧
        swap sv l n =
          continueWith { sv with current := some n } (retireSnapshot old ++ release l) := by
  unfold swap
  cases hc : sv.closed with
  | true => exact .inl ⟨rfl, rfl⟩
  | false =>
    cases hcur : sv.current with
    | none => exact .inr (.inl ⟨rfl, rfl, rfl⟩)
    | some old => exact .inr (.inr ⟨old, rfl, rfl, rfl⟩)

lemma build_snapshots (hb : sv.snapshots sv.built = .new) :
    (sv.setSnapshot sv.built fun _ => .new).snapshots = sv.snapshots := by
  unfold setSnapshot
  rw [← hb, update_eq_self]

structure SnapshotStep (sv : Service) (op : Op) (s : Nat) (x x' : Snapshot) : Prop where
  refs : x'.refs = x.refs + (if op.acquired sv = some s then 1 else 0) -
    if op.released sv = some s then 1 else 0
  retired : x'.retired = true ↔ x.retired = true ∨ op = .casRetired s
  forced : x'.forced = true ↔ x.forced = true ∨ op = .force s
  closed : x'.closed = true ↔ x.closed = true ∨ op = .storeClosed s
  closings : x'.closings = x.closings + if op = .closeAll s then 1 else 0
  closeOnce : x'.closeOnce = if op = .closeAll s then .done
    else if op = .enterOnce s ∧ x.closeOnce = .fresh then .running else x.closeOnce

lemma exec_snapshot (hb : sv.snapshots sv.built = .new) (he : exec c sv op = some e) (s : Nat) :
    SnapshotStep sv op s (sv.snapshots s) (e.state.snapshots s) := by
  cases op with
  | acquire p =>
    cases he
    obtain ⟨ha, h⟩ | ⟨t, ha, h⟩ := acquire_cases sv p
    · rw [h]
      constructor <;> simp [ha, released]
    · rw [h]
      constructor <;> simp [lend, snapshots_setSnapshot, released] <;> grind
  | build l =>
    simp only [exec] at he
    split at he <;> cases he
    · simp only [build_snapshots hb]
      constructor <;> simp [acquired, released]
    · constructor <;> simp [acquired, released]
  -- These write to one snapshot.
  | track t | deleteConn t | decrement t | casRetired t | armTimer t | force t | enterOnce t
  | storeClosed t | stopTimer t | closeAll t =>
    simp only [exec] at he
    (try split at he) <;> cases he <;>
    constructor <;> simp [acquired, released, snapshots_setSnapshot] <;> grind
  | _ =>
    simp only [exec, register, swap] at he
    (repeat' split at he) <;> cases he <;> constructor <;> simp [acquired, released]

structure LeaseStep (sv : Service) (op : Op) (l : Nat) (x x' : Lease) : Prop where
  snapshot : x'.snapshot = x.snapshot
  tracked : x'.tracked = true ↔
    x.tracked = true ∨ (op = .track l ∧ (sv.snapshots x.snapshot).forced = false)
  once : x'.once = if op = .leaveOnce l then .done
    else if op = .closeConn l ∧ x.once = .fresh then .running else x.once
  releases : x'.releases = x.releases + if op = .decrement l then 1 else 0

lemma exec_lease (he : exec c sv op = some e) (hl : l = sv.leased → op.acquired sv = none) :
    LeaseStep sv op l (sv.leases l) (e.state.leases l) := by
  cases op with
  | acquire p =>
    cases he
    obtain ⟨ha, h⟩ | ⟨t, ha, h⟩ := acquire_cases sv p
    · rw [h]
      constructor <;> simp
    · rw [h]
      have hne : l ≠ sv.leased := by
        intro h
        rw [hl h] at ha
        cases ha
      constructor <;> simp [lend, leases_setLease, hne]
  -- These write to one lease.
  | track k | closeConn k | leaveOnce k | decrement k =>
    simp only [exec] at he
    (try split at he) <;> cases he <;>
    constructor <;> simp [leases_setLease] <;> grind
  | _ =>
    simp only [exec, register, swap] at he
    (repeat' split at he) <;> cases he <;> constructor <;> simp

lemma exec_lease_new (he : exec c sv op = some e) (ha : op.acquired sv = some s) :
    e.state.leases sv.leased = Lease.new s := by
  cases op with
  | acquire p =>
    cases he
    obtain ⟨ha', -⟩ | ⟨t, ha', h⟩ := acquire_cases sv p
    · rw [ha'] at ha
      cases ha
    · rw [ha'] at ha
      cases ha
      rw [h]
      simp [lend, leases_setLease]
  | _ => cases ha

def Op.builds (c : Choice) : Op → Bool
  | .build _ => c.ok
  | _ => false

/-- What an operation makes of the other fields of the service. -/
structure ServiceStep (c : Choice) (sv : Service) (op : Op) (sv' : Service) : Prop where
  leased : sv'.leased = sv.leased + if (op.acquired sv).isSome then 1 else 0
  built : sv'.built = sv.built + if op.builds c then 1 else 0
  closed : sv'.closed = true ↔ sv.closed = true ∨ op = .close

section

variable (he : exec c sv op = some e)
include he

lemma exec_service : ServiceStep c sv op e.state := by
  cases op with
  | acquire p =>
    cases he
    obtain ⟨ha, h⟩ | ⟨t, ha, h⟩ := acquire_cases sv p <;> rw [h] <;>
      constructor <;> simp [ha, lend, builds]
  | _ =>
    simp only [exec, register, swap] at he
    (repeat' split at he) <;> cases he <;> constructor <;> simp_all [acquired, builds]

/-- A lease is a new one, or it makes a step. -/
lemma exec_lease_cases (l : Nat) :
    ((∀ s, op.acquired sv = some s → l ≠ sv.leased) ∧ (l < e.state.leased ↔ l < sv.leased) ∧
        LeaseStep sv op l (sv.leases l) (e.state.leases l)) ∨
      ∃ s, l = sv.leased ∧ op.acquired sv = some s ∧ e.state.leases l = .new s := by
  rw [(exec_service he).leased]
  cases ha : op.acquired sv with
  | none => exact .inl ⟨by simp, by simp, exec_lease he fun _ => ha⟩
  | some s =>
    by_cases hl : l = sv.leased
    · exact .inr ⟨s, hl, rfl, hl ▸ exec_lease_new he ha⟩
    · refine .inl ⟨fun _ _ => hl, ?_, exec_lease he fun heq => absurd heq hl⟩
      simp only [Option.isSome_some, if_true]
      omega

/-- Only `Reload` and `Close` change the current snapshot. -/
lemma exec_current_eq (hswap : ∀ l n, op ≠ .swap l n) (hclose : op ≠ .close) :
    e.state.current = sv.current := by
  cases op with
  | swap l n => exact absurd rfl (hswap l n)
  | close => exact absurd rfl hclose
  | _ =>
    simp only [exec, acquire, register] at he
    (repeat' split at he) <;> cases he <;> rfl

/-- Only `retireSnapshot` and `Close` change the lists. -/
lemma exec_lists (hregister : ∀ s, op ≠ .register s) (hcollect : ∀ current, op ≠ .collect current) :
    e.state.retired = sv.retired ∧ e.state.victims = sv.victims := by
  cases op with
  | register s => exact absurd rfl (hregister s)
  | collect current => exact absurd rfl (hcollect current)
  | _ =>
    simp only [exec, acquire, swap] at he
    (repeat' split at he) <;> cases he <;> exact ⟨rfl, rfl⟩

end

/-! ### What follows an operation -/

lemma mem_added (h : op ∈ e.added) : op ∈ e.added + others := Multiset.mem_add.mpr (.inl h)

lemma mem_others (h : op ∈ others) : op ∈ e.added + others := Multiset.mem_add.mpr (.inr h)

/-- The operations that an operation adds, with what it finds when it does. -/
inductive Follows (c : Choice) (sv : Service) : Op → Op → Prop
  | used {s : Nat} (h : (Op.acquire .use).acquired sv = some s) :
    Follows c sv (.acquire .use) (.use sv.leased)
  | reloads {s : Nat} (h : (Op.acquire .reload).acquired sv = some s) :
    Follows c sv (.acquire .reload) (.build sv.leased)
  | dialed {l : Nat} : Follows c sv (.use l) (.track l)
  | dropped {l : Nat} : Follows c sv (.use l) (.decrement l)
  | refused {l : Nat} : Follows c sv (.track l) (.decrement l)
  | deletes {l : Nat} (h : (sv.leases l).once = .fresh) :
    Follows c sv (.closeConn l) (.deleteConn l)
  | releases {l : Nat} (h : (sv.leases l).once = .fresh) :
    Follows c sv (.closeConn l) (.decrement l)
  | leaves {l : Nat} (h : (sv.leases l).once = .fresh) : Follows c sv (.closeConn l) (.leaveOnce l)
  | last {l : Nat} : Follows c sv (.decrement l) (.loadRetired (sv.leases l).snapshot)
  | closesLast {s : Nat} (h : (sv.snapshots s).retired = true) :
    Follows c sv (.loadRetired s) (.enterOnce s)
  | counts {s : Nat} : Follows c sv (.casRetired s) (.loadRefs s)
  | closesUnused {s : Nat} (h : (sv.snapshots s).refs = 0) :
    Follows c sv (.loadRefs s) (.enterOnce s)
  | waits {s : Nat} : Follows c sv (.loadRefs s) (.armTimer s)
  | cuts {s l : Nat} (h : l ∈ (sv.snapshots s).conns) : Follows c sv (.force s) (.closeConn l)
  | closesForced {s : Nat} : Follows c sv (.force s) (.enterOnce s)
  | stores {s : Nat} (h : (sv.snapshots s).closeOnce = .fresh) :
    Follows c sv (.enterOnce s) (.storeClosed s)
  | stops {s : Nat} : Follows c sv (.enterOnce s) (.stopTimer s)
  | closes {s : Nat} (h : (sv.snapshots s).closeOnce = .fresh) :
    Follows c sv (.enterOnce s) (.closeAll s)
  | registers {s : Nat} : Follows c sv (.loadClosed s) (.register s)
  | forcesLate {s : Nat} : Follows c sv (.register s) (.force s)
  | pushesOut {s v : Nat} (h : v ∈ sv.retired ∨ v = s) : Follows c sv (.register s) (.goForce v)
  | forces {s : Nat} : Follows c sv (.goForce s) (.force s)
  | starts : Follows c sv .reload (.acquire .reload)
  | ends : Follows c sv .reload .storeBusy
  | builds {l : Nat} (h : c.ok = true) : Follows c sv (.build l) (.prepare l sv.built)
  | fails {l : Nat} : Follows c sv (.build l) (.decrement l)
  | prepares {l n : Nat} : Follows c sv (.prepare l n) (.swap l n)
  | abandons {l n : Nat} : Follows c sv (.prepare l n) (.casRetired n)
  | givesUp {l n : Nat} : Follows c sv (.prepare l n) (.decrement l)
  | comesLate {l n : Nat} (h : sv.closed = true) : Follows c sv (.swap l n) (.casRetired n)
  | retires {l n old : Nat} (hc : sv.closed = false) (h : sv.current = some old) :
    Follows c sv (.swap l n) (.casRetired old)
  | looks {l n old : Nat} (hc : sv.closed = false) (h : sv.current = some old) :
    Follows c sv (.swap l n) (.loadClosed old)
  | finishes {l n : Nat} : Follows c sv (.swap l n) (.decrement l)
  | collects : Follows c sv .close (.collect sv.current)
  | retiresAll {s : Nat} {current : Option Nat} (h : s ∈ sv.retired ∨ current = some s) :
    Follows c sv (.collect current) (.casRetired s)
  | forcesAll {s : Nat} {current : Option Nat} (h : s ∈ sv.retired ∨ current = some s) :
    Follows c sv (.collect current) (.force s)

lemma Choice.mem_range {conns : List Nat} : l ∈ c.range conns ↔ l ∈ conns := by
  unfold Choice.range
  split_ifs with h
  · exact (isPerm_iff.mp h).mem_iff
  · rfl

theorem exec_follows (he : exec c sv op = some e) {op' : Op} (hop : op' ∈ e.added) :
    Follows c sv op op' := by
  cases op with
  | acquire p =>
    cases he
    obtain ⟨ha, h⟩ | ⟨t, ha, h⟩ := acquire_cases sv p
    · simp [h] at hop
    · rw [h] at hop
      simp only [added_continueWith, Multiset.mem_coe, mem_singleton] at hop
      rw [hop]
      cases p with
      | use => exact .used ha
      | reload => exact .reloads ha
  | register t =>
    cases he
    obtain ⟨-, h⟩ | ⟨-, v, rest, hk, ⟨-, h⟩ | ⟨-, h⟩⟩ := register_cases sv t
    · simp [h, forceClose] at hop
      rw [hop]
      exact .forcesLate
    · simp [h] at hop
      rw [hop]
      refine .pushesOut ?_
      have hv : v ∈ (sv.retired.filter fun r => !(sv.snapshots r).closed) ++ [t] := by simp [hk]
      rcases mem_append.mp hv with hv | hv
      · exact .inl (mem_of_mem_filter hv)
      · exact .inr (mem_singleton.mp hv)
    · simp [h] at hop
  | swap l n =>
    cases he
    obtain ⟨hc, h⟩ | ⟨-, -, h⟩ | ⟨old, hc, hcur, h⟩ := swap_cases sv l n
    · simp [h, retire, release] at hop
      rcases hop with rfl | rfl
      · exact .comesLate hc
      · exact .finishes
    · simp [h, release] at hop
      rw [hop]
      exact .finishes
    · simp [h, retireSnapshot, retire, release] at hop
      rcases hop with rfl | rfl | rfl
      · exact .retires hc hcur
      · exact .looks hc hcur
      · exact .finishes
  | force s =>
    cases he
    simp [closeResources, Choice.mem_range] at hop
    rcases hop with ⟨l, hl, rfl⟩ | rfl
    · exact .cuts hl
    · exact .closesForced
  | collect current =>
    cases he
    rw [added_continueWith] at hop
    obtain ⟨s, hs, hop⟩ := mem_flatMap.mp (Multiset.mem_coe.mp hop)
    have hs : s ∈ sv.retired ∨ current = some s := by simpa using hs
    simp [retire, forceClose] at hop
    rcases hop with rfl | rfl
    · exact .retiresAll hs
    · exact .forcesAll hs
  | _ =>
    simp only [exec] at he
    (try split at he) <;> cases he <;> simp [retire, release, closeResources, forceClose] at hop <;>
      grind [Follows]

/-! ### Bounds -/

def Op.snapshots : Op → List Nat
  | .loadRetired s | .casRetired s | .loadRefs s | .armTimer s | .force s | .enterOnce s
  | .storeClosed s | .stopTimer s | .closeAll s | .loadClosed s | .register s | .goForce s => [s]
  | .prepare _ n | .swap _ n => [n]
  | .collect current => current.toList
  | .acquire _ | .use _ | .track _ | .closeConn _ | .deleteConn _ | .leaveOnce _ | .decrement _
  | .reload | .build _ | .storeBusy | .close => []

structure Bounded (sv : Service) (ops : Multiset Op) : Prop where
  ops : ∀ op ∈ ops, ∀ s ∈ op.snapshots, s < sv.built
  leases : ∀ l, (sv.leases l).snapshot < sv.built
  current : ∀ s, sv.current = some s → s < sv.built
  retired : ∀ s ∈ sv.retired, s < sv.built
  fresh : ∀ s, sv.built ≤ s → sv.snapshots s = .new

section

variable (he : exec c sv op = some e)
include he

/-- Where the snapshots of new operations come from. -/
lemma exec_added_snapshots {op' : Op} (hop : op' ∈ e.added) (hs : s ∈ op'.snapshots) :
    s ∈ op.snapshots ∨ (∃ l, (sv.leases l).snapshot = s) ∨ sv.current = some s ∨ s ∈ sv.retired ∨
      (op.builds c = true ∧ s = sv.built) := by
  cases exec_follows he hop <;> simp [Op.snapshots] at hs ⊢ <;> grind [Op.builds]

lemma exec_current (hs : e.state.current = some s) : s ∈ op.snapshots ∨ sv.current = some s := by
  cases op with
  | swap l n =>
    cases he
    obtain ⟨-, h⟩ | ⟨-, -, h⟩ | ⟨old, -, -, h⟩ := swap_cases sv l n <;> rw [h] at hs
    · exact .inr hs
    · cases hs
      exact .inl (mem_singleton_self _)
    · cases hs
      exact .inl (mem_singleton_self _)
  | close =>
    simp only [exec] at he
    split at he <;> cases he
    · exact .inr hs
    · cases hs
  | _ =>
    rw [exec_current_eq he (by simp) (by simp)] at hs
    exact .inr hs

/-- Only `retireSnapshot` adds to the list of retired snapshots. -/
lemma exec_retired (hs : s ∈ e.state.retired) : op = .register s ∨ s ∈ sv.retired := by
  cases op with
  | register t =>
    cases he
    -- in both cases the list is part of the old one with the snapshot behind it
    have hkept : s ∈ (sv.retired.filter fun r => !(sv.snapshots r).closed) ++ [t] →
        Op.register t = .register s ∨ s ∈ sv.retired := by
      intro hmem
      rcases mem_append.mp hmem with hmem | hmem
      · exact .inr (mem_of_mem_filter hmem)
      · rw [mem_singleton.mp hmem]
        exact .inl rfl
    obtain ⟨-, h⟩ | ⟨-, v, rest, hk, ⟨-, h⟩ | ⟨-, h⟩⟩ := register_cases sv t <;> rw [h] at hs
    · exact .inr hs
    · exact hkept (hk ▸ mem_cons_of_mem _ hs)
    · exact hkept (hk ▸ hs)
  | collect current =>
    cases he
    cases hs
  | _ =>
    rw [(exec_lists he (by simp) (by simp)).1] at hs
    exact .inr hs

end

/-- An operation leaves alone what it does not name. -/
lemma exec_untouched (hb : sv.snapshots sv.built = .new) (he : exec c sv op = some e)
    (hop : s ∉ op.snapshots) (hl : ∀ l, (sv.leases l).snapshot ≠ s) (hcur : sv.current ≠ some s) :
    e.state.snapshots s = sv.snapshots s := by
  cases op with
  | acquire p =>
    cases he
    obtain ⟨ha, h⟩ | ⟨t, ha, h⟩ := acquire_cases sv p
    · rw [h]
      rfl
    · have hne : s ≠ t := by
        rintro rfl
        exact hcur (current_of_acquired ha)
      rw [h]
      simp [lend, snapshots_setSnapshot, hne]
  | build l =>
    simp only [exec] at he
    split at he <;> cases he
    · exact congrFun (build_snapshots hb) s
    · rfl
  | track l | deleteConn l | decrement l =>
    simp only [exec] at he
    (try split at he) <;> cases he <;> first
      | rfl
      | exact update_of_ne (fun h => hl _ h.symm) _ _
  | _ =>
    simp only [exec, register, swap] at he
    (repeat' split at he) <;> cases he <;> first
      | rfl
      | exact update_of_ne (fun h => hop (by simp [h, Op.snapshots])) _ _

lemma bounded_exec (h : Bounded sv (op ::ₘ others)) (he : exec c sv op = some e) :
    Bounded e.state (e.added + others) := by
  have hservice := exec_service he
  have hle : sv.built ≤ e.state.built := by
    rw [hservice.built]
    exact Nat.le_add_right _ _
  have hop := h.ops op (Multiset.mem_cons_self _ _)
  refine ⟨?_, ?_, ?_, ?_, ?_⟩
  · intro op' hop' s hs
    rcases Multiset.mem_add.mp hop' with hop' | hop'
    · rcases exec_added_snapshots he hop' hs with hs | ⟨l, rfl⟩ | hs | hs | ⟨hb, rfl⟩
      · exact (hop s hs).trans_le hle
      · exact (h.leases l).trans_le hle
      · exact (h.current s hs).trans_le hle
      · exact (h.retired s hs).trans_le hle
      · rw [hservice.built, if_pos hb]
        exact Nat.lt_succ_self _
    · exact (h.ops op' (Multiset.mem_cons_of_mem hop') s hs).trans_le hle
  · intro l
    refine lt_of_lt_of_le ?_ hle
    obtain ⟨-, -, hlease⟩ | ⟨s, -, ha, hx⟩ := exec_lease_cases he l
    · rw [hlease.snapshot]
      exact h.leases l
    · rw [hx]
      exact h.current s (current_of_acquired ha)
  · intro s hs
    rcases exec_current he hs with hs | hs
    · exact (hop s hs).trans_le hle
    · exact (h.current s hs).trans_le hle
  · intro s hs
    rcases exec_retired he hs with rfl | hs
    · exact (hop s (mem_singleton_self _)).trans_le hle
    · exact (h.retired s hs).trans_le hle
  · intro s hs
    have hs := hle.trans hs
    rw [exec_untouched (h.fresh _ le_rfl) he]
    · exact h.fresh s hs
    · exact fun hmem => absurd (hop s hmem) (Nat.not_lt.mpr hs)
    · exact fun l hl => absurd (h.leases l) (by rw [hl]; exact Nat.not_lt.mpr hs)
    · exact fun hcur => absurd (h.current s hcur) (Nat.not_lt.mpr hs)

lemma bounded_starts (h : Bounded sv ops) (hop : Starts sv sv' op) : Bounded sv' (op ::ₘ ops) := by
  have hold : ∀ {op' : Op}, (∀ s ∈ op'.snapshots, s < sv.built) →
      ∀ op ∈ op' ::ₘ ops, ∀ s ∈ op.snapshots, s < sv.built := by
    intro op' hop' op hop
    rcases Multiset.mem_cons.mp hop with rfl | hop
    · exact hop'
    · exact h.ops op hop
  cases hop with
  | fire s ht =>
    have hs : s < sv.built := by
      by_contra hs
      rw [h.fresh s (Nat.le_of_not_lt hs)] at ht
      cases ht
    refine ⟨hold (by simpa [Op.snapshots] using hs), h.leases, h.current, h.retired, ?_⟩
    intro t hst
    rw [snapshots_setSnapshot, if_neg (Nat.ne_of_gt (hs.trans_le hst))]
    exact h.fresh t hst
  | _ =>
    exact ⟨hold (by simp [Op.snapshots]), h.leases, h.current, h.retired, h.fresh⟩

theorem Reachable.bounded {st : State} (h : Reachable st) : Bounded st.state st.ops := by
  refine Reachable.induction (J := fun _ _ => True) (I := Bounded) (fun _ => trivial) ?_
    (fun _ => bounded_starts) (fun _ => bounded_exec) h
  exact ⟨by simp, by simp [new, Lease.new], by simp [new], by simp [new], fun _ _ => rfl⟩

end BypassCore.Runtime
