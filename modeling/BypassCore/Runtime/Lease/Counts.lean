import BypassCore.Runtime.Lease.Reach
import Mathlib.Data.Finset.Card

/-!
# Counting leases

Every lease is in exactly one hand until it is released: a goroutine has it in a variable, or it
belongs to an open connection. The count of references of a snapshot is the number of leases on it
that are not released.
-/

namespace BypassCore.Runtime

open Lib Goroutines Multiset Option Op Service Reachable

variable {c : Choice} {sv sv' : Service} {op : Op} {others ops : Multiset Op}
  {e : Effect Service Op} {s t l : Nat}

/-- The lease that a goroutine has to release after this operation or by it. -/
def Op.owns : Op → Option Nat
  | .use l | .track l | .decrement l | .build l | .prepare l _ | .swap l _ => some l
  | _ => none

def Lease.isOpen (x : Lease) : Bool := x.tracked && x.once == .fresh

def hands (ops : Multiset Op) (l : Nat) : Nat := ops.countP fun op => op.owns = some l

def stake (sv : Service) (ops : Multiset Op) (l : Nat) : Nat :=
  hands ops l + (if (sv.leases l).isOpen then 1 else 0) + (sv.leases l).releases

def outstanding (sv : Service) (s : Nat) : Finset Nat :=
  (Finset.range sv.leased).filter fun l =>
    (sv.leases l).snapshot = s ∧ (sv.leases l).releases = 0

structure Counted (sv : Service) (ops : Multiset Op) : Prop where
  stake : ∀ l, stake sv ops l = if l < sv.leased then 1 else 0
  conn : ∀ l, (.closeConn l ∈ ops ∨ .leaveOnce l ∈ ops ∨ (∃ s, l ∈ (sv.snapshots s).conns) ∨
    (sv.leases l).once ≠ .fresh) → (sv.leases l).tracked = true
  running : ∀ l, .leaveOnce l ∈ ops → (sv.leases l).once ≠ .fresh
  plain : ∀ l, (.use l ∈ ops ∨ .track l ∈ ops) → (sv.leases l).tracked = false
  bound : ∀ l, (sv.leases l).tracked = true → l < sv.leased
  refs : ∀ s, (sv.snapshots s).refs = (outstanding sv s).card

lemma mem_outstanding :
    l ∈ outstanding sv s ↔
      l < sv.leased ∧ (sv.leases l).snapshot = s ∧ (sv.leases l).releases = 0 := by
  simp [outstanding]

@[simp] lemma hands_zero : hands 0 l = 0 := rfl

lemma hands_cons : hands (op ::ₘ ops) l = hands ops l + if op.owns = some l then 1 else 0 :=
  countP_cons _ _ _

lemma hands_add : hands (ops + others) l = hands ops l + hands others l := countP_add _ _ _

@[simp] lemma hands_singleton : hands {op} l = if op.owns = some l then 1 else 0 := by
  rw [← cons_zero, hands_cons, hands_zero, Nat.zero_add]

@[simp] lemma hands_coe_cons (g : List Op) :
    hands ↑(op :: g) l = hands ↑g l + if op.owns = some l then 1 else 0 := by
  rw [← cons_coe, hands_cons]

lemma hands_eq_zero (h : ∀ op ∈ ops, op.owns = none) : hands ops l = 0 := by
  refine countP_eq_zero.mpr ?_
  intro op hop
  simp [h op hop]

lemma Counted.owned (h : Counted sv (op ::ₘ others)) (hop : op.owns = some l) :
    hands others l = 0 ∧ (sv.leases l).isOpen = false ∧ (sv.leases l).releases = 0 ∧
      l < sv.leased := by
  have hstake := h.stake l
  rw [Runtime.stake, hands_cons] at hstake
  split_ifs at hstake with ho hl hl
  · omega
  · omega
  · exact ⟨by omega, by simpa using ho, by omega, hl⟩
  · omega

/-- A lease is in the hand of one goroutine only. -/
lemma Counted.not_owned (h : Counted sv (op ::ₘ others)) {op' : Op} (hop' : op' ∈ others)
    (hl : op'.owns = some l) : op.owns ≠ some l ∧ l < sv.leased := by
  have hpos : 0 < hands others l := countP_pos.mpr ⟨op', hop', hl⟩
  have hstake := h.stake l
  rw [Runtime.stake, hands_cons] at hstake
  refine ⟨?_, ?_⟩
  · intro hop
    rw [(h.owned hop).1] at hpos
    exact absurd hpos (Nat.lt_irrefl 0)
  · by_contra hlt
    rw [if_neg hlt] at hstake
    omega

/-! ### The hands -/

lemma exec_hands (he : exec c sv op = some e) (l : Nat) :
    hands e.added l + (if op = .decrement l then 1 else 0) +
        (if op = .track l ∧ (sv.snapshots (sv.leases l).snapshot).forced = false then 1 else 0) =
      (if op.owns = some l then 1 else 0) +
        (if op = .closeConn l ∧ (sv.leases l).once = .fresh then 1 else 0) +
        if (op.acquired sv).isSome ∧ l = sv.leased then 1 else 0 := by
  cases op with
  | acquire p =>
    cases he
    obtain ⟨ha, h⟩ | ⟨t, ha, h⟩ := acquire_cases sv p
    · simp [h, ha, owns]
    · rw [h]
      cases p <;> simp [ha, owns, Purpose.follow, @eq_comm _ l]
  | force s =>
    cases he
    rw [added_continueWith, hands_eq_zero]
    · simp [acquired, owns]
    · intro op hop
      rcases List.mem_append.mp (mem_coe.mp hop) with hop | hop
      · obtain ⟨l', -, rfl⟩ := List.mem_map.mp hop
        rfl
      · rw [List.mem_singleton.mp hop]
        rfl
  | collect current =>
    cases he
    rw [added_continueWith, hands_eq_zero]
    · simp [acquired, owns]
    · intro op hop
      obtain ⟨s, -, hop⟩ := List.mem_flatMap.mp (mem_coe.mp hop)
      simp only [retire, forceClose, List.cons_append, List.nil_append, List.mem_cons,
        List.not_mem_nil, or_false] at hop
      rcases hop with rfl | rfl <;> rfl
  | track l' | closeConn l' =>
    simp only [exec] at he
    split at he <;> cases he <;> by_cases hl : l' = l <;> simp_all [acquired, owns, release]
  | reload =>
    simp only [exec] at he
    split at he <;> cases he
    · simp [acquired, owns]
    · cases hok : c.ok <;> simp [acquired, owns]
  | _ =>
    simp only [exec, register, swap] at he
    (repeat' split at he) <;> cases he <;>
      simp [acquired, owns, retire, release, retireSnapshot, closeResources, forceClose, *]

lemma isOpen_iff {x : Lease} : x.isOpen = true ↔ x.tracked = true ∧ x.once = .fresh := by
  simp [Lease.isOpen]

lemma exec_isOpen (h : Counted sv (op ::ₘ others)) {x : Lease}
    (hx : LeaseStep sv op l (sv.leases l) x) :
    (if x.isOpen then 1 else 0) +
        (if op = .closeConn l ∧ (sv.leases l).once = .fresh then 1 else 0) =
      (if (sv.leases l).isOpen then 1 else 0) +
        if op = .track l ∧ (sv.snapshots (sv.leases l).snapshot).forced = false then 1 else 0 := by
  have hmem : op ∈ op ::ₘ others := mem_cons_self _ _
  simp only [isOpen_iff, hx.tracked, hx.once]
  by_cases htrack : op = .track l ∧ (sv.snapshots (sv.leases l).snapshot).forced = false
  · obtain ⟨rfl, hforced⟩ := htrack
    have huntracked := h.plain l (.inr hmem)
    have hfresh : (sv.leases l).once = .fresh := by
      by_contra hne
      rw [h.conn l (.inr (.inr (.inr hne)))] at huntracked
      cases huntracked
    simp [huntracked, hfresh]
  by_cases hclose : op = .closeConn l ∧ (sv.leases l).once = .fresh
  · obtain ⟨rfl, hfresh⟩ := hclose
    simp [hfresh, h.conn l (.inl hmem)]
  by_cases hleave : op = .leaveOnce l
  · subst hleave
    simp [h.running l hmem]
  · simp [htrack, hclose, hleave]

/-- An operation keeps a lease in one hand or releases it, and puts a new lease into one hand. -/
lemma exec_stake (h : Counted sv (op ::ₘ others)) (he : exec c sv op = some e) (l : Nat) :
    stake e.state (e.added + others) l =
      stake sv (op ::ₘ others) l + if (op.acquired sv).isSome ∧ l = sv.leased then 1 else 0 := by
  have hhands := exec_hands he l
  obtain ⟨-, -, hlease⟩ | ⟨s, rfl, ha, hx⟩ := exec_lease_cases he l
  · have hopen := exec_isOpen h hlease
    rw [Runtime.stake, Runtime.stake, hands_add, hands_cons, hlease.releases]
    omega
  · have hbefore := h.stake sv.leased
    rw [hbefore]
    rw [Runtime.stake, hands_cons] at hbefore
    rw [Runtime.stake, hands_add, hx]
    -- a lease is only acquired by an operation that has none
    cases op with
    | acquire p =>
      simp [owns] at hhands hbefore ⊢
      simp [Lease.isOpen, Lease.new]
      omega
    | _ => cases ha

/-- The count goes up with a new lease and down with a release. -/
lemma mem_outstanding_exec (he : exec c sv op = some e) :
    l ∈ outstanding e.state s ↔
      (l ∈ outstanding sv s ∧ op ≠ .decrement l) ∨ (op.acquired sv = some s ∧ l = sv.leased) := by
  rw [mem_outstanding, mem_outstanding]
  obtain ⟨hnew, hlt, hlease⟩ | ⟨t, rfl, ha, hx⟩ := exec_lease_cases he l
  · rw [hlt, hlease.snapshot, hlease.releases, or_iff_left fun h => hnew s h.1 h.2]
    by_cases hop : op = .decrement l
    · simp [hop]
    · simp [hop]
  · rw [hx, (exec_service he).leased]
    simp [ha, Lease.new]

lemma exec_refs (hb : sv.snapshots sv.built = .new) (h : Counted sv (op ::ₘ others))
    (he : exec c sv op = some e) (s : Nat) :
    (e.state.snapshots s).refs = (outstanding e.state s).card := by
  have hmem : ∀ l, l ∈ outstanding e.state s ↔ _ := fun l => mem_outstanding_exec he
  rw [(exec_snapshot hb he s).refs, h.refs s]
  cases op with
  | acquire p =>
    by_cases ha : (Op.acquire p).acquired sv = some s
    · have hnew : sv.leased ∉ outstanding sv s := by simp [mem_outstanding]
      have heq : outstanding e.state s = insert sv.leased (outstanding sv s) := by
        ext l
        simp [hmem, ha, or_comm]
      rw [heq, Finset.card_insert_of_notMem hnew]
      simp [ha, Op.released]
    · have heq : outstanding e.state s = outstanding sv s := by
        ext l
        simp [hmem, ha]
      rw [heq]
      simp [ha, Op.released]
  | decrement l =>
    obtain ⟨-, -, hreleases, hlt⟩ := h.owned (l := l) rfl
    by_cases hs : (sv.leases l).snapshot = s
    · have hl : l ∈ outstanding sv s := mem_outstanding.mpr ⟨hlt, hs, hreleases⟩
      have heq : outstanding e.state s = (outstanding sv s).erase l := by
        ext l'
        simp [hmem, acquired, and_comm, eq_comm]
      rw [heq, Finset.card_erase_of_mem hl]
      have hpos := Finset.card_pos.mpr ⟨l, hl⟩
      simp [acquired, released]
      omega
    · have heq : outstanding e.state s = outstanding sv s := by
        ext l'
        simp only [hmem, acquired, reduceCtorEq, false_and, or_false, and_iff_left_iff_imp]
        intro hl' heq
        cases heq
        exact hs (mem_outstanding.mp hl').2.1
      rw [heq]
      simp [acquired, released, hs]
  | _ =>
    have heq : outstanding e.state s = outstanding sv s := by
      ext l
      simp [hmem, acquired]
    rw [heq]
    simp [acquired, released]

/-! ### The invariant -/

lemma exec_conns (hb : sv.snapshots sv.built = .new) (he : exec c sv op = some e)
    (hl : l ∈ (e.state.snapshots s).conns) :
    l ∈ (sv.snapshots s).conns ∨
      (op = .track l ∧ (sv.snapshots (sv.leases l).snapshot).forced = false) := by
  cases op with
  | acquire p =>
    cases he
    obtain ⟨-, h⟩ | ⟨t, -, h⟩ := acquire_cases sv p
    · rw [h] at hl
      exact .inl hl
    · rw [h] at hl
      simp only [state_continueWith, lend, snapshots_setSnapshot] at hl
      split_ifs at hl with hs
      · exact .inl (hs ▸ hl)
      · exact .inl hl
  | build l =>
    simp only [exec] at he
    split at he <;> cases he
    · rw [build_snapshots hb] at hl
      exact .inl hl
    · exact .inl hl
  | track l' =>
    simp only [exec] at he
    split at he <;> cases he
    · exact .inl hl
    · rename_i hforced
      simp only [state_onlyState, snapshots_setLease, snapshots_setSnapshot] at hl
      split_ifs at hl with hs
      · rcases List.mem_cons.mp hl with rfl | hl
        · exact .inr ⟨rfl, by simpa using hforced⟩
        · exact .inl (hs ▸ hl)
      · exact .inl hl
  | deleteConn l' =>
    cases he
    simp only [state_onlyState, snapshots_setSnapshot] at hl
    split_ifs at hl with hs
    · exact .inl (hs ▸ List.mem_of_mem_erase hl)
    · exact .inl hl
  | _ =>
    simp only [exec, register, swap] at he
    (repeat' split at he) <;> cases he <;> refine Or.inl ?_ <;>
      simp [snapshots_setSnapshot] at hl <;> grind

/-- A lease with a connection is not one that is just taken. -/
lemma Counted.lease (h : Counted sv (op ::ₘ others)) (he : exec c sv op = some e)
    (hl : (sv.leases l).tracked = true) : LeaseStep sv op l (sv.leases l) (e.state.leases l) := by
  refine exec_lease he ?_
  intro heq
  exact absurd (h.bound l hl) (by rw [heq]; exact Nat.lt_irrefl _)

lemma Counted.exec_tracked (h : Counted sv (op ::ₘ others)) (he : exec c sv op = some e)
    (hl : (sv.leases l).tracked = true) : (e.state.leases l).tracked = true :=
  (h.lease he hl).tracked.mpr (.inl hl)

lemma Counted.exec_conn (hb : Bounded sv (op ::ₘ others)) (h : Counted sv (op ::ₘ others))
    (he : exec c sv op = some e)
    (hl : .closeConn l ∈ e.added + others ∨ .leaveOnce l ∈ e.added + others ∨
      (∃ s, l ∈ (e.state.snapshots s).conns) ∨ (e.state.leases l).once ≠ .fresh) :
    (e.state.leases l).tracked = true := by
  have hmem : op ∈ op ::ₘ others := mem_cons_self _ _
  rcases hl with hop | hop | ⟨s, hs⟩ | honce
  · rcases Multiset.mem_add.mp hop with hop | hop
    · cases exec_follows he hop with
      | cuts hl => exact h.exec_tracked he (h.conn l (.inr (.inr (.inl ⟨_, hl⟩))))
    · exact h.exec_tracked he (h.conn l (.inl (mem_cons_of_mem hop)))
  · rcases Multiset.mem_add.mp hop with hop | hop
    · cases exec_follows he hop with
      | leaves => exact h.exec_tracked he (h.conn l (.inl hmem))
    · exact h.exec_tracked he (h.conn l (.inr (.inl (mem_cons_of_mem hop))))
  · rcases exec_conns (hb.fresh _ le_rfl) he hs with hl | ⟨rfl, hforced⟩
    · exact h.exec_tracked he (h.conn l (.inr (.inr (.inl ⟨s, hl⟩))))
    · exact (exec_lease he fun _ => rfl).tracked.mpr (.inr ⟨rfl, hforced⟩)
  · obtain ⟨-, -, hlease⟩ | ⟨t, -, -, hx⟩ := exec_lease_cases he l
    · rw [hlease.once] at honce
      split_ifs at honce with hleave hclose
      · exact h.exec_tracked he (h.conn l (.inr (.inl (hleave ▸ hmem))))
      · exact h.exec_tracked he (h.conn l (.inl (hclose.1 ▸ hmem)))
      · exact h.exec_tracked he (h.conn l (.inr (.inr (.inr honce))))
    · rw [hx] at honce
      exact absurd rfl honce

section Exec

variable (h : Counted sv (op ::ₘ others)) (he : exec c sv op = some e)
include h he

lemma Counted.exec_running (hop : .leaveOnce l ∈ e.added + others) :
    (e.state.leases l).once ≠ .fresh := by
  have hmem : op ∈ op ::ₘ others := mem_cons_self _ _
  rcases Multiset.mem_add.mp hop with hop | hop
  · cases exec_follows he hop with
    | leaves hfresh =>
      rw [(h.lease he (h.conn l (.inl hmem))).once]
      simp [hfresh]
  · have hop : .leaveOnce l ∈ op ::ₘ others := mem_cons_of_mem hop
    have honce := h.running l hop
    rw [(h.lease he (h.conn l (.inr (.inl hop)))).once]
    split_ifs with hleave hclose
    · exact Once.noConfusion
    · exact absurd hclose.2 honce
    · exact honce

lemma Counted.exec_plain (hl : .use l ∈ e.added + others ∨ .track l ∈ e.added + others) :
    (e.state.leases l).tracked = false := by
  have hmem : op ∈ op ::ₘ others := mem_cons_self _ _
  -- a goroutine that does not move keeps its lease as it is
  have hothers : ∀ {op'}, op' ∈ others → op'.owns = some l →
      (sv.leases l).tracked = false → (e.state.leases l).tracked = false := by
    intro op' hop' howns hl
    obtain ⟨hop, hlt⟩ := h.not_owned hop' howns
    have hlease := exec_lease he fun heq => absurd heq (Nat.ne_of_lt hlt)
    rw [← Bool.not_eq_true, hlease.tracked, hl]
    rintro (htrue | ⟨rfl, -⟩)
    · cases htrue
    · exact hop rfl
  rcases hl with hop | hop
  · rcases Multiset.mem_add.mp hop with hop | hop
    · cases exec_follows he hop with
      | used ha =>
        rw [exec_lease_new he ha]
        rfl
    · exact hothers hop rfl (h.plain l (.inl (mem_cons_of_mem hop)))
  · rcases Multiset.mem_add.mp hop with hop | hop
    · cases exec_follows he hop with
      | dialed =>
        rw [← Bool.not_eq_true, (exec_lease he fun _ => rfl).tracked, h.plain l (.inl hmem)]
        simp
    · exact hothers hop rfl (h.plain l (.inr (mem_cons_of_mem hop)))

lemma Counted.exec_bound (hl : (e.state.leases l).tracked = true) : l < e.state.leased := by
  rw [(exec_service he).leased]
  obtain ⟨-, -, hlease⟩ | ⟨t, -, -, hx⟩ := exec_lease_cases he l
  · rcases hlease.tracked.mp hl with hl | ⟨rfl, -⟩
    · exact Nat.lt_add_right _ (h.bound l hl)
    · exact Nat.lt_add_right _ (h.owned (l := l) rfl).2.2.2
  · rw [hx] at hl
    cases hl

end Exec

lemma counted_exec (hb : Bounded sv (op ::ₘ others)) (h : Counted sv (op ::ₘ others))
    (he : exec c sv op = some e) : Counted e.state (e.added + others) where
  stake l := by
    rw [exec_stake h he, h.stake, (exec_service he).leased]
    cases ha : op.acquired sv with
    | none => simp
    | some s =>
      simp only [isSome_some, true_and]
      split_ifs <;> omega
  conn _ hl := h.exec_conn hb he hl
  running _ hop := h.exec_running he hop
  plain _ hl := h.exec_plain he hl
  bound _ hl := h.exec_bound he hl
  refs := exec_refs (hb.fresh _ le_rfl) h he

lemma counted_starts (h : Counted sv ops) (hop : Starts sv sv' op) : Counted sv' (op ::ₘ ops) := by
  have howns : op.owns = none := by
    cases hop <;> rfl
  have hclose : ∀ l, .closeConn l ∈ op ::ₘ ops → (sv.leases l).tracked = true := by
    intro l hl
    rcases mem_cons.mp hl with rfl | hl
    · cases hop with
      | hangUp _ ht => exact ht
    · exact h.conn l (.inl hl)
  obtain ⟨timers, rfl⟩ := hop.eq_timers
  refine ⟨?_, ?_, ?_, ?_, h.bound, h.refs⟩
  · intro l
    rw [Runtime.stake, hands_cons, howns]
    exact h.stake l
  · rintro l (hl | hl | hl)
    · exact hclose l hl
    · exact h.conn l (.inr (.inl (hop.mem_of_mem_cons hl rfl)))
    · exact h.conn l (.inr (.inr hl))
  · exact fun l hl => h.running l (hop.mem_of_mem_cons hl rfl)
  · exact fun l hl => h.plain l
      (hl.imp (hop.mem_of_mem_cons · rfl) (hop.mem_of_mem_cons · rfl))

/-- Leases are counted right in every reachable state. -/
theorem Reachable.counted {st : State} (h : Reachable st) : Counted st.state st.ops := by
  refine induction (J := Bounded) bounded ?_ (fun _ => counted_starts) counted_exec h
  refine ⟨fun _ => rfl, ?_, by simp, by simp, ?_, fun _ => rfl⟩
  · intro l hl
    simp [new, Snapshot.new, Lease.new] at hl
  · intro l hl
    cases hl

/-!
## Where a snapshot is

Every snapshot that was built is in one place: it is the current one, a goroutine has it in a
variable to publish or to retire it, or its retirement has begun. So nobody takes a lease on a
snapshot once its retirement has begun.
-/

/-- The snapshot that a goroutine has to publish or to retire. -/
def Op.holds : Op → Option Nat
  | .prepare _ n | .swap _ n => some n
  | .collect current => current
  | _ => none

def holders (ops : Multiset Op) (s : Nat) : Nat := ops.countP fun op => op.holds = some s

def Detached (sv : Service) (ops : Multiset Op) (s : Nat) : Prop :=
  (sv.snapshots s).retired = true ∨ .casRetired s ∈ ops

instance : Decidable (Detached sv ops s) := inferInstanceAs (Decidable (_ ∨ _))

/-- Whether a snapshot is the current one, as a number. -/
def atCurrent (current : Option Nat) (s : Nat) : Nat := if current = some s then 1 else 0

/-- Whether the retirement of a snapshot has begun, as a number. -/
def detached (sv : Service) (ops : Multiset Op) (s : Nat) : Nat :=
  if Detached sv ops s then 1 else 0

def places (sv : Service) (ops : Multiset Op) (s : Nat) : Nat :=
  atCurrent sv.current s + holders ops s + detached sv ops s

structure Placed (sv : Service) (ops : Multiset Op) : Prop where
  places : ∀ s, places sv ops s = if s < sv.built then 1 else 0
  behind : ∀ s, (.loadClosed s ∈ ops ∨ .register s ∈ ops ∨ s ∈ sv.retired) → Detached sv ops s
  counting : ∀ s, .loadRefs s ∈ ops → (sv.snapshots s).retired = true

@[simp] lemma holders_zero : holders 0 s = 0 := rfl

lemma holders_cons : holders (op ::ₘ ops) s = holders ops s + if op.holds = some s then 1 else 0 :=
  countP_cons _ _ _

lemma holders_add : holders (ops + others) s = holders ops s + holders others s :=
  countP_add _ _ _

lemma holders_eq_zero (h : ∀ op ∈ ops, op.holds ≠ some s) : holders ops s = 0 :=
  countP_eq_zero.mpr h

@[simp] lemma holders_singleton : holders {op} s = if op.holds = some s then 1 else 0 := by
  rw [← cons_zero, holders_cons, holders_zero, Nat.zero_add]

@[simp] lemma holders_coe_cons (g : List Op) :
    holders ↑(op :: g) s = holders ↑g s + if op.holds = some s then 1 else 0 := by
  rw [← cons_coe, holders_cons]

lemma Placed.places_le_one (h : Placed sv ops) (s : Nat) : Runtime.places sv ops s ≤ 1 := by
  rw [h.places]
  split_ifs
  · exact le_rfl
  · exact Nat.zero_le 1

lemma atCurrent_none : atCurrent none s = 0 := rfl

lemma atCurrent_some : atCurrent (some t) s = if t = s then 1 else 0 := by
  simp [atCurrent]

lemma detached_of_not (h : ¬ Detached sv ops s) : detached sv ops s = 0 := if_neg h

/-- The current snapshot is nowhere else. -/
lemma Placed.of_current (h : Placed sv ops) (hs : sv.current = some s) :
    holders ops s = 0 ∧ ¬ Detached sv ops s := by
  have hle := h.places_le_one s
  rw [Runtime.places, atCurrent, detached] at hle
  split_ifs at hle with hd
  · omega
  · exact ⟨by omega, hd⟩

/-- A snapshot in the hands of a goroutine is nowhere else. -/
lemma Placed.of_holds (h : Placed sv (op ::ₘ others)) (hs : op.holds = some s) :
    sv.current ≠ some s ∧ holders others s = 0 ∧ ¬ Detached sv (op ::ₘ others) s := by
  have hle := h.places_le_one s
  rw [Runtime.places, holders_cons, atCurrent, detached] at hle
  split_ifs at hle with hc hd hd
  · omega
  · omega
  · omega
  · exact ⟨hc, by omega, hd⟩

/-! ### What an operation does to the places -/

/-- A retirement that has begun goes on, and only a few operations begin one. -/
lemma detached_exec (hb : Bounded sv (op ::ₘ others)) (he : exec c sv op = some e) :
    Detached e.state (e.added + others) s ↔
      Detached sv (op ::ₘ others) s ∨ .casRetired s ∈ e.added := by
  unfold Detached
  rw [(exec_snapshot (hb.fresh _ le_rfl) he s).retired, Multiset.mem_add, mem_cons, @eq_comm _ op]
  constructor
  · rintro ((hs | hs) | hs | hs)
    · exact .inl (.inl hs)
    · exact .inl (.inr (.inl hs))
    · exact .inr hs
    · exact .inl (.inr (.inr hs))
  · rintro ((hs | hs | hs) | hs)
    · exact .inl (.inl hs)
    · exact .inl (.inr hs)
    · exact .inr (.inr hs)
    · exact .inr (.inl hs)

lemma detached_exec_eq (hb : Bounded sv (op ::ₘ others)) (he : exec c sv op = some e) :
    detached e.state (e.added + others) s =
      if .casRetired s ∈ e.added then 1 else detached sv (op ::ₘ others) s := by
  simp only [detached, detached_exec hb he]
  split_ifs <;> simp_all

section Exec

variable (hb : Bounded sv (op ::ₘ others)) (h : Placed sv (op ::ₘ others))
  (he : exec c sv op = some e)
include hb h he

/-- An operation moves a snapshot from one place to another. A new snapshot gets a place. -/
lemma exec_places (s : Nat) :
    places e.state (e.added + others) s =
      places sv (op ::ₘ others) s + if op.builds c ∧ s = sv.built then 1 else 0 := by
  rw [Runtime.places, Runtime.places, detached_exec_eq hb he, holders_add, holders_cons]
  cases op with
  | build l =>
    rw [exec_current_eq he (by simp) (by simp)]
    simp only [exec] at he
    split at he
    · rename_i hok
      cases he
      simp [holds, builds, hok, @eq_comm _ s]
      omega
    · rename_i hok
      cases he
      simp [holds, builds, hok, release]
  | prepare l n =>
    obtain ⟨-, -, hd⟩ := h.of_holds (s := n) rfl
    cases he
    cases hok : c.ok with
    | true =>
      simp [holds, builds]
      omega
    | false =>
      by_cases hs : s = n
      · subst hs
        simp [holds, builds, retire, release, detached_of_not hd]
        omega
      · simp [holds, builds, retire, release, hs, Ne.symm hs]
  | swap l n =>
    obtain ⟨hcur, -, hd⟩ := h.of_holds (s := n) rfl
    cases he
    obtain ⟨-, hswap⟩ | ⟨-, hnone, hswap⟩ | ⟨old, -, hold, hswap⟩ := swap_cases sv l n
    · rw [hswap]
      by_cases hs : s = n
      · subst hs
        simp [holds, builds, retire, release, detached_of_not hd]
        omega
      · simp [holds, builds, retire, release, hs, Ne.symm hs]
    · rw [hswap, hnone]
      simp [holds, builds, release, atCurrent_none, atCurrent_some]
      omega
    · obtain ⟨-, hdold⟩ := h.of_current hold
      have hne : old ≠ n := by
        rintro rfl
        exact hcur hold
      rw [hswap, hold]
      by_cases hs : s = old
      · subst hs
        simp [holds, builds, retireSnapshot, retire, release, atCurrent_some, detached_of_not hdold]
        omega
      · simp [holds, builds, retireSnapshot, retire, release, atCurrent_some, hs, Ne.symm hs]
        omega
  | close =>
    simp only [exec] at he
    split at he <;> cases he
    · simp [holds, builds]
    · simp [atCurrent_none]
      rfl
  | collect cur =>
    have hcas : .casRetired s ∈ e.added ↔ s ∈ sv.retired ∨ cur = some s := by
      cases he
      simp [retire, forceClose]
    have hadded : holders e.added s = 0 := by
      refine holders_eq_zero ?_
      intro op' hop'
      cases exec_follows he hop' <;> simp [holds]
    rw [exec_current_eq he (by simp) (by simp), hadded]
    by_cases hs : s ∈ sv.retired
    · have hd := h.behind s (.inr (.inr hs))
      have hcur : cur ≠ some s := fun hcur => (h.of_holds hcur).2.2 hd
      simp [holds, builds, hcur, detached, hd]
    · by_cases hcur : cur = some s
      · subst hcur
        have hd := (h.of_holds (s := s) rfl).2.2
        simp [holds, builds, hcas, detached_of_not hd]
        omega
      · simp [holds, builds, hcas, hs, hcur]
  | _ =>
    have hcas : .casRetired s ∉ e.added := by
      intro hop
      cases exec_follows he hop
    have hadded : holders e.added s = 0 := by
      refine holders_eq_zero ?_
      intro op' hop'
      cases exec_follows he hop' <;> simp [holds]
    rw [exec_current_eq he (by simp) (by simp), hadded]
    simp [hcas, holds, builds]

lemma Placed.exec_behind
    (hs : .loadClosed s ∈ e.added + others ∨ .register s ∈ e.added + others ∨ s ∈ e.state.retired) :
    Detached e.state (e.added + others) s := by
  have hmem : op ∈ op ::ₘ others := mem_cons_self _ _
  rw [detached_exec hb he]
  rcases hs with hop | hop | hs
  · rcases Multiset.mem_add.mp hop with hop | hop
    · cases exec_follows he hop with
      | looks hc hcur =>
        refine Or.inr ?_
        cases he
        simp [swap, hc, hcur, retireSnapshot, retire]
    · exact .inl (h.behind s (.inl (mem_cons_of_mem hop)))
  · rcases Multiset.mem_add.mp hop with hop | hop
    · cases exec_follows he hop with
      | registers => exact .inl (h.behind s (.inl hmem))
    · exact .inl (h.behind s (.inr (.inl (mem_cons_of_mem hop))))
  · rcases exec_retired he hs with rfl | hs
    · exact .inl (h.behind s (.inr (.inl hmem)))
    · exact .inl (h.behind s (.inr (.inr hs)))

lemma placed_exec : Placed e.state (e.added + others) where
  places s := by
    rw [exec_places hb h he, h.places, (exec_service he).built]
    cases hbuild : op.builds c with
    | false => simp
    | true =>
      simp only [true_and]
      split_ifs <;> omega
  behind _ hs := h.exec_behind hb he hs
  counting s hs := by
    refine (exec_snapshot (hb.fresh _ le_rfl) he s).retired.mpr ?_
    rcases Multiset.mem_add.mp hs with hs | hs
    · cases exec_follows he hs with
      | counts => exact .inr rfl
    · exact .inl (h.counting s (mem_cons_of_mem hs))

end Exec

lemma placed_starts (h : Placed sv ops) (hop : Starts sv sv' op) : Placed sv' (op ::ₘ ops) := by
  have hholds : op.holds = none := by
    cases hop <;> rfl
  have hdetached : ∀ s, Detached sv' (op ::ₘ ops) s ↔ Detached sv ops s := by
    intro s
    have hmem : .casRetired s ∈ op ::ₘ ops ↔ .casRetired s ∈ ops :=
      ⟨fun hs => hop.mem_of_mem_cons hs rfl, mem_cons_of_mem⟩
    obtain ⟨timers, rfl⟩ := hop.eq_timers
    exact or_congr_right hmem
  refine ⟨?_, ?_, ?_⟩
  · intro s
    rw [Runtime.places, holders_cons, hholds, detached]
    simp only [hdetached]
    obtain ⟨timers, rfl⟩ := hop.eq_timers
    exact h.places s
  · intro s hs
    rw [hdetached]
    obtain ⟨timers, rfl⟩ := hop.eq_timers
    refine h.behind s ?_
    rcases hs with hs | hs | hs
    · exact .inl (hop.mem_of_mem_cons hs rfl)
    · exact .inr (.inl (hop.mem_of_mem_cons hs rfl))
    · exact .inr (.inr hs)
  · intro s hs
    have hretired := h.counting s (hop.mem_of_mem_cons hs rfl)
    obtain ⟨timers, rfl⟩ := hop.eq_timers
    exact hretired

/-- Every snapshot is in one place in every reachable state. -/
theorem Reachable.placed {st : State} (h : Reachable st) : Placed st.state st.ops := by
  refine induction (J := Bounded) bounded ?_ (fun _ => placed_starts) placed_exec h
  refine ⟨?_, by simp [new], by simp⟩
  intro s
  cases s with
  | zero => rfl
  | succ s =>
    rfl

end BypassCore.Runtime
