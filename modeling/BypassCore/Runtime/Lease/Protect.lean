import BypassCore.Runtime.Lease.Counts

/-!
# What leases protect

The resources of a snapshot are closed at most once, and their closing is triggered once the
snapshot is retired and no lease on it is left. They are not closed under a lease, unless by force,
as long as no release finds the flag of retirement set when the count has gone up again: `release`
reads the flag in a second step, and a lease may be taken in between.
-/

namespace BypassCore.Runtime

open Lib Goroutines Multiset

variable {c : Choice} {sv sv' : Service} {op : Op} {others ops : Multiset Op}
  {e : Effect Service Op} {s l : Nat}

/-! ### Closing once -/

/-- The goroutine in `closeOnce.Do` is the only one, and the resources are closed when it leaves. -/
structure ClosedOnce (sv : Service) (ops : Multiset Op) : Prop where
  running : ∀ s, ops.count (.closeAll s) = if (sv.snapshots s).closeOnce = .running then 1 else 0
  closings : ∀ s, (sv.snapshots s).closings = if (sv.snapshots s).closeOnce = .done then 1 else 0
  closed : ∀ s, ((sv.snapshots s).closed = true ∨ .storeClosed s ∈ ops) →
    (sv.snapshots s).closeOnce ≠ .fresh

lemma count_closeAll_added (he : exec c sv op = some e) (s : Nat) :
    e.added.count (.closeAll s) =
      if op = .enterOnce s ∧ (sv.snapshots s).closeOnce = .fresh then 1 else 0 := by
  by_cases hop : op = .enterOnce s
  · subst hop
    simp only [exec] at he
    split at he
    · rename_i hfresh
      cases he
      simp [hfresh]
    · cases he
    · rename_i hdone
      cases he
      simp [hdone]
  · rw [if_neg fun h => hop h.1, count_eq_zero]
    intro hmem
    cases exec_follows he hmem with
    | closes _ => exact hop rfl

lemma SnapshotStep.closeOnce_ne {x x' : Snapshot} (h : SnapshotStep sv op s x x')
    (hx : x.closeOnce ≠ .fresh) : x'.closeOnce ≠ .fresh := by
  rw [h.closeOnce]
  split_ifs
  · exact Once.noConfusion
  · exact Once.noConfusion
  · exact hx

lemma closedOnce_exec (hb : Bounded sv (op ::ₘ others)) (h : ClosedOnce sv (op ::ₘ others))
    (he : exec c sv op = some e) : ClosedOnce e.state (e.added + others) := by
  have hsnap := exec_snapshot (hb.fresh _ le_rfl) he
  have hrunning : ∀ s, op = .closeAll s → (sv.snapshots s).closeOnce = .running := by
    intro s hop
    by_contra hne
    have hcount := h.running s
    rw [if_neg hne, count_eq_zero, hop] at hcount
    exact hcount (mem_cons_self _ _)
  refine ⟨?_, ?_, ?_⟩
  · intro s
    have hcount := h.running s
    rw [count_add, count_closeAll_added he, (hsnap s).closeOnce]
    by_cases hall : op = .closeAll s
    · subst hall
      rw [hrunning s rfl] at hcount
      simpa using hcount
    · rw [count_cons_of_ne (Ne.symm hall)] at hcount
      by_cases henter : op = .enterOnce s ∧ (sv.snapshots s).closeOnce = .fresh
      · simp [henter.1, henter.2, hcount]
      · simp [hall, henter, hcount]
  · intro s
    rw [(hsnap s).closings, (hsnap s).closeOnce, h.closings s]
    by_cases hall : op = .closeAll s
    · simp [hrunning s hall]
    · by_cases henter : op = .enterOnce s ∧ (sv.snapshots s).closeOnce = .fresh
      · simp [henter]
      · simp [hall, henter]
  · intro s hs
    rcases hs with hs | hs
    · rcases (hsnap s).closed.mp hs with hs | rfl
      · exact (hsnap s).closeOnce_ne (h.closed s (.inl hs))
      · exact (hsnap s).closeOnce_ne (h.closed s (.inr (mem_cons_self _ _)))
    · rcases Multiset.mem_add.mp hs with hs | hs
      · cases exec_follows he hs with
        | stores hfresh =>
          rw [(hsnap s).closeOnce]
          simp [hfresh]
      · exact (hsnap s).closeOnce_ne (h.closed s (.inr (mem_cons_of_mem hs)))

lemma closedOnce_starts (h : ClosedOnce sv ops) (hop : Starts sv sv' op) :
    ClosedOnce sv' (op ::ₘ ops) := by
  have hne : ∀ s, op ≠ .closeAll s := by
    intro s
    cases hop <;> simp
  obtain ⟨timers, rfl⟩ := hop.eq_timers
  refine ⟨?_, h.closings, ?_⟩
  · intro s
    rw [count_cons_of_ne (hne s).symm]
    exact h.running s
  · exact fun s hs => h.closed s (hs.imp_right (hop.mem_of_mem_cons · rfl))

variable {st : State}

lemma Reachable.closedOnce (h : Reachable st) : ClosedOnce st.state st.ops := by
  refine Reachable.induction (J := Bounded) Reachable.bounded ?_ (fun _ => closedOnce_starts)
    closedOnce_exec h
  exact ⟨fun _ => rfl, fun _ => rfl, by simp [Service.new, Snapshot.new]⟩

/-! ### Triggering the closing -/

/-- A goroutine closes the resources of a snapshot, or is going to. -/
def Triggered (sv : Service) (ops : Multiset Op) (s : Nat) : Prop :=
  (sv.snapshots s).closeOnce ≠ .fresh ∨ .enterOnce s ∈ ops

lemma Triggered.kept (hb : Bounded sv (op ::ₘ others)) (h : Triggered sv (op ::ₘ others) s)
    (he : exec c sv op = some e) : Triggered e.state (e.added + others) s := by
  have hsnap := exec_snapshot (hb.fresh _ le_rfl) he s
  rcases h with hs | hs
  · exact .inl (hsnap.closeOnce_ne hs)
  · rcases mem_cons.mp hs with rfl | hs
    · refine Or.inl ?_
      rw [hsnap.closeOnce]
      by_cases hfresh : (sv.snapshots s).closeOnce = .fresh
      · simp [hfresh]
      · simp [hfresh]
    · exact .inr (mem_others hs)

/-- A snapshot that is retired and unused is closed by a goroutine that is there, or will be by the
one that made it so. -/
def Unused (sv : Service) (ops : Multiset Op) : Prop :=
  ∀ s, (sv.snapshots s).retired = true → (sv.snapshots s).refs = 0 →
    Triggered sv ops s ∨ .loadRefs s ∈ ops ∨ .loadRetired s ∈ ops

lemma unused_exec (hJ : Bounded sv (op ::ₘ others) ∧ Counted sv (op ::ₘ others))
    (h : Unused sv (op ::ₘ others)) (he : exec c sv op = some e) :
    Unused e.state (e.added + others) := by
  intro s hretired hrefs
  obtain ⟨hb, hcounted⟩ := hJ
  have hsnap := exec_snapshot (hb.fresh _ le_rfl) he s
  rw [hsnap.retired] at hretired
  rw [hsnap.refs] at hrefs
  by_cases hcas : (sv.snapshots s).retired = false
  · -- this operation retires the snapshot
    obtain rfl : op = .casRetired s := by simpa [hcas] using hretired
    refine .inr (.inl (mem_added ?_))
    simp only [exec, hcas] at he
    cases he
    simp
  · have hcas : (sv.snapshots s).retired = true := by simpa using hcas
    by_cases hrel : op.released sv = some s
    · -- this operation releases the last lease
      cases op with
      | decrement l =>
        cases hrel
        have hzero : (sv.snapshots (sv.leases l).snapshot).refs - 1 = 0 := by
          simpa [Op.acquired, Op.released] using hrefs
        refine .inr (.inr (mem_added ?_))
        cases he
        simp [hzero]
      | _ => cases hrel
    by_cases hacq : op.acquired sv = some s
    · have hnonneg : 0 ≤ (sv.snapshots s).refs := by
        rw [hcounted.refs s]
        exact Int.natCast_nonneg _
      simp only [hacq, hrel, if_true, if_false] at hrefs
      omega
    · simp only [hacq, hrel, if_false, Int.add_zero, Int.sub_zero] at hrefs
      rcases h s hcas hrefs with htrig | hop | hop
      · exact .inl (htrig.kept hb he)
      · rcases mem_cons.mp hop with rfl | hop
        · refine .inl (.inr (mem_added ?_))
          rw [exec, if_pos hrefs] at he
          cases he
          simp [closeResources]
        · exact .inr (.inl (mem_others hop))
      · rcases mem_cons.mp hop with rfl | hop
        · refine .inl (.inr (mem_added ?_))
          simp only [exec, hcas] at he
          cases he
          simp [closeResources]
        · exact .inr (.inr (mem_others hop))

lemma unused_starts (h : Unused sv ops) (hop : Starts sv sv' op) : Unused sv' (op ::ₘ ops) := by
  obtain ⟨timers, rfl⟩ := hop.eq_timers
  intro s hretired hrefs
  rcases h s hretired hrefs with (hs | hs) | hs | hs
  · exact .inl (.inl hs)
  · exact .inl (.inr (mem_cons_of_mem hs))
  · exact .inr (.inl (mem_cons_of_mem hs))
  · exact .inr (.inr (mem_cons_of_mem hs))

lemma Reachable.unused (h : Reachable st) : Unused st.state st.ops := by
  refine Reachable.induction (J := fun sv ops => Bounded sv ops ∧ Counted sv ops)
    (fun hst => ⟨hst.bounded, hst.counted⟩) ?_ (fun _ => unused_starts) unused_exec h
  intro s hretired
  cases hretired

/-- Whoever closes the resources of a snapshot was sent by force, or when no lease was left. -/
def Safe (sv : Service) (ops : Multiset Op) : Prop :=
  ∀ s, Triggered sv ops s → (sv.snapshots s).forced = true ∨
    ((sv.snapshots s).retired = true ∧ (sv.snapshots s).refs = 0)

/-- The flag of retirement is only found set while the count is zero. -/
def Op.Undisturbed (sv : Service) (op : Op) : Prop :=
  ∀ s, op = .loadRetired s → (sv.snapshots s).retired = true → (sv.snapshots s).refs = 0

lemma safe_exec (hb : Bounded sv (op ::ₘ others)) (hcounted : Counted sv (op ::ₘ others))
    (hplaced : Placed sv (op ::ₘ others)) (hclosed : ClosedOnce sv (op ::ₘ others))
    (h : Safe sv (op ::ₘ others)) (hop : op.Undisturbed sv) (he : exec c sv op = some e) :
    Safe e.state (e.added + others) := by
  intro s hs
  have hmem : op ∈ op ::ₘ others := mem_cons_self _ _
  have hsnap := exec_snapshot (hb.fresh _ le_rfl) he s
  -- nobody takes or releases a lease on a snapshot that is retired and unused
  have hkept : (sv.snapshots s).retired = true → (sv.snapshots s).refs = 0 →
      (e.state.snapshots s).retired = true ∧ (e.state.snapshots s).refs = 0 := by
    intro hretired hrefs
    refine ⟨hsnap.retired.mpr (.inl hretired), ?_⟩
    have hacq : op.acquired sv ≠ some s := by
      intro hacq
      exact (hplaced.of_current (current_of_acquired hacq)).2 (.inl hretired)
    have hrel : op.released sv ≠ some s := by
      intro hrel
      cases op with
      | decrement l =>
        cases hrel
        obtain ⟨-, -, hreleases, hlt⟩ := hcounted.owned (l := l) rfl
        rw [hcounted.refs, Int.natCast_eq_zero, Finset.card_eq_zero] at hrefs
        exact absurd (mem_outstanding.mpr ⟨hlt, rfl, hreleases⟩) (by simp [hrefs])
      | _ => cases hrel
    rw [hsnap.refs, if_neg hacq, if_neg hrel, hrefs]
    rfl
  have hbefore : Triggered sv (op ::ₘ others) s → (e.state.snapshots s).forced = true ∨
      ((e.state.snapshots s).retired = true ∧ (e.state.snapshots s).refs = 0) := by
    intro htrig
    rcases h s htrig with hforced | ⟨hretired, hrefs⟩
    · exact .inl (hsnap.forced.mpr (.inl hforced))
    · exact .inr (hkept hretired hrefs)
  rcases hs with hs | hs
  · refine hbefore ?_
    rw [hsnap.closeOnce] at hs
    split_ifs at hs with hall henter
    · refine Or.inl ?_
      have hcount := hclosed.running s
      rw [← hall, count_cons_self] at hcount
      split_ifs at hcount with hrunning
      simp [hrunning]
    · exact .inr (henter.1 ▸ hmem)
    · exact .inl hs
  · rcases Multiset.mem_add.mp hs with hs | hs
    · cases exec_follows he hs with
      | closesLast hretired => exact .inr (hkept hretired (hop s rfl hretired))
      | closesUnused hrefs => exact .inr (hkept (hplaced.counting s hmem) hrefs)
      | closesForced => exact .inl (hsnap.forced.mpr (.inr rfl))
    · exact hbefore (.inr (mem_cons_of_mem hs))

lemma safe_starts (h : Safe sv ops) (hop : Starts sv sv' op) : Safe sv' (op ::ₘ ops) := by
  intro s hs
  obtain ⟨timers, rfl⟩ := hop.eq_timers
  exact h s (hs.imp_right (hop.mem_of_mem_cons · rfl))

/-! ### Runs -/

/-- The snapshot whose flag a goroutine reads next, in `release`. -/
def reading (st : State) (i : Nat) : Option Nat :=
  match st.goroutines[i]? with
  | some (.loadRetired s :: _) => some s
  | _ => none

/-- A release that finds the flag of retirement set finds the count at zero as well. -/
def Undisturbed (st : State) : Event → Prop
  | .go i _ => ∀ s, reading st i = some s →
    (st.state.snapshots s).retired = true → (st.state.snapshots s).refs = 0
  | _ => True

instance (st : State) : ∀ ev, Decidable (Undisturbed st ev)
  | .go i _ =>
    match h : reading st i with
    | none => isTrue (by simp [Undisturbed, h])
    | some s =>
      decidable_of_iff ((st.state.snapshots s).retired = true → (st.state.snapshots s).refs = 0)
        (by simp [Undisturbed, h])
  | .call | .hangUp _ | .fire _ | .reload | .close => isTrue trivial

lemma safe_of_undisturbed {es : List Event} (hg : Guarded step Undisturbed init es)
    (hr : run step init es = some st) : Safe st.state st.ops := by
  have hinv : Reachable st ∧ Safe st.state st.ops := by
    refine Guarded.invariant (I := fun st => Reachable st ∧ Safe st.state st.ops) ?_ ?_ hg hr
    · rintro st ev st' ⟨hst, hsafe⟩ hev hstep
      refine ⟨hst.after hstep, ?_⟩
      have hb := hst.bounded
      have hcounted := hst.counted
      have hplaced := hst.placed
      have hclosed := hst.closedOnce
      obtain ⟨i, c, op, rest, others, e, rfl, hi, he, hops, hstate, hops'⟩ | ⟨op, hop, hops'⟩ :=
        step_cases hstep
      · rw [hops] at hb hcounted hplaced hclosed hsafe
        rw [hstate, hops']
        refine safe_exec hb hcounted hplaced hclosed hsafe ?_ he
        rintro s rfl
        exact hev s (by simp [reading, hi])
      · rw [hops']
        exact safe_starts hsafe hop
    · refine ⟨⟨[], rfl⟩, ?_⟩
      rintro s (hs | hs)
      · exact absurd rfl hs
      · cases hs
  exact hinv.2

/-- A lease is still in use: a goroutine has it, or its connection is open. -/
def InUse (st : State) (l : Nat) : Prop :=
  (∃ op ∈ st.ops, op.owns = some l) ∨ (st.state.leases l).isOpen = true

structure LeasesProtect (st : State) : Prop where
  refs_nonneg : ∀ s, 0 ≤ (st.state.snapshots s).refs
  /-- A lease that is no longer in use was released exactly once. -/
  released_once : ∀ l, l < st.state.leased →
    (InUse st l ∧ (st.state.leases l).releases = 0) ∨
      (¬ InUse st l ∧ (st.state.leases l).releases = 1)
  closed_once : ∀ s, (st.state.snapshots s).closings ≤ 1
  not_under_lease : ∀ s, (st.state.snapshots s).closings ≠ 0 →
    (st.state.snapshots s).forced = false → outstanding st.state s = ∅
  /-- The closing of a snapshot that is retired and unused is triggered, at the latest by the
  `retire` or the `release` that is about to look. -/
  triggered : ∀ s, (st.state.snapshots s).retired = true → outstanding st.state s = ∅ →
    Triggered st.state st.ops s ∨ .loadRefs s ∈ st.ops ∨ .loadRetired s ∈ st.ops
  /-- It is closed when nobody is left to do so. -/
  closed_at_last : ∀ s, (st.state.snapshots s).retired = true → outstanding st.state s = ∅ →
    (∀ op ∈ [.loadRefs s, .loadRetired s, .enterOnce s, .closeAll s], op ∉ st.ops) →
    (st.state.snapshots s).closings = 1

lemma Reachable.released_once (h : Reachable st) (hl : l < st.state.leased) :
    (InUse st l ∧ (st.state.leases l).releases = 0) ∨
      (¬ InUse st l ∧ (st.state.leases l).releases = 1) := by
  have hstake := h.counted.stake l
  rw [if_pos hl, stake] at hstake
  by_cases hhands : ∃ op ∈ st.ops, op.owns = some l
  · have hpos : 0 < hands st.ops l := countP_pos.mpr hhands
    exact .inl ⟨.inl hhands, by omega⟩
  · have hzero : hands st.ops l = 0 := by
      refine countP_eq_zero.mpr ?_
      intro op hop howns
      exact hhands ⟨op, hop, howns⟩
    cases hopen : (st.state.leases l).isOpen with
    | true =>
      rw [hopen, if_pos rfl] at hstake
      exact .inl ⟨.inr hopen, by omega⟩
    | false =>
      rw [hopen, hzero] at hstake
      refine .inr ⟨?_, by simpa using hstake⟩
      rintro (huse | huse)
      · exact hhands huse
      · rw [hopen] at huse
        cases huse

lemma Reachable.refs_eq_zero (h : Reachable st)
    (hs : outstanding st.state s = ∅) : (st.state.snapshots s).refs = 0 := by
  rw [h.counted.refs, hs]
  rfl

lemma Reachable.closings_of_triggered (h : Reachable st)
    (hs : Triggered st.state st.ops s) (henter : .enterOnce s ∉ st.ops)
    (hall : .closeAll s ∉ st.ops) : (st.state.snapshots s).closings = 1 := by
  have hrunning := h.closedOnce.running s
  rw [count_eq_zero_of_notMem hall] at hrunning
  have hfresh := hs.resolve_right henter
  rw [h.closedOnce.closings s]
  cases honce : (st.state.snapshots s).closeOnce with
  | fresh => exact absurd honce hfresh
  | running =>
    rw [honce] at hrunning
    cases hrunning
  | done => rfl

/-- **Leases protect the resources of a snapshot** along every run in which a release that finds the
flag of retirement set finds the count at zero as well. -/
theorem leasesProtect_of_undisturbed (es : List Event) (st : State)
    (hg : Guarded step Undisturbed init es) (hr : run step init es = some st) :
    LeasesProtect st := by
  have hst : Reachable st := ⟨es, hr⟩
  refine ⟨?_, ?_, ?_, ?_, ?_, ?_⟩
  · intro s
    rw [hst.counted.refs s]
    exact Int.natCast_nonneg _
  · exact fun l hl => hst.released_once hl
  · intro s
    rw [hst.closedOnce.closings s]
    split_ifs <;> omega
  · intro s hclosings hforced
    rw [hst.closedOnce.closings s] at hclosings
    have hdone : (st.state.snapshots s).closeOnce = .done := by
      by_contra hne
      exact hclosings (if_neg hne)
    have hsafe := safe_of_undisturbed hg hr s (.inl (by simp [hdone]))
    rw [hforced] at hsafe
    obtain ⟨-, hrefs⟩ := hsafe.resolve_left Bool.noConfusion
    rw [hst.counted.refs s, Int.natCast_eq_zero] at hrefs
    exact Finset.card_eq_zero.mp hrefs
  · exact fun s hretired hs => hst.unused s hretired (hst.refs_eq_zero hs)
  · intro s hretired hs hops
    simp only [List.mem_cons, List.not_mem_nil, or_false, forall_eq_or_imp, forall_eq] at hops
    obtain ⟨hrefs, hflag, henter, hall⟩ := hops
    rcases hst.unused s hretired (hst.refs_eq_zero hs) with htrig | hop | hop
    · exact hst.closings_of_triggered htrig henter hall
    · exact absurd hop hrefs
    · exact absurd hop hflag

def Event.ok (i : Nat) : Event := .go i ⟨true, []⟩

def Event.fail (i : Nat) : Event := .go i ⟨false, []⟩

/-- A caller uses the snapshot and gives its lease back before a reload. -/
def undisturbedRun : List Event :=
  [.call, .ok 0, .fail 0, .ok 0, .ok 0, .reload, .ok 1, .ok 1, .ok 1, .ok 1, .ok 1, .ok 1, .ok 1,
    .ok 1, .ok 1, .ok 1, .ok 1, .ok 1, .ok 2, .ok 2, .ok 2, .ok 2]

theorem leasesProtect_of_undisturbed_undisturbedRun :
    ∃ st, run step init undisturbedRun = some st ∧ (st.state.snapshots 0).closings = 1 ∧
      st.state.current = some 1 ∧ LeasesProtect st := by
  refine ⟨_, rfl, rfl, rfl, ?_⟩
  exact leasesProtect_of_undisturbed undisturbedRun _ (by decide) rfl

/-- A caller has brought the count to zero and not read the flag yet. Then a connection is opened,
and a reload takes its lease and retires the snapshot. -/
def disturbedRun : List Event :=
  [.call, .ok 0, .fail 0, .ok 0, .call, .ok 1, .ok 1, .ok 1, .reload, .ok 2, .ok 2, .ok 2, .ok 2,
    .ok 2, .ok 2, .ok 2, .ok 0, .ok 3, .ok 3, .ok 3, .ok 3]

/-- The caller then finds the flag set and closes the resources under the open connection. -/
theorem closed_under_lease :
    ∃ st, run step init disturbedRun = some st ∧ (st.state.snapshots 0).closings = 1 ∧
      (st.state.snapshots 0).forced = false ∧ (st.state.snapshots 0).refs = 2 ∧
      (st.state.leases 1).snapshot = 0 ∧ (st.state.leases 1).isOpen = true ∧
      (st.state.leases 1).releases = 0 ∧ ¬ LeasesProtect st := by
  refine ⟨_, rfl, rfl, rfl, rfl, rfl, rfl, rfl, ?_⟩
  intro hprotect
  have hempty := hprotect.not_under_lease 0 Nat.one_ne_zero rfl
  exact absurd (Reachable.refs_eq_zero ⟨disturbedRun, rfl⟩ hempty) nofun

end BypassCore.Runtime
