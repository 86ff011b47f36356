import BypassCore.Runtime.Lease.Protect

/-!
# Shutdown

No snapshot is lost. From the moment its retirement begins, some goroutine or the list of retired
snapshots has it until its resources are closed; a snapshot that was never current has no leases,
so that `retire` closes it at once. After `Close` the list is empty and stays so.
-/

namespace BypassCore.Runtime

open Lib Goroutines Multiset Option List

variable {c : Choice} {sv sv' : Service} {op : Op} {others ops : Multiset Op}
  {e : Effect Service Op} {s t l : Nat}

def Short (sv : Service) (_ : Multiset Op) : Prop := sv.retired.length ≤ maxRetiredSnapshots

lemma short_exec (h : Short sv (op ::ₘ others)) (he : exec c sv op = some e) :
    Short e.state (e.added + others) := by
  unfold Short at h ⊢
  cases op with
  | register s =>
    cases he
    obtain ⟨-, hreg⟩ | ⟨-, v, rest, hk, ⟨-, hreg⟩ | ⟨hle, hreg⟩⟩ := register_cases sv s
    · rw [hreg]
      exact h
    · -- one snapshot is added and one is taken out
      rw [hreg]
      have hlen := congrArg length hk
      rw [length_append, length_singleton, length_cons] at hlen
      have hkept := length_filter_le (fun r => !(sv.snapshots r).closed) sv.retired
      show rest.length ≤ _
      omega
    · rw [hreg]
      exact hle
  | collect current =>
    cases he
    exact Nat.zero_le _
  | _ =>
    rw [(exec_lists he (by simp) (by simp)).1]
    exact h

variable {st : State}

lemma Reachable.short (h : Reachable st) : Short st.state st.ops := by
  refine Reachable.induction (J := fun _ _ => True) (I := Short) (fun _ => trivial) ?_ ?_
    (fun _ => short_exec) h
  · exact Nat.zero_le _
  · rintro sv sv' op ops - hI hop
    obtain ⟨timers, rfl⟩ := hop.eq_timers
    exact hI

/-- The resources of a snapshot are closed, or there is somebody who is going to do it. -/
def Cared (sv : Service) (ops : Multiset Op) (s : Nat) : Prop :=
  Triggered sv ops s ∨ s ∈ sv.retired ∨
    ∃ op ∈ [.force s, .goForce s, .loadClosed s, .register s], op ∈ ops

lemma Cared.of_mem (op : Op) (hop : op ∈ [.force s, .goForce s, .loadClosed s, .register s])
    (hmem : op ∈ ops) : Cared sv ops s := .inr (.inr ⟨op, hop, hmem⟩)

/-- `retireSnapshot` puts a snapshot on the list, or has it closed. What is on the list stays there,
is closed already or is closed by force. -/
lemma cared_register (hb : Bounded sv (.register t ::ₘ others))
    (hclosed : ClosedOnce sv (.register t ::ₘ others)) (he : exec c sv (.register t) = some e)
    (hs : s = t ∨ s ∈ sv.retired) : Cared e.state (e.added + others) s := by
  by_cases hflag : (sv.snapshots s).closed = true
  · exact .inl (Triggered.kept hb (.inl (hclosed.closed s (.inl hflag))) he)
  have hkept : s ∈ (sv.retired.filter fun r => !(sv.snapshots r).closed) ++ [t] := by
    rw [List.mem_append, List.mem_filter, List.mem_singleton]
    rcases hs with hs | hs
    · exact .inr hs
    · exact .inl ⟨hs, by simp [hflag]⟩
  cases he
  obtain ⟨-, hreg⟩ | ⟨-, v, rest, hk, ⟨-, hreg⟩ | ⟨-, hreg⟩⟩ := register_cases sv t
  · rw [hreg]
    rcases hs with rfl | hs
    · exact Cared.of_mem (.force s) (by simp) (mem_added (by simp [forceClose]))
    · exact .inr (.inl hs)
  · rw [hreg]
    rw [hk] at hkept
    rcases mem_cons.mp hkept with rfl | hs
    · exact Cared.of_mem (.goForce s) (by simp) (mem_added (by simp))
    · exact .inr (.inl hs)
  · rw [hreg]
    rw [hk] at hkept
    exact .inr (.inl hkept)

lemma Cared.kept (hb : Bounded sv (op ::ₘ others)) (hclosed : ClosedOnce sv (op ::ₘ others))
    (h : Cared sv (op ::ₘ others) s) (he : exec c sv op = some e) :
    Cared e.state (e.added + others) s := by
  rcases h with htrig | hs | ⟨op', hop', hmem⟩
  · exact .inl (htrig.kept hb he)
  · cases op with
    | register t => exact cared_register hb hclosed he (.inr hs)
    | collect current =>
      cases he
      refine Cared.of_mem (.force s) (by simp) (mem_added ?_)
      simp [retire, forceClose, hs]
    | _ => exact .inr (.inl (by rwa [(exec_lists he (by simp) (by simp)).1]))
  · rcases mem_cons.mp hmem with rfl | hmem
    · simp only [List.mem_cons, List.not_mem_nil, or_false] at hop'
      rcases hop' with rfl | rfl | rfl | rfl
      · cases he
        exact .inl (.inr (mem_added (by simp [closeResources])))
      · cases he
        exact Cared.of_mem (.force s) (by simp) (mem_added (by simp [forceClose]))
      · cases hflag : (sv.snapshots s).closed with
        | true => exact .inl (Triggered.kept hb (.inl (hclosed.closed s (.inl hflag))) he)
        | false =>
          cases he
          exact Cared.of_mem (.register s) (by simp) (mem_added (by simp [hflag]))
      · exact cared_register hb hclosed he (.inl rfl)
    · exact Cared.of_mem op' hop' (mem_others hmem)

def NoLease (sv : Service) (s : Nat) : Prop := ∀ l, l < sv.leased → (sv.leases l).snapshot ≠ s

lemma NoLease.kept (h : NoLease sv s) (he : exec c sv op = some e)
    (hacq : op.acquired sv ≠ some s) : NoLease e.state s := by
  intro l hl
  obtain ⟨-, hlt, hlease⟩ | ⟨t, -, ha, hx⟩ := exec_lease_cases he l
  · rw [hlease.snapshot]
    exact h l (hlt.mp hl)
  · rw [hx]
    rintro rfl
    exact hacq ha

lemma NoLease.refs (h : NoLease sv s) (hcounted : Counted sv ops) : (sv.snapshots s).refs = 0 := by
  rw [hcounted.refs s, Int.natCast_eq_zero, Finset.card_eq_zero, Finset.eq_empty_iff_forall_notMem]
  intro l hl
  obtain ⟨hlt, hsnapshot, -⟩ := mem_outstanding.mp hl
  exact h l hlt hsnapshot

/-! ### No snapshot is lost -/

structure Tended (sv : Service) (ops : Multiset Op) : Prop where
  /-- A snapshot that is not published yet has no leases. -/
  held : ∀ l s, (.prepare l s ∈ ops ∨ .swap l s ∈ ops) → NoLease sv s
  /-- A snapshot that is going to be retired was never published, or is taken care of. -/
  begun : ∀ s, .casRetired s ∈ ops → NoLease sv s ∨ Cared sv ops s
  /-- So is a retired one, apart from the moment before the count is read. -/
  retired : ∀ s, (sv.snapshots s).retired = true →
    Cared sv ops s ∨ (NoLease sv s ∧ .loadRefs s ∈ ops)
  shut : sv.closed = true → sv.current = none ∧
    (sv.retired = [] ∨ ∃ current, .collect current ∈ ops)
  victims : ∀ v ∈ sv.victims, .goForce v ∈ ops ∨ .force v ∈ ops ∨
    (sv.snapshots v).forced = true

section Exec

variable (hb : Bounded sv (op ::ₘ others)) (hplaced : Placed sv (op ::ₘ others))
  (h : Tended sv (op ::ₘ others)) (he : exec c sv op = some e)

include hplaced he in
/-- Nobody takes a lease on a snapshot whose retirement has begun. -/
lemma NoLease.kept_of_detached (hno : NoLease sv s) (hd : Detached sv (op ::ₘ others) s) :
    NoLease e.state s :=
  hno.kept he fun hacq => (hplaced.of_current (current_of_acquired hacq)).2 hd

include hb hplaced h he in
lemma Tended.exec_held (hs : .prepare l s ∈ e.added + others ∨ .swap l s ∈ e.added + others) :
    NoLease e.state s := by
  have hmem : op ∈ op ::ₘ others := mem_cons_self _ _
  -- a goroutine that does not move has a snapshot that is not the current one
  have hothers : ∀ {op'}, op' ∈ others → op'.holds = some s → NoLease sv s → NoLease e.state s := by
    intro op' hop' hholds hno
    refine hno.kept he ?_
    intro hacq
    have hzero := (hplaced.of_current (current_of_acquired hacq)).1
    exact countP_eq_zero.mp hzero op' (mem_cons_of_mem hop') hholds
  rcases hs with hs | hs
  · rcases Multiset.mem_add.mp hs with hs | hs
    · cases exec_follows he hs with
      | builds =>
        have hno : NoLease sv sv.built := fun l _ => Nat.ne_of_lt (hb.leases l)
        exact hno.kept he (by simp [Op.acquired])
    · exact hothers hs rfl (h.held l s (.inl (mem_cons_of_mem hs)))
  · rcases Multiset.mem_add.mp hs with hs | hs
    · cases exec_follows he hs with
      | prepares => exact (h.held l s (.inl hmem)).kept he (by simp [Op.acquired])
    · exact hothers hs rfl (h.held l s (.inr (mem_cons_of_mem hs)))

include hb hplaced h he in
lemma Tended.exec_begun (hclosed : ClosedOnce sv (op ::ₘ others))
    (hs : .casRetired s ∈ e.added + others) :
    NoLease e.state s ∨ Cared e.state (e.added + others) s := by
  have hmem : op ∈ op ::ₘ others := mem_cons_self _ _
  rcases Multiset.mem_add.mp hs with hs | hs
  · cases exec_follows he hs with
    | abandons => exact .inl ((h.held _ s (.inl hmem)).kept he (by simp [Op.acquired]))
    | comesLate => exact .inl ((h.held _ s (.inr hmem)).kept he (by simp [Op.acquired]))
    | retires hc hcur =>
      refine .inr (Cared.of_mem (.loadClosed s) (by simp) (mem_added ?_))
      cases he
      simp [swap, hc, hcur, retireSnapshot]
    | retiresAll hmem' =>
      refine .inr (Cared.of_mem (.force s) (by simp) (mem_added ?_))
      cases he
      simpa [retire, forceClose] using hmem'
  · have hs : .casRetired s ∈ op ::ₘ others := mem_cons_of_mem hs
    rcases h.begun s hs with hno | hcared
    · exact .inl (hno.kept_of_detached hplaced he (.inr hs))
    · exact .inr (hcared.kept hb hclosed he)

include hb hplaced h he in
lemma Tended.exec_retired (hclosed : ClosedOnce sv (op ::ₘ others))
    (hcounted : Counted sv (op ::ₘ others)) (hs : (e.state.snapshots s).retired = true) :
    Cared e.state (e.added + others) s ∨ (NoLease e.state s ∧ .loadRefs s ∈ e.added + others) := by
  rw [(exec_snapshot (hb.fresh _ le_rfl) he s).retired] at hs
  by_cases hretired : (sv.snapshots s).retired = true
  · rcases h.retired s hretired with hcared | ⟨hno, hop⟩
    · exact .inl (hcared.kept hb hclosed he)
    · rcases mem_cons.mp hop with rfl | hop
      · -- the count is zero, so that the resources are closed
        refine .inl (.inl (.inr (mem_added ?_)))
        rw [exec, if_pos (hno.refs hcounted)] at he
        cases he
        simp [closeResources]
      · exact .inr ⟨hno.kept_of_detached hplaced he (.inl hretired),
          mem_others hop⟩
  · obtain rfl : op = .casRetired s := hs.resolve_left hretired
    have hmem : .casRetired s ∈ .casRetired s ::ₘ others := mem_cons_self _ _
    rcases h.begun s hmem with hno | hcared
    · refine .inr ⟨hno.kept_of_detached hplaced he (.inr hmem), mem_added ?_⟩
      rw [exec, if_neg hretired] at he
      cases he
      simp
    · exact .inl (hcared.kept hb hclosed he)

include he in
/-- A closed service gets no snapshot, neither as the current one nor on the list. -/
lemma exec_of_closed (hclosed : sv.closed = true) :
    e.state.current = sv.current ∧ (e.state.retired = sv.retired ∨ e.state.retired = []) := by
  cases op with
  | swap l n =>
    cases he
    rw [swap, if_pos hclosed]
    exact ⟨rfl, .inl rfl⟩
  | close =>
    rw [exec, if_pos hclosed] at he
    cases he
    exact ⟨rfl, .inl rfl⟩
  | register t =>
    cases he
    rw [register, if_pos hclosed]
    exact ⟨rfl, .inl rfl⟩
  | collect current =>
    cases he
    exact ⟨rfl, .inr rfl⟩
  | _ =>
    exact ⟨exec_current_eq he (by simp) (by simp), .inl (exec_lists he (by simp) (by simp)).1⟩

include h he in
lemma Tended.exec_shut (hs : e.state.closed = true) :
    e.state.current = none ∧
      (e.state.retired = [] ∨ ∃ current, .collect current ∈ e.added + others) := by
  by_cases hclosed : sv.closed = true
  · obtain ⟨hcurrent, hretired⟩ := h.shut hclosed
    obtain ⟨hcurrent', hretired'⟩ := exec_of_closed he hclosed
    refine ⟨hcurrent'.trans hcurrent, ?_⟩
    rcases hretired' with hretired' | hretired'
    · rcases hretired with hnil | ⟨current, hop⟩
      · exact .inl (hretired'.trans hnil)
      · rcases mem_cons.mp hop with rfl | hop
        · cases he
          exact .inl rfl
        · exact .inr ⟨current, mem_others hop⟩
    · exact .inl hretired'
  · obtain rfl : op = .close := ((exec_service he).closed.mp hs).resolve_left hclosed
    rw [exec, if_neg hclosed] at he
    cases he
    exact ⟨rfl, .inr ⟨sv.current, by simp⟩⟩

include hb h he in
lemma Tended.exec_victims {v : Nat} (hv : v ∈ e.state.victims) :
    .goForce v ∈ e.added + others ∨ .force v ∈ e.added + others ∨
      (e.state.snapshots v).forced = true := by
  have hsnap := exec_snapshot (hb.fresh _ le_rfl) he v
  -- a victim of an earlier call
  have hold : v ∈ sv.victims → .goForce v ∈ e.added + others ∨ .force v ∈ e.added + others ∨
      (e.state.snapshots v).forced = true := by
    intro hv
    rcases h.victims v hv with hop | hop | hforced
    · rcases mem_cons.mp hop with rfl | hop
      · cases he
        exact .inr (.inl (by simp [forceClose]))
      · exact .inl (mem_others hop)
    · rcases mem_cons.mp hop with rfl | hop
      · exact .inr (.inr (hsnap.forced.mpr (.inr rfl)))
      · exact .inr (.inl (mem_others hop))
    · exact .inr (.inr (hsnap.forced.mpr (.inl hforced)))
  cases op with
  | register t =>
    cases he
    obtain ⟨-, hreg⟩ | ⟨-, v', rest, hk, ⟨-, hreg⟩ | ⟨-, hreg⟩⟩ := register_cases sv t
    · rw [hreg] at hv
      exact hold hv
    · rw [hreg] at hv
      rcases mem_cons.mp hv with rfl | hv
      · exact .inl (by simp [hreg])
      · exact hold hv
    · rw [hreg] at hv
      exact hold hv
  | collect current =>
    refine hold ?_
    cases he
    exact hv
  | _ => exact hold (by rwa [(exec_lists he (by simp) (by simp)).2] at hv)

end Exec

/-- What is known of every reachable state before. -/
structure Known (sv : Service) (ops : Multiset Op) : Prop where
  bounded : Bounded sv ops
  counted : Counted sv ops
  placed : Placed sv ops
  closedOnce : ClosedOnce sv ops

lemma tended_exec (hk : Known sv (op ::ₘ others)) (h : Tended sv (op ::ₘ others))
    (he : exec c sv op = some e) : Tended e.state (e.added + others) where
  held _ _ hs := h.exec_held hk.bounded hk.placed he hs
  begun _ hs := h.exec_begun hk.bounded hk.placed he hk.closedOnce hs
  retired _ hs := h.exec_retired hk.bounded hk.placed he hk.closedOnce hk.counted hs
  shut hs := h.exec_shut he hs
  victims _ hv := h.exec_victims hk.bounded he hv

lemma tended_starts (h : Tended sv ops) (hop : Starts sv sv' op) : Tended sv' (op ::ₘ ops) := by
  have hcared : ∀ {s}, Cared sv ops s → Cared sv' (op ::ₘ ops) s := by
    intro s hs
    obtain ⟨timers, rfl⟩ := hop.eq_timers
    rcases hs with (hs | hs) | hs | ⟨op', hop', hs⟩
    · exact .inl (.inl hs)
    · exact .inl (.inr (mem_cons_of_mem hs))
    · exact .inr (.inl hs)
    · exact Cared.of_mem op' hop' (mem_cons_of_mem hs)
  obtain ⟨timers, rfl⟩ := hop.eq_timers
  refine ⟨?_, ?_, ?_, ?_, ?_⟩
  · exact fun l s hs => h.held l s
      (hs.imp (hop.mem_of_mem_cons · rfl) (hop.mem_of_mem_cons · rfl))
  · exact fun s hs => (h.begun s (hop.mem_of_mem_cons hs rfl)).imp_right hcared
  · exact fun s hs => (h.retired s hs).imp hcared fun hs =>
      ⟨hs.1, mem_cons_of_mem hs.2⟩
  · intro hs
    obtain ⟨hcurrent, hretired⟩ := h.shut hs
    exact ⟨hcurrent, hretired.imp_right fun ⟨current, hop⟩ =>
      ⟨current, mem_cons_of_mem hop⟩⟩
  · intro v hv
    rcases h.victims v hv with hv | hv | hv
    · exact .inl (mem_cons_of_mem hv)
    · exact .inr (.inl (mem_cons_of_mem hv))
    · exact .inr (.inr hv)

lemma Reachable.tended (h : Reachable st) : Tended st.state st.ops := by
  refine Reachable.induction (J := Known)
    (fun hst => ⟨hst.bounded, hst.counted, hst.placed, hst.closedOnce⟩) ?_
    (fun _ => tended_starts) tended_exec h
  refine ⟨by simp, by simp, ?_, ?_, by simp [Service.new]⟩
  · intro s hs
    cases hs
  · intro hs
    cases hs

/-! ### After shutdown -/

/-- An operation of somebody who has a lease or closes a connection. -/
def Op.ofCaller : Op → Bool
  | .acquire .use | .use _ | .track _ | .closeConn _ | .deleteConn _ | .leaveOnce _ | .decrement _
  | .loadRetired _ => true
  | _ => false

/-- All calls of `Reload` and `Close` have returned, and the goroutines that close snapshots have
run. Callers may still be there. -/
def Settled (st : State) : Prop := ∀ op ∈ st.ops, op.ofCaller = true

lemma Settled.not_mem (h : Settled st) (hop : op.ofCaller = false) : op ∉ st.ops := by
  intro hmem
  rw [h op hmem] at hop
  cases hop

lemma Settled.holders (h : Settled st) : holders st.ops s = 0 := by
  refine holders_eq_zero ?_
  intro op hop hholds
  have hcaller := h op hop
  cases op with
  | prepare | swap | collect => cases hcaller
  | _ => cases hholds

/-- A snapshot that is taken care of is closed when all is settled and the list is empty. -/
lemma Settled.closings (h : Settled st) (hst : Reachable st)
    (hretired : st.state.retired = []) (hs : Cared st.state st.ops s) :
    (st.state.snapshots s).closings = 1 := by
  rcases hs with htrig | hs | ⟨op, hop, hmem⟩
  · exact hst.closings_of_triggered htrig (h.not_mem rfl) (h.not_mem rfl)
  · rw [hretired] at hs
    cases hs
  · simp only [List.mem_cons, List.not_mem_nil, or_false] at hop
    rcases hop with rfl | rfl | rfl | rfl <;> exact absurd hmem (h.not_mem rfl)

/-- A call of `Close` that has still to run stays or closes the service. -/
lemma step_close {st' : State} {ev : Event} (hstep : step st ev = some st')
    (h : .close ∈ st.ops ∨ st.state.closed = true) :
    .close ∈ st'.ops ∨ st'.state.closed = true := by
  obtain ⟨-, c, op, -, others, e, -, -, he, hops, hstate, hops'⟩ | ⟨op, hop, hops'⟩ :=
    step_cases hstep
  · rw [hstate, hops', (exec_service he).closed]
    rcases h with h | h
    · rcases mem_cons.mp (hops ▸ h) with rfl | h
      · exact .inr (.inr rfl)
      · exact .inl (mem_others h)
    · exact .inr (.inl h)
  · obtain ⟨timers, hstate⟩ := hop.eq_timers
    rw [hops', hstate]
    exact h.imp_left mem_cons_of_mem

lemma closed_of_close_mem {es : List Event} {st' : State} (hr : run step st es = some st')
    (h : .close ∈ es) : .close ∈ st'.ops ∨ st'.state.closed = true := by
  refine (run_induction (J := fun es st => .close ∈ es ∨ .close ∈ st.ops ∨ st.state.closed = true)
    ?_ (.inl h) hr).resolve_left not_mem_nil
  intro es st ev st' h hstep
  rcases h with h | h
  · rcases mem_cons.mp h with rfl | h
    · cases hstep
      exact .inr (.inl (by simp [Config.ops_spawn]))
    · exact .inl h
  · exact .inr (step_close hstep h)

/-- **No snapshot leaks at shutdown.** -/
theorem shutdown_leaks_nothing (es : List Event) (st : State) (hr : run step init es = some st) :
    st.state.retired.length ≤ maxRetiredSnapshots ∧
      (.close ∈ es → Settled st →
        st.state.current = none ∧
        (∀ s, s < st.state.built → (st.state.snapshots s).closings = 1) ∧
        ∀ v ∈ st.state.victims, (st.state.snapshots v).forced = true) := by
  have hst : Reachable st := ⟨es, hr⟩
  refine ⟨hst.short, ?_⟩
  intro hclose hsettled
  have hclosed : st.state.closed = true :=
    (closed_of_close_mem hr hclose).resolve_left (hsettled.not_mem rfl)
  obtain ⟨hcurrent, hretired⟩ := hst.tended.shut hclosed
  have hretired : st.state.retired = [] := by
    rcases hretired with hretired | ⟨current, hop⟩
    · exact hretired
    · exact absurd hop (hsettled.not_mem rfl)
  refine ⟨hcurrent, ?_, ?_⟩
  · intro s hs
    refine hsettled.closings hst hretired ?_
    have hdetached : Detached st.state st.ops s := by
      by_contra hnot
      have hplaces := hst.placed.places s
      rw [if_pos hs, places, hcurrent, hsettled.holders, detached_of_not hnot]
        at hplaces
      cases hplaces
    have hflag := hdetached.resolve_right (hsettled.not_mem rfl)
    rcases hst.tended.retired s hflag with hcared | ⟨-, hop⟩
    · exact hcared
    · exact absurd hop (hsettled.not_mem rfl)
  · intro v hv
    rcases hst.tended.victims v hv with hop | hop | hforced
    · exact absurd hop (hsettled.not_mem rfl)
    · exact absurd hop (hsettled.not_mem rfl)
    · exact hforced

/-- `Close` comes between the swap of a reload and the registration of the old snapshot. -/
def shutdownRun : List Event :=
  [.reload, .ok 0, .ok 0, .ok 0, .ok 0, .ok 0, .ok 0, .ok 0, .ok 0, .close, .ok 1, .ok 1, .ok 0,
    .ok 0, .ok 0, .ok 0, .ok 0, .ok 1, .ok 1, .ok 1, .ok 1, .ok 1, .ok 1, .ok 1, .ok 2, .ok 0,
    .ok 0, .ok 0, .ok 0, .ok 0, .ok 3]

theorem shutdown_leaks_nothing_shutdownRun :
    ∃ st, run step init shutdownRun = some st ∧ st.state.built = 2 ∧ st.state.current = none ∧
      (st.state.snapshots 0).closings = 1 ∧ (st.state.snapshots 1).closings = 1 := by
  obtain ⟨st, hr, hbuilt, hops⟩ : ∃ st, run step init shutdownRun = some st ∧
      st.state.built = 2 ∧ st.ops = 0 := ⟨_, rfl, rfl, rfl⟩
  have hsettled : Settled st := by
    intro op hop
    rw [hops] at hop
    cases hop
  obtain ⟨hcurrent, hclosings, -⟩ :=
    (shutdown_leaks_nothing shutdownRun st hr).2 (by simp [shutdownRun]) hsettled
  exact ⟨st, hr, hbuilt, hcurrent, hclosings 0 (by omega), hclosings 1 (by omega)⟩

end BypassCore.Runtime
