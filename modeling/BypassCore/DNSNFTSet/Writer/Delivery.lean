import BypassCore.DNSNFTSet.Writer.Basic
import Mathlib.Algebra.Order.Group.Multiset

/-!
# Every accepted update is flushed once

The updates of the accepted calls are, in queue order, those flushed, those pending and those in the
queue. No call can queue anything once the writer is closed, so the queue that `run` empties before
it returns stays empty. What is left pending when `run` waits has the timer set.
-/

namespace BypassCore.DNSNFTSet.Writer

open Lib List Multiset

variable {config : Config} {targetsByTag : GoMap String (List SetRef)} {s s' t : State} {e : Event}

@[simp] lemma accepted_finish (s : State) (updates : List Update) (outcome : Outcome) :
    (s.finish updates outcome).accepted =
      if outcome = .queued then s.accepted ++ [updates] else s.accepted := by
  by_cases h : outcome = .queued <;> simp [State.accepted, State.finish, h]

def Event.emitted (targetsByTag : GoMap String (List SetRef)) : Event → Multiset (List Update)
  | .emit result => {emitUpdates targetsByTag result}
  | .offer _ | .receive | .timer | .done | .drain | .flush | .close | .closeReturn => 0

def State.emits (s : State) : Multiset (List Update) := ↑(s.calls.map Call.updates) + ↑s.emitting

lemma emits_finish (s : State) (updates : List Update) (outcome : Outcome) :
    (s.finish updates outcome).emits = s.emits + {updates} := by
  simp only [State.emits, State.finish, map_append, ← coe_add]
  exact add_right_comm _ _ _

variable {updates : List Update}

/-- A call that returns was one of those under way. -/
lemma emits_finish_offer {i : ℕ} (hi : s.emitting[i]? = some updates)
    (queue : List (List Update)) (dropped : ℕ) (outcome : Outcome) :
    ({ s with emitting := s.emitting.eraseIdx i, queue, dropped }.finish updates outcome).emits =
      s.emits := by
  have hperm : (↑s.emitting : Multiset (List Update)) = ↑(s.emitting.eraseIdx i) + {updates} := by
    rw [coe_eq_coe.mpr (pick_perm hi), ← cons_coe, ← singleton_add, Multiset.add_comm]
  rw [emits_finish, State.emits, State.emits, add_assoc, hperm]

lemma emits_step (h : step config targetsByTag s e = some s') :
    s'.emits = s.emits + e.emitted targetsByTag := by
  cases moves_of_step h with
  | nothing | refused => exact emits_finish s _ _
  | @begun result =>
    rw [State.emits, ← coe_add, ← add_assoc]
    rfl
  | queued hi | dropped hi => exact (emits_finish_offer hi _ _ _).trans (add_zero _).symm
  | @proceed after => cases after <;> exact (add_zero _).symm
  | _ => exact (add_zero _).symm

structure Logged (s : State) : Prop where
  dropped : s.dropped = s.calls.countP (·.outcome = .dropped)
  nothing : ∀ c ∈ s.calls, c.outcome = .nothing → c.updates = []
  closed : ∀ c ∈ s.calls, c.outcome = .closed → s.closed = true

lemma Logged.finish (h : Logged s) {u : State} {outcome : Outcome}
    (hcalls : u.calls = s.calls) (hclosed : u.closed = s.closed)
    (hdropped : u.dropped = s.dropped + if outcome = .dropped then 1 else 0)
    (hnothing : outcome = .nothing → updates = [])
    (hrefused : outcome = .closed → s.closed = true) : Logged (u.finish updates outcome) where
  dropped := by
    simp only [State.finish, hdropped, hcalls, h.dropped, countP_append,
      countP_singleton, decide_eq_true_eq]
  nothing := by
    simp only [State.finish, hcalls, forall_mem_append, forall_mem_singleton]
    exact ⟨h.nothing, hnothing⟩
  closed := by
    simp only [State.finish, hcalls, hclosed, forall_mem_append, forall_mem_singleton]
    exact ⟨h.closed, hrefused⟩

lemma Logged.step (h : Logged s) (hs : step config targetsByTag s e = some s') : Logged s' := by
  cases moves_of_step hs with
  | nothing hnil => exact h.finish rfl rfl rfl (fun _ => hnil) nofun
  | refused _ hclosed => exact h.finish rfl rfl rfl nofun fun _ => hclosed
  | queued | dropped => exact h.finish rfl rfl rfl nofun nofun
  | close => exact ⟨h.dropped, h.nothing, fun _ _ _ => rfl⟩
  | @proceed after => cases after <;> exact ⟨h.dropped, h.nothing, h.closed⟩
  | _ => exact ⟨h.dropped, h.nothing, h.closed⟩

/-- The accepted updates are those flushed, those pending and those in the queue. -/
def Conserved (s : State) : Prop :=
  s.accepted.flatten = s.flushed.flatten ++ (s.pending ++ s.queue.flatten)

variable {rest : List (List Update)}

lemma Conserved.take (h : Conserved s) {item : List Update}
    (hqueue : s.queue = item :: rest) : Conserved (s.take item rest) := by
  rw [Conserved, hqueue, flatten_cons, ← append_assoc s.pending] at h
  exact h

lemma Conserved.step (h : Conserved s) (hs : step config targetsByTag s e = some s') :
    Conserved s' := by
  cases moves_of_step hs with
  | nothing | refused | dropped =>
    rw [Conserved, accepted_finish]
    exact h
  | @queued i updates =>
    rw [Conserved, accepted_finish, if_pos rfl, flatten_concat]
    change s.accepted.flatten ++ updates =
      s.flushed.flatten ++ (s.pending ++ (s.queue ++ [updates]).flatten)
    rw [h, flatten_concat, append_assoc, append_assoc]
  | received _ hqueue | kept _ hqueue | drained _ hqueue => exact h.take hqueue
  | batch =>
    rw [Conserved, flatten_concat, append_assoc, ← append_assoc (List.take _ _),
      List.take_append_drop]
    exact h
  | @proceed after => cases after <;> exact h
  | _ => exact h

def Batched (config : Config) (s : State) : Prop :=
  ∀ batch ∈ s.flushed, 1 ≤ batch.length ∧ batch.length ≤ config.batchSize

variable {pending : List Update}

lemma pos_of_mustFlush {after : After}
    (h : mustFlush config after pending) : 0 < pending.length := by
  rcases h with h | h
  · exact lt_of_lt_of_le config.batchSize_bounds.1 h
  · exact h.2

lemma Batched.step (h : Batched config s) (hs : step config targetsByTag s e = some s') :
    Batched config s' := by
  cases moves_of_step hs with
  | batch _ hmust =>
    refine forall_mem_append.mpr ⟨h, forall_mem_singleton.mpr ?_⟩
    have hpos := pos_of_mustFlush hmust
    have hsize := config.batchSize_bounds.1
    rw [length_take]
    omega
  | @proceed after => cases after <;> exact h
  | _ => exact h

/-! ### Closing -/

/-- What `run` has established where it stands: it leaves its main loop once the writer is closed,
empties the queue and then flushes what is pending. -/
def Settled (s : State) : Phase → Prop
  | .select | .flushing .received | .flushing .timer => True
  | .draining => s.closed = true
  | .flushing .closing => s.closed = true ∧ s.queue = []
  | .returned => s.closed = true ∧ s.queue = [] ∧ s.pending = []

/-- No call is about to queue anything once the writer is closed. -/
structure Closes (s : State) : Prop where
  emitting : s.closed = true → s.emitting = []
  settled : Settled s s.phase
  closeReturned : s.closeReturned = true → s.phase = .returned

lemma Closes.at (h : Closes s) {phase : Phase} (hphase : s.phase = phase) : Settled s phase :=
  hphase ▸ h.settled

lemma Closes.running (h : Closes s) {phase : Phase} (hphase : s.phase = phase)
    (hne : phase ≠ .returned) : s.closeReturned ≠ true :=
  fun hret => hne (hphase.symm.trans (h.closeReturned hret))

lemma Closes.not_closed_of_mem (h : Closes s) {i : ℕ}
    (hi : s.emitting[i]? = some updates) : s.closed ≠ true := by
  intro hclosed
  rw [h.emitting hclosed] at hi
  cases hi

/-- While the writer is open, the calls of `Emit` may do anything with the queue. -/
lemma Closes.of_open (h : Closes s) (hopen : s.closed ≠ true) (emitting queue : List (List Update))
    (dropped : ℕ) (calls : List Call) : Closes { s with emitting, queue, dropped, calls } where
  emitting hclosed := absurd hclosed hopen
  settled := by
    cases hphase : s.phase with
    | select => trivial
    | flushing after =>
      cases after with
      | received | timer => trivial
      | closing => exact absurd (h.at hphase).1 hopen
    | draining => exact absurd (h.at hphase) hopen
    | returned => exact absurd (h.at hphase).1 hopen
  closeReturned := h.closeReturned

lemma not_mustFlush_closing (h : ¬ mustFlush config .closing pending) : pending = [] := by
  by_contra hne
  exact h (.inr ⟨nofun, length_pos_iff.mpr hne⟩)

lemma Closes.step (h : Closes s) (hs : step config targetsByTag s e = some s') : Closes s' := by
  cases moves_of_step hs with
  | nothing | refused => exact ⟨h.emitting, h.settled, h.closeReturned⟩
  | begun _ hopen => exact h.of_open (ne_of_eq_of_ne hopen nofun) _ _ _ _
  | queued hi | dropped hi => exact h.of_open (h.not_closed_of_mem hi) _ _ _ _
  | received hphase | timer hphase =>
    exact ⟨h.emitting, trivial, fun hret => absurd hret (h.running hphase nofun)⟩
  | kept hphase =>
    refine ⟨h.emitting, ?_, h.closeReturned⟩
    change Settled _ s.phase
    rw [hphase]
    trivial
  | done hphase hclosed =>
    exact ⟨h.emitting, hclosed, fun hret => absurd hret (h.running hphase nofun)⟩
  | drained hphase =>
    refine ⟨h.emitting, ?_, h.closeReturned⟩
    change Settled _ s.phase
    rw [hphase]
    exact h.at hphase
  | emptied hphase hqueue =>
    exact ⟨h.emitting, ⟨h.at hphase, hqueue⟩, fun hret => absurd hret (h.running hphase nofun)⟩
  | @batch after hphase =>
    refine ⟨h.emitting, ?_, h.closeReturned⟩
    rw [hphase]
    cases after <;> exact h.at hphase
  | @proceed after hphase hmust =>
    cases after with
    | received | timer =>
      exact ⟨h.emitting, trivial, fun hret => absurd hret (h.running hphase nofun)⟩
    | closing =>
      obtain ⟨hclosed, hqueue⟩ := h.at hphase
      exact ⟨h.emitting, ⟨hclosed, hqueue, not_mustFlush_closing hmust⟩, fun _ => rfl⟩
  | close _ hidle =>
    refine ⟨fun _ => hidle, ?_, h.closeReturned⟩
    cases hphase : s.phase with
    | select => trivial
    | flushing after =>
      cases after with
      | received | timer => trivial
      | closing => exact ⟨rfl, (h.at hphase).2⟩
    | draining => rfl
    | returned => exact ⟨rfl, (h.at hphase).2⟩
  | closeReturn hphase => exact ⟨h.emitting, h.settled, fun _ => hphase⟩

/-! ### Progress -/

/-- What is left pending while `run` waits has the timer set. -/
def Armed (s : State) : Prop := s.phase = .select → s.pending ≠ [] → s.timerC = true

lemma Armed.step (h : Armed s) (hs : step config targetsByTag s e = some s') : Armed s' := by
  cases moves_of_step hs with
  | kept => exact fun _ _ => rfl
  | received | timer | done | emptied => exact nofun
  | drained hphase | batch hphase => exact fun hp => absurd (hphase.symm.trans hp) nofun
  | @proceed after hphase hmust =>
    cases after with
    | received =>
      intro _ hne
      exact Bool.or_eq_true_iff.mpr (.inr (decide_eq_true (length_pos_iff.mpr hne)))
    | timer =>
      intro _ hne
      exact absurd (.inr ⟨nofun, length_pos_iff.mpr hne⟩) hmust
    | closing => exact nofun
  | _ => exact h

/-- How many more steps `run` takes in a phase at most, receiving nothing. -/
def Phase.work : Phase → ℕ
  | .select => 3
  | .flushing .received => 6
  | .flushing .timer => 4
  | .flushing .closing => 1
  | .draining => 2
  | .returned => 0

/-- How many more steps `run` takes at most if no call queues anything. -/
def State.work (s : State) : ℕ :=
  s.phase.work + 2 * s.timerC.toNat + s.pending.length + s.queue.flatten.length +
    4 * s.queue.length

lemma work_take {item : List Update} (hqueue : s.queue = item :: rest) :
    (s.take item rest).work + 4 = s.work := by
  simp only [State.work, State.take, hqueue, flatten_cons, length_append, length_cons]
  omega

lemma work_proceed {after : After} (hphase : s.phase = .flushing after) :
    (s.proceed after).work < s.work := by
  cases after with simp only [State.work, State.proceed, hphase, Phase.work]
  | received =>
    have htimer := Bool.toNat_le (s.timerC || decide (0 < s.pending.length))
    omega
  | timer | closing => omega

lemma work_step (hrun : e.OfRun) (hs : step config targetsByTag s e = some s') :
    s'.work < s.work := by
  cases moves_of_step hs with
  | nothing | refused | begun | queued | dropped | close | closeReturn => exact hrun.elim
  | received hphase hqueue =>
    rw [← work_take hqueue]
    simp only [State.work, State.take, hphase, Phase.work, Bool.toNat_false]
    omega
  | kept hphase hqueue =>
    rw [← work_take hqueue]
    simp only [State.work, Bool.toNat_true]
    omega
  | timer hphase htimer =>
    simp only [State.work, hphase, htimer, Phase.work, Bool.toNat_true, Bool.toNat_false]
    omega
  | done hphase | emptied hphase =>
    simp only [State.work, hphase, Phase.work, Bool.toNat_false]
    omega
  | drained _ hqueue =>
    rw [← work_take hqueue]
    omega
  | batch _ hmust =>
    have hpos := pos_of_mustFlush hmust
    have hsize := config.batchSize_bounds.1
    simp only [State.work, length_drop]
    omega
  | proceed hphase => exact work_proceed hphase

/-- Where `run` can take no step, it has returned, or waits with nothing queued or pending. -/
lemma idle_of_stuck (harmed : Armed s)
    (hstuck : ∀ e : Event, e.OfRun → step config targetsByTag s e = none) :
    s.phase = .returned ∨ s.phase = .select ∧ s.closed = false ∧ s.queue = [] ∧ s.pending = [] := by
  cases hphase : s.phase with
  | select =>
    have hreceive := hstuck .receive trivial
    have htimer := hstuck .timer trivial
    have hdone := hstuck .done trivial
    simp only [step, hphase, true_and, ite_eq_right_iff, reduceCtorEq, imp_false,
      Bool.not_eq_true] at htimer hdone
    refine .inr ⟨rfl, hdone, ?_, ?_⟩
    · cases hqueue : s.queue with
      | nil => rfl
      | cons item rest =>
        simp only [step, hphase, hqueue] at hreceive
        split_ifs at hreceive
    · by_contra hne
      rw [harmed hphase hne] at htimer
      cases htimer
  | flushing after =>
    have hflush := hstuck .flush trivial
    simp only [step, hphase] at hflush
    split_ifs at hflush
  | draining =>
    have hdrain := hstuck .drain trivial
    cases hqueue : s.queue with simp only [step, hphase, hqueue] at hdrain
    | nil => cases hdrain
    | cons item rest => cases hdrain
  | returned => exact .inl rfl

/-! ### Whole runs -/

structure Inv (config : Config) (s : State) : Prop where
  logged : Logged s
  conserved : Conserved s
  batched : Batched config s
  closes : Closes s
  armed : Armed s

lemma inv_init (config : Config) : Inv config {} where
  logged := ⟨rfl, forall_mem_nil _, forall_mem_nil _⟩
  conserved := rfl
  batched := forall_mem_nil _
  closes := ⟨nofun, trivial, nofun⟩
  armed _ hne := absurd rfl hne

lemma Inv.step (h : Inv config s) (hs : Writer.step config targetsByTag s e = some s') :
    Inv config s' where
  logged := h.logged.step hs
  conserved := h.conserved.step hs
  batched := h.batched.step hs
  closes := h.closes.step hs
  armed := h.armed.step hs

lemma Inv.run (h : Inv config s) {es : List Event}
    (hr : Lib.run (Writer.step config targetsByTag) s es = some t) : Inv config t :=
  run_invariant (fun _ _ _ hI hs => hI.step hs) h hr

lemma Conserved.flushed (h : Conserved s) (hqueue : s.queue = []) (hpending : s.pending = []) :
    s.flushed.flatten = s.accepted.flatten := by
  rw [h, hqueue, hpending, flatten_nil, append_nil, append_nil]

lemma accepted_step_ofRun (hrun : e.OfRun) (hs : step config targetsByTag s e = some s') :
    s'.accepted = s.accepted := by
  cases moves_of_step hs with
  | nothing | refused | begun | queued | dropped | close | closeReturn => exact hrun.elim
  | @proceed after => cases after <;> rfl
  | _ => rfl

/-- The writer has returned, with nothing left, and stays so. -/
def Finished (flushed : List (List Update)) (s : State) : Prop :=
  s.phase = .returned ∧ s.closed = true ∧ s.emitting = [] ∧ s.queue = [] ∧ s.flushed = flushed

lemma Finished.step {flushed : List (List Update)} (h : Finished flushed s)
    (hs : step config targetsByTag s e = some s') : Finished flushed s' := by
  obtain ⟨hphase, hclosed, hemitting, hqueue, hflushed⟩ := h
  cases moves_of_step hs with
  | nothing | refused | closeReturn => exact ⟨hphase, hclosed, hemitting, hqueue, hflushed⟩
  | begun _ hopen | close hopen => exact absurd (hopen.symm.trans hclosed) nofun
  | queued hi | dropped hi =>
    rw [hemitting] at hi
    cases hi
  | received hp | kept hp | timer hp | done hp | drained hp | emptied hp | batch hp
  | proceed hp => exact absurd (hp.symm.trans hphase) nofun

/-- `run` and the timer, left alone, flush all that was accepted; if the writer is closed, `run`
returns. -/
lemma Inv.delivers (h : Inv config s) {fs : List Event} (hrun : ∀ e ∈ fs, e.OfRun)
    (hr : Lib.run (Writer.step config targetsByTag) s fs = some t)
    (hstuck : ∀ e : Event, e.OfRun → Writer.step config targetsByTag t e = none) :
    t.flushed.flatten = s.accepted.flatten ∧ (t.closed = true → t.phase = .returned) := by
  have ht := h.run hr
  have haccepted : t.accepted = s.accepted :=
    run_invariant_of (I := fun u => u.accepted = s.accepted)
      (fun _ _ _ hu he hs => (accepted_step_ofRun he hs).trans hu) rfl hrun hr
  rw [← haccepted]
  rcases idle_of_stuck ht.armed hstuck with hphase | ⟨-, hopen, hqueue, hpending⟩
  · obtain ⟨-, hqueue, hpending⟩ := ht.closes.at hphase
    exact ⟨ht.conserved.flushed hqueue hpending, fun _ => hphase⟩
  · refine ⟨ht.conserved.flushed hqueue hpending, ?_⟩
    intro hclosed
    exact absurd (hopen.symm.trans hclosed) nofun

/-- After `Close` has returned, the queue is empty and nothing more is flushed. -/
lemma Inv.finished (h : Inv config s) (hret : s.closeReturned = true) :
    Finished s.flushed s ∧ s.flushed.flatten = s.accepted.flatten := by
  have hphase := h.closes.closeReturned hret
  obtain ⟨hclosed, hqueue, hpending⟩ := h.closes.at hphase
  exact ⟨⟨hphase, hclosed, h.closes.emitting hclosed, hqueue, rfl⟩,
    h.conserved.flushed hqueue hpending⟩

/-- Along every interleaving, each call of `Emit` that has something to write is queued, counted as
dropped, or finds the writer closed. The accepted updates are passed to `flush` once each, in queue
order and in batches of the configured size: at any time those not flushed yet are pending or in the
queue, and `run` gets to them after a bounded number of its own steps. Once `Close` has returned all
of them have been flushed and nothing is flushed again. -/
theorem emit_delivered (config : Config) (targetsByTag : GoMap String (List SetRef))
    (es : List Event) (s : State) (hr : run (step config targetsByTag) {} es = some s) :
    (s.emits = (es.map (Event.emitted targetsByTag)).sum ∧
      s.dropped = s.calls.countP (·.outcome = .dropped) ∧
      ∀ c ∈ s.calls, c.updates ≠ [] → c.outcome = .queued ∨ c.outcome = .dropped ∨
        c.outcome = .closed ∧ s.closed = true) ∧
    s.accepted.flatten = s.flushed.flatten ++ (s.pending ++ s.queue.flatten) ∧
    (∀ batch ∈ s.flushed, 1 ≤ batch.length ∧ batch.length ≤ config.batchSize) ∧
    (∀ fs t, (∀ e ∈ fs, e.OfRun) → run (step config targetsByTag) s fs = some t →
      fs.length ≤ s.work ∧
      ((∀ e : Event, e.OfRun → step config targetsByTag t e = none) →
        t.flushed.flatten = s.accepted.flatten ∧ (t.closed = true → t.phase = .returned))) ∧
    (s.closeReturned = true → s.flushed.flatten = s.accepted.flatten ∧
      ∀ fs t, run (step config targetsByTag) s fs = some t →
        t.queue = [] ∧ t.flushed = s.flushed) := by
  have h : Inv config s := (inv_init config).run hr
  refine ⟨⟨?_, h.logged.dropped, ?_⟩, h.conserved, h.batched, ?_, ?_⟩
  · exact (run_total (fun _ _ _ hs => emits_step hs) hr).trans (zero_add _)
  · intro c hc hne
    cases houtcome : c.outcome with
    | nothing => exact absurd (h.logged.nothing c hc houtcome) hne
    | closed => exact .inr (.inr ⟨rfl, h.logged.closed c hc houtcome⟩)
    | queued => exact .inl rfl
    | dropped => exact .inr (.inl rfl)
  · intro fs t hrun hfs
    refine ⟨?_, h.delivers hrun hfs⟩
    exact run_length_le (I := fun _ => True) (fun _ _ _ _ _ => trivial)
      (fun _ _ _ _ he hs => work_step he hs) trivial hrun hfs
  · intro hret
    obtain ⟨hfinished, hflushed⟩ := h.finished hret
    refine ⟨hflushed, ?_⟩
    intro fs t hfs
    obtain ⟨-, -, -, hqueue, ht⟩ := run_invariant (fun _ _ _ hI hs => hI.step hs) hfinished hfs
    exact ⟨hqueue, ht⟩

def smallConfig : Config where
  queueSize := 1
  batchSize := 2
  queueSize_bounds := by decide
  batchSize_bounds := by decide

def directSet : SetRef where
  family := .ip
  table := ⟨ascii "filter", by decide⟩
  name := ⟨ascii "direct", by decide⟩
  ipVersion := .v4
  compatible := by decide

def directTargets : GoMap String (List SetRef) :=
  (∅ : GoMap String (List SetRef)).insert "local" [directSet]

def threeAddresses (serverTag : String) : Result where
  ips := [[10, 0, 0, 1], [10, 0, 0, 2], [10, 0, 0, 3]]
  ttl := 60
  serverTag := serverTag

/-- Two calls race with `Close`; the queue has room for one of them. -/
def racing : List Event :=
  [.emit (threeAddresses "local"), .emit (threeAddresses "local"), .offer 1, .offer 0, .close,
    .emit (threeAddresses "local"), .receive, .flush, .flush, .done, .drain, .flush, .flush,
    .closeReturn]

theorem emit_delivered_racing :
    ∃ s, run (step smallConfig directTargets) {} racing = some s ∧ s.closeReturned = true ∧
      s.dropped = 1 ∧ s.flushed.map List.length = [2, 1] ∧ s.flushed.flatten = s.accepted.flatten :=
  ⟨_, rfl, rfl, by decide, by decide,
    ((emit_delivered smallConfig directTargets racing _ rfl).2.2.2.2 rfl).1⟩

/-- An answer of a server without sets is not accepted, and not counted as dropped either, while the
writer is open. -/
theorem emit_not_counted : ¬ ∀ (config : Config) (targetsByTag : GoMap String (List SetRef))
    (es : List Event) (s : State), run (step config targetsByTag) {} es = some s →
      s.closed = false → s.emitting = [] → s.calls.length = s.accepted.length + s.dropped := by
  intro h
  have hr : run (step smallConfig directTargets) {} [.emit (threeAddresses "remote")] =
      some (({} : State).finish [] .nothing) := rfl
  exact absurd (h smallConfig directTargets _ _ hr rfl rfl) (by decide)

/-! ### The length that `Status` reports -/

/-- The writer and the counter `queued`, which is changed after the channel operation: `sent` calls
of `Emit` have still to add to it, and after a receive `run` has still to subtract. -/
structure Counted where
  writer : State := {}
  queued : ℤ := 0
  sent : ℕ := 0
  taken : Bool := false

/-- The lock is held by a call that has sent, and `run` does nothing else after a receive. -/
def Counted.blocked (c : Counted) : Event → Bool
  | .emit _ | .offer _ | .closeReturn => false
  | .close => 0 < c.sent
  | .receive | .timer | .done | .drain | .flush => c.taken

inductive CountedEvent where
  | writer (e : Event)
  | add
  | subtract

def countedStep (config : Config) (targetsByTag : GoMap String (List SetRef)) (c : Counted) :
    CountedEvent → Option Counted
  | .writer e =>
    if c.blocked e then none
    else (step config targetsByTag c.writer e).map fun s =>
      let (before, after) := (c.writer.queue.length, s.queue.length)
      { c with writer := s, sent := c.sent + (after - before), taken := c.taken || after < before }
  | .add => if 0 < c.sent then some { c with queued := c.queued + 1, sent := c.sent - 1 } else none
  | .subtract => if c.taken then some { c with queued := c.queued - 1, taken := false } else none

/-- Only a step of `run` shortens the queue, and by one item. -/
lemma length_queue_step {c : Counted} (h : step config targetsByTag s e = some s')
    (hb : c.blocked e = false) : s.queue.length ≤ s'.queue.length ∨
      s.queue.length = s'.queue.length + 1 ∧ c.taken = false := by
  cases moves_of_step h with
  | received _ hq | kept _ hq | drained _ hq => exact .inr ⟨by simp [State.take, hq], hb⟩
  | proceed => exact .inl (by cases ‹After› <;> simp [State.proceed])
  | _ => exact .inl (by simp [State.finish])

lemma queued_eq {es : List CountedEvent} {c : Counted}
    (h : run (countedStep config targetsByTag) {} es = some c) :
    c.queued = c.writer.queue.length + c.taken.toNat - c.sent := by
  refine run_invariant
    (I := fun c : Counted => c.queued = c.writer.queue.length + c.taken.toNat - c.sent) ?_ rfl h
  intro c e c' hc hs
  cases e with simp only [countedStep] at hs
  | writer e =>
    split_ifs at hs with hb
    obtain ⟨s, hstep, rfl⟩ := Option.map_eq_some_iff.mp hs
    rcases length_queue_step hstep (Bool.not_eq_true _ ▸ hb) with hle | ⟨hlen, htaken⟩
    · simp only [not_lt.mpr hle, decide_false, Bool.or_false]
      omega
    · simp only [hc, htaken, hlen]
      simp
  | add =>
    split_ifs at hs with hsent
    cases hs
    simp only [hc]
    omega
  | subtract =>
    split_ifs at hs with htaken
    cases hs
    simp only [hc, htaken, Bool.toNat_true, Bool.toNat_false]
    omega

/-- What is reported is a length that the queue can have unless the calls that have still to add, or
the receive that has still to be subtracted, outweigh what is queued. -/
theorem queued_within_iff (config : Config) (targetsByTag : GoMap String (List SetRef))
    (es : List CountedEvent) (c : Counted)
    (h : run (countedStep config targetsByTag) {} es = some c) :
    (0 ≤ c.queued ∧ c.queued ≤ config.queueSize ↔
      c.sent ≤ c.writer.queue.length + c.taken.toNat ∧
        c.writer.queue.length + c.taken.toNat ≤ config.queueSize + c.sent) ∧
      (c.sent = 0 → c.taken = false → c.queued = c.writer.queue.length) := by
  have hq := queued_eq h
  refine ⟨?_, ?_⟩
  · omega
  · rintro hsent htaken
    simp [hq, hsent, htaken]

def sending : List CountedEvent :=
  [.writer (.emit (threeAddresses "local")), .writer (.offer 0)]

theorem queued_within_iff_idle :
    ∃ c, run (countedStep smallConfig directTargets) {} (sending ++ [.add]) = some c ∧
      c.queued = c.writer.queue.length :=
  ⟨_, rfl, (queued_within_iff smallConfig directTargets (sending ++ [.add]) _ rfl).2 rfl rfl⟩

/-- The item is received, and the receive subtracted, before its `Emit` has added it. -/
theorem queued_negative :
    ∃ c, run (countedStep smallConfig directTargets) {}
        (sending ++ [.writer .receive, .subtract]) = some c ∧ c.queued = -1 :=
  ⟨_, rfl, rfl⟩

end BypassCore.DNSNFTSet.Writer
