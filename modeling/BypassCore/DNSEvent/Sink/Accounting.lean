import BypassCore.DNSEvent.Sink.Basic

/-!
# The accounts of the event sink

Two quantities are conserved: the counter of queued bytes is what the queue and the threads hold,
and every event is in the hands of a thread, in the queue, or counted. Once the sink is closed no
thread is about to send, so a `Close` that has found the queue empty leaves it empty.
-/

namespace BypassCore.DNSEvent

open Lib Threads List Multiset Thread Sink Config

variable {config : Config} {marshal : Event → Option (List UInt8)} {threads : List Thread}
  {s s' : Sink} {t t' : Thread} {c c' : State} {a : Action}

/-- The bytes that a call of `EmitEvent` has reserved and neither queued nor given back. -/
def Thread.reserved : Thread → ℤ
  | .locking item | .offering item | .releasing item => item.size
  | _ => 0

def Thread.taken : Thread → ℤ
  | .received item | .drained item => item.size
  | _ => 0

def Thread.held (t : Thread) : ℤ := t.reserved + t.taken

def Sink.excess (s : Sink) : ℤ := s.queueBytes - s.queued

variable {item : Item}

lemma queueBytes_cons {rest : List Item} (h : s.queue = item :: rest) :
    s.queueBytes = item.size + ({ s with queue := rest } : Sink).queueBytes := by
  rw [queueBytes, h, List.map_cons]
  rfl

lemma queueBytes_concat (s : Sink) (item : Item) :
    ({ s with queue := s.queue ++ [item] } : Sink).queueBytes = s.queueBytes + item.size := by
  rw [queueBytes, map_append, sum_append, List.map_singleton]
  rfl

lemma excess_moves (h : Moves config threads s t s' t') :
    s'.excess + t'.held = s.excess + t.held := by
  cases h with
  | swaps | releases | subtracts | discounts =>
    simp only [excess, queueBytes, held, reserved, taken]
    omega
  | sends =>
    simp only [excess, queueBytes_concat, held, reserved, taken]
    omega
  | receives h | drains h =>
    simp only [excess, queueBytes_cons h, held, reserved, taken]
    omega
  | stops ht => rcases ht with rfl | rfl <;> rfl
  | drops | fails | discards =>
    rfl
  | writes =>
    rfl
  | _ => rfl

def Thread.carried : Thread → Multiset Event
  | .reserving item | .swapping item _ | .locking item | .offering item | .releasing item
  | .received item | .writing item | .drained item => {item.event}
  | .dropping event _ | .failing event | .discarding event => {event}
  | .emitted | .polling | .selecting | .stopped | .closing | .waiting | .draining | .closed => 0

def Sink.events (s : Sink) : Multiset Event :=
  ↑(s.counted.map Prod.fst) + ↑(s.queue.map Item.event)

@[simp] lemma events_count (s : Sink) (event : Event) (outcome : Outcome) :
    (s.count event outcome).events = s.events + {event} := by
  have h : (s.count event outcome).events =
      ↑(s.counted.map Prod.fst ++ [event]) + ↑(s.queue.map Item.event) := by
    cases outcome <;> simp [Sink.events, Sink.count]
  rw [h, ← coe_add, coe_singleton, events, add_right_comm]

lemma events_cons {rest : List Item} (h : s.queue = item :: rest) :
    s.events = ({ s with queue := rest } : Sink).events + {item.event} := by
  rw [events, h, List.map_cons, ← cons_coe, ← singleton_add,
    Multiset.add_comm {item.event}, ← add_assoc]
  rfl

lemma events_concat (s : Sink) (item : Item) :
    ({ s with queue := s.queue ++ [item] } : Sink).events = s.events + {item.event} := by
  rw [events, map_append, ← coe_add, List.map_singleton, ← add_assoc]
  rfl

lemma events_moves (h : Moves config threads s t s' t') :
    s'.events + t'.carried = s.events + t.carried := by
  cases h with
  | drops | fails | discards | writes =>
    rw [events_count]
    exact add_zero _
  | sends =>
    rw [events_concat]
    exact add_zero _
  | receives h | drains h =>
    rw [events_cons h]
    exact (add_zero _).symm
  | stops ht => rcases ht with rfl | rfl <;> rfl
  | _ => rfl

lemma emitEvent_cases (config : Config) (marshal : Event → Option (List UInt8)) (s : Sink)
    (event : Event) :
    emitEvent config marshal s event = .dropping event false ∨
      ∃ payload, emitEvent config marshal s event = .reserving ⟨event, payload⟩ := by
  unfold emitEvent
  split
  · exact .inl rfl
  · split_ifs
    · exact .inl rfl
    · exact .inr ⟨_, rfl⟩

lemma carried_emitEvent (config : Config) (marshal : Event → Option (List UInt8)) (s : Sink)
    (event : Event) : (emitEvent config marshal s event).carried = {event} := by
  rcases emitEvent_cases config marshal s event with h | ⟨payload, h⟩ <;> rw [h] <;> rfl

def Action.started : Action → Multiset Event
  | .emitEvent event => {event}
  | .close | .advance _ _ => 0

def events (c : State) : Multiset Event := c.shared.events + total carried c.threads

lemma events_step (h : step config marshal c a = some c') : events c' = events c + a.started := by
  cases a with
  | emitEvent event =>
    cases h
    rw [events, spawn, total_concat, carried_emitEvent, ← add_assoc]
    rfl
  | close =>
    cases h
    rw [events, spawn, total_concat, ← add_assoc]
    rfl
  | advance i choice =>
    obtain ⟨t, s', t', hi, hexec, rfl⟩ := advance_eq_some h
    have h := conserved_set Sink.events hi (events_moves (moves_of_exec hexec))
    exact h.trans (add_zero _).symm

/-! ### The queue after `Close` -/

def Quiet (threads : List Thread) : Prop := ∀ u ∈ threads, ¬ u.Running

def Thread.Sound (config : Config) (threads : List Thread) (s : Sink) : Thread → Prop
  | .swapping item queued => queued + item.size ≤ config.maxQueueBytes
  | .offering _ => s.closed = false
  | .stopped | .waiting => s.closed = true
  | .draining | .drained _ | .discarding _ => s.closed = true ∧ Quiet threads
  | .closed => s.closed = true ∧ Quiet threads ∧ s.queue = []
  | _ => True

lemma running_moves (h : Moves config threads s t s' t') (ht' : t'.Running) : t.Running := by
  cases h with
  | polled | receives | subtracts | writes | breaks | fails => trivial
  | _ => exact ht'.elim

variable {i : ℕ}

lemma Quiet.set (h : Quiet threads) (hm : Moves config threads s t s' t')
    (hi : threads[i]? = some t) : Quiet (threads.set i t') := by
  refine forall_mem_set h (fun _ _ hu => hu) ?_ i
  intro ht'
  exact h t (mem_of_getElem? hi) (running_moves hm ht')

@[simp] lemma queue_count (s : Sink) (event : Event) (outcome : Outcome) :
    (s.count event outcome).queue = s.queue := by
  cases outcome <;> rfl

@[simp] lemma queued_count (s : Sink) (event : Event) (outcome : Outcome) :
    (s.count event outcome).queued = s.queued := by
  cases outcome <;> rfl

section

variable (h : Moves config threads s t s' t')
include h

lemma closed_moves (hclosed : s.closed = true) : s'.closed = true := by
  cases h with
  | locks => rfl
  | drops | writes | fails | discards =>
    exact hclosed
  | _ => exact hclosed

/-- The sink is closed only while no thread is about to send. -/
lemma open_moves (hu : .offering item ∈ threads) (hopen : s.closed = false) :
    s'.closed = false := by
  cases h with
  | locks hfree => exact absurd trivial (hfree _ hu)
  | drops | writes | fails | discards =>
    exact hopen
  | _ => exact hopen

lemma queue_moves (ht : t.Sound config threads s) (hclosed : s.closed = true)
    (hqueue : s.queue = []) : s'.queue = [] := by
  cases h with
  | sends => exact absurd (hclosed.symm.trans ht) nofun
  | receives h | drains h => exact absurd (hqueue.symm.trans h) nofun
  | drops | writes | fails | discards =>
    exact hqueue
  | _ => exact hqueue

end

lemma Thread.Sound.kept (ht : t.Sound config threads s) (hm : Moves config threads s t s' t')
    (hi : threads[i]? = some t) {u : Thread} (hmem : u ∈ threads)
    (hu : u.Sound config threads s) : u.Sound config (threads.set i t') s' := by
  cases u with
  | swapping item queued => exact hu
  | offering item => exact open_moves hm hmem hu
  | stopped | waiting => exact closed_moves hm hu
  | draining | drained | discarding => exact ⟨closed_moves hm hu.1, hu.2.set hm hi⟩
  | closed => exact ⟨closed_moves hm hu.1, hu.2.1.set hm hi, queue_moves hm ht hu.1 hu.2.2⟩
  | _ => trivial

lemma Thread.Sound.own (ht : t.Sound config threads s) (hm : Moves config threads s t s' t')
    (hi : threads[i]? = some t) : t'.Sound config (threads.set i t') s' := by
  have hset : Quiet threads → Quiet (threads.set i t') := fun h => h.set hm hi
  cases hm with
  | loads h | admitted h => exact h
  | stops _ h => exact h
  | locks => rfl
  | waits h => exact ⟨ht, hset h⟩
  | drains => exact ⟨ht.1, hset ht.2⟩
  | closes h => exact ⟨ht.1, hset ht.2, h⟩
  | discounts => exact ⟨ht.1, hset ht.2⟩
  | discards =>
    exact ⟨ht.1, hset ht.2⟩
  | _ => trivial

/-! ### The invariant -/

/-- A call of `Close` that has closed the sink. -/
def Thread.Closer : Thread → Prop
  | .waiting | .draining | .drained _ | .discarding _ | .closed => True
  | _ => False

lemma closer_moves (h : Moves config threads s t s' t') (ht : t.Closer) : t'.Closer := by
  cases h with
  | waits | drains | closes | discounts | discards => trivial
  | stops h => rcases h with rfl | rfl <;> exact ht.elim
  | _ => exact ht.elim

def Sink.Counts (s : Sink) : Prop := s.dropped = s.counted.countP (·.2 = .dropped)

lemma Sink.Counts.count (h : s.Counts) (event : Event) (outcome : Outcome) :
    (s.count event outcome).Counts := by
  cases outcome <;> simpa [Sink.Counts, Sink.count] using h

lemma counts_moves (h : Moves config threads s t s' t') (hs : s.Counts) : s'.Counts := by
  cases h with
  | drops | fails | discards => exact hs.count _ _
  | @writes item => exact Sink.Counts.count (s := { s with conn := true }) hs item.event .sent
  | _ => exact hs

/-- A step that leaves the sink closed found it closed, or is that of `Close`. -/
lemma closed_or_closer (h : Moves config threads s t s' t') (hclosed : s'.closed = true) :
    s.closed = true ∨ t'.Closer := by
  cases h with
  | locks => exact .inr trivial
  | drops | writes | fails | discards =>
    exact .inl hclosed
  | _ => exact .inl hclosed

def Thread.Sender (t : Thread) : Prop := t.Running ∨ t = .stopped

lemma sender_moves (h : Moves config threads s t s' t') (ht : t.Sender) : t'.Sender := by
  cases h with
  | polled | receives | subtracts | writes | breaks | fails => exact .inl trivial
  | stops => exact .inr rfl
  | _ => exact ht.elim False.elim nofun

structure Inv (config : Config) (c : State) : Prop where
  excess : c.shared.excess + total held c.threads = 0
  queued_le : c.shared.queued ≤ config.maxQueueBytes
  counts : c.shared.Counts
  sound : ∀ t ∈ c.threads, t.Sound config c.threads c.shared
  closer : c.shared.closed = true → ∃ t ∈ c.threads, t.Closer
  sender : ∃ t ∈ c.threads, t.Sender

lemma inv_initial (config : Config) : Inv config initial where
  excess := rfl
  queued_le := Int.natCast_nonneg _
  counts := rfl
  sound := forall_mem_singleton.mpr trivial
  closer := nofun
  sender := ⟨.polling, List.mem_singleton_self _, .inl trivial⟩

lemma queued_moves (h : Moves config threads s t s' t') (ht : t.Sound config threads s)
    (hs : s.queued ≤ config.maxQueueBytes) : s'.queued ≤ config.maxQueueBytes := by
  cases h with
  | swaps => exact ht
  | @releases item | @subtracts item | @discounts item =>
    have hsize : 0 ≤ item.size := Int.natCast_nonneg _
    simp only
    omega
  | _ => exact hs

lemma Inv.advance (h : Inv config c) (hi : c.threads[i]? = some t)
    (hm : Moves config c.threads c.shared t s' t') :
    Inv config ⟨s', c.threads.set i t'⟩ where
  excess := (conserved_set Sink.excess hi (excess_moves hm)).trans h.excess
  queued_le := queued_moves hm (h.sound t (mem_of_getElem? hi)) h.queued_le
  counts := counts_moves hm h.counts
  sound := by
    have ht := h.sound t (mem_of_getElem? hi)
    exact forall_mem_set h.sound (fun _ hu => ht.kept hm hi hu) (ht.own hm hi) i
  closer := by
    intro hclosed
    rcases closed_or_closer hm hclosed with hclosed | ht'
    · exact exists_mem_set hi (h.closer hclosed) (closer_moves hm)
    · exact ⟨t', mem_set_self hi t', ht'⟩
  sender := exists_mem_set hi h.sender (sender_moves hm)

lemma Thread.Sound.mono (h : t.Sound config threads s) {threads' : List Thread}
    (hquiet : Quiet threads → Quiet threads') : t.Sound config threads' s := by
  cases t with
  | draining | drained | discarding => exact ⟨h.1, hquiet h.2⟩
  | closed => exact ⟨h.1, hquiet h.2.1, h.2.2⟩
  | swapping | offering | stopped | waiting => exact h
  | _ => trivial

lemma Inv.spawn (h : Inv config c) (hheld : t.held = 0) (hrunning : ¬ t.Running)
    (hsound : t.Sound config (c.threads ++ [t]) c.shared) : Inv config (c.spawn t) where
  excess := by
    rw [Config.spawn, total_concat, hheld, add_zero]
    exact h.excess
  queued_le := h.queued_le
  counts := h.counts
  sound := by
    have hquiet : Quiet c.threads → Quiet (c.threads ++ [t]) :=
      fun h => forall_mem_concat h hrunning
    exact forall_mem_concat (fun u hu => Thread.Sound.mono (h.sound u hu) hquiet) hsound
  closer := by
    intro hclosed
    obtain ⟨u, hu, hcloser⟩ := h.closer hclosed
    exact ⟨u, mem_append_left _ hu, hcloser⟩
  sender := by
    obtain ⟨u, hu, hsender⟩ := h.sender
    exact ⟨u, mem_append_left _ hu, hsender⟩

lemma Inv.step (h : Inv config c) (hs : DNSEvent.step config marshal c a = some c') :
    Inv config c' := by
  cases a with
  | emitEvent event =>
    cases hs
    rcases emitEvent_cases config marshal c.shared event with he | ⟨payload, he⟩
    · rw [he]
      exact h.spawn rfl id trivial
    · rw [he]
      exact h.spawn rfl id trivial
  | close =>
    cases hs
    exact h.spawn rfl id trivial
  | advance i choice =>
    obtain ⟨t, s', t', hi, hexec, rfl⟩ := advance_eq_some hs
    exact h.advance hi (moves_of_exec hexec)

lemma Inv.run (h : Inv config c) {as : List Action}
    (hr : Lib.run (DNSEvent.step config marshal) c as = some c') : Inv config c' :=
  run_invariant (fun _ _ _ hI hs => hI.step hs) h hr

/-!
## Every event is counted once

The threads alone take a bounded number of steps: a compare-and-swap that fails is paid for by the
change of the counter that made it fail. Where no thread can take a step, no event is queued or in
the hands of a thread.
-/

/-- Where no thread can take a step, none has an event in its hands. -/
lemma carried_of_stuck (hstuck : ∀ choice, exec config threads s t choice = none) :
    t.carried = 0 := by
  have h := hstuck {}
  cases t with
  | reserving | swapping | locking | offering | writing =>
    simp only [exec] at h
    split_ifs at h
  | releasing | dropping | received | failing | drained | discarding => cases h
  | emitted | polling | selecting | stopped | closing | waiting | draining | closed => rfl

/-- A sender that can take no step waits for the queue. -/
lemma running_of_stuck (ht : t.Running) (hstuck : ∀ choice, exec config threads s t choice = none) :
    s.closed = false ∧ s.queue = [] := by
  cases t with
  | polling | writing =>
    have h := hstuck {}
    simp only [exec] at h
    split_ifs at h
  | selecting =>
    have hdone := hstuck { done := true }
    have hqueue := hstuck {}
    simp only [exec, if_true, ite_eq_right_iff, reduceCtorEq, imp_false, Bool.not_eq_true] at hdone
    simp only [exec] at hqueue
    refine ⟨hdone, ?_⟩
    cases hs : s.queue with
    | nil => rfl
    | cons item rest =>
      rw [hs] at hqueue
      cases hqueue
  | received | failing => exact absurd (hstuck {}) (Option.some_ne_none _)
  | _ => exact ht.elim

/-- A call of `Close` that can take no step has returned or waits for the sender. -/
lemma closer_of_stuck (ht : t.Closer) (hstuck : ∀ choice, exec config threads s t choice = none) :
    t = .closed ∨ ∃ u ∈ threads, u.Running := by
  have h := hstuck {}
  cases t with
  | waiting =>
    simp only [exec, ite_eq_left_iff, reduceCtorEq, imp_false, not_not] at h
    exact .inr h
  | draining =>
    simp only [exec] at h
    split at h <;> cases h
  | drained | discarding => cases h
  | closed => exact .inl rfl
  | _ => exact ht.elim

/-- Where no thread can take a step, the queue is empty. -/
lemma Inv.queue_of_stuck (h : Inv config c)
    (hstuck : ∀ i choice, c.advance (exec config) i choice = none) : c.shared.queue = [] := by
  have hexec : ∀ t ∈ c.threads, ∀ choice, exec config c.threads c.shared t choice = none :=
    fun t ht choice => exec_eq_none hstuck ht choice
  obtain ⟨u, hu, hrunning | rfl⟩ := h.sender
  · exact (running_of_stuck hrunning (hexec u hu)).2
  · have hclosed : c.shared.closed = true := h.sound _ hu
    obtain ⟨v, hv, hcloser⟩ := h.closer hclosed
    rcases closer_of_stuck hcloser (hexec v hv) with rfl | ⟨w, hw, hrunning⟩
    · exact (h.sound _ hv).2.2
    · have hopen := (running_of_stuck hrunning (hexec w hw)).1
      exact absurd (hopen.symm.trans hclosed) nofun

/-! ### How many steps they take -/

/-- How many more steps a thread takes at most, receiving nothing, if the counter stays. -/
def Thread.work (queued : ℤ) : Thread → ℕ
  | .emitted | .stopped | .closed => 0
  | .dropping _ _ | .selecting | .draining => 1
  | .releasing _ | .polling | .discarding _ | .waiting => 2
  | .failing _ | .drained _ | .closing => 3
  | .writing _ => 4
  | .received _ => 5
  | .offering _ => 6
  | .locking _ => 7
  | .swapping _ loaded => if loaded = queued then 8 else 10
  | .reserving _ => 9

/-- How often the counter changes at most on account of a thread. -/
def Thread.changes : Thread → ℕ
  | .reserving _ | .swapping _ _ => 2
  | .locking _ | .offering _ | .releasing _ | .received _ | .drained _ => 1
  | _ => 0

lemma work_le (t : Thread) (queued queued' : ℤ) : t.work queued' ≤ t.work queued + 2 := by
  cases t with
  | swapping item loaded =>
    simp only [work]
    split_ifs <;> omega
  | _ => exact Nat.le_add_right _ _

/-- A step takes work off, and changes the counter only if it counts as a change. -/
lemma work_moves (h : Moves config threads s t s' t') :
    t'.work s'.queued + 5 * s'.queue.length < t.work s.queued + 5 * s.queue.length ∧
      (s'.queued = s.queued ∧
          t'.changes + s'.queue.length ≤ t.changes + s.queue.length ∨
        t'.changes + s'.queue.length + 1 ≤ t.changes + s.queue.length) := by
  cases h with
  | loads | swaps | exceeds | refused | admitted | full | releases | polled | subtracts | breaks
  | locks | waits | closes | discounts =>
    simp only [work, changes, if_true, true_and]
    omega
  | retries h =>
    simp only [work, changes, if_neg h.symm, true_and]
    omega
  | stops ht =>
    rcases ht with rfl | rfl <;> simp only [work, changes, true_and] <;> omega
  | sends =>
    simp only [work, changes, length_append, length_singleton, true_and]
    omega
  | receives h | drains h =>
    simp only [work, changes, h, length_cons, true_and]
    omega
  | drops | writes | fails | discards =>
    simp only [work, changes, queued_count, queue_count, true_and]
    omega

/-- How often the counter still changes at most. -/
def changes (c : State) : ℕ := total Thread.changes c.threads + c.shared.queue.length

/-- How many more steps the threads take at most: each change of the counter can cost every thread
two more steps. -/
def work (c : State) : ℕ :=
  total (Thread.work c.shared.queued) c.threads + 5 * c.shared.queue.length +
    2 * c.threads.length * changes c

def Action.OfThread : Action → Prop
  | .advance _ _ => True
  | .emitEvent _ | .close => False

lemma work_step (ha : a.OfThread) (hs : step config marshal c a = some c') : work c' < work c := by
  cases a with
  | emitEvent | close => exact ha.elim
  | advance i choice =>
    obtain ⟨t, s', t', hi, hexec, rfl⟩ := advance_eq_some hs
    obtain ⟨hwork, hchanges⟩ := work_moves (moves_of_exec hexec)
    have hlen : (c.threads.eraseIdx i).length + 1 = c.threads.length :=
      length_eraseIdx_add_one (List.getElem?_eq_some_iff.mp hi).1
    have htotal : changes ⟨s', c.threads.set i t'⟩ + (t.changes + c.shared.queue.length) =
        changes c + (t'.changes + s'.queue.length) := by
      simp only [changes, total_set hi, total_pick hi]
      omega
    simp only [work, total_set hi, total_pick hi, length_set]
    rcases hchanges with ⟨hqueued, hchanges⟩ | hchanges
    · -- The counter stays, and so does the work of the other threads.
      rw [hqueued] at hwork ⊢
      have hle : changes ⟨s', c.threads.set i t'⟩ ≤ changes c := by omega
      have hmul := Nat.mul_le_mul_left (2 * c.threads.length) hle
      omega
    · have hothers : total (Thread.work s'.queued) (c.threads.eraseIdx i) ≤
          total (Thread.work c.shared.queued) (c.threads.eraseIdx i) +
            2 * (c.threads.eraseIdx i).length := total_le_add fun u _ => work_le u _ _
      have hle : changes ⟨s', c.threads.set i t'⟩ + 1 ≤ changes c := by omega
      have hmul := Nat.mul_le_mul_left (2 * c.threads.length) hle
      rw [Nat.mul_succ] at hmul
      omega

/-! ### Whole runs -/

lemma reserved_nonneg (t : Thread) : 0 ≤ t.reserved := by
  cases t <;> exact Int.natCast_nonneg _

lemma taken_nonneg (t : Thread) : 0 ≤ t.taken := by
  cases t <;> exact Int.natCast_nonneg _

lemma queueBytes_nonneg (s : Sink) : 0 ≤ s.queueBytes := by
  unfold queueBytes
  induction s.queue with
  | nil => exact le_rfl
  | cons item rest ih =>
    exact Int.add_nonneg (Int.natCast_nonneg _) ih

/-- The counter is what the queue holds and what the threads answer for. -/
lemma Inv.queued_eq (h : Inv config c) : c.shared.queued =
    c.shared.queueBytes + total reserved c.threads + total taken c.threads := by
  have hexcess := h.excess
  have hheld : total held c.threads =
      total reserved c.threads + total taken c.threads := total_add _ _ _
  rw [Sink.excess] at hexcess
  omega

lemma Inv.queued_nonneg (h : Inv config c) : 0 ≤ c.shared.queued := by
  have hqueue := queueBytes_nonneg c.shared
  have hreserved := total_nonneg fun t (_ : t ∈ c.threads) => reserved_nonneg t
  have htaken := total_nonneg fun t (_ : t ∈ c.threads) => taken_nonneg t
  rw [h.queued_eq]
  omega

lemma reserved_of_not_emitting (h : ¬ t.Emitting) : t.reserved = 0 := by
  cases t with
  | locking | offering | releasing => exact absurd trivial h
  | _ => rfl

lemma taken_of_quiet (hrunning : ¬ t.Running) (hclosing : ¬ t.Closing) : t.taken = 0 := by
  cases t with
  | received => exact absurd trivial hrunning
  | drained => exact absurd trivial hclosing
  | _ => rfl

lemma carried_of_done (hemitting : ¬ t.Emitting) (hrunning : ¬ t.Running) (hclosing : ¬ t.Closing) :
    t.carried = 0 := by
  cases t with
  | reserving | swapping | locking | offering | releasing | dropping =>
    exact absurd trivial hemitting
  | received | writing | failing => exact absurd trivial hrunning
  | drained | discarding => exact absurd trivial hclosing
  | emitted | polling | selecting | stopped | closing | waiting | draining | closed => rfl

lemma counted_of_idle (hqueue : c.shared.queue = []) (hcarried : ∀ t ∈ c.threads, t.carried = 0) :
    ↑(c.shared.counted.map Prod.fst) = events c := by
  rw [events, Sink.events, hqueue, total_eq_zero hcarried, add_zero]
  exact (add_zero _).symm

lemma events_run_ofThread {bs : List Action} (hbs : ∀ a ∈ bs, a.OfThread)
    (hr : run (step config marshal) c bs = some c') : events c' = events c := by
  have hstarted : (bs.map Action.started).sum = 0 := by
    refine sum_eq_zero ?_
    intro m hm
    obtain ⟨a, ha, rfl⟩ := mem_map.mp hm
    cases a with
    | emitEvent | close => exact (hbs _ ha).elim
    | advance => rfl
  rw [run_total (fun _ _ _ hs => events_step hs) hr, hstarted, add_zero]

/-- Along every interleaving of calls of `EmitEvent`, the sender and calls of `Close`, the counter
of queued bytes is within its bounds and is what the queue holds, what calls have reserved, and the
payloads between a receive and its decrement. Every event is counted at most once, as sent or as
dropped; the threads stop after a bounded number of steps, and then every event has been counted.
Once a `Close` has returned and no call of `EmitEvent` is under way the queue is empty, and once no
other `Close` is under way either the counter is zero and every event has been counted. -/
theorem emitEvent_accounted (config : Config) (marshal : Event → Option (List UInt8))
    (as : List Action) (c : State) (hr : run (step config marshal) initial as = some c) :
    (0 ≤ c.shared.queued ∧ c.shared.queued ≤ config.maxQueueBytes ∧
      c.shared.queued = c.shared.queueBytes + total reserved c.threads +
        total taken c.threads) ∧
    (c.shared.dropped = c.shared.counted.countP (·.2 = .dropped) ∧
      ↑(c.shared.counted.map Prod.fst) + ↑(c.shared.queue.map Item.event) +
        total carried c.threads = (as.map Action.started).sum) ∧
    (∀ bs d, (∀ a ∈ bs, a.OfThread) → run (step config marshal) c bs = some d →
      bs.length ≤ work c ∧
      ((∀ a : Action, a.OfThread → step config marshal d a = none) →
        ↑(d.shared.counted.map Prod.fst) = (as.map Action.started).sum)) ∧
    (.closed ∈ c.threads → (∀ t ∈ c.threads, ¬ t.Emitting) →
      c.shared.queue = [] ∧ c.shared.queued = total taken c.threads ∧
      ((∀ t ∈ c.threads, ¬ t.Closing) →
        c.shared.queued = 0 ∧ ↑(c.shared.counted.map Prod.fst) = (as.map Action.started).sum)) := by
  have h : Inv config c := (inv_initial config).run hr
  have hevents : events c = (as.map Action.started).sum :=
    (run_total (fun _ _ _ hs => events_step hs) hr).trans (zero_add _)
  refine ⟨⟨h.queued_nonneg, h.queued_le, h.queued_eq⟩, ⟨h.counts, hevents⟩, ?_, ?_⟩
  · intro bs d hbs hd
    refine ⟨?_, ?_⟩
    · exact run_length_le (I := fun _ => True) (fun _ _ _ _ _ => trivial)
        (fun _ _ _ _ ha hs => work_step ha hs) trivial hbs hd
    · intro hstuck
      have hadvance : ∀ i choice, d.advance (exec config) i choice = none :=
        fun i choice => hstuck (.advance i choice) trivial
      have hcarried : ∀ t ∈ d.threads, t.carried = 0 :=
        fun t ht => carried_of_stuck (exec_eq_none hadvance ht)
      rw [counted_of_idle ((h.run hd).queue_of_stuck hadvance) hcarried, ← hevents]
      exact events_run_ofThread hbs hd
  · intro hclosed hemitting
    obtain ⟨-, hquiet, hqueue⟩ := h.sound _ hclosed
    have hqueued : c.shared.queued = total taken c.threads := by
      rw [h.queued_eq, total_eq_zero fun t ht => reserved_of_not_emitting (hemitting t ht),
        queueBytes, hqueue]
      simp
    refine ⟨hqueue, hqueued, ?_⟩
    intro hclosing
    rw [hqueued, ← hevents]
    refine ⟨total_eq_zero fun t ht => taken_of_quiet (hquiet t ht) (hclosing t ht), ?_⟩
    exact counted_of_idle hqueue
      fun t ht => carried_of_done (hemitting t ht) (hquiet t ht) (hclosing t ht)

def smallConfig : Config where
  queueSize := 2
  maxDatagramBytes := 512
  maxQueueBytes := 512
  queueSize_bounds := by decide
  maxDatagramBytes_bounds := by decide
  maxQueueBytes_bounds := by decide

def exampleEvent : Event where
  sequence := 1
  configRevision := 1
  domain := "example.org"
  ips := ["10.0.0.1"]
  ttl := 60
  serverTag := "local"
  timestamp := 0
  expiresAt := 60
  droppedBefore := 0

def sentAndDrained : List Action :=
  [.emitEvent exampleEvent, .advance 1 {}, .advance 1 {}, .advance 1 {}, .advance 1 {},
    .advance 0 {}, .advance 0 {}, .advance 0 {}, .advance 0 {},
    .emitEvent exampleEvent, .advance 2 {}, .advance 2 {}, .advance 2 {}, .advance 2 {},
    .close, .advance 3 {}, .advance 0 {}, .advance 3 {}, .advance 3 {}, .advance 3 {},
    .advance 3 {}, .advance 3 {}]

def drainedState : State where
  shared :=
    { closed := true
      dropped := 1
      conn := true
      counted := [(exampleEvent, .sent), (exampleEvent, .dropped)] }
  threads := [.stopped, .emitted, .emitted, .closed]

theorem emitEvent_accounted_drained :
    run (step smallConfig fun _ => some [1, 2, 3]) initial sentAndDrained = some drainedState ∧
      drainedState.shared.queued = 0 := by
  have hr : run (step smallConfig fun _ => some [1, 2, 3]) initial sentAndDrained =
      some drainedState := rfl
  obtain ⟨-, -, -, hclosed⟩ := emitEvent_accounted smallConfig _ sentAndDrained drainedState hr
  obtain ⟨-, -, hdone⟩ := hclosed (by simp [drainedState]) (by simp [drainedState, Thread.Emitting])
  exact ⟨hr, (hdone (by simp [drainedState, Thread.Closing])).1⟩

/-- Two calls of `Close` drain the queue. The second finds it empty and returns while the first is
between its receive and its decrement. -/
def overlappingCloses : List Action :=
  [.emitEvent exampleEvent, .advance 1 {}, .advance 1 {}, .advance 1 {}, .advance 1 {},
    .close, .close, .advance 2 {}, .advance 3 {}, .advance 0 {}, .advance 2 {}, .advance 3 {},
    .advance 2 {}, .advance 3 {}]

theorem close_before_decrement :
    ∃ c, run (step smallConfig fun _ => some [1, 2, 3]) initial overlappingCloses = some c ∧
      .closed ∈ c.threads ∧ (∀ t ∈ c.threads, ¬ t.Emitting) ∧ c.shared.queued = 3 := by
  refine ⟨⟨{ closed := true, queued := 3 },
    [.stopped, .emitted, .drained ⟨exampleEvent, [1, 2, 3]⟩, .closed]⟩, rfl, ?_, ?_, rfl⟩
  · simp
  · simp [Thread.Emitting]

end BypassCore.DNSEvent
