import BypassCore.DNSNFTSet.Basic

/-!
# The queue of the nftables writer

`Emit`, `run` and `Close` of `app/dnsnftset/writer.go`. Any number of `Emit` calls, the flush timer
and one `Close` are interleaved with the writer goroutine. What the goroutine passes to
`Writer.flush` is recorded batch by batch.
-/

namespace BypassCore.DNSNFTSet.Writer

open Lib

/-- The sizes of a `Config` that `NormalizeConfig` accepts. -/
structure Config where
  queueSize : ℕ
  batchSize : ℕ
  queueSize_bounds : 1 ≤ queueSize ∧ queueSize ≤ 4096
  batchSize_bounds : 1 ≤ batchSize ∧ batchSize ≤ 1024

inductive Outcome where
  | nothing
  | closed
  | queued
  | dropped
deriving DecidableEq

structure Call where
  updates : List Update
  outcome : Outcome
deriving DecidableEq

/-- Where `run` goes on after `flush(all)`; `all` is false only after a received item. -/
inductive After where
  | received
  | timer
  | closing
deriving DecidableEq

inductive Phase where
  | select
  | flushing (after : After)
  | draining
  | returned
deriving DecidableEq

/-- The writer, with the calls and the batches so far. `emitting` are the calls of `Emit` that hold
the read lock and have found the writer open. -/
structure State where
  queue : List (List Update) := []
  closed : Bool := false
  emitting : List (List Update) := []
  dropped : ℕ := 0
  phase : Phase := .select
  pending : List Update := []
  timerC : Bool := false
  closeReturned : Bool := false
  calls : List Call := []
  flushed : List (List Update) := []

/-- The updates of the calls that were accepted into the queue, in queue order. -/
def State.accepted (s : State) : List (List Update) :=
  (s.calls.filter (·.outcome = .queued)).map Call.updates

def State.finish (s : State) (updates : List Update) (outcome : Outcome) : State :=
  { s with calls := s.calls ++ [⟨updates, outcome⟩] }

/-! ### Steps -/

/-- The steps of the calls of `Emit`, of the writer goroutine and of `Close`. -/
inductive Event where
  /-- `Emit` collects the updates and, if there are any, takes the read lock. -/
  | emit (result : Result)
  | offer (i : ℕ)
  | receive
  | timer
  | done
  /-- A round of the loop that empties the queue after `done`. -/
  | drain
  | flush
  | close
  | closeReturn

/-- Whether a step is one of `run`, the timer included. -/
def Event.OfRun : Event → Prop
  | .receive | .timer | .done | .drain | .flush => True
  | .emit _ | .offer _ | .close | .closeReturn => False

def mustFlush (config : Config) (after : After) (pending : List Update) : Prop :=
  config.batchSize ≤ pending.length ∨ after ≠ .received ∧ 0 < pending.length

instance (config : Config) (after : After) (pending : List Update) :
    Decidable (mustFlush config after pending) := by
  unfold mustFlush
  infer_instance

def State.proceed (s : State) : After → State
  | .received => { s with phase := .select, timerC := s.timerC || 0 < s.pending.length }
  | .timer => { s with phase := .select }
  | .closing => { s with phase := .returned }

def State.take (s : State) (item : List Update) (rest : List (List Update)) : State :=
  { s with queue := rest, pending := s.pending ++ item }

variable (config : Config) (targetsByTag : GoMap String (List SetRef))

def step (s : State) : Event → Option State
  | .emit result =>
    let updates := emitUpdates targetsByTag result
    if updates = [] then some (s.finish updates .nothing)
    else if s.closed then some (s.finish updates .closed)
    else some { s with emitting := s.emitting ++ [updates] }
  | .offer i =>
    s.emitting[i]?.map fun updates =>
      let s := { s with emitting := s.emitting.eraseIdx i }
      if s.queue.length < config.queueSize then
        { s with queue := s.queue ++ [updates] }.finish updates .queued
      else { s with dropped := s.dropped + 1 }.finish updates .dropped
  | .receive =>
    match s.phase, s.queue with
    | .select, item :: rest =>
      if config.batchSize ≤ (s.pending ++ item).length then
        some { s.take item rest with timerC := false, phase := .flushing .received }
      else some { s.take item rest with timerC := true }
    | _, _ => none
  | .timer =>
    if s.phase = .select ∧ s.timerC = true then
      some { s with timerC := false, phase := .flushing .timer }
    else none
  | .done =>
    if s.phase = .select ∧ s.closed = true then
      some { s with timerC := false, phase := .draining }
    else none
  | .drain =>
    match s.phase, s.queue with
    | .draining, item :: rest => some (s.take item rest)
    | .draining, [] => some { s with phase := .flushing .closing }
    | _, _ => none
  | .flush =>
    match s.phase with
    | .flushing after =>
      if mustFlush config after s.pending then
        let count := min s.pending.length config.batchSize
        some { s with
          flushed := s.flushed ++ [s.pending.take count], pending := s.pending.drop count }
      else some (s.proceed after)
    | _ => none
  | .close =>
    -- The write lock waits for the calls that hold the read lock.
    if s.closed = false ∧ s.emitting = [] then some { s with closed := true } else none
  | .closeReturn =>
    if s.phase = .returned ∧ s.closeReturned = false then
      some { s with closeReturned := true }
    else none

inductive Moves (s : State) : Event → State → Prop where
  | nothing {result} (h : emitUpdates targetsByTag result = []) :
    Moves s (.emit result) (s.finish (emitUpdates targetsByTag result) .nothing)
  | refused {result} (h : emitUpdates targetsByTag result ≠ []) (hclosed : s.closed = true) :
    Moves s (.emit result) (s.finish (emitUpdates targetsByTag result) .closed)
  | begun {result} (h : emitUpdates targetsByTag result ≠ []) (hopen : s.closed = false) :
    Moves s (.emit result) { s with emitting := s.emitting ++ [emitUpdates targetsByTag result] }
  | queued {i updates} (hi : s.emitting[i]? = some updates)
      (hroom : s.queue.length < config.queueSize) :
    Moves s (.offer i)
      ({ s with emitting := s.emitting.eraseIdx i, queue := s.queue ++ [updates] }.finish updates
        .queued)
  | dropped {i updates} (hi : s.emitting[i]? = some updates)
      (hfull : config.queueSize ≤ s.queue.length) :
    Moves s (.offer i)
      ({ s with emitting := s.emitting.eraseIdx i, dropped := s.dropped + 1 }.finish updates
        .dropped)
  | received {item rest} (hphase : s.phase = .select) (hqueue : s.queue = item :: rest)
      (hfull : config.batchSize ≤ (s.pending ++ item).length) :
    Moves s .receive { s.take item rest with timerC := false, phase := .flushing .received }
  | kept {item rest} (hphase : s.phase = .select) (hqueue : s.queue = item :: rest)
      (hroom : (s.pending ++ item).length < config.batchSize) :
    Moves s .receive { s.take item rest with timerC := true }
  | timer (hphase : s.phase = .select) (htimer : s.timerC = true) :
    Moves s .timer { s with timerC := false, phase := .flushing .timer }
  | done (hphase : s.phase = .select) (hclosed : s.closed = true) :
    Moves s .done { s with timerC := false, phase := .draining }
  | drained {item rest} (hphase : s.phase = .draining) (hqueue : s.queue = item :: rest) :
    Moves s .drain (s.take item rest)
  | emptied (hphase : s.phase = .draining) (hqueue : s.queue = []) :
    Moves s .drain { s with phase := .flushing .closing }
  | batch {after} (hphase : s.phase = .flushing after) (hmust : mustFlush config after s.pending) :
    Moves s .flush
      { s with
        flushed := s.flushed ++ [s.pending.take (min s.pending.length config.batchSize)]
        pending := s.pending.drop (min s.pending.length config.batchSize) }
  | proceed {after} (hphase : s.phase = .flushing after)
      (hmust : ¬ mustFlush config after s.pending) : Moves s .flush (s.proceed after)
  | close (hopen : s.closed = false) (hidle : s.emitting = []) :
    Moves s .close { s with closed := true }
  | closeReturn (hphase : s.phase = .returned) (hfirst : s.closeReturned = false) :
    Moves s .closeReturn { s with closeReturned := true }

variable {config targetsByTag} {s s' : State} {e : Event}

lemma moves_of_step (h : step config targetsByTag s e = some s') :
    Moves config targetsByTag s e s' := by
  cases e with simp only [step] at h
  | emit result =>
    split_ifs at h with hnil hclosed <;> cases h
    · exact .nothing hnil
    · exact .refused hnil hclosed
    · exact .begun hnil (Bool.not_eq_true _ ▸ hclosed)
  | offer i =>
    obtain ⟨updates, hi, h⟩ := Option.map_eq_some_iff.mp h
    split_ifs at h with hroom <;> cases h
    · exact .queued hi hroom
    · exact .dropped hi (not_lt.mp hroom)
  | receive =>
    split at h
    · split_ifs at h with hfull <;> cases h
      · exact .received ‹_› ‹_› hfull
      · exact .kept ‹_› ‹_› (not_le.mp hfull)
    · cases h
  | timer =>
    split_ifs at h with hc
    cases h
    exact .timer hc.1 hc.2
  | done =>
    split_ifs at h with hc
    cases h
    exact .done hc.1 hc.2
  | drain =>
    split at h <;> cases h
    · exact .drained ‹_› ‹_›
    · exact .emptied ‹_› ‹_›
  | flush =>
    split at h
    · split_ifs at h with hmust <;> cases h
      · exact .batch ‹_› hmust
      · exact .proceed ‹_› hmust
    · cases h
  | close =>
    split_ifs at h with hc
    cases h
    exact .close hc.1 hc.2
  | closeReturn =>
    split_ifs at h with hc
    cases h
    exact .closeReturn hc.1 hc.2

end BypassCore.DNSNFTSet.Writer

/-!
## What a probe does to duplicate suppression

`Probe` of `app/dnsnftset/writer.go` advances a generation when it succeeds, and the writer compares
generations before every batch. A write that began before the generation was advanced suppresses no
update whose `Emit` starts later. A write that begins between this and the return of `Probe` may.
-/

namespace BypassCore.DNSNFTSet.Probing

open Lib List

/-- A moment, by the number of probes that have advanced the generation and that have returned. -/
structure Moment where
  advanced : ℕ
  returned : ℕ

/-- What the writer goroutine does. Updates carry the moment at which their `Emit` started. -/
inductive Phase where
  | idle
  | batch (raw : List (Moment × Update))
  | writing (began : Moment) (now : ℤ) (c : Collected)

/-- The writer, whose queue is a part of `pending`, and the successful probes. -/
structure State where
  probeGeneration : ℕ := 0
  returned : ℕ := 0
  knownGeneration : ℕ := 0
  known : Known := ∅
  emitting : List (Moment × List Update) := []
  pending : List (Moment × Update) := []
  phase : Phase := .idle
  /-- When the last write of a key began. -/
  began : List UInt8 → Moment := fun _ => ⟨0, 0⟩
  /-- For each suppressed update, when its `Emit` and the write of its key began. -/
  suppressions : List (Moment × Moment) := []

def State.moment (s : State) : Moment := ⟨s.probeGeneration, s.returned⟩

inductive Event where
  | emit (result : Result)
  /-- The item is queued, or dropped. -/
  | offer (i : ℕ) (accepted : Bool)
  | load (count : ℕ)
  | collect (now : ℤ)
  | record (results : List Bool) (ord : RangeOrder)
  | probe (ok : Bool)
  | probeReturn

def Event.failedProbe : Event → Bool
  | .probe ok => !ok
  | _ => false

/-- What is recorded in `known`: the elements that were applied or exist. -/
def recorded (now : ℤ) (c : Collected) (results : List Bool) : List (List UInt8 × ℤ) :=
  if results.length = c.unique.length then
    ((c.keys.zip (c.unique.map fun u => now + u.timeout)).zip results).filterMap fun e =>
      if e.2 then some e.1 else none
  else []

def step (targetsByTag : GoMap String (List SetRef)) (s : State) : Event → Option State
  | .emit result =>
    some { s with emitting := s.emitting ++ [(s.moment, emitUpdates targetsByTag result)] }
  | .offer i accepted => s.emitting[i]?.map fun e =>
    { s with
      emitting := s.emitting.eraseIdx i
      pending := if accepted then s.pending ++ e.2.map fun u => (e.1, u) else s.pending }
  | .load count =>
    match s.phase with
    | .idle => some { s with
        known := if s.probeGeneration ≠ s.knownGeneration then ∅ else s.known
        knownGeneration := s.probeGeneration
        phase := .batch (s.pending.take count)
        pending := s.pending.drop count }
    | _ => none
  | .collect now =>
    match s.phase with
    | .batch raw =>
      let c := DNSNFTSet.collect s.known now (raw.map Prod.snd)
      some { s with
        phase := if c.unique.isEmpty then .idle else .writing s.moment now c
        suppressions := s.suppressions ++ (raw.filter fun e => suppressed s.known now e.2).map
          fun e => (e.1, s.began e.2.mapKey) }
    | _ => none
  | .record results ord =>
    match s.phase with
    | .writing began now c =>
      let written := recorded now c results
      some { s with
        known := boundKnown ord now (s.known.insertAll written)
        began := fun key => if key ∈ written.map Prod.fst then began else s.began key
        phase := .idle }
    | _ => none
  | .probe true => some { s with probeGeneration := s.probeGeneration + 1 }
  | .probe false => some s
  | .probeReturn =>
    if s.returned < s.probeGeneration then some { s with returned := s.returned + 1 } else none

/-- What the writer has where it stands began before or after it compared the generations. -/
def State.PhaseOk (s : State) : Prop :=
  match s.phase with
  | .idle => True
  | .batch raw => ∀ e ∈ raw, e.1.advanced ≤ s.knownGeneration
  | .writing began _ _ => s.knownGeneration ≤ began.advanced

structure Inv (s : State) : Prop where
  knownGeneration_le : s.knownGeneration ≤ s.probeGeneration
  emitting_le : ∀ e ∈ s.emitting, e.1.advanced ≤ s.probeGeneration
  pending_le : ∀ e ∈ s.pending, e.1.advanced ≤ s.probeGeneration
  le_began : ∀ key, (s.known.lookup key).isSome → s.knownGeneration ≤ (s.began key).advanced
  phase : s.PhaseOk
  suppressions_le : ∀ p ∈ s.suppressions, p.1.advanced ≤ p.2.advanced

lemma isSome_lookup_foldl {f : Known → (Σ _ : List UInt8, ℤ) → Known}
    (hf : ∀ k e, f k e = k ∨ f k e = k.erase e.1) {l : List (Σ _ : List UInt8, ℤ)} {known : Known}
    {key : List UInt8} (h : ((l.foldl f known).lookup key).isSome) : (known.lookup key).isSome := by
  induction l generalizing known with
  | nil => exact h
  | cons e l ih =>
    have h := ih h
    rcases hf known e with hk | hk <;> rw [hk] at h
    · exact h
    · rw [GoMap.lookup_erase_eq] at h
      split_ifs at h
      · cases h
      · exact h

lemma isSome_lookup_boundKnown {ord : RangeOrder} {now : ℤ} {known : Known} {key : List UInt8}
    (h : ((boundKnown ord now known).lookup key).isSome) : (known.lookup key).isSome := by
  unfold boundKnown at h
  split_ifs at h
  · refine isSome_lookup_foldl (fun k e => ?_) (isSome_lookup_foldl (fun k e => ?_) h) <;>
      split_ifs <;> simp
  · exact h

variable {targetsByTag : GoMap String (List SetRef)} {s s' : State} {e : Event}

lemma Inv.step (h : Inv s) (hs : step targetsByTag s e = some s') : Inv s' := by
  have hphase := h.phase
  cases e with
  | emit result =>
    cases hs
    refine { h with emitting_le := forall_mem_append.mpr ⟨h.emitting_le, ?_⟩ }
    exact forall_mem_singleton.mpr le_rfl
  | offer i accepted =>
    obtain ⟨e, he, rfl⟩ := Option.map_eq_some_iff.mp hs
    refine { h with
      emitting_le := fun e he => h.emitting_le e (mem_of_mem_eraseIdx he)
      pending_le := ?_ }
    have hle := h.emitting_le e (mem_of_getElem? he)
    split_ifs
    · refine forall_mem_append.mpr ⟨h.pending_le, ?_⟩
      simpa using fun _ _ => hle
    · exact h.pending_le
  | load count =>
    simp only [Probing.step] at hs
    split at hs <;> cases hs
    refine { h with
      knownGeneration_le := le_rfl
      pending_le := fun e he => h.pending_le e (mem_of_mem_drop he)
      le_began := fun key hkey => ?_
      phase := fun e he => h.pending_le e (mem_of_mem_take he) }
    split_ifs at hkey with hgen
    · simp at hkey
    · exact not_not.mp hgen ▸ h.le_began key hkey
  | collect now =>
    simp only [Probing.step] at hs
    split at hs <;> cases hs
    next raw heq =>
      simp only [State.PhaseOk, heq] at hphase
      refine { h with
        phase := ?_
        suppressions_le := forall_mem_append.mpr ⟨h.suppressions_le, ?_⟩ }
      · simp only [State.PhaseOk]
        split_ifs
        · trivial
        · exact h.knownGeneration_le
      · -- The writer has cleared `known` since the `Emit` of the update.
        intro p hp
        obtain ⟨e, he, rfl⟩ := mem_map.mp hp
        obtain ⟨hraw, hsup⟩ := mem_filter.mp he
        exact (hphase e hraw).trans (h.le_began _ (Option.isSome_of_any hsup))
  | record results ord =>
    simp only [Probing.step] at hs
    split at hs <;> cases hs
    next began now c heq =>
      simp only [State.PhaseOk, heq] at hphase
      refine { h with
        le_began := fun key hkey => ?_
        phase := trivial }
      dsimp only
      split_ifs with hmem
      · exact hphase
      · have hkey := isSome_lookup_boundKnown hkey
        rw [GoMap.lookup_insertAll_of_notMem hmem] at hkey
        exact h.le_began key hkey
  | probe ok =>
    cases ok <;> cases hs
    · exact h
    · exact { h with
        knownGeneration_le := h.knownGeneration_le.trans (Nat.le_succ _)
        emitting_le := fun e he => (h.emitting_le e he).trans (Nat.le_succ _)
        pending_le := fun e he => (h.pending_le e he).trans (Nat.le_succ _) }
  | probeReturn =>
    obtain ⟨-, hs⟩ := Option.ite_none_right_eq_some.mp hs
    cases hs
    exact { h with }

lemma run_filter_failedProbe (s : State) (es : List Event) :
    run (step targetsByTag) s (es.filter fun e => !e.failedProbe) =
      run (step targetsByTag) s es := by
  induction es generalizing s with
  | nil => rfl
  | cons e es ih =>
    by_cases hfailed : e.failedProbe
    · obtain rfl : e = .probe false := by cases e <;> simp_all [Event.failedProbe]
      exact ih s
    · rw [filter_cons_of_pos (by simpa using hfailed)]
      exact Option.bind_congr fun s' _ => ih s'

/-- A successful probe re-enables repopulation: no update is suppressed because of a write that
began before a probe advanced the generation, if its `Emit` started after that. Failed probes do not
matter. -/
theorem probe_repopulates (targetsByTag : GoMap String (List SetRef)) (es : List Event) (s : State)
    (hr : run (step targetsByTag) {} es = some s) :
    (∀ p ∈ s.suppressions, p.1.advanced ≤ p.2.advanced) ∧
      run (step targetsByTag) {} (es.filter fun e => !e.failedProbe) = some s := by
  have hinit : Inv {} := by constructor <;> simp [State.PhaseOk]
  exact ⟨(run_invariant (fun _ _ _ h he => h.step he) hinit hr).suppressions_le,
    (run_filter_failedProbe {} es).trans hr⟩

/-- The address is written after a probe has advanced the generation and before it has returned. -/
def writtenMeanwhile : List Event :=
  [.emit (exampleResult 60), .offer 0 true, .probe true, .load 1, .collect 0, .probeReturn,
    .record [true] .stored, .emit (exampleResult 60), .offer 0 true, .load 1, .collect 1]

theorem probe_repopulates_writtenMeanwhile :
    ∃ s, run (step exampleTargets) {} writtenMeanwhile = some s ∧
      ∀ p ∈ s.suppressions, p.1.advanced ≤ p.2.advanced :=
  ⟨_, rfl, (probe_repopulates exampleTargets writtenMeanwhile _ rfl).1⟩

/-- The update is suppressed, though its `Emit` started after the probe had returned and the write
began before. -/
theorem suppressed_after_probe_returned :
    ∃ s, run (step exampleTargets) {} writtenMeanwhile = some s ∧
      ∃ p ∈ s.suppressions, p.2.returned < p.1.returned :=
  ⟨_, rfl, by decide⟩

end BypassCore.DNSNFTSet.Probing
