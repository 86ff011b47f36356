import BypassCore.Lib.Threads

/-!
# The sink of DNS result events

`EmitEvent`, `run` and `Close` of `app/dnsevent/sink.go`. Any number of `EmitEvent` calls, the
sender goroutine and any number of `Close` calls are threads, and each atomic operation, channel
operation and lock is a step of its own. A send succeeds or fails as the environment chooses.
-/

namespace BypassCore.DNSEvent

open Lib Threads

/-- The sizes of a `Config` that `NormalizeConfig` accepts. -/
structure Config where
  queueSize : ℕ
  maxDatagramBytes : ℕ
  maxQueueBytes : ℕ
  queueSize_bounds : 1 ≤ queueSize ∧ queueSize ≤ 4096
  maxDatagramBytes_bounds : 512 ≤ maxDatagramBytes ∧ maxDatagramBytes ≤ 32768
  maxQueueBytes_bounds : maxDatagramBytes ≤ maxQueueBytes ∧ maxQueueBytes ≤ 8388608

structure Event where
  sequence : UInt64
  configRevision : UInt64
  domain : String
  ips : List String
  ttl : UInt32
  serverTag : String
  timestamp : Int64
  expiresAt : Int64
  droppedBefore : UInt64
deriving DecidableEq

structure Item where
  event : Event
  payload : List UInt8

def Item.size (item : Item) : ℤ := item.payload.length

inductive Outcome where
  | sent
  | dropped
deriving DecidableEq

/-- The fields of `Sink` and the connection of `run`, with the events counted so far. -/
structure Sink where
  queue : List Item := []
  closed : Bool := false
  queued : ℤ := 0
  dropped : ℕ := 0
  conn : Bool := false
  counted : List (Event × Outcome) := []

def Sink.queueBytes (s : Sink) : ℤ := (s.queue.map Item.size).sum

def Sink.count (s : Sink) (event : Event) : Outcome → Sink
  | .sent => { s with counted := s.counted ++ [(event, .sent)] }
  | .dropped =>
    { s with dropped := s.dropped + 1, counted := s.counted ++ [(event, .dropped)] }

inductive Thread where
  /-- `EmitEvent` is about to load `queued`. -/
  | reserving (item : Item)
  /-- `EmitEvent` has loaded `queued` and is about to swap it. -/
  | swapping (item : Item) (queued : ℤ)
  /-- `EmitEvent` has reserved the bytes and is about to take the read lock. -/
  | locking (item : Item)
  /-- `EmitEvent` holds the read lock and has found the sink open. -/
  | offering (item : Item)
  /-- `EmitEvent` holds the read lock and is about to give the bytes back. -/
  | releasing (item : Item)
  /-- `EmitEvent` is about to count the event, holding the read lock or not. -/
  | dropping (event : Event) (locked : Bool)
  | emitted
  | polling
  | selecting
  /-- `run` has received a payload and is about to take its bytes off. -/
  | received (item : Item)
  | writing (item : Item)
  | failing (event : Event)
  | stopped
  | closing
  | waiting
  | draining
  /-- `Close` has received a payload and is about to take its bytes off. -/
  | drained (item : Item)
  | discarding (event : Event)
  | closed

namespace Thread

def Locked : Thread → Prop
  | .offering _ | .releasing _ | .dropping _ true => True
  | _ => False

def Running : Thread → Prop
  | .polling | .selecting | .received _ | .writing _ | .failing _ => True
  | _ => False

/-- Whether a thread is a call of `EmitEvent` that has not returned. -/
def Emitting : Thread → Prop
  | .reserving _ | .swapping _ _ | .locking _ | .offering _ | .releasing _ | .dropping _ _ => True
  | _ => False

def Closing : Thread → Prop
  | .closing | .waiting | .draining | .drained _ | .discarding _ => True
  | _ => False

instance : DecidablePred Locked
  | .offering _ | .releasing _ | .dropping _ true => .isTrue trivial
  | .reserving _ | .swapping _ _ | .locking _ | .dropping _ false | .emitted | .polling
  | .selecting | .received _ | .writing _ | .failing _ | .stopped | .closing | .waiting
  | .draining | .drained _ | .discarding _ | .closed => .isFalse id

instance : DecidablePred Running
  | .polling | .selecting | .received _ | .writing _ | .failing _ => .isTrue trivial
  | .reserving _ | .swapping _ _ | .locking _ | .offering _ | .releasing _ | .dropping _ _
  | .emitted | .stopped | .closing | .waiting | .draining | .drained _ | .discarding _
  | .closed => .isFalse id

end Thread

abbrev State := Threads.Config Sink Thread

def initial : State := ⟨{}, [.polling]⟩

/-! ### Steps -/

/-- What the environment chooses for a step: which ready case a `select` of `run` takes, and whether
dialing and writing succeed. -/
structure Choice where
  done : Bool := false
  dialed : Bool := true
  written : Bool := true

variable (config : Config) (marshal : Event → Option (List UInt8))

def emitEvent (s : Sink) (event : Event) : Thread :=
  match marshal { event with droppedBefore := .ofNat s.dropped } with
  | none => .dropping event false
  | some payload =>
    if config.maxDatagramBytes < payload.length then .dropping event false
    else .reserving ⟨event, payload⟩

def exec (threads : List Thread) (s : Sink) (t : Thread) (choice : Choice) :
    Option (Sink × Thread) :=
  match t with
  | .reserving item =>
    if config.maxQueueBytes < s.queued + item.size then some (s, .dropping item.event false)
    else some (s, .swapping item s.queued)
  | .swapping item queued =>
    if s.queued = queued then some ({ s with queued := queued + item.size }, .locking item)
    else some (s, .reserving item)
  | .locking item =>
    if s.closed then some (s, .releasing item) else some (s, .offering item)
  | .offering item =>
    if s.queue.length < config.queueSize then
      some ({ s with queue := s.queue ++ [item] }, .emitted)
    else some (s, .releasing item)
  | .releasing item => some ({ s with queued := s.queued - item.size }, .dropping item.event true)
  | .dropping event _ => some (s.count event .dropped, .emitted)
  | .emitted => none
  | .polling => if s.closed then some (s, .stopped) else some (s, .selecting)
  | .selecting =>
    if choice.done then
      if s.closed then some (s, .stopped) else none
    else
      match s.queue with
      | item :: rest => some ({ s with queue := rest }, .received item)
      | [] => none
  | .received item => some ({ s with queued := s.queued - item.size }, .writing item)
  | .writing item =>
    -- An error of either call leaves `conn` nil.
    if (s.conn || choice.dialed) && choice.written then
      some ({ s with conn := true }.count item.event .sent, .polling)
    else some ({ s with conn := false }, .failing item.event)
  | .failing event => some (s.count event .dropped, .polling)
  | .stopped => none
  | .closing =>
    if ∃ u ∈ threads, u.Locked then none else some ({ s with closed := true }, .waiting)
  | .waiting => if ∃ u ∈ threads, u.Running then none else some (s, .draining)
  | .draining =>
    match s.queue with
    | item :: rest => some ({ s with queue := rest }, .drained item)
    | [] => some (s, .closed)
  | .drained item => some ({ s with queued := s.queued - item.size }, .discarding item.event)
  | .discarding event => some (s.count event .dropped, .draining)
  | .closed => none

inductive Action where
  | emitEvent (event : Event)
  | close
  | advance (i : ℕ) (choice : Choice)

def step (s : State) : Action → Option State
  | .emitEvent event => some (s.spawn (emitEvent config marshal s.shared event))
  | .close => some (s.spawn .closing)
  | .advance i choice => s.advance (exec config) i choice

inductive Moves (threads : List Thread) (s : Sink) : Thread → Sink → Thread → Prop where
  | exceeds {item} (h : config.maxQueueBytes < s.queued + item.size) :
    Moves threads s (.reserving item) s (.dropping item.event false)
  | loads {item} (h : s.queued + item.size ≤ config.maxQueueBytes) :
    Moves threads s (.reserving item) s (.swapping item s.queued)
  | swaps {item} :
    Moves threads s (.swapping item s.queued) { s with queued := s.queued + item.size }
      (.locking item)
  | retries {item queued} (h : s.queued ≠ queued) :
    Moves threads s (.swapping item queued) s (.reserving item)
  | refused {item} (h : s.closed = true) : Moves threads s (.locking item) s (.releasing item)
  | admitted {item} (h : s.closed = false) : Moves threads s (.locking item) s (.offering item)
  | sends {item} (h : s.queue.length < config.queueSize) :
    Moves threads s (.offering item) { s with queue := s.queue ++ [item] } .emitted
  | full {item} (h : config.queueSize ≤ s.queue.length) :
    Moves threads s (.offering item) s (.releasing item)
  | releases {item} :
    Moves threads s (.releasing item) { s with queued := s.queued - item.size }
      (.dropping item.event true)
  | drops {event locked} :
    Moves threads s (.dropping event locked) (s.count event .dropped) .emitted
  | polled (h : s.closed = false) : Moves threads s .polling s .selecting
  | stops {t} (ht : t = .polling ∨ t = .selecting) (h : s.closed = true) :
    Moves threads s t s .stopped
  | receives {item rest} (h : s.queue = item :: rest) :
    Moves threads s .selecting { s with queue := rest } (.received item)
  | subtracts {item} :
    Moves threads s (.received item) { s with queued := s.queued - item.size } (.writing item)
  | writes {item} :
    Moves threads s (.writing item) ({ s with conn := true }.count item.event .sent) .polling
  | breaks {item} : Moves threads s (.writing item) { s with conn := false } (.failing item.event)
  | fails {event} : Moves threads s (.failing event) (s.count event .dropped) .polling
  | locks (h : ∀ u ∈ threads, ¬ u.Locked) :
    Moves threads s .closing { s with closed := true } .waiting
  | waits (h : ∀ u ∈ threads, ¬ u.Running) : Moves threads s .waiting s .draining
  | drains {item rest} (h : s.queue = item :: rest) :
    Moves threads s .draining { s with queue := rest } (.drained item)
  | closes (h : s.queue = []) : Moves threads s .draining s .closed
  | discounts {item} :
    Moves threads s (.drained item) { s with queued := s.queued - item.size }
      (.discarding item.event)
  | discards {event} : Moves threads s (.discarding event) (s.count event .dropped) .draining

variable {config} {threads : List Thread} {s s' : Sink} {t t' : Thread} {choice : Choice}

lemma moves_of_exec (h : exec config threads s t choice = some (s', t')) :
    Moves config threads s t s' t' := by
  cases t with simp only [exec] at h
  | reserving item =>
    split_ifs at h with hmax <;> cases h
    · exact .exceeds hmax
    · exact .loads (Int.not_lt.mp hmax)
  | swapping item queued =>
    split_ifs at h with hq <;> cases h
    · subst hq
      exact .swaps
    · exact .retries hq
  | locking item =>
    split_ifs at h with hclosed <;> cases h
    · exact .refused hclosed
    · exact .admitted (Bool.not_eq_true _ ▸ hclosed)
  | offering item =>
    split_ifs at h with hroom <;> cases h
    · exact .sends hroom
    · exact .full (Nat.not_lt.mp hroom)
  | releasing item =>
    cases h
    exact .releases
  | dropping event locked =>
    cases h
    exact .drops
  | polling =>
    split_ifs at h with hclosed <;> cases h
    · exact .stops (.inl rfl) hclosed
    · exact .polled (Bool.not_eq_true _ ▸ hclosed)
  | selecting =>
    split_ifs at h with hdone hclosed
    · cases h
      exact .stops (.inr rfl) hclosed
    · split at h <;> cases h
      · exact .receives ‹_›
  | received item =>
    cases h
    exact .subtracts
  | writing item =>
    split_ifs at h <;> cases h
    · exact .writes
    · exact .breaks
  | failing event =>
    cases h
    exact .fails
  | closing =>
    split_ifs at h with hlocked
    cases h
    exact .locks fun u hu hl => hlocked ⟨u, hu, hl⟩
  | waiting =>
    split_ifs at h with hrunning
    cases h
    exact .waits fun u hu hl => hrunning ⟨u, hu, hl⟩
  | draining =>
    split at h <;> cases h
    · exact .drains ‹_›
    · exact .closes ‹_›
  | drained item =>
    cases h
    exact .discounts
  | discarding event =>
    cases h
    exact .discards
  | emitted | stopped | closed => cases h

end BypassCore.DNSEvent
