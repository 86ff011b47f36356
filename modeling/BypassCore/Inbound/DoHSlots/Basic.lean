import BypassCore.Lib.GoMap
import BypassCore.Lib.Threads

/-!
# Connection slots of a DNS listener

`handleDoHConnState` of `app/inbound/dns_secure_listener.go`, the plain TCP connections of
`acceptTCP` and `serveTCP`, `installPolicy` and `closeResourcesLocked` of
`app/inbound/dns_listener.go`. A connection takes a slot by a send on the channel of the policy it
sees, and gives it back by a receive. The callbacks of a connection, the goroutine of a plain
connection and `Close` are threads; each channel operation and each critical section of `connMu` is
a step, and the sweep of `Close` holds `connMu` over many of them.
-/

namespace BypassCore.Inbound.DoHSlots

open Lib Threads

/-! ### The state -/

inductive Transport where
  | doh
  | tcp
deriving DecidableEq

/-- A slot that a connection has taken: a place in a channel, which is known by its number. -/
structure Token where
  transport : Transport
  conn : ℕ
  slots : ℕ
deriving DecidableEq

structure Channel where
  capacity : ℕ
  len : ℕ

/-- The fields of `DNSListener` that the slots depend on, with the slots taken and given back so
far. -/
structure Listener where
  channels : List Channel
  tcpSlots : Option ℕ
  conns : Option (List ℕ) := some []
  /-- `dohConns`: the channel of each lease. -/
  dohConns : Option (GoMap ℕ ℕ) := some ∅
  connMu : Bool := false
  /-- Whether `state` is `dnsListenerRunning`. -/
  running : Bool := true
  seen : List ℕ := []
  acquired : Multiset Token := 0
  returned : Multiset Token := 0

/-- The send of a `select` with a default case: the channel has room, or nothing is sent. -/
def Listener.acquire (l : Listener) (token : Token) : Option Listener :=
  l.channels[token.slots]?.bind fun channel =>
    if channel.len < channel.capacity then
      some { l with
        channels := l.channels.set token.slots { channel with len := channel.len + 1 }
        acquired := token ::ₘ l.acquired }
    else none

def Listener.giveBack (l : Listener) (token : Token) : Option Listener :=
  l.channels[token.slots]?.bind fun channel =>
    if 0 < channel.len then
      some { l with
        channels := l.channels.set token.slots { channel with len := channel.len - 1 }
        returned := token ::ₘ l.returned }
    else none

/-- Where a goroutine stands. A connection keeps its thread when its callbacks are done. -/
inductive Thread where
  /-- The `StateNew` callback is about to read the policy. -/
  | opened (conn : ℕ)
  /-- The `StateNew` callback is about to take a slot of the policy that it has read. -/
  | choosing (conn : ℕ) (slots : Option ℕ)
  /-- The `StateNew` callback has a slot and is about to register it. -/
  | registering (conn slots : ℕ)
  /-- The `StateNew` callback has found the listener closed. -/
  | givingBack (conn slots : ℕ)
  /-- The `StateNew` callback has returned. -/
  | reported (conn : ℕ)
  /-- The `StateClosed` or `StateHijacked` callback is about to look for the lease. -/
  | ended (conn : ℕ)
  /-- The `StateClosed` or `StateHijacked` callback has taken the lease out. -/
  | leaving (conn slots : ℕ)
  | gone (conn : ℕ)
  | accepted (conn : ℕ)
  | picking (conn : ℕ) (slots : Option ℕ)
  /-- `acceptTCP` has a slot and is about to track the connection. -/
  | tracking (conn slots : ℕ)
  /-- `acceptTCP` has found the listener closed. -/
  | returning (conn slots : ℕ)
  | serving (conn slots : ℕ)
  /-- `serveTCP` has closed the connection and is about to untrack it. -/
  | untracking (conn slots : ℕ)
  | finishing (conn slots : ℕ)
  | finished (conn : ℕ)
  /-- `Close` is about to take `connMu`. -/
  | stopping
  | sweeping
  | waiting
  /-- `Close` is about to take the policy away. -/
  | clearing
  | stopped
deriving DecidableEq

namespace Thread

def conn : Thread → Option ℕ
  | .opened c | .choosing c _ | .registering c _ | .givingBack c _ | .reported c | .ended c
  | .leaving c _ | .gone c | .accepted c | .picking c _ | .tracking c _ | .returning c _
  | .serving c _ | .untracking c _ | .finishing c _ | .finished c => some c
  | .stopping | .sweeping | .waiting | .clearing | .stopped => none

/-- Whether `Close` waits for a thread: the goroutine that serves HTTP, which runs the `StateNew`
callbacks, the accept loop, and the plain connections. -/
def Waited : Thread → Prop
  | .opened _ | .choosing _ _ | .registering _ _ | .givingBack _ _ | .accepted _ | .picking _ _
  | .tracking _ _ | .returning _ _ | .serving _ _ | .untracking _ _ | .finishing _ _ => True
  | .reported _ | .ended _ | .leaving _ _ | .gone _ | .finished _ | .stopping | .sweeping
  | .waiting | .clearing | .stopped => False

instance : DecidablePred Waited
  | .opened _ | .choosing _ _ | .registering _ _ | .givingBack _ _ | .accepted _ | .picking _ _
  | .tracking _ _ | .returning _ _ | .serving _ _ | .untracking _ _ | .finishing _ _ =>
    .isTrue trivial
  | .reported _ | .ended _ | .leaving _ _ | .gone _ | .finished _ | .stopping | .sweeping
  | .waiting | .clearing | .stopped => .isFalse id

end Thread

abbrev State := Threads.Config Listener Thread

def started (capacity : ℕ) : State := ⟨{ channels := [⟨capacity, 0⟩], tcpSlots := some 0 }, []⟩

/-! ### Steps -/

/-- The next operation of a thread. The choice is the lease that a sweep comes to next. -/
def exec (threads : List Thread) (l : Listener) (t : Thread) (choice : ℕ) :
    Option (Listener × Thread) :=
  match t with
  | .opened c => some (l, .choosing c l.tcpSlots)
  | .choosing c none => some (l, .reported c)
  | .choosing c (some slots) =>
    match l.acquire ⟨.doh, c, slots⟩ with
    | some l' => some (l', .registering c slots)
    | none => some (l, .reported c)
  | .registering c slots =>
    if l.connMu then none
    else
      match l.dohConns with
      | none => some (l, .givingBack c slots)
      | some leases => some ({ l with dohConns := some (leases.insert c slots) }, .reported c)
  | .givingBack c slots => (l.giveBack ⟨.doh, c, slots⟩).map fun l' => (l', .reported c)
  | .reported c => some (l, .ended c)
  | .ended c =>
    if l.connMu then none
    else
      match l.dohConns with
      | none => some (l, .gone c)
      | some leases =>
        match leases.lookup c with
        | none => some (l, .gone c)
        | some slots => some ({ l with dohConns := some (leases.erase c) }, .leaving c slots)
  | .leaving c slots => (l.giveBack ⟨.doh, c, slots⟩).map fun l' => (l', .gone c)
  | .gone _ => none
  | .accepted c => some (l, .picking c l.tcpSlots)
  | .picking c none => some (l, .finished c)
  | .picking c (some slots) =>
    match l.acquire ⟨.tcp, c, slots⟩ with
    | some l' => some (l', .tracking c slots)
    | none => some (l, .finished c)
  | .tracking c slots =>
    if l.connMu then none
    else
      match l.conns with
      | none => some (l, .returning c slots)
      | some conns => some ({ l with conns := some (conns ++ [c]) }, .serving c slots)
  | .returning c slots => (l.giveBack ⟨.tcp, c, slots⟩).map fun l' => (l', .finished c)
  | .serving c slots => some (l, .untracking c slots)
  | .untracking c slots =>
    if l.connMu then none
    else some ({ l with conns := l.conns.map (·.erase c) }, .finishing c slots)
  | .finishing c slots => (l.giveBack ⟨.tcp, c, slots⟩).map fun l' => (l', .finished c)
  | .finished _ => none
  | .stopping => if l.connMu then none else some ({ l with connMu := true }, .sweeping)
  | .sweeping =>
    match l.dohConns with
    | none => some ({ l with conns := none, dohConns := none, connMu := false }, .waiting)
    | some leases =>
      -- A lease that has been swept is not seen again before `dohConns` is nil.
      match leases.lookup choice with
      | some slots =>
        (l.giveBack ⟨.doh, choice, slots⟩).map fun l' =>
          ({ l' with dohConns := some (leases.erase choice) }, .sweeping)
      | none =>
        if leases.entries = [] then
          some ({ l with conns := none, dohConns := none, connMu := false }, .waiting)
        else none
  | .waiting => if ∃ u ∈ threads, u.Waited then none else some (l, .clearing)
  | .clearing => some ({ l with tcpSlots := none }, .stopped)
  | .stopped => none

inductive Moves (l : Listener) : Thread → Listener → Thread → Prop where
  | opens {c} : Moves l (.opened c) l (.choosing c l.tcpSlots)
  | takes {c slots l'} (h : l.acquire ⟨.doh, c, slots⟩ = some l') :
    Moves l (.choosing c (some slots)) l' (.registering c slots)
  | refuses {c slots} : Moves l (.choosing c slots) l (.reported c)
  | late {c slots} (h : l.dohConns = none) :
    Moves l (.registering c slots) l (.givingBack c slots)
  | registers {c slots leases} (h : l.dohConns = some leases) :
    Moves l (.registering c slots) { l with dohConns := some (leases.insert c slots) }
      (.reported c)
  | returns {c slots l'} (h : l.giveBack ⟨.doh, c, slots⟩ = some l') :
    Moves l (.givingBack c slots) l' (.reported c)
  | ends {c} : Moves l (.reported c) l (.ended c)
  | absent {c} (h : ∀ leases, l.dohConns = some leases → leases.lookup c = none) :
    Moves l (.ended c) l (.gone c)
  | unregisters {c slots leases} (h : l.dohConns = some leases)
      (hc : leases.lookup c = some slots) :
    Moves l (.ended c) { l with dohConns := some (leases.erase c) } (.leaving c slots)
  | leaves {c slots l'} (h : l.giveBack ⟨.doh, c, slots⟩ = some l') :
    Moves l (.leaving c slots) l' (.gone c)
  | accepts {c} : Moves l (.accepted c) l (.picking c l.tcpSlots)
  | picks {c slots l'} (h : l.acquire ⟨.tcp, c, slots⟩ = some l') :
    Moves l (.picking c (some slots)) l' (.tracking c slots)
  | rejects {c slots} : Moves l (.picking c slots) l (.finished c)
  | lateTCP {c slots} : Moves l (.tracking c slots) l (.returning c slots)
  | tracks {c slots conns} :
    Moves l (.tracking c slots) { l with conns := conns } (.serving c slots)
  | returnsTCP {c slots l'} (h : l.giveBack ⟨.tcp, c, slots⟩ = some l') :
    Moves l (.returning c slots) l' (.finished c)
  | serves {c slots} : Moves l (.serving c slots) l (.untracking c slots)
  | untracks {c slots conns} :
    Moves l (.untracking c slots) { l with conns := conns } (.finishing c slots)
  | finishes {c slots l'} (h : l.giveBack ⟨.tcp, c, slots⟩ = some l') :
    Moves l (.finishing c slots) l' (.finished c)
  | locks : Moves l .stopping { l with connMu := true } .sweeping
  | sweeps {c slots leases l'} (h : l.dohConns = some leases) (hc : leases.lookup c = some slots)
      (hl : l.giveBack ⟨.doh, c, slots⟩ = some l') :
    Moves l .sweeping { l' with dohConns := some (leases.erase c) } .sweeping
  | swept (h : ∀ leases, l.dohConns = some leases → leases.entries = []) :
    Moves l .sweeping { l with conns := none, dohConns := none, connMu := false } .waiting
  | waits : Moves l .waiting l .clearing
  | clears : Moves l .clearing { l with tcpSlots := none } .stopped

variable {threads : List Thread} {l l' : Listener} {t t' : Thread} {choice : ℕ}

lemma moves_of_exec (h : exec threads l t choice = some (l', t')) : Moves l t l' t' := by
  cases t with simp only [exec] at h
  | opened c =>
    cases h
    exact .opens
  | choosing c slots =>
    cases slots with
    | none =>
      cases h
      exact .refuses
    | some slots =>
      simp only at h
      split at h <;> cases h
      · exact .takes ‹_›
      · exact .refuses
  | registering c slots =>
    split_ifs at h
    split at h <;> cases h
    · exact .late ‹_›
    · exact .registers ‹_›
  | givingBack c slots =>
    obtain ⟨l', hl, h⟩ := Option.map_eq_some_iff.mp h
    cases h
    exact .returns hl
  | reported c =>
    cases h
    exact .ends
  | ended c =>
    split_ifs at h
    split at h
    · next hnone =>
      cases h
      refine .absent ?_
      intro leases hl
      exact absurd (hnone.symm.trans hl) nofun
    · next leases hsome =>
      split at h <;> cases h
      · next hc =>
        refine .absent ?_
        intro leases' hl
        rw [hsome] at hl
        cases hl
        exact hc
      · next slots hc =>
        exact .unregisters hsome hc
  | leaving c slots =>
    obtain ⟨l', hl, h⟩ := Option.map_eq_some_iff.mp h
    cases h
    exact .leaves hl
  | accepted c =>
    cases h
    exact .accepts
  | picking c slots =>
    cases slots with
    | none =>
      cases h
      exact .rejects
    | some slots =>
      simp only at h
      split at h <;> cases h
      · exact .picks ‹_›
      · exact .rejects
  | tracking c slots =>
    split_ifs at h
    split at h <;> cases h
    · exact .lateTCP
    · exact .tracks
  | returning c slots =>
    obtain ⟨l', hl, h⟩ := Option.map_eq_some_iff.mp h
    cases h
    exact .returnsTCP hl
  | serving c slots =>
    cases h
    exact .serves
  | untracking c slots =>
    split_ifs at h
    cases h
    exact .untracks
  | finishing c slots =>
    obtain ⟨l', hl, h⟩ := Option.map_eq_some_iff.mp h
    cases h
    exact .finishes hl
  | stopping =>
    split_ifs at h
    cases h
    exact .locks
  | sweeping =>
    split at h
    · next hnone =>
      cases h
      refine .swept ?_
      intro leases hl
      exact absurd (hnone.symm.trans hl) nofun
    · next leases hsome =>
      split at h
      · next slots hc =>
        obtain ⟨l', hl, h⟩ := Option.map_eq_some_iff.mp h
        cases h
        exact .sweeps hsome hc hl
      · split_ifs at h with hempty
        cases h
        refine .swept ?_
        intro leases' hl
        rw [hsome] at hl
        cases hl
        exact hempty
  | waiting =>
    split_ifs at h
    cases h
    exact .waits
  | clearing =>
    cases h
    exact .clears
  | gone | finished | stopped => cases h

inductive Action where
  | connect (conn : ℕ)
  | accept (conn : ℕ)
  | install (capacity : ℕ)
  | close
  | advance (i choice : ℕ)

def State.enter (s : State) (c : ℕ) (t : Thread) : State :=
  { s with shared := { s.shared with seen := c :: s.shared.seen } }.spawn t

def step (s : State) : Action → Option State
  | .connect c => if c ∈ s.shared.seen then none else some (s.enter c (.opened c))
  | .accept c => if c ∈ s.shared.seen then none else some (s.enter c (.accepted c))
  | .install capacity =>
    -- `Reload` holds `stateMu`, as `Close` does, and wants a running listener.
    if s.shared.running then
      some { s with
        shared :=
          { s.shared with
            channels := s.shared.channels ++ [⟨capacity, 0⟩]
            tcpSlots := some s.shared.channels.length } }
    else none
  | .close =>
    if s.shared.running then
      some ({ s with shared := { s.shared with running := false } }.spawn .stopping)
    else none
  | .advance i choice => s.advance exec i choice

end BypassCore.Inbound.DoHSlots
