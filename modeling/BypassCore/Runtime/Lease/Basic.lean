import BypassCore.Lib.Threads

/-!
# Leases on runtime snapshots

The runtime service of the daemon holds one current snapshot. A caller takes a lease on it, uses it
and gives it back, at once or through the connection it goes to. `Reload` builds a snapshot, makes
it the current one and retires the old one; `Close` retires and closes everything. Snapshots,
leases and goroutines may be any number.

Each atomic operation and each critical section is one operation of a goroutine. What the program
does between two of them is not seen by other goroutines and is taken with the one before. An event
lets one goroutine take its next operation, starts a call, or lets a drain timer fire; it carries
whatever the environment decides.
-/

namespace BypassCore.Runtime

open Lib Goroutines

inductive Once where
  | fresh
  | running
  | done
  deriving DecidableEq, Repr

/-- `runtimeSnapshot`, with a count of how often its resources were closed. -/
structure Snapshot where
  refs : Int
  retired : Bool
  forced : Bool
  closed : Bool
  closeOnce : Once
  conns : List Nat
  drainTimer : Bool
  closings : Nat

def Snapshot.new : Snapshot := ⟨0, false, false, false, .fresh, [], false, 0⟩

/-- A lease on a snapshot, with a count of its releases. Once it is tracked it is a `leasedConn`,
with its own `sync.Once`. -/
structure Lease where
  snapshot : Nat
  tracked : Bool
  once : Once
  releases : Nat

def Lease.new (snapshot : Nat) : Lease := ⟨snapshot, false, .fresh, 0⟩

/-- `runtimeService`, with all snapshots that were built, all leases that were taken and the
snapshots that were pushed out of the list of retired ones. -/
structure Service where
  snapshots : Nat → Snapshot
  built : Nat
  leases : Nat → Lease
  leased : Nat
  current : Option Nat
  closed : Bool
  reloadBusy : Bool
  retired : List Nat
  victims : List Nat

namespace Service

def setSnapshot (sv : Service) (s : Nat) (f : Snapshot → Snapshot) : Service :=
  { sv with snapshots := Function.update sv.snapshots s (f (sv.snapshots s)) }

def setLease (sv : Service) (l : Nat) (f : Lease → Lease) : Service :=
  { sv with leases := Function.update sv.leases l (f (sv.leases l)) }

def lend (sv : Service) (s : Nat) : Service :=
  { sv with
    snapshots := (sv.setSnapshot s fun x => { x with refs := x.refs + 1 }).snapshots
    leases := (sv.setLease sv.leased fun _ => Lease.new s).leases
    leased := sv.leased + 1 }

def new : Service where
  snapshots _ := Snapshot.new
  built := 1
  leases _ := Lease.new 0
  leased := 0
  current := some 0
  closed := false
  reloadBusy := false
  retired := []
  victims := []

end Service

/-! ### Operations -/

inductive Purpose where
  | use
  | reload
  deriving DecidableEq, Repr

/-- The operations of goroutines. A lease or a snapshot in an operation is one that the goroutine
has in a local variable. -/
inductive Op where
  /-- `acquire`: the section under `s.mu.RLock`. -/
  | acquire (purpose : Purpose)
  | use (l : Nat)
  /-- `track`: the section under `connMu`. -/
  | track (l : Nat)
  | closeConn (l : Nat)
  /-- `leasedConn.Close`: the section under `connMu`. -/
  | deleteConn (l : Nat)
  /-- `leasedConn.Close`: the end of the function of `once`. -/
  | leaveOnce (l : Nat)
  /-- `release`: `refs.Add(-1)`. -/
  | decrement (l : Nat)
  | loadRetired (s : Nat)
  /-- `retire`: `retired.CompareAndSwap(false, true)`. -/
  | casRetired (s : Nat)
  | loadRefs (s : Nat)
  /-- `retire`: the section under `timerMu`. -/
  | armTimer (s : Nat)
  /-- `forceClose`: the section under `connMu`. -/
  | force (s : Nat)
  /-- `closeResources`: `closeOnce.Do`. -/
  | enterOnce (s : Nat)
  /-- `closeResources`: `closed.Store(true)`. -/
  | storeClosed (s : Nat)
  /-- `closeResources`: the section under `timerMu`. -/
  | stopTimer (s : Nat)
  | closeAll (s : Nat)
  /-- `retireSnapshot`: `snapshot.closed.Load()`. -/
  | loadClosed (s : Nat)
  /-- `retireSnapshot`: the section under `s.mu.RLock`, with the one under `retiredMu` in it. -/
  | register (s : Nat)
  /-- `retireSnapshot`: the victim is closed by a new goroutine. -/
  | goForce (s : Nat)
  /-- `Reload`: `reloadBusy.CompareAndSwap(false, true)` and the configuration of the request. -/
  | reload
  /-- `Reload`: the checks against the current snapshot and `buildSnapshot`. -/
  | build (l : Nat)
  /-- `Reload`: the probe, the inbounds, the metrics and `activate`. -/
  | prepare (l n : Nat)
  /-- `Reload`: the section under `s.mu.Lock`. -/
  | swap (l n : Nat)
  /-- `Reload`: `reloadBusy.Store(false)`. -/
  | storeBusy
  /-- `Close`: the section under `s.mu.Lock`. -/
  | close
  /-- `Close`: the section under `retiredMu`. -/
  | collect (current : Option Nat)
  deriving DecidableEq, Repr

def release (l : Nat) : List Op := [.decrement l]

def retire (s : Nat) : List Op := [.casRetired s]

def closeResources (s : Nat) : List Op := [.enterOnce s]

def forceClose (s : Nat) : List Op := [.force s]

def retireSnapshot (s : Nat) : List Op := retire s ++ [.loadClosed s]

/-- What the environment decides for an operation: whether the work of a goroutine succeeds, and
the order in which a map is ranged over. -/
structure Choice where
  ok : Bool
  order : List Nat

def Choice.range (c : Choice) (conns : List Nat) : List Nat :=
  if c.order.isPerm conns then c.order else conns

def maxRetiredSnapshots : Nat := 8

variable (sv : Service)

def onlyState : Effect Service Op := ⟨sv, [], []⟩

def continueWith (next : List Op) : Effect Service Op := ⟨sv, next, []⟩

/-- What a caller goes on with when it has a lease. -/
def Purpose.follow : Purpose → Nat → Op
  | .use => .use
  | .reload => .build

def acquire (purpose : Purpose) : Effect Service Op :=
  match sv.closed, sv.current with
  | false, some s => continueWith (sv.lend s) [purpose.follow sv.leased]
  | _, _ => onlyState sv

/-- The sections of `retireSnapshot`, with the list of retired snapshots that are not closed. -/
def register (s : Nat) : Effect Service Op :=
  if sv.closed then
    continueWith sv (forceClose s)
  else
    match (sv.retired.filter fun r => !(sv.snapshots r).closed) ++ [s] with
    | [] => onlyState sv
    | victim :: rest =>
      if maxRetiredSnapshots < rest.length + 1 then
        continueWith { sv with retired := rest, victims := victim :: sv.victims } [.goForce victim]
      else
        onlyState { sv with retired := victim :: rest }

def swap (l n : Nat) : Effect Service Op :=
  if sv.closed then
    continueWith sv (retire n ++ release l)
  else
    match sv.current with
    | none => continueWith { sv with current := some n } (release l)
    | some old => continueWith { sv with current := some n } (retireSnapshot old ++ release l)

/-- What an operation does. An operation that waits for another goroutine does nothing yet. -/
def exec (c : Choice) (sv : Service) : Op → Option (Effect Service Op)
  | .acquire purpose => some (acquire sv purpose)
  | .use l => some (continueWith sv (if c.ok then [.track l] else release l))
  | .track l =>
    if (sv.snapshots (sv.leases l).snapshot).forced then
      some (continueWith sv (release l))
    else
      some (onlyState ((sv.setSnapshot (sv.leases l).snapshot fun x =>
        { x with conns := l :: x.conns }).setLease l fun x => { x with tracked := true }))
  | .closeConn l =>
    match (sv.leases l).once with
    | .fresh =>
      some (continueWith (sv.setLease l fun x => { x with once := .running })
        (.deleteConn l :: release l ++ [.leaveOnce l]))
    | .running => none
    | .done => some (onlyState sv)
  | .deleteConn l =>
    some (onlyState (sv.setSnapshot (sv.leases l).snapshot fun x =>
      { x with conns := x.conns.erase l }))
  | .leaveOnce l => some (onlyState (sv.setLease l fun x => { x with once := .done }))
  | .decrement l =>
    some (continueWith
      ((sv.setSnapshot (sv.leases l).snapshot fun x => { x with refs := x.refs - 1 }).setLease l
        fun x => { x with releases := x.releases + 1 })
      (if (sv.snapshots (sv.leases l).snapshot).refs - 1 = 0 then
        [.loadRetired (sv.leases l).snapshot] else []))
  | .loadRetired s =>
    some ⟨sv, [], if (sv.snapshots s).retired then [closeResources s] else []⟩
  | .casRetired s =>
    if (sv.snapshots s).retired then
      some (onlyState sv)
    else
      some (continueWith (sv.setSnapshot s fun x => { x with retired := true }) [.loadRefs s])
  | .loadRefs s =>
    if (sv.snapshots s).refs = 0 then
      some ⟨sv, [], [closeResources s]⟩
    else
      some (continueWith sv [.armTimer s])
  | .armTimer s =>
    if (sv.snapshots s).closed then
      some (onlyState sv)
    else
      some (onlyState (sv.setSnapshot s fun x => { x with drainTimer := true }))
  | .force s =>
    some (continueWith (sv.setSnapshot s fun x => { x with forced := true })
      ((c.range (sv.snapshots s).conns).map .closeConn ++ closeResources s))
  | .enterOnce s =>
    match (sv.snapshots s).closeOnce with
    | .fresh =>
      some (continueWith (sv.setSnapshot s fun x => { x with closeOnce := .running })
        [.storeClosed s, .stopTimer s, .closeAll s])
    | .running => none
    | .done => some (onlyState sv)
  | .storeClosed s => some (onlyState (sv.setSnapshot s fun x => { x with closed := true }))
  | .stopTimer s => some (onlyState (sv.setSnapshot s fun x => { x with drainTimer := false }))
  | .closeAll s =>
    some (onlyState (sv.setSnapshot s fun x =>
      { x with closings := x.closings + 1, closeOnce := .done }))
  | .loadClosed s =>
    some (continueWith sv (if (sv.snapshots s).closed then [] else [.register s]))
  | .register s => some (register sv s)
  | .goForce s => some ⟨sv, [], [forceClose s]⟩
  | .reload =>
    if sv.reloadBusy then
      some (onlyState sv)
    else
      some (continueWith { sv with reloadBusy := true }
        (if c.ok then [.acquire .reload, .storeBusy] else [.storeBusy]))
  | .build l =>
    if c.ok then
      some (continueWith { sv.setSnapshot sv.built fun _ => Snapshot.new with
        built := sv.built + 1 } [.prepare l sv.built])
    else
      some (continueWith sv (release l))
  | .prepare l n =>
    some (continueWith sv (if c.ok then [.swap l n] else retire n ++ release l))
  | .swap l n => some (swap sv l n)
  | .storeBusy => some (onlyState { sv with reloadBusy := false })
  | .close =>
    if sv.closed then
      some (onlyState sv)
    else
      some (continueWith { sv with closed := true, current := none } [.collect sv.current])
  | .collect current =>
    some (continueWith { sv with retired := [] }
      ((sv.retired ++ current.toList).flatMap fun s => retire s ++ forceClose s))

abbrev State := Config Service Op

def init : State := ⟨.new, []⟩

inductive Event where
  | go (i : Nat) (choice : Choice)
  | call
  | hangUp (l : Nat)
  | fire (s : Nat)
  | reload
  | close

def step (st : State) : Event → Option State
  | .go i choice => st.advance (exec choice) i
  | .call => some (st.spawn [.acquire .use])
  | .hangUp l => if (st.state.leases l).tracked then some (st.spawn [.closeConn l]) else none
  | .fire s =>
    if (st.state.snapshots s).drainTimer then
      some (Config.spawn ⟨st.state.setSnapshot s fun x => { x with drainTimer := false },
        st.goroutines⟩ (forceClose s))
    else none
  | .reload => some (st.spawn [.reload])
  | .close => some (st.spawn [.close])

end BypassCore.Runtime
