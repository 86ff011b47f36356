import BypassCore.Lib.Threads
import Mathlib.Data.Finset.Erase
import Mathlib.Data.Finset.Insert
import Mathlib.Data.Multiset.Range

/-!
# Carriers of an HTTPS CONNECT outbound

`Dial`, `dialCachedHTTP2`, `cacheHTTP2`, `retireCachedHTTP2`, `shutdownRetiredHTTP2` and `Close` of
`proxy/httpconnect/httpconnect.go`, with the `Close` of the tunnels. A carrier is a connection to
the proxy; one HTTP/2 carrier at a time is cached and shared by the tunnels, one that has been
replaced or found stale is retired and drained by a goroutine of its own. The calls of `Dial` with
the tunnels they return, the goroutines and the calls of `Close` are threads; each critical section
of `cacheMu` is a step, and so is each operation on a carrier outside of it. What the network and
the HTTP/2 client answer is chosen by the environment.
-/

namespace BypassCore.Proxy.HTTPConnect

open Lib Threads Finset

/-- The fields of `Handler` that the carriers depend on, with what has become of the carriers. -/
structure Handler where
  enableH2 : Bool
  closed : Bool := false
  /-- `cachedH2` and `cachedH2Raw`, which are set together. -/
  cached : Option ℕ := none
  /-- `retiredH2`, where nil is empty. -/
  retired : Finset ℕ := ∅
  /-- The connections made so far, which are numbered in turn. -/
  made : ℕ := 0
  /-- The connections that have been closed, by the handler or by the client on a failure. -/
  closedConns : Finset ℕ := ∅
  everCached : Finset ℕ := ∅
  released : Multiset ℕ := 0

/-- The close of a connection, which may be closed already. -/
def Handler.closeConn (h : Handler) (k : ℕ) : Handler :=
  { h with closedConns := insert k h.closedConns }

/-- The owner of a connection closes it and is done with it. -/
def Handler.release (h : Handler) (k : ℕ) : Handler :=
  { h.closeConn k with released := h.released + {k} }

inductive Thread where
  | starting
  /-- `dialCachedHTTP2` is about to look into the cache. -/
  | looking
  /-- `dialCachedHTTP2` has reserved a request on the cached carrier. -/
  | requesting (k : ℕ)
  /-- `retireCachedHTTP2` is about to take `cacheMu`. -/
  | retiring (k : ℕ)
  /-- `retireCachedHTTP2` has taken the carrier out of the cache of a closed handler. -/
  | closingStale (k : ℕ)
  /-- The goroutine of `shutdownRetiredHTTP2` is about to be started, by `retireCachedHTTP2` or by
  `cacheHTTP2`, which has put the carrier `kept` in the cache. -/
  | launching (k : ℕ) (kept : Option ℕ)
  | connecting
  | handshaking (k : ℕ)
  | connectingHTTP1 (k : ℕ)
  /-- `NewClientConn` is about to be called. -/
  | initializing (k : ℕ)
  | connectingHTTP2 (k : ℕ)
  /-- `cacheHTTP2` is about to take `cacheMu`. -/
  | caching (k : ℕ)
  /-- `cacheHTTP2` has found the handler closed. -/
  | discarding (k : ℕ)
  /-- `Dial` is about to close its connection and to return an error. -/
  | aborting (k : ℕ)
  | failed
  /-- `Dial` has returned a tunnel. That of HTTP/1.1 closes its connection. -/
  | tunnel (k : ℕ) (closeRaw : Bool)
  | tunnelClosed
  /-- The goroutine of `shutdownRetiredHTTP2` is in `Shutdown`. -/
  | shutting (k : ℕ)
  /-- `Shutdown` has failed. -/
  | forcing (k : ℕ)
  /-- The goroutine is about to take the carrier out of the retired set. -/
  | removing (k : ℕ)
  | removed
  | closing
  /-- `Close` has set `closed` and is about to take `cacheMu`. -/
  | collecting
  /-- `Close` goes through the carriers that were retired, and then to the one that was cached. -/
  | closingAll (retired : Finset ℕ) (cached : Option ℕ)
  | closeReturned
  | closeSkipped
deriving DecidableEq

abbrev State := Threads.Config Handler Thread

def newFromSettings (enableH2 : Bool) : State := ⟨{ enableH2 }, []⟩

/-! ### Steps -/

inductive Answer where
  | ok
  | error
  /-- `ReserveNewRequest` fails on a client that is closed or closing. -/
  | stale
  /-- `ReserveNewRequest` fails at the limit of concurrent streams. -/
  | full
  /-- A CONNECT that was cancelled, or that the proxy answered with another status. -/
  | refused
  /-- The protocols that a handshake may come to. -/
  | http1
  | h2
  | unsupported
  | carrier (k : ℕ)
deriving DecidableEq

def retireCachedHTTP2 (h : Handler) (k : ℕ) : Handler × Thread :=
  if h.cached = some k then
    if h.closed then ({ h with cached := none }, .closingStale k)
    else ({ h with cached := none, retired := insert k h.retired }, .launching k none)
  else (h, .connecting)

/-- The critical section of `cacheHTTP2`. The answer is that of `CanTakeNewRequest` on the carrier
in the cache. -/
def cacheHTTP2 (h : Handler) (k : ℕ) (healthy : Bool) : Handler × Thread :=
  if h.closed then (h, .discarding k)
  else
    match h.cached with
    | none =>
      -- `Dial` clears `closeRaw` before it returns the tunnel.
      ({ h with cached := some k, everCached := insert k h.everCached }, .tunnel k false)
    | some old =>
      if healthy then (h, .tunnel k true)
      else
        ({ h with
            cached := some k
            everCached := insert k h.everCached
            retired := insert old h.retired },
          .launching old (some k))

def exec (h : Handler) : Thread → Answer → Option (Handler × Thread)
  | .starting, .ok =>
    if h.closed then some (h, .failed)
    else if h.enableH2 then some (h, .looking)
    else some (h, .connecting)
  -- The destination is not valid, or `initialize` has failed.
  | .starting, .error => some (h, .failed)
  | .looking, answer =>
    match h.cached, answer with
    | none, _ => some (h, .connecting)
    | some k, .ok => some (h, .requesting k)
    | some k, .stale => some (h, .retiring k)
    | some _, .full => some (h, .connecting)
    | some _, _ => none
  | .requesting k, .ok => some (h, .tunnel k false)
  | .requesting _, .refused => some (h, .failed)
  | .requesting k, .error => some (h, .retiring k)
  | .retiring k, _ => some (retireCachedHTTP2 h k)
  | .closingStale k, _ => some (h.release k, .connecting)
  | .connecting, .ok => some ({ h with made := h.made + 1 }, .handshaking h.made)
  | .connecting, .error => some (h, .failed)
  | .handshaking k, .error => some (h, .aborting k)
  | .handshaking k, .http1 => some (h, .connectingHTTP1 k)
  | .handshaking k, .h2 => some (h, .initializing k)
  | .handshaking k, .unsupported => some (h, .aborting k)
  | .connectingHTTP1 k, .ok => some (h, .tunnel k true)
  | .connectingHTTP1 k, .error => some (h, .aborting k)
  | .initializing k, .ok => some (h, .connectingHTTP2 k)
  | .initializing k, .error => some (h, .aborting k)
  | .connectingHTTP2 k, .ok => some (h, .caching k)
  | .connectingHTTP2 k, .error => some (h, .aborting k)
  | .caching k, answer => some (cacheHTTP2 h k (answer = .ok))
  -- `cacheHTTP2` closes the connection, and `Dial` closes the tunnel on it.
  | .discarding k, _ => some (h.closeConn k, .aborting k)
  | .aborting k, _ => some (h.release k, .failed)
  | .tunnel k true, _ => some (h.release k, .tunnelClosed)
  | .tunnel _ false, _ => some (h, .tunnelClosed)
  -- A shutdown that succeeds has closed the connection.
  | .shutting k, .ok => some (h.release k, .removing k)
  | .shutting k, .error => some (h, .forcing k)
  | .forcing k, _ => some (h.release k, .removing k)
  | .removing k, _ => some ({ h with retired := h.retired.erase k }, .removed)
  | .closing, _ =>
    if h.closed then some (h, .closeSkipped) else some ({ h with closed := true }, .collecting)
  | .collecting, _ =>
    some ({ h with cached := none, retired := ∅ }, .closingAll h.retired h.cached)
  | .closingAll retired cached, .carrier k =>
    if k ∈ retired then some (h.closeConn k, .closingAll (retired.erase k) cached) else none
  | .closingAll retired cached, .ok =>
    if retired = ∅ then
      match cached with
      | some k => some (h.release k, .closingAll ∅ none)
      | none => some (h, .closeReturned)
    else none
  | _, _ => none

/-- The start of the goroutine of `shutdownRetiredHTTP2`, and where its caller goes on. -/
def shutdownRetiredHTTP2 : Thread → Option (Thread × Thread)
  | .launching k none => some (.connecting, .shutting k)
  | .launching k (some kept) => some (.tunnel kept false, .shutting k)
  | _ => none

inductive Action where
  | dial
  | close
  /-- The client of a carrier sees a failure and closes the connection. -/
  | fail (k : ℕ)
  | advance (i : ℕ) (answer : Answer)
  | launch (i : ℕ)
deriving DecidableEq

def step (s : State) : Action → Option State
  | .dial => some (s.spawn .starting)
  | .close => some (s.spawn .closing)
  | .fail k =>
    if k < s.shared.made then some { s with shared := s.shared.closeConn k } else none
  | .advance i answer => s.advance (fun _ => exec) i answer
  | .launch i => s.fork shutdownRetiredHTTP2 i

inductive Moves (h : Handler) : Thread → Handler → Thread → Prop where
  | rejects : Moves h .starting h .failed
  | looks : Moves h .starting h .looking
  | skips : Moves h .starting h .connecting
  | misses : Moves h .looking h .connecting
  | reserves {k} (hk : h.cached = some k) : Moves h .looking h (.requesting k)
  | suspects {k} (hk : h.cached = some k) : Moves h .looking h (.retiring k)
  | shares {k} : Moves h (.requesting k) h (.tunnel k false)
  | refuses {k} : Moves h (.requesting k) h .failed
  | breaks {k} : Moves h (.requesting k) h (.retiring k)
  | uncaches {k} (hk : h.cached = some k) (hc : h.closed = true) :
    Moves h (.retiring k) { h with cached := none } (.closingStale k)
  | retires {k} (hk : h.cached = some k) (hc : h.closed = false) :
    Moves h (.retiring k) { h with cached := none, retired := insert k h.retired }
      (.launching k none)
  | leaves {k} : Moves h (.retiring k) h .connecting
  | closesStale {k} : Moves h (.closingStale k) (h.release k) .connecting
  | connects : Moves h .connecting { h with made := h.made + 1 } (.handshaking h.made)
  | unreachable : Moves h .connecting h .failed
  | fails {k t} (ht : t = .handshaking k ∨ t = .connectingHTTP1 k ∨ t = .initializing k ∨
      t = .connectingHTTP2 k) : Moves h t h (.aborting k)
  | negotiatesHTTP1 {k} : Moves h (.handshaking k) h (.connectingHTTP1 k)
  | negotiatesH2 {k} : Moves h (.handshaking k) h (.initializing k)
  | opensHTTP1 {k} : Moves h (.connectingHTTP1 k) h (.tunnel k true)
  | initializes {k} : Moves h (.initializing k) h (.connectingHTTP2 k)
  | opensHTTP2 {k} : Moves h (.connectingHTTP2 k) h (.caching k)
  | late {k} : Moves h (.caching k) h (.discarding k)
  | caches {k} (hc : h.closed = false) (hk : h.cached = none) :
    Moves h (.caching k) { h with cached := some k, everCached := insert k h.everCached }
      (.tunnel k false)
  | staysPrivate {k} : Moves h (.caching k) h (.tunnel k true)
  | replaces {k old} (hc : h.closed = false) (hk : h.cached = some old) :
    Moves h (.caching k)
      { h with
        cached := some k
        everCached := insert k h.everCached
        retired := insert old h.retired }
      (.launching old (some k))
  | discards {k} : Moves h (.discarding k) (h.closeConn k) (.aborting k)
  | aborts {k} : Moves h (.aborting k) (h.release k) .failed
  | closesPrivate {k} : Moves h (.tunnel k true) (h.release k) .tunnelClosed
  | closesShared {k} : Moves h (.tunnel k false) h .tunnelClosed
  | drains {k} : Moves h (.shutting k) (h.release k) (.removing k)
  | stalls {k} : Moves h (.shutting k) h (.forcing k)
  | forces {k} : Moves h (.forcing k) (h.release k) (.removing k)
  | removes {k} : Moves h (.removing k) { h with retired := h.retired.erase k } .removed
  | closes : Moves h .closing { h with closed := true } .collecting
  | skipsClose : Moves h .closing h .closeSkipped
  | collects :
    Moves h .collecting { h with cached := none, retired := ∅ } (.closingAll h.retired h.cached)
  | closesRetired {k retired cached} :
    Moves h (.closingAll retired cached) (h.closeConn k) (.closingAll (retired.erase k) cached)
  | closesCached {k} :
    Moves h (.closingAll ∅ (some k)) (h.release k) (.closingAll ∅ none)
  | returns : Moves h (.closingAll ∅ none) h .closeReturned

variable {h h' : Handler} {t t' : Thread} {answer : Answer} {k : ℕ} {r : Handler × Thread}

lemma moves_of_retire (hr : retireCachedHTTP2 h k = r) : Moves h (.retiring k) r.1 r.2 := by
  unfold retireCachedHTTP2 at hr
  split_ifs at hr with hcached hclosed
  · subst hr
    exact .uncaches hcached hclosed
  · subst hr
    exact .retires hcached (Bool.eq_false_iff.mpr hclosed)
  · subst hr
    exact .leaves

lemma moves_of_cache {healthy : Bool} (hr : cacheHTTP2 h k healthy = r) :
    Moves h (.caching k) r.1 r.2 := by
  unfold cacheHTTP2 at hr
  split at hr
  · subst hr
    exact .late
  · next hclosed =>
    have hopen := Bool.eq_false_iff.mpr hclosed
    split at hr
    · next hnone =>
      subst hr
      exact .caches hopen hnone
    · next old hold =>
      split_ifs at hr
      · subst hr
        exact .staysPrivate
      · subst hr
        exact .replaces hopen hold

lemma moves_of_exec (hexec : exec h t answer = some (h', t')) : Moves h t h' t' := by
  cases t with
  | starting =>
    cases answer with
    | ok =>
      simp only [exec] at hexec
      split_ifs at hexec <;> cases hexec
      · exact .rejects
      · exact .looks
      · exact .skips
    | error =>
      cases hexec
      exact .rejects
    | _ => cases hexec
  | looking =>
    simp only [exec] at hexec
    split at hexec <;> cases hexec
    · exact .misses
    · next hk =>
      exact .reserves hk
    · next hk =>
      exact .suspects hk
    · exact .misses
  | requesting k =>
    cases answer with cases hexec
    | ok => exact .shares
    | refused => exact .refuses
    | error => exact .breaks
  | retiring k =>
    rw [exec, Option.some.injEq] at hexec
    exact moves_of_retire hexec
  | closingStale k =>
    cases hexec
    exact .closesStale
  | connecting =>
    cases answer with cases hexec
    | ok => exact .connects
    | error => exact .unreachable
  | handshaking k =>
    cases answer with cases hexec
    | error | unsupported => exact .fails (.inl rfl)
    | http1 => exact .negotiatesHTTP1
    | h2 => exact .negotiatesH2
  | connectingHTTP1 k =>
    cases answer with cases hexec
    | ok => exact .opensHTTP1
    | error => exact .fails (.inr (.inl rfl))
  | initializing k =>
    cases answer with cases hexec
    | ok => exact .initializes
    | error => exact .fails (.inr (.inr (.inl rfl)))
  | connectingHTTP2 k =>
    cases answer with cases hexec
    | ok => exact .opensHTTP2
    | error => exact .fails (.inr (.inr (.inr rfl)))
  | caching k =>
    rw [exec, Option.some.injEq] at hexec
    exact moves_of_cache hexec
  | discarding k =>
    cases hexec
    exact .discards
  | aborting k =>
    cases hexec
    exact .aborts
  | tunnel k closeRaw =>
    cases closeRaw with cases hexec
    | true => exact .closesPrivate
    | false => exact .closesShared
  | shutting k =>
    cases answer with cases hexec
    | ok => exact .drains
    | error => exact .stalls
  | forcing k =>
    cases hexec
    exact .forces
  | removing k =>
    cases hexec
    exact .removes
  | closing =>
    simp only [exec] at hexec
    split_ifs at hexec <;> cases hexec
    · exact .skipsClose
    · exact .closes
  | collecting =>
    cases hexec
    exact .collects
  | closingAll retired cached =>
    cases answer with
    | carrier k =>
      simp only [exec] at hexec
      split_ifs at hexec
      cases hexec
      exact .closesRetired
    | ok =>
      simp only [exec] at hexec
      split_ifs at hexec with hempty
      subst hempty
      cases cached with cases hexec
      | some k => exact .closesCached
      | none => exact .returns
    | _ => cases hexec
  | launching | failed | tunnelClosed | removed | closeReturned | closeSkipped => cases hexec

/-!
## What the threads hold

Each connection that has been made is in the cache, with one thread, or has been closed by its
owner, and no operation loses one or makes a second of one. A connection that has been in the cache
is used by many; one that a thread holds for itself has never been there.
-/

variable {t t' u : Thread}

def slot : Option ℕ → Multiset ℕ
  | none => 0
  | some k => {k}

@[simp] lemma slot_none : slot none = 0 := rfl

@[simp] lemma slot_some (k : ℕ) : slot (some k) = {k} := rfl

lemma mem_slot {o : Option ℕ} : k ∈ slot o ↔ o = some k := by
  cases o with
  | none => simp
  | some c => simp [eq_comm]

namespace Thread

/-- The connection that a call of `Dial` is to close, to keep or to hand on. -/
def dialing : Thread → Option ℕ
  | .closingStale k | .handshaking k | .connectingHTTP1 k | .initializing k | .connectingHTTP2 k
  | .caching k | .discarding k | .aborting k => some k
  | _ => none

def shutdown : Thread → Option ℕ
  | .launching k _ | .shutting k | .forcing k => some k
  | _ => none

/-- The connection that a thread is to close in the end, or to put in the cache. -/
def holds : Thread → Multiset ℕ
  | .closingStale k | .handshaking k | .connectingHTTP1 k | .initializing k | .connectingHTTP2 k
  | .caching k | .discarding k | .aborting k | .launching k _ | .shutting k | .forcing k
  | .tunnel k true => {k}
  | .closingAll _ cached => slot cached
  | _ => 0

/-- A connection that a thread holds for itself has not been in the cache, and one that it shares
has. After `Close` has been through its critical section the cache stays empty. -/
def Sound (h : Handler) : Thread → Prop
  | .handshaking k | .connectingHTTP1 k | .initializing k | .connectingHTTP2 k | .caching k
  | .discarding k | .aborting k | .tunnel k true => k ∉ h.everCached
  | .requesting k | .tunnel k false | .launching _ (some k) => k ∈ h.everCached
  | .collecting => h.closed = true
  | .closingAll _ _ | .closeReturned => h.closed = true ∧ h.cached = none
  | _ => True

end Thread

/-! ### The operations -/

/-- A connection that its owner has closed is counted as released. -/
lemma released_release (h : Handler) (k : ℕ) :
    (h.release k).released + slot (h.release k).cached + 0 = h.released + slot h.cached + {k} := by
  rw [add_zero]
  exact add_right_comm _ _ _

section Moves

variable (hm : Moves h t h' t')
include hm

lemma tokens_moves :
    (h'.made = h.made ∧
      h'.released + slot h'.cached + t'.holds = h.released + slot h.cached + t.holds) ∨
    (h'.made = h.made + 1 ∧
      h'.released + slot h'.cached + t'.holds =
        h.released + slot h.cached + t.holds + {h.made}) := by
  cases hm with
  | connects =>
    refine .inr ⟨rfl, ?_⟩
    simp only [Thread.holds, add_zero]
  | fails ht => rcases ht with rfl | rfl | rfl | rfl <;> exact .inl ⟨rfl, rfl⟩
  | uncaches hk | retires hk | caches _ hk | replaces _ hk =>
    refine .inl ⟨rfl, ?_⟩
    rw [hk]
    exact add_right_comm _ _ _
  | collects => exact .inl ⟨rfl, add_right_comm _ _ _⟩
  | closesStale | aborts | closesPrivate | drains | forces | closesCached =>
    exact .inl ⟨rfl, released_release h _⟩
  | _ => exact .inl ⟨rfl, rfl⟩

lemma closedConns_moves (hk : k ∈ h.closedConns) : k ∈ h'.closedConns := by
  cases hm with
  | closesStale | discards | aborts | closesPrivate | drains | forces | closesRetired
  | closesCached => exact mem_insert_of_mem hk
  | _ => exact hk

lemma released_moves (hreleased : ∀ k ∈ h.released, k ∈ h.closedConns) :
    ∀ k ∈ h'.released, k ∈ h'.closedConns := by
  intro k hk
  cases hm with
  | closesStale | aborts | closesPrivate | drains | forces | closesCached =>
    rcases Multiset.mem_add.mp hk with hk | hk
    · exact mem_insert_of_mem (hreleased k hk)
    · rw [Multiset.mem_singleton.mp hk]
      exact mem_insert_self _ _
  | discards | closesRetired => exact mem_insert_of_mem (hreleased k hk)
  | _ => exact hreleased k hk

/-- A carrier comes into the cache from the thread that made it. -/
lemma everCached_moves (hk : k ∈ h'.everCached) : k ∈ h.everCached ∨ k ∈ t.holds := by
  cases hm with
  | caches | replaces =>
    rcases mem_insert.mp hk with rfl | hk
    · exact .inr (Multiset.mem_singleton_self _)
    · exact .inl hk
  | _ => exact .inl hk

lemma everCached_mono (hk : k ∈ h.everCached) : k ∈ h'.everCached := by
  cases hm with
  | caches | replaces => exact mem_insert_of_mem hk
  | _ => exact hk

lemma closed_moves (hclosed : h.closed = true) : h'.closed = true := by
  cases hm with
  | closes => rfl
  | _ => exact hclosed

lemma cached_none_moves (hclosed : h.closed = true) (hnone : h.cached = none) :
    h'.cached = none := by
  cases hm with
  | caches hc | replaces hc => exact absurd (hclosed.symm.trans hc) nofun
  | uncaches | retires | collects => rfl
  | _ => exact hnone

lemma cached_moves (hcached : ∀ k, h.cached = some k → k ∈ h.everCached) :
    ∀ k, h'.cached = some k → k ∈ h'.everCached := by
  intro k hk
  cases hm with
  | caches | replaces =>
    rw [← Option.some.inj hk]
    exact mem_insert_self _ _
  | uncaches | retires | collects => exact absurd hk nofun
  | _ => exact hcached k hk

lemma retired_moves (hk : k ∈ h'.retired) :
    k ∈ h.retired ∨ (h.cached = some k ∧ t'.shutdown = some k) := by
  cases hm with
  | retires hcached | replaces _ hcached =>
    rcases mem_insert.mp hk with rfl | hk
    · exact .inr ⟨hcached, rfl⟩
    · exact .inl hk
  | removes => exact .inl (mem_of_mem_erase hk)
  | collects => exact absurd hk (notMem_empty _)
  | _ => exact .inl hk

/-- A shutdown is pending until the carrier is closed. -/
lemma shutdown_moves (hk : t.shutdown = some k) : t'.shutdown = some k ∨ k ∈ h'.closedConns := by
  cases hm with
  | stalls => exact .inl hk
  | drains | forces =>
    rw [← Option.some.inj hk]
    exact .inr (mem_insert_self _ _)
  | fails ht => rcases ht with rfl | rfl | rfl | rfl <;> exact absurd hk nofun
  | _ => exact absurd hk nofun

end Moves

lemma Thread.Sound.kept (hu : u.Sound h) (hshared : ∀ k ∈ h.everCached, k ∈ h'.everCached)
    (hown : ∀ k ∈ u.holds, k ∈ h'.everCached → k ∈ h.everCached)
    (hclosed : h.closed = true → h'.closed = true)
    (hnone : h.closed = true → h.cached = none → h'.cached = none) : u.Sound h' := by
  cases u with
  | handshaking | connectingHTTP1 | initializing | connectingHTTP2 | caching | discarding
  | aborting => exact fun hk => hu (hown _ (Multiset.mem_singleton_self _) hk)
  | requesting => exact hshared _ hu
  | tunnel k closeRaw =>
    cases closeRaw with
    | true => exact fun hk => hu (hown _ (Multiset.mem_singleton_self _) hk)
    | false => exact hshared _ hu
  | launching k kept =>
    cases kept with
    | none => trivial
    | some kept => exact hshared _ hu
  | collecting => exact hclosed hu
  | closingAll | closeReturned => exact ⟨hclosed hu.1, hnone hu.1 hu.2⟩
  | _ => trivial

lemma sound_moves (hm : Moves h t h' t') (ht : t.Sound h)
    (hcached : ∀ k, h.cached = some k → k ∈ h.everCached)
    (hmade : ∀ k ∈ h.everCached, k < h.made) : t'.Sound h' := by
  cases hm with
  | reserves hk => exact hcached _ hk
  | connects => exact fun hk => absurd (hmade _ hk) (Nat.lt_irrefl _)
  | fails hfrom => rcases hfrom with rfl | rfl | rfl | rfl <;> exact ht
  | caches | replaces => exact mem_insert_self _ _
  | collects => exact ⟨ht, rfl⟩
  | closes => rfl
  | shares | negotiatesHTTP1 | negotiatesH2 | opensHTTP1 | initializes | opensHTTP2 | late
  | staysPrivate | discards | closesRetired | closesCached | returns => exact ht
  | _ => trivial

end BypassCore.Proxy.HTTPConnect
