import BypassCore.Geodata.IPMatcher.Basic
import BypassCore.Lib.Runs

/-!
# The store of DNS results

The part of `cmd/bypasscore/runtime.go` and `app/dnsevent/sink.go` that keeps the last DNS result
of each domain and server for consumers that resynchronize. The observers of DNS results and the
`DNSResults` calls run concurrently; their atomic steps are the taking of a sequence number, the
recording under the lock, the reading of the clock, the scan under the lock and the load of the
counter.
-/

namespace BypassCore.DNSResults

open Lib RangeOrder

/-- The functions of the standard library that the events go through: `strings.ToLower` and
`net.IP.String`. -/
structure GoStrings where
  toLower : String → String
  ipString : NetIP → String

/-- `appdns.Result`; `time` is its `At` in Unix seconds. -/
structure Result where
  domain : String
  ips : List NetIP
  ttl : UInt32
  serverTag : String
  time : Int

structure Event where
  sequence : Nat
  configRevision : Nat
  domain : String
  ips : List String
  ttl : UInt32
  serverTag : String
  timestamp : Int
  expiresAt : Int
  droppedBefore : Nat
deriving DecidableEq

variable (G : GoStrings)

def newEvent (result : Result) (revision sequence : Nat) : Event where
  sequence := sequence
  configRevision := revision
  domain := result.domain
  ips := result.ips.map G.ipString
  ttl := result.ttl
  serverTag := result.serverTag
  timestamp := result.time
  expiresAt := result.time + result.ttl.toNat
  droppedBefore := 0

def Event.key (G : GoStrings) (event : Event) : String :=
  G.toLower event.domain ++ "\x00" ++ event.serverTag

abbrev Store := GoMap String Event

/-- The key with the smallest sequence number, as the loop of `recordDNSResult` finds it. -/
def oldestKey (entries : List (Sigma fun _ : String => Event)) : String :=
  (entries.foldl
    (fun oldest e => if e.2.sequence < oldest.2 then (e.1, e.2.sequence) else oldest)
    ("", 2 ^ 64 - 1)).1

def assigned (store : Store) (event : Event) : Store :=
  store.insert (event.key G) event

variable (ord : RangeOrder)

def boundKey (store : Store) (event : Event) : Option String :=
  if (assigned G store event).entries.length > 4096 then
    some (oldestKey (ord.order 0 (assigned G store event).entries))
  else none

def recordDNSResult (store : Store) (event : Event) : Store :=
  match boundKey G ord store event with
  | none => assigned G store event
  | some key => (assigned G store event).erase key

/-- The entries that a scan keeps: an expired entry is deleted. -/
def unexpired (now : Int) (store : Store) : List (Sigma fun _ : String => Event) :=
  store.entries.filter fun e => now < e.2.expiresAt

def scanStore (now : Int) (store : Store) : Store :=
  ⟨unexpired now store, (List.filter_sublist.map Sigma.fst).nodup store.nodupKeys⟩

def scanResults (now : Int) (store : Store) : List Event :=
  ((ord.order 0 (unexpired now store)).map fun e => e.2).insertionSort
    fun a b => a.sequence ≤ b.sequence

/-! ### Observers and calls -/

structure EventStats where
  queuedBytes : Int
  dropped : Nat

structure StartedCall where
  configRevision : Nat
  now : Int

/-- A `DNSResults` call that has released the lock after its scan. The last two fields belong to
the history: the time of the scan and what the size bound had removed until then. -/
structure ScannedCall where
  configRevision : Nat
  results : List Event
  scannedAt : Int
  evicted : List Event

/-- The response of a `DNSResults` call, with the history of its scan. -/
structure Response extends ScannedCall where
  lastSequence : Nat
  eventStats : EventStats

/-- The shared state, the parties between two of their steps, and the history. -/
structure State where
  dnsEventSequence : Nat
  dnsResults : Store
  clock : Int
  /-- The events of the observers that have taken a number and not recorded yet. -/
  observers : List Event
  started : List StartedCall
  scanned : List ScannedCall
  issued : List Event
  recorded : List Event
  evicted : List Event
  /-- The assignments that replaced an event: the old one and the new one. -/
  replaced : List (Event × Event)
  responses : List Response

def State.init (clock : Int) : State where
  dnsEventSequence := 0
  dnsResults := ∅
  clock := clock
  observers := []
  started := []
  scanned := []
  issued := []
  recorded := []
  evicted := []
  replaced := []
  responses := []

/-- The atomic steps. An observer or a call is named by its place among those at its stage. -/
inductive Step where
  | tick (d : Nat)
  /-- An observer takes a number and builds its event. -/
  | observe (result : Result) (revision : Nat)
  /-- An observer records its event under the lock. -/
  | record (i : Nat) (ord : RangeOrder)
  /-- A `DNSResults` call reads the clock. -/
  | begin (revision : Nat)
  /-- A `DNSResults` call scans the store under the lock. -/
  | scan (i : Nat) (ord : RangeOrder)
  | load (i : Nat) (eventStats : EventStats)

/-- The event of an observer that takes its number now. The counter is a `uint64`. -/
def State.nextEvent (s : State) (result : Result) (revision : Nat) : Event :=
  newEvent G result revision ((s.dnsEventSequence + 1) % 2 ^ 64)

def State.recordEvent (s : State) (event : Event) : State :=
  { s with
    dnsResults := recordDNSResult G ord s.dnsResults event
    recorded := event :: s.recorded
    evicted := ((boundKey G ord s.dnsResults event).bind
      (assigned G s.dnsResults event).lookup).toList ++ s.evicted
    replaced := (s.dnsResults.lookup (event.key G)).toList.map (·, event) ++ s.replaced }

def step (s : State) : Step → Option State
  | .tick d => some { s with clock := s.clock + d }
  | .observe result revision =>
    let event := s.nextEvent G result revision
    some { s with
      dnsEventSequence := event.sequence
      observers := s.observers ++ [event]
      issued := event :: s.issued }
  | .record i ord =>
    s.observers[i]?.map fun event =>
      { s.recordEvent G ord event with observers := s.observers.eraseIdx i }
  | .begin revision => some { s with started := s.started ++ [⟨revision, s.clock⟩] }
  | .scan i ord =>
    s.started[i]?.map fun call =>
      { s with
        dnsResults := scanStore call.now s.dnsResults
        started := s.started.eraseIdx i
        scanned := s.scanned ++ [⟨call.configRevision, scanResults ord call.now s.dnsResults,
          s.clock, s.evicted⟩] }
  | .load i eventStats =>
    s.scanned[i]?.map fun call =>
      { s with
        scanned := s.scanned.eraseIdx i
        responses := s.responses ++ [⟨call, s.dnsEventSequence, eventStats⟩] }

/-!
## Resynchronizing from the store of DNS results

A consumer that restarts from a `DNSResults` response drops every event with a number up to the
reported `lastSequence`, so the response must hold the latest of these events for each key. This
is so along every run in which no observer overtakes another one or a scan.
-/

open List

variable {G : GoStrings} {s t : State}

/-- The event with the greatest number of its key. -/
def Latest (G : GoStrings) (events : List Event) (e : Event) : Prop :=
  e ∈ events ∧ ∀ e' ∈ events, e'.key G = e.key G → e'.sequence ≤ e.sequence

/-- Every response holds, for each key, the latest event up to its `lastSequence` unless that one
is expired or was removed by the size bound, and no event is replaced by one with a smaller
number. -/
structure State.Resync (G : GoStrings) (s : State) : Prop where
  complete : ∀ r ∈ s.responses, ∀ e,
    Latest G (s.issued.filter fun e => e.sequence ≤ r.lastSequence) e →
    r.scannedAt < e.expiresAt → e ∉ r.evicted → e ∈ r.results
  monotone : ∀ p ∈ s.replaced, p.1.sequence ≤ p.2.sequence

/-- The steps that keep the observers in order: a number is taken while the counter does not wrap
and no call is between its scan and its load, unless the event is expired there already; an event
is recorded over older ones only; and a scan happens when every event with a number that is still
to be recorded is expired. -/
def InOrder (G : GoStrings) (s : State) : Step → Prop
  | .observe result revision =>
    s.dnsEventSequence + 1 < 2 ^ 64 ∧
      ∀ c ∈ s.scanned, (s.nextEvent G result revision).expiresAt ≤ c.scannedAt
  | .record i _ =>
    ∀ e ∈ s.observers[i]?, ∀ old ∈ s.dnsResults.lookup (e.key G), old.sequence < e.sequence
  | .scan _ _ => ∀ e ∈ s.observers, e.expiresAt ≤ s.clock
  | _ => True

instance (G : GoStrings) (s : State) : ∀ e, Decidable (InOrder G s e)
  | .observe _ _ => inferInstanceAs (Decidable (_ ∧ _))
  | .record i _ => inferInstanceAs (Decidable (∀ e ∈ s.observers[i]?, _))
  | .scan _ _ => inferInstanceAs (Decidable (∀ e ∈ s.observers, _))
  | .tick _ => isTrue trivial
  | .begin _ => isTrue trivial
  | .load _ _ => isTrue trivial

variable {store : Store} {v : Event} {k : String}

lemma lookup_recordDNSResult (ord : RangeOrder) {event : Event}
    (h : (assigned G store event).lookup k = some v) :
    (recordDNSResult G ord store event).lookup k = some v ∨
      ((boundKey G ord store event).bind (assigned G store event).lookup) = some v := by
  cases hb : boundKey G ord store event with
  | none =>
    left
    simpa only [recordDNSResult, hb] using h
  | some key =>
    by_cases hk : k = key
    · right
      rw [Option.bind_some, ← hk, h]
    · left
      simp only [recordDNSResult, hb]
      rw [GoMap.lookup_erase_eq, if_neg hk, h]

variable {now : Int}

lemma mem_unexpired (h : store.lookup k = some v) (hv : now < v.expiresAt) :
    (⟨k, v⟩ : Sigma fun _ : String => Event) ∈ unexpired now store := by
  refine mem_filter.mpr ⟨GoMap.lookup_eq_some_iff.mp h, ?_⟩
  simpa using hv

/-- A scan keeps an unexpired event. -/
lemma lookup_scanStore (h : store.lookup k = some v) (hv : now < v.expiresAt) :
    (scanStore now store).lookup k = some v :=
  GoMap.lookup_eq_some_iff.mpr (mem_unexpired h hv)

variable {ord : RangeOrder}

/-- A scan returns an unexpired event. -/
lemma mem_scanResults
    (h : store.lookup k = some v) (hv : now < v.expiresAt) : v ∈ scanResults ord now store := by
  rw [scanResults, mem_insertionSort, mem_map]
  exact ⟨⟨k, v⟩, (ord.perm 0 _).mem_iff.mpr (mem_unexpired h hv), rfl⟩

/-! ### The invariant -/

/-- An event is in the store unless it is expired or was removed by the size bound. -/
def Kept (G : GoStrings) (s : State) (e : Event) : Prop :=
  s.dnsResults.lookup (e.key G) = some e ∨ e.expiresAt ≤ s.clock ∨ e ∈ s.evicted

structure Inv (G : GoStrings) (s : State) : Prop where
  issued_le : ∀ e ∈ s.issued, e.sequence ≤ s.dnsEventSequence
  issued_iff : ∀ e, e ∈ s.issued ↔ e ∈ s.observers ∨ e ∈ s.recorded
  now_le : ∀ c ∈ s.started, c.now ≤ s.clock
  kept : ∀ e, Latest G s.recorded e → Kept G s e
  scanned : ∀ c ∈ s.scanned, ∀ e, Latest G s.issued e → c.scannedAt < e.expiresAt →
    e ∉ c.evicted → e ∈ c.results
  lastSequence_le : ∀ r ∈ s.responses, r.lastSequence ≤ s.dnsEventSequence
  resync : s.Resync G

lemma inv_init (G : GoStrings) (clock : Int) : Inv G (State.init clock) := by
  constructor <;> simp [State.init, Latest]
  constructor <;> simp

/-- Adding an event does not make another one the latest. -/
lemma Latest.of_cons {e e' : Event} {events : List Event} (h : Latest G (e' :: events) e)
    (hne : e ≠ e') : Latest G events e := by
  refine ⟨(mem_cons.mp h.1).resolve_left hne, ?_⟩
  intro e'' he''
  exact h.2 e'' (mem_cons_of_mem _ he'')

section

variable (h : Inv G s)
include h

/-- Time only makes events expire. -/
lemma Inv.tick (d : Nat) : Inv G { s with clock := s.clock + d } where
  issued_le := h.issued_le
  issued_iff := h.issued_iff
  now_le := by
    intro c hc
    have := h.now_le c hc
    show c.now ≤ s.clock + d
    omega
  kept := by
    intro e he
    rcases h.kept e he with hk | hk | hk
    · exact .inl hk
    · refine .inr (Or.inl ?_)
      show e.expiresAt ≤ s.clock + d
      omega
    · exact .inr (.inr hk)
  scanned := h.scanned
  lastSequence_le := h.lastSequence_le
  resync := ⟨h.resync.complete, h.resync.monotone⟩

/-- A call only remembers the time. -/
lemma Inv.begin (revision : Nat) :
    Inv G { s with started := s.started ++ [⟨revision, s.clock⟩] } where
  issued_le := h.issued_le
  issued_iff := h.issued_iff
  now_le := by
    intro c hc
    rcases mem_append.mp hc with hc | hc
    · exact h.now_le c hc
    · rw [mem_singleton.mp hc]
  kept := h.kept
  scanned := h.scanned
  lastSequence_le := h.lastSequence_le
  resync := ⟨h.resync.complete, h.resync.monotone⟩

/-- Taking a number: the new event is newer than every response and every scan. -/
lemma Inv.observe {result : Result} {revision : Nat} (hg : InOrder G s (.observe result revision))
    (hs : step G s (.observe result revision) = some t) : Inv G t := by
  obtain ⟨hwrap, hexp⟩ := hg
  cases hs
  have hseq : (s.nextEvent G result revision).sequence = s.dnsEventSequence + 1 :=
    Nat.mod_eq_of_lt hwrap
  refine ⟨?_, ?_, h.now_le, h.kept, ?_, ?_, ⟨?_, h.resync.monotone⟩⟩
  · intro e he
    rcases mem_cons.mp he with rfl | he
    · exact le_refl _
    · have := h.issued_le e he
      show e.sequence ≤ (s.nextEvent G result revision).sequence
      omega
  · intro e
    simp only [mem_cons, mem_append, h.issued_iff]
    tauto
  · intro c hc e he hlt hev
    by_cases hnew : e = s.nextEvent G result revision
    · -- the guard says that the new event is expired for this call
      rw [hnew] at hlt
      exact absurd (hexp c hc) (by omega)
    · exact h.scanned c hc e (he.of_cons hnew) hlt hev
  · intro r hr
    have := h.lastSequence_le r hr
    show r.lastSequence ≤ (s.nextEvent G result revision).sequence
    omega
  · intro r hr e he
    apply h.resync.complete r hr e
    have hlast := h.lastSequence_le r hr
    have hnot : ¬ (s.nextEvent G result revision).sequence ≤ r.lastSequence := by omega
    rwa [filter_cons_of_neg (by simpa using hnot)] at he

/-- Recording: the latest recorded event of the key is the new one, or it was gone before. -/
lemma Inv.record {i : Nat} (hg : InOrder G s (.record i ord))
    (hs : step G s (.record i ord) = some t) : Inv G t := by
  obtain ⟨event, hi, rfl⟩ := Option.map_eq_some_iff.mp hs
  have hguard := hg event hi
  have hobs : ∀ e, e ∈ s.observers ↔ e = event ∨ e ∈ s.observers.eraseIdx i := by
    intro e
    rw [(pick_perm hi).mem_iff, mem_cons]
  refine ⟨h.issued_le, ?_, h.now_le, ?_, h.scanned, h.lastSequence_le, ⟨h.resync.complete, ?_⟩⟩
  · intro e
    show e ∈ s.issued ↔ e ∈ s.observers.eraseIdx i ∨ e ∈ event :: s.recorded
    rw [h.issued_iff, hobs, mem_cons]
    tauto
  · intro e he
    -- an event that is assigned stays, or the size bound removes it now
    have hstays : (assigned G s.dnsResults event).lookup (e.key G) = some e →
        Kept G { s.recordEvent G ord event with observers := s.observers.eraseIdx i } e := by
      intro hassigned
      rcases lookup_recordDNSResult ord hassigned with hk | hk
      · exact .inl hk
      · refine .inr (Or.inr ?_)
        simp [State.recordEvent, hk]
    by_cases hnew : e = event
    · apply hstays
      rw [assigned, GoMap.lookup_insert_eq, hnew, if_pos rfl]
    · rcases h.kept e (Latest.of_cons he hnew) with hk | hk | hk
      · apply hstays
        rw [assigned, GoMap.lookup_insert_eq, if_neg, hk]
        intro hkey
        have hlt := hguard e (by rw [← hkey]; exact hk)
        have hle := he.2 event mem_cons_self hkey.symm
        omega
      · exact .inr (.inl hk)
      · refine .inr (Or.inr ?_)
        exact mem_append_right _ hk
  · intro p hp
    rcases mem_append.mp hp with hp | hp
    · simp only [mem_map, Option.mem_toList] at hp
      obtain ⟨old, hold, rfl⟩ := hp
      exact (hguard old hold).le
    · exact h.resync.monotone p hp

/-- Scanning: nothing unexpired waits to be recorded, so the store has the latest events. -/
lemma Inv.scan {i : Nat} (hg : InOrder G s (.scan i ord)) (hs : step G s (.scan i ord) = some t) :
    Inv G t := by
  obtain ⟨call, hi, rfl⟩ := Option.map_eq_some_iff.mp hs
  have hnow := h.now_le call (mem_of_getElem? hi)
  refine ⟨h.issued_le, h.issued_iff, ?_, ?_, ?_, h.lastSequence_le,
    ⟨h.resync.complete, h.resync.monotone⟩⟩
  · intro c hc
    exact h.now_le c (mem_of_mem_eraseIdx hc)
  · intro e he
    rcases h.kept e he with hk | hk | hk
    · by_cases hexp : e.expiresAt ≤ s.clock
      · exact .inr (.inl hexp)
      · exact .inl (lookup_scanStore hk (by omega))
    · exact .inr (.inl hk)
    · exact .inr (.inr hk)
  · intro c hc e he hlt hev
    rcases mem_append.mp hc with hc | hc
    · exact h.scanned c hc e he hlt hev
    · rw [mem_singleton.mp hc] at hlt hev ⊢
      have hrec : e ∈ s.recorded := by
        rcases (h.issued_iff e).mp he.1 with hobs | hrec
        · exact absurd (hg e hobs) (by simpa using hlt)
        · exact hrec
      have hlatest : Latest G s.recorded e := by
        refine ⟨hrec, ?_⟩
        intro e' he'
        exact he.2 e' ((h.issued_iff e').mpr (.inr he'))
      rcases h.kept e hlatest with hk | hk | hk
      · exact mem_scanResults hk (lt_of_le_of_lt hnow hlt)
      · exact absurd hk (by simpa using hlt)
      · exact absurd hk hev

/-- Loading: the counter counts exactly the events of the scan. -/
lemma Inv.load {i : Nat} {eventStats : EventStats} (hs : step G s (.load i eventStats) = some t) :
    Inv G t := by
  obtain ⟨call, hi, rfl⟩ := Option.map_eq_some_iff.mp hs
  have hcall := mem_of_getElem? hi
  refine ⟨h.issued_le, h.issued_iff, h.now_le, h.kept, ?_, ?_, ⟨?_, h.resync.monotone⟩⟩
  · intro c hc
    exact h.scanned c (mem_of_mem_eraseIdx hc)
  · intro r hr
    rcases mem_append.mp hr with hr | hr
    · exact h.lastSequence_le r hr
    · rw [mem_singleton.mp hr]
  · intro r hr e he hlt hev
    rcases mem_append.mp hr with hr | hr
    · exact h.resync.complete r hr e he hlt hev
    · rw [mem_singleton.mp hr] at he hlt hev ⊢
      have hall : s.issued.filter (fun e => e.sequence ≤ s.dnsEventSequence) = s.issued := by
        rw [filter_eq_self]
        intro e' he'
        simpa using h.issued_le e' he'
      rw [hall] at he
      exact h.scanned call hcall e he hlt hev

lemma Inv.step {e : Step} (hg : InOrder G s e) (hs : step G s e = some t) : Inv G t := by
  cases e with
  | tick d =>
    cases hs
    exact h.tick d
  | observe result revision => exact h.observe hg hs
  | record i ord => exact h.record hg hs
  | begin revision =>
    cases hs
    exact h.begin revision
  | scan i ord => exact h.scan hg hs
  | load i eventStats => exact h.load hs

end

/-- Along a run whose steps keep the observers in order, every response is complete up to its
`lastSequence` and the store never goes back to an older event. -/
theorem resync_of_inOrder (G : GoStrings) (clock : Int) (es : List Step) (s : State)
    (hg : Guarded (step G) (InOrder G) (State.init clock) es)
    (hr : run (step G) (State.init clock) es = some s) : s.Resync G :=
  (Guarded.invariant (I := Inv G) (fun _ _ _ h hg hs => h.step hg hs) (inv_init G clock)
    hg hr).resync

def plainStrings : GoStrings := ⟨id, fun _ => "1.2.3.4"⟩

def plainResult : Result := ⟨"a.example", [[1, 2, 3, 4]], 60, "remote", 0⟩

/-- Two observers of one name record in order, and a third one is late with an answer that has
expired when the call scans. -/
def inOrderRun : List Step :=
  [.observe plainResult 1, .observe { plainResult with ttl := 0 } 1, .observe plainResult 1,
    .record 0 stored, .record 1 stored, .begin 1, .scan 0 stored, .load 0 ⟨0, 0⟩]

theorem resync_of_inOrder_late :
    ∃ s, run (step plainStrings) (State.init 0) inOrderRun = some s ∧
      s.responses.length = 1 ∧ s.Resync plainStrings :=
  ⟨_, rfl, rfl, resync_of_inOrder plainStrings 0 inOrderRun _ (by decide) rfl⟩

/-- Two observers take the numbers 1 and 2 and record in the other order: the response reports
`lastSequence = 2` and holds the event 1. -/
theorem not_resync_of_overtaking :
    ¬ ∀ (es : List Step) (s : State),
      run (step plainStrings) (State.init 0) es = some s → s.Resync plainStrings := by
  intro h
  have hresync := h [.observe plainResult 1, .observe plainResult 1, .record 1 stored,
    .record 0 stored, .begin 1, .scan 0 stored, .load 0 ⟨0, 0⟩] _ rfl
  have hmono := hresync.monotone
    (newEvent plainStrings plainResult 1 2, newEvent plainStrings plainResult 1 1) (by decide)
  exact absurd hmono (by decide)

end BypassCore.DNSResults
