import BypassCore.Lib.Runs
import BypassCore.Lib.Tally

/-!
# Sessions of the UDP listener

`app/inbound/udp_tproxy_linux.go`: `getOrCreateSession`, `close` and `removeSession`, step by step.
Lookups in the table of sessions take no lock; sessions are made and removed under `createMu`, one
access to the shared fields after another. Limits are replaced at any time. Sessions are numbered in
the order in which they are made.
-/

namespace BypassCore.Inbound

open Lib GoMap List

structure UDPSessionKey (IP : Type) where
  source : IP × UInt16
  destination : IP × UInt16
deriving DecidableEq

def UDPSessionKey.addr {IP : Type} (key : UDPSessionKey IP) : IP := key.source.1

structure UDPSession (IP : Type) where
  key : UDPSessionKey IP
  sourceKey : IP

/-- The fields of `udpResourceLimits` that the creation of a session compares with. -/
structure UDPResourceLimits where
  maxSessions : ℤ
  maxSessionsPerSource : ℤ

/-- What a creation was decided on: the limits that were loaded, and the number of sessions in the
table, of all sources and of the one that asks, when they were loaded. -/
structure Admission where
  limits : UDPResourceLimits
  sessions : ℕ
  sourceSessions : ℕ

/-- Where the goroutine that has `createMu` is, by the access that comes next. -/
inductive UDPSection (IP : Type) where
  | load (key : UDPSessionKey IP)
  | limits (key : UDPSessionKey IP)
  | check (key : UDPSessionKey IP) (admission : Admission)
  | store (key : UDPSessionKey IP) (admission : Admission)
  | count (key : UDPSessionKey IP) (session : ℕ)
  | countSource (key : UDPSessionKey IP) (session : ℕ)
  | delete (session : ℕ) (s : UDPSession IP)
  | uncount (session : ℕ) (s : UDPSession IP)
  | uncountSource (session : ℕ) (s : UDPSession IP)
  /-- The deferred unlock, at the end of a call of `removeSession` if there is a session. -/
  | unlock (removed : Option ℕ)

inductive UDPRequest (IP : Type) where
  /-- `getOrCreateSession`, after a lookup that found nothing. -/
  | create (key : UDPSessionKey IP)
  | remove (session : ℕ)

/-- `udpTproxyListener`, with the goroutines and what has happened to the sessions. -/
structure UDPTproxyListener (IP : Type) where
  sessions : GoMap (UDPSessionKey IP) ℕ
  count : ℤ
  sourceCounts : GoMap IP ℤ
  limits : Option UDPResourceLimits
  cancelled : Bool
  objects : List (UDPSession IP)
  /-- The sessions whose `closeOnce` has been entered. -/
  closed : ℕ → Bool
  waiting : List (UDPRequest IP)
  holder : Option (UDPSection IP)
  admissions : List Admission
  /-- The sessions for which the counter has been raised, and lowered. -/
  counted : List ℕ
  uncounted : List ℕ
  /-- The sessions for which a call of `removeSession` has returned. -/
  removed : List ℕ

namespace UDPTproxyListener

variable {IP : Type} [DecidableEq IP]

def start (limits : UDPResourceLimits) : UDPTproxyListener IP where
  sessions := ∅
  count := 0
  sourceCounts := ∅
  limits := some limits
  cancelled := false
  objects := []
  closed _ := false
  waiting := []
  holder := none
  admissions := []
  counted := []
  uncounted := []
  removed := []

variable (l : UDPTproxyListener IP)

def currentLimits : UDPResourceLimits := l.limits.getD ⟨0, 0⟩

def goto (sec : UDPSection IP) : UDPTproxyListener IP :=
  { l with holder := some sec }

def add (key : UDPSessionKey IP) (admission : Admission) : UDPTproxyListener IP :=
  { l with
    objects := l.objects ++ [⟨key, key.addr⟩]
    sessions := l.sessions.insert key l.objects.length
    admissions := l.admissions ++ [admission] }

/-- The access that comes next, and where the goroutine is then. -/
def advance : UDPSection IP → UDPTproxyListener IP
  | .load key =>
    match l.sessions.lookup key with
    | some _ => l.goto (.unlock none)
    | none => l.goto (.limits key)
  | .limits key =>
    l.goto (.check key
      ⟨l.currentLimits, l.sessions.len, classCount UDPSessionKey.addr l.sessions key.addr⟩)
  | .check key admission =>
    if l.cancelled ∨ admission.limits.maxSessions ≤ l.count ∨
        admission.limits.maxSessionsPerSource ≤ tally l.sourceCounts key.addr then
      l.goto (.unlock none)
    else l.goto (.store key admission)
  | .store key admission => (l.add key admission).goto (.count key l.objects.length)
  | .count key session =>
    { l with
      count := l.count + 1
      counted := l.counted ++ [session] }.goto (.countSource key session)
  | .countSource key _ =>
    { l with
      sourceCounts := l.sourceCounts.insert key.addr (tally l.sourceCounts key.addr + 1) }.goto
      (.unlock none)
  | .delete session s =>
    if l.sessions.lookup s.key = some session then
      { l with sessions := l.sessions.erase s.key }.goto (.uncount session s)
    else l.goto (.unlock (some session))
  | .uncount session s =>
    { l with
      count := l.count - 1
      uncounted := l.uncounted ++ [session] }.goto (.uncountSource session s)
  | .uncountSource session s =>
    let remaining := tally l.sourceCounts s.sourceKey - 1
    { l with
      sourceCounts :=
        if 0 < remaining then l.sourceCounts.insert s.sourceKey remaining
        else l.sourceCounts.erase s.sourceKey }.goto (.unlock (some session))
  | .unlock session => { l with holder := none, removed := l.removed ++ session.toList }

def enter : UDPRequest IP → Option (UDPSection IP)
  | .create key => some (.load key)
  | .remove session => (l.objects[session]?).map fun s => .delete session s

inductive Event (IP : Type) where
  /-- `getOrCreateSession` looks the key up. -/
  | lookup (key : UDPSessionKey IP)
  | close (session : ℕ)
  | remove (session : ℕ)
  | lock (i : ℕ)
  | advance
  | setLimits (limits : UDPResourceLimits)
  | cancel

def step : Event IP → Option (UDPTproxyListener IP)
  | .lookup key =>
    match l.sessions.lookup key with
    | some _ => some l
    | none => some { l with waiting := l.waiting ++ [.create key] }
  | .close session =>
    if session < l.objects.length then
      -- A call that is not the first one waits for it and does nothing.
      if l.closed session then some l
      else
        some
          { l with
            closed := Function.update l.closed session true
            waiting := l.waiting ++ [.remove session] }
    else none
  | .remove session =>
    if session < l.objects.length then
      some { l with waiting := l.waiting ++ [.remove session] }
    else none
  | .lock i =>
    match l.holder with
    | some _ => none
    | none => do
      let request ← l.waiting[i]?
      let sec ← l.enter request
      some ({ l with waiting := l.waiting.eraseIdx i }.goto sec)
  | .advance => l.holder.map l.advance
  | .setLimits limits => some { l with limits := some limits }
  | .cancel => some { l with cancelled := true }

end UDPTproxyListener

/-!
## Accounting for UDP sessions

While `createMu` is free the counters agree with the table of sessions. While it is held the table
is ahead of the counters by the one session that is being made or removed.
-/

open List Option

def Admission.Granted (a : Admission) : Prop :=
  a.sessions < a.limits.maxSessions ∧ a.sourceSessions < a.limits.maxSessionsPerSource

namespace UDPTproxyListener

section Holder

variable {IP : Type} {holder : Option (UDPSection IP)}

def settled : Option (UDPSection IP) → Bool
  | some (.count _ _) | some (.countSource _ _) | some (.uncount _ _)
  | some (.uncountSource _ _) => false
  | _ => true

def lag : Option (UDPSection IP) → ℤ
  | some (.count _ _) => 1
  | some (.uncount _ _) => -1
  | _ => 0

def counting : Option (UDPSection IP) → Option ℕ
  | some (.count _ session) => some session
  | _ => none

def uncounting : Option (UDPSection IP) → Option ℕ
  | some (.uncount session _) => some session
  | _ => none

section

variable (h : settled holder = true)
include h

lemma lag_of_settled : lag holder = 0 := by
  rcases holder with _ | _ | _ <;> first | rfl | cases h

lemma counting_of_settled : counting holder = none := by
  rcases holder with _ | _ | _ <;> first | rfl | cases h

lemma uncounting_of_settled : uncounting holder = none := by
  rcases holder with _ | _ | _ <;> first | rfl | cases h

end

end Holder

variable {IP : Type} [DecidableEq IP] {l l' : UDPTproxyListener IP} {key : UDPSessionKey IP}
  {session : ℕ} {s : UDPSession IP}

def Gone (l : UDPTproxyListener IP) (session : ℕ) : Prop :=
  ∀ key, l.sessions.lookup key ≠ some session

def SourceTable (sessions t : GoMap (UDPSessionKey IP) ℕ) : Option (UDPSection IP) → Prop
  | some (.count key session) | some (.countSource key session) =>
    t.lookup key = none ∧ sessions = t.insert key session
  | some (.uncount session s) | some (.uncountSource session s) =>
    t.lookup s.key = some session ∧ sessions = t.erase s.key
  | _ => sessions = t

/-- What the goroutine that has the lock knows. -/
def Knows (l : UDPTproxyListener IP) : UDPSection IP → Prop
  | .load _ => True
  | .limits key => l.sessions.lookup key = none
  | .check key admission => l.sessions.lookup key = none ∧
      admission.sessions = l.count ∧ admission.sourceSessions = tally l.sourceCounts key.addr
  | .store key admission => l.sessions.lookup key = none ∧ admission.Granted
  | .count key session | .countSource key session => l.sessions.lookup key = some session
  | .delete session s => l.objects[session]? = some s
  | .uncount session s | .uncountSource session s =>
    l.objects[session]? = some s ∧ l.Gone session
  | .unlock removed => ∀ session ∈ removed, session < l.objects.length ∧ l.Gone session

/-- The table and the counters, whoever has the lock. -/
structure Inv (l : UDPTproxyListener IP) : Prop where
  sourceKey : ∀ s ∈ l.objects, s.sourceKey = s.key.addr
  stored : ∀ key session, l.sessions.lookup key = some session →
    ∃ s, l.objects[session]? = some s ∧ s.key = key
  count : l.count + lag l.holder = l.sessions.len
  sources : ∃ t, SourceTable l.sessions t l.holder ∧
    Tallies UDPSessionKey.addr t l.sourceCounts
  knows : ∀ sec, l.holder = some sec → l.Knows sec
  admitted : l.admissions.length = l.objects.length
  granted : ∀ a ∈ l.admissions, a.Granted
  counted_nodup : l.counted.Nodup
  mem_counted : ∀ session, session ∈ l.counted ↔
    session < l.objects.length ∧ counting l.holder ≠ some session
  uncounted_nodup : l.uncounted.Nodup
  mem_uncounted : ∀ session, session ∈ l.uncounted ↔
    (session < l.objects.length ∧ l.Gone session) ∧ uncounting l.holder ≠ some session
  removed : ∀ session ∈ l.removed, session < l.objects.length ∧ l.Gone session

omit [DecidableEq IP] in
lemma exists_holder {holder : Option (UDPSection IP)} (h : l.holder = holder) :
    ∃ l' : UDPTproxyListener IP, l = { l' with holder := holder } := ⟨l, by rw [← h]⟩

lemma inv_start (limits : UDPResourceLimits) : (start limits : UDPTproxyListener IP).Inv where
  sourceKey := nofun
  stored key session h := by simp [start] at h
  count := rfl
  sources := ⟨∅, rfl, Tallies.empty⟩
  knows := nofun
  admitted := rfl
  granted := nofun
  counted_nodup := nodup_nil
  mem_counted := by simp [start]
  uncounted_nodup := nodup_nil
  mem_uncounted := by simp [start]
  removed := nofun

lemma concat_due {done : List ℕ} {P : ℕ → Prop} {n : ℕ} (hdone : done.Nodup)
    (hmem : ∀ m, m ∈ done ↔ P m ∧ some n ≠ some m) (hn : P n) :
    (done ++ [n]).Nodup ∧ ∀ m, m ∈ done ++ [n] ↔ P m := by
  constructor
  · refine nodup_append_comm.mp (nodup_cons.mpr ⟨?_, hdone⟩)
    exact fun h => ((hmem n).mp h).2 rfl
  · intro m
    rw [mem_append, hmem]
    by_cases hne : m = n
    · simp [hne, hn]
    · simp [hne, Ne.symm hne]

/-- A session is at its own key only. -/
lemma Inv.eq_of_lookup (h : l.Inv) (hs : l.objects[session]? = some s)
    (hkey : l.sessions.lookup key = some session) : s.key = key := by
  obtain ⟨s', hs', rfl⟩ := h.stored key session hkey
  rw [hs] at hs'
  cases hs'
  rfl

lemma Inv.lt_of_lookup (h : l.Inv) (hkey : l.sessions.lookup key = some session) :
    session < l.objects.length := by
  obtain ⟨s, hs, -⟩ := h.stored key session hkey
  exact (List.getElem?_eq_some_iff.mp hs).1

lemma Inv.gone_of_lookup_ne (h : l.Inv) (hs : l.objects[session]? = some s)
    (hne : l.sessions.lookup s.key ≠ some session) : l.Gone session := by
  intro key hkey
  rw [h.eq_of_lookup hs hkey] at hne
  exact hne hkey

lemma gone_add (admission : Admission) (hkey : l.sessions.lookup key = none) :
    (l.add key admission).Gone session ↔ session ≠ l.objects.length ∧ l.Gone session := by
  simp only [Gone, add, lookup_insert_eq]
  constructor
  · intro hgone
    refine ⟨?_, fun k hk => ?_⟩
    · rintro rfl
      exact hgone key (if_pos rfl)
    · refine hgone k ?_
      rw [if_neg, hk]
      rintro rfl
      rw [hkey] at hk
      cases hk
  · rintro ⟨hne, hgone⟩ k
    split_ifs
    · rw [ne_eq, Option.some.injEq]
      exact hne.symm
    · exact hgone k

lemma Inv.gone_erase (h : l.Inv) (hs : l.objects[session]? = some s)
    (hkey : l.sessions.lookup s.key = some session) {session' : ℕ} :
    ({ l with sessions := l.sessions.erase s.key } : UDPTproxyListener IP).Gone session' ↔
      session' = session ∨ l.Gone session' := by
  simp only [Gone, lookup_erase_eq]
  constructor
  · intro hgone
    by_cases hne : session' = session
    · exact .inl hne
    · refine .inr fun k hk => hgone k ?_
      rw [if_neg, hk]
      rintro rfl
      rw [hkey, Option.some.injEq] at hk
      exact hne hk.symm
  · rintro (rfl | hgone) k
    · split_ifs with hk
      · exact nofun
      · exact fun hk' => hk (h.eq_of_lookup hs hk').symm
    · split_ifs
      · exact nofun
      · exact hgone k

lemma sourceTable_of_settled {holder : Option (UDPSection IP)} (h : settled holder = true)
    {sessions t : GoMap (UDPSessionKey IP) ℕ} : SourceTable sessions t holder ↔ sessions = t := by
  rcases holder with _ | _ | _ <;> first | rfl | cases h

namespace Inv

section Inv

variable (h : l.Inv)
include h

lemma count_eq (hsettled : settled l.holder = true) : l.count = l.sessions.len := by
  have hcount := h.count
  rwa [lag_of_settled hsettled, add_zero] at hcount

lemma tallies (hsettled : settled l.holder = true) :
    Tallies UDPSessionKey.addr l.sessions l.sourceCounts := by
  obtain ⟨t, htable, htallies⟩ := h.sources
  rw [sourceTable_of_settled hsettled] at htable
  rwa [htable]

lemma mem_counted_iff (hnone : counting l.holder = none) :
    session ∈ l.counted ↔ session < l.objects.length := by
  rw [h.mem_counted, hnone]
  exact and_iff_left nofun

lemma mem_uncounted_iff (hnone : uncounting l.holder = none) :
    session ∈ l.uncounted ↔ session < l.objects.length ∧ l.Gone session := by
  rw [h.mem_uncounted, hnone]
  exact and_iff_left nofun

/-- The lock changes hands, or its holder goes on without touching the table or the counters. -/
lemma move (hsettled : settled l.holder = true) {holder : Option (UDPSection IP)}
    (hholder : settled holder = true) (hknows : ∀ sec, holder = some sec → l.Knows sec)
    {removed : List ℕ} (hremoved : ∀ session ∈ removed, session < l.objects.length ∧ l.Gone session)
    {waiting : List (UDPRequest IP)} :
    ({ l with holder := holder, removed := removed, waiting := waiting } :
      UDPTproxyListener IP).Inv where
  sourceKey := h.sourceKey
  stored := h.stored
  count := by
    rw [lag_of_settled hholder, add_zero]
    exact h.count_eq hsettled
  sources := ⟨l.sessions, (sourceTable_of_settled hholder).mpr rfl, h.tallies hsettled⟩
  knows := hknows
  admitted := h.admitted
  granted := h.granted
  counted_nodup := h.counted_nodup
  mem_counted session := by
    rw [h.mem_counted_iff (counting_of_settled hsettled), counting_of_settled hholder]
    exact (and_iff_left nofun).symm
  uncounted_nodup := h.uncounted_nodup
  mem_uncounted session := by
    rw [h.mem_uncounted_iff (uncounting_of_settled hsettled), uncounting_of_settled hholder]
    exact (and_iff_left nofun).symm
  removed := hremoved

lemma goto {sec sec' : UDPSection IP} (hholder : l.holder = some sec)
    (hsec : settled (some sec) = true) (hsec' : settled (some sec') = true)
    (hknows : l.Knows sec') : (l.goto sec').Inv := by
  refine h.move (hholder ▸ hsec) hsec' ?_ h.removed
  rintro _ ⟨⟩
  exact hknows

/-! ### Making a session -/

lemma load (hholder : l.holder = some (.load key)) : (l.advance (.load key)).Inv := by
  rw [advance]
  split
  · exact h.goto hholder rfl rfl nofun
  · rename_i hkey
    exact h.goto hholder rfl rfl hkey

variable {admission : Admission}

lemma check (hholder : l.holder = some (.check key admission)) :
    (l.advance (.check key admission)).Inv := by
  obtain ⟨hkey, hcount, hsource⟩ := h.knows _ hholder
  rw [advance]
  split_ifs with hlimit
  · exact h.goto hholder rfl rfl nofun
  · refine h.goto hholder rfl rfl ⟨hkey, ?_⟩
    rw [Admission.Granted]
    omega

lemma store (hholder : l.holder = some (.store key admission)) :
    (l.advance (.store key admission)).Inv := by
  have hsettled : settled l.holder = true := by rw [hholder]; rfl
  obtain ⟨hkey, hgranted⟩ := h.knows _ hholder
  have hholder' : (l.advance (.store key admission)).holder =
      some (.count key l.objects.length) := rfl
  have hlength : (l.advance (.store key admission)).objects.length = l.objects.length + 1 :=
    length_append
  have hlookup (k : UDPSessionKey IP) : (l.advance (.store key admission)).sessions.lookup k =
      if k = key then some l.objects.length else l.sessions.lookup k :=
    lookup_insert_eq l.sessions key k l.objects.length
  have hgone (session : ℕ) : (l.advance (.store key admission)).Gone session ↔
      session ≠ l.objects.length ∧ l.Gone session := gone_add admission hkey
  constructor
  case sourceKey =>
    intro s hs
    rcases mem_append.mp hs with hs | hs
    · exact h.sourceKey s hs
    · rw [mem_singleton.mp hs]
  case stored =>
    intro k session hk
    rw [hlookup] at hk
    split_ifs at hk with hkk
    · cases hk
      exact ⟨⟨key, key.addr⟩, getElem?_concat_length, hkk.symm⟩
    · obtain ⟨s, hs, hsk⟩ := h.stored k session hk
      exact ⟨s, (getElem?_append_left (h.lt_of_lookup hk)).trans hs, hsk⟩
  case count =>
    have hlen := len_insert_of_none hkey l.objects.length
    have hcount := h.count_eq hsettled
    change l.count + 1 = (len (l.sessions.insert key l.objects.length) : ℤ)
    omega
  case sources => exact ⟨l.sessions, ⟨hkey, rfl⟩, h.tallies hsettled⟩
  case knows =>
    rintro _ ⟨⟩
    exact (hlookup key).trans (if_pos rfl)
  case admitted =>
    rw [hlength, ← h.admitted]
    exact length_append
  case granted =>
    intro a ha
    rcases mem_append.mp ha with ha | ha
    · exact h.granted a ha
    · rw [mem_singleton.mp ha]
      exact hgranted
  case counted_nodup => exact h.counted_nodup
  case mem_counted =>
    intro session
    refine (h.mem_counted_iff (counting_of_settled hsettled)).trans ?_
    rw [hholder', counting, ne_eq, Option.some.injEq]
    omega
  case uncounted_nodup => exact h.uncounted_nodup
  case mem_uncounted =>
    intro session
    refine (h.mem_uncounted_iff (uncounting_of_settled hsettled)).trans ?_
    refine Iff.trans ?_ (and_iff_left nofun).symm
    rw [hgone, ← and_assoc]
    refine and_congr_left' ?_
    omega
  case removed =>
    intro session hsession
    obtain ⟨hlt, hsession⟩ := h.removed session hsession
    rw [hlength, hgone]
    exact ⟨hlt.trans (Nat.lt_succ_self _), hlt.ne, hsession⟩

lemma addCount (hholder : l.holder = some (.count key session)) :
    (l.advance (.count key session)).Inv := by
  obtain ⟨l, rfl⟩ := exists_holder hholder
  have hkey : l.sessions.lookup key = some session := h.knows _ rfl
  obtain ⟨hnodup, hmem⟩ := concat_due (P := fun s => s < l.objects.length) h.counted_nodup
    h.mem_counted (h.lt_of_lookup hkey)
  refine
    { h with
      count := (add_zero _).trans h.count
      knows := ?_
      counted_nodup := hnodup
      mem_counted := fun session' => (hmem session').trans (and_iff_left nofun).symm
      mem_uncounted := fun _ => (h.mem_uncounted_iff rfl).trans (and_iff_left nofun).symm }
  rintro _ ⟨⟩
  exact hkey

lemma addSource (hholder : l.holder = some (.countSource key session)) :
    (l.advance (.countSource key session)).Inv := by
  obtain ⟨l, rfl⟩ := exists_holder hholder
  obtain ⟨t, htable, htallies⟩ := h.sources
  refine
    { h with
      sources := ⟨l.sessions, rfl, htable.2 ▸ htallies.inc htable.1 session⟩
      knows := ?_ }
  rintro _ ⟨⟩
  exact nofun

/-! ### Removing a session -/

lemma delete (hholder : l.holder = some (.delete session s)) :
    (l.advance (.delete session s)).Inv := by
  have hsettled : settled l.holder = true := by rw [hholder]; rfl
  have hs : l.objects[session]? = some s := h.knows _ hholder
  have hlt : session < l.objects.length := (List.getElem?_eq_some_iff.mp hs).1
  rw [advance]
  split_ifs with hkey
  · have hgone (session' : ℕ) :
        ({ l with sessions := l.sessions.erase s.key } : UDPTproxyListener IP).Gone session' ↔
          session' = session ∨ l.Gone session' := h.gone_erase hs hkey
    have hstays : ¬ l.Gone session := fun hsession => hsession s.key hkey
    refine
      { h with
        stored := fun k session' hk => ?_
        count := ?_
        sources := ⟨l.sessions, ⟨hkey, rfl⟩, h.tallies hsettled⟩
        knows := ?_
        mem_counted := fun _ => ?_
        mem_uncounted := fun session' => ?_
        removed := fun session' hsession' => ?_ }
    · refine h.stored k session' ?_
      have hk := (lookup_erase_eq l.sessions s.key k).symm.trans hk
      split_ifs at hk
      exact hk
    · have hlen := len_erase_of_some hkey
      have hcount := h.count_eq hsettled
      change l.count + -1 = (len (l.sessions.erase s.key) : ℤ)
      omega
    · rintro _ ⟨⟩
      exact ⟨hs, (hgone session).mpr (.inl rfl)⟩
    · exact (h.mem_counted_iff (counting_of_settled hsettled)).trans (and_iff_left nofun).symm
    · refine (h.mem_uncounted_iff (uncounting_of_settled hsettled)).trans ?_
      refine Iff.trans ?_ (and_congr_left' (and_congr_right' (hgone session').symm))
      constructor
      · rintro ⟨hlt', hgone'⟩
        refine ⟨⟨hlt', .inr hgone'⟩, ?_⟩
        rintro ⟨⟩
        exact hstays hgone'
      · rintro ⟨⟨hlt', rfl | hgone'⟩, hne⟩
        · exact absurd rfl hne
        · exact ⟨hlt', hgone'⟩
    · exact ⟨(h.removed session' hsession').1,
        (hgone session').mpr (.inr (h.removed session' hsession').2)⟩
  · refine h.goto hholder rfl rfl ?_
    rintro _ ⟨⟩
    exact ⟨hlt, h.gone_of_lookup_ne hs hkey⟩

lemma takeCount (hholder : l.holder = some (.uncount session s)) :
    (l.advance (.uncount session s)).Inv := by
  obtain ⟨l, rfl⟩ := exists_holder hholder
  obtain ⟨hs, hsession⟩ := h.knows _ rfl
  obtain ⟨hnodup, hmem⟩ := concat_due (P := fun s => s < l.objects.length ∧ l.Gone s)
    h.uncounted_nodup h.mem_uncounted
    ⟨(List.getElem?_eq_some_iff.mp hs).1, hsession⟩
  refine
    { h with
      count := (add_zero _).trans h.count
      knows := ?_
      uncounted_nodup := hnodup
      mem_uncounted := fun session' => (hmem session').trans (and_iff_left nofun).symm }
  rintro _ ⟨⟩
  exact ⟨hs, hsession⟩

lemma takeSource (hholder : l.holder = some (.uncountSource session s)) :
    (l.advance (.uncountSource session s)).Inv := by
  obtain ⟨l, rfl⟩ := exists_holder hholder
  obtain ⟨hs, hsession⟩ := h.knows _ rfl
  have hlt : session < l.objects.length := (List.getElem?_eq_some_iff.mp hs).1
  have hsource : s.sourceKey = s.key.addr := h.sourceKey s (mem_of_getElem? hs)
  refine
    { h with
      sources := ⟨l.sessions, rfl, ?_⟩
      knows := ?_
      mem_uncounted := fun _ => (h.mem_uncounted_iff rfl).trans (and_iff_left nofun).symm }
  · obtain ⟨t, htable, htallies⟩ := h.sources
    rw [htable.2, advance, hsource]
    exact htallies.dec htable.1
  · rintro _ ⟨⟩
    rintro _ ⟨⟩
    exact ⟨hlt, hsession⟩

/-! ### Runs -/

lemma unlock {removed : Option ℕ} (hholder : l.holder = some (.unlock removed)) :
    (l.advance (.unlock removed)).Inv := by
  refine h.move (by rw [hholder]; rfl) (show settled none = true from rfl) nofun ?_
  intro session hsession
  rcases mem_append.mp hsession with hsession | hsession
  · exact h.removed session hsession
  · exact h.knows _ hholder session (mem_toList.mp hsession)

lemma advance {sec : UDPSection IP} (hholder : l.holder = some sec) : (l.advance sec).Inv := by
  cases sec with
  | load key => exact h.load hholder
  | limits key =>
    have hkey : l.sessions.lookup key = none := h.knows _ hholder
    have hsettled : settled l.holder = true := by rw [hholder]; rfl
    exact h.goto hholder rfl rfl
      ⟨hkey, (h.count_eq hsettled).symm, ((h.tallies hsettled).tally_eq key.addr).symm⟩
  | check key admission => exact h.check hholder
  | store key admission => exact h.store hholder
  | count key session => exact h.addCount hholder
  | countSource key session => exact h.addSource hholder
  | delete session s => exact h.delete hholder
  | uncount session s => exact h.takeCount hholder
  | uncountSource session s => exact h.takeSource hholder
  | unlock removed => exact h.unlock hholder

lemma step {e : Event IP} (he : l.step e = some l') : l'.Inv := by
  cases e with simp only [UDPTproxyListener.step] at he
  | lookup key =>
    split at he <;> cases he
    · exact h
    · exact { h with }
  | close session =>
    split_ifs at he <;> cases he
    · exact h
    · exact { h with }
  | remove session =>
    split_ifs at he
    cases he
    exact { h with }
  | lock i =>
    split at he
    · cases he
    · rename_i hholder
      simp only [bind_eq_bind, bind_eq_some_iff, Option.some.injEq] at he
      obtain ⟨request, -, sec, hsec, rfl⟩ := he
      have hsettled : settled l.holder = true := by rw [hholder]; rfl
      cases request with
      | create key =>
        cases hsec
        exact h.move hsettled rfl (by rintro _ ⟨⟩; trivial) h.removed
      | remove session =>
        simp only [enter, map_eq_some_iff] at hsec
        obtain ⟨s, hs, rfl⟩ := hsec
        exact h.move hsettled rfl (by rintro _ ⟨⟩; exact hs) h.removed
  | advance =>
    simp only [map_eq_some_iff] at he
    obtain ⟨sec, hholder, rfl⟩ := he
    exact h.advance hholder
  | setLimits | cancel =>
    cases he
    exact { h with }

end Inv

end Inv

/-- What holds of the listener while nobody has the lock. -/
structure Accounted (l : UDPTproxyListener IP) : Prop where
  count_eq : l.count = l.sessions.len
  sum_eq : tallySum l.sourceCounts = l.count
  /-- A source has an entry if it has a session, and the entry is the number of its sessions. -/
  source : ∀ ip n, l.sourceCounts.lookup ip = some n ↔
    0 < n ∧ n = classCount UDPSessionKey.addr l.sessions ip
  /-- Every session that was ever made has been counted once. -/
  counted : l.counted.Perm (range l.objects.length)
  /-- The sessions that have left the table have been uncounted once, and no others. -/
  uncounted : l.uncounted.Nodup ∧
    ∀ session, session ∈ l.uncounted ↔ session < l.objects.length ∧ l.Gone session

lemma Inv.accounted (h : l.Inv) (hholder : l.holder = none) : l.Accounted := by
  have hsettled : settled l.holder = true := by rw [hholder]; rfl
  have hcount := h.count_eq hsettled
  have htallies := h.tallies hsettled
  refine ⟨hcount, by rw [htallies.sum_eq_len, hcount], htallies, ?_, h.uncounted_nodup,
    fun session => h.mem_uncounted_iff (uncounting_of_settled hsettled)⟩
  rw [perm_ext_iff_of_nodup h.counted_nodup nodup_range]
  intro session
  rw [h.mem_counted_iff (counting_of_settled hsettled), mem_range]

/-- In every state of every run: the accounts are right while the lock is free; each session was
made when the limits in force were not reached; and a session that has been removed is not in the
table, where every session is at its own key. -/
theorem accounted_of_run {limits : UDPResourceLimits} {es : List (Event IP)}
    (hr : run step (start limits) es = some l) :
    (l.holder = none → l.Accounted) ∧
    (l.admissions.length = l.objects.length ∧ ∀ a ∈ l.admissions, a.Granted) ∧
    (∀ session ∈ l.removed, session < l.objects.length ∧ l.Gone session) ∧
    ∀ key session, l.sessions.lookup key = some session →
      ∃ s, l.objects[session]? = some s ∧ s.key = key := by
  have h : l.Inv := run_invariant (fun _ _ _ h he => h.step he) (inv_start limits) hr
  exact ⟨h.accounted, ⟨h.admitted, h.granted⟩, h.removed, h.stored⟩

def oneKey : UDPSessionKey ℕ := ⟨(1, 5000), (8, 53)⟩

def makeOne : List (Event ℕ) := [.lookup oneKey, .lock 0] ++ replicate 7 .advance

/-- A session is closed while another goroutine removes it, and the limits shrink meanwhile. -/
def closeOne : List (Event ℕ) :=
  [.close 0, .remove 0, .lock 1, .setLimits ⟨0, 0⟩] ++ replicate 4 .advance ++ [.lock 0] ++
    replicate 2 .advance

theorem accounted_of_run_closeOne : ∃ l,
    run step (start ⟨1, 1⟩) (makeOne ++ closeOne) = some l ∧ l.Accounted ∧
      l.counted = [0] ∧ l.uncounted = [0] ∧ l.removed = [0, 0] := by
  have hr : run step (start ⟨1, 1⟩) (makeOne ++ closeOne) = some _ := rfl
  exact ⟨_, hr, (accounted_of_run hr).1 rfl, rfl, rfl, rfl⟩

end UDPTproxyListener

end BypassCore.Inbound
