import BypassCore.DNS.Cache.Basic
import BypassCore.Lib.Runs

/-!
# Migration of the DNS cache

Updates, cleanups and the migration goroutine interleave at their critical sections. The history
says what the cache is for: which record was written last for a domain and a family, and which
records were removed because they had expired. In every run the two maps together hold what the
history asks for, and after a migration the new map holds it alone.
-/

namespace BypassCore.DNS

open Lib List Option CacheController

inductive Event where
  | wrote (domain : String) (family : Family) (rep : IPRecord)
  /-- A cleanup removed it, as one that expires before the given time. -/
  | expired (domain : String) (family : Family) (rep : IPRecord) (time : Int)

/-- The record that the events, newest first, leave for a domain and a family. -/
def latest : List Event → String → Family → Option IPRecord
  | [], _, _ => none
  | .wrote domain family rep :: h, d, f =>
    if d = domain ∧ f = family then some rep else latest h d f
  | .expired domain family _ _ :: h, d, f =>
    if d = domain ∧ f = family then none else latest h d f

/-- A cleanup only removes the record that was written last, and only when it has expired. -/
def ValidHistory : List Event → Prop
  | [] => True
  | .wrote _ _ _ :: h => ValidHistory h
  | .expired domain family rep time :: h =>
    latest h domain family = some rep ∧ rep.expire < time ∧ ValidHistory h

def recordOf (ips : GoMap String Record) (d : String) (f : Family) : Option IPRecord :=
  (ips.lookup d).bind fun r => r.get f

/-- The record of the main map, and that of the migrating map where the main map has none. -/
def CacheController.view (c : CacheController) (d : String) (f : Family) : Option IPRecord :=
  (recordOf c.ips d f).or (c.dirtyips.bind fun dirtyips => recordOf dirtyips d f)

/-! ### The parties -/

/-- A `migrate` goroutine, before it reads `dirtyips` and while it copies the entries. -/
inductive Migration where
  | starting
  | copying (rest : List (String × Record))

/-- The cache, the calls of `CacheCleanup` that hold the keys they collected, the migrations, and
the history. -/
structure State where
  cache : CacheController
  cleanups : List (List String)
  migrations : List Migration
  history : List Event

def State.init (disableCache serveStale : Bool) (serveExpiredTTL : UInt32) : State where
  cache := newCacheController disableCache serveStale serveExpiredTTL
  cleanups := []
  migrations := []
  history := []

inductive Step where
  | updateRecord (reqType : Family) (domain : String) (rep : IPRecord)
  | collectExpiredKeys (now : Int) (ord : RangeOrder)
  | writeAndShrink (i : Nat) (now : Int)
  /-- A migration reads `dirtyips`. -/
  | migrate (i : Nat) (ord : RangeOrder)
  | flush (i : Nat)
  | clearDirty (i : Nat)
  | close

def expiredEvent (time : Int) (ips : GoMap String Record) (d : String) (f : Family) :
    List Event :=
  match recordOf ips d f with
  | some r => if r.expire < time then [.expired d f r time] else []
  | none => []

def cleanupHistory (time : Int) :
    List String → GoMap String Record → List Event → List Event
  | [], _, h => h
  | d :: keys, ips, h =>
    cleanupHistory time keys (CacheController.cleanupKey time ips d)
      (expiredEvent time ips d .v6 ++ (expiredEvent time ips d .v4 ++ h))

def step (s : State) : Step → Option State
  | .updateRecord reqType domain rep =>
    some { s with
      cache := (s.cache.updateRecord reqType domain rep).1
      history :=
        if s.cache.disableCache || s.cache.closed then s.history
        else .wrote domain reqType rep :: s.history }
  | .collectExpiredKeys now ord =>
    let expiredKeys := s.cache.collectExpiredKeys now ord
    some (if expiredKeys = [] then s else { s with cleanups := expiredKeys :: s.cleanups })
  | .writeAndShrink i now =>
    s.cleanups[i]?.map fun expiredKeys => {
      cache := (s.cache.writeAndShrink expiredKeys now).1
      cleanups := s.cleanups.eraseIdx i
      migrations :=
        if (s.cache.writeAndShrink expiredKeys now).2 then .starting :: s.migrations
        else s.migrations
      history :=
        if s.cache.dirtyips.isSome then s.history
        else cleanupHistory (s.cache.cleanupTime now) expiredKeys s.cache.ips s.history }
  | .migrate i ord =>
    match s.migrations[i]? with
    | some .starting =>
      match s.cache.dirtyips with
      | none => some { s with migrations := s.migrations.eraseIdx i }
      | some dirtyips =>
        let entries := (ord.order 0 dirtyips.entries).map fun e => (e.1, e.2)
        some { s with migrations := s.migrations.set i (.copying entries) }
    | _ => none
  | .flush i =>
    match s.migrations[i]? with
    | some (.copying rest) =>
      if rest = [] then none
      else some { s with
        cache := s.cache.flush (rest.take migrationBatchSize)
        migrations := s.migrations.set i (.copying (rest.drop migrationBatchSize)) }
    | _ => none
  | .clearDirty i =>
    match s.migrations[i]? with
    | some (.copying []) =>
      some { s with
        cache := s.cache.clearDirty
        migrations := s.migrations.eraseIdx i }
    | _ => none
  | .close => some { s with cache := s.cache.close }

/-! ### What the loops do to the records -/

section Loops

variable {ips : GoMap String Record} {d : String} {f : Family} {time : Int}

lemma recordOf_insert (k : String) (r : Record) :
    recordOf (ips.insert k r) d f = if d = k then r.get f else recordOf ips d f := by
  simp only [recordOf, GoMap.lookup_insert_eq]
  split_ifs <;> rfl

lemma recordOf_erase (k : String) :
    recordOf (ips.erase k) d f = if d = k then none else recordOf ips d f := by
  simp only [recordOf, GoMap.lookup_erase_eq]
  split_ifs <;> rfl

lemma get_dropExpired (time : Int) (r : Record) (f : Family) :
    (dropExpired time r).get f = if expiredBefore time (r.get f) then none else r.get f := by
  cases f <;> rfl

lemma recordOf_cleanupKey (k : String) :
    recordOf (cleanupKey time ips k) d f =
      if d = k ∧ expiredBefore time (recordOf ips d f) then none else recordOf ips d f := by
  rw [cleanupKey]
  cases hk : ips.lookup k with
  | none =>
    rw [if_neg]
    rintro ⟨rfl, hexp⟩
    simp [recordOf, hk, expiredBefore] at hexp
  | some r =>
    by_cases hd : d = k
    · subst hd
      have hrec : recordOf ips d f = r.get f := by rw [recordOf, hk, bind_some]
      have hdrop := get_dropExpired time r f
      simp only [true_and]
      split_ifs at hdrop ⊢ with hempty <;>
        simp only [recordOf_erase, recordOf_insert]
      all_goals cases f <;> simp_all
    · simp only [hd, false_and, if_false]
      split_ifs <;> simp only [recordOf_erase, recordOf_insert, if_neg hd]

/-- Copying an entry fills in what the map lacks. -/
lemma recordOf_flushEntry (e : String × Record) :
    recordOf (flushEntry ips e) d f =
      (recordOf ips d f).or (if d = e.1 then e.2.get f else none) := by
  rw [flushEntry]
  split
  · next cur hk =>
    rw [recordOf_insert]
    split_ifs with hd
    · rw [recordOf, hd, hk]
      cases f <;> rfl
    · rw [or_none]
  · next hk =>
    rw [recordOf_insert]
    split_ifs with hd
    · rw [recordOf, hd, hk]
      rfl
    · rw [or_none]

lemma recordOf_foldl_flushEntry_of_some (batch : List (String × Record)) {r : IPRecord}
    (h : recordOf ips d f = some r) : recordOf (batch.foldl flushEntry ips) d f = some r := by
  induction batch generalizing ips with
  | nil => exact h
  | cons e batch ih =>
    apply ih
    rw [recordOf_flushEntry, h, some_or]

/-- Copying entries of a map does not change what the two maps hold together. -/
lemma recordOf_foldl_flushEntry_or {dirtyips : GoMap String Record}
    (batch : List (String × Record)) (h : ∀ e ∈ batch, dirtyips.lookup e.1 = some e.2) :
    (recordOf (batch.foldl flushEntry ips) d f).or (recordOf dirtyips d f) =
      (recordOf ips d f).or (recordOf dirtyips d f) := by
  induction batch generalizing ips with
  | nil => rfl
  | cons e batch ih =>
    rw [foldl_cons, ih fun e' he' => h e' (mem_cons_of_mem _ he'), recordOf_flushEntry]
    split_ifs with hd
    · have he : recordOf dirtyips d f = e.2.get f := by
        rw [recordOf, hd, h e mem_cons_self, bind_some]
      rw [he, Option.or_assoc, Option.or_self]
    · rw [or_none]

lemma isSome_recordOf_foldl_flushEntry {batch : List (String × Record)} {e : String × Record}
    (he : e ∈ batch) (hr : (e.2.get f).isSome) :
    (recordOf (batch.foldl flushEntry ips) e.1 f).isSome := by
  induction batch generalizing ips with
  | nil => cases he
  | cons e' batch ih =>
    rcases mem_cons.mp he with rfl | he
    · have hsome : (recordOf (flushEntry ips e) e.1 f).isSome := by
        rw [recordOf_flushEntry, if_pos rfl, isSome_or, hr, Bool.or_true]
      obtain ⟨r, hr'⟩ := isSome_iff_exists.mp hsome
      rw [foldl_cons, recordOf_foldl_flushEntry_of_some batch hr']
      rfl
    · exact ih he

end Loops

section Cleanup

variable {ips : GoMap String Record} {h : List Event} {time : Int}

lemma latest_expiredEvent (k d : String) (g f : Family) :
    latest (expiredEvent time ips k g ++ h) d f =
      if d = k ∧ f = g ∧ expiredBefore time (recordOf ips k g) then none else latest h d f := by
  rw [expiredEvent]
  cases hk : recordOf ips k g with
  | none => simp [expiredBefore]
  | some r =>
    by_cases hexp : r.expire < time
    · simp [hexp, latest, expiredBefore]
    · simp [hexp, expiredBefore]

lemma validHistory_expiredEvent {k : String} {g : Family} (hv : ValidHistory h)
    (hk : latest h k g = recordOf ips k g) : ValidHistory (expiredEvent time ips k g ++ h) := by
  rw [expiredEvent]
  cases hr : recordOf ips k g with
  | none => exact hv
  | some r =>
    dsimp only
    split_ifs with hexp
    · exact ⟨hk.trans hr, hexp, hv⟩
    · exact hv

lemma cleanupHistory_spec (time : Int) (keys : List String) (hv : ValidHistory h)
    (hl : ∀ d f, recordOf ips d f = latest h d f) :
    ValidHistory (cleanupHistory time keys ips h) ∧
      ∀ d f, recordOf (keys.foldl (cleanupKey time) ips) d f =
        latest (cleanupHistory time keys ips h) d f := by
  induction keys generalizing ips h with
  | nil => exact ⟨hv, hl⟩
  | cons k keys ih =>
    apply ih
    · apply validHistory_expiredEvent
      · exact validHistory_expiredEvent hv (hl k .v4).symm
      · rw [latest_expiredEvent, if_neg (by simp), hl]
    · intro d f
      rw [recordOf_cleanupKey, latest_expiredEvent, latest_expiredEvent, hl d f]
      by_cases hd : d = k
      · subst hd
        cases f <;> simp [hl]
      · simp [hd]

end Cleanup

/-- How far the one migration is: what it still has to copy are entries of the migrating map, and
what it has copied is in the main map. -/
def Migration.Progress (ips dirtyips : GoMap String Record) : Migration → Prop
  | .starting => True
  | .copying rest =>
    (∀ e ∈ rest, dirtyips.lookup e.1 = some e.2) ∧
      ∀ k r, dirtyips.lookup k = some r → (k, r) ∉ rest →
        ∀ f, (r.get f).isSome → (recordOf ips k f).isSome

/-- There is a migration exactly while there is a migrating map. -/
inductive Migrating (ips : GoMap String Record) :
    Option (GoMap String Record) → List Migration → Prop where
  | idle : Migrating ips none []
  | active {dirtyips : GoMap String Record} {m : Migration} (h : m.Progress ips dirtyips) :
    Migrating ips (some dirtyips) [m]

structure Inv (s : State) : Prop where
  valid : ValidHistory s.history
  view : ∀ d f, s.cache.view d f = latest s.history d f
  migrating : Migrating s.cache.ips s.cache.dirtyips s.migrations

lemma inv_init (disableCache serveStale : Bool) (serveExpiredTTL : UInt32) :
    Inv (State.init disableCache serveStale serveExpiredTTL) where
  valid := trivial
  view := by
    intro d f
    rfl
  migrating := .idle

variable {c : CacheController}

lemma view_of_not_migrating (h : c.dirtyips = none) (d : String)
    (f : Family) : c.view d f = recordOf c.ips d f := by
  rw [view, h, bind_none, or_none]

/-- What is copied stays copied when the main map keeps its records. -/
lemma Migrating.mono {ips ips' : GoMap String Record} {dirtyips : Option (GoMap String Record)}
    {ms : List Migration} (h : Migrating ips dirtyips ms)
    (hmono : ∀ d f, (recordOf ips d f).isSome → (recordOf ips' d f).isSome) :
    Migrating ips' dirtyips ms := by
  cases h with
  | idle => exact .idle
  | @active dirtyips m hp =>
    refine .active ?_
    cases m with
    | starting => trivial
    | copying rest =>
      refine ⟨hp.1, ?_⟩
      intro k r hk hrest f hf
      exact hmono k f (hp.2 k r hk hrest f hf)

/-! ### The steps -/

section Steps

variable {s : State}

lemma recordOf_updateRecord {c : CacheController} (hopen : (c.disableCache || c.closed) = false)
    (reqType : Family) (domain : String) (rep : IPRecord) (d : String) (f : Family) :
    recordOf (c.updateRecord reqType domain rep).1.ips d f =
      if d = domain ∧ f = reqType then some rep else recordOf c.ips d f := by
  rw [updateRecord, if_neg (by simp [hopen])]
  by_cases hd : d = domain
  · subst hd
    cases reqType <;> cases f <;> simp [recordOf_insert] <;> rfl
  · cases reqType <;> simp [recordOf_insert, hd]

lemma dirtyips_updateRecord (c : CacheController) (reqType : Family) (domain : String)
    (rep : IPRecord) : (c.updateRecord reqType domain rep).1.dirtyips = c.dirtyips := by
  rw [updateRecord]
  split_ifs
  · rfl
  · cases reqType <;> rfl

lemma Inv.updateRecord (h : Inv s) (reqType : Family) (domain : String) (rep : IPRecord) :
    Inv { s with
      cache := (s.cache.updateRecord reqType domain rep).1
      history :=
        if s.cache.disableCache || s.cache.closed then s.history
        else .wrote domain reqType rep :: s.history } := by
  cases hopen : s.cache.disableCache || s.cache.closed with
  | true =>
    have hsame : (s.cache.updateRecord reqType domain rep).1 = s.cache := by
      rw [CacheController.updateRecord, if_pos hopen]
    rw [hsame]
    exact h
  | false =>
    rw [if_neg (by simp)]
    have hrec := recordOf_updateRecord hopen reqType domain rep
    refine ⟨h.valid, ?_, ?_⟩
    · intro d f
      simp only [CacheController.view, dirtyips_updateRecord, hrec, latest]
      split_ifs
      · rfl
      · exact h.view d f
    · rw [dirtyips_updateRecord]
      apply h.migrating.mono
      intro d f hsome
      rw [hrec]
      split_ifs
      · rfl
      · exact hsome

variable {ips : GoMap String Record}

/-- A cleanup that finds no migrating map leaves the cleaned map as the main map, or sets it aside
and starts a migration. -/
lemma writeAndShrink_cases {c : CacheController} (hidle : c.dirtyips = none) (keys : List String)
    (now : Int) (hips : keys.foldl (cleanupKey (c.cleanupTime now)) c.ips = ips) :
    ((c.writeAndShrink keys now).2 = false ∧ (c.writeAndShrink keys now).1.dirtyips = none ∧
        ∀ d f, recordOf (c.writeAndShrink keys now).1.ips d f = recordOf ips d f) ∨
      ((c.writeAndShrink keys now).2 = true ∧
        (c.writeAndShrink keys now).1.dirtyips = some ips ∧
        (c.writeAndShrink keys now).1.ips = ∅) := by
  rw [writeAndShrink, if_neg (by simp [hidle])]
  simp only [hips]
  split_ifs with hempty hrebuild hshrink
  · -- the map is empty, and so is the new one
    refine .inl ⟨rfl, hidle, ?_⟩
    intro d f
    simp only [recordOf, AList.lookup, length_eq_zero_iff.mp hempty]
    rfl
  · exact .inl ⟨rfl, hidle, fun _ _ => rfl⟩
  · exact .inr ⟨rfl, rfl, rfl⟩
  · exact .inl ⟨rfl, hidle, fun _ _ => rfl⟩

variable {dirtyips : Option (GoMap String Record)}

lemma Migrating.eq_nil_iff
    {ms : List Migration} (h : Migrating ips dirtyips ms) : ms = [] ↔ dirtyips = none := by
  cases h <;> simp

lemma Inv.writeAndShrink (h : Inv s) (hidle : s.cache.dirtyips = none) (keys : List String)
    (now : Int) (cleanups : List (List String)) :
    Inv { cache := (s.cache.writeAndShrink keys now).1
          cleanups := cleanups
          migrations :=
            if (s.cache.writeAndShrink keys now).2 then .starting :: s.migrations
            else s.migrations
          history := cleanupHistory (s.cache.cleanupTime now) keys s.cache.ips s.history } := by
  have hms : s.migrations = [] := h.migrating.eq_nil_iff.mpr hidle
  have hmain : ∀ d f, recordOf s.cache.ips d f = latest s.history d f := by
    intro d f
    rw [← h.view, view_of_not_migrating hidle]
  obtain ⟨hvalid, hlatest⟩ := cleanupHistory_spec (s.cache.cleanupTime now) keys h.valid hmain
  rcases writeAndShrink_cases hidle keys now rfl with ⟨hno, hdirty, hips⟩ | ⟨hyes, hdirty, hips⟩
  · refine ⟨hvalid, ?_, ?_⟩
    · intro d f
      rw [view_of_not_migrating hdirty, hips, hlatest]
    · rw [hdirty, hno, hms]
      exact .idle
  · refine ⟨hvalid, ?_, ?_⟩
    · intro d f
      rw [CacheController.view, hdirty, hips, ← hlatest]
      rfl
    · rw [hdirty, hyes, hms]
      exact .active trivial

lemma progress_start (ord : RangeOrder) (ips dirtyips : GoMap String Record) :
    (Migration.copying ((ord.order 0 dirtyips.entries).map fun e => (e.1, e.2))).Progress
      ips dirtyips := by
  constructor
  · intro e he
    obtain ⟨x, hx, rfl⟩ := List.mem_map.mp he
    exact GoMap.lookup_eq_some_iff.mpr ((ord.perm 0 _).mem_iff.mp hx)
  · intro k r hk hrest
    have hmem := (ord.perm 0 _).mem_iff.mpr (GoMap.lookup_eq_some_iff.mp hk)
    exact absurd (List.mem_map_of_mem hmem) hrest

lemma progress_flush {dirtyips : GoMap String Record} {rest : List (String × Record)}
    (n : Nat) (h : (Migration.copying rest).Progress ips dirtyips) :
    (Migration.copying (rest.drop n)).Progress ((rest.take n).foldl flushEntry ips) dirtyips := by
  constructor
  · intro e he
    exact h.1 e (mem_of_mem_drop he)
  · intro k r hk hrest f hf
    by_cases hmem : (k, r) ∈ rest.take n
    · exact isSome_recordOf_foldl_flushEntry hmem hf
    · have hnot : (k, r) ∉ rest := by
        rw [← List.take_append_drop n rest, mem_append, not_or]
        exact ⟨hmem, hrest⟩
      obtain ⟨r', hr'⟩ := isSome_iff_exists.mp (h.2 k r hk hnot f hf)
      rw [recordOf_foldl_flushEntry_of_some _ hr']
      rfl

/-- When everything is copied, the main map holds what the two maps hold together. -/
lemma recordOf_of_copied {dirtyips : GoMap String Record}
    (h : (Migration.copying []).Progress ips dirtyips) (d : String) (f : Family) :
    (recordOf ips d f).or (recordOf dirtyips d f) = recordOf ips d f := by
  cases hd : recordOf dirtyips d f with
  | none => rw [or_none]
  | some r =>
    obtain ⟨rd, hlookup, hget⟩ := bind_eq_some_iff.mp hd
    have hsome := h.2 d rd hlookup not_mem_nil f (by rw [hget]; rfl)
    obtain ⟨r', hr'⟩ := isSome_iff_exists.mp hsome
    rw [hr', some_or]

variable {i : Nat}

/-- The migration that a step picks is the only one. -/
lemma Migrating.of_getElem? {ms : List Migration} {m : Migration}
    (h : Migrating ips dirtyips ms) (hi : ms[i]? = some m) :
    ∃ d, dirtyips = some d ∧ ms = [m] ∧ i = 0 ∧ m.Progress ips d := by
  cases h with
  | idle => cases hi
  | @active d m' hp =>
    cases i with
    | zero =>
      cases hi
      exact ⟨d, rfl, rfl, rfl, hp⟩
    | succ i => cases hi

variable {s' : State}

lemma Inv.cleanup {now : Int} (h : Inv s)
    (hs : DNS.step s (.writeAndShrink i now) = some s') : Inv s' := by
  obtain ⟨keys, -, rfl⟩ := map_eq_some_iff.mp hs
  by_cases hidle : s.cache.dirtyips = none
  · have hnone : ¬ s.cache.dirtyips.isSome = true := by simp [hidle]
    rw [if_neg hnone]
    exact h.writeAndShrink hidle keys now _
  · -- a cleanup that finds a migrating map does nothing
    have hsome : s.cache.dirtyips.isSome = true := isSome_iff_ne_none.mpr hidle
    have hskip : s.cache.writeAndShrink keys now = (s.cache, false) := by
      rw [CacheController.writeAndShrink, if_pos hsome]
    rw [if_pos hsome, hskip]
    exact ⟨h.valid, h.view, h.migrating⟩

/-- A `migrate` goroutine reads `dirtyips`, with every entry still to copy. -/
lemma Inv.migrate {ord : RangeOrder} (h : Inv s)
    (hs : DNS.step s (.migrate i ord) = some s') : Inv s' := by
  simp only [DNS.step] at hs
  split at hs
  · next hi =>
    obtain ⟨dirtyips, hdirty, hms, rfl, -⟩ := h.migrating.of_getElem? hi
    rw [hdirty] at hs
    cases hs
    refine ⟨h.valid, h.view, ?_⟩
    rw [hdirty, hms]
    exact .active (progress_start ord _ _)
  · cases hs

lemma Inv.flush (h : Inv s) (hs : DNS.step s (.flush i) = some s') : Inv s' := by
  simp only [DNS.step] at hs
  split at hs
  · next rest hi =>
    obtain ⟨dirtyips, hdirty, hms, rfl, hp⟩ := h.migrating.of_getElem? hi
    split_ifs at hs
    cases hs
    refine ⟨h.valid, ?_, ?_⟩
    · intro d f
      rw [← h.view, CacheController.view, CacheController.view, CacheController.flush, hdirty]
      apply recordOf_foldl_flushEntry_or
      intro e he
      exact hp.1 e (mem_of_mem_take he)
    · rw [hms]
      simp only [flush, hdirty]
      exact .active (progress_flush migrationBatchSize hp)
  · cases hs

lemma Inv.clearDirty (h : Inv s) (hs : DNS.step s (.clearDirty i) = some s') : Inv s' := by
  simp only [DNS.step] at hs
  split at hs
  · next hi =>
    obtain ⟨dirtyips, hdirty, hms, rfl, hp⟩ := h.migrating.of_getElem? hi
    cases hs
    refine ⟨h.valid, ?_, ?_⟩
    · intro d f
      rw [view_of_not_migrating rfl, ← h.view, CacheController.view, hdirty]
      exact (recordOf_of_copied hp d f).symm
    · rw [hms]
      exact .idle
  · cases hs

lemma Inv.step {e : Step} (h : Inv s) (hs : step s e = some s') : Inv s' := by
  cases e with
  | updateRecord reqType domain rep =>
    cases hs
    exact h.updateRecord reqType domain rep
  | collectExpiredKeys now ord =>
    cases hs
    split_ifs
    · exact h
    · exact ⟨h.valid, h.view, h.migrating⟩
  | writeAndShrink i now => exact h.cleanup hs
  | migrate i ord => exact h.migrate hs
  | flush i => exact h.flush hs
  | clearDirty i => exact h.clearDirty hs
  | close =>
    cases hs
    exact ⟨h.valid, h.view, h.migrating⟩

end Steps

variable {serveExpiredTTL : UInt32}

lemma inv_of_run {disableCache serveStale : Bool} {es : List Step}
    {s : State} (hr : run step (State.init disableCache serveStale serveExpiredTTL) es = some s) :
    Inv s := by
  refine run_invariant ?_ (inv_init disableCache serveStale serveExpiredTTL) hr
  intro s e s' hs he
  exact hs.step he

lemma get_findRecords {d : String} {r : Record} {f : Family} {rep : IPRecord}
    (hfind : c.findRecords d = some r) (hget : r.get f = some rep) : c.view d f = some rep := by
  rw [findRecords, or_eq_some_iff] at hfind
  rcases hfind with hmain | ⟨hnone, hdirty⟩
  · rw [view, recordOf, hmain, bind_some, hget, some_or]
  · obtain ⟨dirtyips, hdirtyips, hlookup⟩ := bind_eq_some_iff.mp hdirty
    rw [view, recordOf, hnone, hdirtyips, bind_none, none_or,
      bind_some, recordOf, hlookup, bind_some, hget]

/-- In every run the main map, with the migrating map behind it, holds for each domain and family
the record that was written last, unless a cleanup removed that record as expired; `findRecords`
returns no other record; and without a migration the main map alone holds it. -/
theorem cache_holds_latest (disableCache serveStale : Bool) (serveExpiredTTL : UInt32)
    (es : List Step) (s : State)
    (hr : run step (State.init disableCache serveStale serveExpiredTTL) es = some s) :
    ValidHistory s.history ∧
      (∀ d f, s.cache.view d f = latest s.history d f) ∧
      (∀ d r f rep, s.cache.findRecords d = some r → r.get f = some rep →
        latest s.history d f = some rep) ∧
      (s.migrations = [] ↔ s.cache.dirtyips = none) ∧
      (s.cache.dirtyips = none → ∀ d f, recordOf s.cache.ips d f = latest s.history d f) := by
  have h : Inv s := inv_of_run hr
  refine ⟨h.valid, h.view, ?_, h.migrating.eq_nil_iff, ?_⟩
  · intro d r f rep hfind hget
    rw [← h.view, get_findRecords hfind hget]
  · intro hidle d f
    rw [← h.view, view_of_not_migrating hidle]

/-! ### A run with a migration -/

def exampleDomain (i : ℕ) : String := .ofList (replicate (i + 1) 'a')

def live : IPRecord := ⟨1, [[10, 0, 0, 1]], 300 * second, 0, none⟩

def dead : IPRecord := ⟨2, [[10, 0, 0, 2]], 5 * second, 0, none⟩

/-- One record that lives on and some that have expired. -/
def aged : ℕ → GoMap String Record
  | 0 => AList.singleton (exampleDomain 0) ⟨some live, none⟩
  | n + 1 => (aged n).insert (exampleDomain (n + 1)) ⟨some dead, none⟩

def fill : ℕ → List Step
  | 0 => [.updateRecord .v4 (exampleDomain 0) live]
  | n + 1 => fill n ++ [.updateRecord .v4 (exampleDomain (n + 1)) dead]

def deadDomains : ℕ → List String
  | 0 => []
  | n + 1 => exampleDomain (n + 1) :: deadDomains n

lemma exampleDomain_injective : Function.Injective exampleDomain := by
  intro i j h
  have hlength := congrArg (fun s : String => s.toList.length) h
  simpa [exampleDomain] using hlength

lemma notMem_aged {i n : ℕ} (h : n < i) : exampleDomain i ∉ aged n := by
  have hne : ∀ j < i, exampleDomain i ≠ exampleDomain j :=
    fun j hj heq => hj.ne' (exampleDomain_injective heq)
  induction n with
  | zero => simpa [aged, AList.mem_keys] using hne 0 h
  | succ n ih => simpa [aged] using ⟨hne (n + 1) h, ih (by omega)⟩

lemma entries_aged (n : ℕ) : (aged (n + 1)).entries =
    ⟨exampleDomain (n + 1), ⟨some dead, none⟩⟩ :: (aged n).entries :=
  AList.entries_insert_of_notMem (notMem_aged n.lt_succ_self)

lemma length_aged (n : ℕ) : (aged n).entries.length = n + 1 := by
  induction n with
  | zero => rfl
  | succ n ih => rw [entries_aged, length_cons, ih]

lemma erase_aged (n : ℕ) : (aged (n + 1)).erase (exampleDomain (n + 1)) = aged n := by
  refine AList.ext ?_
  show (aged (n + 1)).entries.kerase (exampleDomain (n + 1)) = (aged n).entries
  rw [entries_aged]
  exact kerase_cons_eq rfl

def agedCache (n : ℕ) : CacheController :=
  { newCacheController false false 0 with ips := aged n }

lemma run_fill (n : ℕ) :
    ∃ history, run step (.init false false 0) (fill n) = some ⟨agedCache n, [], [], history⟩ := by
  induction n with
  | zero => exact ⟨_, rfl⟩
  | succ n ih =>
    obtain ⟨history, hr⟩ := ih
    have hnone : (aged n).lookup (exampleDomain (n + 1)) = none :=
      AList.lookup_eq_none.mpr (notMem_aged n.lt_succ_self)
    refine ⟨.wrote (exampleDomain (n + 1)) .v4 dead :: history, ?_⟩
    refine run_append.mpr ⟨_, hr, ?_⟩
    simp [run, step, agedCache, updateRecord, newCacheController, hnone, aged]

lemma collectExpiredKeys_aged (n : ℕ) :
    (agedCache n).collectExpiredKeys (6 * second) .stored = deadDomains n := by
  have hkeys : (aged n).entries.filterMap (fun e =>
      if expiredBefore (6 * second) e.2.a || expiredBefore (6 * second) e.2.aaaa then some e.1
      else none) = deadDomains n := by
    induction n with
    | zero => rfl
    | succ n ih =>
      rw [entries_aged, filterMap_cons, ih]
      rfl
  have hsome : (aged n).entries.isEmpty = false := by
    rw [isEmpty_eq_false_iff, ← length_pos_iff, length_aged]
    exact n.succ_pos
  rw [← hkeys, collectExpiredKeys, agedCache, hsome]
  rfl

lemma cleanup_aged (n : ℕ) :
    (deadDomains n).foldl (cleanupKey (7 * second)) (aged n) = aged 0 := by
  induction n with
  | zero => rfl
  | succ n ih =>
    have hkey : cleanupKey (7 * second) (aged (n + 1)) (exampleDomain (n + 1)) = aged n := by
      have hlookup : (aged (n + 1)).lookup (exampleDomain (n + 1)) = some ⟨some dead, none⟩ :=
        AList.lookup_insert _
      rw [cleanupKey, hlookup]
      exact erase_aged n
    rw [deadDomains, foldl_cons, hkey, ih]

/-- The map that has shrunk to one domain is set aside. -/
lemma writeAndShrink_aged {n : ℕ} (hn : 20000 ≤ n) :
    (agedCache n).writeAndShrink (deadDomains n) (7 * second) =
      ({ agedCache n with ips := ∅, dirtyips := some (aged 0), highWatermark := 1 }, true) := by
  have hshrinks : shrinks (n + 1) 1 = true := by
    simp only [shrinks, shrinkAbsoluteThreshold, Nat.add_sub_cancel, Bool.and_eq_true,
      decide_eq_true_eq]
    omega
  have hcleanup : (deadDomains n).foldl (cleanupKey ((agedCache n).cleanupTime (7 * second)))
      (agedCache n).ips = aged 0 := cleanup_aged n
  have hlength : max (agedCache n).ips.entries.length (agedCache n).highWatermark = n + 1 := by
    rw [agedCache, length_aged]
    rfl
  simp only [writeAndShrink, hcleanup, hlength, length_aged, hshrinks]
  rfl

/-- While that map is copied, a record of the other family is written. -/
def copying : List Step :=
  [.migrate 0 .stored, .updateRecord .v6 (exampleDomain 0) dead, .flush 0, .clearDirty 0]

def migrating (n : ℕ) : List Step :=
  fill n ++
    ([.collectExpiredKeys (6 * second) .stored, .writeAndShrink 0 (7 * second)] ++ copying)

lemma run_migrating {n : ℕ} (hn : 20000 ≤ n) :
    ∃ s, run step (.init false false 0) (migrating n) = some s ∧ s.migrations = [] ∧
      s.cache.findRecords (exampleDomain 0) = some ⟨some live, some dead⟩ := by
  obtain ⟨history, hr⟩ := run_fill n
  have hdead : deadDomains n ≠ [] := by
    cases n with
    | zero => omega
    | succ n => exact cons_ne_nil _ _
  obtain ⟨history', hshrink⟩ : ∃ history', run step ⟨agedCache n, [], [], history⟩
      [.collectExpiredKeys (6 * second) .stored, .writeAndShrink 0 (7 * second)] =
        some ⟨{ agedCache n with ips := ∅, dirtyips := some (aged 0), highWatermark := 1 }, [],
          [.starting], history'⟩ := by
    simp [run, step, collectExpiredKeys_aged, hdead, writeAndShrink_aged hn]
  exact ⟨_, run_append.mpr ⟨_, hr, run_append.mpr ⟨_, hshrink, rfl⟩⟩, rfl, rfl⟩

theorem cache_holds_latest_migrating :
    ∃ s, run step (State.init false false 0) (migrating 20000) = some s ∧ s.migrations = [] ∧
      s.cache.findRecords (exampleDomain 0) = some ⟨some live, some dead⟩ ∧
      ∀ d f, recordOf s.cache.ips d f = latest s.history d f := by
  obtain ⟨s, hr, hidle, hfind⟩ := run_migrating (n := 20000) le_rfl
  obtain ⟨-, -, -, hmigrating, hlatest⟩ := cache_holds_latest false false 0 _ s hr
  exact ⟨s, hr, hidle, hfind, hlatest (hmigrating.mp hidle)⟩

end BypassCore.DNS
