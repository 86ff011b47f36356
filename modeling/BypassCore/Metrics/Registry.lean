import BypassCore.Lib.GoMap
import BypassCore.Lib.Threads

/-!
# The registry of metric series

`common/metrics/metrics.go`: calls of `metric` and of `RetainLabelValues` run concurrently on a
`sync.Map` and a pointer to the restrictions. A reload publishes its restrictions before it scans
the map; a lookup looks at them again after it has stored its series.
-/

namespace BypassCore.Metrics

open Lib List Threads GoMap

abbrev Labels := GoMap String String

abbrev Allowed := GoMap String (List String)

/-- `labelRestrictions` behind a pointer, which is told apart by its number. -/
structure Restrictions where
  id : ℕ
  allowed : Allowed
deriving DecidableEq

def labelsAllowed (values : Labels) (allowed : Allowed) : Bool :=
  allowed.entries.all fun e => (values.lookup e.1).all fun current => current ∈ e.2

def labelValues (pairs : List String) (values : Labels := ∅) : Labels :=
  match pairs with
  | label :: value :: pairs => labelValues pairs (values.insert label value)
  | _ => values

structure Shared where
  registry : GoMap String Labels := ∅
  restrictions : Option Restrictions := none
  next : ℕ := 0

def allows (r : Option Restrictions) (values : Labels) : Bool :=
  r.all fun r => labelsAllowed values r.allowed

/-- A call of `metric` for a key and labels, or of `RetainLabelValues`, between its operations. -/
inductive Thread
  | called (key : String) (values : Labels)
  | admitted (key : String) (values : Labels) (current : Option Restrictions)
  | missed (key : String) (values : Labels) (current : Option Restrictions)
  | stored (key : String) (values : Labels) (current : Option Restrictions)
  | retired (key : String)
  | returned
  | retain (allowed : Allowed)
  | published (r : Restrictions)
  /-- In `Range`, with the keys that were there when it began and are to be visited yet. -/
  | scanning (r : Restrictions) (pending : List String)
  | pruning (r : Restrictions) (pending : List String) (key : String)

/-- The next operation. The choice is the key that `Range` comes to next, or that it ends. -/
def exec (_ : List Thread) (s : Shared) (t : Thread) (visited : Option String) :
    Option (Shared × Thread) :=
  match t with
  | .called key values =>
    some (s, if allows s.restrictions values then .admitted key values s.restrictions
      else .returned)
  | .admitted key values current =>
    some (s, if (s.registry.lookup key).isSome then .returned else .missed key values current)
  | .missed key values current =>
    if (s.registry.lookup key).isSome then some (s, .stored key values current)
    else some ({ s with registry := s.registry.insert key values }, .stored key values current)
  | .stored key values current =>
    some (s, if s.restrictions ≠ current ∧ ¬ allows s.restrictions values then .retired key
      else .returned)
  | .retired key => some ({ s with registry := s.registry.erase key }, .returned)
  | .returned => none
  | .retain allowed =>
    some ({ s with restrictions := some ⟨s.next, allowed⟩, next := s.next + 1 },
      .published ⟨s.next, allowed⟩)
  | .published r => some (s, .scanning r s.registry.keys)
  | .scanning r pending =>
    match visited with
    | none => if pending = [] then some (s, .returned) else none
    | some key =>
      if (s.registry.lookup key).all fun values => labelsAllowed values r.allowed then
        some (s, .scanning r (pending.filter (· ≠ key)))
      else some (s, .pruning r (pending.filter (· ≠ key)) key)
  | .pruning r pending key =>
    some ({ s with registry := s.registry.erase key }, .scanning r pending)

abbrev State := Config Shared Thread

inductive Event
  | metric (key : String) (labelPairs : List String)
  | retain (allowed : Allowed)
  | advance (i : ℕ) (visited : Option String)

def step (s : State) : Event → Option State
  | .metric key labelPairs => some (s.spawn (.called key (labelValues labelPairs)))
  | .retain allowed => some (s.spawn (.retain allowed))
  | .advance i visited => s.advance exec i visited

/-- A lookup goes on with restrictions that allow its labels. -/
def Thread.Sound : Thread → Prop
  | .admitted _ values current | .missed _ values current | .stored _ values current =>
    allows current values = true
  | _ => True

/-- The thread will look at the series and remove it unless `latest` allows it. -/
def Thread.Covers (latest : Option Restrictions) (key : String) (values : Labels) : Thread → Prop
  | .stored key' values' current => key' = key ∧ values' = values ∧ latest ≠ current
  | .retired key' => key' = key
  | .published r => latest = some r
  | .scanning r pending => latest = some r ∧ key ∈ pending
  | .pruning r pending key' => key' = key ∨ latest = some r ∧ key ∈ pending
  | _ => False

structure Inv (s : State) : Prop where
  sound : ∀ t ∈ s.threads, t.Sound
  covered : ∀ key values, s.shared.registry.lookup key = some values →
    allows s.shared.restrictions values = false →
      ∃ t ∈ s.threads, t.Covers s.shared.restrictions key values

variable {ts : List Thread} {s s' : Shared} {t t' : Thread} {visited : Option String}

lemma sound_exec (h : t.Sound) (he : exec ts s t visited = some (s', t')) : t'.Sound := by
  cases t with
  | called =>
    cases he
    split_ifs with hallows
    · exact hallows
    · trivial
  | admitted =>
    cases he
    split_ifs
    · trivial
    · exact h
  | missed =>
    rw [exec] at he
    split_ifs at he <;> cases he <;> exact h
  | stored =>
    cases he
    split_ifs <;> trivial
  | scanning =>
    cases visited with dsimp only [exec] at he
    | none | some => split_ifs at he <;> cases he <;> trivial
  | returned => cases he
  | _ =>
    cases he
    trivial

lemma lookup_erase_eq_some {m : GoMap String Labels} {k k' : String} {v : Labels}
    (h : (m.erase k').lookup k = some v) : k ≠ k' ∧ m.lookup k = some v := by
  rw [lookup_erase_eq] at h
  split_ifs at h with hne
  exact ⟨hne, h⟩

/-- What a thread covers it removes or goes on to cover; and it covers what it stores. -/
lemma covers_exec (h : t.Sound) (he : exec ts s t visited = some (s', t')) {key : String}
    {values : Labels} (hkey : s'.registry.lookup key = some values)
    (hbad : allows s'.restrictions values = false)
    (hcovers : s.registry.lookup key = some values → t.Covers s.restrictions key values) :
    t'.Covers s'.restrictions key values := by
  cases t with
  | called | admitted =>
    cases he
    exact (hcovers hkey).elim
  | missed key' values' current =>
    rw [exec] at he
    split_ifs at he <;> cases he
    · exact (hcovers hkey).elim
    · rw [lookup_insert_eq] at hkey
      split_ifs at hkey with heq
      · -- the new series: it was admitted, so the restrictions have changed since
        cases hkey
        refine ⟨heq.symm, rfl, ?_⟩
        rintro rfl
        exact absurd (h.symm.trans hbad) nofun
      · exact (hcovers hkey).elim
  | stored =>
    cases he
    obtain ⟨rfl, rfl, hne⟩ := hcovers hkey
    rw [if_pos ⟨hne, Bool.not_eq_true _ ▸ hbad⟩]
    exact rfl
  | retired =>
    cases he
    obtain ⟨hne, hkey⟩ := lookup_erase_eq_some hkey
    exact absurd (hcovers hkey).symm hne
  | returned => cases he
  | retain =>
    cases he
    exact rfl
  | published =>
    cases he
    exact ⟨hcovers hkey, AList.mem_keys.mp (AList.lookup_isSome.mp (hkey ▸ rfl))⟩
  | scanning r pending =>
    cases visited with
    | none =>
      rw [exec] at he
      split_ifs at he with hempty
      cases he
      exact absurd (hcovers hkey).2 (hempty ▸ not_mem_nil)
    | some key' =>
      dsimp only [exec] at he
      split_ifs at he with hallowed <;> cases he
      · obtain ⟨hlatest, hmem⟩ := hcovers hkey
        refine ⟨hlatest, mem_filter.mpr ⟨hmem, decide_eq_true ?_⟩⟩
        -- the key of this round has a series that is allowed
        rintro rfl
        rw [hkey] at hallowed
        rw [hlatest] at hbad
        exact absurd (hallowed.symm.trans hbad) nofun
      · obtain ⟨hlatest, hmem⟩ := hcovers hkey
        by_cases heq : key' = key
        · exact .inl heq
        · exact .inr ⟨hlatest, mem_filter.mpr ⟨hmem, decide_eq_true (Ne.symm heq)⟩⟩
  | pruning =>
    cases he
    obtain ⟨hne, hkey⟩ := lookup_erase_eq_some hkey
    exact (hcovers hkey).resolve_left (Ne.symm hne)

lemma restrictions_exec (he : exec ts s t visited = some (s', t')) :
    s'.restrictions = s.restrictions ∨ ∀ key values, t'.Covers s'.restrictions key values := by
  cases t with
  | retain =>
    cases he
    exact .inr fun _ _ => rfl
  | missed =>
    rw [exec] at he
    split_ifs at he <;> cases he <;> exact .inl rfl
  | scanning =>
    cases visited with dsimp only [exec] at he
    | none | some => split_ifs at he <;> cases he <;> exact .inl rfl
  | returned => cases he
  | _ =>
    cases he
    exact .inl rfl

lemma Inv.advance {c c' : State} {i : ℕ} (h : Inv c) (ha : c.advance exec i visited = some c') :
    Inv c' := by
  obtain ⟨t, s', t', hi, he, rfl⟩ := Config.advance_eq_some ha
  have ht := h.sound t (mem_of_getElem? hi)
  have hmem : t' ∈ c.threads.set i t' := (pick_set_perm hi t').mem_iff.mpr mem_cons_self
  refine ⟨?_, ?_⟩
  · exact forall_mem_set h.sound (fun _ _ hu => hu) (sound_exec ht he) _
  · intro key values hkey hbad
    rcases restrictions_exec he with hsame | hcovers
    · by_cases hold : c.shared.registry.lookup key = some values
      · obtain ⟨u, hu, hcovers⟩ := h.covered key values hold (hsame ▸ hbad)
        rcases mem_cons.mp ((pick_perm hi).mem_iff.mp hu) with rfl | hu
        · exact ⟨t', hmem, covers_exec ht he hkey hbad fun _ => hcovers⟩
        · exact ⟨u, (pick_set_perm hi t').mem_iff.mpr (mem_cons_of_mem _ hu), hsame ▸ hcovers⟩
      · exact ⟨t', hmem, covers_exec ht he hkey hbad fun hold' => absurd hold' hold⟩
    · exact ⟨t', hmem, hcovers key values⟩

lemma Inv.spawn {c : State} (h : Inv c) (ht : t.Sound) : Inv (c.spawn t) := by
  refine ⟨forall_mem_append.mpr ⟨h.sound, by simpa⟩, ?_⟩
  intro key values hkey hbad
  obtain ⟨u, hu, hcovers⟩ := h.covered key values hkey hbad
  exact ⟨u, mem_append_left _ hu, hcovers⟩

lemma Inv.step {c c' : State} {e : Event} (h : Inv c) (hs : step c e = some c') : Inv c' := by
  cases e with
  | metric | retain =>
    cases hs
    exact h.spawn trivial
  | advance i visited => exact h.advance hs

/-- **Metric cardinality is bounded.** Whatever the interleaving, when all lookups and reloads have
returned, the restrictions stored last allow every series of the registry. -/
theorem retained_of_returned {es : List Event} {c : State}
    (hr : run step ⟨{}, []⟩ es = some c) (hreturned : ∀ t ∈ c.threads, t = .returned)
    (key : String) (values : Labels) (hkey : c.shared.registry.lookup key = some values) :
    allows c.shared.restrictions values = true := by
  have hinv : Inv c := run_invariant (fun _ _ _ h hs => h.step hs) ⟨by simp, by simp⟩ hr
  by_contra hbad
  obtain ⟨t, ht, hcovers⟩ := hinv.covered key values hkey (Bool.not_eq_true _ ▸ hbad)
  rw [hreturned t ht] at hcovers
  exact hcovers

/-- The series `b` is there before a reload, `a` is stored during it, and `c` after it. -/
def overlapping : List Event :=
  [.metric "a" ["x", "1"], .advance 0 none, .advance 0 none,
    .metric "b" ["x", "1"], .advance 1 none, .advance 1 none, .advance 1 none, .advance 1 none,
    .retain (AList.singleton "x" ["2"]), .advance 2 none, .advance 2 none,
    .advance 0 none, .advance 0 none, .advance 0 none,
    .advance 2 (some "b"), .advance 2 none, .advance 2 none,
    .metric "c" ["x", "2"], .advance 3 none, .advance 3 none, .advance 3 none, .advance 3 none]

def ended : State :=
  ⟨⟨AList.singleton "c" (AList.singleton "x" "2"), some ⟨0, AList.singleton "x" ["2"]⟩, 1⟩,
    [.returned, .returned, .returned, .returned]⟩

/-- The lookup removes `a` and the scan removes `b`. -/
theorem retained_of_overlapping : run step ⟨{}, []⟩ overlapping = some ended ∧
    allows ended.shared.restrictions (AList.singleton "x" "2") = true := by
  have hr : run step ⟨{}, []⟩ overlapping = some ended := rfl
  exact ⟨hr, retained_of_returned hr (by simp [ended]) "c" _ rfl⟩

end BypassCore.Metrics
