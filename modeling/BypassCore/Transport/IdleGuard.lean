import BypassCore.Lib.Runs
import Mathlib.Algebra.Order.Monoid.WithTop
import Mathlib.Data.Int.Basic

/-!
# The idle guard of a bridge

`transport/bridge.go`: each direction of a bridge calls `ping`, which takes its time stamp before it
has the lock and then installs one deadline on both connections. A ping is skipped while more than
half of the timeout is left, so a tunnel may expire after only half a timeout of silence.
-/

namespace BypassCore.Transport

open Lib

/-- The guard with the deadlines of both connections, where `⊥` is the zero time, and the pings of
the two directions. -/
structure IdleGuard where
  deadline : WithBot ℤ := ⊥
  a : WithBot ℤ := ⊥
  b : WithBot ℤ := ⊥
  /-- The time stamp with which a direction waits for the lock. -/
  stamped : Bool → Option ℤ := fun _ => none
  /-- The direction that has the lock, its time stamp, and whether the deadline of `a` is set. -/
  holder : Option (Bool × ℤ × Bool) := none
  last : Bool → WithBot ℤ := fun _ => ⊥
  returned : List ℤ := []

namespace IdleGuard

inductive Event where
  | now (direction : Bool) (now : ℤ)
  | lock (direction : Bool)
  | setA
  | setB

local instance : Preorder ℤ := Int.instLinearOrder.toPreorder

variable {timeout : ℤ}

/-- A step of a ping. The lock is held until both deadlines are set. -/
def step (timeout : ℤ) (g : IdleGuard) : Event → Option IdleGuard
  | .now d now =>
    if g.stamped d = none ∧ (∀ h ∈ g.holder, h.1 ≠ d) ∧ g.last d ≤ now then
      some { g with
        stamped := Function.update g.stamped d (some now)
        last := Function.update g.last d now }
    else none
  | .lock d =>
    if g.holder = none then
      (g.stamped d).map fun now =>
        let g := { g with stamped := Function.update g.stamped d none }
        if ((now + timeout / 2 : ℤ) : WithBot ℤ) < g.deadline then
          { g with returned := now :: g.returned }
        else { g with deadline := ↑(now + timeout), holder := some (d, now, false) }
    else none
  | .setA =>
    match g.holder with
    | some (d, now, false) => some { g with a := g.deadline, holder := some (d, now, true) }
    | _ => none
  | .setB =>
    match g.holder with
    | some (_, now, true) =>
      some { g with b := g.deadline, holder := none, returned := now :: g.returned }
    | _ => none

/-- Both connections have the full timeout from every ping that has returned. -/
def Full (timeout : ℤ) (g : IdleGuard) : Prop :=
  ∀ t ∈ g.returned, ((t + timeout : ℤ) : WithBot ℤ) ≤ g.a ∧ ((t + timeout : ℤ) : WithBot ℤ) ≤ g.b

instance (g : IdleGuard) : Decidable (Full timeout g) :=
  inferInstanceAs (Decidable (∀ t ∈ g.returned, _))

/-- A ping that enters does not find more than half of the timeout left but less than all of it. -/
def NoPart (timeout : ℤ) (g : IdleGuard) : Event → Prop
  | .lock d => ∀ now ∈ g.stamped d,
      ((now + timeout / 2 : ℤ) : WithBot ℤ) < g.deadline →
        ((now + timeout : ℤ) : WithBot ℤ) ≤ g.deadline
  | _ => True

instance (g : IdleGuard) : ∀ e, Decidable (NoPart timeout g e)
  | .lock d => inferInstanceAs (Decidable (∀ now ∈ g.stamped d, _ → _))
  | .now _ _ | .setA | .setB => isTrue trivial

def Follows (timeout : ℤ) (g : IdleGuard) : Prop :=
  match g.holder with
  | none => g.a = g.deadline ∧ g.b = g.deadline
  | some (_, now, set) =>
    g.deadline = ((now + timeout : ℤ) : WithBot ℤ) ∧ g.a ≤ g.deadline ∧ g.b ≤ g.deadline ∧
      (set = true → g.a = g.deadline)

section Steps

variable (htimeout : 0 < timeout) {g g' : IdleGuard} {e : Event} (hg : Follows timeout g)

include htimeout hg

/-- The deadlines never move backwards. -/
lemma step_follows (h : step timeout g e = some g') :
    Follows timeout g' ∧ g.a ≤ g'.a ∧ g.b ≤ g'.b := by
  cases e with
  | now d now =>
    obtain ⟨-, h⟩ := Option.ite_none_right_eq_some.mp h
    cases h
    exact ⟨hg, le_rfl, le_rfl⟩
  | lock d =>
    obtain ⟨hfree, h⟩ := Option.ite_none_right_eq_some.mp h
    obtain ⟨now, -, rfl⟩ := Option.map_eq_some_iff.mp h
    simp only [Follows, hfree] at hg
    dsimp only
    split_ifs with hskip
    · exact ⟨by simpa [Follows, hfree] using hg, le_rfl, le_rfl⟩
    · -- At most half of the timeout is left, so the new deadline is a later one.
      have hle : g.deadline ≤ ((now + timeout : ℤ) : WithBot ℤ) :=
        (not_lt.mp hskip).trans (WithBot.coe_le_coe.mpr (by omega))
      refine ⟨?_, le_rfl, le_rfl⟩
      simp only [Follows, hg.1, hg.2]
      exact ⟨trivial, hle, hle, fun h => absurd h Bool.false_ne_true⟩
  | setA =>
    simp only [step] at h
    split at h <;> cases h
    next heq =>
      simp only [Follows, heq] at hg
      exact ⟨⟨hg.1, le_rfl, hg.2.2.1, fun _ => rfl⟩, hg.2.1, le_rfl⟩
  | setB =>
    simp only [step] at h
    split at h <;> cases h
    next heq =>
      simp only [Follows, heq] at hg
      exact ⟨⟨hg.2.2.2 trivial, rfl⟩, le_rfl, hg.2.2.1⟩

/-- A step keeps the full timeout exactly when it skips no ping that needs an extension. -/
lemma full_step (hfull : Full timeout g) (h : step timeout g e = some g') :
    Full timeout g' ↔ NoPart timeout g e := by
  obtain ⟨-, ha, hb⟩ := step_follows htimeout hg h
  have hmono : ∀ t ∈ g.returned, ((t + timeout : ℤ) : WithBot ℤ) ≤ g'.a ∧
      ((t + timeout : ℤ) : WithBot ℤ) ≤ g'.b :=
    fun t ht => ⟨(hfull t ht).1.trans ha, (hfull t ht).2.trans hb⟩
  cases e with
  | now d now =>
    obtain ⟨-, h⟩ := Option.ite_none_right_eq_some.mp h
    cases h
    exact iff_of_true hmono trivial
  | lock d =>
    obtain ⟨hfree, h⟩ := Option.ite_none_right_eq_some.mp h
    obtain ⟨now, hnow, rfl⟩ := Option.map_eq_some_iff.mp h
    simp only [Follows, hfree] at hg
    have hpart : NoPart timeout g (.lock d) ↔ (((now + timeout / 2 : ℤ) : WithBot ℤ) < g.deadline →
          ((now + timeout : ℤ) : WithBot ℤ) ≤ g.deadline) := by
      simp [NoPart, hnow]
    rw [hpart]
    dsimp only at hmono ⊢
    split_ifs at hmono ⊢ with hskip
    · simp only [Full, List.forall_mem_cons, hg.1, hg.2, and_self, hskip, forall_const]
      refine and_iff_left fun t ht => ?_
      simpa [hg.1, hg.2] using hmono t ht
    · exact iff_of_true hmono fun h => absurd h hskip
  | setA =>
    simp only [step] at h
    split at h <;> cases h
    exact iff_of_true hmono trivial
  | setB =>
    simp only [step] at h
    split at h <;> cases h
    next heq =>
      simp only [Follows, heq] at hg
      refine iff_of_true (List.forall_mem_cons.mpr ⟨?_, hmono⟩) trivial
      exact ⟨(hg.1.symm.trans (hg.2.2.2 trivial).symm).le, hg.1.ge⟩

end Steps

/-- In every interleaving the deadlines never move backwards, and the pings that have returned keep
their full timeout exactly while none of them is skipped with less than the timeout left. -/
theorem idle_timeout_full_iff (timeout : ℤ) (htimeout : 0 < timeout) (es : List Event)
    (g : IdleGuard) (hr : run (step timeout) {} es = some g) :
    (∀ fs gs, es = fs ++ gs → ∀ u, run (step timeout) {} fs = some u → u.a ≤ g.a ∧ u.b ≤ g.b) ∧
      ((∀ fs gs, es = fs ++ gs → ∀ u, run (step timeout) {} fs = some u → Full timeout u) ↔
        Guarded (step timeout) (NoPart timeout) {} es) := by
  have hinit : Follows timeout {} := ⟨rfl, rfl⟩
  have hkeep : ∀ s e s', Follows timeout s → step timeout s e = some s' → Follows timeout s' :=
    fun s e s' hs he => (step_follows htimeout hs he).1
  constructor
  · rintro fs gs rfl u hu
    obtain ⟨u', hu', hr⟩ := run_append.mp hr
    rw [hu] at hu'
    cases hu'
    have hmono := run_invariant (I := fun s => Follows timeout s ∧ u.a ≤ s.a ∧ u.b ≤ s.b) ?_
      ⟨run_invariant hkeep hinit hu, le_rfl, le_rfl⟩ hr
    · exact hmono.2
    · rintro s e s' ⟨hs, ha, hb⟩ he
      obtain ⟨hs', ha', hb'⟩ := step_follows htimeout hs he
      exact ⟨hs', ha.trans ha', hb.trans hb'⟩
  · exact guarded_iff (J := fun _ => Follows timeout) hkeep
      (fun s e s' hs hfull he => full_step htimeout hs hfull he) hinit (by simp [Full]) hr

/-- Two pings, the second one when less than half of the timeout is left. -/
def spacedPings : List Event :=
  [.now true 0, .lock true, .setA, .setB, .now false 6, .lock false, .setA, .setB]

theorem idle_timeout_full_spaced : ∃ g, run (step 10) {} spacedPings = some g ∧ Full 10 g :=
  ⟨_, rfl, (idle_timeout_full_iff 10 (by decide) spacedPings _ rfl).2.mpr (by decide) _ []
    (List.append_nil _).symm _ rfl⟩

/-- A ping after less than half of the timeout, which is skipped. -/
def earlyPing : List Event :=
  [.now true 0, .lock true, .setA, .setB, .now true 4, .lock true]

theorem idle_timeout_not_full : ∃ g, run (step 10) {} earlyPing = some g ∧ ¬ Full 10 g :=
  ⟨_, rfl, by decide⟩

end IdleGuard

end BypassCore.Transport
