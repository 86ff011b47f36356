import Mathlib.Algebra.BigOperators.Group.List.Basic
import Mathlib.Data.Option.Basic

/-!
# Runs of a partial step function

A concurrent component is a state together with a step function `step : σ → ε → Option σ`. An
event names one atomic step of one party, together with every choice the environment makes for
it; `step s e` is `none` when the step is not enabled in `s`. An interleaving is a list of events,
so a property of every interleaving is a property of every run.

A guard restricts the states in which an event is taken. A guarded run meets it at every step.

The parties at one stage form a list from which an event picks one by its place.
-/

namespace Lib

open List

variable {σ ε : Type*}

/-- Take the events one after another, failing at the first one that is not enabled. -/
def run (step : σ → ε → Option σ) : σ → List ε → Option σ
  | s, [] => some s
  | s, e :: es => (step s e).bind fun s' => run step s' es

/-- Each event of the run is taken in a state that meets the guard. -/
def Guarded (step : σ → ε → Option σ) (guard : σ → ε → Prop) : σ → List ε → Prop
  | _, [] => True
  | s, e :: es => guard s e ∧ ∀ s', step s e = some s' → Guarded step guard s' es

variable {step : σ → ε → Option σ} {guard : σ → ε → Prop}

instance decidableGuarded [∀ s e, Decidable (guard s e)] :
    ∀ s es, Decidable (Guarded step guard s es)
  | _, [] => isTrue trivial
  | s, e :: es =>
    match h : step s e with
    | none =>
      decidable_of_iff (guard s e) (by simp [Guarded, h])
    | some s' =>
      have : Decidable (Guarded step guard s' es) := decidableGuarded s' es
      decidable_of_iff (guard s e ∧ Guarded step guard s' es) (by simp [Guarded, h])

@[simp] lemma run_nil (s : σ) : run step s [] = some s := rfl

variable {es : List ε}

lemma run_cons {s t : σ} {e : ε} :
    run step s (e :: es) = some t ↔ ∃ s', step s e = some s' ∧ run step s' es = some t := by
  simp [run, Option.bind_eq_some_iff]

lemma run_append {s t : σ} {fs : List ε} :
    run step s (es ++ fs) = some t ↔ ∃ s', run step s es = some s' ∧ run step s' fs = some t := by
  induction es generalizing s with
  | nil => simp
  | cons e es ih =>
    rw [cons_append, run_cons]
    constructor
    · rintro ⟨s₁, he, hr⟩
      obtain ⟨s', hes, hfs⟩ := ih.mp hr
      exact ⟨s', run_cons.mpr ⟨s₁, he, hes⟩, hfs⟩
    · rintro ⟨s', hes, hfs⟩
      obtain ⟨s₁, he, hes⟩ := run_cons.mp hes
      exact ⟨s₁, he, ih.mpr ⟨s', hes, hfs⟩⟩

lemma guarded_cons {s s' : σ} {e : ε} (hg : guard s e) (hs : step s e = some s')
    (h : Guarded step guard s' es) : Guarded step guard s (e :: es) := by
  refine ⟨hg, ?_⟩
  intro t ht
  rw [hs] at ht
  cases ht
  exact h

variable {I : σ → Prop}

/-- What every step preserves, every run preserves. It may depend on the events that are still to
come. -/
theorem run_induction {J : List ε → σ → Prop}
    (hstep : ∀ {es} s e s', J (e :: es) s → step s e = some s' → J es s')
    {s t : σ} (hs : J es s) (hr : run step s es = some t) : J [] t := by
  induction es generalizing s with
  | nil =>
    cases hr
    exact hs
  | cons e es ih =>
    obtain ⟨s', he, hr'⟩ := run_cons.mp hr
    exact ih (hstep s e s' hs he) hr'

theorem run_invariant (hstep : ∀ s e s', I s → step s e = some s' → I s')
    {s t : σ} (hs : I s) (hr : run step s es = some t) : I t :=
  run_induction (J := fun _ => I) hstep hs hr

/-- What every guarded step preserves, every guarded run preserves. -/
theorem Guarded.invariant (hstep : ∀ s e s', I s → guard s e → step s e = some s' → I s')
    {s t : σ} (hs : I s) (hg : Guarded step guard s es) (hr : run step s es = some t) : I t :=
  (run_induction (J := fun es s => I s ∧ Guarded step guard s es)
    (fun s e s' h he => ⟨hstep s e s' h.1 h.2.1 he, h.2.2 s' he⟩) ⟨hs, hg⟩ hr).1

/-- Where a guard is what each step needs to keep a property, the guarded runs are those along
which the property holds in every state. What else the steps need may depend on the events that are
still to come. -/
theorem guarded_iff {J : List ε → σ → Prop}
    (hJ : ∀ {es} s e s', J (e :: es) s → step s e = some s' → J es s')
    (hstep : ∀ {es} s e s', J (e :: es) s → I s → step s e = some s' → (I s' ↔ guard s e))
    {s t : σ} (hs : J es s) (hI : I s) (hr : run step s es = some t) :
    (∀ fs gs, es = fs ++ gs → ∀ u, run step s fs = some u → I u) ↔ Guarded step guard s es := by
  induction es generalizing s with
  | nil =>
    refine iff_of_true ?_ trivial
    intro fs gs hfs u hu
    rw [(append_eq_nil_iff.mp hfs.symm).1] at hu
    cases hu
    exact hI
  | cons e es ih =>
    obtain ⟨s', he, hr'⟩ := run_cons.mp hr
    constructor
    · intro h
      have hI' : I s' := h [e] es rfl s' (run_cons.mpr ⟨s', he, rfl⟩)
      refine guarded_cons ((hstep s e s' hs hI he).mp hI') he ?_
      rw [← ih (hJ s e s' hs he) hI' hr']
      intro fs gs hfs u hu
      exact h (e :: fs) gs (by rw [hfs, cons_append]) u (run_cons.mpr ⟨s', he, hu⟩)
    · rintro ⟨hg, hrest⟩ fs gs hfs u hu
      have hI' : I s' := (hstep s e s' hs hI he).mpr hg
      cases fs with
      | nil =>
        cases hu
        exact hI
      | cons f fs =>
        rw [cons_append, cons_eq_cons] at hfs
        obtain ⟨rfl, hfs⟩ := hfs
        obtain ⟨s'', he', hu'⟩ := run_cons.mp hu
        rw [he] at he'
        cases he'
        exact (ih (hJ s e s' hs he) hI' hr').mpr (hrest s' he) fs gs hfs u hu'

/-- Where a guard is what a step adds to a property, a run keeps the property exactly when it starts
with it and is guarded. -/
theorem iff_guarded (hstep : ∀ s e s', step s e = some s' → (I s' ↔ I s ∧ guard s e))
    {s t : σ} (hr : run step s es = some t) : I t ↔ I s ∧ Guarded step guard s es := by
  induction es generalizing s with
  | nil =>
    cases hr
    exact (and_iff_left trivial).symm
  | cons e es ih =>
    obtain ⟨s', he, hr'⟩ := run_cons.mp hr
    rw [ih hr', hstep s e s' he, and_assoc]
    refine and_congr_right fun _ => ?_
    constructor
    · rintro ⟨hg, hrest⟩
      exact guarded_cons hg he hrest
    · rintro ⟨hg, hrest⟩
      exact ⟨hg, hrest s' he⟩

variable {P : ε → Prop}

/-- What every step of some events preserves, every run of such events preserves. -/
theorem run_invariant_of (hstep : ∀ s e s', I s → P e → step s e = some s' → I s')
    {s t : σ} (hs : I s) (hP : ∀ e ∈ es, P e) (hr : run step s es = some t) : I t :=
  (run_induction (J := fun es s => I s ∧ ∀ e ∈ es, P e)
    (fun s e s' h he => ⟨hstep s e s' h.1 (h.2 e mem_cons_self) he, (forall_mem_cons.mp h.2).2⟩)
    ⟨hs, hP⟩ hr).1

/-- Where every step of some events lowers a measure, a run of such events is no longer than the
measure at its start. -/
theorem run_length_le {work : σ → ℕ} (hI : ∀ s e s', I s → step s e = some s' → I s')
    (hwork : ∀ s e s', I s → P e → step s e = some s' → work s' < work s)
    {s t : σ} (hs : I s) (hP : ∀ e ∈ es, P e) (hr : run step s es = some t) :
    es.length ≤ work s := by
  induction es generalizing s with
  | nil => exact Nat.zero_le _
  | cons e es ih =>
    obtain ⟨s', he, hr'⟩ := run_cons.mp hr
    obtain ⟨hPe, hP⟩ := forall_mem_cons.mp hP
    have hlt := hwork s e s' hs hPe he
    have hle := ih (hI s e s' hs he) hP hr'
    rw [length_cons]
    omega

/-- Where every step adds what the event contributes to a quantity, a run adds the sum of the
contributions. -/
theorem run_total {M : Type*} [AddCommMonoid M] {quantity : σ → M} {contributed : ε → M}
    (hstep : ∀ s e s', step s e = some s' → quantity s' = quantity s + contributed e)
    {s t : σ} (hr : run step s es = some t) :
    quantity t = quantity s + (es.map contributed).sum := by
  induction es generalizing s with
  | nil =>
    cases hr
    rw [map_nil, sum_nil, add_zero]
  | cons e es ih =>
    obtain ⟨s', he, hr'⟩ := run_cons.mp hr
    rw [ih hr', hstep s e s' he, map_cons, sum_cons, add_assoc]

section Pick

variable {α : Type*} {l : List α} {i : Nat} {a : α}

lemma pick_perm (h : l[i]? = some a) : l.Perm (a :: l.eraseIdx i) := by
  obtain ⟨hi, rfl⟩ := List.getElem?_eq_some_iff.mp h
  exact (getElem_cons_eraseIdx_perm hi).symm

lemma pick_set_perm (h : l[i]? = some a) (b : α) : (l.set i b).Perm (b :: l.eraseIdx i) :=
  set_perm_cons_eraseIdx (List.getElem?_eq_some_iff.mp h).1 b

end Pick

end Lib
