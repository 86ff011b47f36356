import Mathlib.Tactic.Common

/-!
# Computations that may fail

How a successful computation in `Except` comes apart into its steps.
-/

namespace Lib

universe u

variable {ε : Type*} {α β : Type u}

def ensure (c : Bool) (e : ε) : Except ε Unit :=
  if c then .ok () else .error e

lemma ensure_eq_ok {c : Bool} {e : ε} {u : Unit} : ensure c e = .ok u ↔ c = true := by
  cases c <;> simp [ensure]

lemma bind_eq_ok {x : Except ε α} {f : α → Except ε β} {b : β} :
    (x >>= f) = .ok b ↔ ∃ a, x = .ok a ∧ f a = .ok b := by
  cases x <;> simp [bind, Except.bind]

lemma map_eq_ok {x : Except ε α} {f : α → β} {b : β} :
    (f <$> x) = .ok b ↔ ∃ a, x = .ok a ∧ f a = b := by
  cases x <;> simp [Functor.map, Except.map]

lemma mapError_eq_ok {ε' : Type*} {f : ε → ε'} {x : Except ε α} {a : α} :
    x.mapError f = .ok a ↔ x = .ok a := by
  cases x <;> simp [Except.mapError]

/-- A computation that succeeds with a given result if a condition holds, and fails with an error of
some kind if not. -/
structure Decides (x : Except ε α) (a : α) (P : Prop) (E : ε → Prop) : Prop where
  ok : P → x = .ok a
  error : ¬ P → ∃ e, E e ∧ x = .error e

namespace Decides

variable {x : Except ε α} {a : α} {b : β} {f : α → Except ε β} {P Q : Prop} {E : ε → Prop}

lemma of_ok (h : x = .ok a) : Decides x a True E := ⟨fun _ => h, fun hnot => absurd trivial hnot⟩

lemma congr (h : Decides x a P E) (hiff : P ↔ Q) : Decides x a Q E := propext hiff ▸ h

/-- One computation after another decides both conditions. -/
lemma bind (hx : Decides x a P E) (hf : Decides (f a) b Q E) : Decides (x >>= f) b (P ∧ Q) E := by
  constructor
  · rintro ⟨hP, hQ⟩
    rw [hx.ok hP]
    exact hf.ok hQ
  · intro hnot
    by_cases hP : P
    · rw [hx.ok hP]
      exact hf.error fun hQ => hnot ⟨hP, hQ⟩
    · obtain ⟨e, he, hxe⟩ := hx.error hP
      exact ⟨e, he, by rw [hxe]; rfl⟩

lemma mapError {ε' : Type*} {g : ε → ε'} (h : Decides x a P E) :
    Decides (x.mapError g) a P fun e' => ∃ e, E e ∧ e' = g e := by
  constructor
  · intro hP
    rw [h.ok hP]
    rfl
  · intro hP
    obtain ⟨e, he, hxe⟩ := h.error hP
    exact ⟨g e, ⟨e, he, rfl⟩, by rw [hxe]; rfl⟩

lemma of_eq_ok {a' : α} (h : Decides x a P E) (hok : x = .ok a') : P ∧ a' = a := by
  have hP : P := by
    by_contra hP
    obtain ⟨e, -, hxe⟩ := h.error hP
    cases hok.symm.trans hxe
  exact ⟨hP, Except.ok.inj (hok.symm.trans (h.ok hP))⟩

end Decides

end Lib
