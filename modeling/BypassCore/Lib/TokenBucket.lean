import Mathlib.Algebra.Order.Field.Basic
import Mathlib.Tactic.Linarith
import Mathlib.Tactic.Ring

/-!
# Token buckets

A component answers calls, each made at some time, and its state has a level for one class of
calls. The level lies between zero and a burst, rises with time at no more than a rate, and every
admitted call of the class takes one from it. Then no window of length `d` sees more than
`burst + rate * d` admitted calls of the class, however the component keeps its books.
-/

namespace Lib

variable {σ ι 𝕜 : Type*} [Field 𝕜] [LinearOrder 𝕜] [IsStrictOrderedRing 𝕜]

def admitted (step : σ → ι → Bool × σ) (p : ι → Prop) [DecidablePred p] : σ → List ι → Nat
  | _, [] => 0
  | s, c :: cs => (if (step s c).1 ∧ p c then 1 else 0) + admitted step p (step s c).2 cs

def after (step : σ → ι → Bool × σ) : σ → List ι → σ
  | s, [] => s
  | s, c :: cs => after step (step s c).2 cs

section

variable {step : σ → ι → Bool × σ} {p : ι → Prop} [DecidablePred p]

lemma admitted_append (s : σ) (cs cs' : List ι) :
    admitted step p s (cs ++ cs') =
      admitted step p s cs + admitted step p (after step s cs) cs' := by
  induction cs generalizing s with
  | nil => simp [admitted, after]
  | cons c cs ih => simp [admitted, after, ih, Nat.add_assoc]

lemma admitted_eq_zero (s : σ) {cs : List ι} (h : ∀ c ∈ cs, ¬ p c) : admitted step p s cs = 0 := by
  induction cs generalizing s with
  | nil => rfl
  | cons c cs ih =>
    rw [List.forall_mem_cons] at h
    simp [admitted, h.1, ih _ h.2]

/-- Nothing is admitted once a call comes behind the window. -/
lemma admitted_eq_zero_of_late {τ : Type*} [Preorder τ] {time : ι → τ} {stop : τ} {c : ι}
    {cs : List ι} (s : σ) (hp : ∀ c, p c → time c ≤ stop) (hstop : ¬ time c ≤ stop)
    (hc : ∀ c' ∈ cs, time c ≤ time c') : admitted step p s (c :: cs) = 0 := by
  have hle : ∀ c' ∈ c :: cs, time c ≤ time c' := List.forall_mem_cons.mpr ⟨le_rfl, hc⟩
  exact admitted_eq_zero s fun c' hc' hpc => hstop ((hle c' hc').trans (hp c' hpc))

/-- What every step keeps, a sequence of calls keeps. -/
lemma after_invariant {I : σ → Prop} (hstep : ∀ s c, I s → I (step s c).2) {s : σ} (hs : I s)
    (cs : List ι) : I (after step s cs) := by
  induction cs generalizing s with
  | nil => exact hs
  | cons c cs ih => exact ih (hstep s c hs)

end

/-- A level for the calls in `mine`. The states are those that `I` holds of at some time. -/
structure Level (step : σ → ι → Bool × σ) (time : ι → 𝕜) (mine : ι → Prop) (rate burst : 𝕜)
    (I : σ → 𝕜 → Prop) (level : σ → 𝕜 → 𝕜) : Prop where
  later : ∀ {s t t'}, I s t → t ≤ t' → I s t'
  kept : ∀ {s c}, I s (time c) → I (step s c).2 (time c)
  nonneg : ∀ {s t}, I s t → 0 ≤ level s t
  le_burst : ∀ {s t}, I s t → level s t ≤ burst
  refill : ∀ {s t t'}, I s t → t ≤ t' → level s t' ≤ level s t + rate * (t' - t)
  other : ∀ {s c}, I s (time c) → level (step s c).2 (time c) ≤ level s (time c)
  spend : ∀ {s c}, I s (time c) → (step s c).1 = true → mine c →
    level (step s c).2 (time c) + 1 ≤ level s (time c)

namespace Level

variable {step : σ → ι → Bool × σ} {time : ι → 𝕜} {mine : ι → Prop} {rate burst : 𝕜}
  {I : σ → 𝕜 → Prop} {level : σ → 𝕜 → 𝕜}

/-- Up to the end of a window there are no more admitted calls than the level pays for. -/
lemma admitted_le_level (L : Level step time mine rate burst I level) {p : ι → Prop}
    [DecidablePred p] {stop : 𝕜} (hp : ∀ c, p c → mine c ∧ time c ≤ stop) (hrate : 0 ≤ rate)
    {s : σ} {t : 𝕜} {cs : List ι} (hI : I s t) (ht : t ≤ stop) (hcs : ∀ c ∈ cs, t ≤ time c)
    (hsorted : cs.Pairwise fun c c' => time c ≤ time c') :
    (admitted step p s cs : 𝕜) ≤ level s t + rate * (stop - t) := by
  induction cs generalizing s t with
  | nil =>
    rw [admitted, Nat.cast_zero]
    exact add_nonneg (L.nonneg hI) (mul_nonneg hrate (sub_nonneg.mpr ht))
  | cons c cs ih =>
    rw [List.forall_mem_cons] at hcs
    rw [List.pairwise_cons] at hsorted
    by_cases hstop : time c ≤ stop
    · have hIc := L.later hI hcs.1
      have hrest := ih (L.kept hIc) hstop hsorted.1 hsorted.2
      have hrefill := L.refill hI hcs.1
      have hsplit : rate * (stop - t) = rate * (time c - t) + rate * (stop - time c) := by ring
      rw [admitted]
      split_ifs with hc
      · have := L.spend hIc hc.1 (hp c hc.2).1
        push_cast
        linarith
      · have := L.other hIc
        push_cast
        linarith
    · rw [admitted_eq_zero_of_late s (fun c hc => (hp c hc).2) hstop hsorted.1, Nat.cast_zero]
      exact add_nonneg (L.nonneg hI) (mul_nonneg hrate (sub_nonneg.mpr ht))

/-- **The bound of the bucket**, for every window of calls made in order. -/
theorem admitted_le (L : Level step time mine rate burst I level) {p : ι → Prop}
    [DecidablePred p] {start d : 𝕜}
    (hp : ∀ c, p c ↔ mine c ∧ start ≤ time c ∧ time c ≤ start + d) (hrate : 0 ≤ rate)
    (hburst : 0 ≤ burst) (hd : 0 ≤ d) {s : σ} {cs : List ι} (hI : ∀ c ∈ cs, I s (time c))
    (hsorted : cs.Pairwise fun c c' => time c ≤ time c') :
    (admitted step p s cs : 𝕜) ≤ burst + rate * d := by
  have hbound : 0 ≤ burst + rate * d := add_nonneg hburst (mul_nonneg hrate hd)
  induction cs generalizing s with
  | nil => simpa [admitted] using hbound
  | cons c cs ih =>
    obtain ⟨hIc, -⟩ := List.forall_mem_cons.mp hI
    have hc := List.pairwise_cons.mp hsorted
    by_cases hstart : start ≤ time c
    · have hmine : ∀ c, p c → mine c ∧ time c ≤ start + d :=
        fun c hc => ⟨((hp c).mp hc).1, ((hp c).mp hc).2.2⟩
      by_cases hstop : time c ≤ start + d
      · have h := L.admitted_le_level hmine hrate hIc hstop
          (List.forall_mem_cons.mpr ⟨le_rfl, hc.1⟩) hsorted
        have hlevel := L.le_burst hIc
        have hless : rate * (start + d - time c) ≤ rate * d :=
          mul_le_mul_of_nonneg_left (by linarith) hrate
        linarith
      · rw [admitted_eq_zero_of_late s (fun c hc => (hmine c hc).2) hstop hc.1, Nat.cast_zero]
        exact hbound
    · -- the window has not begun
      have hpc : ¬ p c := fun h => hstart ((hp c).mp h).2.1
      have hrest := ih (fun c' hc' => L.later (L.kept hIc) (hc.1 c' hc')) hc.2
      simpa [admitted, hpc] using hrest

end Level

end Lib
