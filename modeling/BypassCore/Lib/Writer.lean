import Mathlib.Data.List.Basic

/-!
# Writers

A Go `io.Writer` that may take only a part of the data, with an error or without one. Its `plan`
says how much the next calls of `Write` take and what error they return; after that everything is
taken.
-/

namespace Lib

open List

variable {α ε : Type*}

structure Writer (α ε : Type*) where
  plan : List (Nat × Option ε)
  out : List α

namespace Writer

/-- `Write`: how much was taken, the error, and the writer afterwards. -/
def write (w : Writer α ε) (data : List α) : Nat × Option ε × Writer α ε :=
  match w.plan with
  | [] => (data.length, none, { w with out := w.out ++ data })
  | (n, err) :: plan => (min n data.length, err, ⟨plan, w.out ++ data.take n⟩)

variable {w w' w'' : Writer α ε} {data data' rest sent d : List α} {n : Nat} {err : Option ε}

lemma write_spec (h : w.write data = (n, err, w')) :
    w'.out = w.out ++ data.take n ∧ n ≤ data.length := by
  rw [write] at h
  split at h <;> cases h
  · exact ⟨by rw [take_length], Nat.le_refl _⟩
  · exact ⟨by rw [take_eq_take_min], Nat.min_le_right _ _⟩

/-- `sent` is taken from the front of the data, by calls of `Write` that offer what comes next and
return no error. -/
inductive Sent (w : Writer α ε) (data : List α) : List α → Writer α ε → Prop
  | nothing : Sent w data [] w
  | chunk {sent d : List α} {w' w'' : Writer α ε} {n : Nat} (before : Sent w data sent w')
    (ne : d ≠ []) (next : sent ++ d <+: data) (pos : 0 < n) (h : w'.write d = (n, none, w'')) :
    Sent w data (sent ++ d.take n) w''

lemma Sent.out_eq (h : Sent w data sent w') : w'.out = w.out ++ sent := by
  induction h with
  | nothing => rw [append_nil]
  | chunk before ne next pos h ih => rw [(write_spec h).1, ih, append_assoc]

lemma Sent.mono (h : Sent w data sent w') (hd : data <+: data') : Sent w data' sent w' := by
  induction h with
  | nothing => exact .nothing
  | chunk before ne next pos h ih => exact ih.chunk ne (next.trans hd) pos h

lemma Sent.trans (h : Sent w (d ++ rest) d w') (h' : Sent w' rest sent w'') :
    Sent w (d ++ rest) (d ++ sent) w'' := by
  induction h' with
  | nothing => rwa [append_nil]
  | chunk before ne next pos h ih =>
    rw [← append_assoc]
    refine ih.chunk ne ?_ pos h
    rw [append_assoc]
    exact (prefix_append_right_inj d).mpr next

/-- The writing of the data ends with the error `e`, at the first call of `Write` that returns an
error or takes nothing, or, where `once` holds of what was sent before, less than it is offered. -/
def Fails (once : ℕ → Prop) (shortWrite : ε) (w : Writer α ε) (data : List α) (e : ε)
    (w'' : Writer α ε) : Prop :=
  ∃ sent d w' n err, Sent w data sent w' ∧ d ≠ [] ∧ sent ++ d <+: data ∧
    w'.write d = (n, err, w'') ∧ e = err.getD shortWrite ∧
    (err ≠ none ∨ n = 0 ∨ once sent.length ∧ n < d.length)

variable {once once' : ℕ → Prop} {shortWrite e : ε}

lemma Fails.mono (h : Fails once shortWrite w data e w') (hd : data <+: data') :
    Fails once shortWrite w data' e w' := by
  obtain ⟨sent, d, w₁, n, err, hsent, hne, hnext, hwrite⟩ := h
  exact ⟨sent, d, w₁, n, err, hsent.mono hd, hne, hnext.trans hd, hwrite⟩

lemma Fails.after (h : Sent w (d ++ rest) d w') (honce : ∀ k, once k → once' (d.length + k))
    (hf : Fails once shortWrite w' rest e w'') : Fails once' shortWrite w (d ++ rest) e w'' := by
  obtain ⟨sent, d', w₁, n, err, hsent, hne, hnext, hwrite, he, hbad⟩ := hf
  refine ⟨d ++ sent, d', w₁, n, err, h.trans hsent, hne, ?_, hwrite, he, ?_⟩
  · rw [append_assoc]
    exact (prefix_append_right_inj d).mpr hnext
  · rw [length_append]
    exact hbad.imp_right (Or.imp_right (And.imp_left (honce _)))

lemma Fails.out_eq (h : Fails once shortWrite w data e w') :
    ∃ part, part <+: data ∧ w'.out = w.out ++ part := by
  obtain ⟨sent, d, w₁, n, err, hsent, -, hnext, hwrite, -⟩ := h
  refine ⟨sent ++ d.take n, ?_, by rw [(write_spec hwrite).1, hsent.out_eq, append_assoc]⟩
  exact ((prefix_append_right_inj sent).mpr ( take_prefix n d)).trans hnext

/-- How the writing of some data ends. -/
inductive Wrote (once : ℕ → Prop) (shortWrite : ε) (w : Writer α ε) (data : List α) :
    Option ε → Writer α ε → Prop
  | all {w' : Writer α ε} (h : Sent w data data w') : Wrote once shortWrite w data none w'
  | failed {e : ε} {w' : Writer α ε} (h : Fails once shortWrite w data e w') :
    Wrote once shortWrite w data (some e) w'

/-- Write all of the data, as often as it takes, with an error when nothing is taken. -/
def writeFully (shortWrite : ε) (w : Writer α ε) (data : List α) : Option ε × Writer α ε :=
  if data = [] then (none, w)
  else
    match w.write data with
    | (_, some e, w') => (some e, w')
    | (0, none, w') => (some shortWrite, w')
    | (n + 1, none, w') => writeFully shortWrite w' (data.drop (n + 1))
termination_by data.length
decreasing_by
  rw [List.length_drop]
  have := List.length_pos_iff.mpr ‹data ≠ []›
  omega

lemma writeFully_spec (once : ℕ → Prop) (shortWrite : ε) (w : Writer α ε) (data : List α) :
    Wrote once shortWrite w data (w.writeFully shortWrite data).1
      (w.writeFully shortWrite data).2 := by
  fun_induction writeFully shortWrite w data generalizing once with
  | case1 w => exact .all .nothing
  | case2 w data hne n e w' h =>
    exact .failed ⟨[], data, w, n, some e, .nothing, hne, prefix_rfl, h, rfl, .inl nofun⟩
  | case3 w data hne w' h =>
    exact .failed ⟨[], data, w, 0, none, .nothing, hne, prefix_rfl, h, rfl, .inr (.inl rfl)⟩
  | case4 w data hne n w' h ih =>
    have hdata := List.take_append_drop (n + 1) data
    have hfirst : Sent w (data.take (n + 1) ++ data.drop (n + 1)) (data.take (n + 1)) w' := by
      rw [hdata]
      exact Sent.nothing.chunk hne prefix_rfl n.succ_pos h
    have hrest := ih fun k => once ((data.take (n + 1)).length + k)
    revert hrest
    generalize w'.writeFully shortWrite (data.drop (n + 1)) = r
    obtain ⟨e, w''⟩ := r
    intro hrest
    rw [← hdata]
    cases hrest with
    | all hsent => exact .all (hfirst.trans hsent)
    | failed hfails => exact .failed (.after hfirst (fun _ => id) hfails)

end Writer

end Lib
