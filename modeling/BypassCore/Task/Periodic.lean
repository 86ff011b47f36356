import BypassCore.Lib.Runs

/-!
# Periodic tasks

`Periodic` of `common/task/periodic.go`. Calls of `Start` and `Close`, timers and executions are
interleaved in any order; each critical section is one step. An execution takes the lock before it
begins, to see whether the task is closed, and after it has ended, to arm the next timer.
-/

namespace BypassCore.Task

open Lib

structure Periodic where
  running : Bool := false
  /-- Whether the timer in the field `timer` is still to fire. -/
  armed : Bool := false
  /-- The timers still to fire that the field does not hold any more. -/
  others : ℕ := 0
  /-- The calls of `checkedExecute` that are still to take the lock. -/
  fired : ℕ := 0
  executing : ℕ := 0
  /-- The executions that have begun so far. -/
  begun : ℕ := 0

namespace Periodic

/-- The timers and executions from which the task goes on as long as it is running. -/
def chains (t : Periodic) : ℕ := t.armed.toNat + t.others + t.fired + t.executing

def afterFunc (t : Periodic) : Periodic :=
  { t with armed := true, others := t.others + t.armed.toNat }

inductive Event where
  | start
  | close
  | fire
  | fireOther
  /-- `hasClosed` at the beginning of `checkedExecute`. -/
  | check
  | finish
deriving DecidableEq

def step (t : Periodic) : Event → Option Periodic
  | .start => if t.running then some t else some { t with running := true }.afterFunc
  | .close => some { t with running := false, armed := false }
  | .fire => if t.armed then some { t with armed := false, fired := t.fired + 1 } else none
  | .fireOther =>
    if 0 < t.others then some { t with others := t.others - 1, fired := t.fired + 1 } else none
  | .check =>
    if 0 < t.fired then
      let t := { t with fired := t.fired - 1 }
      if t.running then some { t with executing := t.executing + 1, begun := t.begun + 1 }
      else some t
    else none
  | .finish =>
    if 0 < t.executing then
      let t := { t with executing := t.executing - 1 }
      if t.running then some t.afterFunc else some t
    else none

/-- A `Start` that takes effect finds no timer and no execution of the time before. -/
def Alone (t : Periodic) (e : Event) : Prop := e = .start → t.running = false → t.chains = 0

instance (t : Periodic) (e : Event) : Decidable (t.Alone e) := inferInstanceAs (Decidable (_ → _))

variable {t t' : Periodic} {e : Event} {es : List Event}

lemma armed_step (h : t.armed → t.running) (hs : t.step e = some t') : t'.armed → t'.running := by
  cases e with dsimp only [step] at hs
  | start =>
    split_ifs at hs <;> cases hs
    · exact h
    · exact fun _ => rfl
  | close =>
    cases hs
    exact nofun
  | fire =>
    split_ifs at hs
    cases hs
    exact nofun
  | fireOther =>
    split_ifs at hs
    cases hs
    exact h
  | check =>
    split_ifs at hs <;> cases hs <;> exact h
  | finish =>
    split_ifs at hs with _ hrun <;> cases hs
    · exact fun _ => hrun
    · exact h

/-- Only a `Start` that takes effect adds to the chains of a running task. -/
lemma chains_step (ha : t.armed → t.running) (h : t.running → t.chains ≤ 1)
    (hs : t.step e = some t') : (t'.running → t'.chains ≤ 1) ↔ t.Alone e := by
  cases e with
  | start =>
    rw [step] at hs
    split_ifs at hs with hrun <;> cases hs
    · exact iff_of_true h fun _ hstopped => absurd (hrun.symm.trans hstopped) nofun
    · have harmed : t.armed = false := Bool.eq_false_iff.mpr fun harmed => hrun (ha harmed)
      have hchains : ({ t with running := true }.afterFunc).chains = t.chains + 1 := by
        simp only [chains, afterFunc, Bool.toNat_true]
        omega
      rw [hchains]
      constructor
      · intro hle _ _
        exact Nat.le_zero.mp (Nat.le_of_succ_le_succ (hle rfl))
      · intro halone _
        have hzero := halone rfl (Bool.eq_false_iff.mpr hrun)
        omega
  | close =>
    cases hs
    exact iff_of_true nofun nofun
  | fire =>
    rw [step] at hs
    split_ifs at hs with harmed
    cases hs
    refine iff_of_true (fun hrun => ?_) nofun
    have hle := h hrun
    simp only [chains, harmed, Bool.toNat_true, Bool.toNat_false] at hle ⊢
    omega
  | fireOther =>
    rw [step] at hs
    split_ifs at hs
    cases hs
    refine iff_of_true (fun hrun => ?_) nofun
    have hle := h hrun
    simp only [chains] at hle ⊢
    omega
  | check =>
    dsimp only [step] at hs
    split_ifs at hs with hfired hrun <;> cases hs
    · refine iff_of_true (fun _ => ?_) nofun
      have hle := h hrun
      simp only [chains] at hle ⊢
      omega
    · exact iff_of_true (fun hrun' => absurd hrun' hrun) nofun
  | finish =>
    dsimp only [step] at hs
    split_ifs at hs with hexecuting hrun <;> cases hs
    · refine iff_of_true (fun _ => ?_) nofun
      have hle := h hrun
      simp only [chains, afterFunc, Bool.toNat_true] at hle ⊢
      omega
    · exact iff_of_true (fun hrun' => absurd hrun' hrun) nofun

lemma begun_step (h : t.running = false) (he : e ≠ .start) (hs : t.step e = some t') :
    t'.running = false ∧ t'.begun = t.begun := by
  cases e with dsimp only [step] at hs
  | start => exact absurd rfl he
  | close =>
    cases hs
    exact ⟨rfl, rfl⟩
  | fire | fireOther =>
    split_ifs at hs
    cases hs
    exact ⟨h, rfl⟩
  | check | finish =>
    split_ifs at hs with _ hrun <;> cases hs
    · exact absurd (hrun.symm.trans h) nofun
    · exact ⟨h, rfl⟩

/-- A run has at most one chain while the task is running exactly if each `Start` that takes effect
is made when nothing of the time before is left. After a `Close` no execution begins before the next
`Start`. -/
theorem one_chain_iff (h : run step {} es = some t) :
    ((∀ fs gs, es = fs ++ gs → ∀ u, run step {} fs = some u → u.running → u.chains ≤ 1) ↔
        Guarded step Alone {} es) ∧
      ∀ fs v, .start ∉ fs → run step t (.close :: fs) = some v → v.begun = t.begun := by
  refine ⟨?_, ?_⟩
  · exact guarded_iff (I := fun t => t.running → t.chains ≤ 1) (J := fun _ t => t.armed → t.running)
      (fun _ _ _ ha hs => armed_step ha hs) (fun _ _ _ ha hI hs => chains_step ha hI hs)
      nofun nofun h
  · intro fs v hfs hr
    obtain ⟨u, hu, hr⟩ := run_cons.mp hr
    cases hu
    exact (run_invariant_of (I := fun v => v.running = false ∧ v.begun = t.begun)
      (P := (· ≠ .start)) (fun _ _ _ h he hs => h.2 ▸ begun_step h.1 he hs) ⟨rfl, rfl⟩
      (fun e he heq => hfs (by rwa [← heq])) hr).2

/-- The task is closed and started again between two executions. -/
def restarted : List Event := [.start, .fire, .check, .finish, .close, .start, .fire, .check]

theorem one_chain_iff_restarted : ∃ t, run step {} restarted = some t ∧ t.executing = 1 ∧
    ∀ fs gs, restarted = fs ++ gs → ∀ u, run step {} fs = some u → u.running → u.chains ≤ 1 :=
  ⟨_, rfl, rfl, (one_chain_iff (show run step {} restarted = _ from rfl)).1.mpr (by decide)⟩

/-- A restart during an execution leaves two chains. -/
theorem two_chains : ∃ t, run step {} [.start, .fire, .check, .close, .start, .finish] = some t ∧
    t.running = true ∧ t.chains = 2 :=
  ⟨_, rfl, rfl, rfl⟩

end Periodic

end BypassCore.Task
