import BypassCore.Lib.Runs
import Mathlib.Order.Nat

/-!
# Deadlines of an HTTP/2 tunnel

`proxy/httpconnect/httpconnect.go`: a deadline is a timer whose callback closes one direction of the
stream. The callback compares the generation of its deadline under the lock, but it closes the
stream after it has given the lock back, so a call that replaces the deadline in between comes too
late. A write deadline closes the request body with the deadline error, which HTTP/2 may hand on to
`Read`.
-/

namespace BypassCore.Proxy.HTTPConnect

open Lib Option List

/-- One direction of `http2TunnelConn`. A callback is known by the generation of its deadline, a
64-bit number. -/
structure Direction where
  generation : ℕ := 0
  expired : Bool := false
  timer : Option ℕ := none
  started : List ℕ := []
  /-- The callbacks that have given the lock back and are about to close the stream. -/
  closing : List ℕ := []
  latest : ℕ := 0
  expiredBy : ℕ := 0
  /-- The callbacks that have closed the stream after their deadline was replaced. -/
  late : List ℕ := []

/-- A deadline as `Set…Deadline` finds it. -/
inductive Deadline where
  | zero
  | past
  | future

inductive Section where
  | set (deadline : Deadline)
  | fire
  | check (i : ℕ)
  | closeStream (i : ℕ)

namespace Direction

/-- `SetReadDeadline` and `SetWriteDeadline`, which hold the lock throughout. -/
def setDeadline (c : Direction) (deadline : Deadline) : Direction :=
  let generation := (c.generation + 1) % 2 ^ 64
  let c := { c with timer := none, expired := false, generation, latest := generation }
  match deadline with
  | .zero => c
  | .past => { c with started := generation :: c.started }
  | .future => { c with timer := some generation }

def expire (c : Direction) (generation : ℕ) : Direction :=
  if c.generation ≠ generation then c
  else { c with
    expired := true
    expiredBy := generation
    closing := generation :: c.closing }

def step (c : Direction) : Section → Option Direction
  | .set deadline => some (c.setDeadline deadline)
  | .fire => c.timer.map fun g => { c with timer := none, started := g :: c.started }
  | .check i => c.started[i]?.map fun g => expire { c with started := c.started.eraseIdx i } g
  | .closeStream i => c.closing[i]?.map fun g =>
    { c with
      closing := c.closing.eraseIdx i
      late := if g < c.latest then g :: c.late else c.late }

def retire (c : Direction) : Direction :=
  { c with generation := (c.generation + 1) % 2 ^ 64, timer := none }

/-- The callback that closes the stream in a section. -/
def closedBy (c : Direction) : Section → Option ℕ
  | .closeStream i => c.closing[i]?
  | _ => none

/-- Callbacks are of deadlines so far, and the last deadline is the one that has expired. -/
structure Sound (c : Direction) : Prop where
  latest_le : c.latest ≤ c.generation
  timer_le : ∀ g ∈ c.timer, g ≤ c.latest
  started_le : ∀ g ∈ c.started, g ≤ c.latest
  closing_le : ∀ g ∈ c.closing, g ≤ c.latest
  expiredBy_eq : c.expired = true → c.expiredBy = c.latest

/-- No callback has closed the stream after its deadline was replaced, and none is about to. -/
def Unharmed (c : Direction) : Prop :=
  c.late = [] ∧ ∀ g ∈ c.closing, c.latest ≤ g

/-- A deadline is set while no callback is between its check and its closing of the stream. -/
def Settled (c : Direction) : Section → Prop
  | .set _ => c.closing = []
  | _ => True

variable {c c' : Direction} {e : Section}

section

variable (hc : c.Sound)
include hc

lemma Sound.retire (hmax : c.generation + 1 < 2 ^ 64) : c.retire.Sound where
  latest_le := by
    have hle := hc.latest_le
    simp only [Direction.retire]
    omega
  timer_le := by simp [Direction.retire]
  started_le := hc.started_le
  closing_le := hc.closing_le
  expiredBy_eq := hc.expiredBy_eq

lemma Sound.setDeadline (hmax : c.generation + 1 < 2 ^ 64) (deadline : Deadline) :
    (c.setDeadline deadline).Sound := by
  have hlt : c.latest ≤ c.generation + 1 := hc.latest_le.trans (Nat.le_succ _)
  have hstarted : ∀ g ∈ c.started, g ≤ c.generation + 1 :=
    fun g hg => (hc.started_le g hg).trans hlt
  have hclosing : ∀ g ∈ c.closing, g ≤ c.generation + 1 :=
    fun g hg => (hc.closing_le g hg).trans hlt
  have hmod := Nat.mod_eq_of_lt hmax
  cases deadline <;> constructor <;>
    simp +contextual [Direction.setDeadline, hmod, hstarted, hclosing, -Nat.reducePow]

/-- Only the callback of the last deadline passes the check: `Close` gives its generation to no
callback. -/
lemma Sound.generation_eq {i g : ℕ} (hi : c.started[i]? = some g) (hg : c.generation = g) :
    g = c.latest :=
  le_antisymm (hc.started_le g (mem_of_getElem? hi)) (hg ▸ hc.latest_le)

lemma Sound.step (hmax : c.generation + 1 < 2 ^ 64) (h : c.step e = some c') : c'.Sound := by
  cases e with
  | set deadline =>
    cases h
    exact hc.setDeadline hmax deadline
  | fire =>
    obtain ⟨g, hg, rfl⟩ := map_eq_some_iff.mp h
    exact { hc with
      timer_le := by simp
      started_le := forall_mem_cons.mpr ⟨hc.timer_le g hg, hc.started_le⟩ }
  | check i =>
    obtain ⟨g, hg, rfl⟩ := map_eq_some_iff.mp h
    have hstarted : ∀ g ∈ c.started.eraseIdx i, g ≤ c.latest :=
      fun g hg => hc.started_le g (mem_of_mem_eraseIdx hg)
    unfold expire
    split_ifs with hgen
    · exact { hc with started_le := hstarted }
    · have heq := hc.generation_eq hg (not_not.mp hgen)
      exact { hc with
        started_le := hstarted
        closing_le := forall_mem_cons.mpr ⟨heq.le, hc.closing_le⟩
        expiredBy_eq := fun _ => heq }
  | closeStream i =>
    obtain ⟨g, -, rfl⟩ := map_eq_some_iff.mp h
    exact { hc with closing_le := fun g hg => hc.closing_le g (mem_of_mem_eraseIdx hg) }

/-- A callback that has passed its check when a deadline is set will close the stream too late. -/
lemma unharmed_setDeadline (hmax : c.generation + 1 < 2 ^ 64) (hlate : c.late = [])
    (deadline : Deadline) : (c.setDeadline deadline).Unharmed ↔ c.closing = [] := by
  have hiff : (c.late = [] ∧ ∀ g ∈ c.closing, (c.generation + 1) % 2 ^ 64 ≤ g) ↔
      c.closing = [] := by
    constructor
    · rintro ⟨-, h⟩
      refine eq_nil_iff_forall_not_mem.mpr fun g hg => ?_
      have hle := (hc.closing_le g hg).trans hc.latest_le
      exact absurd (h g hg) (by omega)
    · intro h
      exact ⟨hlate, by simp [h]⟩
  cases deadline <;> exact hiff

lemma unharmed_step (hmax : c.generation + 1 < 2 ^ 64) (hu : c.Unharmed)
    (h : c.step e = some c') : c'.Unharmed ↔ c.Settled e := by
  cases e with
  | set deadline =>
    cases h
    exact unharmed_setDeadline hc hmax hu.1 deadline
  | fire =>
    obtain ⟨g, -, rfl⟩ := map_eq_some_iff.mp h
    exact iff_of_true hu trivial
  | check i =>
    obtain ⟨g, hg, rfl⟩ := map_eq_some_iff.mp h
    refine iff_of_true ?_ trivial
    unfold expire
    split_ifs with hgen
    · exact hu
    · exact ⟨hu.1, forall_mem_cons.mpr ⟨(hc.generation_eq hg (not_not.mp hgen)).ge, hu.2⟩⟩
  | closeStream i =>
    obtain ⟨g, hg, rfl⟩ := map_eq_some_iff.mp h
    refine iff_of_true ⟨?_, fun g hg => hu.2 g (mem_of_mem_eraseIdx hg)⟩ trivial
    rw [if_neg (not_lt.mpr (hu.2 g (mem_of_getElem? hg)))]
    exact hu.1

end

lemma generation_step_le (h : c.step e = some c') : c'.generation ≤ c.generation + 1 := by
  cases e with
  | set deadline =>
    cases h
    cases deadline <;> exact Nat.mod_le _ _
  | fire | closeStream i =>
    obtain ⟨g, -, rfl⟩ := map_eq_some_iff.mp h
    exact Nat.le_succ _
  | check i =>
    obtain ⟨g, -, rfl⟩ := map_eq_some_iff.mp h
    unfold expire
    split_ifs <;> exact Nat.le_succ _

end Direction

/-- An error of a stream: `os.ErrDeadlineExceeded`, from the callback of a write deadline, or
another one. -/
inductive StreamErr where
  | deadline (generation : ℕ)
  | other
deriving DecidableEq

/-- `http2TunnelConn`: the direction of `Read`, and that of `Write`, and the error with which the
request body was closed first. -/
structure Tunnel where
  directions : Bool → Direction := fun _ => {}
  closed : Bool := false
  pipe : Option StreamErr := none

inductive Event where
  | on (d : Bool) (e : Section)
  | close
  /-- `CloseWrite`, and `Close` after its critical section. -/
  | closeWriter

namespace Tunnel

/-- A step of a call or of a callback. `Close` takes effect once. -/
def step (c : Tunnel) : Event → Option Tunnel
  | .on d e => ((c.directions d).step e).map fun c' =>
    { c with
      directions := Function.update c.directions d c'
      pipe := if d then c.pipe else c.pipe.or (((c.directions d).closedBy e).map .deadline) }
  | .close => some <|
    if c.closed then c
    else { c with directions := fun d => (c.directions d).retire, closed := true }
  | .closeWriter => some { c with pipe := c.pipe.or (some .other) }

/-- The errors that the streams of `Read` and of `Write` may return. The body of the response may
fail with the error of the request body; a closed pipe has its own error for `Write`. -/
def Fails (c : Tunnel) (d : Bool) : StreamErr → Prop
  | .deadline g => d = true ∧ c.pipe = some (.deadline g)
  | .other => True

/-- `Read` and `Write` with an error of the stream: whose deadline they report, if any. -/
def reports (c : Tunnel) (d : Bool) (err : StreamErr) : Option (Bool × ℕ) :=
  if (c.directions d).expired then some (d, (c.directions d).expiredBy)
  else
    match err with
    | .deadline g => some (false, g)
    | .other => none

/-- No callback has harmed its direction, and no call reports a deadline whose callback has. -/
def Unharmed (c : Tunnel) : Prop :=
  (∀ d, (c.directions d).Unharmed) ∧ ∀ d err d' g, c.Fails d err → c.reports d err = some (d', g) →
    g ∉ (c.directions d').late

def Settled (c : Tunnel) : Event → Prop
  | .on d e => (c.directions d).Settled e
  | .close | .closeWriter => True

/-- What holds while `n` more steps cannot exhaust the generations. -/
def Sound (n : ℕ) (c : Tunnel) : Prop :=
  ∀ d, (c.directions d).Sound ∧ (c.directions d).generation + n < 2 ^ 64

variable {c c' : Tunnel} {e : Event} {n : ℕ}

lemma directions_step (h : c.step e = some c') (d : Bool) :
    c'.directions d = c.directions d ∨ (∃ e, (c.directions d).step e = some (c'.directions d)) ∨
      c'.directions d = (c.directions d).retire := by
  cases e with
  | on d' e =>
    obtain ⟨c₁, hc₁, rfl⟩ := map_eq_some_iff.mp h
    rcases eq_or_ne d d' with rfl | hne
    · exact .inr (.inl ⟨e, by simpa using hc₁⟩)
    · exact .inl (by simp [hne])
  | close =>
    cases h
    split_ifs
    · exact .inl rfl
    · exact .inr (.inr rfl)
  | closeWriter =>
    cases h
    exact .inl rfl

lemma Sound.step (hc : c.Sound (n + 1)) (h : c.step e = some c') : c'.Sound n := by
  intro d
  obtain ⟨hd, hmax⟩ := hc d
  rcases directions_step h d with heq | ⟨e, he⟩ | heq
  · rw [heq]
    exact ⟨hd, by omega⟩
  · have hle := Direction.generation_step_le he
    exact ⟨hd.step (by omega) he, by omega⟩
  · have hle : (c.directions d).retire.generation ≤ (c.directions d).generation + 1 :=
      Nat.mod_le _ _
    rw [heq]
    exact ⟨hd.retire (by omega), by omega⟩

/-- Where no callback has harmed its direction, there is none to report. -/
lemma unharmed_iff : c.Unharmed ↔ ∀ d, (c.directions d).Unharmed := by
  refine and_iff_left_of_imp fun hu d err d' g _ _ => ?_
  rw [(hu d').1]
  exact not_mem_nil

lemma unharmed_step (hc : c.Sound (n + 1)) (hu : c.Unharmed) (h : c.step e = some c') :
    c'.Unharmed ↔ c.Settled e := by
  rw [unharmed_iff] at hu ⊢
  cases e with
  | on d e =>
    obtain ⟨c₁, hc₁, rfl⟩ := map_eq_some_iff.mp h
    obtain ⟨hd, hmax⟩ := hc d
    refine Iff.trans ?_ (Direction.unharmed_step hd (by omega) (hu d) hc₁)
    constructor
    · intro hu'
      simpa using hu' d
    · intro hu' d'
      rcases eq_or_ne d' d with rfl | hd
      · simpa using hu'
      · simpa [hd] using hu d'
  | close =>
    cases h
    refine iff_of_true (fun d => ?_) trivial
    split_ifs <;> exact hu d
  | closeWriter =>
    cases h
    exact iff_of_true hu trivial

/-- In every interleaving `Read` and `Write` report the last deadline of their direction, or `Read`
reports the write deadline that has closed the request body. No callback closes its direction after
its deadline was replaced, and no call reports such a deadline, exactly while no deadline is set
between the check of a callback and its closing of the stream. -/
theorem superseded_deadline_iff (es : List Event) (c : Tunnel) (hlen : es.length < 2 ^ 64)
    (hr : run step {} es = some c) :
    (∀ d err d' g, c.Fails d err → c.reports d err = some (d', g) →
        d' = d ∧ g = (c.directions d).latest ∨
          d = true ∧ d' = false ∧ c.pipe = some (.deadline g)) ∧
      ((∀ fs gs, es = fs ++ gs → ∀ u, run step {} fs = some u → u.Unharmed) ↔
        Guarded step Settled {} es) := by
  have hinit : ({} : Tunnel).Sound es.length :=
    fun d => ⟨by constructor <;> simp, by simpa using hlen⟩
  constructor
  · intro d err d' g hfails hreports
    obtain ⟨hc, -⟩ := run_induction (J := fun es => Sound es.length)
      (fun _ _ _ hs he => hs.step he) hinit hr d
    unfold reports at hreports
    split_ifs at hreports with hexpired
    · cases hreports
      exact .inl ⟨rfl, hc.expiredBy_eq hexpired⟩
    · cases err with
      | deadline g' =>
        cases hreports
        exact .inr ⟨hfails.1, rfl, hfails.2⟩
      | other => cases hreports
  · refine guarded_iff (J := fun es => Sound es.length) (fun s e s' hs he => hs.step he)
      (fun s e s' hs hu he => unharmed_step hs hu he) hinit ?_ hr
    exact unharmed_iff.mpr fun d => ⟨rfl, by simp⟩

/-- A read deadline expires, and the next one is set after the stream is closed. -/
def expiring : List Event :=
  [.on true (.set .future), .on true .fire, .on true (.check 0), .on true (.closeStream 0),
    .on true (.set .zero)]

theorem superseded_deadline_expiring : ∃ c, run step {} expiring = some c ∧ c.Unharmed :=
  ⟨_, rfl, (superseded_deadline_iff expiring _ (by decide) rfl).2.mpr
    (by simp [expiring, Guarded, step, Direction.step, Settled, Direction.Settled,
      Direction.setDeadline, Direction.expire]) _ [] (append_nil _).symm _ rfl⟩

/-- A deadline is removed while its callback is about to close the stream. -/
def overtaken (d : Bool) : List Event :=
  [.on d (.set .future), .on d .fire, .on d (.check 0), .on d (.set .zero), .on d (.closeStream 0)]

/-- The read direction is closed all the same; and if it was a write deadline, `Read` reports it. -/
theorem superseded_deadline_overtaken :
    (∃ c, run step {} (overtaken true) = some c ∧ (c.directions true).late = [1]) ∧
      ∃ c, run step {} (overtaken false) = some c ∧ (c.directions false).late = [1] ∧
        c.Fails true (.deadline 1) ∧ c.reports true (.deadline 1) = some (false, 1) :=
  ⟨⟨_, rfl, rfl⟩, _, rfl, rfl, ⟨rfl, rfl⟩, rfl⟩

end Tunnel

end BypassCore.Proxy.HTTPConnect
