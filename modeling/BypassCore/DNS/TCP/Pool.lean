import BypassCore.DNS.TCP.Basic
import BypassCore.Lib.Runs
import BypassCore.Lib.Custody

/-!
# The pool of connections

`app/dns/nameserver_tcp.go`, between the critical sections of `poolMu`: any number of queries and of
calls of `closeIdleConnections` and `Close` run concurrently. Connections are numbered in the order
in which they are dialed.
-/

namespace BypassCore.DNS.TCP

open Lib Function Finset

inductive Phase where
  | outside
  /-- About to enter `acquireTCP`. -/
  | acquiring (attempt : ℕ)
  | dialing (attempt : ℕ)
  /-- The connection is dialed, and the lock is to be taken again. -/
  | dialed (conn attempt : ℕ)
  /-- `fired` says whether the cancellation callback has been started. -/
  | exchanging (conn : ℕ) (reused fired : Bool) (attempt : ℕ)
  /-- About to enter `releaseTCP`; `retry` is the attempt after that. -/
  | releasing (conn : ℕ) (healthy : Bool) (retry : Option ℕ)

namespace Phase

def conn : Phase → Option ℕ
  | .dialed conn _ | .exchanging conn _ _ _ | .releasing conn _ _ => some conn
  | _ => none

def handed : Phase → Option ℕ
  | .exchanging conn _ _ _ | .releasing conn _ _ => some conn
  | _ => none

/-- The connection of a query, if it must not be made idle. -/
def spoiled : Phase → Option ℕ
  | .exchanging conn _ true _ | .releasing conn false _ => some conn
  | _ => none

end Phase

inductive Closing where
  | outside
  /-- The active connections that are still to be closed. -/
  | active (rest : List ℕ)
  /-- `won` says whether this call has closed the server, and not one before it. -/
  | returned (won : Bool)

structure Pool where
  idleConns : List ℕ
  activeConns : Finset ℕ
  closed : Bool
  queries : ℕ → Phase
  closings : ℕ → Closing
  dialed : ℕ
  /-- The connections that have been closed by the pool. -/
  shut : Finset ℕ
  /-- The connections on which an exchange failed or a cancellation callback was started. -/
  spoiled : Finset ℕ
  /-- The connections that were active when `Close` looked. -/
  snapshot : Finset ℕ

namespace Pool

def new : Pool where
  idleConns := []
  activeConns := ∅
  closed := false
  queries _ := .outside
  closings _ := .outside
  dialed := 0
  shut := ∅
  spoiled := ∅
  snapshot := ∅

variable (s : Pool)

def goto (i : ℕ) (phase : Phase) : Pool :=
  { s with queries := update s.queries i phase }

def acquireTCP (i attempt : ℕ) : Pool :=
  if s.closed then s.goto i .outside
  else
    match s.idleConns with
    | conn :: idle =>
      { s with idleConns := idle, activeConns := insert conn s.activeConns }.goto i
        (.exchanging conn true false attempt)
    | [] => s.goto i (.dialing attempt)

def register (i conn attempt : ℕ) : Pool :=
  if s.closed then { s with shut := insert conn s.shut }.goto i .outside
  else
    { s with activeConns := insert conn s.activeConns }.goto i
      (.exchanging conn false false attempt)

def releaseTCP (conn : ℕ) (healthy : Bool) : Pool :=
  let s := { s with activeConns := s.activeConns.erase conn }
  if !healthy || s.closed then { s with shut := insert conn s.shut }
  else if s.idleConns.length < defaultDNSMaxIdleTCPConnections then
    { s with idleConns := s.idleConns ++ [conn] }
  else { s with shut := insert conn s.shut }

def closeIdleConnections : Pool :=
  { s with idleConns := [], shut := s.shut ∪ s.idleConns.toFinset }

/-! ### Steps -/

def retry (reused ctxErr : Bool) (attempt : ℕ) : Option ℕ :=
  if !reused || ctxErr then none else if attempt + 1 < 2 then some (attempt + 1) else none

/-- A step of a query or of a call of `Close`, or a call of `closeIdleConnections`. -/
inductive Event where
  | query (i : ℕ)
  | acquire (i : ℕ)
  | dial (i : ℕ) (ok : Bool)
  | register (i : ℕ)
  | cancel (i : ℕ)
  /-- The exchange has ended and `stopCancellation` is called. -/
  | exchange (i : ℕ) (ok ctxErr : Bool)
  | release (i : ℕ)
  | closeIdle
  /-- `Close` is called; it goes through the active connections in some order. -/
  | close (k : ℕ) (order : List ℕ)
  /-- `Close` closes an active connection, or at last the idle ones. -/
  | closeNext (k : ℕ)

/-- `Close` up to the end of its critical section. -/
def close (k : ℕ) (order : List ℕ) : Option Pool :=
  if s.closed then some { s with closings := update s.closings k (.returned false) }
  else if order.toFinset = s.activeConns then
    some
      { s with
        closed := true
        snapshot := s.activeConns
        closings := update s.closings k (.active order) }
  else none

def closeNext (k : ℕ) : List ℕ → Pool
  | conn :: rest =>
    { s with
      shut := insert conn s.shut
      closings := update s.closings k (.active rest) }
  | [] =>
    { s.closeIdleConnections with
      closings := update s.closings k (.returned true) }

def step : Event → Option Pool
  | .query i =>
    match s.queries i with
    | .outside => some (s.goto i (.acquiring 0))
    | _ => none
  | .acquire i =>
    match s.queries i with
    | .acquiring attempt => some (s.acquireTCP i attempt)
    | _ => none
  | .dial i ok =>
    match s.queries i with
    | .dialing attempt =>
      if ok then some ({ s with dialed := s.dialed + 1 }.goto i (.dialed s.dialed attempt))
      else some (s.goto i .outside)
    | _ => none
  | .register i =>
    match s.queries i with
    | .dialed conn attempt => some (s.register i conn attempt)
    | _ => none
  | .cancel i =>
    match s.queries i with
    | .exchanging conn reused false attempt =>
      some ({ s with spoiled := insert conn s.spoiled }.goto i
        (.exchanging conn reused true attempt))
    | _ => none
  | .exchange i ok ctxErr =>
    match s.queries i with
    | .exchanging conn reused fired attempt =>
      if fired then some (s.goto i (.releasing conn false none))
      else if ok then some (s.goto i (.releasing conn true none))
      else
        some ({ s with spoiled := insert conn s.spoiled }.goto i
          (.releasing conn false (retry reused ctxErr attempt)))
    | _ => none
  | .release i =>
    match s.queries i with
    | .releasing conn healthy again =>
      some ((s.releaseTCP conn healthy).goto i (again.elim .outside .acquiring))
    | _ => none
  | .closeIdle => some s.closeIdleConnections
  | .close k order =>
    match s.closings k with
    | .outside => s.close k order
    | _ => none
  | .closeNext k =>
    match s.closings k with
    | .active rest => some (s.closeNext k rest)
    | _ => none

end Pool

/-!
## The places of connections

Every step of the pool moves at most one connection, or closes the idle ones: a connection is dialed
by a query, handed out, made idle, or closed. What the fields of the pool say follows from the
places, which every run keeps.
-/

open List

lemma Phase.conn_of_handed {p : Phase} {conn : ℕ} (h : p.handed = some conn) :
    p.conn = some conn := by
  cases p <;> first | exact h | cases h

lemma Phase.handed_of_spoiled {p : Phase} {conn : ℕ} (h : p.spoiled = some conn) :
    p.handed = some conn := by
  rcases p with _ | _ | _ | _ | ⟨_, _, _ | _, _⟩ | ⟨_, _ | _, _⟩ <;> first | exact h | cases h

lemma Phase.handed_of_conn_none {p : Phase} (h : p.conn = none) : p.handed = none := by
  cases p <;> first | rfl | cases h

lemma Phase.spoiled_of_conn_none {p : Phase} (h : p.conn = none) : p.spoiled = none := by
  cases p <;> first | rfl | cases h

namespace Pool

variable {s : Pool} {i conn : ℕ} {p : Phase} {place : ℕ → Place ℕ}

/-- What each query has, by one of the functions of its phase. -/
lemma comp_goto {α : Type} (f : Phase → α) (s : Pool) (i : ℕ) (p : Phase) :
    f ∘ (s.goto i p).queries = update (f ∘ s.queries) i (f p) :=
  comp_update f s.queries i p

/-- The places of the connections, and what follows for the fields of the pool. -/
structure Inv (s : Pool) (place : ℕ → Place ℕ) : Prop where
  custody : Custody s.idleConns (Phase.conn ∘ s.queries) s.dialed place
  idle_length : s.idleConns.length ≤ defaultDNSMaxIdleTCPConnections
  mem_active : ∀ conn, conn ∈ s.activeConns ↔ ∃ i, (Phase.handed ∘ s.queries) i = some conn
  gone_shut : ∀ conn, place conn = .gone → conn ∈ s.shut
  shut : ∀ conn ∈ s.shut, place conn = .gone ∨ conn ∈ s.snapshot
  snapshot : ∀ conn ∈ s.snapshot,
    s.closed = true ∧ (place conn = .gone ∨ conn ∈ s.activeConns)
  spoiled : ∀ conn ∈ s.spoiled,
    place conn = .gone ∨ ∃ i, (Phase.spoiled ∘ s.queries) i = some conn
  closing : ∀ k rest, s.closings k = .active rest →
    s.closed = true ∧ ∀ conn ∈ rest, conn ∈ s.snapshot
  returned : ∀ k, s.closings k = .returned true → s.closed = true ∧ s.idleConns = []

lemma inv_new : Inv new fun _ => .unmade where
  custody := ⟨nodup_nil, by simp [new], by simp [new, Phase.conn], by simp [new]⟩
  idle_length := Nat.zero_le _
  mem_active := by simp [new, Phase.handed]
  gone_shut _ h := nomatch h
  shut := by simp [new]
  snapshot := by simp [new]
  spoiled := by simp [new]
  closing _ _ h := nomatch h
  returned _ h := nomatch h

namespace Inv

/-- The only query that has a connection is the one that holds it. -/
lemma eq_of_handed (h : Inv s place) (hi : (s.queries i).conn = some conn) (j : ℕ)
    (hj : (Phase.handed ∘ s.queries) j = some conn) : j = i :=
  h.custody.eq_of_holds (Phase.conn_of_handed hj) hi

lemma conn_eq_of_handed (hi : (s.queries i).conn = some conn) (c : ℕ)
    (hc : (Phase.handed ∘ s.queries) i = some c) : c = conn := by
  have hconn := Phase.conn_of_handed hc
  rw [hi] at hconn
  cases hconn
  rfl

/-! ### Steps of a query -/

/-- A query goes on with the connection that it has, or without one. -/
lemma goto (h : Inv s place) {spoiled : Finset ℕ} (hconn : p.conn = (s.queries i).conn)
    (hhanded : p.handed = (s.queries i).handed)
    (hkept : ∀ c, (s.queries i).spoiled = some c → p.spoiled = some c)
    (hspoiled : ∀ c ∈ spoiled, c ∈ s.spoiled ∨ p.spoiled = some c) :
    Inv ({ s with spoiled := spoiled }.goto i p) place := by
  have hsame {α : Type} {f : Phase → α} (hf : f p = f (s.queries i)) :
      update (f ∘ s.queries) i (f p) = f ∘ s.queries := by
    rw [hf]
    exact update_eq_self i _
  refine { h with custody := ?_, mem_active := ?_, spoiled := ?_ }
  · rw [comp_goto, hsame hconn]
    exact h.custody
  · rw [comp_goto, hsame hhanded]
    exact h.mem_active
  · intro c hc
    rw [comp_goto]
    have hp (hp : p.spoiled = some c) :
        ∃ j, update (Phase.spoiled ∘ s.queries) i p.spoiled j = some c :=
      ⟨i, by rw [update_self, hp]⟩
    rcases hspoiled c hc with hc | hc
    · refine (h.spoiled c hc).imp_right ?_
      rintro ⟨j, hj⟩
      by_cases hji : j = i
      · subst hji
        exact hp (hkept c hj)
      · exact ⟨j, by rw [update_of_ne hji, hj]⟩
    · exact .inr (hp hc)

lemma goto_of_conn_none (h : Inv s place) (hi : (s.queries i).conn = none)
    (hp : p.conn = none) : Inv (s.goto i p) place := by
  refine h.goto (hp.trans hi.symm) ?_ ?_ fun c hc => .inl hc
  · rw [Phase.handed_of_conn_none hp, Phase.handed_of_conn_none hi]
  · rw [Phase.spoiled_of_conn_none hi]
    exact nofun

lemma mem_insert_active (h : Inv s place) (hi : (s.queries i).handed = none)
    (hp : p.handed = some conn) (c : ℕ) :
    c ∈ insert conn s.activeConns ↔ ∃ j, (Phase.handed ∘ (s.goto i p).queries) j = some c := by
  rw [comp_goto, hp, exists_update_some (f := Phase.handed ∘ s.queries) hi, mem_insert,
    h.mem_active]

/-- A query that has no spoiled connection leaves the others their own. -/
lemma exists_spoiled {c : ℕ} (hi : (s.queries i).spoiled ≠ some c)
    (hc : ∃ j, (Phase.spoiled ∘ s.queries) j = some c) :
    ∃ j, (Phase.spoiled ∘ (s.goto i p).queries) j = some c := by
  obtain ⟨j, hj⟩ := hc
  refine ⟨j, ?_⟩
  have hji : j ≠ i := by
    rintro rfl
    exact hi hj
  rw [comp_goto, update_of_ne hji, hj]

lemma take (h : Inv s place) {idle : List ℕ} (hidle : s.idleConns = conn :: idle)
    (hi : (s.queries i).conn = none) (hconn : p.conn = some conn) (hhanded : p.handed = some conn) :
    Inv ({ s with idleConns := idle, activeConns := insert conn s.activeConns }.goto i p)
      (update place conn (.held i)) := by
  have hcustody := h.custody
  rw [hidle] at hcustody
  have hplace : place conn = .idle := (hcustody.mem_idle conn).mp mem_cons_self
  have hgone (c : ℕ) : update place conn (.held i) c = .gone ↔ place c = .gone :=
    update_eq_iff_of_ne (by simp [hplace]) (by simp) c
  have hlength := h.idle_length
  rw [hidle] at hlength
  refine ⟨?_, by exact Nat.le_of_succ_le hlength, ?_, ?_, ?_, ?_, ?_, h.closing, ?_⟩
  · rw [comp_goto, hconn]
    exact hcustody.take hi
  · exact h.mem_insert_active (Phase.handed_of_conn_none hi) hhanded
  · exact fun c hc => h.gone_shut c ((hgone c).mp hc)
  · exact fun c hc => (h.shut c hc).imp_left (hgone c).mpr
  · intro c hc
    exact ⟨(h.snapshot c hc).1, (h.snapshot c hc).2.imp (hgone c).mpr (mem_insert_of_mem)⟩
  · intro c hc
    have hnone := Phase.spoiled_of_conn_none hi
    exact (h.spoiled c hc).imp (hgone c).mpr (exists_spoiled (hnone ▸ nofun))
  · intro k hk
    have hnil := (h.returned k hk).2
    rw [hidle] at hnil
    cases hnil

lemma dial (h : Inv s place) (hi : (s.queries i).conn = none) (hconn : p.conn = some s.dialed)
    (hhanded : p.handed = none) :
    Inv ({ s with dialed := s.dialed + 1 }.goto i p) (update place s.dialed (.held i)) := by
  have hplace : place s.dialed = .unmade := (h.custody.unmade_iff s.dialed).mpr le_rfl
  have hgone (c : ℕ) : update place s.dialed (.held i) c = .gone ↔ place c = .gone :=
    update_eq_iff_of_ne (by simp [hplace]) (by simp) c
  refine ⟨?_, h.idle_length, ?_, ?_, ?_, ?_, ?_, h.closing, h.returned⟩
  · rw [comp_goto, hconn]
    exact h.custody.make hi
  · have hsame : update (Phase.handed ∘ s.queries) i p.handed = Phase.handed ∘ s.queries := by
      rw [hhanded, ← Phase.handed_of_conn_none hi]
      exact update_eq_self i _
    rw [comp_goto, hsame]
    exact h.mem_active
  · exact fun c hc => h.gone_shut c ((hgone c).mp hc)
  · exact fun c hc => (h.shut c hc).imp_left (hgone c).mpr
  · intro c hc
    exact ⟨(h.snapshot c hc).1, (h.snapshot c hc).2.imp_left (hgone c).mpr⟩
  · intro c hc
    have hnone := Phase.spoiled_of_conn_none hi
    exact (h.spoiled c hc).imp (hgone c).mpr (exists_spoiled (hnone ▸ nofun))

lemma register (h : Inv s place) (hi : (s.queries i).conn = some conn)
    (hnone : (s.queries i).handed = none) (hconn : p.conn = some conn)
    (hhanded : p.handed = some conn) :
    Inv ({ s with activeConns := insert conn s.activeConns }.goto i p) place := by
  have hspoiled : (s.queries i).spoiled = none := by
    by_contra hne
    obtain ⟨c, hc⟩ := Option.ne_none_iff_exists'.mp hne
    rw [Phase.handed_of_spoiled hc] at hnone
    cases hnone
  refine { h with custody := ?_, mem_active := ?_, snapshot := ?_, spoiled := ?_ }
  · have hsame : update (Phase.conn ∘ s.queries) i p.conn = Phase.conn ∘ s.queries := by
      rw [hconn, ← hi]
      exact update_eq_self i _
    rw [comp_goto, hsame]
    exact h.custody
  · exact h.mem_insert_active hnone hhanded
  · intro c hc
    exact ⟨(h.snapshot c hc).1, (h.snapshot c hc).2.imp_right mem_insert_of_mem⟩
  · exact fun c hc => (h.spoiled c hc).imp_right (exists_spoiled (hspoiled ▸ nofun))

/-! ### Connections that are given back -/

lemma mem_erase_active (h : Inv s place) (hi : (s.queries i).conn = some conn)
    (hp : p.conn = none) (c : ℕ) :
    c ∈ s.activeConns.erase conn ↔ ∃ j, (Phase.handed ∘ (s.goto i p).queries) j = some c := by
  rw [comp_goto, Phase.handed_of_conn_none hp,
    exists_update_none (h.eq_of_handed hi) (conn_eq_of_handed hi), mem_erase, h.mem_active]

/-- A connection that a query has is closed by the pool, and the query is left without it. -/
lemma shutConn (h : Inv s place) (hi : (s.queries i).conn = some conn) (hp : p.conn = none) :
    Inv ({ s with
        activeConns := s.activeConns.erase conn
        shut := insert conn s.shut }.goto i p) (update place conn .gone) := by
  have hgone (c : ℕ) : update place conn .gone c = .gone ↔ c = conn ∨ place c = .gone := by
    rw [update_apply]
    split_ifs with hc <;> simp [hc]
  refine ⟨?_, h.idle_length, h.mem_erase_active hi hp, ?_, ?_, ?_, ?_, h.closing, h.returned⟩
  · rw [comp_goto, hp]
    exact h.custody.drop hi
  · intro c hc
    exact mem_insert.mpr (((hgone c).mp hc).imp_right (h.gone_shut c))
  · intro c hc
    rw [hgone]
    rcases mem_insert.mp hc with rfl | hc
    · exact .inl (.inl rfl)
    · exact (h.shut c hc).imp_left .inr
  · intro c hc
    refine ⟨(h.snapshot c hc).1, ?_⟩
    rw [hgone]
    by_cases hconn : c = conn
    · exact .inl (.inl hconn)
    · refine (h.snapshot c hc).2.imp .inr fun hactive => ?_
      exact mem_erase.mpr ⟨hconn, hactive⟩
  · intro c hc
    rw [hgone]
    by_cases hconn : c = conn
    · exact .inl (.inl hconn)
    · refine (h.spoiled c hc).imp .inr (exists_spoiled fun hspoiled => hconn ?_)
      exact conn_eq_of_handed hi c (Phase.handed_of_spoiled hspoiled)

lemma store (h : Inv s place) (hi : (s.queries i).conn = some conn)
    (hsound : (s.queries i).spoiled = none) (hopen : s.closed = false)
    (hroom : s.idleConns.length < defaultDNSMaxIdleTCPConnections) (hp : p.conn = none) :
    Inv ({ s with
        activeConns := s.activeConns.erase conn
        idleConns := s.idleConns ++ [conn] }.goto i p) (update place conn .idle) := by
  have hheld : place conn = .held i := (h.custody.holds_iff i conn).mp hi
  have hgone (c : ℕ) : update place conn .idle c = .gone ↔ place c = .gone :=
    update_eq_iff_of_ne (by simp [hheld]) (by simp) c
  -- The pool is not closed, so nothing has been looked at by `Close`.
  have hnone (c : ℕ) : c ∉ s.snapshot := by
    intro hc
    rw [(h.snapshot c hc).1] at hopen
    cases hopen
  refine ⟨?_, ?_, h.mem_erase_active hi hp, ?_, ?_, ?_, ?_, h.closing, ?_⟩
  · rw [comp_goto, hp]
    exact h.custody.store hi
  · exact (length_append ..).trans_le hroom
  · exact fun c hc => h.gone_shut c ((hgone c).mp hc)
  · exact fun c hc => (h.shut c hc).imp_left (hgone c).mpr
  · exact fun c hc => absurd hc (hnone c)
  · exact fun c hc => (h.spoiled c hc).imp (hgone c).mpr (exists_spoiled (hsound ▸ nofun))
  · intro k hk
    have hclosed := (h.returned k hk).1
    rw [hopen] at hclosed
    cases hclosed

lemma releaseTCP (h : Inv s place) {healthy : Bool} {again : Option ℕ}
    (hi : s.queries i = .releasing conn healthy again) (hp : p.conn = none) :
    ∃ place', Inv ((s.releaseTCP conn healthy).goto i p) place' := by
  have hconn : (s.queries i).conn = some conn := by rw [hi]; rfl
  have hshut := h.shutConn hconn hp
  rw [Pool.releaseTCP]
  split_ifs with hclose hroom
  · exact ⟨_, hshut⟩
  · simp only [Bool.or_eq_true, Bool.not_eq_true', not_or, Bool.not_eq_false,
      Bool.not_eq_true] at hclose
    have hsound : (s.queries i).spoiled = none := by rw [hi, hclose.1]; rfl
    exact ⟨_, h.store hconn hsound hclose.2 hroom hp⟩
  · exact ⟨_, hshut⟩

/-! ### Closing -/

/-- A call that has not become what is looked for is not it. -/
lemma of_update_eq {k k' : ℕ} {x y : Closing} (hk : update s.closings k x k' = y)
    (hne : x ≠ y) : s.closings k' = y := by
  rw [update_apply] at hk
  split_ifs at hk
  · exact absurd hk hne
  · exact hk

section

variable (h : Inv s place)
include h

lemma closeIdleConnections : ∃ place', Inv s.closeIdleConnections place' := by
  have hgone (c : ℕ) : (if c ∈ s.idleConns then .gone else place c) = .gone ↔
      c ∈ s.idleConns ∨ place c = .gone := by
    split_ifs with hc <;> simp [hc]
  refine ⟨_, h.custody.drain, Nat.zero_le _, h.mem_active, ?_, ?_, ?_, ?_, h.closing, ?_⟩
  · intro c hc
    rw [Pool.closeIdleConnections, mem_union, mem_toFinset]
    exact ((hgone c).mp hc).symm.imp_left (h.gone_shut c)
  · intro c hc
    rw [hgone]
    rw [Pool.closeIdleConnections, mem_union, mem_toFinset] at hc
    rcases hc with hc | hc
    · exact (h.shut c hc).imp_left .inr
    · exact .inl (.inl hc)
  · intro c hc
    rw [hgone]
    exact ⟨(h.snapshot c hc).1, (h.snapshot c hc).2.imp_left .inr⟩
  · intro c hc
    rw [hgone]
    exact (h.spoiled c hc).imp_left .inr
  · exact fun k hk => ⟨(h.returned k hk).1, rfl⟩

lemma close {k : ℕ} {order : List ℕ} {t : Pool} (ht : s.close k order = some t) : Inv t place := by
  rw [Pool.close] at ht
  split_ifs at ht with hclosed horder <;> cases ht
  · exact
      { h with
        closing := fun k' rest hk => h.closing k' rest (of_update_eq hk nofun)
        returned := fun k' hk => h.returned k' (of_update_eq hk nofun) }
  · refine
      { h with
        shut := fun c hc => (h.shut c hc).imp_right fun hsnap => ?_
        snapshot := fun c hc => ⟨rfl, .inr hc⟩
        closing := fun k' rest hk => ⟨rfl, ?_⟩
        returned := fun k' hk => absurd (h.returned k' (of_update_eq hk nofun)).1 hclosed }
    · exact absurd (h.snapshot c hsnap).1 hclosed
    · simp only [update_apply] at hk
      split_ifs at hk
      · cases hk
        exact fun c hc => horder ▸ mem_toFinset.mpr hc
      · exact absurd (h.closing k' rest hk).1 hclosed

lemma closeNext {k : ℕ} {rest : List ℕ} (hk : s.closings k = .active rest) :
    ∃ place', Inv (s.closeNext k rest) place' := by
  obtain ⟨hclosed, hrest⟩ := h.closing k rest hk
  cases rest with
  | nil =>
    obtain ⟨place', h'⟩ := h.closeIdleConnections
    exact ⟨place',
      { h' with
        closing := fun k' rest hk' => h'.closing k' rest (of_update_eq hk' nofun)
        returned := fun k' hk' => ⟨hclosed, rfl⟩ }⟩
  | cons conn rest =>
    refine ⟨place,
      { h with
        gone_shut := fun c hc => mem_insert_of_mem (h.gone_shut c hc)
        shut := fun c hc => ?_
        closing := fun k' rest' hk' => ?_
        returned := fun k' hk' => h.returned k' (of_update_eq hk' nofun) }⟩
    · rcases mem_insert.mp hc with rfl | hc
      · exact .inr (hrest c mem_cons_self)
      · exact h.shut c hc
    · simp only [Pool.closeNext, update_apply] at hk'
      split_ifs at hk'
      · cases hk'
        exact ⟨hclosed, fun c hc => hrest c (mem_cons_of_mem _ hc)⟩
      · exact h.closing k' rest' hk'

/-! ### Runs -/

lemma acquireTCP {attempt : ℕ} (hi : (s.queries i).conn = none) :
    ∃ place', Inv (s.acquireTCP i attempt) place' := by
  rw [Pool.acquireTCP]
  split_ifs with hclosed
  · exact ⟨place, h.goto_of_conn_none hi rfl⟩
  · split
    · rename_i conn idle hidle
      exact ⟨_, h.take hidle hi rfl rfl⟩
    · exact ⟨place, h.goto_of_conn_none hi rfl⟩

lemma registerTCP {attempt : ℕ} (hi : s.queries i = .dialed conn attempt) :
    ∃ place', Inv (s.register i conn attempt) place' := by
  have hconn : (s.queries i).conn = some conn := by rw [hi]; rfl
  have hnone : (s.queries i).handed = none := by rw [hi]; rfl
  rw [Pool.register]
  split_ifs with hclosed
  · have hnot : conn ∉ s.activeConns := by
      rw [h.mem_active]
      rintro ⟨j, hj⟩
      obtain rfl := h.eq_of_handed hconn j hj
      rw [comp_apply, hnone] at hj
      cases hj
    have hshut := h.shutConn hconn (p := .outside) rfl
    rw [erase_eq_of_notMem hnot] at hshut
    exact ⟨_, hshut⟩
  · exact ⟨place, h.register hconn hnone rfl rfl⟩

lemma spoil (hconn : p.conn = (s.queries i).conn) (hhanded : p.handed = (s.queries i).handed)
    (hi : (s.queries i).spoiled = none) (hp : p.spoiled = some conn) :
    Inv ({ s with spoiled := insert conn s.spoiled }.goto i p) place := by
  refine h.goto hconn hhanded ?_ fun c hc => ?_
  · rw [hi]
    exact nofun
  · rcases mem_insert.mp hc with rfl | hc
    · exact .inr hp
    · exact .inl hc

lemma step {e : Event} {t : Pool} (ht : s.step e = some t) : ∃ place', Inv t place' := by
  cases e with simp only [Pool.step] at ht
  | query i =>
    split at ht <;> cases ht
    rename_i hi
    exact ⟨place, h.goto_of_conn_none (by rw [hi]; rfl) rfl⟩
  | acquire i =>
    split at ht <;> cases ht
    rename_i attempt hi
    exact h.acquireTCP (by rw [hi]; rfl)
  | dial i ok =>
    split at ht
    · rename_i attempt hi
      have hconn : (s.queries i).conn = none := by rw [hi]; rfl
      split_ifs at ht with hok <;> cases ht
      · exact ⟨_, h.dial hconn rfl rfl⟩
      · exact ⟨place, h.goto_of_conn_none hconn rfl⟩
    · cases ht
  | register i =>
    split at ht <;> cases ht
    rename_i conn attempt hi
    exact h.registerTCP hi
  | cancel i =>
    split at ht <;> cases ht
    rename_i conn reused attempt hi
    exact ⟨place, h.spoil (by rw [hi]; rfl) (by rw [hi]; rfl) (by rw [hi]; rfl) rfl⟩
  | exchange i ok ctxErr =>
    split at ht
    · rename_i conn reused fired attempt hi
      cases fired with
      | true =>
        cases ht
        refine ⟨place, h.goto (by rw [hi]; rfl) (by rw [hi]; rfl) ?_ fun c hc => .inl hc⟩
        rw [hi]
        exact fun c hc => hc
      | false =>
        simp only [Bool.false_eq_true, if_false] at ht
        split_ifs at ht with hok <;> cases ht
        · refine ⟨place, h.goto (by rw [hi]; rfl) (by rw [hi]; rfl) ?_ fun c hc => .inl hc⟩
          rw [hi]
          exact nofun
        · exact ⟨place, h.spoil (by rw [hi]; rfl) (by rw [hi]; rfl) (by rw [hi]; rfl) rfl⟩
    · cases ht
  | release i =>
    split at ht <;> cases ht
    rename_i conn healthy again hi
    exact h.releaseTCP hi (by cases again <;> rfl)
  | closeIdle =>
    cases ht
    exact h.closeIdleConnections
  | close k order =>
    split at ht
    · exact ⟨place, h.close ht⟩
    · cases ht
  | closeNext k =>
    split at ht <;> cases ht
    rename_i rest hk
    exact h.closeNext hk

end

end Inv

end Pool

/-! ## Every connection has one owner -/

namespace Pool

variable {s : Pool} {place : ℕ → Place ℕ}

lemma returned_step {k : ℕ} {e : Event} {t : Pool} (hk : s.closings k = .returned true)
    (ht : s.step e = some t) : t.closings k = .returned true := by
  -- A step of a call of `Close` is one of another call.
  have hother {k' : ℕ} {x : Closing} (hk' : s.closings k' ≠ .returned true) :
      update s.closings k' x k = .returned true := by
    have hne : k ≠ k' := by
      rintro rfl
      exact hk' hk
    rw [update_of_ne hne, hk]
  cases e with
  | close k' order =>
    simp only [step] at ht
    split at ht
    · rename_i hk'
      rw [close] at ht
      split_ifs at ht <;> cases ht <;> exact hother (by simp [hk'])
    · cases ht
  | closeNext k' =>
    simp only [step] at ht
    split at ht <;> cases ht
    rename_i rest hk'
    cases rest <;> exact hother (by simp [hk'])
  -- The others leave the calls of `Close` alone.
  | _ =>
    simp only [step, acquireTCP, register, releaseTCP] at ht
    (repeat' split at ht) <;> cases ht <;> exact hk

/-! ### The states of a connection -/

inductive ConnState where
  | active
  | idle
  | closed
deriving DecidableEq

def At (s : Pool) (conn : ℕ) : ConnState → Prop
  | .active => conn ∈ s.activeConns
  | .idle => conn ∈ s.idleConns
  | .closed => conn ∈ s.shut

/-- The connection has been dialed, and the query that dialed it has been to the pool with it. -/
def Known (s : Pool) (conn : ℕ) : Prop :=
  conn < s.dialed ∧ ∀ i attempt, s.queries i ≠ .dialed conn attempt

structure Owned (s : Pool) : Prop where
  one_state : ∀ conn, s.Known conn → conn ∉ s.snapshot → ∃! state, s.At conn state
  /-- A connection that was active when `Close` looked may be active and closed at once. -/
  snapshot : ∀ conn ∈ s.snapshot,
    s.closed ∧ ¬ s.At conn .idle ∧ (s.At conn .active ∨ s.At conn .closed)
  /-- A connection is active as long as a query has it. -/
  active_iff : ∀ conn, s.At conn .active ↔ ∃ i, (s.queries i).handed = some conn
  one_query : ∀ i j conn, (s.queries i).handed = some conn → (s.queries j).handed = some conn →
    i = j
  spoiled : ∀ conn ∈ s.spoiled, ¬ s.At conn .idle
  idle_length : s.idleConns.length ≤ defaultDNSMaxIdleTCPConnections
  /-- Once the call that closed the server has returned, no connection is idle again, and all that
  were ever dialed are closed when no query has one. -/
  returned : ∀ k, s.closings k = .returned true →
    s.idleConns = [] ∧ ((∀ i, (s.queries i).conn = none) → ∀ conn < s.dialed, s.At conn .closed)

lemma Inv.owned (h : Inv s place) : s.Owned where
  one_state conn hknown hsnap := by
    have hactive (hconn : s.At conn .active) : ∃ i, place conn = .held i := by
      obtain ⟨i, hi⟩ := (h.mem_active conn).mp hconn
      exact ⟨i, (h.custody.holds_iff i conn).mp (Phase.conn_of_handed hi)⟩
    have hidle : s.At conn .idle ↔ place conn = .idle := h.custody.mem_idle conn
    have hclosed : s.At conn .closed ↔ place conn = .gone :=
      ⟨fun hconn => (h.shut conn hconn).resolve_right hsnap, h.gone_shut conn⟩
    cases hplace : place conn with
    | unmade =>
      rw [h.custody.unmade_iff] at hplace
      exact absurd hknown.1 (by omega)
    | idle =>
      refine ⟨.idle, hidle.mpr hplace, fun state hstate => ?_⟩
      cases state <;> simp_all
    | held i =>
      have hhanded : (s.queries i).handed = some conn := by
        have hconn := (h.custody.holds_iff i conn).mpr hplace
        rw [comp_apply] at hconn
        cases hi : s.queries i <;> rw [hi] at hconn <;> cases hconn
        · exact absurd hi (hknown.2 i _)
        · rfl
        · rfl
      refine ⟨.active, (h.mem_active conn).mpr ⟨i, hhanded⟩, fun state hstate => ?_⟩
      cases state <;> simp_all
    | gone =>
      refine ⟨.closed, hclosed.mpr hplace, fun state hstate => ?_⟩
      cases state <;> simp_all
  snapshot conn hconn := by
    obtain ⟨hclosed, hplace⟩ := h.snapshot conn hconn
    refine ⟨hclosed, ?_, ?_⟩
    · rw [At, h.custody.mem_idle]
      rcases hplace with hgone | hactive
      · simp [hgone]
      · obtain ⟨i, hi⟩ := (h.mem_active conn).mp hactive
        have hheld := (h.custody.holds_iff i conn).mp (Phase.conn_of_handed hi)
        simp [hheld]
    · exact hplace.symm.imp_right (h.gone_shut conn)
  active_iff := h.mem_active
  one_query i j conn hi hj :=
    h.custody.eq_of_holds (Phase.conn_of_handed hi) (Phase.conn_of_handed hj)
  spoiled conn hconn := by
    rw [At, h.custody.mem_idle]
    rcases h.spoiled conn hconn with hgone | ⟨i, hi⟩
    · simp [hgone]
    · have hheld := (h.custody.holds_iff i conn).mp
        (Phase.conn_of_handed (Phase.handed_of_spoiled hi))
      simp [hheld]
  idle_length := h.idle_length
  returned k hk := by
    have hnil := (h.returned k hk).2
    refine ⟨hnil, fun hnone conn hconn => ?_⟩
    apply h.gone_shut
    cases hplace : place conn with
    | unmade =>
      rw [h.custody.unmade_iff] at hplace
      omega
    | idle =>
      rw [← h.custody.mem_idle, hnil] at hplace
      cases hplace
    | held i =>
      rw [← h.custody.holds_iff, comp_apply, hnone] at hplace
      cases hplace
    | gone => rfl

/-- In every state of every run the connections have the owners that they should have, and no
connection is idle again once the call that closed the server has returned. -/
theorem owned_of_run {es : List Event} (hr : run step new es = some s) :
    s.Owned ∧ ∀ k, s.closings k = .returned true →
      ∀ fs t, run step s fs = some t → t.idleConns = [] := by
  have howned {es : List Event} {s : Pool} (hr : run step new es = some s) : s.Owned := by
    obtain ⟨place, h⟩ := run_invariant (I := fun s => ∃ place, Inv s place)
      (fun _ _ _ ⟨_, h⟩ he => h.step he) ⟨_, inv_new⟩ hr
    exact h.owned
  refine ⟨howned hr, fun k hk fs t ht => ?_⟩
  have hk' : t.closings k = .returned true := run_invariant (fun _ _ _ => returned_step) hk ht
  exact ((howned (run_append.mpr ⟨s, hr, ht⟩)).returned k hk').1

def oneDialed : List Event := [.query 0, .acquire 0, .dial 0 true, .register 0]

def answered : List Event := oneDialed ++ [.exchange 0 true false, .release 0]

theorem owned_of_run_answered : ∃ s,
    run step new (answered ++ [.close 0 [], .closeNext 0]) = some s ∧
      s.Owned ∧ s.closings 0 = .returned true ∧ s.At 0 .closed := by
  have hr : run step new (answered ++ [.close 0 [], .closeNext 0]) = some _ := rfl
  have howned := (owned_of_run hr).1
  refine ⟨_, hr, howned, rfl, (howned.returned 0 rfl).2 (fun i => ?_) 0 (by decide)⟩
  cases i <;> rfl

/-- A connection is active and closed at once; and a call of `Close` returns, with no query about,
while another one has not yet closed an idle connection. -/
theorem close_overlaps :
    (∃ s, run step new (oneDialed ++ [.close 0 [0], .closeNext 0]) = some s ∧
      s.At 0 .active ∧ s.At 0 .closed) ∧
    ∃ s, run step new (answered ++ [.close 0 [], .close 1 []]) = some s ∧
      s.closings 1 = .returned false ∧ (∀ i, (s.queries i).conn = none) ∧ ¬ s.At 0 .closed := by
  refine ⟨⟨_, rfl, ?_, ?_⟩, _, rfl, rfl, fun i => ?_, ?_⟩
  · exact Finset.mem_insert_self ..
  · exact Finset.mem_insert_self ..
  · cases i <;> rfl
  · exact notMem_empty 0

end Pool

end BypassCore.DNS.TCP
