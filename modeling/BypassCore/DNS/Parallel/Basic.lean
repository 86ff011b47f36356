import BypassCore.DNS.Query.Basic
import BypassCore.Lib.Stretch

/-!
# Queries to all clients at once

`app/dns/dns.go`, from `mergeQueryErrors` on: the clients of a domain are asked at the same time,
and their results are collected in the order in which they arrive. Neighbours with one policy form
a group, and the groups are taken in order.
-/

namespace BypassCore.DNS

structure Reply where
  ips : List NetIP
  ttl : UInt32
  err : Option QueryErr

/-- The fields of a `Client` that the query reads, and what it replies to this query. -/
structure Client where
  name : String
  policyID : UInt32
  reply : Reply

structure QueryResult extends Reply where
  index : ℕ

structure Group where
  start : ℕ
  last : ℕ
deriving DecidableEq

def Group.members (g : Group) : List ℕ := List.range' g.start (g.last + 1 - g.start)

structure Grouping where
  s : ℕ
  e : ℕ
  groups : List Group
  groupOf : List ℕ

namespace Grouping

def close (g : Grouping) : List Group × List ℕ :=
  (g.groups ++ [⟨g.s, g.e⟩],
    (Group.members ⟨g.s, g.e⟩).foldl (fun groupOf k => groupOf.set k g.groups.length) g.groupOf)

def step (clients : List Client) (g : Grouping) (i : ℕ) : Grouping :=
  if clients[i - 1]?.map Client.policyID = clients[i]?.map Client.policyID then { g with e := i }
  else ⟨i, i, g.close.1, g.close.2⟩

end Grouping

/-- The loop of `mergeQueryErrors`: the error other than `errRecordNotFound` that all of them are,
or `none` if two of them differ. -/
def commonError : Option QueryErr → List QueryErr → Option (Option QueryErr)
  | noRNF, [] => some noRNF
  | noRNF, err :: errs =>
    if err.is .recordNotFound then commonError noRNF errs
    else
      match noRNF with
      | none => commonError (some err) errs
      | some e => if err.is e then commonError (some e) errs else none

def mergeQueryErrors (domain : String) (errs : List QueryErr) : QueryErr :=
  match errs with
  | [] => .emptyResponse
  | e :: es =>
    match commonError none errs with
    | none => .base ("returning nil for domain " ++ domain) (.multi (e :: es))
    | some noRNF =>
      if noRNF.any fun err => err.is .emptyResponse then .emptyResponse
      else .base ("returning nil for domain " ++ domain) (noRNF.getD .recordNotFound)

namespace QueryResult

def succeeds (r : QueryResult) : Bool := r.err.isNone && r.ips ≠ []

def failure (r : QueryResult) : QueryErr := r.err.getD .emptyResponse

end QueryResult

structure Collector where
  results : List (Option QueryResult)
  pending : List ℤ
  nextGroup : ℕ
  errs : List QueryErr

inductive Settled where
  /-- Group `nextGroup` may still succeed, or there is none left. -/
  | wait (c : Collector)
  | answer (r : QueryResult)
  | panic

/-- What `parallelQuery` returns. An answer names the client whose `notifySelectedResult` runs. -/
inductive Verdict where
  | answer (client : ℕ) (ips : List NetIP) (ttl : UInt32)
  | error (err : QueryErr)
  | panic

/-- What the `select` receives: a result, or the end of the context with its error. -/
inductive Arrival where
  | result (r : QueryResult)
  | done (err : QueryErr)

namespace Collector

def new (clients : List Client) (groups : List Group) : Collector where
  results := List.replicate clients.length none
  pending := groups.map fun g => (g.last : ℤ) - g.start + 1
  nextGroup := 0
  errs := []

def receive (groupOf : List ℕ) (c : Collector) (r : QueryResult) : Collector :=
  { c with
    results := c.results.set r.index (some r)
    pending := c.pending.modify (groupOf.getD r.index 0) (· - 1) }

def winner (c : Collector) (g : Group) : Option QueryResult :=
  g.members.findSome? fun j => c.results[j]?.join.filter QueryResult.succeeds

def failures (c : Collector) (g : Group) : Option (List QueryErr) :=
  g.members.mapM fun j => c.results[j]?.join.map QueryResult.failure

def settle : List Group → Collector → Settled
  | [], c => .wait c
  | g :: groups, c =>
    match c.winner g with
    | some r => .answer r
    | none =>
      if 0 < c.pending.getD c.nextGroup 0 then .wait c
      else
        match c.failures g with
        | none => .panic
        | some errs => settle groups { c with errs := c.errs ++ errs, nextGroup := c.nextGroup + 1 }

/-- The loop that receives one result for each client; `none` while it waits for the next one. -/
def collect (domain : String) (groups : List Group) (groupOf : List ℕ) :
    ℕ → Collector → List Arrival → Option Verdict
  | 0, c, _ => some (.error (mergeQueryErrors domain c.errs))
  | _ + 1, _, [] => none
  | _ + 1, _, .done err :: _ => some (.error err)
  | n + 1, c, .result r :: arrivals =>
    match settle (groups.drop c.nextGroup) (c.receive groupOf r) with
    | .wait c' => collect domain groups groupOf n c' arrivals
    | .answer r => some (.answer r.index r.ips r.ttl)
    | .panic => some .panic

end Collector

open Lib List

variable (clients : List Client)

def policyAt (i : ℕ) : Option UInt32 := clients[i]?.map Client.policyID

/-- The number of changes of policy before a client. -/
def policyRank (clients : List Client) : ℕ → ℕ := Stretch.rank (policyAt clients)

/-- The groups are the maximal runs of neighbours with one policy, in order. -/
structure MaximalRuns (clients : List Client) (groups : List Group) (groupOf : List ℕ) : Prop where
  length_eq : groupOf.length = clients.length
  groupOf_lt : ∀ k gi : ℕ, groupOf[k]? = some gi → gi < groups.length
  /-- A group holds the clients from its start to its last one, and at least one. -/
  members_iff : ∀ (gi : ℕ) (g : Group), groups[gi]? = some g →
    ∀ k, g.start ≤ k ∧ k ≤ g.last ↔ groupOf[k]? = some gi
  nonempty : ∀ (gi : ℕ) (g : Group), groups[gi]? = some g → g.start ≤ g.last
  ordered : ∀ i j gi gj : ℕ, i ≤ j → groupOf[i]? = some gi → groupOf[j]? = some gj → gi ≤ gj
  /-- Two clients are in one group exactly when all between them have their policy. -/
  same_iff : ∀ i j : ℕ, i ≤ j → j < clients.length →
    (groupOf[i]? = groupOf[j]? ↔ ∀ k, i ≤ k → k ≤ j → policyAt clients k = policyAt clients i)

/-- The groups hold the clients before `b`, each in the group that its rank names. -/
structure Covers (clients : List Client) (b : ℕ) (groups : List Group) (groupOf : List ℕ) :
    Prop where
  length_eq : groupOf.length = clients.length
  rank_lt : ∀ k < b, policyRank clients k < groups.length
  groupOf_eq : ∀ k < b, groupOf[k]? = some (policyRank clients k)
  members_iff : ∀ (gi : ℕ) (g : Group), groups[gi]? = some g →
    ∀ k, g.start ≤ k ∧ k ≤ g.last ↔ k < b ∧ policyRank clients k = gi
  nonempty : ∀ (gi : ℕ) (g : Group), groups[gi]? = some g → g.start ≤ g.last

lemma Group.mem_members {g : Group} {k : ℕ} : k ∈ g.members ↔ g.start ≤ k ∧ k ≤ g.last := by
  simp only [Group.members, mem_range'_1]
  omega

section Covers

variable {clients : List Client} {groups : List Group} {groupOf : List ℕ}

lemma getElem?_foldl_set (v : ℕ) (l : List ℕ) (groupOf : List ℕ) (j : ℕ) :
    (l.foldl (fun groupOf k => groupOf.set k v) groupOf)[j]? =
      if j ∈ l ∧ j < groupOf.length then some v else groupOf[j]? := by
  induction l generalizing groupOf with
  | nil => simp
  | cons k l ih =>
    grind

lemma length_foldl_set (v : ℕ) (l : List ℕ) (groupOf : List ℕ) :
    (l.foldl (fun groupOf k => groupOf.set k v) groupOf).length = groupOf.length := by
  induction l generalizing groupOf with
  | nil => rfl
  | cons k l ih => rw [foldl_cons, ih, length_set]

end Covers

/-! ### The loop -/

namespace Grouping

variable {clients : List Client} {g : Grouping} {i : ℕ}

/-- What holds before round `i`: the groups hold the clients before `s`, and the clients from `s`
to `e`, the last one seen, are in one run. -/
structure Inv (clients : List Client) (i : ℕ) (g : Grouping) : Prop where
  covers : Covers clients g.s g.groups g.groupOf
  e_eq : g.e + 1 = i
  s_le : g.s ≤ g.e
  rank_eq : ∀ k, g.s ≤ k → k ≤ g.e → policyRank clients k = g.groups.length

lemma Inv.close (h : Inv clients i g) (hi : i ≤ clients.length) :
    Covers clients i g.close.1 g.close.2 := by
  have hlength : g.close.1.length = g.groups.length + 1 := by simp [Grouping.close]
  have hmem : ∀ {k}, k ∈ Group.members ⟨g.s, g.e⟩ ↔ g.s ≤ k ∧ k ≤ g.e := Group.mem_members
  have he := h.e_eq
  refine ⟨?_, ?_, ?_, ?_, ?_⟩
  · exact (length_foldl_set _ _ _).trans h.covers.length_eq
  · intro k hk
    rw [hlength]
    rcases Nat.lt_or_ge k g.s with hks | hks
    · exact (h.covers.rank_lt k hks).trans (Nat.lt_succ_self _)
    · rw [h.rank_eq k hks (by omega)]
      exact Nat.lt_succ_self _
  · intro k hk
    simp only [Grouping.close, getElem?_foldl_set, hmem]
    rcases Nat.lt_or_ge k g.s with hks | hks
    · rw [if_neg (by omega)]
      exact h.covers.groupOf_eq k hks
    · rw [if_pos ⟨⟨hks, by omega⟩, by rw [h.covers.length_eq]; omega⟩, h.rank_eq k hks (by omega)]
  · intro gi group hgroup k
    rw [Grouping.close, getElem?_append] at hgroup
    split_ifs at hgroup with hgi
    · rw [h.covers.members_iff gi group hgroup]
      have := h.rank_eq k
      have := h.s_le
      omega
    · obtain ⟨rfl, hgi'⟩ : group = ⟨g.s, g.e⟩ ∧ gi = g.groups.length := by grind
      have := h.rank_eq k
      have := h.covers.rank_lt k
      simp only
      omega
  · intro gi group hgroup
    rw [Grouping.close, getElem?_append] at hgroup
    split_ifs at hgroup with hgi
    · exact h.covers.nonempty gi group hgroup
    · obtain rfl : group = ⟨g.s, g.e⟩ := by grind
      exact h.s_le

lemma Inv.step (h : Inv clients i g) (hi : i < clients.length) :
    Inv clients (i + 1) (g.step clients i) := by
  obtain rfl := h.e_eq
  have hlast := h.rank_eq g.e h.s_le le_rfl
  rw [Grouping.step]
  split_ifs with heq
  · refine ⟨h.covers, rfl, h.s_le.trans (Nat.le_succ _), fun k hsk hk => ?_⟩
    rcases Nat.le_succ_iff.mp hk with hk | rfl
    · exact h.rank_eq k hsk hk
    · exact (Stretch.rank_succ_of_eq heq).trans hlast
  · have hrank : policyRank clients (g.e + 1) = g.close.1.length := by
      rw [policyRank, Stretch.rank_succ_of_ne heq, ← policyRank, hlast]
      simp [Grouping.close]
    refine ⟨h.close hi.le, rfl, le_rfl, fun k hsk hk => ?_⟩
    rw [Nat.le_antisymm hk hsk, hrank]

lemma Inv.foldl (h : Inv clients i g) (m : ℕ) (hm : i + m ≤ clients.length) :
    Inv clients (i + m) ((List.range' i m).foldl (Grouping.step clients) g) := by
  induction m generalizing i g with
  | zero => exact h
  | succ m ih =>
    have := ih (h.step (by omega)) (by omega)
    rwa [Nat.add_right_comm] at this

lemma inv_init (clients : List Client) :
    Inv clients 1 ⟨0, 0, [], List.replicate clients.length 0⟩ where
  covers := ⟨by simp, by simp, by simp, by simp, by simp⟩
  e_eq := rfl
  s_le := le_rfl
  rank_eq k _ hk := by
    rw [Nat.le_zero.mp hk]
    rfl

end Grouping

end BypassCore.DNS
