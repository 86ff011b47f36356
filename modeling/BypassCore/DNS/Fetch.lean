import BypassCore.DNS.Cache.Migration
import BypassCore.DNS.Query.Basic
import BypassCore.Lib.Runs

/-!
# Fetching a domain

`doFetch` of `app/dns/nameserver_cached.go` and what it waits for: records that `updateRecord` of
`cache_controller.go` publishes (`common/signal/pubsub`), of this fetch or of any other one at the
same name server, and transport errors. Answers, errors and the fetch itself are interleaved in any
order.
-/

namespace BypassCore

open Function

def Family.suffix : Family → String
  | .v4 => "4"
  | .v6 => "6"

namespace DNS

open Lib

/-- `pubsub.Subscriber`, with all that has been pushed. -/
structure Subscriber where
  buffer : List IPRecord
  closed : Bool
  pushed : List IPRecord

def subscriberBuffer : ℕ := 16

namespace Subscriber

def new : Subscriber := ⟨[], false, []⟩

/-- `push`. The oldest message makes room. -/
def push (s : Subscriber) (msg : IPRecord) : Subscriber :=
  { s with
    buffer := (if s.buffer.length < subscriberBuffer then s.buffer else s.buffer.tail) ++ [msg]
    pushed := s.pushed ++ [msg] }

def publish (s : Subscriber) (msg : IPRecord) : Subscriber := if s.closed then s else s.push msg

def close (s : Subscriber) : Subscriber := { s with closed := true }

end Subscriber

structure Got where
  record : Option IPRecord
  err : Option QueryErr

structure FetchResult where
  ips : List NetIP
  ttl : UInt32
  err : Option QueryErr

inductive FetchPhase where
  | wait4
  | wait6 (got4 : Got)
  | merging (got4 got6 : Got)
  /-- `merge` has read the records at two times. -/
  | returned (got4 got6 : Got) (now4 now6 : Int)

def FetchPhase.got : FetchPhase → Family → Option Got
  | .wait4, _ => none
  | .wait6 got4, .v4 => some got4
  | .wait6 _, .v6 => none
  | .merging got4 _, .v4 | .returned got4 _ _ _, .v4 => some got4
  | .merging _ got6, .v6 | .returned _ got6 _ _, .v6 => some got6

/-- A call of `updateRecord` that has published its own record. -/
inductive Update where
  | lock (reqType : Family) (domain : String) (rep : IPRecord)
  | republish (topic : String) (pubRecord : IPRecord)

/-- A call of `doFetch`, and what goes on around it. -/
structure Fetch where
  fqdn : String
  option : IPOption
  cache : CacheController
  ctxErr : Option QueryErr
  subs : Family → Subscriber
  errChs : Family → Option QueryErr
  /-- The transport errors so far, also after they have been taken. -/
  failed : Family → Option QueryErr
  updates : List Update
  phase : FetchPhase

namespace Fetch

def start (fqdn : String) (option : IPOption) (cache : CacheController) (updates : List Update) :
    Fetch where
  fqdn := fqdn
  option := option
  cache := cache
  ctxErr := none
  subs f := if option.enables f then .new else Subscriber.new.close
  errChs _ := none
  failed _ := none
  updates := updates
  phase := .wait4

def publish (s : Fetch) (topic : String) (msg : IPRecord) : Fetch :=
  { s with
    subs := fun f =>
      if topic = s.fqdn ++ f.suffix then (s.subs f).publish msg else s.subs f }

def answer (s : Fetch) (reqType : Family) (domain : String) (rep : IPRecord) : Fetch :=
  if s.cache.closed then s
  else
    { s.publish (domain ++ reqType.suffix) rep with
      updates := s.updates ++ [.lock reqType domain rep] }

/-- The cases of the `select` in `onEvent`, and the return before it for a nil subscriber. -/
inductive Choice where
  | nil
  | ctx
  | done
  | err
  | msg

def onEvent (s : Fetch) (f : Family) : Choice → Option (Got × Fetch)
  | .nil => if s.option.enables f then none else some (⟨none, none⟩, s)
  | .ctx => if s.option.enables f then s.ctxErr.map fun e => (⟨none, some e⟩, s) else none
  | .done =>
    if s.option.enables f ∧ s.cache.closed then some (⟨none, some .closed⟩, s) else none
  | .err =>
    if s.option.enables f then
      (s.errChs f).map fun e =>
        (⟨none, some e⟩, { s with errChs := update s.errChs f none })
    else none
  | .msg =>
    match (s.subs f).buffer with
    | msg :: buffer =>
      some (⟨some msg, none⟩,
        { s with subs := update s.subs f { (s.subs f).close with buffer } })
    | [] => none

def finish : List NetIP × Int32 × Option QueryErr → FetchResult
  | (ips, ttl, err) =>
    let rTTL :=
      if 0 < ttl then ttl.toUInt32
      else if ttl = 0 ∧ err.any (fun err => err.is .recordNotFound) then 0
      else 1
    ⟨ips, rTTL, err⟩

def result (option : IPOption) (got4 got6 : Got) (now4 now6 : Int) : FetchResult :=
  finish (merge option now4 now6 got4.record got6.record (got4.err.toList ++ got6.err.toList))

inductive Event where
  | cancel (err : QueryErr)
  | close
  /-- Another critical section of the cache. -/
  | maintain (ips : GoMap String Record) (dirtyips : Option (GoMap String Record))
  /-- `sendQuery` reports an error. It does so at most once for a family. -/
  | fail (f : Family) (err : QueryErr)
  /-- A response makes some query call `updateRecord`. -/
  | answer (reqType : Family) (domain : String) (rep : IPRecord)
  | update (i : ℕ)
  /-- The last part of `updateRecord`. -/
  | republish (i : ℕ) (now : Int)
  | take (choice : Choice)
  | merge (now4 now6 : Int)

/-- The record that is published again, unless it has expired. -/
def live (now : Int) (pubRecord : IPRecord) : Bool :=
  match getIPs now (some pubRecord) with
  | (_, ttl, err) => 0 < ttl && !err.any fun err => err.is .recordNotFound

def step (s : Fetch) : Event → Option Fetch
  | .cancel err => if s.ctxErr.isNone then some { s with ctxErr := some err } else none
  | .close =>
    some { s with cache := s.cache.close, subs := fun f => (s.subs f).close }
  | .maintain ips dirtyips => some { s with cache := { s.cache with ips, dirtyips } }
  | .fail f err =>
    if (s.failed f).isNone then
      some
        { s with
          errChs := update s.errChs f (some err)
          failed := update s.failed f (some err) }
    else none
  | .answer reqType domain rep => some (s.answer reqType domain rep)
  | .update i =>
    match s.updates[i]? with
    | some (.lock reqType domain rep) =>
      let (cache, pub) := s.cache.updateRecord reqType domain rep
      let rest := s.updates.eraseIdx i
      some
        { s with
          cache := cache
          updates := pub.elim rest fun (topic, r) => rest ++ [.republish topic r] }
    | _ => none
  | .republish i now =>
    match s.updates[i]? with
    | some (.republish topic r) =>
      let s := { s with updates := s.updates.eraseIdx i }
      some (if live now r then s.publish topic r else s)
    | _ => none
  | .take choice =>
    match s.phase with
    | .wait4 => (s.onEvent .v4 choice).map fun (got, s) => { s with phase := .wait6 got }
    | .wait6 got4 =>
      (s.onEvent .v6 choice).map fun (got, s) => { s with phase := .merging got4 got }
    | _ => none
  | .merge now4 now6 =>
    match s.phase with
    | .merging got4 got6 =>
      some
        { s with
          phase := .returned got4 got6 now4 now6
          subs := fun f => (s.subs f).close }
    | _ => none

end Fetch

end DNS

end BypassCore

/-!
## What a fetch of both families returns

The outcome of a family is the first record that is published to its subscription, or else its
transport error. A fetch returns what the two outcomes say, in whatever order they arrive, unless a
family has an error and a record: the error may be taken first, and the record is lost then.
-/

namespace BypassCore.DNS

open Lib List Option

inductive Outcome where
  | record (r : IPRecord)
  | error (err : QueryErr)

namespace Outcome

def ips : Outcome → List NetIP
  | .record r => if r.rCode = 0 then r.ip else []
  | .error _ => []

def got : Outcome → Got
  | .record r => ⟨some r, none⟩
  | .error err => ⟨none, some err⟩

end Outcome

/-- A result is what the outcomes of the families say. -/
structure Lossless (o4 o6 : Outcome) (now4 now6 : Int) (result : FetchResult) : Prop where
  success : o4.ips ++ o6.ips ≠ [] → result.err = none ∧ result.ips = o4.ips ++ o6.ips
  failure : o4.ips ++ o6.ips = [] → result.err ≠ none ∧ result.ips = []
  ttl4 : ∀ r, o4 = .record r → (result.ttl.toNat : Int) ≤ max 1 (r.remaining now4)
  ttl6 : ∀ r, o6 = .record r → (result.ttl.toNat : Int) ≤ max 1 (r.remaining now6)

lemma getIPs_got (now : Int) (o : Outcome) : (getIPs now o.got.record).1 = o.ips := by
  cases o with
  | error err => rfl
  | record r =>
    simp only [Outcome.got, getIPs, Outcome.ips]
    by_cases hcode : r.rCode = 0
    · by_cases hip : r.ip = [] <;> simp [hcode, hip]
    · simp [hcode]

lemma toNat_finish_ttl_le (m : List NetIP × Int32 × Option QueryErr) :
    ((Fetch.finish m).ttl.toNat : Int) ≤ max 1 m.2.1.toInt := by
  simp only [Fetch.finish]
  split_ifs with hpos hzero
  · rw [Int32.toNat_toUInt32_of_le (Int32.le_of_lt hpos)]
    have hnonneg := Int32.lt_iff_toInt_lt.mp hpos
    rw [Int32.toNatClampNeg, Int.toNat_of_nonneg hnonneg.le]
    exact le_max_right _ _
  · exact zero_le_one.trans (le_max_left _ _)
  · exact le_max_left _ _

lemma lossless_result (o4 o6 : Outcome) (now4 now6 : Int) :
    Lossless o4 o6 now4 now6 (Fetch.result ⟨true, true⟩ o4.got o6.got now4 now6) := by
  rw [Fetch.result, merge]
  generalize o4.got.err.toList ++ o6.got.err.toList = errs
  set m4 := mergeFamily now4 o4.got.record ([], defaultMergeTTL, errs) with hm4
  set m6 := mergeFamily now6 o6.got.record m4 with hm6
  have hips4 : m4.1 = o4.ips := by
    rw [mergeFamily_ips, getIPs_got, nil_append]
  have hips6 : m6.1 = o4.ips ++ o6.ips := by
    rw [mergeFamily_ips, getIPs_got, hips4]
  have hle : m6.2.1.toInt ≤ m4.2.1.toInt := mergeFamily_ttl_le _
  have httl : ((Fetch.finish (mergeResult m6)).ttl.toNat : Int) ≤ max 1 m6.2.1.toInt := by
    rw [← mergeResult_ttl]
    exact toNat_finish_ttl_le _
  have hmax {n : Int32} {r : IPRecord} {now : Int} (hn : n.toInt ≤ (r.ttl now).toInt)
      (hm : m6.2.1.toInt ≤ n.toInt) :
      ((Fetch.finish (mergeResult m6)).ttl.toNat : Int) ≤ max 1 (r.remaining now) := by
    have hremaining := toInt_ttl_le_remaining now r
    omega
  refine ⟨fun hne => ?_, fun hnil => ?_, ?_, ?_⟩
  · rw [mergeResult_of_ips_ne_nil (by rwa [hips6])]
    exact ⟨rfl, hips6⟩
  · have hnil6 : (getIPs now6 o6.got.record).1 = [] := by
      rw [getIPs_got]
      exact (append_eq_nil_iff.mp hnil).2
    obtain ⟨hips, herr⟩ := mergeResult_of_ips_nil (hips6.trans hnil) (mergeFamily_errs_ne_nil hnil6)
    exact ⟨herr, hips⟩
  · rintro r rfl
    exact hmax (mergeFamily_ttl_le_record r) hle
  · rintro r rfl
    exact hmax (mergeFamily_ttl_le_record r) le_rfl

namespace Fetch

variable {s s' t : Fetch} {f : Family} {topic : String} {msg : IPRecord} {e : Event}

def outcome (s : Fetch) (f : Family) : Option Outcome :=
  match (s.subs f).pushed with
  | r :: _ => some (.record r)
  | [] => (s.failed f).map .error

def waitsFor (s : Fetch) : Option Family :=
  match s.phase with
  | .wait4 => some .v4
  | .wait6 _ => some .v6
  | _ => none

/-- A message to a subscription of the fetch finds room there, and finds that nothing has been taken
for the family yet, unless the subscription is closed. -/
def Accepts (s : Fetch) (topic : String) : Prop :=
  ∀ f, topic = s.fqdn ++ Family.suffix f → (s.subs f).closed = true ∨
    (s.subs f).buffer.length < subscriberBuffer ∧ s.phase.got f = none

/-- No record of a family that has failed is lost, no record is pushed out of a buffer, and the
fetch is not broken off. -/
def Orderly (s : Fetch) : Event → Prop
  | .answer reqType domain _ => s.Accepts (domain ++ reqType.suffix)
  | .republish i now => ∀ topic r,
    s.updates[i]? = some (.republish topic r) → live now r = true → s.Accepts topic
  | .take .err => ∀ f, s.waitsFor = some f → (s.subs f).pushed = []
  | .take .ctx | .take .done => False
  | _ => True

/-! ### The invariant -/

/-- Nothing has been taken for a family, and nothing is lost. -/
def Waits (sub : Subscriber) (errCh failed : Option QueryErr) : Prop :=
  sub.buffer = sub.pushed ∧ errCh = failed

def Settles (sub : Subscriber) (failed : Option QueryErr) (got : Got) : Prop :=
  (∃ r rest, sub.pushed = r :: rest ∧ sub.closed = true ∧ got = ⟨some r, none⟩) ∨
    ∃ err, sub.pushed = [] ∧ failed = some err ∧ got = ⟨none, some err⟩

def FamilyInv (s : Fetch) (f : Family) : Prop :=
  match s.phase.got f with
  | none => Waits (s.subs f) (s.errChs f) (s.failed f)
  | some got => Settles (s.subs f) (s.failed f) got

structure Inv (s : Fetch) : Prop where
  option_eq : s.option = ⟨true, true⟩
  family : ∀ f, s.FamilyInv f

lemma familyInv_of_none (h : s.phase.got f = none) :
    s.FamilyInv f ↔ Waits (s.subs f) (s.errChs f) (s.failed f) := by
  rw [FamilyInv, h]

variable {got : Got}

lemma familyInv_of_some (h : s.phase.got f = some got) :
    s.FamilyInv f ↔ Settles (s.subs f) (s.failed f) got := by
  rw [FamilyInv, h]

lemma inv_start (fqdn : String) (cache : CacheController) (updates : List Update) :
    (start fqdn ⟨true, true⟩ cache updates).Inv where
  option_eq := rfl
  family f := by cases f <;> exact ⟨rfl, rfl⟩

lemma Settles.close {sub : Subscriber} {failed : Option QueryErr}
    (h : Settles sub failed got) : Settles sub.close failed got := by
  rcases h with ⟨r, rest, hpushed, -, hgot⟩ | h
  · exact .inl ⟨r, rest, hpushed, rfl, hgot⟩
  · exact .inr h

lemma FamilyInv.publish (h : s.FamilyInv f) (hacc : s.Accepts topic) :
    (s.publish topic msg).FamilyInv f := by
  have hsub : (s.publish topic msg).subs f =
      if topic = s.fqdn ++ f.suffix then (s.subs f).publish msg else s.subs f := rfl
  by_cases htopic : topic = s.fqdn ++ f.suffix
  · rw [Subscriber.publish] at hsub
    split_ifs at hsub with hclosed
    · rw [FamilyInv, hsub]
      exact h
    · obtain ⟨hroom, hnone⟩ := (hacc f htopic).resolve_left hclosed
      obtain ⟨hbuffer, herr⟩ := (familyInv_of_none hnone).mp h
      refine (familyInv_of_none (s := s.publish topic msg) hnone).mpr ⟨?_, herr⟩
      rw [hsub, Subscriber.push, if_pos hroom, hbuffer]
  · rw [if_neg htopic] at hsub
    rw [FamilyInv, hsub]
    exact h

lemma FamilyInv.fail {f' : Family} {err : QueryErr} (h : s.FamilyInv f)
    (hnone : s.failed f' = none) :
    ({ s with
        errChs := Function.update s.errChs f' (some err)
        failed := Function.update s.failed f' (some err) } : Fetch).FamilyInv f := by
  by_cases hf : f = f'
  · subst hf
    cases hgot : s.phase.got f with simp only [FamilyInv, hgot] at h ⊢
    | none => exact ⟨h.1, by simp⟩
    | some got =>
      rcases h with h | ⟨err', -, hfailed, -⟩
      · exact .inl h
      · rw [hnone] at hfailed
        cases hfailed
  · simp only [FamilyInv, Function.update_of_ne hf]
    exact h

lemma onEvent_settles {choice : Choice} (hoption : s.option = ⟨true, true⟩)
    (hwaits : Waits (s.subs f) (s.errChs f) (s.failed f)) (horderly : s.Orderly (.take choice))
    (hf : s.waitsFor = some f) (h : s.onEvent f choice = some (got, s')) :
    Settles (s'.subs f) (s'.failed f) got ∧ s'.option = s.option ∧ s'.failed = s.failed ∧
      (∀ f', (s'.subs f').pushed = (s.subs f').pushed) ∧
      ∀ f', f' ≠ f → s'.subs f' = s.subs f' ∧ s'.errChs f' = s.errChs f' := by
  have henables : s.option.enables f = true := by
    rw [hoption]
    cases f <;> rfl
  cases choice with
  | nil => simp [onEvent, henables] at h
  | ctx => exact horderly.elim
  | done => exact horderly.elim
  | err =>
    simp only [onEvent, henables, if_true, map_eq_some_iff] at h
    obtain ⟨err, herr, rfl, rfl⟩ := h
    refine ⟨.inr ⟨err, horderly f hf, ?_, rfl⟩, rfl, rfl, fun _ => rfl, fun f' hne => ⟨rfl, ?_⟩⟩
    · rw [← hwaits.2, herr]
    · exact Function.update_of_ne hne ..
  | msg =>
    simp only [onEvent] at h
    split at h
    · rename_i r rest hbuffer
      cases h
      have hpushed : (s.subs f).pushed = r :: rest := hwaits.1.symm.trans hbuffer
      refine ⟨.inl ⟨r, rest, ?_, ?_, rfl⟩, rfl, rfl, fun f' => ?_, fun f' hne => ⟨?_, rfl⟩⟩
      · simp [Subscriber.close, hpushed]
      · simp [Subscriber.close]
      · by_cases hne : f' = f
        · subst hne
          simp [Subscriber.close]
        · simp [Function.update_of_ne hne]
      · exact Function.update_of_ne hne ..
    · cases h

namespace Inv

lemma publish (h : s.Inv) (hacc : s.Accepts topic) : (s.publish topic msg).Inv :=
  ⟨h.option_eq, fun f => (h.family f).publish hacc⟩

lemma take4 (h : s.Inv) {choice : Choice} {got : Got} (hphase : s.phase = .wait4)
    (horderly : s.Orderly (.take choice)) (hevent : s.onEvent .v4 choice = some (got, s')) :
    ({ s' with phase := .wait6 got } : Fetch).Inv := by
  have hwaits (f : Family) : Waits (s.subs f) (s.errChs f) (s.failed f) :=
    (familyInv_of_none (by rw [hphase]; rfl)).mp (h.family f)
  obtain ⟨hsettles, hoption, hfailed, -, hother⟩ := onEvent_settles h.option_eq (hwaits .v4)
    horderly (by rw [waitsFor, hphase]) hevent
  refine ⟨hoption.trans h.option_eq, fun f => ?_⟩
  cases f with
  | v4 => exact hsettles
  | v6 =>
    obtain ⟨hsub, herr⟩ := hother .v6 nofun
    rw [familyInv_of_none rfl]
    simp only [hsub, herr, hfailed]
    exact hwaits .v6

lemma take6 (h : s.Inv) {choice : Choice} {got4 got : Got} (hphase : s.phase = .wait6 got4)
    (horderly : s.Orderly (.take choice)) (hevent : s.onEvent .v6 choice = some (got, s')) :
    ({ s' with phase := .merging got4 got } : Fetch).Inv := by
  have hwaits : Waits (s.subs .v6) (s.errChs .v6) (s.failed .v6) :=
    (familyInv_of_none (by rw [hphase]; rfl)).mp (h.family .v6)
  have hsettles4 : Settles (s.subs .v4) (s.failed .v4) got4 :=
    (familyInv_of_some (by rw [hphase]; rfl)).mp (h.family .v4)
  obtain ⟨hsettles, hoption, hfailed, -, hother⟩ := onEvent_settles h.option_eq hwaits
    horderly (by rw [waitsFor, hphase]) hevent
  refine ⟨hoption.trans h.option_eq, fun f => ?_⟩
  cases f with
  | v4 =>
    obtain ⟨hsub, -⟩ := hother .v4 nofun
    rw [familyInv_of_some rfl]
    simp only [hsub, hfailed]
    exact hsettles4
  | v6 => exact hsettles

lemma step (h : s.Inv) (horderly : s.Orderly e) (he : s.step e = some s') : s'.Inv := by
  cases e with
  | cancel err =>
    simp only [Fetch.step, ite_none_right_eq_some, Option.some.injEq] at he
    obtain ⟨-, rfl⟩ := he
    exact ⟨h.option_eq, h.family⟩
  | close =>
    cases he
    refine ⟨h.option_eq, fun f => ?_⟩
    have hf := h.family f
    cases hgot : s.phase.got f with simp only [FamilyInv, hgot] at hf ⊢
    | none => exact hf
    | some got => exact hf.close
  | maintain ips dirtyips =>
    cases he
    exact ⟨h.option_eq, h.family⟩
  | fail f err =>
    simp only [Fetch.step, ite_none_right_eq_some, Option.some.injEq, isNone_iff_eq_none] at he
    obtain ⟨hnone, rfl⟩ := he
    exact ⟨h.option_eq, fun f' => (h.family f').fail hnone⟩
  | answer reqType domain rep =>
    cases he
    rw [answer]
    split_ifs
    · exact h
    · exact ⟨h.option_eq, (h.publish horderly).family⟩
  | update i =>
    simp only [Fetch.step] at he
    split at he <;> cases he
    exact ⟨h.option_eq, h.family⟩
  | republish i now =>
    simp only [Fetch.step] at he
    split at he <;> cases he
    rename_i topic r hi
    split_ifs with hlive
    · have hrest : ({ s with updates := s.updates.eraseIdx i } : Fetch).Inv :=
        ⟨h.option_eq, h.family⟩
      exact hrest.publish (horderly topic r hi hlive)
    · exact ⟨h.option_eq, h.family⟩
  | take choice =>
    simp only [Fetch.step] at he
    split at he
    · rename_i hphase
      simp only [map_eq_some_iff, Prod.exists] at he
      obtain ⟨got, s₁, hevent, rfl⟩ := he
      exact h.take4 hphase horderly hevent
    · rename_i got4 hphase
      simp only [map_eq_some_iff, Prod.exists] at he
      obtain ⟨got, s₁, hevent, rfl⟩ := he
      exact h.take6 hphase horderly hevent
    · cases he
  | merge now4 now6 =>
    simp only [Fetch.step] at he
    split at he <;> cases he
    rename_i got4 got6 hphase
    refine ⟨h.option_eq, fun f => ?_⟩
    have hf := h.family f
    rw [FamilyInv, hphase] at hf
    cases f with
    | v4 => exact Settles.close hf
    | v6 => exact Settles.close hf

end Inv

lemma Settles.outcome (h : Settles (s.subs f) (s.failed f) got) :
    ∃ o, s.outcome f = some o ∧ got = o.got := by
  rcases h with ⟨r, rest, hpushed, -, rfl⟩ | ⟨err, hpushed, hfailed, rfl⟩
  · exact ⟨.record r, by rw [Fetch.outcome, hpushed], rfl⟩
  · exact ⟨.error err, by rw [Fetch.outcome, hpushed, hfailed]; rfl, rfl⟩

/-! ### The fetch returns -/

def Event.own : Event → Bool
  | .take _ | .merge _ _ => true
  | _ => false

/-- The fetch can go on by itself, in an orderly way, until it returns. -/
def Returns (s : Fetch) : Prop :=
  ∃ es t, (∀ e ∈ es, Event.own e = true) ∧ Guarded step Orderly s es ∧
    run step s es = some t ∧ ∃ got4 got6 now4 now6, t.phase = .returned got4 got6 now4 now6

lemma Returns.cons (hown : e.own = true) (horderly : s.Orderly e) (he : s.step e = some s')
    (h : s'.Returns) : s.Returns := by
  obtain ⟨es, t, hes, hg, hr, ht⟩ := h
  exact ⟨e :: es, t, forall_mem_cons.mpr ⟨hown, hes⟩, guarded_cons horderly he hg,
    run_cons.mpr ⟨s', he, hr⟩, ht⟩

lemma returns_of_returned {got4 got6 : Got} {now4 now6 : Int}
    (h : s.phase = .returned got4 got6 now4 now6) : s.Returns :=
  ⟨[], s, forall_mem_nil _, trivial, rfl, got4, got6, now4, now6, h⟩

lemma returns_of_merging {got4 got6 : Got} (h : s.phase = .merging got4 got6) : s.Returns := by
  have he : s.step (.merge 0 0) = some
      { s with
        phase := .returned got4 got6 0 0
        subs := fun f => (s.subs f).close } := by
    rw [step, h]
  exact .cons (e := .merge 0 0) rfl trivial he (returns_of_returned rfl)

lemma exists_onEvent (hoption : s.option = ⟨true, true⟩)
    (hwaits : Waits (s.subs f) (s.errChs f) (s.failed f)) (hf : s.waitsFor = some f) {o : Outcome}
    (ho : s.outcome f = some o) :
    ∃ choice, s.Orderly (.take choice) ∧ ∃ got s', s.onEvent f choice = some (got, s') := by
  have henables : s.option.enables f = true := by
    rw [hoption]
    cases f <;> rfl
  cases hpushed : (s.subs f).pushed with
  | cons r rest =>
    refine ⟨.msg, trivial, ?_⟩
    rw [onEvent, hwaits.1.trans hpushed]
    exact ⟨_, _, rfl⟩
  | nil =>
    rw [outcome, hpushed, map_eq_some_iff] at ho
    obtain ⟨err, herr, -⟩ := ho
    refine ⟨.err, ?_, ?_⟩
    · intro f' hf'
      rw [hf] at hf'
      cases hf'
      exact hpushed
    · rw [onEvent, if_pos henables, hwaits.2.trans herr]
      exact ⟨_, _, rfl⟩

lemma Inv.returns_of_wait6 (h : s.Inv) {got4 : Got} (hphase : s.phase = .wait6 got4) {o6 : Outcome}
    (ho6 : s.outcome .v6 = some o6) : s.Returns := by
  have hwaits : Waits (s.subs .v6) (s.errChs .v6) (s.failed .v6) :=
    (familyInv_of_none (by rw [hphase]; rfl)).mp (h.family .v6)
  obtain ⟨choice, horderly, got, s', hevent⟩ := exists_onEvent h.option_eq hwaits
    (by rw [waitsFor, hphase]) ho6
  have he : s.step (.take choice) = some { s' with phase := .merging got4 got } := by
    simp only [Fetch.step, hphase, hevent, map_some]
  exact .cons rfl horderly he (returns_of_merging rfl)

lemma Inv.returns_of_wait4 (h : s.Inv) (hphase : s.phase = .wait4) {o4 o6 : Outcome}
    (ho4 : s.outcome .v4 = some o4) (ho6 : s.outcome .v6 = some o6) : s.Returns := by
  have hwaits : Waits (s.subs .v4) (s.errChs .v4) (s.failed .v4) :=
    (familyInv_of_none (by rw [hphase]; rfl)).mp (h.family .v4)
  have hwaitsFor : s.waitsFor = some .v4 := by rw [waitsFor, hphase]
  obtain ⟨choice, horderly, got, s', hevent⟩ := exists_onEvent h.option_eq hwaits hwaitsFor ho4
  obtain ⟨-, -, hfailed, hpushed, -⟩ := onEvent_settles h.option_eq hwaits horderly hwaitsFor hevent
  have he : s.step (.take choice) = some { s' with phase := .wait6 got } := by
    simp only [Fetch.step, hphase, hevent, map_some]
  have ho6' : ({ s' with phase := .wait6 got } : Fetch).outcome .v6 = some o6 := by
    rw [outcome] at ho6 ⊢
    rw [hpushed, hfailed]
    exact ho6
  exact .cons rfl horderly he ((h.take4 hphase horderly hevent).returns_of_wait6 rfl ho6')

lemma Inv.returns (h : s.Inv) {o4 o6 : Outcome} (ho4 : s.outcome .v4 = some o4)
    (ho6 : s.outcome .v6 = some o6) : s.Returns := by
  cases hphase : s.phase with
  | wait4 => exact h.returns_of_wait4 hphase ho4 ho6
  | wait6 got4 => exact h.returns_of_wait6 hphase ho6
  | merging got4 got6 => exact returns_of_merging hphase
  | returned got4 got6 now4 now6 => exact returns_of_returned hphase

/-- In an orderly run a fetch returns what the outcomes of the families say, which is a function of
the outcomes and of the times at which the records are read; and it does not wait any longer once
both have an outcome. -/
theorem doFetch_lossless {fqdn : String} {cache : CacheController} {updates : List Update}
    {es : List Event} (hg : Guarded step Orderly (start fqdn ⟨true, true⟩ cache updates) es)
    (hr : run step (start fqdn ⟨true, true⟩ cache updates) es = some s) :
    (∀ got4 got6 now4 now6, s.phase = .returned got4 got6 now4 now6 →
      ∃ o4 o6, s.outcome .v4 = some o4 ∧ s.outcome .v6 = some o6 ∧
        result s.option got4 got6 now4 now6 = result ⟨true, true⟩ o4.got o6.got now4 now6 ∧
        Lossless o4 o6 now4 now6 (result s.option got4 got6 now4 now6)) ∧
    ∀ o4 o6, s.outcome .v4 = some o4 → s.outcome .v6 = some o6 → s.Returns := by
  have h : s.Inv := hg.invariant (fun _ _ _ h horderly he => h.step horderly he)
    (inv_start fqdn cache updates) hr
  refine ⟨fun got4 got6 now4 now6 hphase => ?_, fun o4 o6 ho4 ho6 => h.returns ho4 ho6⟩
  obtain ⟨o4, ho4, rfl⟩ := ((familyInv_of_some (by rw [hphase]; rfl)).mp (h.family .v4)).outcome
  obtain ⟨o6, ho6, rfl⟩ := ((familyInv_of_some (by rw [hphase]; rfl)).mp (h.family .v6)).outcome
  rw [h.option_eq]
  exact ⟨o4, o6, ho4, ho6, rfl, lossless_result o4 o6 now4 now6⟩

/-! ### A fetch that loses a record -/

def cachedA : IPRecord := ⟨0, [[192, 0, 2, 1]], 60 * second, 0, none⟩

def receivedAAAA : IPRecord :=
  ⟨1, [[32, 1, 13, 184, 0, 0, 0, 0, 0, 0, 0, 0, 0, 0, 0, 1]], 60 * second, 0, none⟩

def halfCached : Fetch :=
  start "d." ⟨true, true⟩
    { newCacheController false false 0 with
      ips := (∅ : GoMap String Record).insert "d." ⟨some cachedA, none⟩ } []

/-- The AAAA record arrives, the cached A record is published again, and the A query fails. -/
def arrivals : List Event :=
  [.answer .v6 "d." receivedAAAA, .update 0, .republish 0 0, .fail .v4 (.other 0)]

lemma live_cachedA : live 0 cachedA = true := by
  have httl : (cachedA.ttl 0).toInt = 60 := toInt_ttl_eq (by decide) (by decide) rfl
  have hpos : 0 < cachedA.ttl 0 := by
    rw [Int32.lt_iff_toInt_lt, httl]
    decide
  simpa [live, getIPs, cachedA] using hpos

lemma step_republish {i : ℕ} {now : Int} (h : s.updates[i]? = some (.republish topic msg))
    (hlive : live now msg = true) :
    s.step (.republish i now) =
      some ({ s with updates := s.updates.eraseIdx i }.publish topic msg) := by
  simp only [step, h, hlive, if_true]

lemma accepts_of_buffer_nil
    (hsubs : ∀ f, topic = s.fqdn ++ Family.suffix f → (s.subs f).buffer = [])
    (hphase : s.phase = .wait4) : s.Accepts topic := by
  intro f hf
  refine .inr ⟨?_, ?_⟩
  · rw [hsubs f hf]
    exact Nat.zero_lt_succ 15
  · rw [hphase]
    rfl

lemma guarded_arrivals :
    Guarded step Orderly halfCached (arrivals ++ [.take .msg, .take .msg, .merge 0 0]) := by
  refine guarded_cons (accepts_of_buffer_nil (fun f _ => by cases f <;> rfl) rfl) rfl ?_
  refine guarded_cons trivial rfl ?_
  refine guarded_cons ?_ (step_republish rfl live_cachedA) ?_
  · intro topic r hupdate _
    cases hupdate
    refine accepts_of_buffer_nil (fun f hf => ?_) rfl
    cases f with
    | v4 => rfl
    | v6 => exact absurd hf (by decide)
  · exact guarded_cons trivial rfl (guarded_cons trivial rfl (guarded_cons trivial rfl
      (guarded_cons trivial rfl trivial)))

theorem doFetch_lossless_arrivals :
    ∃ s, run step halfCached (arrivals ++ [.take .msg, .take .msg, .merge 0 0]) = some s ∧
      ∃ got4 got6, s.phase = .returned got4 got6 0 0 ∧
        Lossless (.record cachedA) (.record receivedAAAA) 0 0 (result s.option got4 got6 0 0) := by
  have hr : run step halfCached (arrivals ++ [.take .msg, .take .msg, .merge 0 0]) = some _ :=
    run_cons.mpr ⟨_, rfl, run_cons.mpr ⟨_, rfl,
      run_cons.mpr ⟨_, step_republish rfl live_cachedA, rfl⟩⟩⟩
  refine ⟨_, hr, _, _, rfl, ?_⟩
  obtain ⟨o4, o6, ho4, ho6, -, h⟩ := (doFetch_lossless guarded_arrivals hr).1 _ _ _ _ rfl
  cases ho4
  cases ho6
  exact h

/-- When a record and an error are there, the select picks one of them. What is returned depends on
which one. -/
theorem doFetch_loses_record :
    ∃ s t got4 got4' got6,
      run step halfCached (arrivals ++ [.take .msg, .take .msg, .merge 0 0]) = some s ∧
      run step halfCached (arrivals ++ [.take .err, .take .msg, .merge 0 0]) = some t ∧
      s.outcome .v4 = some (.record cachedA) ∧ s.outcome .v6 = some (.record receivedAAAA) ∧
      (∀ f, t.outcome f = s.outcome f) ∧
      s.phase = .returned got4 got6 0 0 ∧ t.phase = .returned got4' got6 0 0 ∧
      (result s.option got4 got6 0 0).ips = cachedA.ip ++ receivedAAAA.ip ∧
      (result t.option got4' got6 0 0).ips = receivedAAAA.ip := by
  refine ⟨_, _, _, _, _, run_cons.mpr ⟨_, rfl, run_cons.mpr ⟨_, rfl,
      run_cons.mpr ⟨_, step_republish rfl live_cachedA, rfl⟩⟩⟩,
    run_cons.mpr ⟨_, rfl, run_cons.mpr ⟨_, rfl,
      run_cons.mpr ⟨_, step_republish rfl live_cachedA, rfl⟩⟩⟩,
    rfl, rfl, ?_, rfl, rfl, ?_, ?_⟩
  · intro f
    cases f <;> rfl
  · exact ((lossless_result (.record cachedA) (.record receivedAAAA) 0 0).success nofun).2
  · exact ((lossless_result (.error (.other 0)) (.record receivedAAAA) 0 0).success nofun).2

end Fetch

end BypassCore.DNS
