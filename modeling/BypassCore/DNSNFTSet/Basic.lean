import BypassCore.Geodata.IPMatcher.Basic
import BypassCore.Lib.GoStrings
import BypassCore.Lib.Runs
import BypassCore.Lib.Slices

/-!
# The writer of DNS results into nftables sets

`app/dnsnftset/writer.go`: `Emit` turns a DNS result into updates of the configured sets, and the
writer goroutine hands them on in batches. `flush` drops an update whose element was written
before and is not expired yet, merges the updates of one element within a batch, and adds the
others to the kernel sets with their TTL as timeout. Times are in nanoseconds.
-/

namespace BypassCore.DNSNFTSet

open Lib

inductive TableFamily where
  | inet
  | ip
  | ip6
deriving DecidableEq

def TableFamily.bytes : TableFamily → List UInt8
  | .inet => ascii "inet"
  | .ip => ascii "ip"
  | .ip6 => ascii "ip6"

/-- The bytes that `nftIdentifier` allows: letters, digits and the four marks `_`, `.`, `:`, `-`. -/
def isIdentifierByte (b : UInt8) : Bool :=
  (65 ≤ b && b ≤ 90) || (97 ≤ b && b ≤ 122) || (48 ≤ b && b ≤ 57) ||
    b == 95 || b == 46 || b == 58 || b == 45

/-- The name of a table or a set, as `parseSetRef` accepts it. -/
structure Identifier where
  bytes : List UInt8
  valid : bytes ≠ [] ∧ bytes.length ≤ 255 ∧ bytes.all isIdentifierByte = true
deriving DecidableEq

/-- `setRef`. IPv4 results do not go to an `ip6` table, nor IPv6 results to an `ip` table. -/
structure SetRef where
  family : TableFamily
  table : Identifier
  name : Identifier
  ipVersion : Family
  compatible : ¬ (ipVersion = .v4 ∧ family = .ip6) ∧ ¬ (ipVersion = .v6 ∧ family = .ip)
deriving DecidableEq

def SetRef.string (r : SetRef) : List UInt8 :=
  r.family.bytes ++ ascii "@" ++ r.table.bytes ++ ascii "@" ++ r.name.bytes

def SetRef.versionString (r : SetRef) : List UInt8 :=
  match r.ipVersion with
  | .v4 => ascii "4"
  | .v6 => ascii "6"

/-- The fields of `appdns.Result` that the writer reads. -/
structure Result where
  ips : List NetIP
  ttl : UInt32
  serverTag : String

structure Update where
  set : SetRef
  key : List UInt8
  timeout : Int
deriving DecidableEq

def second : Int := 1000000000

/-- `unsafeDNSResultIP`: loopback and unspecified answers. -/
def unsafeDNSResultIP (ip : NetIP) : Bool :=
  match ip.to4 with
  | some v4 => v4.head? = some 0 ∨ v4.head? = some 127
  | none =>
    match ip.to16 with
    | some v6 => v6 = List.replicate 16 0 ∨ v6 = List.replicate 15 0 ++ [1]
    | none => false

/-- The element key of an address in a set, if the set holds its version. -/
def elementKeyOf (ref : SetRef) (ip : NetIP) : Option (List UInt8) :=
  match ref.ipVersion with
  | .v4 => ip.to4
  | .v6 => if ip.to4 = none then ip.to16 else none

def Result.requested (result : Result) : Int := result.ttl.toNat * second

/-- The timeout of a result: its TTL, and a second where that is zero. -/
def Result.timeout (result : Result) : Int :=
  if result.requested ≤ 0 then second else result.requested

def emitUpdates (targetsByTag : GoMap String (List SetRef)) (result : Result) : List Update :=
  let refs := (targetsByTag.lookup result.serverTag).getD []
  result.ips.flatMap fun ip =>
    if unsafeDNSResultIP ip then []
    else refs.filterMap fun ref =>
      (elementKeyOf ref ip).map fun key => ⟨ref, key, result.timeout⟩

def Update.mapKey (u : Update) : List UInt8 :=
  u.set.string ++ ascii "/" ++ u.set.versionString ++ ascii "/" ++ u.key

abbrev Known := GoMap (List UInt8) Int

/-- Whether an update is dropped because of an earlier write. -/
def suppressed (known : Known) (now : Int) (u : Update) : Bool :=
  (known.lookup u.mapKey).any fun expiry => now < expiry

structure Collected where
  unique : List Update := []
  indices : GoMap (List UInt8) Nat := ∅
  keys : List (List UInt8) := []

def raise (timeout : Int) (v : Update) : Update :=
  if timeout > v.timeout then { v with timeout := timeout } else v

def Collected.add (known : Known) (now : Int) (c : Collected) (u : Update) : Collected :=
  if suppressed known now u then c
  else
    match c.indices.lookup u.mapKey with
    | some index =>
      { c with unique := c.unique.modify index (raise u.timeout) }
    | none =>
      { unique := c.unique ++ [u]
        indices := c.indices.insert u.mapKey c.unique.length
        keys := c.keys ++ [u.mapKey] }

def collect (known : Known) (now : Int) (raw : List Update) : Collected :=
  raw.foldl (Collected.add known now) {}

abbrev Element := SetRef × List UInt8

def Update.element (u : Update) : Element := (u.set, u.key)

/-- The kernel sets: when each element expires. -/
abbrev Kernel := GoMap Element Int

/-- `backend.Add` at time `now`, when every element is accepted: an element gets, or gets again,
its timeout. -/
def Kernel.add (kernel : Kernel) (now : Int) (updates : List Update) : Kernel :=
  kernel.insertAll (updates.map fun u => (u.element, now + u.timeout))

def maxKnownElements : Nat := 65536

/-- The end of `flush`: a `known` that has grown too large loses its expired keys, and then any
keys until it is small enough. -/
def boundKnown (ord : RangeOrder) (now : Int) (known : Known) : Known :=
  if known.entries.length > maxKnownElements then
    let live := known.entries.foldl (fun k e => if now < e.2 then k else k.erase e.1) known
    (ord.order 0 live.entries).foldl
      (fun k e => if k.entries.length ≤ maxKnownElements then k else k.erase e.1) live
  else known

/-- `flush`, when every element is accepted. -/
def flush (ord : RangeOrder) (now : Int) (raw : List Update) (known : Known) (kernel : Kernel) :
    Known × Kernel :=
  let c := collect known now raw
  if c.unique.isEmpty then (known, kernel)
  else
    (boundKnown ord now
        (known.insertAll (c.keys.zip (c.unique.map fun u => now + u.timeout))),
      kernel.add now c.unique)

/-!
## What `flush` writes

The element of an update that is not suppressed gets the largest timeout that the batch asks for,
and every other element is left alone.
-/

open List

variable {known : Known} {now : Int}

lemma notMem_of_isIdentifierByte {l : List UInt8} {b : UInt8} (hl : l.all isIdentifierByte = true)
    (hb : isIdentifierByte b = false) : b ∉ l := by
  intro hmem
  rw [all_eq_true.mp hl b hmem] at hb
  cases hb

lemma TableFamily.bytes_injective : Function.Injective TableFamily.bytes := by
  intro a b h
  cases a <;> cases b <;> first | rfl | exact absurd h (by decide)

lemma Update.mapKey_eq (u : Update) :
    u.mapKey = u.set.family.bytes ++ 64 :: (u.set.table.bytes ++ 64 :: (u.set.name.bytes ++
      47 :: (u.set.versionString ++ 47 :: u.key))) := by
  have hat : ascii "@" = [64] := by decide
  have hslash : ascii "/" = [47] := by decide
  simp [mapKey, SetRef.string, hat, hslash]

variable {u : Update}

/-- The separators do not occur in what they separate, so a map key determines its element. -/
lemma Update.mapKey_eq_iff {v : Update} : u.mapKey = v.mapKey ↔ u.element = v.element := by
  constructor
  · intro h
    obtain ⟨⟨fam, table, name, ver, hc⟩, key, timeout⟩ := u
    obtain ⟨⟨fam', table', name', ver', hc'⟩, key', timeout'⟩ := v
    rw [mapKey_eq, mapKey_eq] at h
    have hfam : ∀ f : TableFamily, 64 ∉ f.bytes := by
      intro f
      cases f <;> decide
    have hname : ∀ (n : Identifier) b, isIdentifierByte b = false → b ∉ n.bytes := by
      intro n b hb
      exact notMem_of_isIdentifierByte n.valid.2.2 hb
    obtain ⟨h₁, h⟩ := append_sep_inj (hfam fam) (hfam fam') h
    obtain ⟨h₂, h⟩ := append_sep_inj (hname table 64 (by decide)) (hname table' 64 (by decide)) h
    obtain ⟨h₃, h⟩ := append_sep_inj (hname name 47 (by decide)) (hname name' 47 (by decide)) h
    cases TableFamily.bytes_injective h₁
    cases table
    cases table'
    cases h₂
    cases name
    cases name'
    cases h₃
    have hver : ver = ver' ∧ key = key' := by
      cases ver <;> cases ver' <;> simp_all [SetRef.versionString, ascii]
    obtain ⟨rfl, rfl⟩ := hver
    rfl
  · intro h
    have hset : u.set = v.set := congrArg Prod.fst h
    have hkey : u.key = v.key := congrArg Prod.snd h
    rw [mapKey, mapKey, hset, hkey]

lemma suppressed_congr {v : Update} (h : u.element = v.element) :
    suppressed known now u = suppressed known now v := by
  rw [suppressed, suppressed, Update.mapKey_eq_iff.mpr h]

/-! ### The first loop -/

/-- What the loop has collected from the updates so far: one update for each element that is not
suppressed, with the largest timeout. -/
structure Collected.Of (known : Known) (now : Int) (done : List Update) (c : Collected) : Prop where
  keys : c.keys = c.unique.map Update.mapKey
  nodup : (c.unique.map Update.mapKey).Nodup
  indices : ∀ k i, c.indices.lookup k = some i ↔ (c.unique.map Update.mapKey)[i]? = some k
  complete : ∀ u ∈ done, suppressed known now u = false →
    ∃ v ∈ c.unique, v.element = u.element ∧ u.timeout ≤ v.timeout
  sound : ∀ v ∈ c.unique, ∃ u ∈ done, suppressed known now u = false ∧
    u.element = v.element ∧ u.timeout = v.timeout

lemma Collected.of_nil (known : Known) (now : Int) : Collected.Of known now [] {} := by
  constructor <;> simp

lemma raise_mapKey (timeout : Int) (v : Update) : (raise timeout v).mapKey = v.mapKey := by
  simp only [raise]
  split_ifs <;> rfl

lemma raise_element (timeout : Int) (v : Update) : (raise timeout v).element = v.element :=
  Update.mapKey_eq_iff.mp (raise_mapKey timeout v)

lemma raise_timeout (timeout : Int) (v : Update) :
    (raise timeout v).timeout = max timeout v.timeout := by
  simp only [raise]
  split_ifs with h
  · exact (max_eq_left h.le).symm
  · exact (max_eq_right (not_lt.mp h)).symm

lemma mem_modify_iff {α : Type*} {l : List α} {f : α → α} {i : Nat} {v : α} :
    v ∈ l.modify i f ↔ ∃ j w, l[j]? = some w ∧ v = if i = j then f w else w := by
  rw [mem_iff_getElem?]
  constructor
  · rintro ⟨j, hj⟩
    rw [getElem?_modify] at hj
    obtain ⟨w, hw, rfl⟩ := Option.map_eq_some_iff.mp hj
    exact ⟨j, w, hw, rfl⟩
  · rintro ⟨j, w, hw, rfl⟩
    refine ⟨j, ?_⟩
    rw [getElem?_modify, hw]
    rfl

lemma map_mapKey_modify (l : List Update) (i : Nat) (timeout : Int) :
    (l.modify i (raise timeout)).map Update.mapKey = l.map Update.mapKey := by
  apply ext_getElem?
  intro j
  rw [getElem?_map, getElem?_map, getElem?_modify]
  cases l[j]? with
  | none => rfl
  | some v =>
    simp only [Option.map_eq_map, Option.map_some]
    split_ifs
    · rw [raise_mapKey]
    · rfl

variable {done : List Update} {c : Collected}

lemma Collected.Of.skip (h : c.Of known now done)
    (hu : suppressed known now u = true) : c.Of known now (done ++ [u]) where
  keys := h.keys
  nodup := h.nodup
  indices := h.indices
  complete := by
    intro u' hu' hsup
    rcases mem_append.mp hu' with hu' | hu'
    · exact h.complete u' hu' hsup
    · rw [mem_singleton.mp hu', hu] at hsup
      cases hsup
  sound := by
    intro v hv
    obtain ⟨u', hu', hrest⟩ := h.sound v hv
    exact ⟨u', mem_append_left _ hu', hrest⟩

lemma Collected.Of.append (h : c.Of known now done) (hu : suppressed known now u = false)
    (hnew : c.indices.lookup u.mapKey = none) :
    Collected.Of known now (done ++ [u]) { unique := c.unique ++ [u]
                                           indices := c.indices.insert u.mapKey c.unique.length
                                           keys := c.keys ++ [u.mapKey] } := by
  have hnot : u.mapKey ∉ c.unique.map Update.mapKey := by
    intro hmem
    obtain ⟨i, hi⟩ := mem_iff_getElem?.mp hmem
    rw [(h.indices _ _).mpr hi] at hnew
    cases hnew
  constructor
  · simp [h.keys]
  · rw [map_append, nodup_append]
    refine ⟨h.nodup, nodup_singleton _, ?_⟩
    intro a ha b hb hab
    rw [map_singleton, mem_singleton] at hb
    exact hnot (hb ▸ hab ▸ ha)
  · intro k i
    rw [GoMap.lookup_insert_eq, map_append, map_singleton, getElem?_concat_iff, length_map]
    by_cases hk : k = u.mapKey
    · -- an earlier place holds an earlier key
      subst hk
      have hno : (c.unique.map Update.mapKey)[i]? ≠ some u.mapKey :=
        fun hi => hnot (mem_of_getElem? hi)
      simp only [if_true, hno, false_or, and_true, Option.some.injEq]
      exact eq_comm
    · simp only [hk, and_false, or_false]
      exact h.indices k i
  · intro u' hu' hsup
    rcases mem_append.mp hu' with hu' | hu'
    · obtain ⟨v, hv, hrest⟩ := h.complete u' hu' hsup
      exact ⟨v, mem_append_left _ hv, hrest⟩
    · rw [mem_singleton.mp hu']
      exact ⟨u, by simp, rfl, le_refl _⟩
  · intro v hv
    rcases mem_append.mp hv with hv | hv
    · obtain ⟨u', hu', hrest⟩ := h.sound v hv
      exact ⟨u', mem_append_left _ hu', hrest⟩
    · rw [mem_singleton.mp hv]
      exact ⟨u, by simp, hu, rfl, rfl⟩

lemma Collected.Of.merge (h : c.Of known now done) (hu : suppressed known now u = false)
    {index : Nat} (hindex : c.indices.lookup u.mapKey = some index) :
    Collected.Of known now (done ++ [u])
      { c with unique := c.unique.modify index (raise u.timeout) } := by
  -- the collected update of the element
  obtain ⟨w, hw, hwkey⟩ : ∃ w, c.unique[index]? = some w ∧ w.mapKey = u.mapKey := by
    have hkey := (h.indices _ _).mp hindex
    rw [getElem?_map] at hkey
    exact Option.map_eq_some_iff.mp hkey
  have hwel : w.element = u.element := Update.mapKey_eq_iff.mp hwkey
  constructor
  · rw [map_mapKey_modify]
    exact h.keys
  · rw [map_mapKey_modify]
    exact h.nodup
  · intro k i
    rw [map_mapKey_modify]
    exact h.indices k i
  · intro u' hu' hsup
    rcases mem_append.mp hu' with hu' | hu'
    · obtain ⟨v, hv, hel, hle⟩ := h.complete u' hu' hsup
      obtain ⟨j, hj⟩ := mem_iff_getElem?.mp hv
      refine ⟨_, mem_modify_iff.mpr ⟨j, v, hj, rfl⟩, ?_⟩
      split_ifs
      · rw [raise_element, raise_timeout]
        exact ⟨hel, le_max_of_le_right hle⟩
      · exact ⟨hel, hle⟩
    · rw [mem_singleton.mp hu']
      refine ⟨_, mem_modify_iff.mpr ⟨index, w, hw, rfl⟩, ?_⟩
      rw [if_pos rfl, raise_element, raise_timeout]
      exact ⟨hwel, le_max_left _ _⟩
  · intro v hv
    obtain ⟨j, x, hx, rfl⟩ := mem_modify_iff.mp hv
    obtain ⟨u', hu', hsup, hel, heq⟩ := h.sound x (mem_of_getElem? hx)
    split_ifs with hj
    · subst hj
      rw [hw] at hx
      cases hx
      rw [raise_element, raise_timeout]
      rcases le_total u.timeout w.timeout with hle | hle
      · exact ⟨u', mem_append_left _ hu', hsup, hel, by rw [max_eq_right hle, heq]⟩
      · exact ⟨u, by simp, hu, hwel.symm, by rw [max_eq_left hle]⟩
    · exact ⟨u', mem_append_left _ hu', hsup, hel, heq⟩

/-- The first loop of `flush` collects the whole batch. -/
lemma collect_of (known : Known) (now : Int) (raw : List Update) :
    (collect known now raw).Of known now raw := by
  induction raw using reverseRecOn with
  | nil => exact Collected.of_nil known now
  | append_singleton raw u ih =>
    have hfold : collect known now (raw ++ [u]) = (collect known now raw).add known now u := by
      simp [collect]
    rw [hfold, Collected.add]
    cases hu : suppressed known now u with
    | true => exact ih.skip hu
    | false =>
      simp only [Bool.false_eq_true, if_false]
      split
      · next index hindex => exact ih.merge hu hindex
      · next hnew => exact ih.append hu hnew

lemma nodup_elements (h : c.Of known now done) : (c.unique.map Update.element).Nodup := by
  have hkey := h.nodup
  rw [nodup_map_iff_inj_on (h.nodup.of_map _)] at hkey ⊢
  intro u hu v hv huv
  exact hkey u hu v hv (Update.mapKey_eq_iff.mpr huv)

variable {raw : List Update} {kernel : Kernel}

def flushKernel (known : Known) (now : Int) (raw : List Update) (kernel : Kernel) : Kernel :=
  kernel.add now (collect known now raw).unique

lemma flush_snd (ord : RangeOrder) : (flush ord now raw known kernel).2 =
    flushKernel known now raw kernel := by
  simp only [flush, flushKernel]
  split_ifs with hempty
  · rw [List.isEmpty_iff.mp hempty]
    rfl
  · rfl

lemma map_fst_deadlines (now : Int) (updates : List Update) :
    (updates.map fun u => (u.element, now + u.timeout)).map Prod.fst =
      updates.map Update.element := by
  rw [map_map]
  rfl

/-- An element of the batch that is not suppressed expires after the largest timeout that the
batch asks for. -/
lemma lookup_flushKernel_of_written (kernel : Kernel) (hu : u ∈ raw)
    (hsup : suppressed known now u = false) :
    ∃ v ∈ raw, v.element = u.element ∧ suppressed known now v = false ∧
      (∀ u' ∈ raw, u'.element = u.element → u'.timeout ≤ v.timeout) ∧
      (flushKernel known now raw kernel).lookup u.element = some (now + v.timeout) := by
  have hc := collect_of known now raw
  obtain ⟨w, hw, hwel, -⟩ := hc.complete u hu hsup
  obtain ⟨v, hv, hvsup, hvel, hvt⟩ := hc.sound w hw
  refine ⟨v, hv, hvel.trans hwel, hvsup, ?_, ?_⟩
  · intro u' hu' hel
    obtain ⟨w', hw', hwel', hle⟩ := hc.complete u' hu' ((suppressed_congr hel).trans hsup)
    have hww : w' = w := inj_on_of_nodup_map (nodup_elements hc) hw' hw
      (hwel'.trans (hel.trans hwel.symm))
    rw [hvt, ← hww]
    exact hle
  · rw [hvt, ← hwel]
    apply GoMap.lookup_insertAll_of_mem
    · rw [map_fst_deadlines]
      exact nodup_elements hc
    · exact mem_map_of_mem hw

lemma lookup_flushKernel_of_not_written (kernel : Kernel) {el : Element}
    (h : ∀ u ∈ raw, u.element = el → suppressed known now u = true) :
    (flushKernel known now raw kernel).lookup el = kernel.lookup el := by
  apply GoMap.lookup_insertAll_of_notMem
  rw [map_fst_deadlines]
  intro hmem
  obtain ⟨v, hv, hvel⟩ := mem_map.mp hmem
  obtain ⟨u, hu, hsup, huel, -⟩ := (collect_of known now raw).sound v hv
  rw [h u hu (huel.trans hvel)] at hsup
  cases hsup

/-!
## How long an address stays in its set

Every DNS result asks for its address to stay in the set for the TTL from the moment it is
flushed. A batch breaks this in two ways: an update is dropped although it asks for more than the
earlier write gave, or an element is written again with less than an earlier result asked for.
-/

open List Option

structure Queued where
  result : Result
  update : Update

structure Processed extends Queued where
  time : Int

/-- The writer goroutine, the kernel sets and the history of flushed updates. -/
structure State where
  pending : List Queued
  known : Known
  knownGeneration : Nat
  probeGeneration : Nat
  kernel : Kernel
  clock : Int
  processed : List Processed

def State.init (clock : Int) : State where
  pending := []
  known := ∅
  knownGeneration := 0
  probeGeneration := 0
  kernel := ∅
  clock := clock
  processed := []

inductive Step where
  | emit (result : Result)
  | probe
  /-- Some time after the last flush, the next `count` updates are flushed. -/
  | flush (count : Nat) (wait : Nat) (ord : RangeOrder)

/-- `known` at the next flush: a successful probe since the last one has cleared it. -/
def State.currentKnown (s : State) : Known :=
  if s.probeGeneration ≠ s.knownGeneration then ∅ else s.known

def State.batch (s : State) (count : Nat) : List Update :=
  (s.pending.take count).map Queued.update

def step (targetsByTag : GoMap String (List SetRef)) (s : State) : Step → Option State
  | .emit result =>
    some { s with
      pending := s.pending ++ (emitUpdates targetsByTag result).map fun u => ⟨result, u⟩ }
  | .probe => some { s with probeGeneration := s.probeGeneration + 1 }
  | .flush count wait ord =>
    let now := s.clock + wait
    let (known, kernel) := flush ord now (s.batch count) s.currentKnown s.kernel
    some { s with
      pending := s.pending.drop count
      known := known
      knownGeneration := s.probeGeneration
      kernel := kernel
      clock := now
      processed := s.processed ++ (s.pending.take count).map fun q => ⟨q, now⟩ }

/-- The element of a flushed update stays in its set for the TTL of the result. -/
def State.Covered (s : State) : Prop :=
  ∀ p ∈ s.processed, ∃ d ∈ s.kernel.lookup p.update.element, p.time + p.result.requested ≤ d

/-- A batch asks for no more than it gets: an update that is dropped asks for no more than its
element has left, and an element that is written again has no more left than the batch gives. -/
def Respects (s : State) : Step → Prop
  | .flush count wait _ =>
    ∀ q ∈ s.pending.take count,
      if suppressed s.currentKnown (s.clock + wait) q.update then
        ∃ d ∈ s.kernel.lookup q.update.element, s.clock + wait + q.result.requested ≤ d
      else
        ∀ d ∈ s.kernel.lookup q.update.element, ∃ u ∈ s.batch count,
          u.element = q.update.element ∧ d ≤ s.clock + wait + u.timeout
  | _ => True

/-! ### What holds in every run -/

/-- The timeouts of the waiting updates are those of their results, and each deadline in the
kernel is what some result asked for, or at most a second away. -/
structure Inv (s : State) : Prop where
  timeout : ∀ q ∈ s.pending, q.update.timeout = q.result.timeout
  deadline : ∀ el, ∀ d ∈ s.kernel.lookup el, ∃ p ∈ s.processed, p.update.element = el ∧
    (p.time + p.result.requested = d ∨ d ≤ s.clock + second)

/-- A result asks for a whole number of seconds. -/
lemma Result.timeout_cases (result : Result) :
    result.timeout = result.requested ∧ second ≤ result.requested ∨
      result.timeout = second ∧ result.requested = 0 := by
  simp only [timeout, requested, second]
  split_ifs <;> omega

lemma Result.requested_le_timeout (result : Result) : result.requested ≤ result.timeout := by
  have hsec : second = 1000000000 := rfl
  rcases result.timeout_cases with h | h <;> omega

lemma Result.second_le_timeout (result : Result) : second ≤ result.timeout := by
  rcases result.timeout_cases with h | h <;> omega

lemma timeout_of_mem_emitUpdates {targetsByTag : GoMap String (List SetRef)} {result : Result}
    {u : Update} (h : u ∈ emitUpdates targetsByTag result) : u.timeout = result.timeout := by
  simp only [emitUpdates, mem_flatMap] at h
  obtain ⟨ip, -, hu⟩ := h
  split_ifs at hu
  · cases hu
  · obtain ⟨ref, -, href⟩ := mem_filterMap.mp hu
    obtain ⟨key, -, rfl⟩ := map_eq_some_iff.mp href
    rfl

lemma inv_init (clock : Int) : Inv (State.init clock) := by
  constructor <;> simp [State.init]

section Flush

variable {s : State} {count wait : Nat}

lemma mem_batch_iff {u : Update} :
    u ∈ s.batch count ↔ ∃ q ∈ s.pending.take count, q.update = u := by
  rw [State.batch, List.mem_map]

def State.flushed (s : State) (count wait : Nat) (known : Known) : State where
  pending := s.pending.drop count
  known := known
  knownGeneration := s.probeGeneration
  probeGeneration := s.probeGeneration
  kernel := flushKernel s.currentKnown (s.clock + wait) (s.batch count) s.kernel
  clock := s.clock + wait
  processed := s.processed ++ (s.pending.take count).map fun q => ⟨q, s.clock + wait⟩

lemma step_flush (targetsByTag : GoMap String (List SetRef)) (s : State) (count wait : Nat)
    (ord : RangeOrder) : ∃ known, step targetsByTag s (.flush count wait ord) =
      some (s.flushed count wait known) := by
  refine ⟨(flush ord (s.clock + wait) (s.batch count) s.currentKnown s.kernel).1, ?_⟩
  simp only [step, State.flushed, flush_snd]

/-- A batch writes an element, with the largest timeout it has for it, or leaves it alone. -/
lemma lookup_flushed (s : State) (count wait : Nat) (known : Known) (el : Element) :
    (∃ q ∈ s.pending.take count, q.update.element = el ∧
        suppressed s.currentKnown (s.clock + wait) q.update = false ∧
        (∀ u ∈ s.batch count, u.element = el → u.timeout ≤ q.update.timeout) ∧
        (s.flushed count wait known).kernel.lookup el = some (s.clock + wait + q.update.timeout)) ∨
      ((∀ u ∈ s.batch count, u.element = el →
          suppressed s.currentKnown (s.clock + wait) u = true) ∧
        (s.flushed count wait known).kernel.lookup el = s.kernel.lookup el) := by
  by_cases hw : ∀ u ∈ s.batch count, u.element = el →
      suppressed s.currentKnown (s.clock + wait) u = true
  · exact .inr ⟨hw, lookup_flushKernel_of_not_written s.kernel hw⟩
  · push Not at hw
    obtain ⟨u, hu, rfl, hsup⟩ := hw
    obtain ⟨v, hv, hvel, hvsup, hmax, hlookup⟩ :=
      lookup_flushKernel_of_written s.kernel hu (Bool.eq_false_of_not_eq_true hsup)
    obtain ⟨q, hq, rfl⟩ := mem_batch_iff.mp hv
    exact .inl ⟨q, hq, hvel, hvsup, hmax, hlookup⟩

lemma mem_processed_flushed {known : Known} {p : Processed} :
    p ∈ (s.flushed count wait known).processed ↔
      p ∈ s.processed ∨ ∃ q ∈ s.pending.take count, ⟨q, s.clock + wait⟩ = p := by
  rw [State.flushed, mem_append, List.mem_map]

lemma Inv.flushed (h : Inv s) (known : Known) : Inv (s.flushed count wait known) where
  timeout := by
    intro q hq
    exact h.timeout q (mem_of_mem_drop hq)
  deadline := by
    intro el d hd
    have hclock : (s.flushed count wait known).clock = s.clock + wait := rfl
    rcases lookup_flushed s count wait known el with ⟨q, hq, hel, -, -, hlookup⟩ | ⟨-, hlookup⟩
    · rw [hlookup, mem_some_iff] at hd
      refine ⟨⟨q, s.clock + wait⟩, mem_processed_flushed.mpr (.inr ⟨q, hq, rfl⟩), hel, ?_⟩
      rw [← hd, hclock, h.timeout q (mem_of_mem_take hq)]
      rcases q.result.timeout_cases with hc | hc
      · exact .inl (by rw [hc.1])
      · exact .inr (by rw [hc.1])
    · rw [hlookup] at hd
      obtain ⟨p, hp, hel, hcase⟩ := h.deadline el d hd
      refine ⟨p, mem_processed_flushed.mpr (.inl hp), hel, hcase.imp_right ?_⟩
      intro hle
      omega

/-- A batch that respects what was asked for keeps it. -/
lemma Inv.covered_flushed (h : Inv s) (hcov : s.Covered) {ord : RangeOrder}
    (hg : Respects s (.flush count wait ord)) (known : Known) :
    (s.flushed count wait known).Covered := by
  intro p hp
  rcases lookup_flushed s count wait known p.update.element with
    ⟨v, hv, hvel, hvsup, hmax, hlookup⟩ | ⟨hsup, hlookup⟩ <;> rw [hlookup]
  · refine ⟨_, rfl, ?_⟩
    rcases mem_processed_flushed.mp hp with hp | ⟨q, hq, rfl⟩
    · -- an earlier result: what its element has left is at most what the batch gives
      obtain ⟨d, hd, hle⟩ := hcov p hp
      have hgv := hg v hv
      rw [if_neg (by simp [hvsup]), hvel] at hgv
      obtain ⟨u, hu, huel, hdu⟩ := hgv d hd
      have := hmax u hu huel
      omega
    · have hqmax := hmax q.update (mem_batch_iff.mpr ⟨q, hq, rfl⟩) rfl
      rw [h.timeout q (mem_of_mem_take hq)] at hqmax
      have := q.result.requested_le_timeout
      show s.clock + wait + q.result.requested ≤ _
      omega
  · rcases mem_processed_flushed.mp hp with hp | ⟨q, hq, rfl⟩
    · exact hcov p hp
    · have hgq := hg q hq
      rwa [if_pos (hsup q.update (mem_batch_iff.mpr ⟨q, hq, rfl⟩) rfl)] at hgq

/-- A batch that does not fails one of the results. -/
lemma Inv.respects_of_covered (h : Inv s) {ord : RangeOrder} {known : Known}
    (hcov : (s.flushed count wait known).Covered) : Respects s (.flush count wait ord) := by
  intro q hq
  have hmem : q.update ∈ s.batch count := mem_batch_iff.mpr ⟨q, hq, rfl⟩
  rcases lookup_flushed s count wait known q.update.element with
    ⟨v, hv, hvel, hvsup, -, hlookup⟩ | ⟨hsup, hlookup⟩
  · rw [if_neg (by simp [suppressed_congr hvel.symm, hvsup])]
    intro d hd
    refine ⟨v.update, mem_batch_iff.mpr ⟨v, hv, rfl⟩, hvel, ?_⟩
    -- the deadline is what an earlier result asked for, or too close to matter
    obtain ⟨p, hp, hpel, hcase⟩ := h.deadline _ d hd
    rcases hcase with hcase | hcase
    · obtain ⟨d', hd', hle⟩ := hcov p (mem_processed_flushed.mpr (.inl hp))
      rw [hpel, hlookup, mem_some_iff] at hd'
      omega
    · have := v.result.second_le_timeout
      rw [h.timeout v (mem_of_mem_take hv)]
      omega
  · rw [if_pos (hsup q.update hmem rfl), ← hlookup]
    exact hcov _ (mem_processed_flushed.mpr (.inr ⟨q, hq, rfl⟩))

end Flush

/-! ### Runs -/

section Runs

variable {targetsByTag : GoMap String (List SetRef)}

lemma Inv.step {s s' : State} {e : Step} (h : Inv s) (hs : step targetsByTag s e = some s') :
    Inv s' := by
  cases e with
  | emit result =>
    cases hs
    refine ⟨?_, h.deadline⟩
    intro q hq
    rcases mem_append.mp hq with hq | hq
    · exact h.timeout q hq
    · obtain ⟨u, hu, rfl⟩ := List.mem_map.mp hq
      exact timeout_of_mem_emitUpdates hu
  | probe =>
    cases hs
    exact ⟨h.timeout, h.deadline⟩
  | flush count wait ord =>
    obtain ⟨known, hk⟩ := step_flush targetsByTag s count wait ord
    cases hk.symm.trans hs
    exact h.flushed known

/-- A step keeps what was asked for exactly when it respects it. -/
lemma covered_step_iff {s s' : State} {e : Step} (h : Inv s) (hcov : s.Covered)
    (hs : step targetsByTag s e = some s') : s'.Covered ↔ Respects s e := by
  cases e with
  | emit result | probe =>
    cases hs
    exact iff_of_true hcov trivial
  | flush count wait ord =>
    obtain ⟨known, hk⟩ := step_flush targetsByTag s count wait ord
    cases hk.symm.trans hs
    constructor
    · exact h.respects_of_covered
    · intro hg
      exact h.covered_flushed hcov hg known

end Runs

/-- In a run every result that was flushed keeps its address in the set for its TTL, in every
state on the way, exactly when every batch respects what was asked for. -/
theorem covered_iff_respects (targetsByTag : GoMap String (List SetRef)) (clock : Int)
    (es : List Step) (s : State) (hr : run (step targetsByTag) (State.init clock) es = some s) :
    (∀ fs gs, es = fs ++ gs → ∀ u, run (step targetsByTag) (State.init clock) fs = some u →
        u.Covered) ↔ Guarded (step targetsByTag) Respects (State.init clock) es := by
  refine guarded_iff (J := fun _ => Inv) (I := State.Covered) ?_ ?_ (inv_init clock) ?_ hr
  · intro _ s e s' h hs
    exact h.step hs
  · intro _ s e s' h hcov hs
    exact covered_step_iff h hcov hs
  · intro p hp
    cases hp

def exampleSet : SetRef where
  family := .inet
  table := ⟨ascii "t", by decide⟩
  name := ⟨ascii "s", by decide⟩
  ipVersion := .v4
  compatible := by decide

def exampleTargets : GoMap String (List SetRef) :=
  (∅ : GoMap String (List SetRef)).insert "dns" [exampleSet]

def exampleResult (ttl : UInt32) : Result where
  ips := [[10, 0, 0, 1]]
  ttl := ttl
  serverTag := "dns"

/-- A second answer ten seconds after the first is flushed. -/
def twoAnswers (ttl₁ ttl₂ : UInt32) : List Step :=
  [.emit (exampleResult ttl₁), .flush 1 0 .stored,
    .emit (exampleResult ttl₂), .flush 1 10000000000 .stored]

theorem covered_iff_respects_twoAnswers :
    ∃ s, run (step exampleTargets) (State.init 0) (twoAnswers 60 30) = some s ∧
      ((∀ fs gs, twoAnswers 60 30 = fs ++ gs →
          ∀ u, run (step exampleTargets) (State.init 0) fs = some u → u.Covered) ↔
        Guarded (step exampleTargets) Respects (State.init 0) (twoAnswers 60 30)) :=
  ⟨_, rfl, covered_iff_respects exampleTargets 0 (twoAnswers 60 30) _ rfl⟩

/-- An answer with a TTL of an hour is dropped while an answer with a TTL of a minute is known. -/
theorem not_covered_of_longer_ttl : ¬ ∀ (targetsByTag : GoMap String (List SetRef)) (clock : Int)
    (es : List Step) (s : State), run (step targetsByTag) (State.init clock) es = some s →
      s.Covered := by
  intro h
  obtain ⟨s, hr, ⟨p, hp, hel, htime⟩, hd⟩ : ∃ s,
      run (step exampleTargets) (State.init 0) (twoAnswers 60 3600) = some s ∧
      (∃ p ∈ s.processed, p.update.element = (exampleSet, [10, 0, 0, 1]) ∧
        p.time + p.result.requested = 3610 * second) ∧
      s.kernel.lookup (exampleSet, [10, 0, 0, 1]) = some (60 * second) :=
    ⟨_, rfl, by decide, by decide⟩
  obtain ⟨d, hmem, hle⟩ := h exampleTargets 0 _ s hr p hp
  rw [hel, hd, mem_some_iff] at hmem
  rw [htime, ← hmem] at hle
  exact absurd hle (by decide)

end BypassCore.DNSNFTSet
