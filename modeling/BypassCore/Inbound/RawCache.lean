import BypassCore.Lib.GoMap
import BypassCore.Lib.GoTime
import BypassCore.Lib.Runs
import BypassCore.Lib.LRU
import Mathlib.Algebra.Order.BigOperators.Group.List

/-!
# The cache of raw DNS responses

`app/inbound/dns_raw_cache.go`: responses by the bytes of their query after the transaction ID. A
map leads from a key to an element of a `container/list`, which holds the entry; the list is in the
order of use. Wire messages are parsed and written by `golang.org/x/net/dns/dnsmessage`, which
enters as a parameter.
-/

namespace BypassCore.Inbound

open Lib Function List GoTime LRU

/-- The parts of a `dnsmessage.Resource` that the cache reads, and the rest. -/
structure RawResource (β : Type) where
  type : UInt16
  ttl : UInt32
  /-- `MinTTL`, if the body is that of a SOA record. -/
  minTTL : Option UInt32
  rest : β

/-- The parts of a `dnsmessage.Message` that the cache reads or sets, and the rest. -/
structure RawMessage (β : Type) where
  id : UInt16
  recursionDesired : Bool
  checkingDisabled : Bool
  truncated : Bool
  rCode : UInt16
  questions : List β
  answers : List (RawResource β)
  authorities : List (RawResource β)
  additionals : List (RawResource β)
  rest : β

/-- `Message.Unpack` and `Message.Pack`. -/
structure RawCodec (β : Type) where
  unpack : List UInt8 → Option (RawMessage β)
  pack : RawMessage β → Option (List UInt8)

variable {β : Type}

def typeOPT : UInt16 := 41

/-- One round of the loop of `rawResponseTTL`: the least TTL so far, if there is one. -/
def visitTTL (found : Option UInt32) (r : RawResource β) : Option UInt32 :=
  if r.type = typeOPT then found
  else
    let ttl := match r.minTTL with
      | some minTTL => if minTTL < r.ttl then minTTL else r.ttl
      | none => r.ttl
    let least := found.getD 0xffffffff
    some (if ttl < least then ttl else least)

def rawResponseTTL (m : RawMessage β) : Option UInt32 :=
  (m.answers ++ m.authorities ++ m.additionals).foldl visitTTL none

def adjustTTL (elapsed remaining : UInt32) (r : RawResource β) : RawResource β :=
  if r.type = typeOPT then r
  else
    let ttl := if elapsed < r.ttl then r.ttl - elapsed else 0
    { r with ttl := if remaining < ttl then remaining else ttl }

/-! ### The cache -/

/-- `dnsRawCacheEntry`. Times are in nanoseconds. -/
structure RawCacheEntry where
  key : List UInt8
  response : List UInt8
  stored : ℤ
  expires : ℤ
  size : ℕ
deriving Inhabited

/-- `dnsRawCache`. Elements of the list are numbered. -/
structure RawCache where
  max : ℤ
  maxTTL : ℤ
  maxBytes : ℤ
  bytes : ℤ
  entries : GoMap (List UInt8) ℕ
  /-- The elements of the list from its front to its back. -/
  lru : List ℕ
  value : ℕ → RawCacheEntry
  /-- The elements from this one on are not allocated. -/
  next : ℕ

def defaultDNSRawCacheEntries : ℤ := 4096

def defaultDNSRawCacheMaxTTL : ℤ := 3600 * second

def defaultDNSRawCacheMaxBytes : ℤ := 16 * 1024 * 1024

def maximumDNSRawCacheMaxBytes : ℤ := 1024 * 1024 * 1024

def newDNSRawCacheWithLimit (entries maxTTLSeconds maxBytes : ℤ) :
    Except String (Option RawCache) :=
  if entries < 0 then .ok none
  else
    let entries := if entries = 0 then defaultDNSRawCacheEntries else entries
    if 65535 < entries then
      .error "DNS inbound: dnsRawCacheEntries must be between -1 and 65535"
    else
      let maxBytes := if maxBytes = 0 then defaultDNSRawCacheMaxBytes else maxBytes
      if maxBytes < 1024 ∨ maximumDNSRawCacheMaxBytes < maxBytes then
        .error "DNS inbound: dnsRawCacheMaxBytes must be between 1024 and 1073741824"
      else if maxTTLSeconds ≠ 0 ∧ (maxTTLSeconds < 1 ∨ 7 * 24 * 60 * 60 < maxTTLSeconds) then
        .error "DNS inbound: dnsRawCacheMaxTTLSeconds must be between 1 and 604800"
      else
        .ok <| some
          { max := entries
            maxTTL :=
              if maxTTLSeconds ≠ 0 then maxTTLSeconds * second else defaultDNSRawCacheMaxTTL
            maxBytes := maxBytes
            bytes := 0
            entries := ∅
            lru := []
            value := default
            next := 0 }

def rawCacheKey (query : List UInt8) : Option (List UInt8) :=
  if query.length < 12 then none else some (query.drop 2)

namespace RawCache

def moveToFront (c : RawCache) (element : ℕ) : RawCache :=
  if element ∈ c.lru then { c with lru := element :: c.lru.erase element } else c

/-- `removeElement`, of an element that is not nil. -/
def removeElement (c : RawCache) (element : ℕ) : RawCache :=
  { c with
    entries := c.entries.erase (c.value element).key
    bytes := c.bytes - (c.value element).size
    lru := c.lru.erase element }

def answer (C : RawCodec β) (entry : RawCacheEntry) (query : List UInt8) (now : ℤ) :
    Option (List UInt8) := do
  let response ← C.unpack entry.response
  let request ← C.unpack query
  let elapsed := UInt32.ofInt ((sub now entry.stored).tdiv second)
  let remaining := UInt32.ofInt ((sub entry.expires now).tdiv second)
  C.pack
    { response with
      id := request.id
      recursionDesired := request.recursionDesired
      checkingDisabled := request.checkingDisabled
      questions := request.questions
      answers := response.answers.map (adjustTTL elapsed remaining)
      authorities := response.authorities.map (adjustTTL elapsed remaining)
      additionals := response.additionals.map (adjustTTL elapsed remaining) }

/-- `get`, with the state of the cache afterwards. -/
def get (C : RawCodec β) (c : RawCache) (query : List UInt8) (now : ℤ) :
    RawCache × Option (List UInt8) :=
  match rawCacheKey query with
  | none => (c, none)
  | some key =>
    match c.entries.lookup key with
    | none => (c, none)
    | some element =>
      if (c.value element).expires ≤ now then (c.removeElement element, none)
      else (c.moveToFront element, answer C (c.value element) query now)

/-- The checks of `put` before it takes the lock, and the entry that it stores. -/
def admits (C : RawCodec β) (c : RawCache) (query response : List UInt8) (now : ℤ) :
    Option RawCacheEntry := do
  guard (12 ≤ response.length)
  let key ← rawCacheKey query
  guard (query.take 2 = response.take 2)
  let message ← C.unpack response
  guard (message.truncated = false ∧ (message.rCode = 0 ∨ message.rCode = 3))
  let ttl ← rawResponseTTL message
  guard (ttl ≠ 0)
  let duration := (ttl.toNat : ℤ) * second
  let duration := if c.maxTTL < duration then c.maxTTL else duration
  let wire := 0 :: 0 :: response.drop 2
  let size := key.length + wire.length
  guard ((size : ℤ) ≤ c.maxBytes)
  some ⟨key, wire, now, now + duration, size⟩

/-- Puts an entry in the place of the one with its key, or adds it, at the front of the list. -/
def store (c : RawCache) (entry : RawCacheEntry) : RawCache :=
  match c.entries.lookup entry.key with
  | some old =>
    { c with
      bytes := c.bytes - (c.value old).size + entry.size
      value := update c.value old entry }.moveToFront old
  | none =>
    { c with
      lru := c.next :: c.lru
      value := update c.value c.next entry
      next := c.next + 1
      entries := c.entries.insert entry.key c.next
      bytes := c.bytes + entry.size }

/-- The eviction loop of `put`. It would go on for ever if the list were empty and a limit still
exceeded, since `removeElement(nil)` does nothing; the result is `none` then. -/
def evict (c : RawCache) : Option RawCache :=
  if c.max < c.entries.len ∨ c.maxBytes < c.bytes then
    match _h : c.lru.getLast? with
    | none => none
    | some back => evict (c.removeElement back)
  else some c
termination_by c.lru.length
decreasing_by
  have hmem := mem_of_getLast? _h
  simp only [removeElement, length_erase_of_mem hmem]
  exact Nat.sub_one_lt_of_lt (length_pos_of_mem hmem)

/-- `put`, with the state of the cache afterwards; `none` if it does not return. -/
def put (C : RawCodec β) (c : RawCache) (query response : List UInt8) (now : ℤ) :
    Option RawCache :=
  match c.admits C query response now with
  | none => some c
  | some entry => (c.store entry).evict

end RawCache

inductive RawCacheOp where
  | get (query : List UInt8) (now : ℤ)
  | put (query response : List UInt8) (now : ℤ)

/-- The cache after a call. Both methods return at once if it is nil. -/
def RawCacheOp.exec (C : RawCodec β) : Option RawCache → RawCacheOp → Option (Option RawCache)
  | none, _ => some none
  | some c, .get query now => some (some (c.get C query now).1)
  | some c, .put query response now => (c.put C query response now).map some

/-- The key that a call uses: that of a live entry which it finds, or of an entry it stores. -/
def RawCacheOp.used (C : RawCodec β) : Option RawCache → RawCacheOp → Option (List UInt8)
  | none, _ => none
  | some c, .get query now => do
    let key ← rawCacheKey query
    let element ← c.entries.lookup key
    if now < (c.value element).expires then some key else none
  | some c, .put query response now => (c.admits C query response now).map RawCacheEntry.key

/-- The keys that a sequence of calls uses, the last one first. -/
def rawCacheUses (C : RawCodec β) : Option RawCache → List RawCacheOp → List (List UInt8)
  | _, [] => []
  | c, op :: ops =>
    match op.exec C c with
    | none => []
    | some c' => rawCacheUses C c' ops ++ (op.used C c).toList

/-!
## The bounds of the raw cache

The map, the list and the byte counter stay in step. What the methods do is said in terms of the
entries in the order of the list: a use brings an entry to the front, and a stored entry pushes
the ones that no longer fit off the back.
-/

open List Option

namespace RawCache

def view (c : RawCache) : List RawCacheEntry := c.lru.map c.value

def find (c : RawCache) (key : List UInt8) : Option RawCacheEntry :=
  (c.entries.lookup key).map c.value

/-- The number and the total size of entries are within the limits. -/
def Fits (max maxBytes : ℤ) (l : List RawCacheEntry) : Prop :=
  (l.length : ℤ) ≤ max ∧ ((l.map RawCacheEntry.size).sum : ℤ) ≤ maxBytes

/-- The map, the list and the counter agree. -/
structure Inv (c : RawCache) : Prop where
  nodup : c.lru.Nodup
  allocated : ∀ element ∈ c.lru, element < c.next
  lookup_iff : ∀ key element,
    c.entries.lookup key = some element ↔ element ∈ c.lru ∧ (c.value element).key = key
  bytes_eq : c.bytes = ((c.view.map RawCacheEntry.size).sum : ℤ)

section Inv

variable {c : RawCache} {element element' : ℕ} {key : List UInt8} {entry : RawCacheEntry}

lemma Inv.eq_of_key_eq (h : Inv c) (he : element ∈ c.lru) (he' : element' ∈ c.lru)
    (hkey : (c.value element).key = (c.value element').key) : element = element' := by
  have hlookup := (h.lookup_iff _ element).mpr ⟨he, hkey⟩
  rw [(h.lookup_iff _ element').mpr ⟨he', rfl⟩] at hlookup
  exact (Option.some.inj hlookup).symm

lemma Inv.nodup_keys (h : Inv c) : (c.lru.map fun element => (c.value element).key).Nodup :=
  h.nodup.map_on fun _ he _ he' hkey => h.eq_of_key_eq he he' hkey

lemma Inv.len_entries (h : Inv c) : c.entries.len = c.lru.length := by
  have hperm : (c.lru.map fun element => (c.value element).key).Perm c.entries.keys := by
    rw [perm_ext_iff_of_nodup h.nodup_keys c.entries.keys_nodup]
    intro key
    rw [List.mem_map, ← AList.mem_keys, ← AList.lookup_isSome, isSome_iff_exists]
    exact exists_congr fun element => (h.lookup_iff key element).symm
  rw [GoMap.len, ← hperm.length_eq, length_map]

lemma Inv.find_eq_some_iff (h : Inv c) :
    c.find key = some entry ↔ entry ∈ c.view ∧ entry.key = key := by
  rw [find, map_eq_some_iff, view, List.mem_map]
  constructor
  · rintro ⟨element, hlookup, rfl⟩
    obtain ⟨hmem, hkey⟩ := (h.lookup_iff key element).mp hlookup
    exact ⟨⟨element, hmem, rfl⟩, hkey⟩
  · rintro ⟨⟨element, hmem, rfl⟩, hkey⟩
    exact ⟨element, (h.lookup_iff key element).mpr ⟨hmem, hkey⟩, rfl⟩

/-- The entries without that of an element are those with other keys. -/
lemma Inv.map_erase (h : Inv c) (he : element ∈ c.lru) :
    (c.lru.erase element).map c.value = forget RawCacheEntry.key (c.value element).key c.view := by
  rw [h.nodup.erase_eq_filter, forget, view, List.filter_map]
  congr 1
  apply filter_congr
  intro e hmem
  rw [comp_apply, Bool.eq_iff_iff, bne_iff_ne, decide_eq_true_iff]
  refine not_congr ⟨fun heq => by rw [heq], fun hkey => ?_⟩
  exact h.eq_of_key_eq hmem he hkey

lemma perm_view (he : element ∈ c.lru) :
    c.view.Perm (c.value element :: (c.lru.erase element).map c.value) :=
  (perm_cons_erase he).map c.value

lemma view_moveToFront (h : Inv c) (he : element ∈ c.lru) :
    (c.moveToFront element).view =
      c.value element :: forget RawCacheEntry.key (c.value element).key c.view := by
  rw [moveToFront, if_pos he, ← h.map_erase he]
  rfl

lemma Inv.moveToFront (h : Inv c) (he : element ∈ c.lru) : Inv (c.moveToFront element) := by
  rw [RawCache.moveToFront, if_pos he]
  have hperm : (element :: c.lru.erase element).Perm c.lru := (perm_cons_erase he).symm
  refine ⟨hperm.nodup_iff.mpr h.nodup, fun e hmem => h.allocated e (hperm.subset hmem), ?_, ?_⟩
  · intro key e
    rw [h.lookup_iff, hperm.mem_iff]
  · rw [h.bytes_eq]
    exact congrArg _ (((perm_view he).map _).sum_eq)

lemma view_removeElement (h : Inv c) (he : element ∈ c.lru) :
    (c.removeElement element).view = forget RawCacheEntry.key (c.value element).key c.view :=
  h.map_erase he

lemma Inv.removeElement (h : Inv c) (he : element ∈ c.lru) : Inv (c.removeElement element) := by
  refine ⟨h.nodup.erase element, fun e hmem => h.allocated e (mem_of_mem_erase hmem), ?_, ?_⟩
  · intro key e
    show (c.entries.erase _).lookup key = some e ↔ e ∈ c.lru.erase element ∧ _
    rw [GoMap.lookup_erase_eq, h.nodup.mem_erase_iff]
    split_ifs with hkey
    · refine ⟨fun hnone => (by cases hnone), fun ⟨⟨hne, hmem⟩, hk⟩ => ?_⟩
      exact absurd (h.eq_of_key_eq hmem he (hk.trans hkey)) hne
    · rw [h.lookup_iff]
      refine ⟨fun ⟨hmem, hk⟩ => ⟨⟨fun heq => hkey ?_, hmem⟩, hk⟩, fun ⟨⟨_, hmem⟩, hk⟩ => ⟨hmem, hk⟩⟩
      rw [← hk, heq]
  · have hsum := ((perm_view he).map RawCacheEntry.size).sum_eq
    rw [map_cons, sum_cons] at hsum
    show c.bytes - _ = (((c.lru.erase element).map c.value).map RawCacheEntry.size).sum
    rw [h.bytes_eq, hsum]
    push_cast
    ring

lemma moveToFront_limits (c : RawCache) (element : ℕ) :
    (c.moveToFront element).max = c.max ∧ (c.moveToFront element).maxBytes = c.maxBytes := by
  rw [moveToFront]
  split_ifs <;> exact ⟨rfl, rfl⟩

/-! ### Storing an entry -/

lemma store_limits (c : RawCache) (entry : RawCacheEntry) :
    (c.store entry).max = c.max ∧ (c.store entry).maxBytes = c.maxBytes := by
  rw [store]
  split
  · exact moveToFront_limits _ _
  · exact ⟨rfl, rfl⟩

lemma map_update_of_notMem {l : List ℕ} (he : element ∉ l) (value : ℕ → RawCacheEntry) :
    l.map (update value element entry) = l.map value :=
  map_congr_left fun _ hmem => update_of_ne (ne_of_mem_of_not_mem hmem he) _ _

lemma Inv.replace (h : Inv c) (hold : c.entries.lookup entry.key = some element) :
    Inv { c with
      bytes := c.bytes - (c.value element).size + entry.size
      value := update c.value element entry } := by
  obtain ⟨he, hkey⟩ := (h.lookup_iff _ _).mp hold
  have hkeys : ∀ e, (update c.value element entry e).key = (c.value e).key := by
    intro e
    rcases eq_or_ne e element with rfl | hne
    · rw [update_self, hkey]
    · rw [update_of_ne hne]
  refine ⟨h.nodup, h.allocated, fun key e => ?_, ?_⟩
  · dsimp only
    rw [hkeys, h.lookup_iff]
  · have hsum := ((perm_view he).map RawCacheEntry.size).sum_eq
    have hsum' := (((perm_cons_erase he).map
      (update c.value element entry)).map RawCacheEntry.size).sum_eq
    rw [map_cons, map_update_of_notMem h.nodup.not_mem_erase, update_self] at hsum'
    rw [map_cons, sum_cons] at hsum hsum'
    dsimp only [view]
    rw [hsum', h.bytes_eq, hsum]
    push_cast
    ring

/-- A stored entry is at the front, in front of the entries with other keys. -/
lemma Inv.store (h : Inv c) (entry : RawCacheEntry) :
    Inv (c.store entry) ∧
      (c.store entry).view = entry :: forget RawCacheEntry.key entry.key c.view := by
  rw [RawCache.store]
  cases hold : c.entries.lookup entry.key with
  | some element =>
    have h' := h.replace hold
    obtain ⟨he, hkey⟩ := (h.lookup_iff _ _).mp hold
    refine ⟨h'.moveToFront he, ?_⟩
    rw [view_moveToFront h' he, ← h'.map_erase he, ← hkey, ← h.map_erase he]
    dsimp only
    rw [update_self, map_update_of_notMem h.nodup.not_mem_erase]
  | none =>
    have hfresh : c.next ∉ c.lru := fun hmem => Nat.lt_irrefl _ (h.allocated _ hmem)
    have hother : ∀ e ∈ c.lru, (c.value e).key ≠ entry.key := by
      intro e hmem hkey
      rw [(h.lookup_iff _ e).mpr ⟨hmem, hkey⟩] at hold
      cases hold
    have hview : c.lru.map (update c.value c.next entry) = c.view :=
      map_update_of_notMem hfresh c.value
    refine ⟨⟨nodup_cons.mpr ⟨hfresh, h.nodup⟩, ?_, ?_, ?_⟩, ?_⟩
    · have hlt := Nat.lt_succ_self c.next
      exact forall_mem_cons.mpr ⟨hlt, fun e hmem => (h.allocated e hmem).trans hlt⟩
    · intro key e
      dsimp only
      rw [GoMap.lookup_insert_eq]
      rcases eq_or_ne e c.next with rfl | hne
      · rw [update_self]
        have hnone : c.entries.lookup key ≠ some c.next := fun heq =>
          hfresh ((h.lookup_iff _ _).mp heq).1
        grind
      · rw [update_of_ne hne]
        have := h.lookup_iff key e
        grind
    · dsimp only [view]
      rw [map_cons, hview, update_self, map_cons, sum_cons, h.bytes_eq]
      push_cast
      ring
    · dsimp only [view]
      rw [map_cons, hview, update_self, forget, filter_eq_self.mpr]
      · rfl
      · intro e hmem
        obtain ⟨element, helement, rfl⟩ := mem_map.mp hmem
        exact decide_eq_true (hother element helement)

/-- The loop goes on as long as the entries do not fit. -/
lemma Inv.fits_iff (h : Inv c) :
    Fits c.max c.maxBytes c.view ↔ ¬ (c.max < c.entries.len ∨ c.maxBytes < c.bytes) := by
  rw [Fits, h.bytes_eq, h.len_entries, not_or]
  simp [view]

lemma erase_getLast {l : List ℕ} (hnodup : l.Nodup) (hne : l ≠ []) :
    l.erase (l.getLast hne) = l.dropLast := by
  have hl := dropLast_append_getLast hne
  have hnot : l.getLast hne ∉ l.dropLast := by
    rw [← hl, nodup_append] at hnodup
    exact fun hmem => hnodup.2.2 _ hmem _ (mem_singleton_self _) rfl
  nth_rewrite 1 [← hl]
  rw [erase_append_right _ hnot, erase_cons_head, append_nil]

/-- The loop ends, with the longest part of the list that fits. -/
lemma Inv.evict {c : RawCache} (h : Inv c) (hmax : 0 ≤ c.max) (hbytes : 0 ≤ c.maxBytes) :
    ∃ c', c.evict = some c' ∧ Inv c' ∧ c'.max = c.max ∧ c'.maxBytes = c.maxBytes ∧
      LRU.LongestFit (Fits c.max c.maxBytes) c.view c'.view := by
  by_cases hfit : Fits c.max c.maxBytes c.view
  · rw [RawCache.evict, if_neg (h.fits_iff.mp hfit)]
    exact ⟨c, rfl, h, rfl, rfl, longestFit_self hfit⟩
  · have hne : c.lru ≠ [] := by
      intro hnil
      rw [view, hnil] at hfit
      exact hfit ⟨hmax, hbytes⟩
    have he := getLast_mem hne
    obtain ⟨c', hc', hinv, hm, hb, hlong⟩ := (h.removeElement he).evict hmax hbytes
    refine ⟨c', ?_, hinv, hm, hb, ?_⟩
    · rw [RawCache.evict, if_pos (not_not.mp (h.fits_iff.not.mp hfit))]
      split
      case h_1 hnone => exact absurd (getLast?_eq_none_iff.mp hnone) hne
      case h_2 back hback =>
        rw [getLast?_eq_getLast_of_ne_nil hne, Option.some.injEq] at hback
        rw [← hback, hc']
    · have hview : (c.removeElement (c.lru.getLast hne)).view = c.view.dropLast := by
        rw [view, view, ← map_dropLast, ← erase_getLast h.nodup hne]
        rfl
      rw [hview] at hlong
      exact hlong.of_dropLast hfit
termination_by c.lru.length
decreasing_by
  rw [RawCache.removeElement, length_erase_of_mem he]
  exact Nat.sub_one_lt_of_lt (length_pos_of_mem he)

end Inv

/-! ### The methods -/

/-- The map and the list hold the same entries, the counter is their size, and both limits are
kept. -/
structure Bounded (max maxBytes : ℤ) (c : RawCache) : Prop extends Inv c where
  max_eq : c.max = max
  maxBytes_eq : c.maxBytes = maxBytes
  len_eq : c.entries.len = c.lru.length
  len_le : (c.entries.len : ℤ) ≤ max
  bytes_le : c.bytes ≤ maxBytes

section Bounded

variable {max maxBytes : ℤ} {c c' : RawCache} {element : ℕ} {entry : RawCacheEntry}
  {uses : List (List UInt8)} {query response : List UInt8} {now : ℤ}

lemma Inv.bounded (h : Inv c) (hmax : c.max = max) (hbytes : c.maxBytes = maxBytes)
    (hfit : Fits max maxBytes c.view) : Bounded max maxBytes c where
  toInv := h
  max_eq := hmax
  maxBytes_eq := hbytes
  len_eq := h.len_entries
  len_le := by
    rw [h.len_entries]
    simpa [view] using hfit.1
  bytes_le := h.bytes_eq ▸ hfit.2

lemma Bounded.fits (h : Bounded max maxBytes c) : Fits max maxBytes c.view :=
  ⟨by simpa [view, h.len_eq] using h.len_le, h.bytes_eq ▸ h.bytes_le⟩

lemma Fits.sublist {l l' : List RawCacheEntry} (h : Fits max maxBytes l) (hl : l'.Sublist l) :
    Fits max maxBytes l' := by
  have hlen := hl.length_le
  have hsum := (hl.map RawCacheEntry.size).sum_le_sum fun _ _ => Nat.zero_le _
  constructor
  · exact le_trans (by exact_mod_cast hlen) h.1
  · exact le_trans (by exact_mod_cast hsum) h.2

lemma Bounded.removeElement (h : Bounded max maxBytes c) (he : element ∈ c.lru) :
    Bounded max maxBytes (c.removeElement element) := by
  refine (h.toInv.removeElement he).bounded h.max_eq h.maxBytes_eq ?_
  rw [view_removeElement h.toInv he]
  exact h.fits.sublist filter_sublist

lemma Bounded.moveToFront (h : Bounded max maxBytes c) (he : element ∈ c.lru) :
    Bounded max maxBytes (c.moveToFront element) := by
  have hinv := h.toInv.moveToFront he
  rw [RawCache.moveToFront, if_pos he] at hinv ⊢
  exact ⟨hinv, h.max_eq, h.maxBytes_eq, hinv.len_entries, h.len_le, h.bytes_le⟩

variable {C : RawCodec β}

lemma Bounded.get (h : Bounded max maxBytes c) (hrecent : LRU.Recent RawCacheEntry.key uses c.view)
    (query : List UInt8) (now : ℤ) :
    Bounded max maxBytes (c.get C query now).1 ∧
      LRU.Recent RawCacheEntry.key ((RawCacheOp.used C (some c) (.get query now)).toList ++ uses)
        (c.get C query now).1.view := by
  simp only [RawCache.get, RawCacheOp.used]
  cases hkey : rawCacheKey query with
  | none => exact ⟨h, hrecent⟩
  | some key =>
    cases hlookup : c.entries.lookup key with
    | none => simpa [hlookup] using ⟨h, hrecent⟩
    | some element =>
      obtain ⟨he, rfl⟩ := (h.lookup_iff _ _).mp hlookup
      simp only [bind_eq_bind, bind_some, hlookup]
      by_cases hexpired : (c.value element).expires ≤ now
      · rw [if_pos hexpired, if_neg (not_lt.mpr hexpired)]
        refine ⟨h.removeElement he, ?_⟩
        rw [view_removeElement h.toInv he]
        exact hrecent.forget _
      · rw [if_neg hexpired, if_pos (not_le.mp hexpired)]
        refine ⟨h.moveToFront he, ?_⟩
        rw [view_moveToFront h.toInv he]
        exact hrecent.use _

lemma size_le_of_admits (h : c.admits C query response now = some entry) :
    (entry.size : ℤ) ≤ c.maxBytes := by
  simp only [admits, bind_eq_bind, bind_eq_some_iff] at h
  obtain ⟨_, -, key, -, _, -, message, -, _, -, ttl, -, _, -, _, hsize, hentry⟩ := h
  cases hentry
  exact (guard_eq_some' _).mp hsize

section

variable (h : Bounded max maxBytes c)
include h

/-- `put` stores the entry and then drops as few entries as the limits allow. -/
lemma Bounded.put (hmax : 1 ≤ max) (hadmits : c.admits C query response now = some entry) :
    ∃ c', c.put C query response now = some c' ∧ Bounded max maxBytes c' ∧
      c'.find entry.key = some entry ∧
      LRU.LongestFit (Fits max maxBytes)
        (entry :: forget RawCacheEntry.key entry.key c.view) c'.view := by
  have hsize := size_le_of_admits hadmits
  obtain ⟨hinv, hview⟩ := h.toInv.store entry
  have hlimits : (c.store entry).max = max ∧ (c.store entry).maxBytes = maxBytes := by
    rw [← h.max_eq, ← h.maxBytes_eq]
    exact store_limits c entry
  have hbytes : 0 ≤ maxBytes := (Int.natCast_nonneg _).trans (hsize.trans_eq h.maxBytes_eq)
  obtain ⟨c', hc', hinv', hm, hb, hlong⟩ :=
    hinv.evict (hlimits.1 ▸ le_trans zero_le_one hmax) (hlimits.2 ▸ hbytes)
  rw [hlimits.1, hlimits.2, hview] at hlong
  refine ⟨c', ?_, hinv'.bounded (hm.trans hlimits.1) (hb.trans hlimits.2) hlong.fit, ?_, hlong⟩
  · rw [RawCache.put, hadmits]
    exact hc'
  · rw [hinv'.find_eq_some_iff]
    refine ⟨?_, rfl⟩
    have hfit : Fits max maxBytes [entry] :=
      ⟨by simpa using hmax, by simpa [← h.maxBytes_eq] using hsize⟩
    have hfront := hlong.longest [entry] ⟨_, rfl⟩ hfit
    exact hfront.subset (mem_singleton_self entry)

lemma Bounded.exec (hmax : 1 ≤ max) (hrecent : LRU.Recent RawCacheEntry.key uses c.view)
    (op : RawCacheOp) :
    ∃ c', op.exec C (some c) = some (some c') ∧ Bounded max maxBytes c' ∧
      LRU.Recent RawCacheEntry.key ((op.used C (some c)).toList ++ uses) c'.view := by
  cases op with
  | get query now => exact ⟨_, rfl, h.get hrecent query now⟩
  | put query response now =>
    simp only [RawCacheOp.exec, RawCacheOp.used]
    cases hadmits : c.admits C query response now with
    | none => exact ⟨c, by rw [RawCache.put, hadmits]; rfl, h, hrecent⟩
    | some entry =>
      obtain ⟨c', hput, h', -, hlong⟩ := h.put hmax hadmits
      exact ⟨c', by rw [hput]; rfl, h', (hrecent.use entry).sublist hlong.front.sublist⟩

lemma Bounded.run (hmax : 1 ≤ max) (hrecent : LRU.Recent RawCacheEntry.key uses c.view)
    (ops : List RawCacheOp) :
    ∃ c', Lib.run (RawCacheOp.exec C) (some c) ops = some (some c') ∧
      Bounded max maxBytes c' ∧
      LRU.Recent RawCacheEntry.key (rawCacheUses C (some c) ops ++ uses) c'.view := by
  induction ops generalizing c uses with
  | nil => exact ⟨c, rfl, h, hrecent⟩
  | cons op ops ih =>
    obtain ⟨c₁, hexec, h₁, hrecent₁⟩ := h.exec hmax hrecent op
    obtain ⟨c', hrun, h', hrecent'⟩ := ih h₁ hrecent₁
    refine ⟨c', run_cons.mpr ⟨some c₁, hexec, hrun⟩, h', ?_⟩
    rwa [rawCacheUses, hexec, append_assoc]

end

end Bounded

lemma bounded_new {entries maxTTLSeconds maxBytes : ℤ} {c : RawCache}
    (hnew : newDNSRawCacheWithLimit entries maxTTLSeconds maxBytes = .ok (some c)) :
    Bounded c.max c.maxBytes c ∧ 1 ≤ c.max ∧ c.view = [] := by
  have hmax : ¬ entries < 0 → 1 ≤ if entries = 0 then defaultDNSRawCacheEntries else entries := by
    intro hentries
    rw [defaultDNSRawCacheEntries]
    split_ifs <;> omega
  dsimp only [newDNSRawCacheWithLimit] at hnew
  generalize (if entries = 0 then defaultDNSRawCacheEntries else entries) = max at hnew hmax
  generalize (if maxBytes = 0 then defaultDNSRawCacheMaxBytes else maxBytes) = bytes at hnew
  split at hnew
  · cases hnew
  case isFalse hentries =>
  split at hnew
  · cases hnew
  split at hnew
  · cases hnew
  case isFalse hbytes =>
  split at hnew
  · cases hnew
  cases hnew
  refine ⟨Inv.bounded ⟨nodup_nil, by simp, by simp, rfl⟩ rfl rfl ⟨?_, ?_⟩, hmax hentries, rfl⟩
  · exact le_trans zero_le_one (hmax hentries)
  · simp only [view, map_nil, sum_nil]
    omega

end RawCache

/-- A cache that `newDNSRawCacheWithLimit` made, after any calls of `get` and `put`, all of which
return: the map and the list hold the same entries, within the limits and in the order of their
last use. A further `put` that is admitted finds its entry in the cache afterwards, and what is
kept is the longest part of the list that fits. -/
theorem dnsRawCache_bounded (C : RawCodec β) (entries maxTTLSeconds maxBytes : ℤ) (c₀ : RawCache)
    (hnew : newDNSRawCacheWithLimit entries maxTTLSeconds maxBytes = .ok (some c₀))
    (ops : List RawCacheOp) :
    ∃ c, run (RawCacheOp.exec C) (some c₀) ops = some (some c) ∧
      c.Bounded c₀.max c₀.maxBytes ∧
      LRU.Recent RawCacheEntry.key (rawCacheUses C (some c₀) ops) c.view ∧
      ∀ query response now entry, c.admits C query response now = some entry →
        ∃ c', c.put C query response now = some c' ∧ c'.find entry.key = some entry ∧
          LRU.LongestFit (RawCache.Fits c₀.max c₀.maxBytes)
            (entry :: forget RawCacheEntry.key entry.key c.view) c'.view := by
  obtain ⟨h₀, hmax, hview⟩ := RawCache.bounded_new hnew
  obtain ⟨c, hrun, h, hrecent⟩ := h₀.run hmax (hview ▸ recent_nil) ops
  rw [append_nil] at hrecent
  refine ⟨c, hrun, h, hrecent, fun query response now entry hadmits => ?_⟩
  obtain ⟨c', hput, -, hfind, hlong⟩ := h.put hmax hadmits
  exact ⟨c', hput, hfind, hlong⟩

/-- The query for the addresses of a name of one letter. -/
def letterQuery (letter : UInt8) : List UInt8 :=
  [0, 7, 1, 0, 0, 1, 0, 0, 0, 0, 0, 0, 1, letter, 0, 0, 1, 0, 1]

/-- Its response, with one address for a minute. -/
def letterResponse (letter : UInt8) : List UInt8 :=
  [0, 7, 0x81, 0x80, 0, 1, 0, 1, 0, 0, 0, 0, 1, letter, 0, 0, 1, 0, 1, 0xc0, 12, 0, 1, 0, 1,
    0, 0, 0, 60, 0, 4, 10, 0, 0, letter]

/-- A codec that reads these messages, whatever their transaction ID, and writes none. -/
def letterCodec : RawCodec UInt8 where
  unpack wire := do
    let id := (wire[0]?.getD 0).toUInt16 * 256 + (wire[1]?.getD 0).toUInt16
    let letter ← wire[13]?
    if wire.drop 2 = (letterQuery letter).drop 2 then
      some ⟨id, true, false, false, 0, [letter], [], [], [], 0⟩
    else if wire.drop 2 = (letterResponse letter).drop 2 then
      some ⟨id, true, false, false, 0, [letter], [⟨1, 60, none, letter⟩], [], [], 0⟩
    else none
  pack _ := none

/-- Two responses are stored and the first one is used, before a third one is stored. -/
def letterOps : List RawCacheOp :=
  [.put (letterQuery 97) (letterResponse 97) 0, .put (letterQuery 98) (letterResponse 98) 0,
    .get (letterQuery 97) 1, .put (letterQuery 99) (letterResponse 99) 2]

def twoEntryCache : RawCache :=
  ⟨2, defaultDNSRawCacheMaxTTL, defaultDNSRawCacheMaxBytes, 0, ∅, [], default, 0⟩

/-- The second response is evicted. -/
theorem dnsRawCache_bounded_twoEntries :
    newDNSRawCacheWithLimit 2 0 0 = .ok (some twoEntryCache) ∧
      ∃ c, run (RawCacheOp.exec letterCodec) (some twoEntryCache) letterOps = some (some c) ∧
        c.view.map RawCacheEntry.key = [(letterQuery 99).drop 2, (letterQuery 97).drop 2] ∧
        c.Bounded 2 (16 * 1024 * 1024) := by
  obtain ⟨c, hrun, hbounded, -⟩ := dnsRawCache_bounded letterCodec 2 0 0 twoEntryCache rfl letterOps
  have hkeys : (run (RawCacheOp.exec letterCodec) (some twoEntryCache) letterOps).map
      (·.map fun c => c.view.map RawCacheEntry.key) =
        some (some [(letterQuery 99).drop 2, (letterQuery 97).drop 2]) := by decide +kernel
  rw [hrun] at hkeys
  exact ⟨rfl, c, hrun, some.inj (some.inj hkeys), hbounded⟩

end BypassCore.Inbound
