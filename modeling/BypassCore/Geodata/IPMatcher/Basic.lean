import BypassCore.Lib.GoMap
import Mathlib.Data.UInt

/-!
# IP sets and heuristic IP matchers

The data model of `common/geodata/ip_matcher.go`: addresses, the prefix keys under which
addresses are bucketed, the sets that the factory builds from CIDR lists, and the per-address
`Match`. The set arithmetic itself is done by `go4.org/netipx`, which enters as a parameter.
-/

namespace BypassCore

open Lib

/-- `net.IP`: a byte slice, of any length. -/
abbrev NetIP := List UInt8

/-- The twelve bytes in front of an IPv4 address in its 16-byte form. -/
def v4InV6Prefix : List UInt8 := [0, 0, 0, 0, 0, 0, 0, 0, 0, 0, 0xff, 0xff]

def NetIP.to4 (ip : NetIP) : Option NetIP :=
  if ip.length = 4 then some ip
  else if ip.length = 16 ∧ ip.take 12 = v4InV6Prefix then some (ip.drop 12)
  else none

def NetIP.to16 (ip : NetIP) : Option NetIP :=
  if ip.length = 4 then some (v4InV6Prefix ++ ip)
  else if ip.length = 16 then some ip
  else none

/-- The lengths of an IP address; every other slice is illegal. -/
def NetIP.WellFormed (ip : NetIP) : Prop := ip.length = 4 ∨ ip.length = 16

instance (ip : NetIP) : Decidable ip.WellFormed := inferInstanceAs (Decidable (_ ∨ _))

/-- A valid `netip.Addr` without a zone. The zero `netip.Addr` is `none` in an `Option Addr`. -/
structure Addr where
  bytes : List UInt8
  len : bytes.length = 4 ∨ bytes.length = 16
deriving DecidableEq

namespace Addr

def is4 (a : Addr) : Bool := a.bytes.length = 4

def is6 (a : Addr) : Bool := a.bytes.length = 16

def bitLen (a : Addr) : Nat := 8 * a.bytes.length

def byteBits (b : UInt8) : List Bool := (List.range 8).map fun i => b.toNat.testBit (7 - i)

def bits (a : Addr) : List Bool := a.bytes.flatMap byteBits

/-- `netip.AddrFromSlice`. It does not unmap. -/
def ofSlice (b : List UInt8) : Option Addr :=
  if h : b.length = 4 ∨ b.length = 16 then some ⟨b, h⟩ else none

end Addr

structure Prefix where
  addr : Addr
  bits : Nat
  valid : bits ≤ addr.bitLen

/-- `netip.PrefixFrom` followed by `IsValid`. -/
def Prefix.ofAddr (addr : Addr) (bits : Nat) : Option Prefix :=
  if h : bits ≤ addr.bitLen then some ⟨addr, bits, h⟩ else none

/-- `netip.Prefix.Contains`: the families agree and the leading bits do. -/
def Prefix.contains (p : Prefix) (a : Addr) : Bool :=
  p.addr.bytes.length = a.bytes.length ∧ a.bits.take p.bits = p.addr.bits.take p.bits

/-- A `netipx.IPSet`: `Contains`, and the list `Prefixes` returns. The prefixes of a set are the
canonical cover of exactly its addresses. -/
structure PrefixSet where
  contains : Addr → Bool
  prefixes : List Prefix
  contains_iff : ∀ a, contains a = true ↔ ∃ p ∈ prefixes, p.contains a = true

/-- What the matchers use of `go4.org/netipx`. `FromStdIP` accepts exactly the slices of 4 and 16
bytes and unmaps an IPv4-mapped IPv6 address; a set built with `AddPrefix` contains exactly the
addresses of the added prefixes. -/
structure Netipx where
  fromStdIP : NetIP → Option Addr
  buildIPSet : List Prefix → Except String PrefixSet
  fromStdIP_isSome : ∀ ip : NetIP, (fromStdIP ip).isSome = true ↔ ip.WellFormed
  fromStdIP_bytes : ∀ (ip : NetIP) a, fromStdIP ip = some a → a.bytes = ip.to4.getD ip
  contains_build : ∀ ps s, buildIPSet ps = .ok s →
    ∀ a, s.contains a = true ↔ ∃ p ∈ ps, p.contains a = true

/-- The two address families a set is split into. -/
inductive Family where
  | v4
  | v6
deriving DecidableEq

/-- `0xff` for a family without prefixes, `0xfe` for one that only has `/0`, and otherwise the
length of the longest prefix. -/
def maxPrefixLen (ps : List Prefix) : UInt8 :=
  let longest := ps.foldl (fun n p => if p.bits > n then p.bits else n) 0
  if ps.isEmpty then 0xff else if longest = 0 then 0xfe else UInt8.ofNat longest

/-- `IPSet`: one `netipx` set for each family and its longest prefix. -/
structure IPSet where
  ipv4 : PrefixSet
  ipv6 : PrefixSet
  max4 : UInt8
  max6 : UInt8

/-- `CIDR`, as the configuration and the geodata files give it. -/
structure CIDR where
  ip : List UInt8
  prefixLen : UInt32

/-- The prefixes that `createFrom` hands to the builder of a family: a CIDR with an illegal
address or length is logged and skipped. -/
def familyPrefixes (f : Family) (cidrs : List CIDR) : List Prefix :=
  cidrs.filterMap fun c =>
    (Addr.ofSlice c.ip).bind fun addr =>
      (Prefix.ofAddr addr c.prefixLen.toNat).bind fun p =>
        match f with
        | .v4 => if addr.is4 then some p else none
        | .v6 => if addr.is4 then none else if addr.is6 then some p else none

/-- `IPSetFactory.createFrom`. The yield function either fails or adds a list of CIDRs. -/
def createFrom (N : Netipx) (yield : Except String (List CIDR)) : Except String IPSet :=
  match yield with
  | .error e => .error e
  | .ok cidrs =>
    match N.buildIPSet (familyPrefixes .v4 cidrs) with
    | .error e => .error ("failed to build IPv4 set > " ++ e)
    | .ok ipv4 =>
      match N.buildIPSet (familyPrefixes .v6 cidrs) with
      | .error e => .error ("failed to build IPv6 set > " ++ e)
      | .ok ipv6 => .ok ⟨ipv4, ipv6, maxPrefixLen ipv4.prefixes, maxPrefixLen ipv6.prefixes⟩

/-- `HeuristicIPMatcher`. Its set always comes from the factory. -/
structure HeuristicIPMatcher (N : Netipx) where
  ipset : IPSet
  reverse : Bool
  made : ∃ cidrs, createFrom N (.ok cidrs) = .ok ipset

variable {N : Netipx}

namespace HeuristicIPMatcher

variable (m : HeuristicIPMatcher N)

def matchAddr (ipx : Addr) : Bool :=
  if ipx.is4 then
    if m.ipset.max4 = 0xff then m.reverse else m.ipset.ipv4.contains ipx != m.reverse
  else if ipx.is6 then
    if m.ipset.max6 = 0xff then m.reverse else m.ipset.ipv6.contains ipx != m.reverse
  else false

/-- `Match`: an illegal address never matches. -/
def matchIP (ip : NetIP) : Bool :=
  match N.fromStdIP ip with
  | none => false
  | some ipx => m.matchAddr ipx

/-- A family whose prefixes all have at most 24 (64) bits is decided by prefix bucket. -/
def heur : Family → Bool
  | .v4 => m.ipset.max4 ≤ 24
  | .v6 => m.ipset.max6 ≤ 64

end HeuristicIPMatcher

/-- The `[9]byte` key of a bucket: the family byte and the leading bytes of the address. -/
abbrev PrefixKey := List UInt8

def prefixKeyFromIP (ip : NetIP) : Option PrefixKey :=
  match ip.to4 with
  | some ip4 => some (4 :: (ip4.take 3 ++ List.replicate 5 0))
  | none =>
    match ip.to16 with
    | some ip16 => some (6 :: ip16.take 8)
    | none => none

def PrefixKey.family (key : PrefixKey) : UInt8 := key.headD 0

def HeuristicIPMatcher.heurKey (m : HeuristicIPMatcher N) (key : PrefixKey) : Bool :=
  (key.family = 4 ∧ m.heur .v4) ∨ (key.family = 6 ∧ m.heur .v6)

open List Option

variable (a : Addr)

def Addr.key : PrefixKey :=
  if a.is4 then 4 :: (a.bytes.take 3 ++ List.replicate 5 0) else 6 :: a.bytes.take 8

lemma Addr.is6_eq_not_is4 : a.is6 = !a.is4 := by
  rcases a.len with h | h <;> simp [Addr.is4, Addr.is6, h]

lemma NetIP.to4_length {ip ip4 : NetIP} (h : ip.to4 = some ip4) : ip4.length = 4 := by
  unfold NetIP.to4 at h
  split_ifs at h with h₁ h₂ <;> cases h
  · exact h₁
  · rw [length_drop, h₂.1]

lemma NetIP.to4_eq_none_length {ip : NetIP} (h : ip.to4 = none) : ip.length ≠ 4 := by
  intro hl
  simp [NetIP.to4, hl] at h

/-- The key computed from the bytes is the key of the address that `netipx` reads from them. -/
lemma prefixKeyFromIP_eq (ip : NetIP) : prefixKeyFromIP ip = (N.fromStdIP ip).map Addr.key := by
  cases ha : N.fromStdIP ip with
  | none =>
    have hw : ¬ ip.WellFormed := by
      rw [← N.fromStdIP_isSome, ha]
      simp
    have h4 : ip.length ≠ 4 := fun h => hw (.inl h)
    have h16 : ip.length ≠ 16 := fun h => hw (.inr h)
    simp [prefixKeyFromIP, NetIP.to4, NetIP.to16, h4, h16]
  | some a =>
    have hb := N.fromStdIP_bytes ip a ha
    cases h4 : ip.to4 with
    | some ip4 =>
      simp [prefixKeyFromIP, h4, Addr.key, Addr.is4, hb, NetIP.to4_length h4]
    | none =>
      rw [h4, getD_none] at hb
      have hl : ip.length ≠ 4 := NetIP.to4_eq_none_length h4
      have hl' : ip.length = 16 := by
        rcases a.len with h | h
        · exact absurd (hb ▸ h) hl
        · exact hb ▸ h
      simp [prefixKeyFromIP, h4, NetIP.to16, hl', Addr.key, Addr.is4, hb]

lemma Addr.key_family : a.key.family = if a.is4 then 4 else 6 := by
  unfold Addr.key PrefixKey.family
  split_ifs <;> rfl

def Addr.family : Family := if a.is4 then .v4 else .v6

lemma Addr.key_family_eq_four_iff : a.key.family = 4 ↔ a.family = .v4 := by
  cases h : a.is4 <;> simp [Addr.key_family, Addr.family]

lemma Addr.key_family_eq_six_iff : a.key.family = 6 ↔ a.family = .v6 := by
  cases h : a.is4 <;> simp [Addr.key_family, Addr.family]

lemma HeuristicIPMatcher.heurKey_key (m : HeuristicIPMatcher N) (a : Addr) :
    m.heurKey a.key = m.heur a.family := by
  cases h : a.family <;> simp [heurKey, Addr.key_family_eq_four_iff, Addr.key_family_eq_six_iff, h]

/-- Two addresses with one key are of one family and agree on the bytes the key holds. -/
lemma Addr.bytes_of_key_eq {a b : Addr} (h : a.key = b.key) :
    a.is4 = b.is4 ∧ a.bytes.length = b.bytes.length ∧
      a.bytes.take (if a.is4 then 3 else 8) = b.bytes.take (if a.is4 then 3 else 8) := by
  have hf : a.is4 = b.is4 := by
    have := congrArg PrefixKey.family h
    rw [Addr.key_family, Addr.key_family] at this
    cases ha : a.is4 <;> cases hb : b.is4 <;> simp_all
  refine ⟨hf, ?_, ?_⟩
  · have h4 : a.bytes.length = 4 ↔ b.bytes.length = 4 := by
      simpa [Addr.is4] using hf
    rcases a.len with ha | ha <;> rcases b.len with hb | hb <;> omega
  · unfold Addr.key at h
    rw [← hf] at h
    split_ifs at h ⊢ with h4
    · simpa using h
    · simpa using h

lemma foldl_longest_le (ps : List Prefix) (n : Nat) :
    n ≤ ps.foldl (fun n p => if p.bits > n then p.bits else n) n ∧
      ∀ p ∈ ps, p.bits ≤ ps.foldl (fun n p => if p.bits > n then p.bits else n) n := by
  induction ps generalizing n with
  | nil => simp
  | cons q ps ih =>
    obtain ⟨h₁, h₂⟩ := ih (if q.bits > n then q.bits else n)
    have hq : n ≤ (if q.bits > n then q.bits else n) ∧
        q.bits ≤ (if q.bits > n then q.bits else n) := by
      split_ifs <;> omega
    exact ⟨hq.1.trans h₁, forall_mem_cons.mpr ⟨hq.2.trans h₁, h₂⟩⟩

lemma foldl_longest_lt (ps : List Prefix) {n : Nat} (hn : n < 129) :
    ps.foldl (fun n p => if p.bits > n then p.bits else n) n < 129 := by
  induction ps generalizing n with
  | nil => exact hn
  | cons q ps ih =>
    apply ih
    have hq := q.valid
    have hl := q.addr.len
    unfold Addr.bitLen at hq
    show (if q.bits > n then q.bits else n) < 129
    split_ifs <;> omega

/-- A bound below the sentinels bounds the length of every prefix. -/
lemma bits_le_of_maxPrefixLen_le {ps : List Prefix} {b : UInt8} (hb : b.toNat ≤ 128)
    (h : maxPrefixLen ps ≤ b) {p : Prefix} (hp : p ∈ ps) : p.bits ≤ b.toNat := by
  have hlt := foldl_longest_lt ps (n := 0) (by omega)
  have hle := (foldl_longest_le ps 0).2 p hp
  have hne : ps.isEmpty = false := isEmpty_eq_false_iff_exists_mem.mpr ⟨p, hp⟩
  simp only [maxPrefixLen, hne, Bool.false_eq_true, if_false] at h
  rw [UInt8.le_iff_toNat_le] at h
  split_ifs at h with h₀
  · omega
  · rw [UInt8.toNat_ofNat_of_lt' (by simp only [UInt8.size]; omega)] at h
    omega

/-! ### One representative decides its bucket -/

lemma Addr.length_byteBits (b : UInt8) : (Addr.byteBits b).length = 8 := by
  simp [Addr.byteBits]

lemma Addr.take_flatMap_byteBits (l : List UInt8) (k : Nat) :
    (l.flatMap Addr.byteBits).take (8 * k) = (l.take k).flatMap Addr.byteBits := by
  induction l generalizing k with
  | nil => simp
  | cons b l ih =>
    cases k with
    | zero => simp
    | succ k =>
      rw [take_succ_cons, flatMap_cons, flatMap_cons,
        show 8 * (k + 1) = (Addr.byteBits b).length + 8 * k by
          rw [Addr.length_byteBits]; omega,
        take_length_add_append, ih]

/-- Addresses that agree on their first `k` bytes lie in the same prefixes of at most `8 * k`
bits. -/
lemma Prefix.contains_congr {p : Prefix} {a b : Addr} {k : Nat} (hp : p.bits ≤ 8 * k)
    (hl : a.bytes.length = b.bytes.length) (hk : a.bytes.take k = b.bytes.take k) :
    p.contains a = p.contains b := by
  have hbits : a.bits.take p.bits = b.bits.take p.bits := by
    have h8 : a.bits.take (8 * k) = b.bits.take (8 * k) := by
      rw [Addr.bits, Addr.bits, Addr.take_flatMap_byteBits, Addr.take_flatMap_byteBits, hk]
    calc a.bits.take p.bits = (a.bits.take (8 * k)).take p.bits := by
          rw [take_take, Nat.min_eq_left hp]
      _ = (b.bits.take (8 * k)).take p.bits := by rw [h8]
      _ = b.bits.take p.bits := by rw [take_take, Nat.min_eq_left hp]
  simp only [Prefix.contains, hl, hbits]

lemma PrefixSet.contains_congr {s : PrefixSet} {a b : Addr} {k : Nat}
    (hs : ∀ p ∈ s.prefixes, p.bits ≤ 8 * k) (hl : a.bytes.length = b.bytes.length)
    (hk : a.bytes.take k = b.bytes.take k) : s.contains a = s.contains b := by
  rw [Bool.eq_iff_iff, s.contains_iff, s.contains_iff]
  constructor
  · rintro ⟨p, hp, h⟩
    exact ⟨p, hp, by rwa [← Prefix.contains_congr (hs p hp) hl hk]⟩
  · rintro ⟨p, hp, h⟩
    exact ⟨p, hp, by rwa [Prefix.contains_congr (hs p hp) hl hk]⟩

namespace HeuristicIPMatcher

/-- The sets of a matcher come with the sentinel encoding of their longest prefixes. -/
lemma max_eq (m : HeuristicIPMatcher N) :
    m.ipset.max4 = maxPrefixLen m.ipset.ipv4.prefixes ∧
      m.ipset.max6 = maxPrefixLen m.ipset.ipv6.prefixes := by
  obtain ⟨cidrs, h⟩ := m.made
  simp only [createFrom] at h
  split at h
  · cases h
  · split at h
    · cases h
    · injection h with h
      rw [← h]
      exact ⟨rfl, rfl⟩

/-- Where a matcher decides by bucket, two addresses of one bucket get one answer. -/
theorem matchAddr_eq_of_key_eq (m : HeuristicIPMatcher N) {a b : Addr} (hk : a.key = b.key)
    (hh : m.heurKey a.key = true) : m.matchAddr a = m.matchAddr b := by
  obtain ⟨hf, hl, hbytes⟩ := Addr.bytes_of_key_eq hk
  have h6a := a.is6_eq_not_is4
  have h6b := b.is6_eq_not_is4
  simp only [heurKey, Addr.key_family] at hh
  cases h4 : a.is4 with
  | true =>
    rw [h4] at hf hbytes hh
    have hmax : m.ipset.max4 ≤ 24 := by simpa [heur] using hh
    have hc : m.ipset.ipv4.contains a = m.ipset.ipv4.contains b := by
      apply PrefixSet.contains_congr (k := 3) _ hl hbytes
      intro p hp
      rw [m.max_eq.1] at hmax
      exact bits_le_of_maxPrefixLen_le (by decide) hmax hp
    simp [matchAddr, h4, ← hf, hc]
  | false =>
    rw [h4] at hf hbytes hh h6a
    have hmax : m.ipset.max6 ≤ 64 := by simpa [heur] using hh
    have hc : m.ipset.ipv6.contains a = m.ipset.ipv6.contains b := by
      apply PrefixSet.contains_congr (k := 8) _ hl hbytes
      intro p hp
      rw [m.max_eq.2] at hmax
      exact bits_le_of_maxPrefixLen_le (by decide) hmax hp
    simp [matchAddr, h4, ← hf, h6a, h6b, hc]

end HeuristicIPMatcher

end BypassCore
