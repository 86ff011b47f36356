import Mathlib.Algebra.Order.Ring.Nat

/-!
# The address of the WireGuard handshake probe

`proxy/wireguard/wireguard.go`: the probe goes to the address behind that of an allowed prefix.
Neither is the prefix masked nor is the successor compared with it, and an IPv4-mapped address is
taken for one of IPv4, so the probe may go where the tunnel does not lead.
-/

namespace BypassCore.Proxy.WireGuard

open List Option

/-- A `netip.Addr` without a zone, by its family and number. -/
structure Addr where
  is4 : Bool
  value : ℕ
deriving DecidableEq

namespace Addr

def bitLen (a : Addr) : ℕ := if a.is4 then 32 else 128

/-- The IPv6 addresses in `::ffff:0:0/96`. -/
def is4In6 (a : Addr) : Bool := !a.is4 && a.value / 2 ^ 32 == 0xffff

def unmap (a : Addr) : Addr := if a.is4In6 then ⟨true, a.value % 2 ^ 32⟩ else a

/-- `Next`, where the zero `Addr` is `none`. -/
def next (a : Addr) : Option Addr :=
  if a.value + 1 < 2 ^ a.bitLen then some { a with value := a.value + 1 } else none

end Addr

/-- A `netip.Prefix` as it is parsed; the bits behind the prefix may be set. -/
structure Prefix where
  addr : Addr
  bits : ℕ
  bits_le : bits ≤ addr.bitLen
deriving DecidableEq

namespace Prefix

def contains (p : Prefix) (a : Addr) : Bool :=
  p.addr.is4 == a.is4 &&
    p.addr.value / 2 ^ (p.addr.bitLen - p.bits) == a.value / 2 ^ (p.addr.bitLen - p.bits)

def candidate (p : Prefix) : Option Addr :=
  if p.bits < p.addr.unmap.bitLen then p.addr.unmap.next else some p.addr.unmap

end Prefix

/-- The loop over the allowed prefixes of all peers. -/
def probe (preferIPv4 : Bool) : Option Addr → List Prefix → Option Addr
  | fallback, [] => fallback
  | fallback, p :: ps =>
    match p.candidate with
    | none => probe preferIPv4 fallback ps
    | some c => if c.is4 = preferIPv4 then some c else probe preferIPv4 (fallback.or (some c)) ps

variable (parsePrefix : String → Option Prefix)

/-- The allowed prefixes of the peers; what does not parse is skipped. -/
def allowed (peers : List (List String)) : List Prefix :=
  peers.flatten.filterMap parsePrefix

/-- Without an allowed prefix the probe goes to a public resolver. The port is 53. -/
def handshakeProbeAddress (peers : List (List String)) (preferIPv4 : Bool) : Option Addr :=
  if allowed parsePrefix peers = [] then
    some (if preferIPv4 then ⟨true, 0x01010101⟩ else ⟨false, 0x26064700470000000000000000001111⟩)
  else probe preferIPv4 none (allowed parsePrefix peers)

/-! ### The chosen prefix -/

/-- The first prefix that yields an address of the preferred family, else the first that yields
one. -/
def chosen (preferIPv4 : Bool) (ps : List Prefix) : Option Prefix :=
  (ps.find? fun p => p.candidate.any (·.is4 = preferIPv4)).or
    (ps.find? fun p => p.candidate.isSome)

lemma probe_eq (preferIPv4 : Bool) (fallback : Option Addr) (ps : List Prefix) :
    probe preferIPv4 fallback ps =
      ((ps.find? fun p => p.candidate.any (·.is4 = preferIPv4)).bind Prefix.candidate).or
        (fallback.or ((ps.find? fun p => p.candidate.isSome).bind Prefix.candidate)) := by
  induction ps generalizing fallback with
  | nil => simp [probe]
  | cons p ps ih =>
    cases hc : p.candidate with
    | none => simp [probe, hc, ih]
    | some c =>
      by_cases hpref : c.is4 = preferIPv4
      · simp [probe, hc, hpref]
      · simp [probe, hc, hpref, ih]

lemma exists_chosen {preferIPv4 : Bool} {ps : List Prefix} {c : Addr}
    (hc : probe preferIPv4 none ps = some c) :
    ∃ p ∈ ps, chosen preferIPv4 ps = some p ∧ p.candidate = some c ∧
      ∀ q ∈ ps, q.candidate.any (·.is4 = preferIPv4) = true → c.is4 = preferIPv4 := by
  rw [probe_eq] at hc
  unfold chosen
  cases hfind : ps.find? fun p => p.candidate.any (·.is4 = preferIPv4) with
  | some p =>
    have hany := find?_some hfind
    obtain ⟨c', hc', hpref⟩ := (any_eq_true _ _).mp hany
    simp only [hfind, bind_some, hc', some_or, Option.some.injEq] at hc
    subst hc
    exact ⟨p, mem_of_find?_eq_some hfind, rfl, hc', fun _ _ _ => by simpa using hpref⟩
  | none =>
    rw [hfind, bind_none] at hc
    obtain ⟨p, hp, hc⟩ := bind_eq_some_iff.mp hc
    refine ⟨p, mem_of_find?_eq_some hp, by rw [none_or, hp], hc, fun q hq hpref => ?_⟩
    exact absurd hpref (find?_eq_none.mp hfind q hq)

/-! ### Blocks -/

namespace Prefix

variable (p : Prefix)

def size : ℕ := 2 ^ (p.addr.bitLen - p.bits)

/-- The first address of the block. -/
def first : ℕ := p.addr.value / p.size * p.size

/-- The last address of the block. -/
def last : ℕ := p.first + (p.size - 1)

def Holds (n : ℕ) : Prop := p.first ≤ n ∧ n ≤ p.last

/-- The prefix is not IPv4-mapped, and it is a single address or its address is not the last one of
the block. -/
def Usable : Prop :=
  p.addr.is4In6 = false ∧ (p.bits = p.addr.bitLen ∨ p.addr.value ≠ p.last)

/-- `q` holds the IPv4 form of the address of `p`, or what comes behind it, if `p` is IPv4-mapped,
and else the address behind the block of `p`. -/
def Catches (q p : Prefix) : Prop :=
  if p.addr.is4In6 then
    q.addr.is4 = true ∧ q.Holds (p.addr.value % 2 ^ 32 + if p.bits < 32 then 1 else 0)
  else q.addr.is4 = p.addr.is4 ∧ q.Holds (p.last + 1)

instance (n : ℕ) : Decidable (p.Holds n) := inferInstanceAs (Decidable (_ ∧ _))

instance (q : Prefix) : Decidable (q.Catches p) := inferInstanceAs (Decidable (ite _ _ _))

lemma size_pos : 0 < p.size := Nat.two_pow_pos _

lemma contains_iff (a : Addr) :
    p.contains a = true ↔ p.addr.is4 = a.is4 ∧ p.Holds a.value := by
  have hpos := p.size_pos
  simp only [contains, Bool.and_eq_true, beq_iff_eq]
  refine and_congr_right fun _ => ?_
  change p.addr.value / p.size = a.value / p.size ↔ _
  rw [eq_comm, Nat.div_eq_iff hpos]
  simp only [Holds, last, first]
  omega

lemma holds_value : p.Holds p.addr.value :=
  ((p.contains_iff p.addr).mp (by simp [contains])).2

/-- The address of a prefix, unmapped, or the one behind it. -/
def target : Addr :=
  if p.bits < p.addr.unmap.bitLen then { p.addr.unmap with value := p.addr.unmap.value + 1 }
  else p.addr.unmap

variable {p}

lemma eq_target {c : Addr} (hc : p.candidate = some c) : c = p.target := by
  unfold candidate at hc
  unfold target
  split_ifs at hc ⊢
  · exact (Option.some.inj (Option.ite_none_right_eq_some.mp hc).2).symm
  · exact (Option.some.inj hc).symm

lemma is4_of_mapped (hmapped : p.addr.is4In6 = true) : p.addr.is4 = false := by
  simp only [Addr.is4In6, Bool.and_eq_true, Bool.not_eq_true'] at hmapped
  exact hmapped.1

lemma is4_target : p.target.is4 = (p.addr.is4 || p.addr.is4In6) := by
  unfold target
  cases hmapped : p.addr.is4In6 with
  | true => split_ifs <;> simp [Addr.unmap, hmapped]
  | false => split_ifs <;> simp [Addr.unmap, hmapped]

lemma target_of_not_mapped (hmapped : p.addr.is4In6 = false) :
    p.target.value = if p.bits < p.addr.bitLen then p.addr.value + 1 else p.addr.value := by
  simp only [target, Addr.unmap, hmapped, Bool.false_eq_true, if_false]
  split_ifs <;> rfl

lemma contains_target_iff : p.contains p.target = true ↔ p.Usable := by
  rw [contains_iff, is4_target, Usable]
  cases hmapped : p.addr.is4In6 with
  | true => simp [is4_of_mapped hmapped]
  | false =>
    have hvalue := p.holds_value
    simp only [Bool.or_false, true_and, target_of_not_mapped hmapped]
    split_ifs with hlt
    · simp only [Holds, hlt.ne, false_or] at hvalue ⊢
      omega
    · simp [hvalue, le_antisymm p.bits_le (not_lt.mp hlt)]

lemma catches_iff {q : Prefix} (h : ¬ p.Usable) : q.Catches p ↔ q.contains p.target = true := by
  rw [contains_iff, is4_target, Catches]
  cases hmapped : p.addr.is4In6 with
  | true =>
    simp only [target, Addr.unmap, hmapped, if_true, Bool.or_true, Addr.bitLen]
    split_ifs <;> rfl
  | false =>
    simp only [Usable, hmapped, true_and, not_or, not_not] at h
    rw [target_of_not_mapped hmapped, if_pos (lt_of_le_of_ne p.bits_le h.1), h.2]
    simp

end Prefix

/-- The address is inside an allowed prefix, and it is of the preferred family if an allowed prefix
of this family yields an address. -/
def Carried (ps : List Prefix) (preferIPv4 : Bool) (c : Addr) : Prop :=
  (∃ q ∈ ps, q.contains c = true) ∧
    ((∃ q ∈ ps, q.addr.is4 = preferIPv4 ∧ q.candidate.isSome) → c.is4 = preferIPv4)

/-- The tunnel carries the probe, to the preferred family where it can, exactly when the chosen
prefix is usable or another one catches its address; and, where IPv6 is preferred and an IPv4-mapped
prefix yields an address, another prefix of IPv6 does, too. -/
theorem handshakeProbeAddress_carried_iff (parsePrefix : String → Option Prefix)
    (peers : List (List String)) (preferIPv4 : Bool) (c : Addr)
    (hne : allowed parsePrefix peers ≠ [])
    (hc : handshakeProbeAddress parsePrefix peers preferIPv4 = some c) :
    Carried (allowed parsePrefix peers) preferIPv4 c ↔
      (∃ p, chosen preferIPv4 (allowed parsePrefix peers) = some p ∧
          (p.Usable ∨ ∃ q ∈ allowed parsePrefix peers, q.Catches p)) ∧
        (preferIPv4 = false →
          (∃ q ∈ allowed parsePrefix peers, q.addr.is4In6 = true ∧ q.candidate.isSome) →
          ∃ q ∈ allowed parsePrefix peers,
            q.addr.is4 = false ∧ q.addr.is4In6 = false ∧ q.candidate.isSome) := by
  rw [handshakeProbeAddress, if_neg hne] at hc
  generalize allowed parsePrefix peers = ps at *
  obtain ⟨p, hp, hchosen, hcand, hpref⟩ := exists_chosen hc
  have hfamily : ∀ q ∈ ps, q.candidate.isSome → q.addr.is4In6 = false → q.addr.is4 = preferIPv4 →
      c.is4 = preferIPv4 := by
    intro q hq hvalid hmapped h4
    obtain ⟨c', hc'⟩ := isSome_iff_exists.mp hvalid
    refine hpref q hq ?_
    simp [hc', Prefix.eq_target hc', Prefix.is4_target, hmapped, h4]
  obtain rfl := Prefix.eq_target hcand
  refine and_congr ?_ ?_
  · simp only [hchosen, Option.some.injEq, exists_eq_left']
    by_cases husable : p.Usable
    · simp only [husable, true_or, iff_true]
      exact ⟨p, hp, Prefix.contains_target_iff.mpr husable⟩
    · simp only [husable, false_or, Prefix.catches_iff husable]
  · constructor
    · rintro h rfl ⟨q, hq, hmapped, hvalid⟩
      have h6 := h ⟨q, hq, Prefix.is4_of_mapped hmapped, hvalid⟩
      rw [Prefix.is4_target, Bool.or_eq_false_iff] at h6
      exact ⟨p, hp, h6.1, h6.2, by simp [hcand]⟩
    · rintro h ⟨q, hq, h4, hvalid⟩
      cases hmapped : q.addr.is4In6 with
      | false => exact hfamily q hq hvalid hmapped h4
      | true =>
        rw [Prefix.is4_of_mapped hmapped] at h4
        subst h4
        obtain ⟨q', hq', h4', hmapped', hvalid'⟩ := h rfl ⟨q, hq, hmapped, hvalid⟩
        exact hfamily q' hq' hvalid' hmapped' h4'

/-- The allowed prefixes are those of one peer, under names. -/
def parseExample : String → Option Prefix
  | "10.0.1.0/24" => some ⟨⟨true, 0x0a000100⟩, 24, by decide⟩
  | "10.0.0.255/24" => some ⟨⟨true, 0x0a0000ff⟩, 24, by decide⟩
  | _ => none

theorem handshakeProbeAddress_carried_example :
    Carried (allowed parseExample [["10.0.0.255/24", "10.0.1.0/24"]]) true ⟨true, 0x0a000100⟩ :=
  (handshakeProbeAddress_carried_iff parseExample [["10.0.0.255/24", "10.0.1.0/24"]] true _
    (by decide) rfl).mpr
    ⟨⟨_, rfl, .inr ⟨⟨⟨true, 0x0a000100⟩, 24, by decide⟩, by decide, by decide⟩⟩, by decide⟩

/-- The address behind the last one of a block is outside of it. -/
theorem handshakeProbeAddress_outside :
    ∃ c, handshakeProbeAddress parseExample [["10.0.0.255/24"]] true = some c ∧
      ¬ ∃ q ∈ allowed parseExample [["10.0.0.255/24"]], q.contains c = true :=
  ⟨_, rfl, by decide⟩

end BypassCore.Proxy.WireGuard
