import BypassCore.Geodata.StrMatcher.AC.Match

/-!
# The automaton is exact

The classes of bytes tell the bytes of patterns apart from each other and from every other byte that
is not an upper-case letter. So what the automaton reports by classes is what the matchers accept.
-/

namespace BypassCore.StrMatcher.ACAutomatonMatcherGroup

open Lib List

variable {b c : UInt8} {s p input : List UInt8} {v w : UInt32}

/-! ### Classes of bytes -/

/-- The bytes of patterns: lower-case letters, digits, hyphen and dot. -/
def isPatternByte (b : UInt8) : Bool :=
  (97 ≤ b.toNat && b.toNat ≤ 122) || (48 ≤ b.toNat && b.toNat ≤ 57) || b.toNat == 45 ||
    b.toNat == 46

lemma isPatternByte_iff :
    isPatternByte b = true ↔
      (97 ≤ b.toNat ∧ b.toNat ≤ 122) ∨ (48 ≤ b.toNat ∧ b.toNat ≤ 57) ∨ b.toNat = 45 ∨
        b.toNat = 46 := by
  simp [isPatternByte, or_assoc]

lemma acCharset_val (b : UInt8) :
    (acCharset b).val =
      if 65 ≤ b.toNat ∧ b.toNat ≤ 90 then b.toNat - 64
      else if 97 ≤ b.toNat ∧ b.toNat ≤ 122 then b.toNat - 96
      else if b.toNat = 45 then 27
      else if b.toNat = 46 then 28
      else if 48 ≤ b.toNat ∧ b.toNat ≤ 57 then b.toNat - 19 else 0 := by
  unfold acCharset
  split_ifs
  · exact Nat.mod_eq_of_lt (by omega)
  · exact Nat.mod_eq_of_lt (by omega)
  · rfl
  · rfl
  · exact Nat.mod_eq_of_lt (by omega)
  · rfl

/-- A byte of a pattern shares its class with no other byte but its upper-case form. -/
lemma acCharset_eq_iff (hb : ASCII.isUpper b = false) (hc : isPatternByte c = true) :
    acCharset c = acCharset b ↔ c = b := by
  have hb' : ¬ (65 ≤ b.toNat ∧ b.toNat ≤ 90) := by
    rw [← ASCII.isUpper_iff, hb]
    exact Bool.false_ne_true
  rw [isPatternByte_iff] at hc
  constructor
  · intro h
    have hval := congrArg Fin.val h
    rw [acCharset_val, acCharset_val] at hval
    apply UInt8.toNat_inj.mp
    -- the ranges of the classes do not overlap
    rcases hc with hc | hc | hc | hc
    · rw [if_pos hc] at hval
      split_ifs at hval <;> omega
    · rw [if_pos hc] at hval
      split_ifs at hval <;> omega
    · rw [if_pos hc] at hval
      split_ifs at hval <;> omega
    · rw [if_pos hc] at hval
      split_ifs at hval <;> omega
  · rintro rfl
    rfl

def Lower (s : List UInt8) : Prop := ∀ b ∈ s, ASCII.isUpper b = false

def LDH (s : List UInt8) : Prop := ∀ b ∈ s, isPatternByte b = true

instance : Decidable (Lower s) :=
  decidable_of_iff ((s.all fun b => !ASCII.isUpper b) = true) (by simp [Lower])

instance : Decidable (LDH s) :=
  decidable_of_iff (s.all isPatternByte = true) List.all_eq_true

lemma Lower.of_suffix (h : Lower input) (hs : s <:+ input) : Lower s :=
  fun b hb => h b (hs.subset hb)

lemma classes_start_iff (hs : Lower s) (hp : LDH p) : classes p <+: classes s ↔ p <+: s := by
  induction p generalizing s with
  | nil => simp
  | cons c p ih =>
    cases s with
    | nil => simp
    | cons b s =>
      simp only [map_cons, cons_prefix_cons]
      rw [acCharset_eq_iff (hs b mem_cons_self) (hp c mem_cons_self)]
      exact and_congr_right fun _ => ih (fun a ha => hs a (mem_cons_of_mem _ ha))
        (fun a ha => hp a (mem_cons_of_mem _ ha))

lemma classes_eq_iff (hs : Lower s) (hp : LDH p) : classes s = classes p ↔ s = p := by
  constructor
  · intro h
    have hstart : p <+: s := (classes_start_iff hs hp).mp (h ▸ ⟨[], append_nil _⟩)
    have hlen : p.length = s.length := by
      have := congrArg List.length h
      rw [length_map, length_map] at this
      exact this.symm
    exact (hstart.eq_of_length hlen).symm
  · rintro rfl
    rfl

/-- A matcher for the automaton: a non-empty pattern of lower-case letters, digits, hyphens and
dots, which does not start with a dot if it is a domain. -/
structure Admissible (m : Matcher) : Prop where
  nonempty : m.pattern ≠ []
  bytes : LDH m.pattern
  dot : m.type = .domain → m.pattern.head? ≠ some dot

instance {m : Matcher} : Decidable (Admissible m) :=
  decidable_of_iff
    (m.pattern ≠ [] ∧ LDH m.pattern ∧
      (m.type = .domain → m.pattern.head? ≠ some StrMatcher.dot))
    ⟨fun ⟨hn, hb, hd⟩ => ⟨hn, hb, hd⟩, fun h => ⟨h.nonempty, h.bytes, h.dot⟩⟩

variable {m : Matcher}

section

variable (hm : Admissible m)
include hm

lemma Admissible.dot_bytes : LDH (StrMatcher.dot :: m.pattern) := by
  exact forall_mem_cons.mpr ⟨rfl, hm.bytes⟩

lemma Admissible.reported_full (ht : m.type = .full) (hs : Lower input) :
    Reported (registrations (m, w)) input v ↔ m.pattern = input ∧ v = w := by
  simp only [Reported, SubstrFound, DomainFound, registrations, ht, mem_singleton,
    Prod.mk.injEq, reduceCtorEq, false_and, and_false, exists_false, false_or, true_and,
    classes_eq_iff hs hm.bytes]
  exact and_congr_left' eq_comm

lemma Admissible.reported_substr (ht : m.type = .substr) (hs : Lower input) :
    Reported (registrations (m, w)) input v ↔ m.pattern <:+: input ∧ v = w := by
  simp only [Reported, SubstrFound, DomainFound, registrations, ht, mem_singleton,
    Prod.mk.injEq, reduceCtorEq, false_and, and_false, exists_false, or_false, true_and]
  constructor
  · rintro ⟨x, p, hx, hp, rfl, rfl⟩
    have hstart := (classes_start_iff (hs.of_suffix hx) hm.bytes).mp hp
    exact ⟨hstart.isInfix.trans hx.isInfix, rfl⟩
  · rintro ⟨⟨front, back, rfl⟩, rfl⟩
    have hx : m.pattern ++ back <:+ front ++ m.pattern ++ back :=
      ⟨front, (append_assoc ..).symm⟩
    exact ⟨m.pattern ++ back, _, hx,
      (classes_start_iff (hs.of_suffix hx) hm.bytes).mpr ⟨back, rfl⟩, rfl, rfl⟩

lemma Admissible.reported_domain (ht : m.type = .domain) (hs : Lower input) :
    Reported (registrations (m, w)) input v ↔
      (m.pattern = input ∨ StrMatcher.dot :: m.pattern <:+ input) ∧ v = w := by
  simp only [Reported, SubstrFound, DomainFound, registrations, ht, mem_cons,
    not_mem_nil, or_false, Prod.mk.injEq, reduceCtorEq, false_and, and_false, exists_false,
    false_or, true_and, classes_eq_iff hs hm.bytes, classes_eq_iff hs hm.dot_bytes]
  constructor
  · rintro (⟨x, hx, hd, ⟨hr, hv⟩ | ⟨hr, hv⟩⟩ | ⟨rfl, hv⟩ | ⟨rfl, hv⟩)
    · rw [(classes_eq_iff (hs.of_suffix hx) hm.bytes).mp hr] at hd
      exact absurd hd (hm.dot ht)
    · rw [(classes_eq_iff (hs.of_suffix hx) hm.dot_bytes).mp hr] at hx
      exact ⟨.inr hx, hv⟩
    · exact ⟨.inl rfl, hv⟩
    · exact ⟨.inr suffix_rfl, hv⟩
  · rintro ⟨rfl | hx, hv⟩
    · exact .inr (.inl ⟨rfl, hv⟩)
    · exact .inl ⟨_, hx, rfl, .inr ⟨rfl, hv⟩⟩

lemma Admissible.reported_iff (hs : Lower input) :
    Reported (registrations (m, w)) input v ↔ m.accepts input = true ∧ v = w := by
  unfold Matcher.accepts
  cases ht : m.type with
  | full => rw [hm.reported_full ht hs, fullMatch_iff]
  | domain => rw [hm.reported_domain ht hs, domainMatch_iff]
  | substr => rw [hm.reported_substr ht hs, substrMatch, contains_iff]

end

/-! ### The group as a whole -/

section Group

variable {matchers : List (Matcher × UInt32)}

lemma reported_flatMap :
    Reported (matchers.flatMap registrations) input v ↔
      ∃ m ∈ matchers, Reported (registrations m) input v := by
  simp only [Reported, SubstrFound, DomainFound, mem_flatMap]
  constructor
  · rintro (⟨x, p, hx, hp, m, hm, hr⟩ | ⟨x, hx, hd, m, hm, hr⟩ | ⟨m, hm, hr⟩ | ⟨m, hm, hr⟩)
    · exact ⟨m, hm, .inl ⟨x, p, hx, hp, hr⟩⟩
    · exact ⟨m, hm, .inr (.inl ⟨x, hx, hd, hr⟩)⟩
    · exact ⟨m, hm, .inr (.inr (.inl hr))⟩
    · exact ⟨m, hm, .inr (.inr (.inr hr))⟩
  · rintro ⟨m, hm, ⟨x, p, hx, hp, hr⟩ | ⟨x, hx, hd, hr⟩ | hr | hr⟩
    · exact .inl ⟨x, p, hx, hp, m, hm, hr⟩
    · exact .inr (.inl ⟨x, hx, hd, m, hm, hr⟩)
    · exact .inr (.inr (.inl ⟨m, hm, hr⟩))
    · exact .inr (.inr (.inr ⟨m, hm, hr⟩))

lemma reported_iff_mem_acceptedValues (hadm : ∀ m ∈ matchers, Admissible m.1) (hs : Lower input) :
    Reported (matchers.flatMap registrations) input v ↔ v ∈ acceptedValues matchers input := by
  rw [reported_flatMap, mem_acceptedValues]
  constructor
  · rintro ⟨⟨m, w⟩, hm, hr⟩
    obtain ⟨hacc, rfl⟩ := ((hadm _ hm).reported_iff hs).mp hr
    exact ⟨m, hm, hacc⟩
  · rintro ⟨m, hm, hacc⟩
    exact ⟨(m, v), hm, ((hadm _ hm).reported_iff hs).mpr ⟨hacc, rfl⟩⟩

lemma nil_not_registered (hadm : ∀ m ∈ matchers, Admissible m.1) (t : MatcherType) (v : UInt32) :
    ([], t, v) ∉ matchers.flatMap registrations := by
  rw [mem_flatMap]
  rintro ⟨m, hm, hr⟩
  have hne : classes m.1.pattern ≠ [] := by
    rw [ne_eq, map_eq_nil_iff]
    exact (hadm m hm).nonempty
  unfold registrations at hr
  cases ht : m.1.type with
  | full => simp [ht, hne.symm] at hr
  | domain => simp [ht, hne.symm] at hr
  | substr => simp [ht, hne.symm] at hr

/-- **The automaton is exact.** For matchers with lower-case patterns and an input without
upper-case letters the build returns, and after it `Match` returns the values of the matchers that
accept the input and no others, and `MatchAny` tells whether there is one. Nodes and match entries
are counted by 32-bit words. -/
theorem ac_exact (matchers : List (Matcher × UInt32)) (hadm : ∀ m ∈ matchers, Admissible m.1)
    (hfits : Fits (ofMatchers matchers)) (input : List UInt8) (hlower : Lower input) :
    (∀ fuel, (ofMatchers matchers).nodes.length ≤ fuel →
        ∃ ac, (ofMatchers matchers).build fuel = some ac) ∧
      ∀ fuel ac, (ofMatchers matchers).build fuel = some ac →
        (∀ fuel', 2 * ac.nodes.length ≤ fuel' →
          ∃ vs, ac.matchInput fuel' input = some vs ∧
            ∀ v, v ∈ vs ↔ v ∈ acceptedValues matchers input) ∧
        (ac.matchAny input = true ↔ acceptedValues matchers input ≠ []) := by
  obtain ⟨W, htrie, -⟩ := trie_ofMatchers hfits
  have hnil := nil_not_registered hadm
  refine ⟨fun fuel hfuel => htrie.build_isSome hfuel, fun fuel ac hbuild => ?_⟩
  have hac := htrie.build hbuild
  refine ⟨fun fuel' hfuel' => ?_, ?_⟩
  · obtain ⟨vs, hvs, hreported⟩ := hac.matchInput hnil hfuel' input
    refine ⟨vs, hvs, fun v => ?_⟩
    rw [hreported, reported_iff_mem_acceptedValues hadm hlower]
  · rw [hac.matchAny hnil, acceptedValues_ne_nil]
    simp only [reported_iff_mem_acceptedValues hadm hlower]

/-- Two substrings, one inside the other, a domain and a full pattern. -/
def exampleMatchers : List (Matcher × UInt32) :=
  [(⟨.substr, ascii "ab"⟩, 1), (⟨.substr, ascii "b"⟩, 2), (⟨.domain, ascii "b.c"⟩, 3),
    (⟨.full, ascii "b"⟩, 4)]

theorem ac_exact_exampleMatchers :
    ∃ ac, (ofMatchers exampleMatchers).build 10 = some ac ∧
      (∃ vs, ac.matchInput (2 * ac.nodes.length) (ascii "_ab.c") = some vs ∧
        ∀ v, v ∈ vs ↔ v ∈ [1, 2]) ∧ ac.matchAny (ascii "_ab.c") = true := by
  have h := ac_exact exampleMatchers (by decide) (by decide) (ascii "_ab.c") (by decide)
  obtain ⟨ac, hbuild⟩ := h.1 10 (by decide)
  obtain ⟨hmatch, hany⟩ := h.2 10 ac hbuild
  exact ⟨ac, hbuild, hmatch _ le_rfl, hany.mpr (by decide)⟩

end Group

/-!
## An automaton of keywords

With keywords only, the automaton reports a keyword that is not empty exactly when the input
contains it. An empty keyword is registered at the root, which no link leads to. It is reported only
when the automaton is at the root after some byte: when no keyword has an ending that starts there.
-/

variable {ac : ACAutomatonMatcherGroup} {W : List Word} {keywords : List (Matcher × UInt32)}
  {input x : List UInt8} {v : UInt32}

/-- At some place of the input no ending of a pattern starts. -/
def Lost (patterns : List (List UInt8)) (input : List UInt8) : Prop :=
  ∃ x, x ≠ [] ∧ x <:+ input ∧ ∀ k ∈ patterns, ∀ w, w ≠ [] → w <+: x → ¬ w <:+ k

def KeywordSeen (patterns : List (List UInt8)) (input pattern : List UInt8) : Prop :=
  (pattern ≠ [] ∧ pattern <:+: input) ∨ (pattern = [] ∧ Lost patterns input)

def patterns (matchers : List (Matcher × UInt32)) : List (List UInt8) :=
  matchers.map fun m => m.1.pattern

structure Keywords (matchers : List (Matcher × UInt32)) : Prop where
  type : ∀ m ∈ matchers, m.1.type = .substr
  bytes : ∀ m ∈ matchers, LDH m.1.pattern

lemma Keywords.mem_registrations (h : Keywords keywords) {w : Word} {t : MatcherType} :
    (w, t, v) ∈ keywords.flatMap registrations ↔
      t = .substr ∧ ∃ m, (m, v) ∈ keywords ∧ w = classes m.pattern := by
  rw [mem_flatMap]
  constructor
  · rintro ⟨⟨m, u⟩, hm, hr⟩
    have ht : m.type = .substr := h.type _ hm
    simp only [registrations, ht, mem_singleton] at hr
    obtain ⟨rfl, rfl, rfl⟩ := hr
    exact ⟨rfl, m, hm, rfl⟩
  · rintro ⟨rfl, m, hm, rfl⟩
    refine ⟨(m, v), hm, ?_⟩
    have ht : m.type = .substr := h.type _ hm
    simp [registrations, ht]

lemma classes_suffix_mem (hclosed : ∀ {e w}, e :: w ∈ W → w ∈ W) {w k : List UInt8}
    (hw : w <:+ k) (hk : classes k ∈ W) : classes w ∈ W := by
  obtain ⟨front, rfl⟩ := hw
  induction front with
  | nil => exact hk
  | cons b front ih => exact ih (hclosed hk)

section Automaton

variable (h : Keywords keywords) (hac : Automaton ac W (keywords.flatMap registrations))
  (hwords : ∀ x ∈ W, x = [] ∨ ∃ r ∈ keywords.flatMap registrations, x <:+ r.1)
include h hac hwords

/-- The automaton is at the root exactly where no ending of a keyword starts. -/
lemma Keywords.longest_nil_iff (hx : Lower x) :
    Longest (words W) (classes x) [] ↔
      ∀ k ∈ patterns keywords, ∀ w, w ≠ [] → w <+: x → ¬ w <:+ k := by
  constructor
  · rintro hroot k hk w hw hwx hwk
    obtain ⟨⟨m, u⟩, hm, rfl⟩ := mem_map.mp hk
    have hmem : classes m.pattern ∈ W :=
      hac.labels.registered (h.mem_registrations.mpr ⟨rfl, m, hm, rfl⟩)
    have hle := hroot.longest (hwx.map acCharset) (classes_suffix_mem hac.labels.closed hwk hmem)
    exact hw (map_eq_nil_iff.mp (prefix_nil.mp hle))
  · intro hno
    refine ⟨ nil_prefix, hac.labels.nil_mem, ?_⟩
    intro q hq hqW
    rcases hwords q hqW with rfl | ⟨⟨w, t, u⟩, hr, hqr⟩
    · exact prefix_rfl
    obtain ⟨-, m, hm, rfl⟩ := h.mem_registrations.mp hr
    -- the word is the classes of a start of `x` and of an end of the pattern, which are the same
    obtain ⟨w, hwx, rfl⟩ := prefix_map_iff.mp hq
    obtain ⟨w', hwk, heq⟩ := suffix_map_iff.mp hqr
    have hw' : LDH w' := fun b hb => h.bytes _ hm b (hwk.subset hb)
    have hw : Lower w := fun b hb => hx b (hwx.subset hb)
    have hsame : w = w' := (classes_eq_iff hw hw').mp heq
    subst hsame
    by_contra hne
    have hw0 : w ≠ [] := by
      rintro rfl
      exact hne prefix_rfl
    exact hno _ (mem_map.mpr ⟨(m, u), hm, rfl⟩) w hw0 hwx hwk

lemma Keywords.seen_iff (hs : Lower input) :
    Seen W (keywords.flatMap registrations) input v ↔
      ∃ m, (m, v) ∈ keywords ∧ KeywordSeen (patterns keywords) input m.pattern := by
  simp only [Seen, DomainFound, SubstrSeen, Starts, h.mem_registrations, reduceCtorEq, false_and,
    and_false, exists_false, or_false, true_and]
  constructor
  · rintro ⟨x, hx0, hx, ⟨q, hq0, hq, m, hm, rfl⟩ | ⟨hroot, m, hm, hnil⟩⟩
    · have hstart := (classes_start_iff (hs.of_suffix hx) (h.bytes _ hm)).mp hq
      refine ⟨m, hm, .inl ⟨?_, hstart.isInfix.trans hx.isInfix⟩⟩
      intro hp
      exact hq0 (map_eq_nil_iff.mpr hp)
    · have hlost := (h.longest_nil_iff hac hwords (hs.of_suffix hx)).mp hroot
      exact ⟨m, hm, .inr ⟨map_eq_nil_iff.mp hnil.symm, x, hx0, hx, hlost⟩⟩
  · rintro ⟨m, hm, ⟨hp, front, back, heq⟩ | ⟨hp, x, hx0, hx, hlost⟩⟩
    · have hx : m.pattern ++ back <:+ input := ⟨front, by rw [← heq, append_assoc]⟩
      have hx0 : m.pattern ++ back ≠ [] := fun h0 => hp (append_eq_nil_iff.mp h0).1
      refine ⟨_, hx0, hx, .inl ⟨_, ?_, ?_, m, hm, rfl⟩⟩
      · exact fun h0 => hp (map_eq_nil_iff.mp h0)
      · exact (classes_start_iff (hs.of_suffix hx) (h.bytes _ hm)).mpr ⟨back, rfl⟩
    · refine ⟨x, hx0, hx, .inr ⟨?_, m, hm, ?_⟩⟩
      · exact (h.longest_nil_iff hac hwords (hs.of_suffix hx)).mpr hlost
      · rw [hp]
        rfl

end Automaton

/-- **Keywords.** The build of an automaton of keywords returns. After it `Match` returns the values
of the keywords that the automaton sees, and `MatchAny` tells whether there is one, except that for
an empty input any empty keyword counts. -/
theorem Keywords.exact (h : Keywords keywords) (hfits : Fits (ofMatchers keywords))
    (hs : Lower input) :
    ∃ ac, (ofMatchers keywords).build (ofMatchers keywords).nodes.length = some ac ∧
      (∃ vs, ac.matchInput (2 * ac.nodes.length) input = some vs ∧
        ∀ v, v ∈ vs ↔ ∃ m, (m, v) ∈ keywords ∧ KeywordSeen (patterns keywords) input m.pattern) ∧
      (ac.matchAny input = true ↔
        (∃ v m, (m, v) ∈ keywords ∧ KeywordSeen (patterns keywords) input m.pattern) ∨
          (input = [] ∧ [] ∈ patterns keywords)) := by
  obtain ⟨W, htrie, hwords⟩ := trie_ofMatchers hfits
  obtain ⟨ac, hbuild⟩ := htrie.build_isSome le_rfl
  have hac := htrie.build hbuild
  refine ⟨ac, hbuild, ?_, ?_⟩
  · obtain ⟨vs, hvs, hseen⟩ := hac.matchInput_seen le_rfl input
    exact ⟨vs, hvs, fun v => (hseen v).trans (h.seen_iff hac hwords hs)⟩
  · rw [hac.matchAny_seen]
    simp only [h.seen_iff hac hwords hs, h.mem_registrations, true_and]
    refine or_congr_right (and_congr_right fun _ => ?_)
    constructor
    · rintro ⟨v, m, hm, hnil⟩
      exact mem_map.mpr ⟨(m, v), hm, map_eq_nil_iff.mp hnil.symm⟩
    · intro hnil
      obtain ⟨⟨m, v⟩, hm, hnil⟩ := mem_map.mp hnil
      exact ⟨v, m, hm, (map_eq_nil_iff.mpr hnil).symm⟩

end BypassCore.StrMatcher.ACAutomatonMatcherGroup
