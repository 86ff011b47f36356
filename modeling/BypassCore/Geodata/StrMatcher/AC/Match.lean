import BypassCore.Geodata.StrMatcher.AC.Build

/-!
# Matching with the automaton

After a suffix of the input the automaton is at the longest prefix of its classes in the trie, and
the flag for full matches tells whether the whole suffix is in the trie. The node and its fail path
give the substring matchers that start here, and the node alone the domain and full matchers.

The loop along the fail path visits every node but the last one twice, since its header takes the
next node from the old index. This changes no set of values.
-/

namespace BypassCore.StrMatcher.ACAutomatonMatcherGroup

open Lib List ACAutomatonMatcherGroup

variable {ac : ACAutomatonMatcherGroup} {W : List Word} {regs : List Registration} {i : Nat}
  {w f : Word} {s : List UInt8} {b : UInt8} {v : UInt32}

lemma failPath_succ (ac : ACAutomatonMatcherGroup) (fuel failNode : Nat) {failIdx : Nat}
    (h : failIdx ≠ 0) :
    ac.failPath (fuel + 1) failIdx failNode =
      (ac.failPath fuel (ac.node failNode).fail failIdx).map fun rest =>
        ac.entry (ac.node failNode).matchIdx .substr :: rest := by
  obtain ⟨k, rfl⟩ := Nat.exists_eq_succ_of_ne_zero h
  rfl

lemma failPath_zero (ac : ACAutomatonMatcherGroup) (fuel failNode : Nat) :
    ac.failPath fuel 0 failNode = some [] := by
  cases fuel <;> rfl

/-- The substring matchers among the non-empty prefixes of a word: those of its node and those of
its link. -/
lemma Labels.substr_iff (h : Labels ac W regs) (hi : W[i]? = some w) (hw : w ≠ []) {g : Word}
    (hg : Longest (insert [] (substrWords regs)) w.dropLast g) :
    (∃ p, p ≠ [] ∧ p <+: w ∧ (p, .substr, v) ∈ regs) ↔
      v ∈ ac.entry (ac.node i).matchIdx .substr ∨
        ∃ p, p ≠ [] ∧ p <+: g ∧ (p, .substr, v) ∈ regs := by
  rw [h.values hi]
  constructor
  · rintro ⟨p, hne, hp, hr⟩
    rcases (start_iff_or_link hg ⟨v, hr⟩).mp hp with rfl | hpg
    · exact .inl hr
    · exact .inr ⟨p, hne, hpg, hr⟩
  · rintro (hr | ⟨p, hne, hpg, hr⟩)
    · exact ⟨w, hw, (start_iff_or_link hg ⟨v, hr⟩).mpr (.inl rfl), hr⟩
    · exact ⟨p, hne, (start_iff_or_link hg ⟨v, hr⟩).mpr (.inr hpg), hr⟩

lemma no_start_nil : ¬ ∃ p : Word, p ≠ [] ∧ p <+: [] ∧ (p, .substr, v) ∈ regs := by
  rintro ⟨p, hne, hp, -⟩
  exact hne (prefix_nil.mp hp)

/-- The fail path from a node has the substring values of all non-empty prefixes of its word. It
stops in front of the root. -/
lemma Automaton.failPath (h : Automaton ac W regs) (hi : W[i]? = some f) (fuel : Nat)
    (hfuel : 2 * f.length ≤ fuel) :
    ∃ path, ac.failPath fuel i i = some path ∧
      ∀ v, v ∈ path.flatten ↔ ∃ p, p ≠ [] ∧ p <+: f ∧ (p, .substr, v) ∈ regs := by
  induction hlen : f.length using Nat.strong_induction_on generalizing f i fuel with
  | h n ih =>
    subst hlen
    by_cases hf : f = []
    · subst hf
      refine ⟨[], ?_, ?_⟩
      · rw [(h.labels.eq_zero_iff hi).mpr rfl]
        exact failPath_zero ac fuel 0
      · intro v
        simp only [flatten_nil, not_mem_nil, false_iff]
        exact no_start_nil
    · have hi0 : i ≠ 0 := fun h0 => hf ((h.labels.eq_zero_iff hi).mp h0)
      obtain ⟨g, hg, hglong⟩ := h.link hi
      have hglt := hglong.length_lt hf
      obtain ⟨fuel, rfl⟩ : ∃ k, fuel = k + 2 := ⟨fuel - 2, by omega⟩
      rw [failPath_succ ac _ _ hi0]
      by_cases hl : (ac.node i).fail = 0
      · rw [hl]
        refine ⟨_, rfl, fun v => ?_⟩
        obtain rfl : g = [] := (h.labels.eq_zero_iff hg).mp hl
        rw [h.labels.substr_iff hi hf hglong]
        simp
      · obtain ⟨path, hpath, hvalues⟩ := ih g.length hglt hg fuel (by omega) rfl
        rw [failPath_succ ac _ _ hl, hpath]
        refine ⟨_, rfl, fun v => ?_⟩
        rw [h.labels.substr_iff hi hf hglong, ← hvalues]
        simp

/-! ### One byte -/

/-- Reading a byte: the node is the longest prefix again, and the flag stays exactly as long as the
classes read so far are a word of the trie. -/
lemma Automaton.step (h : Automaton ac W regs) (hi : W[i]? = some w)
    (hw : Longest (words W) (classes s) w) {fullMatch : Bool}
    (hfull : fullMatch = true ↔ classes s ∈ W) (b : UInt8) :
    ∃ x, W[(ac.node i).next (acCharset b)]? = some x ∧
      Longest (words W) (classes (b :: s)) x ∧
      ((fullMatch && (ac.node i).edge (acCharset b) == .trie) = true ↔ classes (b :: s) ∈ W) := by
  obtain ⟨x, hx, hlong⟩ := h.next hi (acCharset b)
  refine ⟨x, hx, hw.cons h.labels.closed hlong, ?_⟩
  rw [Bool.and_eq_true, beq_iff_eq, h.labels.edge hi, hfull]
  constructor
  · rintro ⟨hs, hb⟩
    have heq : classes s = w := hw.eq_of_mem hs
    rw [← heq] at hb
    exact hb
  · intro hb
    have hs : classes s ∈ W := h.labels.closed hb
    have heq : classes s = w := hw.eq_of_mem hs
    rw [← heq]
    exact ⟨hs, hb⟩

/-- What the automaton reports among the substring matchers at a word: those of its non-empty
prefixes, and those of the empty pattern if it has gone back to the root. -/
def Starts (W : List Word) (regs : List Registration) (u : Word) (v : UInt32) : Prop :=
  (∃ p, p ≠ [] ∧ p <+: u ∧ (p, .substr, v) ∈ regs) ∨
    (Longest (words W) u [] ∧ ([], .substr, v) ∈ regs)

lemma Automaton.starts_iff (h : Automaton ac W regs) {n : Nat} {x u : Word}
    (hx : W[n]? = some x) (hlong : Longest (words W) u x) {g : Word}
    (hg : Longest (insert [] (substrWords regs)) x.dropLast g) :
    Starts W regs u v ↔
      v ∈ ac.entry (ac.node n).matchIdx .substr ∨
        ∃ p, p ≠ [] ∧ p <+: g ∧ (p, .substr, v) ∈ regs := by
  have hstart : (∃ p, p ≠ [] ∧ p <+: u ∧ (p, .substr, v) ∈ regs) ↔
      ∃ p, p ≠ [] ∧ p <+: x ∧ (p, .substr, v) ∈ regs := by
    refine exists_congr fun p => and_congr_right fun _ => and_congr_left fun hr => ?_
    exact hlong.start_iff (h.labels.registered hr)
  unfold Starts
  rw [hstart]
  by_cases hx0 : x = []
  · subst hx0
    obtain rfl : g = [] := prefix_nil.mp hg.start
    rw [or_iff_right no_start_nil, or_iff_left no_start_nil, h.labels.values hx,
      and_iff_right hlong]
  · rw [h.labels.substr_iff hx hx0 hg]
    refine or_iff_left ?_
    rintro ⟨hroot, -⟩
    exact hx0 (hlong.unique hroot)

/-- A substring matcher with this value is reported somewhere in the string. -/
def SubstrSeen (W : List Word) (regs : List Registration) (s : List UInt8) (v : UInt32) : Prop :=
  ∃ x, x ≠ [] ∧ x <:+ s ∧ Starts W regs (classes x) v

/-- A substring matcher with this value starts somewhere in the string. -/
def SubstrFound (regs : List Registration) (s : List UInt8) (v : UInt32) : Prop :=
  ∃ x p, x <:+ s ∧ p <+: classes x ∧ (p, .substr, v) ∈ regs

/-- A domain matcher with this value has a dot of the string in front of it. -/
def DomainFound (regs : List Registration) (s : List UInt8) (v : UInt32) : Prop :=
  ∃ x, x <:+ s ∧ x.head? = some dot ∧ (classes x, .domain, v) ∈ regs

lemma substrSeen_nil : ¬ SubstrSeen W regs [] v := by
  rintro ⟨x, hne, hx, -⟩
  exact hne (suffix_nil.mp hx)

lemma substrSeen_cons :
    SubstrSeen W regs (b :: s) v ↔ SubstrSeen W regs s v ∨ Starts W regs (classes (b :: s)) v := by
  constructor
  · rintro ⟨x, hne, hx, hv⟩
    rcases suffix_cons_iff.mp hx with rfl | hx
    · exact .inr hv
    · exact .inl ⟨x, hne, hx, hv⟩
  · rintro (⟨x, hne, hx, hv⟩ | hv)
    · exact ⟨x, hne, suffix_cons_iff.mpr (.inr hx), hv⟩
    · exact ⟨b :: s, cons_ne_nil b s, suffix_rfl, hv⟩

/-- Without an empty pattern every substring matcher that starts somewhere is reported. -/
lemma substrSeen_iff (hnil : ∀ t v, ([], t, v) ∉ regs) :
    SubstrSeen W regs s v ↔ SubstrFound regs s v := by
  constructor
  · rintro ⟨x, -, hx, ⟨p, -, hp, hr⟩ | ⟨-, hr⟩⟩
    · exact ⟨x, p, hx, hp, hr⟩
    · exact absurd hr (hnil _ _)
  · rintro ⟨x, p, hx, hp, hr⟩
    have hp0 : p ≠ [] := by
      rintro rfl
      exact hnil _ _ hr
    have hx0 : x ≠ [] := by
      rintro rfl
      exact hp0 (prefix_nil.mp hp)
    exact ⟨x, hx0, hx, .inl ⟨p, hp0, hp, hr⟩⟩

lemma domainFound_cons :
    DomainFound regs (b :: s) v ↔
      DomainFound regs s v ∨ (b = dot ∧ (classes (b :: s), .domain, v) ∈ regs) := by
  constructor
  · rintro ⟨x, hx, hd, hr⟩
    rcases suffix_cons_iff.mp hx with rfl | hx
    · exact .inr ⟨Option.some_inj.mp hd, hr⟩
    · exact .inl ⟨x, hx, hd, hr⟩
  · rintro (⟨x, hx, hd, hr⟩ | ⟨rfl, hr⟩)
    · exact ⟨x, suffix_cons_iff.mpr (.inr hx), hd, hr⟩
    · exact ⟨dot :: s, suffix_rfl, rfl, hr⟩

/-! ### The loop of `Match` -/

@[simp] lemma mem_appendValues {matched : List (List UInt32)} {values : List UInt32} :
    v ∈ (appendValues matched values).flatten ↔ v ∈ matched.flatten ∨ v ∈ values := by
  unfold appendValues
  by_cases h : values = []
  · simp [h]
  · simp [length_pos_iff.mpr h]

/-- The loop of `Match` after a suffix of the input. -/
structure Scanned (W : List Word) (regs : List Registration) (s : List UInt8) (st : MatchState) :
    Prop where
  node : ∃ w, W[st.node]? = some w ∧ Longest (words W) (classes s) w
  fullMatch : st.fullMatch = true ↔ classes s ∈ W
  suffix : ∀ {v}, v ∈ st.suffixMatches.flatten ↔ DomainFound regs s v
  substr : ∀ {v}, v ∈ st.substrMatches.flatten ↔ SubstrSeen W regs s v

lemma scanned_nil (h : Automaton ac W regs) :
    Scanned W regs [] ⟨0, true, [], []⟩ where
  node := ⟨[], h.labels.root, Longest.nil h.labels.nil_mem⟩
  fullMatch := by simpa using h.labels.nil_mem
  suffix := by
    intro v
    simp only [flatten_nil, not_mem_nil, false_iff]
    rintro ⟨x, hx, hd, -⟩
    rw [suffix_nil.mp hx] at hd
    cases hd
  substr := by
    intro v
    simp only [flatten_nil, not_mem_nil, false_iff]
    exact substrSeen_nil

/-- A round of the loop, given the values of the fail path. -/
lemma Automaton.enter (h : Automaton ac W regs) {st : MatchState} (hs : Scanned W regs s st)
    {x : Word} (hx : W[(ac.node st.node).next (acCharset b)]? = some x)
    {g : Word} (hg : Longest (insert [] (substrWords regs)) x.dropLast g)
    {path : List (List UInt32)}
    (hpath : ∀ v, v ∈ path.flatten ↔ ∃ p, p ≠ [] ∧ p <+: g ∧ (p, .substr, v) ∈ regs) :
    Scanned W regs (b :: s) (ac.enter st b path) := by
  obtain ⟨w, hw, hlong⟩ := hs.node
  obtain ⟨x', hx', hxlong, hfull⟩ := h.step hw hlong hs.fullMatch b
  obtain rfl : x = x' := Option.some_inj.mp (hx.symm.trans hx')
  set n := (ac.node st.node).next (acCharset b)
  set full := st.fullMatch && (ac.node st.node).edge (acCharset b) == .trie
  have hvalues : ∀ {t v}, v ∈ ac.entry (ac.node n).matchIdx t ↔ (x, t, v) ∈ regs :=
    h.labels.values hx
  have hpresent := h.labels.present hx
  refine ⟨⟨x, hx, hxlong⟩, hfull, ?_, ?_⟩
  · intro v
    rw [domainFound_cons, ← hs.suffix]
    show v ∈ (if (ac.node n).matchIdx ≠ 0 ∧ full ∧ b = dot then
      appendValues st.suffixMatches (ac.entry (ac.node n).matchIdx .domain)
      else st.suffixMatches).flatten ↔ _
    by_cases hc : (ac.node n).matchIdx ≠ 0 ∧ full ∧ b = dot
    · have hword : classes (b :: s) = x := hxlong.eq_of_mem (hfull.mp hc.2.1)
      rw [if_pos hc, mem_appendValues, hvalues, hword]
      simp [hc.2.2]
    · rw [if_neg hc]
      refine (or_iff_left ?_).symm
      rintro ⟨hb, hr⟩
      -- a registration would have put the word into the trie and given the node an entry
      have hmem := h.labels.registered hr
      have hword : classes (b :: s) = x := hxlong.eq_of_mem hmem
      exact hc ⟨hpresent.mpr ⟨_, v, hword ▸ hr⟩, hfull.mpr hmem, hb⟩
  · intro v
    have hall : Starts W regs (classes (b :: s)) v ↔
        v ∈ path.flatten ∨ v ∈ ac.entry (ac.node n).matchIdx .substr := by
      rw [hpath, or_comm, h.starts_iff hx hxlong hg]
    rw [substrSeen_cons, ← hs.substr, hall, ← or_assoc]
    show v ∈ (if (ac.node n).matchIdx ≠ 0 then
      appendValues (st.substrMatches ++ path) (ac.entry (ac.node n).matchIdx .substr)
      else st.substrMatches ++ path).flatten ↔ _
    by_cases hc : (ac.node n).matchIdx ≠ 0
    · rw [if_pos hc, mem_appendValues, flatten_append, mem_append]
    · rw [if_neg hc, flatten_append, mem_append]
      refine (or_iff_left fun hv => ?_).symm
      exact hc (hpresent.mpr ⟨_, v, hvalues.mp hv⟩)

variable {fuel : Nat}

/-- The loop of `Match` returns, and has collected what starts in the input. -/
lemma Automaton.scan (h : Automaton ac W regs)
    (hfuel : 2 * ac.nodes.length ≤ fuel) (s : List UInt8) :
    ∃ st, ac.scan fuel s = some st ∧ Scanned W regs s st := by
  induction s with
  | nil => exact ⟨_, rfl, scanned_nil h⟩
  | cons b s ih =>
    obtain ⟨st, hst, hs⟩ := ih
    obtain ⟨w, hw, -⟩ := hs.node
    obtain ⟨x, hx, -⟩ := h.next hw (acCharset b)
    obtain ⟨g, hg, hglong⟩ := h.link hx
    have hglen : 2 * g.length ≤ fuel := by
      have hlt := length_lt_of_closed h.labels.closed (mem_of_getElem? hg)
      rw [h.labels.length] at hlt
      omega
    obtain ⟨path, hpath, hvalues⟩ := h.failPath hg fuel hglen
    refine ⟨ac.enter st b path, ?_, h.enter hs hx hglong hvalues⟩
    simp [ACAutomatonMatcherGroup.scan, hst, hpath]

/-- What the automaton reports for an input. The root matters, because an empty pattern is reported
there only. -/
def Seen (W : List Word) (regs : List Registration) (input : List UInt8) (v : UInt32) : Prop :=
  SubstrSeen W regs input v ∨ DomainFound regs input v ∨
    (classes input, .domain, v) ∈ regs ∨ (classes input, .full, v) ∈ regs

def Reported (regs : List Registration) (input : List UInt8) (v : UInt32) : Prop :=
  SubstrFound regs input v ∨ DomainFound regs input v ∨
    (classes input, .domain, v) ∈ regs ∨ (classes input, .full, v) ∈ regs

lemma seen_iff (hnil : ∀ t v, ([], t, v) ∉ regs) {input : List UInt8} :
    Seen W regs input v ↔ Reported regs input v := by
  rw [Seen, substrSeen_iff hnil, Reported]

section Automaton

variable (h : Automaton ac W regs)
include h

lemma Automaton.mem_finish {st : MatchState} {input : List UInt8} (hs : Scanned W regs input st) :
    v ∈ (ac.finish st).flatten ↔
      DomainFound regs input v ∨
        (classes input, .domain, v) ∈ regs ∨ (classes input, .full, v) ∈ regs := by
  obtain ⟨w, hw, hlong⟩ := hs.node
  rw [finish, ← hs.suffix]
  by_cases hc : st.fullMatch = true ∧ (ac.node st.node).matchIdx ≠ 0
  · have hword : classes input = w := hlong.eq_of_mem (hs.fullMatch.mp hc.1)
    rw [if_pos hc, mem_appendValues, mem_appendValues, h.labels.values hw, h.labels.values hw,
      hword, or_assoc]
  · rw [if_neg hc]
    have hno : ∀ t, (classes input, t, v) ∉ regs := by
      intro t hr
      have hmem := h.labels.registered hr
      have hword : classes input = w := hlong.eq_of_mem hmem
      exact hc ⟨hs.fullMatch.mpr hmem, (h.labels.present hw).mpr ⟨t, v, hword ▸ hr⟩⟩
    simp [hno]

/-- `Match` returns, and returns what the automaton reports. -/
theorem Automaton.matchInput_seen (hfuel : 2 * ac.nodes.length ≤ fuel) (input : List UInt8) :
    ∃ vs, ac.matchInput fuel input = some vs ∧ ∀ v, v ∈ vs ↔ Seen W regs input v := by
  obtain ⟨st, hst, hs⟩ := h.scan hfuel input
  rw [matchInput, hst]
  refine ⟨_, rfl, fun v => ?_⟩
  unfold Seen
  rw [← h.mem_finish hs, ← hs.substr]
  dsimp only
  by_cases hl : st.substrMatches.length = 0
  · rw [if_pos hl, length_eq_zero_iff.mp hl]
    simp
  · rw [if_neg hl, mem_compositeMatchesReverse, flatten_append, mem_append]

/-- `Match` returns, and returns what is to be reported. -/
theorem Automaton.matchInput (hnil : ∀ t v, ([], t, v) ∉ regs)
    (hfuel : 2 * ac.nodes.length ≤ fuel) (input : List UInt8) :
    ∃ vs, ac.matchInput fuel input = some vs ∧ ∀ v, v ∈ vs ↔ Reported regs input v := by
  obtain ⟨vs, hvs, hseen⟩ := h.matchInput_seen hfuel input
  exact ⟨vs, hvs, fun v => (hseen v).trans (seen_iff hnil)⟩

/-! ### The loop of `MatchAny` -/

def Early (W : List Word) (regs : List Registration) (s : List UInt8) (v : UInt32) : Prop :=
  SubstrSeen W regs s v ∨ DomainFound regs s v

/-- What a byte adds makes the loop return: a link, substring matchers at the node, or domain
matchers behind a dot. -/
lemma Automaton.early_iff {n : Nat} {x : Word} (hx : W[n]? = some x)
    (hlong : Longest (words W) (classes (b :: s)) x) {full : Bool}
    (hfull : full = true ↔ classes (b :: s) ∈ W) :
    (∃ v, Starts W regs (classes (b :: s)) v ∨ (b = dot ∧ (classes (b :: s), .domain, v) ∈ regs)) ↔
      (ac.node n).fail ≠ 0 ∨
        ((ac.node n).matchIdx ≠ 0 ∧ (ac.entry (ac.node n).matchIdx .substr).length > 0) ∨
        ((ac.node n).matchIdx ≠ 0 ∧ full ∧ b = dot ∧
          (ac.entry (ac.node n).matchIdx .domain).length > 0) := by
  obtain ⟨g, hg, hglong⟩ := h.link hx
  have hpos : ∀ t, (ac.entry (ac.node n).matchIdx t).length > 0 ↔ ∃ v, (x, t, v) ∈ regs := by
    intro t
    rw [gt_iff_lt, length_pos_iff_exists_mem]
    simp only [h.labels.values hx]
  simp only [hpos, h.labels.present hx, h.starts_iff hx hlong hglong, h.labels.values hx]
  constructor
  · rintro ⟨v, (hr | ⟨p, hne, hpg, -⟩) | ⟨hb, hr⟩⟩
    · exact .inr (.inl ⟨⟨_, v, hr⟩, v, hr⟩)
    · refine .inl fun h0 => hne ?_
      rw [(h.labels.eq_zero_iff hg).mp h0] at hpg
      exact prefix_nil.mp hpg
    · have hmem := h.labels.registered hr
      rw [hlong.eq_of_mem hmem] at hr
      exact .inr (.inr ⟨⟨_, v, hr⟩, hfull.mpr hmem, hb, v, hr⟩)
  · rintro (hne | ⟨-, v, hr⟩ | ⟨-, hf, hb, v, hr⟩)
    · have hgne : g ≠ [] := fun h0 => hne ((h.labels.eq_zero_iff hg).mpr h0)
      obtain ⟨v, hr⟩ := (Set.mem_insert_iff.mp hglong.mem).resolve_left hgne
      exact ⟨v, .inl (.inr ⟨g, hgne, ⟨[], append_nil g⟩, hr⟩)⟩
    · exact ⟨v, .inl (.inl hr)⟩
    · rw [← hlong.eq_of_mem (hfull.mp hf)] at hr
      exact ⟨v, .inr ⟨hb, hr⟩⟩

/-- The loop of `MatchAny` returns early exactly when something starts in the input; otherwise it is
at the node of the input. -/
lemma Automaton.scanAny (s : List UInt8) :
    (ac.scanAny s = none ∧ ∃ v, Early W regs s v) ∨
      ∃ st w, ac.scanAny s = some st ∧ W[st.1]? = some w ∧ Longest (words W) (classes s) w ∧
        (st.2 = true ↔ classes s ∈ W) ∧ ¬ ∃ v, Early W regs s v := by
  induction s with
  | nil =>
    have hs := scanned_nil h
    refine .inr ⟨(0, true), [], rfl, h.labels.root, Longest.nil h.labels.nil_mem, hs.fullMatch, ?_⟩
    rintro ⟨v, hv | hv⟩
    · exact absurd (hs.substr.mpr hv) not_mem_nil
    · exact absurd (hs.suffix.mpr hv) not_mem_nil
  | cons b s ih =>
    have hcons : ∀ v, Early W regs (b :: s) v ↔ Early W regs s v ∨
        (Starts W regs (classes (b :: s)) v ∨
          (b = dot ∧ (classes (b :: s), .domain, v) ∈ regs)) := by
      intro v
      unfold Early
      rw [substrSeen_cons, domainFound_cons, or_or_or_comm]
    simp only [hcons, exists_or]
    rcases ih with ⟨hnone, hearly⟩ | ⟨st, w, hsome, hw, hlong, hflag, hno⟩
    · refine .inl ⟨?_, .inl hearly⟩
      rw [ACAutomatonMatcherGroup.scanAny, hnone]
      rfl
    · obtain ⟨x, hx, hxlong, hfull⟩ := h.step hw hlong hflag b
      have hiff := h.early_iff hx hxlong hfull
      simp only [exists_or] at hiff
      simp only [ACAutomatonMatcherGroup.scanAny, hsome, Option.bind_some, hiff, hno, false_or]
      set n := (ac.node st.1).next (acCharset b)
      set full := st.2 && (ac.node st.1).edge (acCharset b) == .trie
      by_cases hc : (ac.node n).fail ≠ 0 ∨
        ((ac.node n).matchIdx ≠ 0 ∧ (ac.entry (ac.node n).matchIdx .substr).length > 0) ∨
        ((ac.node n).matchIdx ≠ 0 ∧ full = true ∧ b = dot ∧
          (ac.entry (ac.node n).matchIdx .domain).length > 0)
      · refine .inl ⟨?_, hc⟩
        split_ifs with h1 h2 h3
        · rfl
        · rfl
        · rfl
        · exact absurd hc (by simp only [h1, h2, h3, or_self, not_false_eq_true])
      · refine .inr ⟨(n, full), x, ?_, hx, hxlong, hfull, hc⟩
        rw [not_or, not_or] at hc
        rw [if_neg hc.1, if_neg hc.2.1, if_neg hc.2.2]

/-- `MatchAny` tells whether the automaton reports something, except that for an empty input an
empty pattern counts too. -/
theorem Automaton.matchAny_seen (input : List UInt8) :
    ac.matchAny input = true ↔
      (∃ v, Seen W regs input v) ∨ (input = [] ∧ ∃ v, ([], .substr, v) ∈ regs) := by
  unfold matchAny
  rcases h.scanAny input with ⟨hnone, v, hv⟩ | ⟨st, w, hsome, hw, hlong, hflag, hno⟩
  · rw [hnone]
    refine iff_of_true rfl (.inl ⟨v, ?_⟩)
    exact hv.imp_right Or.inl
  · rw [hsome]
    simp only [Bool.and_eq_true, bne_iff_ne, hflag, h.labels.present hw]
    constructor
    · rintro ⟨hmem, t, v, hr⟩
      have hword : classes input = w := hlong.eq_of_mem hmem
      rw [← hword] at hr
      cases t with
      | full => exact .inl ⟨v, .inr (.inr (.inr hr))⟩
      | domain => exact .inl ⟨v, .inr (.inr (.inl hr))⟩
      | substr =>
        by_cases hi : input = []
        · subst hi
          exact .inr ⟨rfl, v, hr⟩
        · have hne : classes input ≠ [] := by rwa [ne_eq, map_eq_nil_iff]
          exact .inl ⟨v, .inl ⟨input, hi, suffix_rfl, .inl ⟨_, hne, ⟨[], append_nil _⟩, hr⟩⟩⟩
    · have hreg : ∀ {t v}, (classes input, t, v) ∈ regs →
          classes input ∈ W ∧ ∃ t v, (w, t, v) ∈ regs := by
        intro t v hr
        have hmem := h.labels.registered hr
        have hword : classes input = w := hlong.eq_of_mem hmem
        exact ⟨hmem, t, v, hword ▸ hr⟩
      rintro (⟨v, hv | hv | hr | hr⟩ | ⟨rfl, v, hr⟩)
      · exact absurd ⟨v, .inl hv⟩ hno
      · exact absurd ⟨v, .inr hv⟩ hno
      · exact hreg hr
      · exact hreg hr
      · exact hreg hr

/-- `MatchAny` tells whether there is something to report. -/
theorem Automaton.matchAny (hnil : ∀ t v, ([], t, v) ∉ regs) (input : List UInt8) :
    ac.matchAny input = true ↔ ∃ v, Reported regs input v := by
  rw [h.matchAny_seen]
  simp only [seen_iff hnil, hnil, exists_false, and_false, or_false]

end Automaton

end BypassCore.StrMatcher.ACAutomatonMatcherGroup
