import BypassCore.Geodata.StrMatcher.Value

/-!
# The values a matcher returns

Whatever has been added and however the tables were filled, a value matcher returns values that it
was given. A property of all values given is therefore one of all values returned.
-/

namespace BypassCore.StrMatcher

open Lib List Option

variable {P : UInt32 → Prop}

def AllValues (P : UInt32 → Prop) (lists : List (List UInt32)) : Prop :=
  ∀ l ∈ lists, ∀ v ∈ l, P v

lemma AllValues.append {l l' : List (List UInt32)} (h : AllValues P l) (h' : AllValues P l') :
    AllValues P (l ++ l') := fun m hm =>
  (mem_append.mp hm).elim (h m) (h' m)

lemma allValues_singleton {l : List UInt32} (h : ∀ v ∈ l, P v) : AllValues P [l] := by
  intro m hm
  rw [mem_singleton.mp hm]
  exact h

variable {lists : List (List UInt32)}

lemma AllValues.getD (h : AllValues P lists) (i : Nat) : ∀ v ∈ lists.getD i [], P v := by
  intro v hv
  rw [getD_eq_getElem?_getD] at hv
  cases hl : lists[i]? with
  | none =>
    rw [hl] at hv
    cases hv
  | some l =>
    rw [hl] at hv
    exact h l (mem_of_getElem? hl) v hv

lemma AllValues.set (h : AllValues P lists) {l : List UInt32}
    (hl : ∀ v ∈ l, P v) (i : Nat) : AllValues P (lists.set i l) := by
  intro m hm
  rcases mem_or_eq_of_mem_set hm with hm | rfl
  · exact h m hm
  · exact hl

lemma AllValues.composite (h : AllValues P lists) : ∀ v ∈ compositeMatchesReverse lists, P v := by
  intro v hv
  rw [mem_compositeMatchesReverse, mem_flatten] at hv
  obtain ⟨l, hl, hv⟩ := hv
  exact h l hl v hv

/-! ### The hash group -/

namespace MphMatcherGroup

/-- All values of the group have the property, before the build and after it. -/
structure Holds (P : UInt32 → Prop) (g : MphMatcherGroup) : Prop where
  values : AllValues P g.values
  infos : ∀ {s info}, g.ruleInfos.lookup s = some info → ∀ t, ∀ v ∈ info.matchers t, P v

variable {g : MphMatcherGroup}

lemma holds_new : Holds P new where
  values := allValues_singleton (fun _ hv => nomatch hv)
  infos := by
    intro s info hl
    cases hl

section

variable (h : Holds P g)
include h

lemma Holds.addPattern {suffixHash value : UInt32} {suffixPattern pattern : List UInt8}
    {type : MatcherType} (hv : P value) :
    Holds P (g.addPattern suffixHash suffixPattern pattern type value).2 := by
  constructor
  · simp only [MphMatcherGroup.addPattern]
    split_ifs
    · exact h.values
    · exact h.values.append (allValues_singleton (by simp))
  · intro s info hl t v hmem
    simp only [MphMatcherGroup.addPattern, GoMap.lookup_insert_eq] at hl
    split_ifs at hl
    · cases hl
      rcases MatcherValues.mem_add.mp hmem with hmem | ⟨-, rfl⟩
      · cases hinfo : g.ruleInfos.lookup (pattern ++ suffixPattern) with rw [hinfo] at hmem
        | none => cases hmem
        | some info => exact h.infos hinfo t v hmem
      · exact hv
    · exact h.infos hl t v hmem

lemma Holds.ruleValues (i : Nat) : ∀ v ∈ g.ruleValues i, P v := by
  have hinfo : ∀ t, ∀ v ∈ (g.ruleInfo i).matchers t, P v := by
    unfold ruleInfo
    intro t v hv
    cases hl : g.ruleInfos.lookup (g.rules.getD i []) with
    | none =>
      rw [hl] at hv
      cases hv
    | some info =>
      rw [hl] at hv
      exact h.infos hl t v hv
  intro v hv
  rcases mem_append.mp hv with hv | hv
  · exact hinfo .full v hv
  · exact hinfo .domain v hv

lemma Holds.foldl_fileRule {places : List Nat} {filed : List (List UInt32) × List (List UInt32)}
    (hf : AllValues P filed.2) : AllValues P (places.foldl g.fileRule filed).2 := by
  induction places generalizing filed with
  | nil => exact hf
  | cons i places ih => exact ih (hf.set (h.ruleValues i) i)

lemma Holds.build {memHash : UInt32 → List UInt8 → UInt32} {sort : SliceSort} {fuel : Nat}
    {g' : MphMatcherGroup} (hbuild : g.build memHash sort fuel = some g') : Holds P g' := by
  obtain ⟨placed, -, rfl⟩ := map_eq_some_iff.mp hbuild
  constructor
  · exact h.foldl_fileRule h.values
  · intro s info hl
    cases hl

lemma Holds.appendFound {matched : List (List UInt32)} (hm : AllValues P matched) (i : UInt32) :
    AllValues P (g.appendFound matched i) := by
  unfold MphMatcherGroup.appendFound
  split_ifs
  · exact hm.append (allValues_singleton (h.values.getD _))
  · exact hm

lemma Holds.scan (memHash : UInt32 → List UInt8 → UInt32) (input : List UInt8) :
    AllValues P (g.scan memHash input).2 := by
  induction input with
  | nil => exact fun _ hl => nomatch hl
  | cons b rest ih =>
    simp only [MphMatcherGroup.scan]
    split_ifs
    · exact h.appendFound ih _
    · exact ih

lemma Holds.matchInput (memHash : UInt32 → List UInt8 → UInt32) (input : List UInt8) :
    ∀ v ∈ g.matchInput memHash input, P v :=
  (h.appendFound (h.scan memHash input) _).composite

end

end MphMatcherGroup

/-! ### The automaton -/

namespace ACAutomatonMatcherGroup

def Holds (P : UInt32 → Prop) (ac : ACAutomatonMatcherGroup) : Prop :=
  ∀ vs ∈ ac.values, ∀ t, ∀ v ∈ vs t, P v

variable {ac : ACAutomatonMatcherGroup}

lemma holds_new : Holds P new := by
  intro vs hvs t v hv
  rw [mem_singleton.mp hvs] at hv
  cases hv

variable {ac' : ACAutomatonMatcherGroup}

lemma Holds.congr (h : Holds P ac) (heq : ac'.values = ac.values) : Holds P ac' := by
  intro vs hvs
  rw [heq] at hvs
  exact h vs hvs

lemma Holds.ensureEntry (h : Holds P ac) (i : Nat) : Holds P (ac.ensureEntry i) := by
  unfold ACAutomatonMatcherGroup.ensureEntry
  split_ifs
  · intro vs hvs t v hv
    rcases mem_append.mp hvs with hvs | hvs
    · exact h vs hvs t v hv
    · rw [mem_singleton.mp hvs] at hv
      cases hv
  · exact h

lemma Holds.appendValue (h : Holds P ac) {i : Nat} {type : MatcherType} {value : UInt32}
    (hvalue : P value) : Holds P (ac.appendValue i type value) := by
  intro vs hvs t v hv
  obtain ⟨j, hj⟩ := mem_iff_getElem?.mp hvs
  rw [ACAutomatonMatcherGroup.appendValue, getElem?_modify] at hj
  obtain ⟨vs', hvs', hj⟩ := map_eq_some_iff.mp hj
  have hold := h vs' (mem_of_getElem? hvs') t
  split_ifs at hj
  · rw [← hj, MatcherValues.mem_add] at hv
    rcases hv with hv | ⟨-, rfl⟩
    · exact hold v hv
    · exact hvalue
  · rw [← hj] at hv
    exact hold v hv

lemma Holds.addPattern (h : Holds P ac) {i : Nat} {pattern : List UInt8} {type : MatcherType}
    {value : UInt32} (hvalue : P value) : Holds P (ac.addPattern i pattern type value).2 :=
  ((h.congr (values_descend ac i pattern)).ensureEntry _).appendValue hvalue

/-- The build writes to the nodes only. -/
lemma values_linkEdge (nodeIdx failNode : Nat) (st : Building × List Nat) (e : Edge) :
    (linkEdge nodeIdx failNode st e).1.ac.values = st.1.ac.values := by
  unfold linkEdge
  dsimp only
  split_ifs <;> rfl

lemma values_visit (st : Building) (nodeIdx : Nat) :
    (visit st nodeIdx).1.ac.values = st.ac.values := by
  have hfold : ∀ (edges : List Edge) (failNode : Nat) (st : Building × List Nat),
      (edges.foldl (linkEdge nodeIdx failNode) st).1.ac.values = st.1.ac.values := by
    intro edges failNode
    induction edges with
    | nil => exact fun st => rfl
    | cons e edges ih =>
      intro st
      rw [foldl_cons, ih, values_linkEdge]
  rw [visit, hfold]

variable {fuel : Nat}

lemma values_worklist {st t : Building} {queue : List Nat}
    (h : worklist visit fuel st queue = some t) : t.ac.values = st.ac.values := by
  induction fuel generalizing st queue with
  | zero =>
    cases queue with
    | nil =>
      cases h
      rfl
    | cons i queue => cases h
  | succ fuel ih =>
    cases queue with
    | nil =>
      cases h
      rfl
    | cons i queue => exact (ih h).trans (values_visit st i)

lemma Holds.build (h : Holds P ac) (hbuild : ac.build fuel = some ac') : Holds P ac' := by
  obtain ⟨st, hst, rfl⟩ := map_eq_some_iff.mp hbuild
  exact h.congr (values_worklist hst)

lemma Holds.entry (h : Holds P ac) (i : Nat) (t : MatcherType) : ∀ v ∈ ac.entry i t, P v := by
  intro v hv
  rw [ACAutomatonMatcherGroup.entry, getD_eq_getElem?_getD] at hv
  cases hvs : ac.values[i]? with
  | none =>
    rw [hvs] at hv
    cases hv
  | some vs =>
    rw [hvs] at hv
    exact h vs (mem_of_getElem? hvs) t v hv

variable {path : List (List UInt32)}

lemma Holds.failPath (h : Holds P ac) {failIdx failNode : Nat}
    (hpath : ac.failPath fuel failIdx failNode = some path) : AllValues P path := by
  induction fuel generalizing failIdx failNode path with
  | zero =>
    cases failIdx with
    | zero =>
      cases hpath
      exact fun _ hl => nomatch hl
    | succ failIdx => cases hpath
  | succ fuel ih =>
    cases failIdx with
    | zero =>
      cases hpath
      exact fun _ hl => nomatch hl
    | succ failIdx =>
      obtain ⟨rest, hrest, rfl⟩ := map_eq_some_iff.mp hpath
      exact (allValues_singleton (h.entry _ .substr)).append (ih hrest)

lemma allValues_appendValues {matched : List (List UInt32)} (hm : AllValues P matched)
    {values : List UInt32} (hv : ∀ v ∈ values, P v) :
    AllValues P (appendValues matched values) := by
  unfold appendValues
  split_ifs
  · exact hm.append (allValues_singleton hv)
  · exact hm

/-- All values found so far have the property. -/
def MatchState.Holds (P : UInt32 → Prop) (st : MatchState) : Prop :=
  AllValues P st.suffixMatches ∧ AllValues P st.substrMatches

variable {st : MatchState}

lemma Holds.enter (h : Holds P ac) (hst : st.Holds P) (b : UInt8) (hpath : AllValues P path) :
    (ac.enter st b path).Holds P := by
  unfold ACAutomatonMatcherGroup.enter
  constructor
  · dsimp only
    split_ifs
    · exact allValues_appendValues hst.1 (h.entry _ _)
    · exact hst.1
  · dsimp only
    split_ifs
    · exact allValues_appendValues (hst.2.append hpath) (h.entry _ _)
    · exact hst.2.append hpath

lemma Holds.scan (h : Holds P ac) {input : List UInt8}
    (hst : ac.scan fuel input = some st) : st.Holds P := by
  induction input generalizing st with
  | nil =>
    cases hst
    exact ⟨(fun _ hl => nomatch hl), (fun _ hl => nomatch hl)⟩
  | cons b rest ih =>
    obtain ⟨st', hst', hst⟩ := bind_eq_some_iff.mp hst
    obtain ⟨path, hpath, rfl⟩ := map_eq_some_iff.mp hst
    exact h.enter (ih hst') b (h.failPath hpath)

lemma Holds.finish (h : Holds P ac) (hst : st.Holds P) : AllValues P (ac.finish st) := by
  unfold ACAutomatonMatcherGroup.finish
  split_ifs
  · exact allValues_appendValues (allValues_appendValues hst.1 (h.entry _ _)) (h.entry _ _)
  · exact hst.1

lemma Holds.matchInput (h : Holds P ac) {input : List UInt8} {matched : List UInt32}
    (hmatch : ac.matchInput fuel input = some matched) : ∀ v ∈ matched, P v := by
  obtain ⟨st, hst, rfl⟩ := map_eq_some_iff.mp hmatch
  split_ifs
  · exact (h.finish (h.scan hst)).composite
  · exact ((h.scan hst).2.append (h.finish (h.scan hst))).composite

end ACAutomatonMatcherGroup

/-! ### The value matcher -/

namespace MphValueMatcher

structure Holds (P : UInt32 → Prop) (g : MphValueMatcher) : Prop where
  mph : ∀ mph, g.mph = some mph → mph.Holds P
  ac : ∀ ac, g.ac = some ac → ac.Holds P
  regex : ∀ regex, g.regex = some regex → ∀ e ∈ regex, P e.2

variable {g : MphValueMatcher}

lemma holds_new : Holds P new :=
  ⟨(fun _ h => nomatch h), (fun _ h => nomatch h), (fun _ h => nomatch h)⟩

lemma Holds.mph_getD (h : Holds P g) : (g.mph.getD .new).Holds P := by
  cases hg : g.mph with
  | none => exact MphMatcherGroup.holds_new
  | some mph => exact h.mph mph hg

lemma Holds.ac_getD (h : Holds P g) : (g.ac.getD .new).Holds P := by
  cases hg : g.ac with
  | none => exact ACAutomatonMatcherGroup.holds_new
  | some ac => exact h.ac ac hg

lemma Holds.add (h : Holds P g) (matcher : AnyMatcher) {value : UInt32} (hvalue : P value) :
    Holds P (g.add matcher value) := by
  cases matcher with
  | basic m =>
    obtain ⟨type, pattern⟩ := m
    cases type with
    | full =>
      refine ⟨?_, h.ac, h.regex⟩
      rintro _ ⟨⟩
      exact h.mph_getD.addPattern hvalue
    | domain =>
      refine ⟨?_, h.ac, h.regex⟩
      rintro _ ⟨⟩
      exact (h.mph_getD.addPattern hvalue).addPattern hvalue
    | substr =>
      refine ⟨h.mph, ?_, h.regex⟩
      rintro _ ⟨⟩
      exact h.ac_getD.addPattern hvalue
  | regex m =>
    refine ⟨h.mph, h.ac, ?_⟩
    rintro _ ⟨⟩ e he
    rcases mem_append.mp he with he | he
    · cases hg : g.regex with rw [hg] at he
      | none => cases he
      | some regex => exact h.regex regex hg e he
    · rw [mem_singleton.mp he]
      exact hvalue

variable {memHash : UInt32 → List UInt8 → UInt32}

lemma Holds.build (h : Holds P g) {sort : SliceSort}
    {fuel : Nat} {g' : MphValueMatcher} (hbuild : g.build memHash sort fuel = some g') :
    Holds P g' := by
  obtain ⟨hmph, hac, hregex⟩ := build_eq_some hbuild
  refine ⟨?_, ?_, ?_⟩
  · intro mph' heq
    rw [heq] at hmph
    obtain ⟨mph, hg, hb⟩ := mapM_eq_some hmph
    exact (h.mph mph hg).build hb
  · intro ac' heq
    rw [heq] at hac
    obtain ⟨ac, hg, hb⟩ := mapM_eq_some hac
    exact (h.ac ac hg).build hb
  · rw [hregex]
    exact h.regex

/-- **A matcher returns values it was given.** -/
theorem Holds.matchInput (h : Holds P g) {input : List UInt8} {matched : List UInt32}
    (hmatch : g.matchInput memHash input = some matched) : ∀ v ∈ matched, P v := by
  obtain ⟨acMatched, hac, hmatch⟩ := bind_eq_some_iff.mp hmatch
  cases hmatch
  intro v hv
  obtain ⟨l, hl, hvl⟩ := mem_compositeMatches.mp hv
  clear hv
  rcases mem_cons.mp hl with rfl | hl
  · cases hg : g.mph with
    | none =>
      rw [hg] at hvl
      cases hvl
    | some mph =>
      rw [hg] at hvl
      exact (h.mph mph hg).matchInput memHash input v hvl
  rcases mem_cons.mp hl with rfl | hl
  · cases hg : g.ac with
    | none =>
      rw [hg] at hac
      cases hac
      cases hvl
    | some ac =>
      rw [hg] at hac
      exact (h.ac ac hg).matchInput hac v hvl
  · rw [mem_singleton.mp hl] at hvl
    cases hg : g.regex with
    | none =>
      rw [hg] at hvl
      cases hvl
    | some regex =>
      rw [hg] at hvl
      obtain ⟨e, he, rfl⟩ := List.mem_map.mp hvl
      exact h.regex regex hg e (mem_filter.mp he).1

end MphValueMatcher

end BypassCore.StrMatcher
