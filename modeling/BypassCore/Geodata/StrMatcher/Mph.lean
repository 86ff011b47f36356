import BypassCore.Geodata.StrMatcher.Basic
import BypassCore.Lib.Displace
import BypassCore.Lib.GoMap
import BypassCore.Lib.Slices

/-!
# The minimal perfect hash group

`MphMatcherGroup` of the `strmatcher` package. Full patterns are stored as they are, domain patterns
also with a dot in front. `Build` files the stored strings into buckets by their rolling hash and
displaces each bucket in a second table. `Match` goes through the input from right to left, extends
the rolling hash byte by byte, and looks up the suffixes that start with a dot and the whole input.

The hash of the runtime (`MemHash`) and the order in which `sort.Slice` leaves buckets of one size
are parameters. The loop over seeds has no bound in the source; here it has fuel, and a build that
returns is one that some fuel suffices for.
-/

namespace BypassCore.StrMatcher

open Lib List

def primeRK : UInt32 := 16777619

/-- `RollingHash`, from the last byte of the input to the first. -/
def rollingHash (hash : UInt32) (input : List UInt8) : UInt32 :=
  input.foldr (fun b hash => hash * primeRK + b.toUInt32) hash

structure MphRuleInfo where
  rollingHash : UInt32
  matchers : MatcherValues

structure MphMatcherGroup where
  /-- The stored strings; the first place stands for a failed lookup. -/
  rules : List (List UInt8)
  /-- The values of each stored string. -/
  values : List (List UInt32)
  level0 : List UInt32
  level0Mask : UInt32
  /-- The places of the stored strings, by the hash under their bucket's seed. -/
  level1 : List UInt32
  level1Mask : UInt32
  /-- What is known of each stored string before the build, and nothing after it. -/
  ruleInfos : GoMap (List UInt8) MphRuleInfo

/-- `nextPow2`; the count of leading zeros is that of a 64-bit word. -/
def nextPow2 (v : Nat) : Nat :=
  if v ≤ 1 then 1 else ((2 ^ 64 - 1) >>> (64 - (v.log2 + 1))) + 1

namespace MphMatcherGroup

def new : MphMatcherGroup where
  rules := [[]]
  values := [[]]
  level0 := []
  level0Mask := 0
  level1 := []
  level1Mask := 0
  ruleInfos := ∅

variable (g : MphMatcherGroup)

/-- `addPattern`: a string that is not stored yet gets a place of its own. -/
def addPattern (suffixHash : UInt32) (suffixPattern pattern : List UInt8)
    (matcherType : MatcherType) (value : UInt32) : UInt32 × MphMatcherGroup :=
  let fullPattern := pattern ++ suffixPattern
  let found := (g.ruleInfos.lookup fullPattern).isSome
  let info := (g.ruleInfos.lookup fullPattern).getD
    ⟨StrMatcher.rollingHash suffixHash pattern, fun _ => []⟩
  (info.rollingHash,
    { g with
      rules := if found then g.rules else g.rules ++ [fullPattern]
      values := if found then g.values else g.values ++ [[]]
      ruleInfos := g.ruleInfos.insert fullPattern
        ⟨info.rollingHash, info.matchers.add matcherType value⟩ })

variable (toLower : List UInt8 → List UInt8)

def addFullMatcher (g : MphMatcherGroup)
    (pattern : List UInt8) (value : UInt32) : MphMatcherGroup :=
  (g.addPattern 0 [] (toLower pattern) .full value).2

/-- `AddDomainMatcher`: once for the domain itself and once for what ends in a dot and it. -/
def addDomainMatcher (g : MphMatcherGroup)
    (pattern : List UInt8) (value : UInt32) : MphMatcherGroup :=
  let added := g.addPattern 0 [] (toLower pattern) .domain value
  (added.2.addPattern added.1 (toLower pattern) [dot] .domain value).2

/-- `AddMatcherToGroup`, which reports an error for a substring matcher and leaves the group. -/
def addMatcher (g : MphMatcherGroup)
    (m : Matcher × UInt32) : MphMatcherGroup :=
  match m.1.type with
  | .full => g.addFullMatcher toLower m.1.pattern m.2
  | .domain => g.addDomainMatcher toLower m.1.pattern m.2
  | .substr => g

def ofMatchers (matchers : List (Matcher × UInt32)) : MphMatcherGroup :=
  matchers.foldl (addMatcher toLower) new

def bucketCount : Nat := nextPow2 (g.ruleInfos.entries.length / 4)

def slotCount : Nat := nextPow2 g.ruleInfos.entries.length

def bucketMask : UInt32 := UInt32.ofNat (g.bucketCount - 1)

def slotMask : UInt32 := UInt32.ofNat (g.slotCount - 1)

def ruleInfo (ruleIdx : Nat) : MphRuleInfo :=
  (g.ruleInfos.lookup (g.rules.getD ruleIdx [])).getD ⟨0, fun _ => []⟩

def bucketIdx (ruleIdx : Nat) : Nat :=
  ((g.ruleInfo ruleIdx).rollingHash &&& g.bucketMask).toNat

/-- The merged values of a stored string, full matchers first. -/
def ruleValues (ruleIdx : Nat) : List UInt32 :=
  (g.ruleInfo ruleIdx).matchers .full ++ (g.ruleInfo ruleIdx).matchers .domain

/-- The body of the loop over the stored strings: file one into its bucket and merge its values. -/
def fileRule (filed : List (List UInt32) × List (List UInt32))
    (ruleIdx : Nat) : List (List UInt32) × List (List UInt32) :=
  (filed.1.modify (g.bucketIdx ruleIdx) (· ++ [UInt32.ofNat ruleIdx]),
    filed.2.set ruleIdx (g.ruleValues ruleIdx))

/-- The loop over the stored strings: the buckets and the values. -/
def fileRules : List (List UInt32) × List (List UInt32) :=
  (range' 1 (g.rules.length - 1)).foldl g.fileRule
    (replicate g.bucketCount [], g.values)

def bucketIdxs (sort : SliceSort) (g : MphMatcherGroup) : List Nat :=
  sort.sort
    (fun i j => (g.fileRules.1.getD i []).length > (g.fileRules.1.getD j []).length)
    (range g.bucketCount)

variable (memHash : UInt32 → List UInt8 → UInt32)

def slot (g : MphMatcherGroup) (seed : UInt32)
    (ruleIdx : UInt32) : Nat :=
  (memHash seed (g.rules.getD ruleIdx.toNat []) &&& g.slotMask).toNat

/-- `Build`, with fuel for the seeds of one bucket. -/
def build (sort : SliceSort) (fuel : Nat)
    (g : MphMatcherGroup) : Option MphMatcherGroup :=
  (Displace.placeAll 0 (g.slot memHash) 0 (· + 1) fuel g.fileRules.1 (g.bucketIdxs sort)
      (replicate g.bucketCount 0) (Displace.Table.make 0 g.slotCount)).map fun placed =>
    { rules := g.rules
      values := g.fileRules.2
      level0 := placed.1
      level0Mask := g.bucketMask
      level1 := placed.2.slots
      level1Mask := g.slotMask
      ruleInfos := ∅ }

def lookup (g : MphMatcherGroup) (hash : UInt32)
    (input : List UInt8) : UInt32 :=
  let seed := g.level0.getD (hash &&& g.level0Mask).toNat 0
  let n := g.level1.getD (memHash seed input &&& g.level1Mask).toNat 0
  if g.rules.getD n.toNat [] == input then n else 0

def appendFound (matched : List (List UInt32)) (mphIdx : UInt32) : List (List UInt32) :=
  if mphIdx != 0 then matched ++ [g.values.getD mphIdx.toNat []] else matched

/-- The loop of `Match`: the hash of the input and the matches of its suffixes. -/
def scan (memHash : UInt32 → List UInt8 → UInt32) (g : MphMatcherGroup) :
    List UInt8 → UInt32 × List (List UInt32)
  | [] => (0, [])
  | b :: rest =>
    let scanned := scan memHash g rest
    let hash := scanned.1 * primeRK + b.toUInt32
    (hash,
      if b == dot then g.appendFound scanned.2 (g.lookup memHash hash (b :: rest))
      else scanned.2)

def matchInput (g : MphMatcherGroup)
    (input : List UInt8) : List UInt32 :=
  let scanned := g.scan memHash input
  compositeMatchesReverse (g.appendFound scanned.2 (g.lookup memHash scanned.1 input))

/-- The loop of `MatchAny`: the hash of the input, or nothing when it has returned. -/
def scanAny (memHash : UInt32 → List UInt8 → UInt32) (g : MphMatcherGroup) :
    List UInt8 → Option UInt32
  | [] => some 0
  | b :: rest =>
    (scanAny memHash g rest).bind fun hash =>
      let hash := hash * primeRK + b.toUInt32
      if b == dot && g.lookup memHash hash (b :: rest) != 0 then none else some hash

def matchAny (g : MphMatcherGroup)
    (input : List UInt8) : Bool :=
  match g.scanAny memHash input with
  | none => true
  | some hash => g.lookup memHash hash input != 0

end MphMatcherGroup

/-!
## Building the minimal perfect hash group

Adding matchers registers strings, each with the values bound to it and with its rolling hash. The
build then places every stored string where a lookup with the hash of the string finds it. No lookup
finds a string that is not stored, because `Lookup` compares the string it ends at.
-/

open List Option

lemma rollingHash_append (hash : UInt32) (front suffix : List UInt8) :
    rollingHash (rollingHash hash suffix) front = rollingHash hash (front ++ suffix) :=
  (foldr_append ..).symm

/-- A masked hash is an index into the table of the mask. -/
lemma toNat_and_mask_lt {n : Nat} (hn : 0 < n) (x : UInt32) :
    (x &&& UInt32.ofNat (n - 1)).toNat < n := by
  have hle : (x &&& UInt32.ofNat (n - 1)).toNat ≤ n - 1 := by
    exact Nat.and_le_right.trans (Nat.mod_le _ _)
  omega

lemma nextPow2_pos (v : Nat) : 0 < nextPow2 v := by
  unfold nextPow2
  split_ifs <;> exact Nat.succ_pos _

namespace MphMatcherGroup

/-! ### Registration -/

abbrev Registration := List UInt8 × MatcherType × UInt32

def registrations (m : Matcher × UInt32) : List Registration :=
  match m.1.type with
  | .full => [(m.1.pattern, .full, m.2)]
  | .domain => [(m.1.pattern, .domain, m.2), (dot :: m.1.pattern, .domain, m.2)]
  | .substr => []

structure Registers (g : MphMatcherGroup) (regs : List Registration) : Prop where
  head : g.rules[0]? = some []
  length : g.values.length = g.rules.length
  mem : ∀ {s}, s ∈ g.rules.tail ↔ ∃ t v, (s, t, v) ∈ regs
  absent : ∀ {s}, g.ruleInfos.lookup s = none ↔ s ∉ g.rules.tail
  hash : ∀ {s info}, g.ruleInfos.lookup s = some info → info.rollingHash = rollingHash 0 s
  values : ∀ {s info}, g.ruleInfos.lookup s = some info →
    ∀ {t v}, v ∈ info.matchers t ↔ (s, t, v) ∈ regs

lemma registers_new : Registers new [] where
  head := rfl
  length := rfl
  mem := by simp [new]
  absent := by simp [new]
  hash := by simp [new]
  values := by simp [new]

variable {g : MphMatcherGroup} {regs : List Registration} {toLower : List UInt8 → List UInt8}

lemma Registers.rules_ne_nil (h : Registers g regs) : g.rules ≠ [] := by
  intro hnil
  have hhead := h.head
  rw [hnil] at hhead
  cases hhead

/-- What `addPattern` knows of the string, found or not. -/
lemma Registers.known (h : Registers g regs) (s : List UInt8) (fresh : MphRuleInfo)
    (hhash : fresh.rollingHash = rollingHash 0 s) (hvalues : fresh.matchers = fun _ => []) :
    ((g.ruleInfos.lookup s).getD fresh).rollingHash = rollingHash 0 s ∧
      ∀ t v, v ∈ ((g.ruleInfos.lookup s).getD fresh).matchers t ↔ (s, t, v) ∈ regs := by
  cases hl : g.ruleInfos.lookup s with
  | some info => exact ⟨h.hash hl, fun t v => h.values hl⟩
  | none =>
    refine ⟨hhash, fun t v => ?_⟩
    have hs : (s, t, v) ∉ regs := fun hr => h.absent.mp hl (h.mem.mpr ⟨t, v, hr⟩)
    simp [hvalues, hs]

section AddPattern

variable {suffixHash value : UInt32} {suffixPattern pattern : List UInt8} {type : MatcherType}

lemma Registers.mem_tail_addPattern (h : Registers g regs) {s : List UInt8} :
    s ∈ (g.addPattern suffixHash suffixPattern pattern type value).2.rules.tail ↔
      s ∈ g.rules.tail ∨ s = pattern ++ suffixPattern := by
  simp only [MphMatcherGroup.addPattern]
  by_cases hs : pattern ++ suffixPattern ∈ g.rules.tail
  · have hf : (g.ruleInfos.lookup (pattern ++ suffixPattern)).isSome = true := by
      rw [isSome_iff_ne_none, ne_eq, h.absent, not_not]
      exact hs
    rw [if_pos hf, or_iff_left_of_imp]
    rintro rfl
    exact hs
  · rw [h.absent.mpr hs, isSome_none, if_neg Bool.false_ne_true,
      tail_append_of_ne_nil h.rules_ne_nil, mem_append, mem_singleton]

lemma Registers.addPattern (h : Registers g regs) (suffixPattern pattern : List UInt8)
    (type : MatcherType) (value : UInt32) (hsuffix : suffixHash = rollingHash 0 suffixPattern) :
    (g.addPattern suffixHash suffixPattern pattern type value).1 =
        rollingHash 0 (pattern ++ suffixPattern) ∧
      Registers (g.addPattern suffixHash suffixPattern pattern type value).2
        (regs ++ [(pattern ++ suffixPattern, type, value)]) := by
  obtain ⟨hhash, hvalues⟩ := h.known (pattern ++ suffixPattern)
    ⟨StrMatcher.rollingHash suffixHash pattern, fun _ => []⟩
    (by rw [hsuffix]; exact rollingHash_append ..) rfl
  refine ⟨hhash, ?_, ?_, ?_, ?_, ?_, ?_⟩
  · simp only [MphMatcherGroup.addPattern]
    split_ifs
    · exact h.head
    · rw [getElem?_append_left (length_pos_iff.mpr h.rules_ne_nil)]
      exact h.head
  · simp only [MphMatcherGroup.addPattern]
    split_ifs
    · exact h.length
    · rw [length_append, length_append, h.length]
      rfl
  · intro s
    rw [h.mem_tail_addPattern, h.mem]
    simp only [mem_append, mem_singleton, Prod.mk.injEq, exists_or,
      exists_and_left, exists_eq, and_true]
  · intro s
    rw [h.mem_tail_addPattern, not_or, ← h.absent]
    simp only [MphMatcherGroup.addPattern]
    by_cases hs : s = pattern ++ suffixPattern
    · simp [hs]
    · simp [hs]
  · intro s info hl
    simp only [MphMatcherGroup.addPattern, GoMap.lookup_insert_eq] at hl
    split_ifs at hl with hs
    · cases hl
      rw [hs]
      exact hhash
    · exact h.hash hl
  · intro s info hl t v
    simp only [MphMatcherGroup.addPattern, GoMap.lookup_insert_eq] at hl
    split_ifs at hl with hs
    · cases hl
      rw [MatcherValues.mem_add, hvalues, hs]
      simp
    · rw [h.values hl]
      simp [hs]

end AddPattern

lemma Registers.addMatcher (h : Registers g regs) {m : Matcher × UInt32}
    (hm : toLower m.1.pattern = m.1.pattern) :
    Registers (g.addMatcher toLower m) (regs ++ registrations m) := by
  unfold MphMatcherGroup.addMatcher registrations
  cases m.1.type with
  | full =>
    simp only [addFullMatcher, hm]
    have hadd := (h.addPattern [] m.1.pattern .full m.2 rfl).2
    rwa [append_nil] at hadd
  | domain =>
    simp only [addDomainMatcher, hm]
    -- the second string extends the hash that adding the first one returned
    obtain ⟨hhash, hadd⟩ := h.addPattern [] m.1.pattern .domain m.2 rfl
    rw [append_nil] at hhash hadd
    have hadd' := (hadd.addPattern m.1.pattern [dot] .domain m.2 hhash).2
    rwa [append_assoc] at hadd'
  | substr =>
    rw [append_nil]
    exact h

variable {matchers : List (Matcher × UInt32)}

lemma registers_foldl (h : Registers g regs)
    (hlower : ∀ m ∈ matchers, toLower m.1.pattern = m.1.pattern) :
    Registers (matchers.foldl (MphMatcherGroup.addMatcher toLower) g)
      (regs ++ matchers.flatMap registrations) := by
  induction matchers generalizing g regs with
  | nil =>
    rw [flatMap_nil, append_nil]
    exact h
  | cons m matchers ih =>
    rw [flatMap_cons, ← append_assoc]
    exact ih (h.addMatcher (hlower m mem_cons_self)) fun m' hm' => hlower m' (mem_cons_of_mem _ hm')

lemma registers_ofMatchers (hlower : ∀ m ∈ matchers, toLower m.1.pattern = m.1.pattern) :
    Registers (ofMatchers toLower matchers) (matchers.flatMap registrations) :=
  registers_foldl registers_new hlower

lemma bucketIdx_lt (g : MphMatcherGroup) (ruleIdx : Nat) : g.bucketIdx ruleIdx < g.bucketCount :=
  toNat_and_mask_lt (nextPow2_pos _) _

lemma slot_lt (memHash : UInt32 → List UInt8 → UInt32) (g : MphMatcherGroup)
    (seed ruleIdx : UInt32) : g.slot memHash seed ruleIdx < g.slotCount :=
  toNat_and_mask_lt (nextPow2_pos _) _

section FileRules

variable {filed : List (List UInt32) × List (List UInt32)} {idxs : List Nat}

/-- A bucket gets the strings that fall into it, in their order. -/
lemma getD_foldl_fileRule_fst {b : Nat} (hb : b < filed.1.length) :
    (idxs.foldl g.fileRule filed).1.getD b [] =
      filed.1.getD b [] ++ (idxs.filter (g.bucketIdx · = b)).map UInt32.ofNat := by
  induction idxs generalizing filed with
  | nil => simp
  | cons i idxs ih =>
    have hb' : b < (g.fileRule filed i).1.length := by
      rw [fileRule, length_modify]
      exact hb
    rw [foldl_cons, ih hb']
    by_cases hi : g.bucketIdx i = b
    · simp [fileRule, hi, hb]
    · simp [fileRule, hi, getD_eq_getElem?_getD]

/-- The values of a string are merged, and a later string does not touch them. -/
lemma getD_foldl_fileRule_snd {i : Nat} (hi : i < filed.2.length) :
    (idxs.foldl g.fileRule filed).2.getD i [] =
      if i ∈ idxs then g.ruleValues i else filed.2.getD i [] := by
  induction idxs generalizing filed with
  | nil => simp
  | cons j idxs ih =>
    have hi' : i < (g.fileRule filed j).2.length := by
      rw [fileRule, length_set]
      exact hi
    rw [foldl_cons, ih hi']
    by_cases hmem : i ∈ idxs
    · simp [hmem]
    · by_cases hij : i = j
      · subst hij
        simp [fileRule, hi]
      · simp [fileRule, hij, Ne.symm hij]

lemma mem_fileRules_fst {b : Nat} (hb : b < g.bucketCount) {ruleIdx : UInt32} :
    ruleIdx ∈ g.fileRules.1.getD b [] ↔
      ∃ i, 1 ≤ i ∧ i < g.rules.length ∧ g.bucketIdx i = b ∧ UInt32.ofNat i = ruleIdx := by
  have hb' : b < (replicate g.bucketCount ([] : List UInt32)).length := by
    rw [length_replicate]
    exact hb
  have hrange : ∀ i, i ∈ range' 1 (g.rules.length - 1) ↔ 1 ≤ i ∧ i < g.rules.length := by
    intro i
    rw [mem_range'_1]
    omega
  rw [fileRules, getD_foldl_fileRule_fst hb']
  simp [hrange, hb, and_assoc]

lemma getD_fileRules_snd (h : g.values.length = g.rules.length) {i : Nat} (h1 : 1 ≤ i)
    (hi : i < g.rules.length) : g.fileRules.2.getD i [] = g.ruleValues i := by
  have hmem : i ∈ range' 1 (g.rules.length - 1) := by
    rw [mem_range'_1]
    omega
  rw [fileRules, getD_foldl_fileRule_snd (by rw [h]; exact hi), if_pos hmem]

end FileRules

/-! ### The finished group -/

/-- A group after its build, for exactly these registrations: the lookup of a string with its own
hash finds it if it is stored, and no lookup ends at another string. -/
structure Serves (memHash : UInt32 → List UInt8 → UInt32) (g : MphMatcherGroup)
    (regs : List Registration) : Prop where
  mem : ∀ {s}, s ∈ g.rules.tail ↔ ∃ t v, (s, t, v) ∈ regs
  found : ∀ {s}, s ∈ g.rules.tail → g.lookup memHash (rollingHash 0 s) s ≠ 0
  hit : ∀ {hash s}, g.lookup memHash hash s ≠ 0 →
    g.rules[(g.lookup memHash hash s).toNat]? = some s
  values : ∀ {n s}, n ≠ 0 → g.rules[n]? = some s →
    ∀ {v}, v ∈ g.values.getD n [] ↔ ∃ t, (s, t, v) ∈ regs

variable {memHash : UInt32 → List UInt8 → UInt32} {sort : SliceSort} {fuel : Nat}
  {g' : MphMatcherGroup} {i : Nat} {s : List UInt8}

lemma Registers.ruleInfo (h : Registers g regs) (h1 : i ≠ 0) (hi : g.rules[i]? = some s) :
    (g.ruleInfo i).rollingHash = rollingHash 0 s ∧
      ∀ t v, v ∈ (g.ruleInfo i).matchers t ↔ (s, t, v) ∈ regs := by
  have hs : s ∈ g.rules.tail := mem_tail_iff.mpr ⟨i, h1, hi⟩
  cases hl : g.ruleInfos.lookup s with
  | none => exact absurd hs (h.absent.mp hl)
  | some info =>
    have hinfo : g.ruleInfo i = info := by
      rw [MphMatcherGroup.ruleInfo, getD_eq_getElem?_getD, hi, getD_some, hl]
      rfl
    rw [hinfo]
    exact ⟨h.hash hl, fun t v => h.values hl⟩

lemma build_eq (h : g.build memHash sort fuel = some g') :
    ∃ seeds t, Displace.placeAll 0 (g.slot memHash) 0 (· + 1) fuel g.fileRules.1
        (g.bucketIdxs sort) (replicate g.bucketCount 0)
        (Displace.Table.make 0 g.slotCount) = some (seeds, t) ∧
      g' = ⟨g.rules, g.fileRules.2, seeds, g.bucketMask, t.slots, g.slotMask, ∅⟩ := by
  obtain ⟨⟨seeds, t⟩, hp, rfl⟩ := map_eq_some_iff.mp h
  exact ⟨seeds, t, hp, rfl⟩

lemma mem_bucketIdxs {b : Nat} : b ∈ g.bucketIdxs sort ↔ b < g.bucketCount := by
  rw [bucketIdxs, (sort.perm _ _).mem_iff, mem_range]

/-- The second table holds the place of every stored string where its bucket's seed puts it. -/
lemma build_level1 (h : g.build memHash sort fuel = some g') (h1 : 1 ≤ i)
    (hi : i < g.rules.length) :
    g'.level1[g.slot memHash (g'.level0.getD (g.bucketIdx i) 0) (UInt32.ofNat i)]? =
      some (UInt32.ofNat i) := by
  obtain ⟨seeds, t, hp, rfl⟩ := build_eq h
  have hn : (g.bucketIdxs sort).Nodup := (sort.perm _ _).nodup_iff.mpr nodup_range
  have hlen : ∀ b ∈ g.bucketIdxs sort, b < (replicate g.bucketCount (0 : UInt32)).length := by
    intro b hb
    rw [length_replicate]
    exact mem_bucketIdxs.mp hb
  have hslot : ∀ s k, g.slot memHash s k < (Displace.Table.make (0 : UInt32) g.slotCount).size := by
    intro s k
    rw [Displace.Table.size_make]
    exact g.slot_lt memHash s k
  have hmem : UInt32.ofNat i ∈ g.fileRules.1.getD (g.bucketIdx i) [] :=
    (mem_fileRules_fst (g.bucketIdx_lt i)).mpr ⟨i, h1, hi, rfl, rfl⟩
  exact ((Displace.placeAll_holds hslot hn hlen hp).2 _
    (mem_bucketIdxs.mpr (g.bucketIdx_lt i)) _ hmem).2

/-- The second table holds nothing but places. -/
lemma build_level1_lt (hpos : g.rules ≠ [])
    (h : g.build memHash sort fuel = some g') {n : UInt32} (hn : n ∈ g'.level1) :
    n.toNat < g.rules.length := by
  obtain ⟨seeds, t, hp, rfl⟩ := build_eq h
  have hzero : (0 : UInt32).toNat < g.rules.length := length_pos_iff.mpr hpos
  have hmake : (Displace.Table.make (0 : UInt32) g.slotCount).All
      fun n => n.toNat < g.rules.length := by
    apply Displace.Table.all_make
    exact hzero
  refine Displace.placeAll_all hmake hzero ?_ hp n hn
  intro b hb k hk
  obtain ⟨i, -, hi, -, rfl⟩ := (mem_fileRules_fst (mem_bucketIdxs.mp hb)).mp hk
  exact (Nat.mod_le _ _).trans_lt hi

lemma build_rules (h : g.build memHash sort fuel = some g') : g'.rules = g.rules := by
  obtain ⟨seeds, t, -, rfl⟩ := build_eq h
  rfl

/-- Places are small enough to be stored as 32-bit words. -/
lemma toNat_place (hsize : g.rules.length ≤ 2 ^ 32)
    (hi : g.rules[i]? = some s) : (UInt32.ofNat i).toNat = i := by
  have hlt : i < g.rules.length := (List.getElem?_eq_some_iff.mp hi).1
  exact Nat.mod_eq_of_lt (hlt.trans_le hsize)

/-- No miss: with its own hash a stored string leads to its bucket, its seed and its slot. -/
lemma Registers.lookup_stored (h : Registers g regs) (hsize : g.rules.length ≤ 2 ^ 32)
    (hbuild : g.build memHash sort fuel = some g') (h0 : i ≠ 0)
    (hi : g.rules[i]? = some s) : g'.lookup memHash (rollingHash 0 s) s = UInt32.ofNat i := by
  have hlt : i < g.rules.length := (List.getElem?_eq_some_iff.mp hi).1
  have hnat := toNat_place hsize hi
  have hget : g.rules.getD i [] = s := by rw [getD_eq_getElem?_getD, hi, getD_some]
  have hlevel1 := build_level1 hbuild (Nat.pos_of_ne_zero h0) hlt
  rw [bucketIdx, (h.ruleInfo h0 hi).1, slot, hnat, hget] at hlevel1
  have hmasks : g'.level0Mask = g.bucketMask ∧ g'.level1Mask = g.slotMask := by
    obtain ⟨seeds, t, -, rfl⟩ := build_eq hbuild
    exact ⟨rfl, rfl⟩
  rw [lookup, hmasks.1, hmasks.2, getD_eq_getElem?_getD (l := g'.level1), hlevel1,
    getD_some, build_rules hbuild, hnat, hget]
  simp

/-- No false hit: the place a lookup returns is one of the string it was given. -/
lemma lookup_hit (hpos : g.rules ≠ []) (hbuild : g.build memHash sort fuel = some g')
    {hash : UInt32} (hne : g'.lookup memHash hash s ≠ 0) :
    g'.rules[(g'.lookup memHash hash s).toNat]? = some s := by
  unfold lookup at hne ⊢
  set seed := g'.level0.getD (hash &&& g'.level0Mask).toNat 0
  set j := (memHash seed s &&& g'.level1Mask).toNat
  by_cases hs : g'.rules.getD (g'.level1.getD j 0).toNat [] == s
  · rw [if_pos hs] at hne ⊢
    have hmem : g'.level1.getD j 0 ∈ g'.level1 := by
      cases hj : g'.level1[j]? with
      | none =>
        rw [getD_eq_getElem?_getD, hj] at hne
        exact absurd rfl hne
      | some n =>
        rw [getD_eq_getElem?_getD, hj]
        exact mem_of_getElem? hj
    have hlt := build_level1_lt hpos hbuild hmem
    rw [← build_rules hbuild] at hlt
    rw [beq_iff_eq, getD_eq_getElem?_getD] at hs
    rw [getElem?_eq_getElem hlt] at hs ⊢
    rw [← hs, getD_some]
  · rw [if_neg hs] at hne
    exact absurd rfl hne

/-- The build of a group with at most as many strings as there are places finds every string and
nothing else. -/
theorem Registers.build (h : Registers g regs) (htypes : ∀ s v, (s, .substr, v) ∉ regs)
    (hsize : g.rules.length ≤ 2 ^ 32) (hbuild : g.build memHash sort fuel = some g') :
    Serves memHash g' regs := by
  have hrules := build_rules hbuild
  refine ⟨?_, ?_, ?_, ?_⟩
  · intro s
    rw [hrules]
    exact h.mem
  · intro s hs
    rw [hrules] at hs
    obtain ⟨i, h0, hi⟩ := mem_tail_iff.mp hs
    rw [h.lookup_stored hsize hbuild h0 hi]
    intro hzero
    apply h0
    rw [← toNat_place hsize hi, hzero]
    rfl
  · exact lookup_hit h.rules_ne_nil hbuild
  · intro n s h0 hn v
    rw [hrules] at hn
    have hlt : n < g.rules.length := (List.getElem?_eq_some_iff.mp hn).1
    have hvalues : g'.values.getD n [] = g.ruleValues n := by
      obtain ⟨seeds, t, -, rfl⟩ := build_eq hbuild
      exact getD_fileRules_snd h.length (Nat.pos_of_ne_zero h0) hlt
    rw [hvalues, ruleValues, mem_append, (h.ruleInfo h0 hn).2, (h.ruleInfo h0 hn).2]
    constructor
    · rintro (hf | hd)
      · exact ⟨_, hf⟩
      · exact ⟨_, hd⟩
    · rintro ⟨t, ht⟩
      cases t with
      | full => exact .inl ht
      | domain => exact .inr ht
      | substr => exact absurd ht (htypes s v)

end MphMatcherGroup
end BypassCore.StrMatcher

/-! ## The minimal perfect hash group is exact -/

namespace BypassCore.StrMatcher.MphMatcherGroup

open Lib List

variable {memHash : UInt32 → List UInt8 → UInt32} {g : MphMatcherGroup}
  {regs : List Registration} {input s : List UInt8} {v : UInt32}

/-- The lookup of a string with its own hash succeeds exactly when it is stored. -/
lemma Serves.lookup_ne_zero_iff (h : Serves memHash g regs) :
    g.lookup memHash (rollingHash 0 s) s ≠ 0 ↔ ∃ t v, (s, t, v) ∈ regs := by
  rw [← h.mem]
  constructor
  · intro hne
    exact mem_tail_iff.mpr ⟨_, fun h0 => hne (UInt32.toNat_inj.mp h0), h.hit hne⟩
  · exact h.found

/-- A successful lookup appends the values of the string. -/
lemma Serves.mem_appendFound (h : Serves memHash g regs) {matched : List (List UInt32)} :
    v ∈ (g.appendFound matched (g.lookup memHash (rollingHash 0 s) s)).flatten ↔
      v ∈ matched.flatten ∨ ∃ t, (s, t, v) ∈ regs := by
  unfold appendFound
  by_cases hne : g.lookup memHash (rollingHash 0 s) s = 0
  · have hno : ¬ ∃ t, (s, t, v) ∈ regs := by
      rintro ⟨t, ht⟩
      exact h.lookup_ne_zero_iff.mpr ⟨t, v, ht⟩ hne
    simp [hne, hno]
  · have hvalues : v ∈ g.values.getD (g.lookup memHash (rollingHash 0 s) s).toNat [] ↔
        ∃ t, (s, t, v) ∈ regs :=
      h.values (fun h0 => hne (UInt32.toNat_inj.mp h0)) (h.hit hne)
    simp only [bne_iff_ne, ne_eq, hne, not_false_eq_true, if_true, flatten_append,
      mem_append, flatten_cons, flatten_nil, append_nil, hvalues]

/-! ### The scan -/

def DotSuffix (input s : List UInt8) : Prop := s <:+ input ∧ s.head? = some dot

lemma dotSuffix_nil : ¬ DotSuffix [] s := by
  rintro ⟨hs, hd⟩
  rw [suffix_nil.mp hs] at hd
  cases hd

lemma dotSuffix_cons {b : UInt8} {rest : List UInt8} :
    DotSuffix (b :: rest) s ↔ (s = b :: rest ∧ b = dot) ∨ DotSuffix rest s := by
  unfold DotSuffix
  rw [suffix_cons_iff]
  constructor
  · rintro ⟨rfl | hs, hd⟩
    · exact .inl ⟨rfl, by simpa using hd⟩
    · exact .inr ⟨hs, hd⟩
  · rintro (⟨rfl, rfl⟩ | ⟨hs, hd⟩)
    · exact ⟨.inl rfl, rfl⟩
    · exact ⟨.inr hs, hd⟩

/-- The loop of `Match` carries the hash of the suffix it has gone through. -/
lemma scan_fst (memHash : UInt32 → List UInt8 → UInt32) (g : MphMatcherGroup)
    (input : List UInt8) : (g.scan memHash input).1 = rollingHash 0 input := by
  induction input with
  | nil => rfl
  | cons b rest ih =>
    simp only [scan, ih]
    rfl

lemma exists_eq_or {P : List UInt8 → Prop} :
    (∃ s' t, (s' = s ∨ P s') ∧ (s', t, v) ∈ regs) ↔
      (∃ s' t, P s' ∧ (s', t, v) ∈ regs) ∨ ∃ t, (s, t, v) ∈ regs := by
  simp only [or_and_right, exists_or, exists_and_left, exists_eq_left]
  exact or_comm

lemma Serves.mem_scan (h : Serves memHash g regs) :
    v ∈ (g.scan memHash input).2.flatten ↔ ∃ s t, DotSuffix input s ∧ (s, t, v) ∈ regs := by
  induction input with
  | nil => simp [scan, dotSuffix_nil]
  | cons b rest ih =>
    have hhash : (g.scan memHash rest).1 * primeRK + b.toUInt32 = rollingHash 0 (b :: rest) := by
      rw [scan_fst]
      rfl
    simp only [scan, hhash, dotSuffix_cons]
    by_cases hb : b = dot
    · rw [if_pos (beq_iff_eq.mpr hb), h.mem_appendFound, ih]
      simp only [hb, and_true, exists_eq_or]
    · rw [if_neg (fun hbeq => hb (beq_iff_eq.mp hbeq)), ih]
      simp [hb]

/-- The strings that `Match` looks up: the input, and its suffixes that start with a dot. -/
def LookedUp (input s : List UInt8) : Prop := s = input ∨ DotSuffix input s

lemma Serves.mem_matchInput (h : Serves memHash g regs) :
    v ∈ g.matchInput memHash input ↔ ∃ s t, LookedUp input s ∧ (s, t, v) ∈ regs := by
  rw [matchInput, mem_compositeMatchesReverse, scan_fst, h.mem_appendFound, h.mem_scan]
  exact exists_eq_or.symm

/-- The loop of `MatchAny` returns at the first stored suffix, and else has the hash of the
input. -/
lemma Serves.scanAny_eq (h : Serves memHash g regs) (input : List UInt8) :
    (g.scanAny memHash input = none ∧ ∃ s t v, DotSuffix input s ∧ (s, t, v) ∈ regs) ∨
      (g.scanAny memHash input = some (rollingHash 0 input) ∧
        ¬ ∃ s t v, DotSuffix input s ∧ (s, t, v) ∈ regs) := by
  induction input with
  | nil => exact .inr ⟨rfl, by simp [dotSuffix_nil]⟩
  | cons b rest ih =>
    rcases ih with ⟨hnone, s, t, v, hs, hr⟩ | ⟨hsome, hno⟩
    · refine .inl ⟨?_, s, t, v, dotSuffix_cons.mpr (.inr hs), hr⟩
      rw [scanAny, hnone]
      rfl
    · have hcond : (b == dot && g.lookup memHash (rollingHash 0 (b :: rest)) (b :: rest) != 0) =
          true ↔ ∃ s t v, DotSuffix (b :: rest) s ∧ (s, t, v) ∈ regs := by
        rw [Bool.and_eq_true, beq_iff_eq, bne_iff_ne, h.lookup_ne_zero_iff]
        constructor
        · rintro ⟨hb, t, v, hr⟩
          exact ⟨_, t, v, dotSuffix_cons.mpr (.inl ⟨rfl, hb⟩), hr⟩
        · rintro ⟨s, t, v, hs, hr⟩
          rcases dotSuffix_cons.mp hs with ⟨rfl, hb⟩ | hs
          · exact ⟨hb, t, v, hr⟩
          · exact absurd ⟨s, t, v, hs, hr⟩ hno
      have hstep : g.scanAny memHash (b :: rest) =
          if b == dot && g.lookup memHash (rollingHash 0 (b :: rest)) (b :: rest) != 0 then none
          else some (rollingHash 0 (b :: rest)) := by
        rw [scanAny, hsome]
        rfl
      rw [hstep, ← hcond]
      exact (em _).imp (fun hc => ⟨if_pos hc, hc⟩) fun hc => ⟨if_neg hc, hc⟩

lemma Serves.matchAny_iff (h : Serves memHash g regs) :
    g.matchAny memHash input = true ↔ ∃ s t v, LookedUp input s ∧ (s, t, v) ∈ regs := by
  unfold matchAny LookedUp
  rcases h.scanAny_eq input with ⟨hnone, s, t, v, hs, hr⟩ | ⟨hsome, hno⟩
  · rw [hnone]
    exact iff_of_true rfl ⟨s, t, v, .inr hs, hr⟩
  · rw [hsome]
    simp only [bne_iff_ne, h.lookup_ne_zero_iff]
    constructor
    · rintro ⟨t, v, hr⟩
      exact ⟨input, t, v, .inl rfl, hr⟩
    · rintro ⟨s, t, v, rfl | hs, hr⟩
      · exact ⟨t, v, hr⟩
      · exact absurd ⟨s, t, v, hs, hr⟩ hno

/-- A matcher for the group: full or domain, with a lower-case pattern that does not start with a
dot. -/
structure Admissible (toLower : List UInt8 → List UInt8) (m : Matcher) : Prop where
  type : m.type = .full ∨ m.type = .domain
  lower : toLower m.pattern = m.pattern
  dot : m.pattern.head? ≠ some dot

variable {toLower : List UInt8 → List UInt8} {m : Matcher}

instance : Decidable (Admissible toLower m) :=
  decidable_of_iff
    ((m.type = .full ∨ m.type = .domain) ∧ toLower m.pattern = m.pattern ∧
      m.pattern.head? ≠ some StrMatcher.dot)
    ⟨fun ⟨ht, hl, hd⟩ => ⟨ht, hl, hd⟩, fun h => ⟨h.type, h.lower, h.dot⟩⟩

lemma Admissible.lookedUp_pattern (hm : Admissible toLower m) :
    LookedUp input m.pattern ↔ m.pattern = input := by
  constructor
  · rintro (h | h)
    · exact h
    · exact absurd h.2 hm.dot
  · exact Or.inl

lemma lookedUp_dot {pattern : List UInt8} :
    LookedUp input (dot :: pattern) ↔ dot :: pattern <:+ input := by
  constructor
  · rintro (rfl | h)
    · exact suffix_rfl
    · exact h.1
  · intro h
    exact .inr ⟨h, rfl⟩

/-- The group looks up one of the strings that a matcher registers. -/
def TableAccepts (input : List UInt8) (m : Matcher) : Prop :=
  match m.type with
  | .full => LookedUp input m.pattern
  | .domain => LookedUp input m.pattern ∨ dot :: m.pattern <:+ input
  | .substr => False

lemma lookedUp_registrations {w : UInt32} :
    (∃ s t, LookedUp input s ∧ (s, t, v) ∈ registrations (m, w)) ↔
      TableAccepts input m ∧ v = w := by
  unfold registrations TableAccepts
  rw [← lookedUp_dot]
  cases m.type with
  | full =>
    simp only [mem_singleton, Prod.mk.injEq]
    grind
  | domain =>
    simp only [mem_cons, not_mem_nil, or_false, Prod.mk.injEq]
    grind
  | substr => simp

lemma Admissible.tableAccepts_iff (hm : Admissible toLower m) :
    TableAccepts input m ↔ m.accepts input = true := by
  rw [TableAccepts, hm.lookedUp_pattern]
  rcases hm.type with ht | ht
  · simp [Matcher.accepts, ht, fullMatch_iff]
  · simp [Matcher.accepts, ht, domainMatch_iff]

def storedStrings (m : Matcher) : List (List UInt8) :=
  if m.type = .domain then [m.pattern, dot :: m.pattern] else [m.pattern]

lemma Admissible.mem_registrations (hm : Admissible toLower m) {w : UInt32} :
    (∃ t v, (s, t, v) ∈ registrations (m, w)) ↔ s ∈ storedStrings m := by
  rcases hm.type with ht | ht <;> simp [registrations, storedStrings, ht, exists_or]

/-! ### The group as a whole -/

section Group

variable {matchers : List (Matcher × UInt32)}

lemma lookedUp_flatMap :
    (∃ s t, LookedUp input s ∧ (s, t, v) ∈ matchers.flatMap registrations) ↔
      ∃ m, (m, v) ∈ matchers ∧ TableAccepts input m := by
  simp only [mem_flatMap]
  constructor
  · rintro ⟨s, t, hs, ⟨m, w⟩, hm, hr⟩
    obtain ⟨hacc, rfl⟩ := lookedUp_registrations.mp ⟨s, t, hs, hr⟩
    exact ⟨m, hm, hacc⟩
  · rintro ⟨m, hm, hacc⟩
    obtain ⟨s, t, hs, hr⟩ := lookedUp_registrations.mpr ⟨hacc, rfl⟩
    exact ⟨s, t, hs, _, hm, hr⟩

lemma mem_lookedUp_iff (hadm : ∀ m ∈ matchers, Admissible toLower m.1) :
    (∃ s t, LookedUp input s ∧ (s, t, v) ∈ matchers.flatMap registrations) ↔
      v ∈ acceptedValues matchers input := by
  rw [lookedUp_flatMap, mem_acceptedValues]
  exact exists_congr fun m => and_congr_right fun hm => (hadm _ hm).tableAccepts_iff

lemma no_substr_registration (s : List UInt8) (v : UInt32) :
    (s, .substr, v) ∉ matchers.flatMap registrations := by
  rw [mem_flatMap]
  rintro ⟨m, -, hr⟩
  unfold registrations at hr
  cases ht : m.1.type <;> simp [ht] at hr

/-- **The group is exact.** For every hash of the runtime, every order in which the buckets are
sorted and every build that returns: `Match` returns the values of the matchers that accept the
input and no others, `MatchAny` tells whether there is one, a lookup with the hash of a string finds
it exactly when it is stored and no lookup ends at another string, the stored strings are those of
the matchers, and the rolling hash can be extended from a suffix. Places are 32-bit words, so there
have to be fewer than `2 ^ 32` stored strings. -/
theorem mph_exact (memHash : UInt32 → List UInt8 → UInt32) (sort : SliceSort)
    (toLower : List UInt8 → List UInt8) (matchers : List (Matcher × UInt32))
    (hadm : ∀ m ∈ matchers, Admissible toLower m.1)
    (hsize : (ofMatchers toLower matchers).rules.length ≤ 2 ^ 32) (fuel : Nat)
    (g : MphMatcherGroup) (hbuild : (ofMatchers toLower matchers).build memHash sort fuel = some g)
    (input : List UInt8) :
    (∀ v, v ∈ g.matchInput memHash input ↔ v ∈ acceptedValues matchers input) ∧
      (g.matchAny memHash input = true ↔ acceptedValues matchers input ≠ []) ∧
      (∀ s, g.lookup memHash (rollingHash 0 s) s ≠ 0 ↔ s ∈ g.rules.tail) ∧
      (∀ hash s, g.lookup memHash hash s ≠ 0 →
        g.rules[(g.lookup memHash hash s).toNat]? = some s) ∧
      (∀ s, s ∈ g.rules.tail ↔ ∃ m ∈ matchers, s ∈ storedStrings m.1) ∧
      (∀ hash front suffix,
        rollingHash (rollingHash hash suffix) front = rollingHash hash (front ++ suffix)) := by
  have hreg := registers_ofMatchers fun m hm => (hadm m hm).lower
  have h := hreg.build no_substr_registration hsize hbuild
  refine ⟨fun v => ?_, ?_, fun s => ?_, fun hash s => h.hit, fun s => ?_, rollingHash_append⟩
  · rw [h.mem_matchInput, mem_lookedUp_iff hadm]
  · rw [h.matchAny_iff, acceptedValues_ne_nil]
    simp only [← mem_lookedUp_iff hadm]
    constructor
    · rintro ⟨s, t, v, hs⟩
      exact ⟨v, s, t, hs⟩
    · rintro ⟨v, s, t, hs⟩
      exact ⟨s, t, v, hs⟩
  · rw [h.lookup_ne_zero_iff, h.mem]
  · rw [h.mem]
    simp only [mem_flatMap]
    constructor
    · rintro ⟨t, v, m, hm, hr⟩
      exact ⟨m, hm, (hadm m hm).mem_registrations.mp ⟨t, v, hr⟩⟩
    · rintro ⟨m, hm, hs⟩
      obtain ⟨t, v, hr⟩ := (hadm m hm).mem_registrations.mpr hs
      exact ⟨t, v, m, hm, hr⟩

/-- A domain, a name below it, and the domain once more as a full pattern. -/
def exampleMatchers : List (Matcher × UInt32) :=
  [(⟨.domain, ascii "b"⟩, 1), (⟨.full, ascii "a.b"⟩, 2), (⟨.full, ascii "b"⟩, 3)]

def exampleHash (seed : UInt32) (s : List UInt8) : UInt32 := rollingHash seed s

theorem mph_exact_exampleMatchers :
    ∃ g, (ofMatchers id exampleMatchers).build exampleHash SliceSort.insertion 4 = some g ∧
      (∀ v, v ∈ g.matchInput exampleHash (ascii "a.b") ↔ v ∈ [1, 2]) ∧
      g.matchAny exampleHash (ascii "a.b") = true := by
  refine ⟨_, rfl, ?_, ?_⟩
  · exact (mph_exact exampleHash SliceSort.insertion id exampleMatchers (by decide) (by decide) 4 _
      rfl (ascii "a.b")).1
  · exact (mph_exact exampleHash SliceSort.insertion id exampleMatchers (by decide) (by decide) 4 _
      rfl (ascii "a.b")).2.1.mpr (by decide)

end Group
end BypassCore.StrMatcher.MphMatcherGroup
