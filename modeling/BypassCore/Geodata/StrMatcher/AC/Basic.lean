import BypassCore.Geodata.StrMatcher.Basic
import BypassCore.Lib.Worklist
import BypassCore.Lib.Slices

/-!
# The automaton group

`ACAutomatonMatcherGroup` of the `strmatcher` package. Patterns are stored from their last byte to
their first in a trie over 39 classes of bytes. `Build` goes through the trie breadth first, writes
the missing edges into the table of transitions and links every node to the next node on its fail
path with substring matchers. `Match` reads the input from right to left; as long as it has only
used edges of the trie, full and domain matchers can match, while substring matchers match at every
node and on its fail path.

The indices of nodes and of match entries are 32-bit words in the source. The loops of `Build` and
of the fail path have fuel here.
-/

namespace BypassCore.StrMatcher

open Lib Function

/-- The classes of bytes: letters, digits, hyphen, dot and the rest (`acValidCharCount`). -/
abbrev Edge := Fin 39

def acCharset (b : UInt8) : Edge :=
  if 65 ≤ b.toNat ∧ b.toNat ≤ 90 then Fin.ofNat 39 (b.toNat - 64)
  else if 97 ≤ b.toNat ∧ b.toNat ≤ 122 then Fin.ofNat 39 (b.toNat - 96)
  else if b.toNat = 45 then 27
  else if b.toNat = 46 then 28
  else if 48 ≤ b.toNat ∧ b.toNat ≤ 57 then Fin.ofNat 39 (b.toNat - 19)
  else 0

inductive AcEdge where
  | fail
  | trie
deriving DecidableEq, Repr

/-- `acNode`; the index of the match entry is `match` in the source. -/
structure AcNode where
  next : Edge → Nat
  edge : Edge → AcEdge
  fail : Nat
  matchIdx : Nat

def AcNode.zero : AcNode := ⟨fun _ => 0, fun _ => .fail, 0, 0⟩

structure ACAutomatonMatcherGroup where
  nodes : List AcNode
  values : List MatcherValues

namespace ACAutomatonMatcherGroup

variable (ac : ACAutomatonMatcherGroup)

def node (i : Nat) : AcNode := ac.nodes.getD i AcNode.zero

def entry (i : Nat) : MatcherValues :=
  ac.values.getD i fun _ => []

def setNode (i : Nat) (f : AcNode → AcNode) : ACAutomatonMatcherGroup :=
  { ac with nodes := ac.nodes.modify i f }

def addNode : Nat × ACAutomatonMatcherGroup :=
  (ac.nodes.length % 2 ^ 32, { ac with nodes := ac.nodes ++ [AcNode.zero] })

def addMatchEntry : Nat × ACAutomatonMatcherGroup :=
  (ac.values.length % 2 ^ 32, { ac with values := ac.values ++ [fun _ => []] })

/-- `NewACAutomatonMatcherGroup`: the root and the sentinel entry. -/
def new : ACAutomatonMatcherGroup := ⟨[AcNode.zero], [fun _ => []]⟩

variable (nodeIdx : Nat)

def addLeaf (edgeIdx : Edge) : ACAutomatonMatcherGroup :=
  ac.addNode.2.setNode nodeIdx fun n =>
    { n with
      next := update n.next edgeIdx ac.addNode.1
      edge := update n.edge edgeIdx .trie }

/-- The body of the loop of `addPattern`: follow the edge, or add a node at its end. -/
def follow (b : UInt8) : Nat × ACAutomatonMatcherGroup :=
  let edgeIdx := acCharset b
  let nextIdx := (ac.node nodeIdx).next edgeIdx
  if nextIdx = 0 then (ac.addNode.1, ac.addLeaf nodeIdx edgeIdx) else (nextIdx, ac)

/-- The loop of `addPattern`, from the last byte of the pattern to the first. -/
def descend (ac : ACAutomatonMatcherGroup) (nodeIdx : Nat) :
    List UInt8 → Nat × ACAutomatonMatcherGroup
  | [] => (nodeIdx, ac)
  | b :: rest => (descend ac nodeIdx rest).2.follow (descend ac nodeIdx rest).1 b

def ensureEntry : ACAutomatonMatcherGroup :=
  if (ac.node nodeIdx).matchIdx = 0 then
    ac.addMatchEntry.2.setNode nodeIdx fun n => { n with matchIdx := ac.addMatchEntry.1 }
  else ac

def appendValue (matcherType : MatcherType)
    (value : UInt32) : ACAutomatonMatcherGroup :=
  { ac with values := ac.values.modify (ac.node nodeIdx).matchIdx (·.add matcherType value) }

def addPattern (pattern : List UInt8)
    (matcherType : MatcherType) (value : UInt32) : Nat × ACAutomatonMatcherGroup :=
  let reached := ac.descend nodeIdx pattern
  (reached.1, (reached.2.ensureEntry reached.1).appendValue reached.1 matcherType value)

variable (pattern : List UInt8)

def addFullMatcher (value : UInt32) : ACAutomatonMatcherGroup :=
  (ac.addPattern 0 pattern .full value).2

/-- `AddDomainMatcher`: once for the domain itself and once with a dot in front. -/
def addDomainMatcher (value : UInt32) : ACAutomatonMatcherGroup :=
  let added := ac.addPattern 0 pattern .domain value
  (added.2.addPattern added.1 [dot] .domain value).2

def addSubstrMatcher (value : UInt32) : ACAutomatonMatcherGroup :=
  (ac.addPattern 0 pattern .substr value).2

def addMatcher (m : Matcher × UInt32) : ACAutomatonMatcherGroup :=
  match m.1.type with
  | .full => ac.addFullMatcher m.1.pattern m.2
  | .domain => ac.addDomainMatcher m.1.pattern m.2
  | .substr => ac.addSubstrMatcher m.1.pattern m.2

def ofMatchers (matchers : List (Matcher × UInt32)) : ACAutomatonMatcherGroup :=
  matchers.foldl addMatcher new

/-- The automaton during the build, with the fail path before compression. -/
structure Building where
  ac : ACAutomatonMatcherGroup
  fail : List Nat

def hasSubstr : Bool :=
  (ac.node nodeIdx).matchIdx != 0 && (ac.entry (ac.node nodeIdx).matchIdx .substr).length > 0

/-- Link a node to the next substring node on its fail path. -/
def setFail (nodeIdx failIdx : Nat) : ACAutomatonMatcherGroup :=
  ac.setNode nodeIdx fun n => { n with fail := failIdx }

def setFailEdge (edgeIdx : Edge) (failIdx : Nat) : ACAutomatonMatcherGroup :=
  ac.setNode nodeIdx fun n =>
    { n with
      next := update n.next edgeIdx failIdx
      edge := update n.edge edgeIdx .fail }

/-- The body of the loop over the edges of a node: queue the child and link it, or write the
transition of the fail node into the table. -/
def linkEdge (nodeIdx failNode : Nat) (st : Building × List Nat) (edgeIdx : Edge) :
    Building × List Nat :=
  let ac := st.1.ac
  let child := (ac.node nodeIdx).next edgeIdx
  let failIdx := (ac.node failNode).next edgeIdx
  if child ≠ 0 then
    (⟨ac.setFail child (if ac.hasSubstr failIdx then failIdx else (ac.node failIdx).fail),
      st.1.fail.set child failIdx⟩, st.2 ++ [child])
  else (⟨ac.setFailEdge nodeIdx edgeIdx failIdx, st.1.fail⟩, st.2)

/-- One round of the loop over the queue: the node's edges, and the children to be queued. -/
def visit (st : Building) (nodeIdx : Nat) : Building × List Nat :=
  (List.finRange 39).foldl (linkEdge nodeIdx (st.fail.getD nodeIdx 0)) (st, [])

def rootQueue : List Nat :=
  ((List.finRange 39).map (ac.node 0).next).filter (· ≠ 0)

def build (fuel : Nat) (ac : ACAutomatonMatcherGroup) : Option ACAutomatonMatcherGroup :=
  (worklist visit fuel ⟨ac, List.replicate ac.nodes.length 0⟩ ac.rootQueue).map Building.ac

/-- The loop along the fail path of a node: the substring values it appends. The assignment of the
loop header reads the old index for the next node. -/
def failPath (ac : ACAutomatonMatcherGroup) : Nat → Nat → Nat → Option (List (List UInt32))
  | _, 0, _ => some []
  | 0, _ + 1, _ => none
  | fuel + 1, failIdx + 1, failNode =>
    (failPath ac fuel (ac.node failNode).fail (failIdx + 1)).map fun rest =>
      ac.entry (ac.node failNode).matchIdx .substr :: rest

structure MatchState where
  node : Nat
  fullMatch : Bool
  suffixMatches : List (List UInt32)
  substrMatches : List (List UInt32)

def appendValues (matched : List (List UInt32)) (values : List UInt32) : List (List UInt32) :=
  if values.length > 0 then matched ++ [values] else matched

/-- The body of the loop of `Match`, once the fail path has been gone through. -/
def enter (st : MatchState) (b : UInt8)
    (path : List (List UInt32)) : MatchState :=
  let fullMatch := st.fullMatch && (ac.node st.node).edge (acCharset b) == .trie
  let node := (ac.node st.node).next (acCharset b)
  let values := ac.entry (ac.node node).matchIdx
  { node
    fullMatch
    suffixMatches :=
      if (ac.node node).matchIdx ≠ 0 ∧ fullMatch ∧ b = dot then
        appendValues st.suffixMatches (values .domain)
      else st.suffixMatches
    substrMatches :=
      if (ac.node node).matchIdx ≠ 0 then appendValues (st.substrMatches ++ path) (values .substr)
      else st.substrMatches ++ path }

def scan (ac : ACAutomatonMatcherGroup) (fuel : Nat) : List UInt8 → Option MatchState
  | [] => some ⟨0, true, [], []⟩
  | b :: rest =>
    (scan ac fuel rest).bind fun st =>
      let fail := (ac.node ((ac.node st.node).next (acCharset b))).fail
      (ac.failPath fuel fail fail).map (ac.enter st b)

def finish (st : MatchState) : List (List UInt32) :=
  if st.fullMatch ∧ (ac.node st.node).matchIdx ≠ 0 then
    appendValues (appendValues st.suffixMatches (ac.entry (ac.node st.node).matchIdx .domain))
      (ac.entry (ac.node st.node).matchIdx .full)
  else st.suffixMatches

def matchInput (fuel : Nat) (input : List UInt8) : Option (List UInt32) :=
  (ac.scan fuel input).map fun st =>
    if st.substrMatches.length = 0 then compositeMatchesReverse (ac.finish st)
    else compositeMatchesReverse (st.substrMatches ++ ac.finish st)

/-- The loop of `MatchAny`: the node and the flag, or nothing when it has returned. -/
def scanAny (ac : ACAutomatonMatcherGroup) : List UInt8 → Option (Nat × Bool)
  | [] => some (0, true)
  | b :: rest =>
    (scanAny ac rest).bind fun st =>
      let fullMatch := st.2 && (ac.node st.1).edge (acCharset b) == .trie
      let node := (ac.node st.1).next (acCharset b)
      let values := ac.entry (ac.node node).matchIdx
      if (ac.node node).fail ≠ 0 then none
      else if (ac.node node).matchIdx ≠ 0 ∧ (values .substr).length > 0 then none
      else if (ac.node node).matchIdx ≠ 0 ∧ fullMatch ∧ b = dot ∧ (values .domain).length > 0 then
        none
      else some (node, fullMatch)

def matchAny (input : List UInt8) : Bool :=
  match ac.scanAny input with
  | none => true
  | some st => st.2 && (ac.node st.1).matchIdx != 0

end ACAutomatonMatcherGroup
end BypassCore.StrMatcher

/-!
## The trie of the patterns

Adding matchers grows a trie. Its nodes stand for words of byte classes; a child has one letter more
in front than its parent, since patterns are read from their end. The invariant names the word of
each node in a list beside the nodes, and says what is registered at it.
-/

namespace BypassCore.StrMatcher.ACAutomatonMatcherGroup

open Lib List Option

abbrev Word := List Edge

abbrev classes (s : List UInt8) : Word := s.map acCharset

variable {ac : ACAutomatonMatcherGroup} {i j : Nat}

@[simp] lemma length_setNode (ac : ACAutomatonMatcherGroup) (i : Nat) (f : AcNode → AcNode) :
    (ac.setNode i f).nodes.length = ac.nodes.length := by
  simp [setNode]

@[simp] lemma values_setNode (ac : ACAutomatonMatcherGroup) (i : Nat) (f : AcNode → AcNode) :
    (ac.setNode i f).values = ac.values := rfl

@[simp] lemma entry_setNode (ac : ACAutomatonMatcherGroup) (i j : Nat) (f : AcNode → AcNode) :
    (ac.setNode i f).entry j = ac.entry j := rfl

lemma node_setNode (hi : i < ac.nodes.length) (j : Nat) (f : AcNode → AcNode) :
    (ac.setNode i f).node j = if j = i then f (ac.node i) else ac.node j := by
  rw [node, setNode, getD_modify hi]
  split_ifs with h
  · rw [h]
    rfl
  · rfl

@[simp] lemma node_setNode_self (hi : i < ac.nodes.length) (f : AcNode → AcNode) :
    (ac.setNode i f).node i = f (ac.node i) := by
  rw [node_setNode hi, if_pos rfl]

lemma node_setNode_ne (h : j ≠ i) (f : AcNode → AcNode) : (ac.setNode i f).node j = ac.node j := by
  unfold node setNode
  simp [Ne.symm h]

/-- A new node is what reading out of range gives, so it changes no node. -/
@[simp] lemma node_addNode (ac : ACAutomatonMatcherGroup) (j : Nat) :
    ac.addNode.2.node j = ac.node j :=
  getD_concat_self ac.nodes AcNode.zero j

lemma node_of_le (h : ac.nodes.length ≤ i) : ac.node i = AcNode.zero := by
  rw [node, getD_eq_getElem?_getD, getElem?_eq_none h]
  rfl

@[simp] lemma entry_addMatchEntry (ac : ACAutomatonMatcherGroup) (j : Nat) :
    ac.addMatchEntry.2.entry j = ac.entry j :=
  getD_concat_self ac.values (fun _ => []) j

lemma entry_appendValue (ac : ACAutomatonMatcherGroup) (i j : Nat) (t : MatcherType) (v : UInt32)
    (hi : (ac.node i).matchIdx < ac.values.length) :
    (ac.appendValue i t v).entry j =
      if j = (ac.node i).matchIdx then (ac.entry j).add t v else ac.entry j :=
  getD_modify hi _ _

/-! ### The shape of the trie -/

/-- `W` lists the words of the nodes: a node has a child along a class exactly when the longer word
is in the list, and then the child is the node of that word. -/
structure Shape (ac : ACAutomatonMatcherGroup) (W : List Word) : Prop where
  length : W.length = ac.nodes.length
  root : W[0]? = some []
  nodup : W.Nodup
  closed : ∀ {e w}, e :: w ∈ W → w ∈ W
  next : ∀ {i w e}, W[i]? = some w → ((ac.node i).next e ≠ 0 ↔ e :: w ∈ W)
  child : ∀ {i w e}, W[i]? = some w → (ac.node i).next e ≠ 0 →
    W[(ac.node i).next e]? = some (e :: w)
  edge : ∀ {i w e}, W[i]? = some w → ((ac.node i).edge e = .trie ↔ e :: w ∈ W)
  fail : ∀ i, (ac.node i).fail = 0

variable {W : List Word} {w : Word}

lemma Shape.lt (h : Shape ac W) (hi : W[i]? = some w) : i < ac.nodes.length := by
  rw [← h.length]
  exact (List.getElem?_eq_some_iff.mp hi).1

lemma index_unique (hn : W.Nodup) (hi : W[i]? = some w) (hj : W[j]? = some w) : i = j :=
  (getElem?_inj (List.getElem?_eq_some_iff.mp hi).1 hn).mp (hi.trans hj.symm)

lemma node_new (i : Nat) : new.node i = AcNode.zero := by
  rcases i with _ | i
  · rfl
  · exact node_of_le (Nat.succ_le_succ (Nat.zero_le i))

lemma shape_new : Shape new [[]] where
  length := rfl
  root := rfl
  nodup := nodup_singleton _
  closed := by simp
  next := by simp [node_new, AcNode.zero]
  child := by simp [node_new, AcNode.zero]
  edge := by simp [node_new, AcNode.zero]
  fail := by simp [node_new, AcNode.zero]

lemma word_ne {x : Word} (hn : W.Nodup) (hij : i ≠ j) (hi : W[i]? = some x)
    (hj : W[j]? = some w) : x ≠ w := by
  rintro rfl
  exact hij (index_unique hn hi hj)

/-- Only the transitions matter for the shape. -/
lemma Shape.congr {ac' : ACAutomatonMatcherGroup} (h : Shape ac W)
    (hlen : ac'.nodes.length = ac.nodes.length) (hnext : ∀ i, (ac'.node i).next = (ac.node i).next)
    (hedge : ∀ i, (ac'.node i).edge = (ac.node i).edge)
    (hfail : ∀ i, (ac'.node i).fail = (ac.node i).fail) : Shape ac' W where
  length := h.length.trans hlen.symm
  root := h.root
  nodup := h.nodup
  closed := h.closed
  next hi := by
    rw [hnext]
    exact h.next hi
  child hi := by
    rw [hnext]
    exact h.child hi
  edge hi := by
    rw [hedge]
    exact h.edge hi
  fail i := by rw [hfail, h.fail]

section AddLeaf

variable {e : Edge}

lemma node_addLeaf (hi : i < ac.nodes.length) (j : Nat) :
    (ac.addLeaf i e).node j =
      if j = i then
        { ac.node i with
          next := Function.update (ac.node i).next e ac.addNode.1
          edge := Function.update (ac.node i).edge e .trie } else ac.node j := by
  have hlt : i < ac.addNode.2.nodes.length := by
    rw [addNode, length_append]
    exact Nat.lt_add_right _ hi
  rw [addLeaf, node_setNode hlt, node_addNode, node_addNode]

lemma matchIdx_addLeaf (hi : i < ac.nodes.length) (j : Nat) :
    ((ac.addLeaf i e).node j).matchIdx = (ac.node j).matchIdx := by
  rw [node_addLeaf hi]
  split_ifs with hj
  · rw [hj]
  · rfl

/-- The edges after a leaf has been added: none leaves the leaf, one leads to it, and the others are
as they were. -/
lemma Shape.addLeaf_cases (h : Shape ac W) (hi : W[i]? = some w)
    (hnew : (ac.node i).next e = 0) {x : Word} (hj : (W ++ [e :: w])[j]? = some x) (e' : Edge) :
    (((ac.addLeaf i e).node j).next e' = 0 ∧ ((ac.addLeaf i e).node j).edge e' = .fail ∧
        e' :: x ∉ W ++ [e :: w]) ∨
      (((ac.addLeaf i e).node j).next e' = ac.addNode.1 ∧
        ((ac.addLeaf i e).node j).edge e' = .trie ∧ e' :: x = e :: w) ∨
      (W[j]? = some x ∧ ((ac.addLeaf i e).node j).next e' = (ac.node j).next e' ∧
        ((ac.addLeaf i e).node j).edge e' = (ac.node j).edge e' ∧
        (e' :: x ∈ W ++ [e :: w] ↔ e' :: x ∈ W)) := by
  have habs : e :: w ∉ W := fun hmem => (h.next hi).mpr hmem hnew
  rw [node_addLeaf (h.lt hi)]
  rcases getElem?_concat_iff.mp hj with hj | ⟨rfl, rfl⟩
  · by_cases hji : j = i
    · subst hji
      obtain rfl : w = x := some_inj.mp (hi.symm.trans hj)
      by_cases he : e' = e
      · subst he
        exact .inr (.inl ⟨by simp, by simp, rfl⟩)
      · exact .inr (.inr ⟨hj, by simp [he], by simp [he], by simp [he]⟩)
    · refine .inr (.inr ⟨hj, by simp [hji], by simp [hji], ?_⟩)
      have hne : x ≠ w := word_ne h.nodup hji hj hi
      simp [hne]
  · -- the leaf itself: a longer word would have brought it into the trie before
    have hzero : ac.node W.length = AcNode.zero := node_of_le h.length.ge
    have hne : W.length ≠ i := (h.length ▸ h.lt hi).ne'
    refine .inl ⟨by simp [hne, hzero, AcNode.zero], by simp [hne, hzero, AcNode.zero], ?_⟩
    rw [mem_append, mem_singleton, not_or]
    refine ⟨fun hmem => habs (h.closed hmem), fun heq => ?_⟩
    have hlen := congrArg List.length heq
    simp at hlen

lemma Shape.addLeaf (h : Shape ac W) (hi : W[i]? = some w) (hnew : (ac.node i).next e = 0)
    (hsize : ac.nodes.length < 2 ^ 32) : Shape (ac.addLeaf i e) (W ++ [e :: w]) := by
  have hidx : ac.addNode.1 = W.length := by
    rw [h.length]
    exact Nat.mod_eq_of_lt hsize
  have hpos : 0 < W.length := (List.getElem?_eq_some_iff.mp h.root).1
  have habs : e :: w ∉ W := fun hmem => (h.next hi).mpr hmem hnew
  refine ⟨?_, ?_, ?_, ?_, ?_, ?_, ?_, ?_⟩
  · simp [ACAutomatonMatcherGroup.addLeaf, addNode, h.length]
  · rw [getElem?_append_left hpos]
    exact h.root
  · rw [nodup_append]
    refine ⟨h.nodup, nodup_singleton _, ?_⟩
    rintro x hx y hy rfl
    exact habs (mem_singleton.mp hy ▸ hx)
  · intro a x hx
    rw [mem_append, mem_singleton] at hx ⊢
    rcases hx with hx | hx
    · exact .inl (h.closed hx)
    · rw [(cons_eq_cons.mp hx).2]
      exact .inl (mem_of_getElem? hi)
  · intro j x a hj
    rcases h.addLeaf_cases hi hnew hj a with ⟨hn, -, hmem⟩ | ⟨hn, -, hx⟩ | ⟨hj, hn, -, hmem⟩
    · simp [hn, hmem]
    · rw [hn, hidx, hx]
      simp [hpos.ne']
    · rw [hn, hmem]
      exact h.next hj
  · intro j x a hj hne
    rcases h.addLeaf_cases hi hnew hj a with ⟨hn, -, -⟩ | ⟨hn, -, hx⟩ | ⟨hj, hn, -, -⟩
    · exact absurd hn hne
    · rw [hn, hidx, hx]
      exact getElem?_concat_length
    · rw [hn] at hne ⊢
      exact getElem?_concat_iff.mpr (.inl (h.child hj hne))
  · intro j x a hj
    rcases h.addLeaf_cases hi hnew hj a with ⟨-, he, hmem⟩ | ⟨-, he, hx⟩ | ⟨hj, -, he, hmem⟩
    · simp [he, hmem]
    · simp [he, hx]
    · rw [he, hmem]
      exact h.edge hj
  · intro j
    rw [node_addLeaf (h.lt hi)]
    split_ifs
    · exact h.fail i
    · exact h.fail j

end AddLeaf

/-! ### What is registered at the nodes -/

abbrev Registration := Word × MatcherType × UInt32

/-- The match entries hold exactly these registrations, one entry for each node that has some. -/
structure Entries (ac : ACAutomatonMatcherGroup) (W : List Word) (regs : List Registration) :
    Prop where
  registered : ∀ {w t v}, (w, t, v) ∈ regs → w ∈ W
  values : ∀ {i w}, W[i]? = some w →
    ∀ {t v}, v ∈ ac.entry (ac.node i).matchIdx t ↔ (w, t, v) ∈ regs
  distinct : ∀ {i j}, (ac.node i).matchIdx = (ac.node j).matchIdx →
    (ac.node i).matchIdx ≠ 0 → i = j
  lt : ∀ i, (ac.node i).matchIdx < ac.values.length
  sentinel : ∀ t, ac.entry 0 t = []

variable {regs : List Registration}

lemma entries_new : Entries new [[]] [] where
  registered := by simp
  values := by
    intro i w hi t v
    rw [node_new]
    simp [AcNode.zero, new, entry]
  distinct := by simp [node_new, AcNode.zero]
  lt := by
    intro i
    rw [node_new]
    exact Nat.one_pos
  sentinel := by simp [new, entry]

lemma Entries.addLeaf (h : Entries ac W regs) (hs : Shape ac W) (hi : W[i]? = some w) {e : Edge}
    (hnew : (ac.node i).next e = 0) : Entries (ac.addLeaf i e) (W ++ [e :: w]) regs := by
  have hmatch := fun j => matchIdx_addLeaf (e := e) (hs.lt hi) j
  refine ⟨?_, ?_, ?_, ?_, h.sentinel⟩
  · intro x t v hr
    exact mem_append_left _ (h.registered hr)
  · intro j x hj t v
    rw [hmatch]
    rcases getElem?_concat_iff.mp hj with hj | ⟨rfl, rfl⟩
    · exact h.values hj
    · have habs : (e :: w, t, v) ∉ regs := fun hr => (hs.next hi).mpr (h.registered hr) hnew
      have hzero : (ac.node W.length).matchIdx = 0 := by rw [node_of_le hs.length.ge]; rfl
      have hsentinel : (ac.addLeaf i e).entry 0 t = [] := h.sentinel t
      simp [hzero, hsentinel, habs]
  · intro a b
    rw [hmatch, hmatch]
    exact h.distinct
  · intro j
    rw [hmatch]
    exact h.lt j

lemma Entries.pos (h : Entries ac W regs) : 0 < ac.values.length :=
  (Nat.zero_le _).trans_lt (h.lt 0)

lemma matchIdx_ensureEntry (hi : i < ac.nodes.length) (h0 : (ac.node i).matchIdx = 0)
    (hsize : (ac.ensureEntry i).values.length ≤ 2 ^ 32) (j : Nat) :
    ((ac.ensureEntry i).node j).matchIdx =
      if j = i then ac.values.length else (ac.node j).matchIdx := by
  rw [ensureEntry, if_pos h0] at hsize ⊢
  have hidx : ac.addMatchEntry.1 = ac.values.length := by
    rw [values_setNode, addMatchEntry, length_append] at hsize
    exact Nat.mod_eq_of_lt hsize
  have hlt : i < ac.addMatchEntry.2.nodes.length := hi
  have hnode : ∀ j, ac.addMatchEntry.2.node j = ac.node j := fun _ => rfl
  rw [node_setNode hlt, hidx]
  split_ifs <;> rfl

lemma entry_ensureEntry (ac : ACAutomatonMatcherGroup) (i j : Nat) :
    (ac.ensureEntry i).entry j = ac.entry j := by
  unfold ensureEntry
  split_ifs
  · rw [entry_setNode, entry_addMatchEntry]
  · rfl

lemma Entries.ensureEntry (h : Entries ac W regs) (hi : i < ac.nodes.length)
    (hsize : (ac.ensureEntry i).values.length ≤ 2 ^ 32) :
    Entries (ac.ensureEntry i) W regs ∧ ((ac.ensureEntry i).node i).matchIdx ≠ 0 := by
  by_cases h0 : (ac.node i).matchIdx = 0
  · have hmatch := matchIdx_ensureEntry hi h0 hsize
    refine ⟨⟨h.registered, ?_, ?_, ?_, ?_⟩, ?_⟩
    · intro j x hj t v
      rw [hmatch, entry_ensureEntry]
      split_ifs with hji
      · -- the new entry is as empty as the sentinel
        subst hji
        rw [← h.values hj, h0, h.sentinel]
        simp [entry]
      · exact h.values hj
    · intro a b hab hne
      rw [hmatch, hmatch] at hab
      rw [hmatch] at hne
      split_ifs at hab hne with ha hb hb
      · rw [ha, hb]
      · exact absurd hab (h.lt b).ne'
      · exact absurd hab (h.lt a).ne
      · exact h.distinct hab hne
    · intro j
      have hlen : (ac.ensureEntry i).values.length = ac.values.length + 1 := by
        rw [ACAutomatonMatcherGroup.ensureEntry, if_pos h0, values_setNode, addMatchEntry,
          length_append, length_singleton]
      rw [hmatch, hlen]
      split_ifs
      · exact Nat.lt_succ_self _
      · exact Nat.lt_succ_of_lt (h.lt j)
    · intro t
      rw [entry_ensureEntry]
      exact h.sentinel t
    · rw [hmatch, if_pos rfl]
      exact h.pos.ne'
  · rw [ACAutomatonMatcherGroup.ensureEntry, if_neg h0]
    exact ⟨h, h0⟩

lemma Entries.appendValue (h : Entries ac W regs) (hn : W.Nodup) (hi : W[i]? = some w)
    (h0 : (ac.node i).matchIdx ≠ 0) (t : MatcherType) (v : UInt32) :
    Entries (ac.appendValue i t v) W (regs ++ [(w, t, v)]) := by
  have hnode : ∀ j, (ac.appendValue i t v).node j = ac.node j := fun _ => rfl
  have hentry := fun j => entry_appendValue ac i j t v (h.lt i)
  refine ⟨?_, ?_, h.distinct, ?_, ?_⟩
  · intro x t' v' hr
    rcases mem_append.mp hr with hr | hr
    · exact h.registered hr
    · obtain ⟨rfl, -⟩ := Prod.mk.inj (mem_singleton.mp hr)
      exact mem_of_getElem? hi
  · intro j x hj t' v'
    rw [hnode, hentry, mem_append, mem_singleton]
    by_cases hji : j = i
    · subst hji
      obtain rfl : w = x := some_inj.mp (hi.symm.trans hj)
      rw [if_pos rfl, MatcherValues.mem_add, h.values hj]
      simp
    · have hne : x ≠ w := word_ne hn hji hj hi
      have hidx : (ac.node j).matchIdx ≠ (ac.node i).matchIdx :=
        fun heq => hji (h.distinct heq.symm h0).symm
      rw [if_neg hidx, h.values hj]
      simp [hne]
  · intro j
    rw [ACAutomatonMatcherGroup.appendValue, length_modify]
    exact h.lt j
  · intro t'
    rw [hentry, if_neg h0.symm]
    exact h.sentinel t'

lemma node_ensureEntry_ne (h : j ≠ i) : (ac.ensureEntry i).node j = ac.node j := by
  unfold ensureEntry
  split_ifs
  · exact node_setNode_ne h _
  · rfl

lemma Shape.ensureEntry (h : Shape ac W) (hi : i < ac.nodes.length) :
    Shape (ac.ensureEntry i) W := by
  unfold ACAutomatonMatcherGroup.ensureEntry
  split_ifs
  · have hnode := fun j => node_setNode (show i < ac.addMatchEntry.2.nodes.length from hi) j
      fun n => { n with matchIdx := ac.addMatchEntry.1 }
    refine h.congr (length_setNode _ _ _) ?_ ?_ ?_ <;>
    · intro j
      rw [hnode]
      split_ifs with hji
      · rw [hji]
        rfl
      · rfl
  · exact h

/-! ### Adding matchers -/

structure Trie (ac : ACAutomatonMatcherGroup) (W : List Word) (regs : List Registration) :
    Prop where
  shape : Shape ac W
  entries : Entries ac W regs
  present : ∀ {i w}, W[i]? = some w → (ac.node i).matchIdx ≠ 0 → ∃ t v, (w, t, v) ∈ regs

lemma trie_new : Trie new [[]] [] where
  shape := shape_new
  entries := entries_new
  present := by
    intro i w hi hne
    rw [node_new] at hne
    exact absurd rfl hne

lemma Trie.follow (h : Trie ac W regs) (hi : W[i]? = some w) {b : UInt8}
    (hsize : (ac.follow i b).2.nodes.length ≤ 2 ^ 32) :
    ∃ W', Trie (ac.follow i b).2 W' regs ∧
      W'[(ac.follow i b).1]? = some (acCharset b :: w) ∧
      ∀ x ∈ W', x ∈ W ∨ x = acCharset b :: w := by
  simp only [ACAutomatonMatcherGroup.follow] at hsize ⊢
  by_cases hnew : (ac.node i).next (acCharset b) = 0
  · rw [if_pos hnew] at hsize ⊢
    have hlt : ac.nodes.length < 2 ^ 32 := by
      rw [addLeaf, length_setNode, addNode, length_append] at hsize
      exact hsize
    refine ⟨W ++ [acCharset b :: w], ⟨h.shape.addLeaf hi hnew hlt,
      h.entries.addLeaf h.shape hi hnew, ?_⟩, ?_, ?_⟩
    · intro j x hj hne
      rw [matchIdx_addLeaf (h.shape.lt hi)] at hne
      rcases getElem?_concat_iff.mp hj with hj | ⟨rfl, -⟩
      · exact h.present hj hne
      · rw [node_of_le h.shape.length.ge] at hne
        exact absurd rfl hne
    · have hidx : ac.addNode.1 = W.length := by
        rw [h.shape.length]
        exact Nat.mod_eq_of_lt hlt
      rw [hidx]
      exact getElem?_concat_length
    · intro x hx
      rw [mem_append, mem_singleton] at hx
      exact hx
  · rw [if_neg hnew]
    exact ⟨W, h, h.shape.child hi hnew, fun x hx => .inl hx⟩

lemma length_follow_le (ac : ACAutomatonMatcherGroup) (i : Nat) (b : UInt8) :
    ac.nodes.length ≤ (ac.follow i b).2.nodes.length := by
  simp only [follow]
  split_ifs
  · simp [addLeaf, addNode]
  · exact le_rfl

lemma length_descend_le (ac : ACAutomatonMatcherGroup) (i : Nat) (pattern : List UInt8) :
    ac.nodes.length ≤ (ac.descend i pattern).2.nodes.length := by
  induction pattern with
  | nil => exact le_rfl
  | cons b rest ih => exact ih.trans (length_follow_le _ _ _)

/-- A pattern leads to the node of its classes in front of the word of the start, along suffixes of
this word. -/
lemma Trie.descend (h : Trie ac W regs) (hi : W[i]? = some w) (pattern : List UInt8)
    (hsize : (ac.descend i pattern).2.nodes.length ≤ 2 ^ 32) :
    ∃ W', Trie (ac.descend i pattern).2 W' regs ∧
      W'[(ac.descend i pattern).1]? = some (classes pattern ++ w) ∧
      ∀ x ∈ W', x ∈ W ∨ x <:+ classes pattern ++ w := by
  induction pattern with
  | nil => exact ⟨W, h, hi, fun x hx => .inl hx⟩
  | cons b rest ih =>
    obtain ⟨W', h', hi', hwords⟩ := ih ((length_follow_le _ _ _).trans hsize)
    obtain ⟨W'', h'', hi'', hwords'⟩ := h'.follow hi' hsize
    refine ⟨W'', h'', hi'', fun x hx => ?_⟩
    rcases hwords' x hx with hx | rfl
    · exact (hwords x hx).imp_right fun hs => hs.trans (suffix_cons _ _)
    · exact .inr suffix_rfl

/-- The indices of the nodes and of the match entries fit into 32-bit words. -/
structure Fits (ac : ACAutomatonMatcherGroup) : Prop where
  nodes : ac.nodes.length ≤ 2 ^ 32
  values : ac.values.length ≤ 2 ^ 32

instance : Decidable (Fits ac) :=
  decidable_of_iff (ac.nodes.length ≤ 2 ^ 32 ∧ ac.values.length ≤ 2 ^ 32)
    ⟨fun ⟨hn, hv⟩ => ⟨hn, hv⟩, fun h => ⟨h.nodes, h.values⟩⟩

lemma values_descend (ac : ACAutomatonMatcherGroup) (i : Nat) (pattern : List UInt8) :
    (ac.descend i pattern).2.values = ac.values := by
  induction pattern with
  | nil => rfl
  | cons b rest ih =>
    rw [← ih]
    simp only [descend, follow]
    split_ifs <;> rfl

lemma length_ensureEntry (ac : ACAutomatonMatcherGroup) (i : Nat) :
    (ac.ensureEntry i).nodes.length = ac.nodes.length := by
  unfold ensureEntry
  split_ifs
  · exact length_setNode _ _ _
  · rfl

lemma length_values_ensureEntry_le (ac : ACAutomatonMatcherGroup) (i : Nat) :
    ac.values.length ≤ (ac.ensureEntry i).values.length := by
  unfold ensureEntry
  split_ifs
  · simp [addMatchEntry]
  · exact le_rfl

section AddPattern

variable {pattern : List UInt8} {t : MatcherType} {v : UInt32}

lemma length_values_addPattern :
    (ac.addPattern i pattern t v).2.values.length =
      ((ac.descend i pattern).2.ensureEntry (ac.descend i pattern).1).values.length := by
  simp [addPattern, appendValue]

lemma Fits.of_addPattern (h : Fits (ac.addPattern i pattern t v).2) : Fits ac := by
  refine ⟨?_, ?_⟩
  · exact (length_descend_le ac i pattern).trans ((length_ensureEntry _ _).ge.trans h.nodes)
  · rw [← values_descend ac i pattern]
    exact (length_values_ensureEntry_le _ _).trans (length_values_addPattern.ge.trans h.values)

lemma Trie.addPattern (h : Trie ac W regs) (hi : W[i]? = some w)
    (hfits : Fits (ac.addPattern i pattern t v).2) :
    ∃ W', Trie (ac.addPattern i pattern t v).2 W' (regs ++ [(classes pattern ++ w, t, v)]) ∧
      W'[(ac.addPattern i pattern t v).1]? = some (classes pattern ++ w) ∧
      ∀ x ∈ W', x ∈ W ∨ x <:+ classes pattern ++ w := by
  obtain ⟨W', h', hi', hwords⟩ := h.descend hi pattern
    ((length_ensureEntry _ _).ge.trans hfits.nodes)
  have hlt := h'.shape.lt hi'
  obtain ⟨hentries, h0⟩ := h'.entries.ensureEntry hlt
    (length_values_addPattern.ge.trans hfits.values)
  refine ⟨W', ⟨?_, hentries.appendValue h'.shape.nodup hi' h0 t v, ?_⟩, hi', hwords⟩
  · exact (h'.shape.ensureEntry hlt).congr rfl (fun _ => rfl) (fun _ => rfl) (fun _ => rfl)
  · intro j x hj hne
    by_cases hji : j = (ac.descend i pattern).1
    · subst hji
      obtain rfl : _ = x := some_inj.mp (hi'.symm.trans hj)
      exact ⟨t, v, mem_append_right _ mem_cons_self⟩
    · have hsame : ((ac.addPattern i pattern t v).2.node j).matchIdx =
          ((ac.descend i pattern).2.node j).matchIdx :=
        congrArg AcNode.matchIdx (node_ensureEntry_ne hji)
      obtain ⟨t', v', hr⟩ := h'.present hj (hsame ▸ hne)
      exact ⟨t', v', mem_append_left _ hr⟩

end AddPattern

def registrations (m : Matcher × UInt32) : List Registration :=
  match m.1.type with
  | .full => [(classes m.1.pattern, .full, m.2)]
  | .domain =>
    [(classes m.1.pattern, .domain, m.2), (classes (dot :: m.1.pattern), .domain, m.2)]
  | .substr => [(classes m.1.pattern, .substr, m.2)]

variable {m : Matcher × UInt32}

lemma Fits.of_addMatcher (h : Fits (ac.addMatcher m)) : Fits ac := by
  unfold ACAutomatonMatcherGroup.addMatcher at h
  cases ht : m.1.type with
  | full | substr =>
    rw [ht] at h
    exact h.of_addPattern
  | domain =>
    rw [ht] at h
    exact h.of_addPattern.of_addPattern

lemma Trie.addMatcher (h : Trie ac W regs) (hfits : Fits (ac.addMatcher m)) :
    ∃ W', Trie (ac.addMatcher m) W' (regs ++ registrations m) ∧
      ∀ x ∈ W', x ∈ W ∨ ∃ r ∈ registrations m, x <:+ r.1 := by
  unfold ACAutomatonMatcherGroup.addMatcher registrations at *
  cases ht : m.1.type with
  | full | substr =>
    rw [ht] at hfits
    obtain ⟨W', h', -, hwords⟩ := h.addPattern h.shape.root hfits
    rw [append_nil] at h' hwords
    exact ⟨W', h', fun x hx => (hwords x hx).imp_right fun hs => ⟨_, mem_cons_self, hs⟩⟩
  | domain =>
    rw [ht] at hfits
    obtain ⟨W', h', hi', hwords⟩ := h.addPattern h.shape.root hfits.of_addPattern
    rw [append_nil] at h' hi' hwords
    -- the dot goes in front of the node that the pattern has led to
    obtain ⟨W'', h'', -, hwords'⟩ := h'.addPattern hi' hfits
    rw [append_assoc] at h''
    refine ⟨W'', h'', fun x hx => ?_⟩
    rcases hwords' x hx with hx | hs
    · exact (hwords x hx).imp_right fun hs => ⟨_, mem_cons_self, hs⟩
    · exact .inr ⟨_, mem_cons_of_mem _ mem_cons_self, hs⟩

variable {matchers : List (Matcher × UInt32)}

lemma Fits.of_foldl
    (h : Fits (matchers.foldl ACAutomatonMatcherGroup.addMatcher ac)) : Fits ac := by
  induction matchers generalizing ac with
  | nil => exact h
  | cons m matchers ih => exact (ih h).of_addMatcher

lemma Trie.foldl (h : Trie ac W regs)
    (hfits : Fits (matchers.foldl ACAutomatonMatcherGroup.addMatcher ac)) :
    ∃ W', Trie (matchers.foldl ACAutomatonMatcherGroup.addMatcher ac) W'
        (regs ++ matchers.flatMap registrations) ∧
      ∀ x ∈ W', x ∈ W ∨ ∃ r ∈ matchers.flatMap registrations, x <:+ r.1 := by
  induction matchers generalizing ac W regs with
  | nil =>
    rw [flatMap_nil, append_nil]
    exact ⟨W, h, fun x hx => .inl hx⟩
  | cons m matchers ih =>
    obtain ⟨W', h', hwords⟩ := h.addMatcher (Fits.of_foldl hfits)
    obtain ⟨W'', h'', hwords'⟩ := ih h' hfits
    rw [append_assoc] at h''
    refine ⟨W'', h'', fun x hx => ?_⟩
    simp only [flatMap_cons, mem_append]
    rcases hwords' x hx with hx | ⟨r, hr, hs⟩
    · exact (hwords x hx).imp_right fun ⟨r, hr, hs⟩ => ⟨r, .inl hr, hs⟩
    · exact .inr ⟨r, .inr hr, hs⟩

/-- A group with these matchers is the trie of their registrations, and every other node is on the
way to one of them. -/
theorem trie_ofMatchers (hfits : Fits (ofMatchers matchers)) :
    ∃ W, Trie (ofMatchers matchers) W (matchers.flatMap registrations) ∧
      ∀ x ∈ W, x = [] ∨ ∃ r ∈ matchers.flatMap registrations, x <:+ r.1 := by
  obtain ⟨W, h, hwords⟩ := trie_new.foldl hfits
  exact ⟨W, h, fun x hx => (hwords x hx).imp_left mem_singleton.mp⟩

end BypassCore.StrMatcher.ACAutomatonMatcherGroup
