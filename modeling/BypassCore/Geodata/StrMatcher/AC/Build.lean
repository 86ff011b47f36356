import BypassCore.Geodata.StrMatcher.AC.Basic
import BypassCore.Lib.LongestPrefix

/-!
# Building the automaton

The build goes through the trie breadth first. When a node is visited, every shorter word has been
visited and has its transitions, and every word that is no longer has its links. So the transitions
of the fail node are those of the longest proper prefix, which gives the transitions of the node and
the links of its children. The queue is empty after at most as many rounds as there are nodes.
-/

namespace BypassCore.StrMatcher.ACAutomatonMatcherGroup

open Lib List ACAutomatonMatcherGroup

variable {ac : ACAutomatonMatcherGroup} {W : List Word} {regs : List Registration} {i j : Nat}
  {w c f x : Word} {e : Edge}

abbrev words (W : List Word) : Set Word := {w | w ∈ W}

abbrev substrWords (regs : List Registration) : Set Word := {w | ∃ v, (w, .substr, v) ∈ regs}

/-- The read-only part of the trie: its words, and what is stored at them. -/
structure Labels (ac : ACAutomatonMatcherGroup) (W : List Word) (regs : List Registration) :
    Prop where
  length : W.length = ac.nodes.length
  root : W[0]? = some []
  nodup : W.Nodup
  closed : ∀ {e w}, e :: w ∈ W → w ∈ W
  registered : ∀ {w t v}, (w, t, v) ∈ regs → w ∈ W
  values : ∀ {i w}, W[i]? = some w →
    ∀ {t v}, v ∈ ac.entry (ac.node i).matchIdx t ↔ (w, t, v) ∈ regs
  present : ∀ {i w}, W[i]? = some w → ((ac.node i).matchIdx ≠ 0 ↔ ∃ t v, (w, t, v) ∈ regs)
  edge : ∀ {i w e}, W[i]? = some w → ((ac.node i).edge e = .trie ↔ e :: w ∈ W)

lemma Trie.labels (h : Trie ac W regs) : Labels ac W regs where
  length := h.shape.length
  root := h.shape.root
  nodup := h.shape.nodup
  closed := h.shape.closed
  registered := h.entries.registered
  values := h.entries.values
  present hi := by
    refine ⟨h.present hi, ?_⟩
    rintro ⟨t, v, hr⟩ h0
    have hv := (h.entries.values hi).mpr hr
    rw [h0, h.entries.sentinel] at hv
    cases hv
  edge := h.shape.edge

namespace Labels

section

variable (h : Labels ac W regs)
include h

lemma lt (hi : W[i]? = some w) : i < ac.nodes.length := by
  rw [← h.length]
  exact (List.getElem?_eq_some_iff.mp hi).1

lemma nil_mem : [] ∈ words W := mem_of_getElem? h.root

/-- The root is the node of the empty word only. -/
lemma eq_zero_iff (hi : W[i]? = some w) : i = 0 ↔ w = [] := by
  constructor
  · rintro rfl
    exact Option.some_inj.mp (hi.symm.trans h.root)
  · rintro rfl
    exact index_unique h.nodup hi h.root

lemma hasSubstr_iff (hi : W[i]? = some w) : ac.hasSubstr i = true ↔ w ∈ substrWords regs := by
  have hpos : 0 < (ac.entry (ac.node i).matchIdx .substr).length ↔ w ∈ substrWords regs := by
    rw [length_pos_iff_exists_mem]
    simp only [h.values hi]
    exact Iff.rfl
  simp only [hasSubstr, Bool.and_eq_true, bne_iff_ne, decide_eq_true_eq, hpos, h.present hi]
  constructor
  · exact And.right
  · rintro ⟨v, hv⟩
    exact ⟨⟨_, v, hv⟩, v, hv⟩

lemma substrWords_subset : insert [] (substrWords regs) ⊆ words W := by
  rintro w (rfl | ⟨v, hv⟩)
  · exact h.nil_mem
  · exact h.registered hv

/-- Writing transitions and links leaves the labels. -/
lemma setNode (hi : W[i]? = some w) {g : AcNode → AcNode}
    (hmatch : (g (ac.node i)).matchIdx = (ac.node i).matchIdx)
    (hedge : ∀ e, (g (ac.node i)).edge e = .trie ↔ (ac.node i).edge e = .trie) :
    Labels (ac.setNode i g) W regs := by
  have hm : ∀ j, ((ac.setNode i g).node j).matchIdx = (ac.node j).matchIdx := by
    intro j
    rw [node_setNode (h.lt hi)]
    split_ifs with hji
    · rw [hji, hmatch]
    · rfl
  refine ⟨?_, h.root, h.nodup, h.closed, h.registered, ?_, ?_, ?_⟩
  · rw [length_setNode, h.length]
  · intro j x hj t v
    rw [hm]
    exact h.values hj
  · intro j x hj
    rw [hm]
    exact h.present hj
  · intro j x a hj
    rw [node_setNode (h.lt hi)]
    split_ifs with hji
    · subst hji
      rw [hedge]
      exact h.edge hj
    · exact h.edge hj

end

end Labels

/-! ### What has been linked -/

/-- The automaton during the build. The transitions of the words in `done` lead to the longest
prefix in the trie, those of the other words are the edges of the trie; the words in `found` have
their links. -/
structure Linked (W : List Word) (regs : List Registration) (done : Word → Edge → Prop)
    (found : Word → Prop) (st : Building) : Prop where
  labels : Labels st.ac W regs
  length : st.fail.length = W.length
  next : ∀ {i w e}, W[i]? = some w → e :: w ∈ W ∨ done w e →
    ∃ x, W[(st.ac.node i).next e]? = some x ∧ Longest (words W) (e :: w) x
  zero : ∀ {i w e}, W[i]? = some w → e :: w ∉ W → ¬ done w e → (st.ac.node i).next e = 0
  fail : ∀ {i w}, W[i]? = some w → found w →
    ∃ f, W[st.fail.getD i 0]? = some f ∧ Longest (words W) w.dropLast f
  link : ∀ {i w}, W[i]? = some w → found w →
    ∃ f, W[(st.ac.node i).fail]? = some f ∧
      Longest (insert [] (substrWords regs)) w.dropLast f

section LinkEdge

variable {done : Word → Edge → Prop} {found : Word → Prop} {st : Building} {failNode : Nat}

/-- The child along an edge that has not been gone through yet. -/
lemma Linked.next_ne_zero_iff (h : Linked W regs done found st) (hi : W[i]? = some c)
    (hdone : ¬ done c e) : (st.ac.node i).next e ≠ 0 ↔ e :: c ∈ W := by
  constructor
  · intro hne
    by_contra hmem
    exact hne (h.zero hi hmem hdone)
  · intro hmem h0
    obtain ⟨x, hx, hlong⟩ := h.next hi (.inl hmem)
    have hchild : e :: c = x := hlong.eq_of_mem hmem
    rw [h0] at hx
    exact absurd ((h.labels.eq_zero_iff hx).mp rfl) (hchild ▸ cons_ne_nil _ _)

/-- The words along an edge of the fail node: the fail path of the child, and the transition when
there is none. -/
lemma longest_fail (hclosed : ∀ {e w}, e :: w ∈ W → w ∈ W) (hc : c ≠ [])
    (hf : Longest (words W) c.dropLast f) (hx : Longest (words W) (e :: f) x) :
    Longest (words W) (e :: c).dropLast x := by
  rw [dropLast_cons_of_ne_nil hc]
  exact hf.cons hclosed hx

def wordOf (W : List Word) (i : Nat) : Word := W.getD i []

lemma wordOf_eq (hi : W[i]? = some w) : wordOf W i = w := by
  rw [wordOf, getD_eq_getElem?_getD, hi]
  rfl

lemma getElem?_of_wordOf (h : wordOf W i = w) (hw : w ≠ []) : W[i]? = some w := by
  rw [wordOf, getD_eq_getElem?_getD] at h
  cases hi : W[i]? with
  | none =>
    rw [hi] at h
    exact absurd h.symm hw
  | some x =>
    rw [hi] at h
    exact congrArg some h

section

variable (h : Linked W regs done found st)
include h

lemma Linked.setFail (hj : W[j]? = some w) {k l : Nat} {g : Word} (hk : W[k]? = some f)
    (hf : Longest (words W) w.dropLast f) (hl : W[l]? = some g)
    (hg : Longest (insert [] (substrWords regs)) w.dropLast g) :
    Linked W regs done (fun x => found x ∨ x = w) ⟨st.ac.setFail j l, st.fail.set j k⟩ := by
  have hlt := h.labels.lt hj
  have hnext : ∀ i, ((st.ac.setFail j l).node i).next = (st.ac.node i).next := by
    intro i
    rw [ACAutomatonMatcherGroup.setFail, node_setNode hlt]
    split_ifs with hij
    · rw [hij]
    · rfl
  refine ⟨h.labels.setNode hj rfl fun _ => Iff.rfl, ?_, ?_, ?_, ?_, ?_⟩
  · rw [length_set, h.length]
  · intro i x a hi hor
    rw [hnext]
    exact h.next hi hor
  · intro i x a hi hmem hdone
    rw [hnext]
    exact h.zero hi hmem hdone
  · intro i x hi hx
    by_cases hij : i = j
    · subst hij
      obtain rfl : w = x := Option.some_inj.mp (hj.symm.trans hi)
      refine ⟨f, ?_, hf⟩
      have hlen : i < st.fail.length := by
        rw [h.length]
        exact (List.getElem?_eq_some_iff.mp hi).1
      simpa [hlen] using hk
    · have hne : x ≠ w := word_ne h.labels.nodup hij hi hj
      obtain ⟨y, hy, hlong⟩ := h.fail hi (hx.resolve_right hne)
      refine ⟨y, ?_, hlong⟩
      simpa [Ne.symm hij] using hy
  · intro i x hi hx
    rw [ACAutomatonMatcherGroup.setFail, node_setNode hlt]
    by_cases hij : i = j
    · subst hij
      obtain rfl : w = x := Option.some_inj.mp (hj.symm.trans hi)
      rw [if_pos rfl]
      exact ⟨g, hl, hg⟩
    · have hne : x ≠ w := word_ne h.labels.nodup hij hi hj
      rw [if_neg hij]
      exact h.link hi (hx.resolve_right hne)

/-- A transition that leads to the longest prefix. -/
lemma Linked.setFailEdge (hi : W[i]? = some c) (hmem : e :: c ∉ W) {k : Nat} (hk : W[k]? = some x)
    (hx : Longest (words W) (e :: c) x) :
    Linked W regs (fun w a => done w a ∨ (w = c ∧ a = e)) found
      ⟨st.ac.setFailEdge i e k, st.fail⟩ := by
  have hlt := h.labels.lt hi
  have hfail : ∀ j, ((st.ac.setFailEdge i e k).node j).fail = (st.ac.node j).fail := by
    intro j
    rw [ACAutomatonMatcherGroup.setFailEdge, node_setNode hlt]
    split_ifs with hji
    · rw [hji]
    · rfl
  have hnext : ∀ j a, ¬ (j = i ∧ a = e) →
      ((st.ac.setFailEdge i e k).node j).next a = (st.ac.node j).next a := by
    intro j a hne
    rw [ACAutomatonMatcherGroup.setFailEdge, node_setNode hlt]
    split_ifs with hji
    · subst hji
      have hae : a ≠ e := fun hae => hne ⟨rfl, hae⟩
      simp [hae]
    · rfl
  have hself : ((st.ac.setFailEdge i e k).node i).next e = k := by
    simp [ACAutomatonMatcherGroup.setFailEdge, hlt]
  refine ⟨?_, h.length, ?_, ?_, ?_, ?_⟩
  · refine h.labels.setNode hi rfl fun a => ?_
    by_cases hae : a = e
    · subst hae
      simp [h.labels.edge hi, hmem]
    · simp [hae]
  · intro j w a hj hor
    by_cases hji : j = i ∧ a = e
    · obtain ⟨rfl, rfl⟩ := hji
      obtain rfl : c = w := Option.some_inj.mp (hi.symm.trans hj)
      rw [hself]
      exact ⟨x, hk, hx⟩
    · rw [hnext j a hji]
      refine h.next hj (hor.imp_right fun hdone => hdone.resolve_right ?_)
      rintro ⟨rfl, rfl⟩
      exact hji ⟨index_unique h.labels.nodup hj hi, rfl⟩
  · intro j w a hj hwmem hdone
    rw [not_or] at hdone
    have hji : ¬ (j = i ∧ a = e) := by
      rintro ⟨rfl, rfl⟩
      exact hdone.2 ⟨Option.some_inj.mp (hj.symm.trans hi), rfl⟩
    rw [hnext j a hji]
    exact h.zero hj hwmem hdone.1
  · intro j w hj hw
    exact h.fail hj hw
  · intro j w hj hw
    rw [hfail]
    exact h.link hj hw

/-- An edge of the trie is a transition already. -/
lemma Linked.done_of_mem (hmem : e :: c ∈ W) :
    Linked W regs (fun w a => done w a ∨ (w = c ∧ a = e)) found st where
  labels := h.labels
  length := h.length
  next := by
    rintro i w a hi (hwmem | hdone | ⟨rfl, rfl⟩)
    · exact h.next hi (.inl hwmem)
    · exact h.next hi (.inr hdone)
    · exact h.next hi (.inl hmem)
  zero hi hwmem hdone := h.zero hi hwmem fun hd => hdone (.inl hd)
  fail := h.fail
  link := h.link

/-- The invariant only asks for less when fewer words count as found. -/
lemma Linked.mono {done' : Word → Edge → Prop} {found' : Word → Prop}
    (hdone : ∀ w e, done' w e ↔ done w e) (hfound : ∀ w, w ∈ W → found' w → found w) :
    Linked W regs done' found' st where
  labels := h.labels
  length := h.length
  next hi hor := h.next hi (hor.imp_right (hdone _ _).mp)
  zero hi hmem hnot := h.zero hi hmem fun hd => hnot ((hdone _ _).mpr hd)
  fail hi hw := h.fail hi (hfound _ (mem_of_getElem? hi) hw)
  link hi hw := h.link hi (hfound _ (mem_of_getElem? hi) hw)

end

section Link

variable (h : Linked W regs done found st) (hi : W[i]? = some c) (hc : c ≠ [])
  (hfn : W[failNode]? = some f) (hf : Longest (words W) c.dropLast f) (hfdone : ∀ e, done f e)
  (hfound : ∀ x ∈ W, x.length ≤ c.length → found x)
include h hi hc hfn hf hfdone hfound

/-- One round of the loop over the edges of a node. -/
lemma Linked.linkEdge (hdone : ¬ done c e) (pushed : List Nat) :
    Linked W regs (fun w a => done w a ∨ (w = c ∧ a = e)) (fun w => found w ∨ (w = e :: c ∧ w ∈ W))
        (linkEdge i failNode (st, pushed) e).1 ∧
      (linkEdge i failNode (st, pushed) e).2.map (wordOf W) =
        pushed.map (wordOf W) ++ if e :: c ∈ W then [e :: c] else [] := by
  obtain ⟨x, hx, hxlong⟩ := h.next hfn (.inr (hfdone e))
  have hxfail := longest_fail h.labels.closed hc hf hxlong
  have hiff := h.next_ne_zero_iff hi hdone
  by_cases hmem : e :: c ∈ W
  · have hne := hiff.mpr hmem
    obtain ⟨y, hchild, hlong⟩ := h.next hi (.inl hmem)
    obtain rfl : e :: c = y := hlong.eq_of_mem hmem
    have hxfound : found x := by
      apply hfound x hxfail.mem
      exact Nat.le_of_lt_succ (hxfail.length_lt (cons_ne_nil e c))
    -- the compressed link of the child
    have hlink : ∃ g, W[if st.ac.hasSubstr ((st.ac.node failNode).next e) then
        (st.ac.node failNode).next e else (st.ac.node ((st.ac.node failNode).next e)).fail]? =
          some g ∧ Longest (insert [] (substrWords regs)) (e :: c).dropLast g := by
      by_cases hs : st.ac.hasSubstr ((st.ac.node failNode).next e) = true
      · rw [if_pos hs]
        exact ⟨x, hx, hxfail.compress h.labels.substrWords_subset
          ((h.labels.hasSubstr_iff hx).mp hs)⟩
      · rw [if_neg hs]
        obtain ⟨g, hg, hglong⟩ := h.link hx hxfound
        exact ⟨g, hg, hxfail.compress_skip h.labels.substrWords_subset
          (fun hxs => hs ((h.labels.hasSubstr_iff hx).mpr hxs)) hglong⟩
    obtain ⟨g, hg, hglong⟩ := hlink
    simp only [ACAutomatonMatcherGroup.linkEdge, if_pos hne, if_pos hmem, map_append,
      map_cons, map_nil, wordOf_eq hchild, and_true]
    refine ((h.setFail hchild hx hxfail hg hglong).done_of_mem hmem).mono (fun _ _ => Iff.rfl) ?_
    exact fun w _ hw => hw.imp_right And.left
  · have h0 : ¬ (st.ac.node i).next e ≠ 0 := fun hne => hmem (hiff.mp hne)
    simp only [ACAutomatonMatcherGroup.linkEdge, if_neg h0, if_neg hmem, append_nil, and_true]
    refine (h.setFailEdge hi hmem hx (hxfail.of_dropLast hmem)).mono (fun _ _ => Iff.rfl) ?_
    rintro w hw (hfw | ⟨rfl, -⟩)
    · exact hfw
    · exact absurd hw hmem

lemma Linked.foldl_linkEdge {es : List Edge} (hn : es.Nodup) (hdone : ∀ e ∈ es, ¬ done c e)
    (pushed : List Nat) :
    Linked W regs (fun w a => done w a ∨ (w = c ∧ a ∈ es))
        (fun w => found w ∨ ∃ e ∈ es, w = e :: c ∧ w ∈ W)
        (es.foldl (ACAutomatonMatcherGroup.linkEdge i failNode) (st, pushed)).1 ∧
      (es.foldl (ACAutomatonMatcherGroup.linkEdge i failNode) (st, pushed)).2.map (wordOf W) =
        pushed.map (wordOf W) ++ (es.filter (· :: c ∈ W)).map (· :: c) := by
  induction es generalizing st pushed done found with
  | nil => exact ⟨h.mono (by simp) (by simp), by simp⟩
  | cons e es ih =>
    obtain ⟨he, hn'⟩ := nodup_cons.mp hn
    obtain ⟨hlinked, hpushed⟩ := h.linkEdge hi hc hfn hf hfdone hfound
      (hdone e mem_cons_self) pushed
    have hdone' : ∀ a ∈ es, ¬ (done c a ∨ (c = c ∧ a = e)) := by
      rintro a ha (hd | ⟨-, rfl⟩)
      · exact hdone a (mem_cons_of_mem _ ha) hd
      · exact he ha
    obtain ⟨hrest, hrestp⟩ := ih hlinked (fun a => .inl (hfdone a))
      (fun x hx hlen => .inl (hfound x hx hlen)) hn' hdone'
      (ACAutomatonMatcherGroup.linkEdge i failNode (st, pushed) e).2
    refine ⟨hrest.mono ?_ ?_, ?_⟩
    · intro w a
      rw [mem_cons, and_or_left, or_assoc]
    · rintro w - (hw | ⟨a, ha, hw⟩)
      · exact .inl (.inl hw)
      · rcases mem_cons.mp ha with rfl | ha
        · exact .inl (.inr hw)
        · exact .inr ⟨a, ha, hw⟩
    · rw [foldl_cons]
      refine hrestp.trans ?_
      rw [hpushed]
      by_cases hmem : e :: c ∈ W
      · simp [hmem]
      · simp [hmem]

end Link

end LinkEdge

/-! ### The search -/

/-- The search has visited the words `D` and has the words `Q` queued. -/
structure Searched (W : List Word) (regs : List Registration) (st : Building) (D Q : List Word) :
    Prop where
  linked : Linked W regs (fun w _ => w = [] ∨ w ∈ D) (fun w => w = [] ∨ w ∈ D ++ Q) st
  mem : ∀ w ∈ D ++ Q, w ≠ [] ∧ w ∈ W
  nodup : (D ++ Q).Nodup
  order : BreadthFirst List.length D Q
  children : ∀ {w e}, w = [] ∨ w ∈ D → e :: w ∈ W → e :: w ∈ D ++ Q
  parents : ∀ {w e}, e :: w ∈ D ++ Q → w = [] ∨ w ∈ D

section Search

variable {st : Building} {D Q : List Word}

/-- Every word that is shorter than the front of the queue has been visited. -/
lemma Searched.visited_of_lt (h : Searched W regs st D (c :: Q)) (hx : x ∈ W)
    (hlt : x.length < c.length) : x = [] ∨ x ∈ D := by
  induction x with
  | nil => exact .inl rfl
  | cons e w ih =>
    -- its parent has been visited, so it has been found, and all before the front is visited
    have hparent := ih (h.linked.labels.closed hx) ((Nat.lt_succ_self _).trans hlt)
    exact .inr (h.order.mem_done (h.children hparent hx) hlt)

lemma Searched.found_of_le (h : Searched W regs st D (c :: Q)) (hx : x ∈ W)
    (hle : x.length ≤ c.length) : x = [] ∨ x ∈ D ++ c :: Q := by
  cases x with
  | nil => exact .inl rfl
  | cons e w =>
    exact .inr (h.children (h.visited_of_lt (h.linked.labels.closed hx) hle) hx)

def childrenOf (W : List Word) (c : Word) : List Word :=
  ((List.finRange 39).filter (· :: c ∈ W)).map (· :: c)

lemma mem_childrenOf : w ∈ childrenOf W c ↔ ∃ e, e :: c = w ∧ w ∈ W := by
  simp only [childrenOf, mem_map, mem_filter, mem_finRange, true_and, decide_eq_true_eq]
  constructor
  · rintro ⟨e, hmem, rfl⟩
    exact ⟨e, rfl, hmem⟩
  · rintro ⟨e, rfl, hmem⟩
    exact ⟨e, hmem, rfl⟩

lemma nodup_childrenOf : (childrenOf W c).Nodup :=
  ((nodup_finRange 39).filter _).map fun _ _ h => (cons_eq_cons.mp h).1

section

variable (h : Searched W regs st D (c :: Q))
include h

lemma Searched.not_visited : ¬ (c = [] ∨ c ∈ D) := by
  rintro (hnil | hD)
  · exact (h.mem c (mem_append_right _ mem_cons_self)).1 hnil
  · exact (nodup_append.mp h.nodup).2.2 c hD c mem_cons_self rfl

/-- A visit writes the transitions of the node and links and queues its children. -/
lemma Searched.linked_visit (hi : W[i]? = some c) :
    (visit st i).2.map (wordOf W) = childrenOf W c ∧
      Linked W regs (fun w _ => w = [] ∨ w ∈ D ++ [c])
        (fun w => w = [] ∨ w ∈ D ++ c :: Q ++ childrenOf W c) (visit st i).1 := by
  have hcmem : c ∈ D ++ c :: Q := mem_append_right _ mem_cons_self
  have hc := (h.mem c hcmem).1
  obtain ⟨f, hfn, hf⟩ := h.linked.fail hi (.inr hcmem)
  obtain ⟨hlinked, hpushed⟩ := h.linked.foldl_linkEdge hi hc hfn hf
    (fun _ => h.visited_of_lt hf.mem (hf.length_lt hc)) (fun x hx hle => h.found_of_le hx hle)
    (nodup_finRange 39) (fun _ _ => h.not_visited) []
  refine ⟨hpushed.trans (nil_append _), hlinked.mono ?_ ?_⟩
  · intro w e
    simp [or_assoc]
  · intro w hw hfound
    rw [mem_append, ← or_assoc] at hfound
    refine hfound.imp_right fun hchild => ?_
    obtain ⟨e, rfl, -⟩ := mem_childrenOf.mp hchild
    exact ⟨e, mem_finRange e, rfl, hw⟩

/-- A round of the loop over the queue. -/
lemma Searched.visit (hi : W[i]? = some c) :
    Searched W regs (visit st i).1 (D ++ [c]) (Q ++ childrenOf W c) := by
  have hlists : D ++ [c] ++ (Q ++ childrenOf W c) = (D ++ c :: Q) ++ childrenOf W c := by simp
  refine ⟨?_, ?_, ?_, h.order.visit ?_, ?_, ?_⟩
  · rw [hlists]
    exact (h.linked_visit hi).2
  · intro w hw
    rw [hlists] at hw
    rcases mem_append.mp hw with hw | hw
    · exact h.mem w hw
    · obtain ⟨e, rfl, hmem⟩ := mem_childrenOf.mp hw
      exact ⟨cons_ne_nil _ _, hmem⟩
  · rw [hlists, nodup_append]
    refine ⟨h.nodup, nodup_childrenOf, ?_⟩
    rintro w hw y hy rfl
    obtain ⟨e, rfl, -⟩ := mem_childrenOf.mp hy
    exact h.not_visited (h.parents hw)
  · intro w hw
    obtain ⟨e, rfl, -⟩ := mem_childrenOf.mp hw
    exact length_cons
  · intro w e hw hmem
    rw [hlists, mem_append]
    rw [mem_append, mem_singleton, ← or_assoc] at hw
    rcases hw with hw | rfl
    · exact .inl (h.children hw hmem)
    · exact .inr (mem_childrenOf.mpr ⟨e, rfl, hmem⟩)
  · intro w e hw
    rw [hlists, mem_append] at hw
    rw [mem_append, mem_singleton, ← or_assoc]
    rcases hw with hw | hw
    · exact .inl (h.parents hw)
    · obtain ⟨a, ha, -⟩ := mem_childrenOf.mp hw
      exact .inr (cons_eq_cons.mp ha).2.symm

end

/-- The invariant of the loop over the queue, by the indices of the nodes. -/
def SearchInv (W : List Word) (regs : List Registration) (st : Building) (done queue : List Nat) :
    Prop :=
  Searched W regs st (done.map (wordOf W)) (queue.map (wordOf W))

lemma searchInv_visit (st : Building) (done : List Nat) (i : Nat) (queue : List Nat)
    (h : SearchInv W regs st done (i :: queue)) :
    SearchInv W regs (visit st i).1 (done ++ [i]) (queue ++ (visit st i).2) := by
  unfold SearchInv at h ⊢
  have hne := (h.mem _ (mem_append_right _ mem_cons_self)).1
  have hi := getElem?_of_wordOf rfl hne
  rw [map_append, map_append, (h.linked_visit hi).1]
  exact h.visit hi

lemma searchInv_length_le (st : Building) (done queue : List Nat)
    (h : SearchInv W regs st done queue) : done.length ≤ W.length := by
  have hn : (done.map (wordOf W)).Nodup := (nodup_append.mp h.nodup).1
  have hsub : done.map (wordOf W) ⊆ W := fun w hw => (h.mem w (mem_append_left _ hw)).2
  have hle := (subperm_of_subset hn hsub).length_le
  rwa [length_map] at hle

lemma Trie.map_rootQueue (h : Trie ac W regs) : ac.rootQueue.map (wordOf W) = childrenOf W [] := by
  have hiff : ∀ e, (ac.node 0).next e ≠ 0 ↔ [e] ∈ W := fun e => h.shape.next h.shape.root
  rw [rootQueue, filter_map, map_map]
  have hfilter : (finRange 39).filter ((fun k => decide (k ≠ 0)) ∘ (ac.node 0).next) =
      (finRange 39).filter (fun e => decide ([e] ∈ W)) := by
    apply filter_congr
    intro e _
    simp only [Function.comp_apply, hiff e]
  rw [hfilter]
  apply map_congr_left
  intro e he
  have hmem : [e] ∈ W := of_decide_eq_true (mem_filter.mp he).2
  exact wordOf_eq (h.shape.child h.shape.root ((hiff e).mpr hmem))

/-- At the start only the root has its transitions, and only its children are linked. -/
lemma Trie.linked (h : Trie ac W regs) :
    Linked W regs (fun w _ => w = [] ∨ w ∈ ([] : List Word))
      (fun w => w = [] ∨ w ∈ [] ++ childrenOf W []) ⟨ac, List.replicate ac.nodes.length 0⟩ := by
  have hnil : [] ∈ words W := h.labels.nil_mem
  have hzero : ∀ i, (replicate ac.nodes.length 0).getD i 0 = 0 := by
    intro i
    rw [getD_eq_getElem?_getD, getElem?_replicate]
    split_ifs <;> rfl
  -- the words found so far have at most one letter
  have hshort : ∀ {w : Word}, w = [] ∨ w ∈ [] ++ childrenOf W [] → w.dropLast = [] := by
    rintro w (rfl | hw)
    · rfl
    · obtain ⟨e, rfl, -⟩ := mem_childrenOf.mp hw
      rfl
  refine ⟨h.labels, ?_, ?_, ?_, ?_, ?_⟩
  · rw [length_replicate, h.shape.length]
  · intro i w e hi hor
    by_cases hmem : e :: w ∈ W
    · exact ⟨e :: w, h.shape.child hi ((h.shape.next hi).mpr hmem),
        Longest.self (show e :: w ∈ words W from hmem)⟩
    · obtain rfl : w = [] := by simpa [hmem] using hor
      have h0 : (ac.node i).next e = 0 := by
        by_contra hne
        exact hmem ((h.shape.next hi).mp hne)
      rw [h0]
      exact ⟨[], h.shape.root, Longest.of_dropLast hmem (Longest.nil hnil)⟩
  · intro i w e hi hmem _
    by_contra hne
    exact hmem ((h.shape.next hi).mp hne)
  · intro i w hi hfound
    rw [hzero, hshort hfound]
    exact ⟨[], h.shape.root, Longest.nil hnil⟩
  · intro i w hi hfound
    rw [h.shape.fail, hshort hfound]
    exact ⟨[], h.shape.root, Longest.nil (Set.mem_insert _ _)⟩

lemma Trie.searchInv (h : Trie ac W regs) :
    SearchInv W regs ⟨ac, List.replicate ac.nodes.length 0⟩ [] ac.rootQueue := by
  unfold SearchInv
  rw [h.map_rootQueue]
  refine ⟨h.linked, ?_, nodup_childrenOf, ⟨?_, ?_⟩, ?_, ?_⟩
  · intro w hw
    obtain ⟨e, rfl, hmem⟩ := mem_childrenOf.mp hw
    exact ⟨cons_ne_nil _ _, hmem⟩
  · apply pairwise_of_forall_mem_list
    intro a ha b hb
    obtain ⟨e, rfl, -⟩ := mem_childrenOf.mp ha
    obtain ⟨e', rfl, -⟩ := mem_childrenOf.mp hb
    exact le_rfl
  · intro a ha b hb
    obtain ⟨e, rfl, -⟩ := mem_childrenOf.mp hb
    exact Nat.succ_le_succ (Nat.zero_le _)
  · rintro w e (rfl | hw) hmem
    · exact mem_childrenOf.mpr ⟨e, rfl, hmem⟩
    · cases hw
  · intro w e hw
    obtain ⟨a, ha, -⟩ := mem_childrenOf.mp hw
    exact .inl (cons_eq_cons.mp ha).2.symm

/-- The automaton after the build: transitions lead to the longest prefix in the trie, and links to
the longest proper prefix with substring matchers. -/
structure Automaton (ac : ACAutomatonMatcherGroup) (W : List Word) (regs : List Registration) :
    Prop where
  labels : Labels ac W regs
  next : ∀ {i w}, W[i]? = some w → ∀ e,
    ∃ x, W[(ac.node i).next e]? = some x ∧ Longest (words W) (e :: w) x
  link : ∀ {i w}, W[i]? = some w → ∃ f, W[(ac.node i).fail]? = some f ∧
    Longest (insert [] (substrWords regs)) w.dropLast f

lemma Searched.visited (h : Searched W regs st D []) (hw : w ∈ W) : w = [] ∨ w ∈ D := by
  induction w with
  | nil => exact .inl rfl
  | cons e w ih =>
    have hchild := h.children (ih (h.linked.labels.closed hw)) hw
    rw [append_nil] at hchild
    exact .inr hchild

/-- A build that returns has made the automaton of the trie. -/
theorem Trie.build (h : Trie ac W regs) {fuel : Nat} {ac' : ACAutomatonMatcherGroup}
    (hbuild : ac.build fuel = some ac') : Automaton ac' W regs := by
  obtain ⟨st, hst, rfl⟩ := Option.map_eq_some_iff.mp hbuild
  obtain ⟨done, hdone⟩ := worklist_inv searchInv_visit h.searchInv hst
  have hsearched : Searched W regs st (done.map (wordOf W)) [] := hdone
  refine ⟨hsearched.linked.labels, ?_, ?_⟩
  · intro i w hi e
    exact hsearched.linked.next hi (.inr (hsearched.visited (mem_of_getElem? hi)))
  · intro i w hi
    apply hsearched.linked.link hi
    rw [append_nil]
    exact hsearched.visited (mem_of_getElem? hi)

/-- The build returns. -/
theorem Trie.build_isSome (h : Trie ac W regs) {fuel : Nat} (hfuel : ac.nodes.length ≤ fuel) :
    ∃ ac', ac.build fuel = some ac' := by
  have hle : W.length ≤ fuel + ([] : List Nat).length := h.shape.length.le.trans hfuel
  obtain ⟨st, hst⟩ := worklist_isSome searchInv_visit searchInv_length_le h.searchInv hle
  exact ⟨st.ac, by rw [ACAutomatonMatcherGroup.build, hst]; rfl⟩

end Search

end BypassCore.StrMatcher.ACAutomatonMatcherGroup
