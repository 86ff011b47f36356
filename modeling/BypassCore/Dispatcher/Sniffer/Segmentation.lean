import BypassCore.Dispatcher.Sniffer.Basic

/-!
# What the data alone decides

The loop of the sniffer keeps how far it has parsed. Its rounds nevertheless depend on the data
only: each one acts on the `view` of what has been read so far.
-/

namespace BypassCore.Dispatcher

open Lib Lib.GoBytes List HTTP ASCII Round TLS

lemma completeTLSRecordBytes_le (data : List UInt8) :
    completeTLSRecordBytes data ≤ data.length := by
  fun_induction completeTLSRecordBytes data with
  | case1 => exact Nat.zero_le _
  | case2 data hfive stop hwhole ih =>
    rw [length_drop] at ih
    omega
  | case3 => exact Nat.zero_le _

/-- The records that were complete stay so, and the scan goes on behind them. -/
lemma completeTLSRecordBytes_append (data t : List UInt8) :
    completeTLSRecordBytes (data ++ t) =
      completeTLSRecordBytes data +
        completeTLSRecordBytes ((data ++ t).drop (completeTLSRecordBytes data)) := by
  fun_induction completeTLSRecordBytes data with
  | case1 => rw [drop_zero, Nat.zero_add]
  | case2 data hfive stop hwhole ih =>
    have hlen : (data ++ t).length = data.length + t.length := length_append
    have hstop : 5 + uint16 ((data ++ t).drop 3) = stop := by
      rw [uint16_drop_append (show 3 + 2 ≤ data.length by omega)]
    have hdrop : (data ++ t).drop stop = data.drop stop ++ t :=
      drop_append_of_le_length (by omega)
    clear_value stop
    rw [completeTLSRecordBytes, if_pos (by omega)]
    simp only [hstop]
    rw [if_neg (by omega), hdrop, ih, ← drop_drop, hdrop, Nat.add_assoc]
  | case3 => rw [drop_zero, Nat.zero_add]

lemma containsHeaderEnd_eq (data : List UInt8) :
    containsHeaderEnd data = (index headerEnd data).isSome := by
  induction data with
  | nil => rfl
  | cons a data ih =>
    match data with
    | [] => simp [containsHeaderEnd, index, headerEnd, ascii]
    | [b] => simp [containsHeaderEnd, index, headerEnd, ascii]
    | [b, c] => simp [containsHeaderEnd, index, headerEnd, ascii]
    | b :: c :: d :: data =>
      rw [containsHeaderEnd, ih]
      have hstart : headerEnd <+: a :: b :: c :: d :: data ↔ a = 13 ∧ b = 10 ∧ c = 13 ∧ d = 10 := by
        simp [headerEnd, ascii, eq_comm]
      rw [show index headerEnd (a :: b :: c :: d :: data) =
        if headerEnd <+: a :: b :: c :: d :: data then some 0
        else (index headerEnd (b :: c :: d :: data)).map (· + 1) from rfl]
      by_cases h : a = 13 ∧ b = 10 ∧ c = 13 ∧ d = 10
      · rw [if_pos (hstart.mpr h)]
        simp [h]
      · rw [if_neg (fun hc => h (hstart.mp hc)), Option.isSome_map]
        have hfalse : (a == 13 && b == 10 && c == 13 && d == 10) = false := by
          simpa using h
        rw [hfalse, Bool.false_or]

/-- Two lists agree as far as both go exactly when one starts the other. -/
lemma take_length_eq_iff {α : Type*} {a b : List α} :
    a.take b.length = b.take a.length ↔ a <+: b ∨ b <+: a := by
  constructor
  · intro h
    rcases Nat.le_total a.length b.length with hle | hle
    · rw [take_of_length_le hle] at h
      exact .inl (h ▸ take_prefix _ _)
    · rw [take_of_length_le hle] at h
      exact .inr (h ▸ take_prefix _ _)
  · rintro (h | h)
    · rw [take_of_length_le h.length_le]
      exact prefix_iff_eq_take.mp h
    · rw [take_of_length_le h.length_le]
      exact (prefix_iff_eq_take.mp h).symm

lemma startsMethod_iff {data : List UInt8} :
    startsMethod data = true ↔ ∃ method ∈ methods,
      toLower data <+: toLower method ∨ toLower method <+: toLower data := by
  simp only [startsMethod, any_eq_true, equalFold_iff, ← take_length_eq_iff]
  simp only [toLower, map_take, length_map]

lemma startsMethod_of_isPrefix {p q : List UInt8} (h : p <+: q) (hq : startsMethod q = true) :
    startsMethod p = true := by
  rw [startsMethod_iff] at hq ⊢
  obtain ⟨method, hmem, hm⟩ := hq
  have hlower : toLower p <+: toLower q := h.map _
  refine ⟨method, hmem, ?_⟩
  rcases hm with hm | hm
  · exact .inl (hlower.trans hm)
  · exact prefix_or_prefix_of_prefix hlower hm

/-- Data that holds a carriage return and starts as a request has its method in front. -/
lemma startsMethod_of_mem_cr {p s : List UInt8} (hcr : 13 ∈ p) (hp : startsMethod p = true)
    (h : p <+: s) : startsMethod s = true := by
  rw [startsMethod_iff] at hp ⊢
  obtain ⟨method, hmem, hm⟩ := hp
  refine ⟨method, hmem, Or.inr ?_⟩
  have hlower : toLower p <+: toLower s := h.map _
  rcases hm with hm | hm
  · have hmethods : ∀ method ∈ methods, 13 ∉ toLower method := by decide
    exact absurd (hm.subset (mem_map.mpr ⟨13, hcr, rfl⟩)) (hmethods method hmem)
  · exact hm.trans hlower

/-- Eight bytes tell whether a stream starts as a request. -/
lemma startsMethod_of_take_eight {s : List UInt8} (h : startsMethod (s.take 8) = true) :
    startsMethod s = true := by
  rcases Nat.le_total s.length 8 with hle | hle
  · rwa [take_of_length_le hle] at h
  rw [startsMethod_iff] at h ⊢
  obtain ⟨method, hmem, hm⟩ := h
  refine ⟨method, hmem, Or.inr ?_⟩
  have hlower : toLower (s.take 8) <+: toLower s :=
    IsPrefix.map _ ( take_prefix 8 s)
  rcases hm with hm | hm
  · have hlen : ∀ method ∈ methods, (toLower method).length ≤ 8 := by decide
    have height : (toLower (s.take 8)).length = 8 := by
      rw [toLower, length_map, length_take]
      omega
    have hle := hlen method hmem
    rw [← hm.eq_of_length_le (by omega)]
    exact hlower
  · exact hm.trans hlower

/-! ### The view of the data -/

/-- What the data read so far decides, if anything: a domain with its protocol, or that there is
none. -/
def view (S : HTTP.Strings) (data : List UInt8) : Option (Option (List UInt8 × Protocol)) :=
  if data.head? = some 0x16 then
    let r := sniffSNIWithStatus (data.take (completeTLSRecordBytes data))
    if r.1 ≠ [] then some (some (r.1, .tls)) else if r.2 then none else some none
  else if containsHeaderEnd data then
    if sniffHost S data ≠ [] then some (some (sniffHost S data, .http))
    else some none
  else if startsMethod data then none
  else some none

/-- The round that a view calls for, with the records parsed that it leaves. -/
def Round.ofView (maxBytes : Nat) (data : List UInt8) (lastTLSParsed : Nat) :
    Option (Option (List UInt8 × Protocol)) → Round
  | some (some (domain, protocol)) => .found domain protocol
  | some none => .stop
  | none => if data.length < maxBytes then .more lastTLSParsed else .stop

/-- Between two rounds: nothing is decided, and for TLS the complete records are parsed. -/
structure Pending (S : HTTP.Strings) (data : List UInt8) (lastTLSParsed : Nat) : Prop where
  undecided : view S data = none
  parsed : data.head? = some 0x16 ∨ data = [] → lastTLSParsed = completeTLSRecordBytes data

variable {S : HTTP.Strings} {maxBytes : Nat} {data : List UInt8} {lastTLSParsed : Nat}

lemma view_of_tls (h : data.head? = some 0x16) :
    view S data =
      let r := sniffSNIWithStatus (data.take (completeTLSRecordBytes data))
      if r.1 ≠ [] then some (some (r.1, .tls)) else if r.2 then none else some none := by
  rw [view, if_pos h]

lemma view_of_not_tls (h : data.head? ≠ some 0x16) :
    view S data =
      if containsHeaderEnd data then
        if sniffHost S data ≠ [] then some (some (sniffHost S data, .http))
        else some none
      else if startsMethod data then none else some none := by
  rw [view, if_neg h]

lemma pending_nil (S : HTTP.Strings) : Pending S [] 0 := by
  constructor
  · rw [view_of_not_tls (by decide)]
    rfl
  · intro _
    rw [completeTLSRecordBytes]
    rfl

lemma sniffNeedsMore_of_tls (h : data.head? = some 0x16) :
    sniffNeedsMore data maxBytes = decide (data.length < maxBytes) := by
  have hne : data ≠ [] := by
    rintro rfl
    cases h
  rw [sniffNeedsMore, if_neg hne, if_pos h]

/-- While nothing is decided on TLS data, the sniffer wants more. -/
lemma view_eq_none_of_tls (h : data.head? = some 0x16) :
    view S data = none ↔
      (sniffSNIWithStatus (data.take (completeTLSRecordBytes data))).2 = true := by
  rw [view_of_tls h]
  cases hmore : (sniffSNIWithStatus (data.take (completeTLSRecordBytes data))).2 with
  | true => simp [sniffSNIWithStatus_needMore hmore, hmore]
  | false =>
    simp only [hmore, Bool.false_eq_true, if_false]
    split_ifs <;> simp

lemma inspect_tls (h : Pending S data lastTLSParsed) (chunk : List UInt8)
    (htls : (data ++ chunk).head? = some 0x16) :
    inspect S maxBytes (data ++ chunk) lastTLSParsed =
      ofView maxBytes (data ++ chunk) (completeTLSRecordBytes (data ++ chunk))
        (view S (data ++ chunk)) := by
  have hlast : lastTLSParsed = completeTLSRecordBytes data := by
    apply h.parsed
    cases data with
    | nil => exact .inr rfl
    | cons b data => exact .inl htls
  have hcomplete := completeTLSRecordBytes_append data chunk
  rw [← hlast] at hcomplete
  rw [inspect, if_pos htls, sniffNeedsMore_of_tls htls]
  simp only [← hcomplete]
  by_cases hnew : lastTLSParsed < completeTLSRecordBytes (data ++ chunk)
  · rw [if_pos hnew, view_of_tls htls]
    cases hr : sniffSNIWithStatus
        ((data ++ chunk).take (completeTLSRecordBytes (data ++ chunk))) with
    | mk domain more =>
      by_cases hdomain : domain = []
      · cases more <;> simp [hdomain, ofView]
      · simp [hdomain, ofView]
  · -- no record has been completed, so the sniffer would see what it saw before
    have hsame : completeTLSRecordBytes (data ++ chunk) = completeTLSRecordBytes data := by omega
    have htake : (data ++ chunk).take (completeTLSRecordBytes data) =
        data.take (completeTLSRecordBytes data) :=
      take_append_of_le_length (completeTLSRecordBytes_le data)
    have hnone : view S (data ++ chunk) = none := by
      rw [view_eq_none_of_tls htls, hsame, htake]
      cases data with
      | nil =>
        rw [take_nil]
        rfl
      | cons b data =>
        have hhead : (b :: data).head? = some 0x16 := htls
        exact (view_eq_none_of_tls hhead).mp h.undecided
    rw [hnone, hsame, ← hlast]
    simp [ofView]

lemma inspect_not_tls (chunk : List UInt8) (hne : chunk ≠ [])
    (htls : (data ++ chunk).head? ≠ some 0x16) :
    inspect S maxBytes (data ++ chunk) lastTLSParsed =
      ofView maxBytes (data ++ chunk) lastTLSParsed (view S (data ++ chunk)) := by
  have hne' : data ++ chunk ≠ [] := append_ne_nil_of_right_ne_nil data hne
  rw [inspect, if_neg htls, view_of_not_tls htls, sniffNeedsMore, if_neg hne', if_neg htls]
  cases hend : containsHeaderEnd (data ++ chunk) with
  | true =>
    by_cases hhost : sniffHost S (data ++ chunk) = []
    · simp [hhost, ofView]
    · simp [hhost, ofView]
  | false => cases startsMethod (data ++ chunk) <;> simp [ofView]

/-- A round of the loop follows the view of the data, and leaves nothing decided when it goes
on. -/
lemma inspect_spec (maxBytes : Nat) (h : Pending S data lastTLSParsed) {chunk : List UInt8}
    (hne : chunk ≠ []) :
    ∃ n, inspect S maxBytes (data ++ chunk) lastTLSParsed =
        ofView maxBytes (data ++ chunk) n (view S (data ++ chunk)) ∧
      (view S (data ++ chunk) = none → Pending S (data ++ chunk) n) := by
  have hne' : data ++ chunk ≠ [] := append_ne_nil_of_right_ne_nil data hne
  by_cases htls : (data ++ chunk).head? = some 0x16
  · exact ⟨_, inspect_tls h chunk htls, fun hnone => ⟨hnone, fun _ => rfl⟩⟩
  · refine ⟨lastTLSParsed, inspect_not_tls chunk hne htls, fun hnone => ⟨hnone, ?_⟩⟩
    rintro (hc | hc)
    · exact absurd hc htls
    · exact absurd hc hne'

/-!
## Sniffing and segmentation

The result of the sniffer depends on how the first bytes of a client are cut into segments only
for streams that do not start as a request but are parsed as one when they arrive in one piece.
-/

open Option

variable {ε : Type*} {eof : ε}

def Ending.answer : Ending ε → Option (List UInt8 × Protocol)
  | .found domain protocol => some (domain, protocol)
  | .undecided => none
  | .failed _ => none

def Ending.isFailed : Ending ε → Bool
  | .failed _ => true
  | _ => false

/-- Where a loop that reads the stream `s` may end, and with what: `before` is what had been read
before the last round, and `data` what has been read in the end. -/
structure Final (S : HTTP.Strings) (maxBytes : Nat) (s before data : List UInt8)
    (answer : Option (List UInt8 × Protocol)) : Prop where
  undecided : view S before = none
  grows : before <+: data
  reads : data <+: s
  round : data.length ≤ before.length + 4096
  bounded : data.length ≤ maxBytes
  ended : (view S data).isSome ∨ data.length = maxBytes
  answer_eq : answer = (view S data).getD none

variable {data : List UInt8} {chunk s : List UInt8}

lemma final_of_inspect {lastTLSParsed : Nat} (h : Pending S data lastTLSParsed) (hne : chunk ≠ [])
    (hchunk : data ++ chunk <+: s ∧ chunk.length ≤ 4096 ∧ (data ++ chunk).length ≤ maxBytes) :
    match inspect S maxBytes (data ++ chunk) lastTLSParsed with
    | .found domain protocol => Final S maxBytes s data (data ++ chunk) (some (domain, protocol))
    | .stop => Final S maxBytes s data (data ++ chunk) none
    | .more n => Pending S (data ++ chunk) n := by
  obtain ⟨n, hinspect, hpending⟩ := inspect_spec maxBytes h hne
  obtain ⟨hs, hround, hbounded⟩ := hchunk
  have hgrow : (data ++ chunk).length ≤ data.length + 4096 := by
    rw [length_append]
    omega
  have hfinal : ∀ answer, answer = (view S (data ++ chunk)).getD none →
      ((view S (data ++ chunk)).isSome ∨ (data ++ chunk).length = maxBytes) →
      Final S maxBytes s data (data ++ chunk) answer := fun answer ha he =>
    ⟨h.undecided, prefix_append data chunk, hs, hgrow, hbounded, he, ha⟩
  rw [hinspect]
  cases hview : view S (data ++ chunk) with
  | some v =>
    rw [hview] at hfinal
    cases v with
    | some v => exact hfinal _ rfl (.inl rfl)
    | none => exact hfinal _ rfl (.inl rfl)
  | none =>
    rw [hview] at hfinal
    simp only [ofView]
    split_ifs with hmore
    · exact hpending hview
    · exact hfinal _ rfl (.inr (by omega))

lemma bounds_of_read {conn conn' : Reader UInt8 ε} {err : Option ε}
    (hcut : conn.Cuts (s.drop data.length)) (hs : data <+: s) (hmore : data.length < maxBytes)
    (hread : conn.read eof (min 4096 (maxBytes - data.length)) = (chunk, err, conn')) :
    data ++ chunk <+: s ∧ chunk.length ≤ 4096 ∧ (data ++ chunk).length ≤ maxBytes := by
  have hlen := Reader.read_length_le hread
  have hstream := Reader.read_stream hread
  obtain ⟨t, rfl⟩ := hs
  rw [hcut.2, drop_left] at hstream
  refine ⟨⟨conn'.stream, by rw [append_assoc, hstream]⟩, ?_, ?_⟩
  · omega
  · rw [length_append]
    omega

/-- A loop that is not stopped by a read error ends where it may. -/
lemma sniffLoop_spec {lastTLSParsed : Nat} {conn : Reader UInt8 ε}
    (h : Pending S data lastTLSParsed) (hcut : conn.Cuts (s.drop data.length)) (hs : data <+: s)
    (hbounded : data.length ≤ maxBytes)
    (hok : (sniffLoop S eof maxBytes data lastTLSParsed conn).2.2.isFailed = false) :
    ∃ before, Final S maxBytes s before (sniffLoop S eof maxBytes data lastTLSParsed conn).1
      (sniffLoop S eof maxBytes data lastTLSParsed conn).2.2.answer := by
  fun_induction sniffLoop S eof maxBytes data lastTLSParsed conn with
  | case1 => cases hok
  | case2 data last conn hmore chunk e conn' hread hne domain protocol hinspect
  | case3 data last conn hmore chunk e conn' hread hne hinspect
  | case6 data last conn hmore chunk conn' hread hsize hne domain protocol hinspect
  | case7 data last conn hmore chunk conn' hread hsize hne hinspect =>
    have hfinal := final_of_inspect h hne (bounds_of_read hcut hs hmore hread)
    rw [hinspect] at hfinal
    exact ⟨data, hfinal⟩
  | case4 => cases hok
  | case5 data last conn hmore conn' hread hsize ih =>
    have hcut' := hcut.read hread
    exact ih h hcut' hs hbounded hok
  | case8 data last conn hmore chunk conn' hread hsize hne n hinspect ih =>
    have hchunk := bounds_of_read hcut hs hmore hread
    have hpending := final_of_inspect h hne hchunk
    rw [hinspect] at hpending
    have hcut' := hcut.read hread
    rw [drop_drop, ← length_append] at hcut'
    exact ih hpending hcut' hchunk.1 hchunk.2.2 hok
  | case9 data last conn hmore =>
    have hfull : data.length = maxBytes := by omega
    refine ⟨data, h.undecided, prefix_rfl, hs, Nat.le_add_right _ _, hbounded, .inr hfull, ?_⟩
    rw [h.undecided]
    rfl

/-! ### Streams whose view is stable -/

/-- Once the view of a part of the stream is decided, it stays. -/
def Stable (S : HTTP.Strings) (s : List UInt8) : Prop :=
  ∀ p q, p <+: q → q <+: s → (view S p).isSome → view S q = view S p

/-- On a stable stream all loops end with one answer. -/
lemma Stable.answer_eq {before₁ before₂ data₁ data₂ : List UInt8}
    {answer₁ answer₂ : Option (List UInt8 × Protocol)} (hs : Stable S s)
    (h₁ : Final S maxBytes s before₁ data₁ answer₁)
    (h₂ : Final S maxBytes s before₂ data₂ answer₂) : answer₁ = answer₂ := by
  wlog hle : data₁.length ≤ data₂.length generalizing before₁ before₂ data₁ data₂ answer₁ answer₂
  · exact (this h₂ h₁ (by omega)).symm
  have hstart : data₁ <+: data₂ := prefix_of_prefix_length_le h₁.reads h₂.reads hle
  have hview : view S data₂ = view S data₁ := by
    rcases h₁.ended with hsome | hfull
    · exact hs data₁ data₂ hstart h₂.reads hsome
    · have hbounded := h₂.bounded
      rw [hstart.eq_of_length (by omega)]
  rw [h₁.answer_eq, h₂.answer_eq, hview]

lemma head?_of_isPrefix {p q : List UInt8} (h : p <+: q) (hne : p ≠ []) : q.head? = p.head? := by
  obtain ⟨t, rfl⟩ := h
  exact head?_append_of_ne_nil p hne

lemma stable_of_tls (htls : s.head? = some 0x16) : Stable S s := by
  intro p q hpq hqs hsome
  by_cases hne : p = []
  · rw [hne] at hsome
    cases hsome
  have hp : p.head? = some 0x16 := by rw [← head?_of_isPrefix (hpq.trans hqs) hne, htls]
  have hq : q.head? = some 0x16 := by rw [head?_of_isPrefix hpq hne, hp]
  obtain ⟨t, rfl⟩ := hpq
  -- the complete records of the shorter part come first among those of the longer one
  have htake : ∃ u, (p ++ t).take (completeTLSRecordBytes (p ++ t)) =
      p.take (completeTLSRecordBytes p) ++ u := by
    rw [completeTLSRecordBytes_append, take_add,
      take_append_of_le_length (completeTLSRecordBytes_le p)]
    exact ⟨_, rfl⟩
  obtain ⟨u, hu⟩ := htake
  have hdone : (sniffSNIWithStatus (p.take (completeTLSRecordBytes p))).2 = false := by
    rw [← Bool.not_eq_true, ← view_eq_none_of_tls (S := S) hp]
    exact isSome_iff_ne_none.mp hsome
  rw [view_of_tls hq, view_of_tls hp, hu, sniffSNIWithStatus_append hdone]

lemma head?_ne_of_isPrefix {p : List UInt8} (h : p <+: s) (hs : s.head? ≠ some 0x16) :
    p.head? ≠ some 0x16 := by
  cases p with
  | nil => simp
  | cons b p =>
    rw [← head?_of_isPrefix h (cons_ne_nil b p)]
    exact hs

lemma view_of_headerEnd (htls : data.head? ≠ some 0x16) {i : Nat}
    (hi : index headerEnd data = some i) :
    view S data =
      some (if sniffHost S data = [] then none
        else some (sniffHost S data, .http)) := by
  have hend : containsHeaderEnd data = true := by rw [containsHeaderEnd_eq, hi]; rfl
  rw [view_of_not_tls htls]
  split_ifs <;> simp_all

lemma view_of_not_headerEnd (htls : data.head? ≠ some 0x16) (hi : index headerEnd data = none) :
    view S data = if startsMethod data then none else some none := by
  have hend : ¬ containsHeaderEnd data = true := by
    rw [containsHeaderEnd_eq, hi]
    simp
  rw [view_of_not_tls htls, if_neg hend]

lemma stable_of_startsMethod (htls : s.head? ≠ some 0x16)
    (hs : startsMethod s = true) : Stable S s := by
  intro p q hpq hqs hsome
  have hp := head?_ne_of_isPrefix (hpq.trans hqs) htls
  have hq := head?_ne_of_isPrefix hqs htls
  cases hi : index headerEnd p with
  | none =>
    rw [view_of_not_headerEnd hp hi, if_pos (startsMethod_of_isPrefix (hpq.trans hqs) hs)] at hsome
    cases hsome
  | some i =>
    obtain ⟨t, rfl⟩ := hpq
    rw [view_of_headerEnd hq (index_append hi t), view_of_headerEnd hp hi, sniffHost_append S hi]

/-! ### Streams that pass as a request in one piece -/

/-- The stream does not start as a request, but its header block parses as one and can arrive in
one read: the last one that the sniffer makes while what it has still starts as a request. -/
structure Smuggled (S : HTTP.Strings) (maxBytes : Nat) (s : List UInt8) : Prop where
  tls : s.head? ≠ some 0x16
  method : startsMethod s = false
  host : sniffHost S s ≠ []
  reach : ∃ i j, index headerEnd s = some i ∧ startsMethod (s.take j) = true ∧
    i + 4 ≤ j + 4096 ∧ i + 4 ≤ maxBytes

lemma length_headerEnd : headerEnd.length = 4 := by decide

/-- A header block that ends in the data leaves a carriage return there. -/
lemma mem_take_of_index {i n : Nat} (hi : index headerEnd s = some i)
    (hn : i < n) : 13 ∈ s.take n := by
  obtain ⟨t, ht⟩ := isPrefix_drop_of_index hi
  have hget : s[i]? = some 13 := by
    have hhead : (s.drop i)[0]? = some 13 := by
      rw [← ht]
      rfl
    rwa [getElem?_drop, Nat.add_zero] at hhead
  apply mem_of_getElem? (i := i)
  rw [getElem?_take_of_lt hn, hget]

/-- Without such a header block a stream that does not start as a request has no domain. -/
lemma Final.answer_eq_none {before : List UInt8}
    {answer : Option (List UInt8 × Protocol)} (htls : s.head? ≠ some 0x16)
    (hmethod : startsMethod s = false) (hs : ¬ Smuggled S maxBytes s)
    (h : Final S maxBytes s before data answer) : answer = none := by
  have hdata := head?_ne_of_isPrefix h.reads htls
  have hbefore := head?_ne_of_isPrefix (h.grows.trans h.reads) htls
  rw [h.answer_eq]
  cases hi : index headerEnd data with
  | none =>
    rw [view_of_not_headerEnd hdata hi]
    split_ifs <;> rfl
  | some i =>
    rw [view_of_headerEnd hdata hi]
    by_contra hhost
    have hhost' : sniffHost S data ≠ [] := by
      intro hc
      exact hhost (if_pos hc)
    have hstart : startsMethod before = true := by
      have hnone := h.undecided
      cases hb : index headerEnd before with
      | none =>
        rw [view_of_not_headerEnd hbefore hb] at hnone
        by_contra hc
        rw [if_neg hc] at hnone
        cases hnone
      | some k =>
        rw [view_of_headerEnd hbefore hb] at hnone
        cases hnone
    have hlen := length_le_of_index hi
    have hround := h.round
    have hbounded := h.bounded
    rw [length_headerEnd] at hlen
    obtain ⟨t, ht⟩ := h.reads
    refine hs ⟨htls, hmethod, ?_, i, before.length, ?_, ?_, by omega, by omega⟩
    · rw [← ht, sniffHost_append S hi]
      exact hhost'
    · rw [← ht]
      exact index_append hi t
    · rw [← prefix_iff_eq_take.mp (h.grows.trans h.reads)]
      exact hstart

lemma cuts_cons {c t : List UInt8} {r : Reader UInt8 ε} (hc : c ≠ []) (h : r.Cuts t)
    (hs : c ++ t = s) : Reader.Cuts ((c, none) :: r) s :=
  ⟨forall_mem_cons.mpr ⟨⟨hc, rfl⟩, h.1⟩, by rw [Reader.stream_cons, h.2, hs]⟩

lemma exists_cuts (ε : Type*) (s : List UInt8) : ∃ r : Reader UInt8 ε, r.Cuts s := by
  have hnil : Reader.Cuts ([] : Reader UInt8 ε) [] := ⟨forall_mem_nil _, rfl⟩
  cases s with
  | nil => exact ⟨[], hnil⟩
  | cons b s => exact ⟨_, cuts_cons (cons_ne_nil b s) hnil (append_nil _)⟩

lemma sniffLoop_cons {c : List UInt8} {last : Nat} {r : Reader UInt8 ε}
    (hne : c ≠ []) (hbuf : c.length ≤ 4096) (hfits : (data ++ c).length ≤ maxBytes) :
    sniffLoop S eof maxBytes data last ((c, none) :: r) =
      match inspect S maxBytes (data ++ c) last with
      | .found domain protocol => (data ++ c, r, .found domain protocol)
      | .stop => (data ++ c, r, .undecided)
      | .more n => sniffLoop S eof maxBytes (data ++ c) n r := by
  have hpos : 0 < c.length := length_pos_iff.mpr hne
  rw [length_append] at hfits
  have hread : Reader.read eof (min 4096 (maxBytes - data.length)) ((c, none) :: r) =
      (c, none, r) := if_pos (by omega)
  rw [sniffLoop, dif_pos (by omega)]
  split
  · next hr =>
    rw [hread] at hr
    cases hr
  · next hr =>
    rw [hread] at hr
    cases hr
    cases inspect S maxBytes (data ++ c) last <;> exact if_neg hne

/-- Data that neither starts as a request nor holds a header block ends the loop. -/
lemma inspect_of_not_startsMethod (hne : data ≠ [])
    (htls : data.head? ≠ some 0x16) (hi : index headerEnd data = none)
    (hmethod : startsMethod data = false) : inspect S maxBytes data 0 = .stop := by
  obtain ⟨n, hinspect, -⟩ := inspect_spec maxBytes (pending_nil S) hne
  rw [nil_append, view_of_not_headerEnd htls hi, hmethod] at hinspect
  exact hinspect

lemma inspect_of_startsMethod (hne : data ≠ [])
    (htls : data.head? ≠ some 0x16) (hi : index headerEnd data = none)
    (hmethod : startsMethod data = true) (hmore : data.length < maxBytes) :
    ∃ n, inspect S maxBytes data 0 = .more n ∧ Pending S data n := by
  obtain ⟨n, hinspect, hpending⟩ := inspect_spec maxBytes (pending_nil S) hne
  have hview : view S data = none := by
    rw [view_of_not_headerEnd htls hi, if_pos hmethod]
  rw [nil_append] at hinspect hpending
  rw [hview, ofView, if_pos hmore] at hinspect
  exact ⟨n, hinspect, hpending hview⟩

lemma inspect_of_host {last i : Nat} (h : Pending S data last)
    (hne : chunk ≠ []) (htls : (data ++ chunk).head? ≠ some 0x16)
    (hi : index headerEnd (data ++ chunk) = some i) (hhost : sniffHost S (data ++ chunk) ≠ []) :
    inspect S maxBytes (data ++ chunk) last = .found (sniffHost S (data ++ chunk)) .http := by
  obtain ⟨n, hinspect, -⟩ := inspect_spec maxBytes h hne
  rw [hinspect, view_of_headerEnd htls hi, if_neg hhost]
  rfl

namespace Smuggled

variable {s : List UInt8}

/-- The first bytes alone, at most eight, end the loop without a domain. -/
lemma slow (h : Smuggled S maxBytes s) (eof : ε) :
    ∃ r : Reader UInt8 ε, r.Cuts s ∧ (sniffLoop S eof maxBytes [] 0 r).2.2 = .undecided := by
  obtain ⟨i, j, hi, hj, hreach, hmax⟩ := h.reach
  have hlen := length_le_of_index hi
  rw [length_headerEnd] at hlen
  -- as many bytes as show that this is no request, but not the whole header block
  obtain ⟨n, hn⟩ : ∃ n, n = min 8 (i + 3) := ⟨_, rfl⟩
  have htake : (s.take n).length = n := by
    rw [length_take]
    omega
  have hne : s.take n ≠ [] := ne_nil_of_length_pos (by omega)
  have hnone : index headerEnd (s.take n) = none := by
    rw [index_take hi, length_headerEnd, if_neg (by omega)]
  have hmethod : startsMethod (s.take n) = false := by
    rw [← Bool.not_eq_true]
    intro hc
    have hs : startsMethod s = true := by
      rcases Nat.le_total 8 (i + 3) with hle | hle
      · rw [hn, Nat.min_eq_left hle] at hc
        exact startsMethod_of_take_eight hc
      · refine startsMethod_of_mem_cr ?_ hc ( take_prefix n s)
        exact mem_take_of_index hi (by omega)
    rw [h.method] at hs
    cases hs
  have htls := head?_ne_of_isPrefix ( take_prefix n s) h.tls
  obtain ⟨r, hr⟩ := exists_cuts ε (s.drop n)
  refine ⟨(s.take n, none) :: r, cuts_cons hne hr (List.take_append_drop n s), ?_⟩
  rw [sniffLoop_cons hne (by omega) (by rw [nil_append]; omega), nil_append,
    inspect_of_not_startsMethod hne htls hnone hmethod]

/-- The start of a request, then the rest of the header block in one read, gives the host. -/
lemma fast (h : Smuggled S maxBytes s) (eof : ε) :
    ∃ r : Reader UInt8 ε, r.Cuts s ∧
      (sniffLoop S eof maxBytes [] 0 r).2.2 = .found (sniffHost S s) .http := by
  obtain ⟨i, j, hi, hj, hreach, hmax⟩ := h.reach
  have hlen := length_le_of_index hi
  rw [length_headerEnd] at hlen
  -- what starts as a request ends before the header block does
  have hji : j ≤ i := by
    by_contra hc
    have hs := startsMethod_of_mem_cr (mem_take_of_index hi (by omega)) hj ( take_prefix j s)
    rw [h.method] at hs
    cases hs
  have hjlen : j ≤ 8 := by
    by_contra hc
    have hstart : s.take 8 <+: s.take j := take_prefix_take_left (by omega)
    have hs := startsMethod_of_take_eight (startsMethod_of_isPrefix hstart hj)
    rw [h.method] at hs
    cases hs
  obtain ⟨block, hblock⟩ : ∃ block, block = (s.take (i + 4)).drop j := ⟨_, rfl⟩
  have hjoin : s.take j ++ block = s.take (i + 4) := by
    rw [hblock, ← List.take_append_drop j (s.take (i + 4)), take_take,
      Nat.min_eq_left (by omega), drop_left' (by rw [length_take]; omega)]
  have hblocklen : block.length = i + 4 - j := by
    rw [hblock, length_drop, length_take]
    omega
  have hne : block ≠ [] := ne_nil_of_length_pos (by omega)
  have hwhole : index headerEnd (s.take (i + 4)) = some i := by
    rw [index_take hi, length_headerEnd, if_pos le_rfl]
  have hhost : sniffHost S (s.take (i + 4)) = sniffHost S s := by
    conv_rhs => rw [← List.take_append_drop (i + 4) s]
    exact (sniffHost_append S hwhole _).symm
  have htls := fun n => head?_ne_of_isPrefix ( take_prefix n s) h.tls
  obtain ⟨r, hr⟩ := exists_cuts ε (s.drop (i + 4))
  have hround : ∀ n, Pending S (s.take j) n →
      (sniffLoop S eof maxBytes (s.take j) n ((block, none) :: r)).2.2 =
        .found (sniffHost S s) .http := by
    intro n hn
    have hfits : (s.take j ++ block).length ≤ maxBytes := by
      rw [hjoin, length_take]
      omega
    rw [sniffLoop_cons hne (by omega) hfits,
      inspect_of_host hn hne (by rw [hjoin]; exact htls _) (by rw [hjoin]; exact hwhole)
        (by rw [hjoin, hhost]; exact h.host), hjoin, hhost]
  have hcuts : s.take j ++ (block ++ s.drop (i + 4)) = s := by
    rw [← append_assoc, hjoin, List.take_append_drop]
  by_cases hempty : s.take j = []
  · rw [hempty] at hround hcuts
    exact ⟨_, cuts_cons hne hr hcuts, hround 0 (pending_nil S)⟩
  · have hnone : index headerEnd (s.take j) = none := by
      rw [index_take hi, length_headerEnd, if_neg (by omega)]
    have hjtake : (s.take j).length ≤ j := length_take_le j s
    obtain ⟨n, hinspect, hpending⟩ := inspect_of_startsMethod (S := S) hempty (htls j) hnone hj
      (show (s.take j).length < maxBytes by omega)
    refine ⟨_, cuts_cons hempty (cuts_cons hne hr rfl) hcuts, ?_⟩
    rw [sniffLoop_cons hempty (by omega) (by rw [nil_append]; omega), nil_append, hinspect]
    exact hround n hpending

end Smuggled

/-! ### The sniffer -/

lemma sniffMetadata_of_enabled {sniffer : Sniffer} (h : sniffer.enabled = true)
    (S : HTTP.Strings) (eof : ε) (r : Reader UInt8 ε) :
    (sniffer.sniffMetadata S eof r).ending =
        (sniffLoop S eof sniffer.maxBytes [] 0 r).2.2 ∧
      (sniffer.sniffMetadata S eof r).domain =
        ((sniffLoop S eof sniffer.maxBytes [] 0 r).2.2.answer.map Prod.fst).getD [] ∧
      (sniffer.sniffMetadata S eof r).protocol =
        (sniffLoop S eof sniffer.maxBytes [] 0 r).2.2.answer.map Prod.snd := by
  rw [Sniffer.sniffMetadata, if_pos h]
  rcases sniffLoop S eof sniffer.maxBytes [] 0 r with ⟨data, conn, ending⟩
  cases ending with
  | found domain protocol => exact ⟨rfl, rfl, rfl⟩
  | undecided | failed e =>
    dsimp only
    split_ifs <;> exact ⟨rfl, rfl, rfl⟩

/-- Any two ways of cutting the stream that the sniffer gets through without a read error give one
domain and one protocol. -/
def SegmentationFree (sniffer : Sniffer) (S : HTTP.Strings) (eof : ε) (s : List UInt8) : Prop :=
  ∀ r₁ r₂ : Reader UInt8 ε, r₁.Cuts s → r₂.Cuts s →
    (sniffer.sniffMetadata S eof r₁).ending.isFailed = false →
    (sniffer.sniffMetadata S eof r₂).ending.isFailed = false →
    (sniffer.sniffMetadata S eof r₁).domain = (sniffer.sniffMetadata S eof r₂).domain ∧
      (sniffer.sniffMetadata S eof r₁).protocol = (sniffer.sniffMetadata S eof r₂).protocol

/-- The two cuts of a stream that passes as a request in one piece. -/
lemma Smuggled.not_segmentationFree {sniffer : Sniffer}
    (henabled : sniffer.enabled = true) (hs : Smuggled S sniffer.maxBytes s) (eof : ε) :
    ¬ SegmentationFree sniffer S eof s := by
  intro hfree
  obtain ⟨r₁, hcut₁, hslow⟩ := hs.slow eof
  obtain ⟨r₂, hcut₂, hfast⟩ := hs.fast eof
  obtain ⟨hending₁, hdomain₁, -⟩ := sniffMetadata_of_enabled henabled S eof r₁
  obtain ⟨hending₂, hdomain₂, -⟩ := sniffMetadata_of_enabled henabled S eof r₂
  rw [hslow] at hending₁ hdomain₁
  rw [hfast] at hending₂ hdomain₂
  have hdomain := (hfree r₁ r₂ hcut₁ hcut₂ (by rw [hending₁]; rfl) (by rw [hending₂]; rfl)).1
  rw [hdomain₁, hdomain₂] at hdomain
  exact hs.host hdomain.symm

/-- Unless a stream passes as a request in one piece, all loops over it give one answer. -/
lemma answer_eq_of_not_smuggled (hs : ¬ Smuggled S maxBytes s)
    {r₁ r₂ : Reader UInt8 ε} (h₁ : r₁.Cuts s) (h₂ : r₂.Cuts s)
    (hok₁ : (sniffLoop S eof maxBytes [] 0 r₁).2.2.isFailed = false)
    (hok₂ : (sniffLoop S eof maxBytes [] 0 r₂).2.2.isFailed = false) :
    (sniffLoop S eof maxBytes [] 0 r₁).2.2.answer =
      (sniffLoop S eof maxBytes [] 0 r₂).2.2.answer := by
  obtain ⟨before₁, hfinal₁⟩ :=
    sniffLoop_spec (pending_nil S) h₁ nil_prefix (Nat.zero_le _) hok₁
  obtain ⟨before₂, hfinal₂⟩ :=
    sniffLoop_spec (pending_nil S) h₂ nil_prefix (Nat.zero_le _) hok₂
  by_cases htls : s.head? = some 0x16
  · exact (stable_of_tls htls).answer_eq hfinal₁ hfinal₂
  cases hmethod : startsMethod s with
  | true => exact (stable_of_startsMethod htls hmethod).answer_eq hfinal₁ hfinal₂
  | false =>
    rw [hfinal₁.answer_eq_none htls hmethod hs, hfinal₂.answer_eq_none htls hmethod hs]

/-- The result of the sniffer does not depend on the segmentation exactly when it is disabled or
the stream does not pass as a request in one piece. -/
theorem segmentationFree_iff (sniffer : Sniffer) (S : HTTP.Strings) (eof : ε) (s : List UInt8) :
    SegmentationFree sniffer S eof s ↔
      ¬ (sniffer.enabled = true ∧ Smuggled S sniffer.maxBytes s) := by
  cases henabled : sniffer.enabled with
  | false =>
    refine iff_of_true ?_ (fun h => Bool.false_ne_true h.1)
    intro r₁ r₂ _ _ _ _
    simp [Sniffer.sniffMetadata, henabled]
  | true =>
    have hmeta := sniffMetadata_of_enabled henabled S eof
    constructor
    · rintro hfree ⟨-, hs⟩
      exact Smuggled.not_segmentationFree henabled hs eof hfree
    · intro hs r₁ r₂ hcut₁ hcut₂ hok₁ hok₂
      rw [(hmeta r₁).1] at hok₁
      rw [(hmeta r₂).1] at hok₂
      have hanswer := answer_eq_of_not_smuggled (fun h => hs ⟨rfl, h⟩) hcut₁ hcut₂ hok₁ hok₂
      rw [(hmeta r₁).2.1, (hmeta r₂).2.1, (hmeta r₁).2.2, (hmeta r₂).2.2, hanswer]
      exact ⟨rfl, rfl⟩

def spacedRequest : List UInt8 := ascii " GET / HTTP/1.1\r\nHost: a\r\n\r\n"

/-- In one piece the request gives its host, in pieces it gives none. -/
theorem spacedRequest_not_segmentationFree :
    ¬ SegmentationFree ⟨true, 512⟩ HTTP.Strings.ofASCII () spacedRequest :=
  Smuggled.not_segmentationFree rfl
    ⟨by decide, by decide, by decide, 24, 0, by decide, by decide, by decide, by decide⟩ ()

end BypassCore.Dispatcher
