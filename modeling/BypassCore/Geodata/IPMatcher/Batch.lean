import BypassCore.Geodata.IPMatcher.Basic

/-!
# The batch predicates of the IP matchers

`AnyMatch` and `Matches`, for one `HeuristicIPMatcher` and for a list of them. Both skip an
address whose /24 or /64 was already decided; the loops below are the source's, with the set of
decided keys passed along.
-/

namespace BypassCore

open Lib List Option HeuristicIPMatcher

variable {N : Netipx}

namespace HeuristicIPMatcher

def anyMatchLoop (m : HeuristicIPMatcher N) : Finset PrefixKey → List NetIP → Bool
  | _, [] => false
  | buckets, ip :: ips =>
    match prefixKeyFromIP ip with
    | none => m.anyMatchLoop buckets ips
    | some key =>
      if m.heurKey key = true ∧ key ∈ buckets then m.anyMatchLoop buckets ips
      else
        match N.fromStdIP ip with
        | none => m.anyMatchLoop buckets ips
        | some ipx =>
          if m.matchAddr ipx then true
          else if m.heurKey key then m.anyMatchLoop (insert key buckets) ips
          else m.anyMatchLoop buckets ips

def anyMatch (m : HeuristicIPMatcher N) (ips : List NetIP) : Bool :=
  match ips with
  | [] => false
  | [ip] => m.matchIP ip
  | ips =>
    if !m.heur .v4 && !m.heur .v6 then
      ips.any fun ip => (N.fromStdIP ip).any m.matchAddr
    else m.anyMatchLoop ∅ ips

/-- The collecting loop of `Matches`: one representative for each bucket and the addresses that
are decided one by one. `none` is the early `return false` on an illegal address. -/
def matchesLoop (m : HeuristicIPMatcher N) :
    GoMap PrefixKey Addr → List Addr → List NetIP → Option (GoMap PrefixKey Addr × List Addr)
  | buckets, precise, [] => some (buckets, precise)
  | buckets, precise, ip :: ips =>
    match prefixKeyFromIP ip with
    | none => none
    | some key =>
      if m.heurKey key then
        match buckets.lookup key with
        | some _ => m.matchesLoop buckets precise ips
        | none =>
          match N.fromStdIP ip with
          | none => none
          | some ipx => m.matchesLoop (buckets.insert key ipx) precise ips
      else
        match N.fromStdIP ip with
        | none => none
        | some ipx => m.matchesLoop buckets (precise ++ [ipx]) ips

def matchesAll (m : HeuristicIPMatcher N) (ips : List NetIP) : Bool :=
  match ips with
  | [] => false
  | [ip] => m.matchIP ip
  | ips =>
    if !m.heur .v4 && !m.heur .v6 then
      ips.all fun ip => (N.fromStdIP ip).any m.matchAddr
    else
      match m.matchesLoop ∅ [] ips with
      | none => false
      | some (buckets, precise) =>
        (buckets.entries.all fun e => m.matchAddr e.2) && precise.all m.matchAddr

end HeuristicIPMatcher

/-! ### A list of matchers -/

structure HeuristicMultiIPMatcher (N : Netipx) where
  matchers : List (HeuristicIPMatcher N)

namespace HeuristicMultiIPMatcher

def matchIP (mm : HeuristicMultiIPMatcher N) (ip : NetIP) : Bool :=
  match N.fromStdIP ip with
  | none => false
  | some ipx => mm.matchers.any fun m => m.matchAddr ipx

/-- The inner loop of `AnyMatch`, over the matchers, for one address: whether a matcher accepts
it, and the decided keys afterwards. `state` is 0 before the key is looked up, 1 when the bucket
is new, and the family byte when the bucket was seen before. -/
def anyMatchIP (ip : NetIP) :
    List (HeuristicIPMatcher N) → Finset PrefixKey → Option Addr → UInt8 →
      Bool × Finset PrefixKey
  | [], buckets, _, _ => (false, buckets)
  | m :: ms, buckets, ipx, state =>
    let looked : Option (Finset PrefixKey × UInt8) :=
      if state = 0 ∧ (m.heur .v4 = true ∨ m.heur .v6 = true) then
        (prefixKeyFromIP ip).map fun key =>
          if key ∈ buckets then (buckets, key.family) else (insert key buckets, 1)
      else some (buckets, state)
    match looked with
    | none => (false, buckets)
    | some (buckets, state) =>
      if (m.heur .v4 = true ∧ state = 4) ∨ (m.heur .v6 = true ∧ state = 6) then
        anyMatchIP ip ms buckets ipx state
      else
        match ipx.or (N.fromStdIP ip) with
        | none => (false, buckets)
        | some ipx =>
          if m.matchAddr ipx then (true, buckets)
          else anyMatchIP ip ms buckets (some ipx) state

def anyMatchLoop (mm : HeuristicMultiIPMatcher N) : Finset PrefixKey → List NetIP → Bool
  | _, [] => false
  | buckets, ip :: ips =>
    match anyMatchIP ip mm.matchers buckets none 0 with
    | (true, _) => true
    | (false, buckets) => mm.anyMatchLoop buckets ips

def anyMatch (mm : HeuristicMultiIPMatcher N) (ips : List NetIP) : Bool :=
  match ips with
  | [] => false
  | [ip] => mm.matchIP ip
  | ips => mm.anyMatchLoop ∅ ips

end HeuristicMultiIPMatcher

/-- The views of one family in `ipViews`: `nil` until a matcher needs them. -/
structure FamilyViews where
  buckets : Option (GoMap PrefixKey Addr) := none
  precise : Option (List Addr) := none

/-- `ipViews`: `buckets4`, `precise4` and `buckets6`, `precise6`. -/
structure IPViews where
  v4 : FamilyViews := {}
  v6 : FamilyViews := {}

/-- One case of the switch in `ipViews.ensureForMatcher`, for a family of which the bucket view
or the precise view is being filled. `none` is `return false`. -/
def FamilyViews.addIP (N : Netipx) (needHeur needPrec : Bool) (w : FamilyViews) (key : PrefixKey)
    (ip : NetIP) : Option FamilyViews :=
  -- the address read for a new bucket is kept for the precise view
  let bucketed : Option (FamilyViews × Option Addr) :=
    if needHeur && ((w.buckets.getD ∅).lookup key).isNone then
      (N.fromStdIP ip).map fun ipx =>
        ({ w with buckets := some ((w.buckets.getD ∅).insert key ipx) }, some ipx)
    else some (w, none)
  bucketed.bind fun (w, ipx) =>
    if needPrec then
      (ipx.or (N.fromStdIP ip)).map fun ipx =>
        { w with precise := some (w.precise.getD [] ++ [ipx]) }
    else some w

/-- The views of one family that a matcher with the given granularity makes empty first. -/
def FamilyViews.make (heur : Bool) (w : FamilyViews) : FamilyViews where
  buckets := if heur && w.buckets.isNone then some ∅ else w.buckets
  precise := if !heur && w.precise.isNone then some [] else w.precise

namespace IPViews

/-- The loop of `ipViews.ensureForMatcher`. The needs are those from before the views were made. -/
def fill (N : Netipx) (h4 p4 h6 p6 : Bool) : IPViews → List NetIP → Option IPViews
  | v, [] => some v
  | v, ip :: ips =>
    match prefixKeyFromIP ip with
    | none => none
    | some key =>
      if key.family = 4 then
        (v.v4.addIP N h4 p4 key ip).bind fun w => fill N h4 p4 h6 p6 { v with v4 := w } ips
      else if key.family = 6 then
        (v.v6.addIP N h6 p6 key ip).bind fun w => fill N h4 p4 h6 p6 { v with v6 := w } ips
      else none

/-- `ipViews.ensureForMatcher`; `none` is `return false`. -/
def ensureForMatcher (v : IPViews) (m : HeuristicIPMatcher N) (ips : List NetIP) :
    Option IPViews :=
  let needHeur4 := m.heur .v4 && v.v4.buckets.isNone
  let needHeur6 := m.heur .v6 && v.v6.buckets.isNone
  let needPrec4 := !m.heur .v4 && v.v4.precise.isNone
  let needPrec6 := !m.heur .v6 && v.v6.precise.isNone
  if !needHeur4 && !needHeur6 && !needPrec4 && !needPrec6 then some v
  else
    fill N needHeur4 needPrec4 needHeur6 needPrec6
      ⟨v.v4.make (m.heur .v4), v.v6.make (m.heur .v6)⟩ ips

end IPViews

/-- Whether a matcher accepts every entry of the view it uses for a family. -/
def FamilyViews.allMatch (w : FamilyViews) (heur : Bool) (m : HeuristicIPMatcher N) : Bool :=
  if heur then (w.buckets.getD ∅).entries.all fun e => m.matchAddr e.2
  else (w.precise.getD []).all m.matchAddr

namespace HeuristicMultiIPMatcher

def matchesLoop (ips : List NetIP) : List (HeuristicIPMatcher N) → IPViews → Bool
  | [], _ => false
  | m :: ms, views =>
    match views.ensureForMatcher m ips with
    | none => false
    | some views =>
      if !views.v4.allMatch (m.heur .v4) m then matchesLoop ips ms views
      else if views.v6.allMatch (m.heur .v6) m then true
      else matchesLoop ips ms views

def matchesAll (mm : HeuristicMultiIPMatcher N) (ips : List NetIP) : Bool :=
  match ips with
  | [] => false
  | [ip] => mm.matchIP ip
  | ips => matchesLoop ips mm.matchers {}

end HeuristicMultiIPMatcher

variable (m : HeuristicIPMatcher N)

lemma HeuristicIPMatcher.matchIP_eq_true_iff (ip : NetIP) :
    m.matchIP ip = true ↔ ∃ a, N.fromStdIP ip = some a ∧ m.matchAddr a = true := by
  unfold matchIP
  cases N.fromStdIP ip <;> simp

variable {ip : NetIP}

lemma HeuristicIPMatcher.wellFormed_of_matchIP {m : HeuristicIPMatcher N}
    (h : m.matchIP ip = true) : ip.WellFormed := by
  obtain ⟨a, ha, _⟩ := (m.matchIP_eq_true_iff ip).mp h
  exact (N.fromStdIP_isSome ip).mp (by simp [ha])

lemma HeuristicIPMatcher.any_matchAddr_eq_matchIP (ip : NetIP) :
    (N.fromStdIP ip).any m.matchAddr = m.matchIP ip := by
  unfold matchIP
  cases N.fromStdIP ip <;> rfl

lemma prefixKeyFromIP_of_fromStdIP {a : Addr} (h : N.fromStdIP ip = some a) :
    prefixKeyFromIP ip = some a.key := by
  rw [prefixKeyFromIP_eq (N := N), h, map_some]

lemma prefixKeyFromIP_of_illegal (h : N.fromStdIP ip = none) : prefixKeyFromIP ip = none := by
  rw [prefixKeyFromIP_eq (N := N), h, map_none]

/-! ### One matcher: correctness -/

namespace HeuristicIPMatcher

variable (m : HeuristicIPMatcher N)

/-- Every key in `buckets` belongs to a bucket that the matcher rejects. -/
def Rejected (buckets : Finset PrefixKey) : Prop :=
  ∀ a : Addr, a.key ∈ buckets → m.heurKey a.key = true → m.matchAddr a = false

variable {buckets : Finset PrefixKey}

lemma Rejected.insert {m : HeuristicIPMatcher N}
    (h : m.Rejected buckets) {a : Addr} (ha : m.matchAddr a = false) :
    m.Rejected (insert a.key buckets) := by
  intro b hb hh
  rcases Finset.mem_insert.mp hb with hk | hk
  · rw [m.matchAddr_eq_of_key_eq hk hh, ha]
  · exact h b hk hh

lemma anyMatchLoop_iff (hb : m.Rejected buckets) (ips : List NetIP) :
    m.anyMatchLoop buckets ips = true ↔ ∃ ip ∈ ips, m.matchIP ip = true := by
  induction ips generalizing buckets with
  | nil => simp [anyMatchLoop]
  | cons ip ips ih =>
    simp only [mem_cons, exists_eq_or_imp]
    cases ha : N.fromStdIP ip with
    | none =>
      have hm : m.matchIP ip = false := by simp [matchIP, ha]
      simp [anyMatchLoop, prefixKeyFromIP_of_illegal ha, ih hb, hm]
    | some a =>
      have hm : m.matchIP ip = m.matchAddr a := by simp [matchIP, ha]
      simp only [anyMatchLoop, prefixKeyFromIP_of_fromStdIP ha, ha, hm]
      split_ifs with hseen hmatch hheur
      · -- skipped: the bucket was rejected through its representative
        rw [ih hb, hb a hseen.2 hseen.1]
        simp
      · simp [hmatch]
      · rw [ih (hb.insert (by simpa using hmatch))]
        simp [hmatch]
      · rw [ih hb]
        simp [hmatch]

/-- `AnyMatch` holds when some address of the list matches. -/
theorem anyMatch_iff (ips : List NetIP) :
    m.anyMatch ips = true ↔ ∃ ip ∈ ips, m.matchIP ip = true := by
  unfold anyMatch
  split
  · simp
  · simp
  · split_ifs
    · simp [any_matchAddr_eq_matchIP]
    · exact m.anyMatchLoop_iff (fun a ha => absurd ha (Finset.notMem_empty _)) _

/-- The collected representatives stand for their own buckets. -/
def Collected (buckets : GoMap PrefixKey Addr) : Prop :=
  ∀ k a, buckets.lookup k = some a → a.key = k ∧ m.heurKey k = true

/-- What `Matches` checks after the loop. -/
def AllAccepted (buckets : GoMap PrefixKey Addr)
    (precise : List Addr) : Prop :=
  (∀ k a, buckets.lookup k = some a → m.matchAddr a = true) ∧
    ∀ a ∈ precise, m.matchAddr a = true

lemma allAccepted_insert {buckets : GoMap PrefixKey Addr}
    {precise : List Addr} {a : Addr} (hn : buckets.lookup a.key = none) :
    m.AllAccepted (buckets.insert a.key a) precise ↔
      m.matchAddr a = true ∧ m.AllAccepted buckets precise := by
  simp only [AllAccepted, GoMap.lookup_insert_eq]
  constructor
  · rintro ⟨h₁, h₂⟩
    refine ⟨h₁ a.key a (by simp), fun k b hb => ?_, h₂⟩
    have hk : k ≠ a.key := by
      rintro rfl
      rw [hn] at hb
      cases hb
    exact h₁ k b (by rw [if_neg hk, hb])
  · rintro ⟨ha, h₁, h₂⟩
    refine ⟨fun k b hb => ?_, h₂⟩
    split_ifs at hb with hk
    · cases hb
      exact ha
    · exact h₁ k b hb

lemma matchesLoop_iff (buckets : GoMap PrefixKey Addr)
    (hb : m.Collected buckets) (precise : List Addr) (ips : List NetIP) :
    (∃ r, m.matchesLoop buckets precise ips = some r ∧ m.AllAccepted r.1 r.2) ↔
      m.AllAccepted buckets precise ∧ ∀ ip ∈ ips, m.matchIP ip = true := by
  induction ips generalizing buckets precise with
  | nil => simp [matchesLoop]
  | cons ip ips ih =>
    simp only [mem_cons, forall_eq_or_imp]
    cases ha : N.fromStdIP ip with
    | none => simp [matchesLoop, prefixKeyFromIP_of_illegal ha, matchIP, ha]
    | some a =>
      have hm : m.matchIP ip = m.matchAddr a := by simp [matchIP, ha]
      simp only [matchesLoop, prefixKeyFromIP_of_fromStdIP ha, ha, hm]
      split_ifs with hh
      · cases hl : buckets.lookup a.key with
        | some r =>
          -- the bucket has a representative already, which answers for `a`
          have hr : m.matchAddr a = m.matchAddr r :=
            m.matchAddr_eq_of_key_eq (hb a.key r hl).1.symm hh
          simp only [ih _ hb]
          constructor
          · rintro ⟨hall, hips⟩
            exact ⟨hall, hr ▸ hall.1 a.key r hl, hips⟩
          · rintro ⟨hall, _, hips⟩
            exact ⟨hall, hips⟩
        | none =>
          have hc : m.Collected (buckets.insert a.key a) := by
            intro k b hkb
            rw [GoMap.lookup_insert_eq] at hkb
            split_ifs at hkb with hk
            · cases hkb
              exact ⟨hk.symm, hk ▸ hh⟩
            · exact hb k b hkb
          rw [ih _ hc, m.allAccepted_insert hl]
          tauto
      · rw [ih _ hb]
        simp only [AllAccepted, mem_append, mem_singleton, or_imp, forall_and, forall_eq]
        tauto

lemma all_entries_iff (buckets : GoMap PrefixKey Addr) :
    (buckets.entries.all fun e => m.matchAddr e.2) = true ↔
      ∀ k a, buckets.lookup k = some a → m.matchAddr a = true := by
  simp only [List.all_eq_true, GoMap.lookup_eq_some_iff]
  constructor
  · intro h k a hka
    exact h ⟨k, a⟩ hka
  · intro h e he
    exact h e.1 e.2 he

/-- `Matches` holds when the list is non-empty and each of its addresses matches. -/
theorem matchesAll_iff (ips : List NetIP) :
    m.matchesAll ips = true ↔ ips ≠ [] ∧ ∀ ip ∈ ips, m.matchIP ip = true := by
  unfold matchesAll
  split
  · simp
  · simp
  · next hnil _ =>
    have hne : ips ≠ [] := hnil
    split_ifs
    · simp [any_matchAddr_eq_matchIP, hne]
    · have hloop := m.matchesLoop_iff ∅ (fun k a h => by simp at h) [] ips
      have h0 : m.AllAccepted ∅ [] := ⟨fun k a h => by simp at h, fun a h => by simp at h⟩
      simp only [h0, true_and] at hloop
      rw [and_iff_right hne, ← hloop]
      cases m.matchesLoop ∅ [] ips with
      | none => simp
      | some r =>
        rw [Bool.and_eq_true, all_entries_iff]
        simp [AllAccepted]

end HeuristicIPMatcher

/-! ### A list of matchers: `AnyMatch` -/

namespace HeuristicMultiIPMatcher

variable (mm : HeuristicMultiIPMatcher N)

lemma matchIP_eq_true_iff (ip : NetIP) :
    mm.matchIP ip = true ↔ ∃ m ∈ mm.matchers, m.matchIP ip = true := by
  unfold matchIP HeuristicIPMatcher.matchIP
  cases N.fromStdIP ip <;> simp

lemma anyMatchIP_of_illegal {ip : NetIP} (ha : N.fromStdIP ip = none)
    (ms : List (HeuristicIPMatcher N)) (buckets : Finset PrefixKey) :
    anyMatchIP ip ms buckets none 0 = (false, buckets) := by
  cases ms with
  | nil => rfl
  | cons m ms =>
    simp only [anyMatchIP, prefixKeyFromIP_of_illegal ha, ha]
    by_cases hh : m.heur .v4 = true ∨ m.heur .v6 = true <;> simp [hh]

/-- The values `state` takes for an address: untouched, new bucket, or known bucket. In the last
case every matcher that decides by bucket has rejected the address's bucket. -/
def StateOf (a : Addr) (ms : List (HeuristicIPMatcher N)) (buckets : Finset PrefixKey)
    (state : UInt8) : Prop :=
  state = 0 ∨ (state = 1 ∧ a.key ∈ buckets) ∨
    (state = a.key.family ∧ a.key ∈ buckets ∧
      ∀ m ∈ ms, m.heurKey a.key = true → m.matchAddr a = false)

/-- The skip test of the inner loop, once the key is looked up. -/
lemma skip_iff_heurKey (m : HeuristicIPMatcher N) (a : Addr) :
    ((m.heur .v4 = true ∧ a.key.family = 4) ∨ (m.heur .v6 = true ∧ a.key.family = 6)) ↔
      m.heurKey a.key = true := by
  simp only [heurKey, decide_eq_true_eq]
  tauto

lemma Addr.key_family_ne (a : Addr) : a.key.family ≠ 0 ∧ a.key.family ≠ 1 := by
  rw [Addr.key_family]
  split_ifs <;> decide

variable {buckets : Finset PrefixKey}

lemma StateOf.tail {a : Addr} {m : HeuristicIPMatcher N} {ms : List (HeuristicIPMatcher N)}
    {state : UInt8} (h : StateOf a (m :: ms) buckets state) : StateOf a ms buckets state := by
  rcases h with h | h | ⟨h₁, h₂, h₃⟩
  · exact .inl h
  · exact .inr (.inl h)
  · exact .inr (.inr ⟨h₁, h₂, fun m' hm' => h₃ m' (mem_cons_of_mem _ hm')⟩)

/-- One pass over the matchers finds out whether one of them accepts the address, and marks at
most the address's own bucket. -/
lemma anyMatchIP_spec {ip : NetIP} {a : Addr} (ha : N.fromStdIP ip = some a)
    (ms : List (HeuristicIPMatcher N)) (buckets : Finset PrefixKey) (ipx : Option Addr)
    (state : UInt8) (hrej : ∀ m ∈ ms, a.key ∈ buckets → state = 0 → m.heurKey a.key = true →
      m.matchAddr a = false) (hs : StateOf a ms buckets state) (hx : ipx = none ∨ ipx = some a) :
    ((anyMatchIP ip ms buckets ipx state).1 = true ↔ ∃ m ∈ ms, m.matchAddr a = true) ∧
      (anyMatchIP ip ms buckets ipx state).2 ⊆ insert a.key buckets := by
  induction ms generalizing buckets ipx state with
  | nil => simp [anyMatchIP]
  | cons m ms ih =>
    have hor : ipx.or (N.fromStdIP ip) = some a := by
      rcases hx with rfl | rfl <;> simp [ha]
    -- the state after the lookup, and what is known of the matchers in it
    obtain ⟨b', s', hlook, hsub, hs', hrej', hmem⟩ : ∃ b' s',
        (if state = 0 ∧ (m.heur .v4 = true ∨ m.heur .v6 = true) then
          (prefixKeyFromIP ip).map fun key =>
            if key ∈ buckets then (buckets, key.family) else (insert key buckets, 1)
        else some (buckets, state)) = some (b', s') ∧
        b' ⊆ insert a.key buckets ∧ StateOf a (m :: ms) b' s' ∧
        (∀ m ∈ ms, a.key ∈ b' → s' = 0 → m.heurKey a.key = true → m.matchAddr a = false) ∧
        insert a.key b' = insert a.key buckets := by
      split_ifs with hc
      · rw [prefixKeyFromIP_of_fromStdIP ha]
        by_cases hk : a.key ∈ buckets
        · refine ⟨buckets, a.key.family, by simp [hk], Finset.subset_insert _ _, ?_, ?_, rfl⟩
          · exact .inr (.inr ⟨rfl, hk, fun m' hm' => hrej m' hm' hk hc.1⟩)
          · exact fun _ _ _ h0 => absurd h0 (Addr.key_family_ne a).1
        · refine ⟨insert a.key buckets, 1, by simp [hk], subset_rfl, ?_, ?_, by simp⟩
          · exact .inr (.inl ⟨rfl, Finset.mem_insert_self _ _⟩)
          · exact fun _ _ _ h0 => absurd h0 (by decide)
      · exact ⟨buckets, state, rfl, Finset.subset_insert _ _, hs,
          fun m' hm' => hrej m' (mem_cons_of_mem _ hm'), rfl⟩
    simp only [anyMatchIP]
    rw [hlook]
    dsimp only
    split_ifs with hskip
    · -- the matcher decides by bucket and the bucket is a known one
      have hfam : s' = a.key.family ∧ m.matchAddr a = false := by
        rcases hs' with h0 | ⟨h1, _⟩ | ⟨h2, _, h3⟩
        · simp [h0] at hskip
        · simp [h1] at hskip
        · rw [h2, skip_iff_heurKey] at hskip
          exact ⟨h2, h3 m mem_cons_self hskip⟩
      obtain ⟨ih₁, ih₂⟩ := ih b' ipx s' hrej' hs'.tail hx
      exact ⟨by simp [ih₁, hfam.2], ih₂.trans hmem.le⟩
    · rw [hor]
      dsimp only
      split_ifs with hmatch
      · exact ⟨by simp [hmatch], hsub⟩
      · obtain ⟨ih₁, ih₂⟩ := ih b' (some a) s' hrej' hs'.tail (.inr rfl)
        exact ⟨by simp [ih₁, hmatch], ih₂.trans hmem.le⟩

lemma anyMatchLoop_iff
    (hb : ∀ m ∈ mm.matchers, m.Rejected buckets) (ips : List NetIP) :
    mm.anyMatchLoop buckets ips = true ↔ ∃ ip ∈ ips, ∃ m ∈ mm.matchers, m.matchIP ip = true := by
  induction ips generalizing buckets with
  | nil => simp [anyMatchLoop]
  | cons ip ips ih =>
    simp only [mem_cons, exists_eq_or_imp, anyMatchLoop]
    cases ha : N.fromStdIP ip with
    | none =>
      have hno : ¬ ∃ m ∈ mm.matchers, m.matchIP ip = true := by
        simp [HeuristicIPMatcher.matchIP, ha]
      rw [anyMatchIP_of_illegal ha]
      simp [ih hb, hno]
    | some a =>
      obtain ⟨h₁, h₂⟩ := anyMatchIP_spec ha mm.matchers buckets none 0
        (fun m hm hk _ => hb m hm a hk) (.inl rfl) (.inl rfl)
      have hm : ∀ m : HeuristicIPMatcher N, m.matchIP ip = m.matchAddr a := by
        intro m
        simp [HeuristicIPMatcher.matchIP, ha]
      simp only [hm]
      cases hr : anyMatchIP ip mm.matchers buckets none 0 with
      | mk r b =>
        rw [hr] at h₁ h₂
        cases r with
        | true => simp [h₁.mp rfl]
        | false =>
          have hno : ∀ m ∈ mm.matchers, m.matchAddr a = false := by
            intro m hmm
            by_contra hc
            have := h₁.mpr ⟨m, hmm, by simpa using hc⟩
            exact absurd this (by simp)
          have hb' : ∀ m ∈ mm.matchers, m.Rejected b := fun m hmm c hc hh =>
            (hb m hmm).insert (hno m hmm) c (h₂ hc) hh
          simp only [ih hb', ← h₁]
          simp

/-- `AnyMatch` holds when some matcher accepts some address of the list. -/
theorem anyMatch_iff (ips : List NetIP) :
    mm.anyMatch ips = true ↔ ∃ ip ∈ ips, ∃ m ∈ mm.matchers, m.matchIP ip = true := by
  unfold anyMatch
  split
  · simp
  · simp [matchIP_eq_true_iff]
  · exact mm.anyMatchLoop_iff (fun _ _ a ha => absurd ha (Finset.notMem_empty _)) _

end HeuristicMultiIPMatcher

/-! ### A list of matchers: `Matches` -/

def familyAddrs (f : Family) (as : List Addr) : List Addr :=
  as.filter fun a => a.family = f

/-- A bucket view of a list of addresses: each address has a representative of its bucket, and
each representative is one of the addresses. -/
def BucketsOf (as : List Addr) (buckets : GoMap PrefixKey Addr) : Prop :=
  (∀ a ∈ as, ∃ r, buckets.lookup a.key = some r) ∧
    ∀ k r, buckets.lookup k = some r → r ∈ as ∧ r.key = k

lemma bucketsOf_empty : BucketsOf [] ∅ :=
  ⟨fun a h => absurd h not_mem_nil, fun k r h => by simp at h⟩

variable {as : List Addr} {buckets : GoMap PrefixKey Addr}

lemma BucketsOf.known (h : BucketsOf as buckets) {a r : Addr} (hr : buckets.lookup a.key = some r) :
    BucketsOf (as ++ [a]) buckets := by
  refine ⟨fun b hb => ?_, fun k r' hr' => ?_⟩
  · rcases mem_append.mp hb with hb | hb
    · exact h.1 b hb
    · rw [mem_singleton.mp hb]
      exact ⟨r, hr⟩
  · exact ⟨mem_append_left _ (h.2 k r' hr').1, (h.2 k r' hr').2⟩

lemma BucketsOf.insert (h : BucketsOf as buckets) (a : Addr) :
    BucketsOf (as ++ [a]) (buckets.insert a.key a) := by
  refine ⟨fun b hb => ?_, fun k r hr => ?_⟩
  · rw [GoMap.lookup_insert_eq]
    split_ifs with hk
    · exact ⟨a, rfl⟩
    · rcases mem_append.mp hb with hb | hb
      · exact h.1 b hb
      · exact absurd (congrArg Addr.key (mem_singleton.mp hb)) hk
  · rw [GoMap.lookup_insert_eq] at hr
    split_ifs at hr with hk
    · cases hr
      exact ⟨by simp, hk.symm⟩
    · exact ⟨mem_append_left _ (h.2 k r hr).1, (h.2 k r hr).2⟩

/-- The views of a family are faithful to a list of addresses as far as they are built. -/
structure FamilyViews.Of (as : List Addr) (w : FamilyViews) : Prop where
  buckets : ∀ b, w.buckets = some b → BucketsOf as b
  precise : ∀ l, w.precise = some l → l = as

/-- While `fill` runs, the needed views of a family follow the addresses read so far and the
others are left alone. -/
structure FamilyViews.Filling (needHeur needPrec : Bool) (old : FamilyViews) (as : List Addr)
    (w : FamilyViews) : Prop where
  heur : needHeur = true → ∃ b, w.buckets = some b ∧ BucketsOf as b
  noHeur : needHeur = false → w.buckets = old.buckets
  prec : needPrec = true → w.precise = some as
  noPrec : needPrec = false → w.precise = old.precise

lemma FamilyViews.filling_make (heur : Bool) (w : FamilyViews) :
    FamilyViews.Filling (heur && w.buckets.isNone) (!heur && w.precise.isNone) w []
      (w.make heur) where
  heur h := ⟨∅, by simp [make, h], bucketsOf_empty⟩
  noHeur h := by simp [make, h]
  prec h := by simp [make, h]
  noPrec h := by simp [make, h]

variable {old w : FamilyViews}

lemma FamilyViews.Filling.addIP {needHeur needPrec : Bool}
    (h : Filling needHeur needPrec old as w) {a : Addr} (ha : N.fromStdIP ip = some a) :
    ∃ w', w.addIP N needHeur needPrec a.key ip = some w' ∧
      Filling needHeur needPrec old (as ++ [a]) w' := by
  -- the bucket half
  obtain ⟨w₁, ipx, hw₁, hx, hp₁, hh₁, hn₁⟩ : ∃ w₁ ipx,
      (if needHeur && ((w.buckets.getD ∅).lookup a.key).isNone then
        (N.fromStdIP ip).map fun ipx =>
          ({ w with buckets := some ((w.buckets.getD ∅).insert a.key ipx) }, some ipx)
      else some (w, none)) = some (w₁, ipx) ∧ ipx.or (N.fromStdIP ip) = some a ∧
      w₁.precise = w.precise ∧
      (needHeur = true → ∃ b, w₁.buckets = some b ∧ BucketsOf (as ++ [a]) b) ∧
      (needHeur = false → w₁.buckets = old.buckets) := by
    cases hneed : needHeur with
    | false => exact ⟨w, none, by simp, by simp [ha], rfl, by simp, fun _ => h.noHeur hneed⟩
    | true =>
      obtain ⟨b, hb, hof⟩ := h.heur hneed
      cases hl : b.lookup a.key with
      | none =>
        refine ⟨{ w with buckets := some (b.insert a.key a) }, some a, by simp [hb, hl, ha],
          by simp, rfl, fun _ => ⟨_, rfl, hof.insert a⟩, by simp⟩
      | some r =>
        exact ⟨w, none, by simp [hb, hl], by simp [ha], rfl, fun _ => ⟨b, hb, hof.known hl⟩,
          by simp⟩
  simp only [FamilyViews.addIP]
  rw [hw₁]
  cases hprec : needPrec with
  | false =>
    refine ⟨w₁, rfl, ⟨hh₁, hn₁, by simp, fun _ => ?_⟩⟩
    rw [hp₁, h.noPrec hprec]
  | true =>
    refine ⟨{ w₁ with precise := some (as ++ [a]) }, ?_, ⟨hh₁, hn₁, fun _ => rfl, by simp⟩⟩
    simp [hx, hp₁, h.prec hprec]

variable {ips : List NetIP}

lemma IPViews.fill_of_illegal (N : Netipx) (h4 p4 h6 p6 : Bool)
    (hill : ∃ ip ∈ ips, N.fromStdIP ip = none) (v : IPViews) : v.fill N h4 p4 h6 p6 ips = none := by
  induction ips generalizing v with
  | nil => simp at hill
  | cons ip ips ih =>
    cases ha : N.fromStdIP ip with
    | none => simp [fill, prefixKeyFromIP_of_illegal ha]
    | some a =>
      have hill' : ∃ ip ∈ ips, N.fromStdIP ip = none := by
        obtain ⟨ip', hip, hn⟩ := hill
        rcases mem_cons.mp hip with rfl | hip
        · rw [ha] at hn
          cases hn
        · exact ⟨ip', hip, hn⟩
      simp only [fill, prefixKeyFromIP_of_fromStdIP ha]
      split_ifs
      · simp [ih hill']
      · simp [ih hill']
      · rfl

/-- On legal addresses `fill` succeeds and builds the views it was asked for. -/
lemma IPViews.fill_spec {h4 p4 h6 p6 : Bool} {old : IPViews} (v : IPViews) (done : List Addr)
    (has : ips.map N.fromStdIP = as.map some)
    (hv4 : FamilyViews.Filling h4 p4 old.v4 (familyAddrs .v4 done) v.v4)
    (hv6 : FamilyViews.Filling h6 p6 old.v6 (familyAddrs .v6 done) v.v6) :
    ∃ v', v.fill N h4 p4 h6 p6 ips = some v' ∧
      FamilyViews.Filling h4 p4 old.v4 (familyAddrs .v4 (done ++ as)) v'.v4 ∧
      FamilyViews.Filling h6 p6 old.v6 (familyAddrs .v6 (done ++ as)) v'.v6 := by
  induction ips generalizing v done as with
  | nil =>
    cases as with
    | nil => exact ⟨v, rfl, by simpa using hv4, by simpa using hv6⟩
    | cons a as => simp at has
  | cons ip ips ih =>
    cases as with
    | nil => simp at has
    | cons a as =>
      simp only [map_cons, List.cons.injEq] at has
      obtain ⟨ha, has⟩ := has
      simp only [fill, prefixKeyFromIP_of_fromStdIP ha, Addr.key_family_eq_four_iff,
        Addr.key_family_eq_six_iff]
      rw [append_cons]
      cases hf : a.family with
      | v4 =>
        obtain ⟨w, hw, hfill⟩ := hv4.addIP ha
        simp only [hw]
        exact ih _ _ has (by simpa [familyAddrs, hf] using hfill)
          (by simpa [familyAddrs, hf] using hv6)
      | v6 =>
        obtain ⟨w, hw, hfill⟩ := hv6.addIP ha
        simp only [hw]
        exact ih _ _ has (by simpa [familyAddrs, hf] using hv4)
          (by simpa [familyAddrs, hf] using hfill)

def FamilyViews.Has (w : FamilyViews) (heur : Bool) : Prop :=
  if heur then w.buckets.isSome = true else w.precise.isSome = true

lemma FamilyViews.Filling.of {heur : Bool}
    (h : Filling (heur && old.buckets.isNone) (!heur && old.precise.isNone) old as w)
    (hold : old.Of as) : w.Of as where
  buckets b hb := by
    cases hneed : heur && old.buckets.isNone with
    | true =>
      obtain ⟨b', hb', hof⟩ := h.heur hneed
      rw [hb'] at hb
      cases hb
      exact hof
    | false => exact hold.buckets b (by rw [← h.noHeur hneed, hb])
  precise l hl := by
    cases hneed : !heur && old.precise.isNone with
    | true =>
      rw [h.prec hneed] at hl
      cases hl
      rfl
    | false => exact hold.precise l (by rw [← h.noPrec hneed, hl])

lemma FamilyViews.Filling.has {heur : Bool}
    (h : Filling (heur && old.buckets.isNone) (!heur && old.precise.isNone) old as w) :
    w.Has heur := by
  cases heur with
  | true =>
    cases hold : old.buckets with
    | none =>
      obtain ⟨b, hb, -⟩ := h.heur (by simp [hold])
      simp [Has, hb]
    | some b => simp [Has, h.noHeur (by simp [hold]), hold]
  | false =>
    cases hold : old.precise with
    | none => simp [Has, h.prec (by simp [hold])]
    | some l => simp [Has, h.noPrec (by simp [hold]), hold]

def IPViews.Of (as : List Addr) (v : IPViews) : Prop :=
  v.v4.Of (familyAddrs .v4 as) ∧ v.v6.Of (familyAddrs .v6 as)

lemma IPViews.ensureForMatcher_spec {v : IPViews}
    (has : ips.map N.fromStdIP = as.map some) (hv : v.Of as) (m : HeuristicIPMatcher N) :
    ∃ v', v.ensureForMatcher m ips = some v' ∧ v'.Of as ∧
      v'.v4.Has (m.heur .v4) ∧ v'.v6.Has (m.heur .v6) := by
  unfold ensureForMatcher
  dsimp only
  split_ifs with hneed
  · refine ⟨v, rfl, hv, ?_, ?_⟩
    · cases hh : m.heur .v4 <;> cases hb : v.v4.buckets <;> cases hp : v.v4.precise <;>
        simp_all [FamilyViews.Has]
    · cases hh : m.heur .v6 <;> cases hb : v.v6.buckets <;> cases hp : v.v6.precise <;>
        simp_all [FamilyViews.Has]
  · obtain ⟨v', hv', h4, h6⟩ := fill_spec ⟨v.v4.make (m.heur .v4), v.v6.make (m.heur .v6)⟩ [] has
      (FamilyViews.filling_make (m.heur .v4) v.v4) (FamilyViews.filling_make (m.heur .v6) v.v6)
    exact ⟨v', hv', ⟨h4.of hv.1, h6.of hv.2⟩, h4.has, h6.has⟩

lemma FamilyViews.allMatch_iff {f : Family}
    (hw : w.Of (familyAddrs f as)) (hhas : w.Has (m.heur f)) :
    w.allMatch (m.heur f) m = true ↔ ∀ a ∈ familyAddrs f as, m.matchAddr a = true := by
  cases hh : m.heur f with
  | false =>
    rw [hh] at hhas
    obtain ⟨l, hl⟩ := isSome_iff_exists.mp hhas
    simp [allMatch, hl, hw.precise l hl]
  | true =>
    rw [hh] at hhas
    obtain ⟨b, hb⟩ := isSome_iff_exists.mp hhas
    have hof := hw.buckets b hb
    have hkey : ∀ a ∈ familyAddrs f as, m.heurKey a.key = true := by
      intro a ha
      simp only [familyAddrs, mem_filter, decide_eq_true_eq] at ha
      rw [m.heurKey_key, ha.2, hh]
    simp only [allMatch, if_true, hb, all_entries_iff]
    constructor
    · intro h a ha
      obtain ⟨r, hr⟩ := hof.1 a ha
      rw [m.matchAddr_eq_of_key_eq (hof.2 _ r hr).2.symm (hkey a ha)]
      exact h _ r hr
    · intro h k r hr
      exact h r (hof.2 k r hr).1

namespace HeuristicMultiIPMatcher

variable {ips : List NetIP}

lemma matchesLoop_of_illegal (hill : ∃ ip ∈ ips, N.fromStdIP ip = none)
    (ms : List (HeuristicIPMatcher N)) : matchesLoop ips ms {} = false := by
  cases ms with
  | nil => rfl
  | cons m ms =>
    -- the first matcher needs a view of each family, so every address is read
    have hnone : IPViews.ensureForMatcher {} m ips = none := by
      unfold IPViews.ensureForMatcher
      dsimp only
      split_ifs with hneed
      · cases h4 : m.heur .v4 <;> simp [h4] at hneed
      · exact IPViews.fill_of_illegal N _ _ _ _ hill _
    simp [matchesLoop, hnone]

lemma matchesLoop_iff {as : List Addr}
    (has : ips.map N.fromStdIP = as.map some) (ms : List (HeuristicIPMatcher N)) {v : IPViews}
    (hv : v.Of as) : matchesLoop ips ms v = true ↔ ∃ m ∈ ms, ∀ a ∈ as, m.matchAddr a = true := by
  induction ms generalizing v with
  | nil => simp [matchesLoop]
  | cons m ms ih =>
    obtain ⟨v', hens, hof, h4, h6⟩ := IPViews.ensureForMatcher_spec has hv m
    have hsplit : (∀ a ∈ as, m.matchAddr a = true) ↔
        v'.v4.allMatch (m.heur .v4) m = true ∧ v'.v6.allMatch (m.heur .v6) m = true := by
      rw [FamilyViews.allMatch_iff m hof.1 h4, FamilyViews.allMatch_iff m hof.2 h6]
      simp only [familyAddrs, mem_filter, decide_eq_true_eq]
      constructor
      · exact fun h => ⟨fun a ha => h a ha.1, fun a ha => h a ha.1⟩
      · rintro ⟨h₁, h₂⟩ a ha
        cases h : a.family with
        | v4 => exact h₁ a ⟨ha, h⟩
        | v6 => exact h₂ a ⟨ha, h⟩
    simp only [matchesLoop, hens, mem_cons, exists_eq_or_imp, hsplit]
    split_ifs with h₁ h₂
    · rw [ih hof]
      simp only [Bool.not_eq_true'] at h₁
      simp [h₁]
    · simp only [Bool.not_eq_true', Bool.not_eq_false] at h₁
      simp [h₁, h₂]
    · rw [ih hof]
      simp [h₂]

lemma exists_addrs (h : ∀ ip ∈ ips, N.fromStdIP ip ≠ none) :
    ∃ as : List Addr, ips.map N.fromStdIP = as.map some := by
  induction ips with
  | nil => exact ⟨[], rfl⟩
  | cons ip ips ih =>
    obtain ⟨a, ha⟩ := ne_none_iff_exists'.mp (h ip mem_cons_self)
    obtain ⟨as, has⟩ := ih fun ip' hip => h ip' (mem_cons_of_mem _ hip)
    exact ⟨a :: as, by simp [ha, has]⟩

/-- `Matches` holds when the list is non-empty and one matcher accepts all of its addresses. -/
theorem matchesAll_iff (mm : HeuristicMultiIPMatcher N) (ips : List NetIP) :
    mm.matchesAll ips = true ↔ ips ≠ [] ∧ ∃ m ∈ mm.matchers, ∀ ip ∈ ips, m.matchIP ip = true := by
  unfold matchesAll
  split
  · simp
  · simp [matchIP_eq_true_iff]
  · next hnil _ =>
    have hne : ips ≠ [] := hnil
    rw [and_iff_right hne]
    by_cases hill : ∃ ip ∈ ips, N.fromStdIP ip = none
    · rw [matchesLoop_of_illegal hill]
      obtain ⟨ip, hip, hn⟩ := hill
      simp only [Bool.false_eq_true, false_iff, not_exists, not_and]
      intro m _ hall
      have := hall ip hip
      simp [HeuristicIPMatcher.matchIP, hn] at this
    · push Not at hill
      obtain ⟨as, has⟩ := exists_addrs hill
      have h0 : IPViews.Of as {} :=
        ⟨⟨fun b h => by simp at h, fun l h => by simp at h⟩,
          ⟨fun b h => by simp at h, fun l h => by simp at h⟩⟩
      rw [matchesLoop_iff has mm.matchers h0]
      have hmem : ∀ m : HeuristicIPMatcher N,
          (∀ a ∈ as, m.matchAddr a = true) ↔ ∀ ip ∈ ips, m.matchIP ip = true := by
        intro m
        constructor
        · intro h ip hip
          have : N.fromStdIP ip ∈ as.map some := has ▸ List.mem_map_of_mem hip
          obtain ⟨a, ha, hs⟩ := List.mem_map.mp this
          exact (m.matchIP_eq_true_iff ip).mpr ⟨a, hs.symm, h a ha⟩
        · intro h a ha
          have : some a ∈ ips.map N.fromStdIP := has ▸ List.mem_map_of_mem ha
          obtain ⟨ip, hip, hs⟩ := List.mem_map.mp this
          obtain ⟨b, hb, hmb⟩ := (m.matchIP_eq_true_iff ip).mp (h ip hip)
          rw [hs] at hb
          cases hb
          exact hmb
      simp only [hmem]

end HeuristicMultiIPMatcher

/-- The batch predicates agree with the per-address one, for one matcher and for a list of them:
deciding a whole /24 or /64 by one address never changes an answer. -/
theorem batch_predicates_agree (m : HeuristicIPMatcher N) (mm : HeuristicMultiIPMatcher N)
    (ips : List NetIP) :
    (m.anyMatch ips = true ↔ ∃ ip ∈ ips, ip.WellFormed ∧ m.matchIP ip = true) ∧
    (m.matchesAll ips = true ↔
      ips ≠ [] ∧ ∀ ip ∈ ips, ip.WellFormed ∧ m.matchIP ip = true) ∧
    (mm.anyMatch ips = true ↔ ∃ ip ∈ ips, ∃ m ∈ mm.matchers, m.matchIP ip = true) ∧
    (mm.matchesAll ips = true ↔
      ips ≠ [] ∧ ∃ m ∈ mm.matchers, ∀ ip ∈ ips, m.matchIP ip = true) := by
  have hwf : ∀ ip, (ip.WellFormed ∧ m.matchIP ip = true) ↔ m.matchIP ip = true :=
    fun ip => and_iff_right_of_imp m.wellFormed_of_matchIP
  simp only [hwf]
  exact ⟨m.anyMatch_iff ips, m.matchesAll_iff ips, mm.anyMatch_iff ips, mm.matchesAll_iff ips⟩

end BypassCore
