import BypassCore.Proxy.HTTPConnect.Basic

/-!
# Every carrier has one owner

The invariant of the carriers along every run, and what it says of the owner of an open carrier, of
the tunnel that closes its carrier, and of a handler that has been closed.
-/

namespace BypassCore.Proxy.HTTPConnect

open Lib Threads Multiset Option

variable {h h' : Handler} {t t' u : Thread} {k : ℕ} {s s' : State} {a : Action}

def Draining (s : State) (k : ℕ) : Prop :=
  k ∈ s.shared.closedConns ∨ ∃ t ∈ s.threads, t.shutdown = some k

structure Inv (s : State) : Prop where
  tokens : s.shared.released + slot s.shared.cached + total Thread.holds s.threads =
    Multiset.range s.shared.made
  released : ∀ k ∈ s.shared.released, k ∈ s.shared.closedConns
  made : ∀ k ∈ s.shared.everCached, k < s.shared.made
  cached : ∀ k, s.shared.cached = some k → k ∈ s.shared.everCached
  retired : ∀ k ∈ s.shared.retired, k ∈ s.shared.everCached
  draining : ∀ k ∈ s.shared.retired, Draining s k
  sound : ∀ t ∈ s.threads, t.Sound s.shared

lemma inv_newFromSettings (enableH2 : Bool) : Inv (newFromSettings enableH2) where
  tokens := rfl
  released := nofun
  made := nofun
  cached := nofun
  retired := nofun
  draining := nofun
  sound := List.forall_mem_nil _

namespace Inv

section

variable (hs : Inv s)
include hs

lemma nodup_holds : (total Thread.holds s.threads).Nodup := by
  have hnodup := nodup_range s.shared.made
  rw [← hs.tokens] at hnodup
  exact (nodup_add.mp hnodup).2.1

lemma lt_made_of_holds (ht : t ∈ s.threads) (hk : k ∈ t.holds) : k < s.shared.made := by
  rw [← Multiset.mem_range, ← hs.tokens]
  exact Multiset.mem_add.mpr (.inr (mem_total.mpr ⟨t, ht, hk⟩))

/-! ### The steps -/

lemma draining_advance {i : ℕ} (hi : s.threads[i]? = some t) (hm : Moves s.shared t h' t')
    (hk : k ∈ h'.retired) : Draining ⟨h', s.threads.set i t'⟩ k := by
  rcases retired_moves hm hk with hk | ⟨-, hk⟩
  · rcases hs.draining k hk with hclosed | ⟨u, hu, huk⟩
    · exact .inl (closedConns_moves hm hclosed)
    · by_cases hut : u = t
      · subst hut
        rcases shutdown_moves hm huk with ht' | hclosed
        · exact .inr ⟨t', mem_set_self hi t', ht'⟩
        · exact .inl hclosed
      · exact .inr ⟨u, mem_set_of_ne hi hu hut, huk⟩
  · exact .inr ⟨t', mem_set_self hi t', hk⟩

lemma advance {i : ℕ} (hi : s.threads[i]? = some t) (hm : Moves s.shared t h' t') :
    Inv ⟨h', s.threads.set i t'⟩ := by
  have ht := List.mem_of_getElem? hi
  refine ⟨?_, released_moves hm hs.released, ?_, cached_moves hm hs.cached, ?_, ?_, ?_⟩
  · rcases tokens_moves hm with ⟨hmade, htokens⟩ | ⟨hmade, htokens⟩
    · rw [hmade, ← hs.tokens]
      exact conserved_set (fun h : Handler => h.released + slot h.cached) hi htokens
    · have htotal := increased_set (fun h : Handler => h.released + slot h.cached) hi htokens
      refine htotal.trans ?_
      rw [hs.tokens, hmade, range_succ, Multiset.add_comm, singleton_add]
  · intro k hk
    have hle : s.shared.made ≤ h'.made := by
      rcases tokens_moves hm with ⟨hmade, -⟩ | ⟨hmade, -⟩ <;> omega
    rcases everCached_moves hm hk with hk | hk
    · exact Nat.lt_of_lt_of_le (hs.made k hk) hle
    · exact Nat.lt_of_lt_of_le (hs.lt_made_of_holds ht hk) hle
  · intro k hk
    rcases retired_moves hm hk with hk | ⟨hk, -⟩
    · exact everCached_mono hm (hs.retired k hk)
    · exact everCached_mono hm (hs.cached k hk)
  · intro k hk
    exact hs.draining_advance hi hm hk
  · refine forall_mem_set_others hi ?_ (sound_moves hm (hs.sound t ht) hs.cached hs.made)
    intro u hu
    refine (hs.sound u (List.mem_of_mem_eraseIdx hu)).kept (fun k => everCached_mono hm) ?_
      (closed_moves hm) (cached_none_moves hm)
    intro k huk hk
    rcases everCached_moves hm hk with hk | htk
    · exact hk
    · exact absurd huk (notMem_of_nodup_total hs.nodup_holds hi htk hu)

lemma spawn (hholds : t.holds = 0) (ht : t.Sound s.shared) : Inv (s.spawn t) where
  tokens := by
    rw [Config.spawn, total_concat, hholds, add_zero]
    exact hs.tokens
  released := hs.released
  made := hs.made
  cached := hs.cached
  retired := hs.retired
  draining := by
    intro k hk
    refine (hs.draining k hk).imp_right ?_
    rintro ⟨u, hu, huk⟩
    exact ⟨u, List.mem_append_left _ hu, huk⟩
  sound := forall_mem_concat hs.sound ht

lemma fail (k : ℕ) : Inv { s with shared := s.shared.closeConn k } where
  tokens := hs.tokens
  released := fun c hc => Finset.mem_insert_of_mem (hs.released c hc)
  made := hs.made
  cached := hs.cached
  retired := hs.retired
  draining := fun c hc => (hs.draining c hc).imp_left Finset.mem_insert_of_mem
  sound := fun t ht => (hs.sound t ht).kept (fun _ hc => hc) (fun _ _ hc => hc) id fun _ => id

end

end Inv

/-- The goroutine takes the carrier over from the call that starts it. -/
lemma shutdownRetiredHTTP2_eq_some (hstart : shutdownRetiredHTTP2 t = some (t', u)) :
    ∃ k, u = .shutting k ∧ t.shutdown = some k ∧ t.holds = {k} ∧ t'.holds = 0 ∧
      ∀ h, t.Sound h → t'.Sound h := by
  cases t with
  | launching k kept =>
    cases kept with
    | none =>
      cases hstart
      exact ⟨k, rfl, rfl, rfl, rfl, fun _ ht => ht⟩
    | some kept =>
      cases hstart
      exact ⟨k, rfl, rfl, rfl, rfl, fun _ ht => ht⟩
  | _ => cases hstart

namespace Inv

lemma launch (hs : Inv s) {i : ℕ} (hi : s.threads[i]? = some t)
    (hstart : shutdownRetiredHTTP2 t = some (t', u)) :
    Inv ⟨s.shared, s.threads.set i t' ++ [u]⟩ := by
  obtain ⟨k, rfl, hshutdown, hholds, hholds', hsound⟩ := shutdownRetiredHTTP2_eq_some hstart
  refine ⟨?_, hs.released, hs.made, hs.cached, hs.retired, ?_, ?_⟩
  · rw [← hs.tokens, total_concat, total_set hi, total_pick hi, hholds, hholds', zero_add,
      add_comm (total _ _)]
    rfl
  · intro c hc
    refine (hs.draining c hc).imp_right ?_
    rintro ⟨w, hw, hwc⟩
    by_cases hwt : w = t
    · subst hwt
      exact ⟨.shutting k, List.mem_append_right _ (List.mem_singleton_self _),
        hshutdown.symm.trans hwc⟩
    · exact ⟨w, List.mem_append_left _ (mem_set_of_ne hi hw hwt), hwc⟩
  · refine forall_mem_concat ?_ trivial
    exact forall_mem_set hs.sound (fun _ _ hu => hu)
      (hsound _ (hs.sound t (List.mem_of_getElem? hi))) i

lemma step (hs : Inv s) (hstep : HTTPConnect.step s a = some s') : Inv s' := by
  cases a with
  | dial | close =>
    cases hstep
    exact hs.spawn rfl trivial
  | fail k =>
    simp only [HTTPConnect.step] at hstep
    split_ifs at hstep
    cases hstep
    exact hs.fail k
  | advance i answer =>
    rw [HTTPConnect.step] at hstep
    obtain ⟨t, h', t', hi, hexec, rfl⟩ := Config.advance_eq_some hstep
    exact hs.advance hi (moves_of_exec hexec)
  | launch i =>
    obtain ⟨t, t', u, hi, hstart, rfl⟩ := Config.fork_eq_some hstep
    exact hs.launch hi hstart

end Inv

/-! ### Owners -/

/-- Who may own a carrier: a call, a tunnel or a `Close` is known by its thread. -/
inductive Owner where
  | dial (i : ℕ)
  | cache
  | retired
  | tunnel (i : ℕ)
  /-- A `Close` that has taken the carrier out of the cache. -/
  | close (i : ℕ)

def Owns (s : State) : Owner → ℕ → Prop
  | .dial i, k => ∃ t, s.threads[i]? = some t ∧ t.dialing = some k
  | .cache, k => s.shared.cached = some k
  -- The retired set or the pending shutdown.
  | .retired, k => k ∈ s.shared.retired ∨ ∃ t ∈ s.threads, t.shutdown = some k
  | .tunnel i, k => s.threads[i]? = some (.tunnel k true)
  | .close i, k => ∃ retired, s.threads[i]? = some (.closingAll retired (some k))

def Thread.owner (i : ℕ) : Thread → Owner
  | .launching _ _ | .shutting _ | .forcing _ => .retired
  | .tunnel _ _ => .tunnel i
  | .closingAll _ _ => .close i
  | _ => .dial i

variable {i : ℕ}

lemma owns_of_holds (hi : s.threads[i]? = some t) (hk : k ∈ t.holds) : Owns s (t.owner i) k := by
  have ht := List.mem_of_getElem? hi
  cases t with
  | closingStale | handshaking | connectingHTTP1 | initializing | connectingHTTP2 | caching
  | discarding | aborting =>
    rw [mem_singleton.mp hk]
    exact ⟨_, hi, rfl⟩
  | launching | shutting | forcing =>
    rw [mem_singleton.mp hk]
    exact .inr ⟨_, ht, rfl⟩
  | tunnel c closeRaw =>
    cases closeRaw with
    | true =>
      rw [mem_singleton.mp hk]
      exact hi
    | false => exact absurd hk (notMem_zero _)
  | closingAll retired cached =>
    rw [mem_slot.mp hk] at hi
    exact ⟨retired, hi⟩
  | _ => exact absurd hk (notMem_zero _)

lemma holds_of_dialing (hk : t.dialing = some k) : k ∈ t.holds ∧ t.owner i = .dial i := by
  cases t with
  | closingStale | handshaking | connectingHTTP1 | initializing | connectingHTTP2 | caching
  | discarding | aborting =>
    rw [← some.inj hk]
    exact ⟨mem_singleton_self _, rfl⟩
  | _ => exact absurd hk nofun

lemma holds_of_shutdown (hk : t.shutdown = some k) : k ∈ t.holds ∧ t.owner i = .retired := by
  cases t with
  | launching | shutting | forcing =>
    rw [← some.inj hk]
    exact ⟨mem_singleton_self _, rfl⟩
  | _ => exact absurd hk nofun

namespace Inv

/-- The owner of an open carrier is the cache or a thread that holds it. -/
lemma holds_of_owns (hs : Inv s) (hopen : k ∉ s.shared.closedConns) {o : Owner} (ho : Owns s o k) :
    (o = .cache ∧ s.shared.cached = some k) ∨
      ∃ (i : ℕ) (t : Thread), s.threads[i]? = some t ∧ k ∈ t.holds ∧ t.owner i = o := by
  cases o with
  | dial i =>
    obtain ⟨t, hi, hk⟩ := ho
    exact .inr ⟨i, t, hi, holds_of_dialing hk⟩
  | cache => exact .inl ⟨rfl, ho⟩
  | retired =>
    have hpending : ∃ t ∈ s.threads, t.shutdown = some k := by
      rcases ho with hk | hpending
      · exact (hs.draining k hk).resolve_left hopen
      · exact hpending
    obtain ⟨t, ht, hk⟩ := hpending
    obtain ⟨i, hi⟩ := List.mem_iff_getElem?.mp ht
    exact .inr ⟨i, t, hi, holds_of_shutdown hk⟩
  | tunnel i => exact .inr ⟨i, _, ho, mem_singleton_self _, rfl⟩
  | close i =>
    obtain ⟨retired, hi⟩ := ho
    exact .inr ⟨i, _, hi, mem_singleton_self _, rfl⟩

lemma notMem_of_cached (hs : Inv s) (hk : s.shared.cached = some k) (ht : t ∈ s.threads) :
    k ∉ t.holds := by
  intro htk
  have hnodup := nodup_range s.shared.made
  rw [← hs.tokens] at hnodup
  have hdisjoint := (nodup_add.mp hnodup).2.2
  refine disjoint_left.mp hdisjoint ?_ (mem_total.mpr ⟨t, ht, htk⟩)
  exact Multiset.mem_add.mpr (.inr (mem_slot.mpr hk))

lemma held (hs : Inv s) (hk : k < s.shared.made) :
    k ∈ s.shared.closedConns ∨ s.shared.cached = some k ∨
      ∃ (i : ℕ) (t : Thread), s.threads[i]? = some t ∧ k ∈ t.holds := by
  rw [← Multiset.mem_range, ← hs.tokens, Multiset.mem_add, Multiset.mem_add] at hk
  rcases hk with (hk | hk) | hk
  · exact .inl (hs.released k hk)
  · exact .inr (.inl (mem_slot.mp hk))
  · obtain ⟨t, ht, htk⟩ := mem_total.mp hk
    obtain ⟨i, hi⟩ := List.mem_iff_getElem?.mp ht
    exact .inr (.inr ⟨i, t, hi, htk⟩)

lemma existsUnique_owner (hs : Inv s) (hk : k < s.shared.made)
    (hopen : k ∉ s.shared.closedConns) : ∃! o, Owns s o k := by
  rcases hs.held hk with hclosed | hcached | ⟨i, t, hi, htk⟩
  · exact absurd hclosed hopen
  · refine ⟨.cache, hcached, ?_⟩
    intro o ho
    rcases hs.holds_of_owns hopen ho with ⟨rfl, -⟩ | ⟨i, t, hi, htk, -⟩
    · rfl
    · exact absurd htk (hs.notMem_of_cached hcached (List.mem_of_getElem? hi))
  · refine ⟨t.owner i, owns_of_holds hi htk, ?_⟩
    intro o ho
    rcases hs.holds_of_owns hopen ho with ⟨-, hcached⟩ | ⟨j, u, hj, huk, rfl⟩
    · exact absurd htk (hs.notMem_of_cached hcached (List.mem_of_getElem? hi))
    · obtain rfl := index_eq_of_nodup_total hs.nodup_holds hi hj htk huk
      rw [some.inj (hi.symm.trans hj)]

end Inv

/-- The connection on which a thread has a tunnel or asks for one. -/
def Thread.uses : Thread → Option ℕ
  | .requesting k | .connectingHTTP1 k | .connectingHTTP2 k | .caching k | .launching _ (some k)
  | .tunnel k _ => some k
  | _ => none

structure Private (s : State) (i k : ℕ) : Prop where
  owns : Owns s (.tunnel i) k
  uncached : s.shared.cached ≠ some k
  notRetired : k ∉ s.shared.retired
  alone : ∀ j u, s.threads[j]? = some u → u.uses = some k → j = i

lemma Thread.Sound.shared_or_holds (hu : u.Sound h) (hk : u.uses = some k) :
    k ∈ h.everCached ∨ k ∈ u.holds := by
  cases u with
  | requesting c =>
    rw [← some.inj hk]
    exact .inl hu
  | connectingHTTP1 | connectingHTTP2 | caching =>
    rw [← some.inj hk]
    exact .inr (mem_singleton_self _)
  | launching c kept =>
    cases kept with
    | none => exact absurd hk nofun
    | some kept =>
      rw [← some.inj hk]
      exact .inl hu
  | tunnel c closeRaw =>
    rw [← some.inj hk]
    cases closeRaw with
    | true => exact .inr (mem_singleton_self _)
    | false => exact .inl hu
  | _ => exact absurd hk nofun

lemma Inv.private_of_tunnel (hs : Inv s) (hi : s.threads[i]? = some (.tunnel k true)) :
    Private s i k := by
  have hown : k ∉ s.shared.everCached := hs.sound _ (List.mem_of_getElem? hi)
  refine ⟨hi, fun hk => hown (hs.cached k hk), fun hk => hown (hs.retired k hk), ?_⟩
  intro j u hj huses
  rcases (hs.sound u (List.mem_of_getElem? hj)).shared_or_holds huses with hk | hk
  · exact absurd hk hown
  · exact (index_eq_of_nodup_total hs.nodup_holds hi hj (mem_singleton_self _) hk).symm

lemma closedConns_tunnel {closeRaw : Bool} {answer : Answer}
    (hi : s.threads[i]? = some (.tunnel k closeRaw))
    (hstep : step s (.advance i answer) = some s') :
    s'.shared.closedConns =
      if closeRaw then insert k s.shared.closedConns else s.shared.closedConns := by
  rw [step] at hstep
  obtain ⟨t, h', t', ht, hexec, rfl⟩ := Config.advance_eq_some hstep
  rw [← some.inj (hi.symm.trans ht)] at hexec
  cases closeRaw <;> cases hexec <;> rfl

def Thread.Settled : Thread → Prop
  | .failed | .tunnel _ _ | .tunnelClosed | .removed | .closeReturned | .closeSkipped => True
  | _ => False

lemma Thread.Settled.eq_tunnel (ht : t.Settled) (hk : k ∈ t.holds) : t = .tunnel k true := by
  cases t with
  | tunnel c closeRaw =>
    cases closeRaw with
    | true => rw [mem_singleton.mp hk]
    | false => exact absurd hk (notMem_zero _)
  | failed | tunnelClosed | removed | closeReturned | closeSkipped =>
    exact absurd hk (notMem_zero _)
  | _ => exact ht.elim

lemma Inv.closed_or_private (hs : Inv s) (hreturned : .closeReturned ∈ s.threads)
    (hsettled : ∀ t ∈ s.threads, t.Settled) (hk : k < s.shared.made) :
    k ∈ s.shared.closedConns ∨ ∃ i : ℕ, s.threads[i]? = some (.tunnel k true) := by
  rcases hs.held hk with hclosed | hcached | ⟨i, t, hi, htk⟩
  · exact .inl hclosed
  · exact absurd ((hs.sound _ hreturned).2.symm.trans hcached) nofun
  · rw [(hsettled t (List.mem_of_getElem? hi)).eq_tunnel htk] at hi
    exact .inr ⟨i, hi⟩

lemma inv_of_run {enableH2 : Bool} {actions : List Action}
    (hrun : run step (newFromSettings enableH2) actions = some s) : Inv s :=
  run_invariant (fun _ _ _ hs => hs.step) (inv_newFromSettings enableH2) hrun

/-- Whatever the interleaving, an open carrier has one owner; a tunnel closes its carrier only if it
has it for itself; and when `Close` and all other calls have returned, a carrier is closed or has
the one tunnel that is open on it. -/
theorem carriers_owned {enableH2 : Bool} {actions : List Action}
    (hrun : run step (newFromSettings enableH2) actions = some s) :
    (∀ k < s.shared.made, k ∉ s.shared.closedConns → ∃! o, Owns s o k) ∧
    (∀ i k closeRaw answer s', s.threads[i]? = some (.tunnel k closeRaw) →
      step s (.advance i answer) = some s' →
      s'.shared.closedConns =
          (if closeRaw then insert k s.shared.closedConns else s.shared.closedConns) ∧
        (closeRaw = true → Private s i k)) ∧
    (.closeReturned ∈ s.threads → (∀ t ∈ s.threads, t.Settled) →
      ∀ k < s.shared.made, k ∈ s.shared.closedConns ∨ ∃ i, Owns s (.tunnel i) k) := by
  have hs := inv_of_run hrun
  refine ⟨fun k => hs.existsUnique_owner, ?_, fun hret hset k => hs.closed_or_private hret hset⟩
  intro i k closeRaw answer s' hi hstep
  refine ⟨closedConns_tunnel hi hstep, ?_⟩
  rintro rfl
  exact hs.private_of_tunnel hi

/-- Two calls connect at once, and the second keeps its carrier for itself. The one in the cache is
found stale by a third call, and `Close` takes it before its shutdown has been started. -/
def racing : List Action :=
  [.dial, .dial,
    .advance 0 .ok, .advance 1 .ok, .advance 0 .ok, .advance 1 .ok, .advance 0 .ok, .advance 1 .ok,
    .advance 0 .h2, .advance 0 .ok, .advance 0 .ok, .advance 1 .h2, .advance 1 .ok, .advance 1 .ok,
    .advance 0 .ok, .advance 1 .ok,
    .dial, .advance 2 .ok, .advance 2 .stale, .advance 2 .ok,
    .close, .advance 3 .ok, .advance 3 .ok,
    .launch 2, .advance 3 (.carrier 0), .advance 3 .ok,
    .advance 4 .error, .advance 4 .ok, .advance 4 .ok, .advance 2 .error, .advance 0 .ok]

theorem carriers_owned_racing :
    ∃ s, run step (newFromSettings true) racing = some s ∧
      s.threads = [.tunnelClosed, .tunnel 1 true, .failed, .closeReturned, .removed] ∧
      0 ∈ s.shared.closedConns ∧ (∃! o, Owns s o 1) ∧
      (1 ∈ s.shared.closedConns ∨ ∃ i, Owns s (.tunnel i) 1) := by
  obtain ⟨howner, -, hclose⟩ :=
    carriers_owned (show run step (newFromSettings true) racing = some _ from rfl)
  have hsettled : ∀ t ∈ [.tunnelClosed, .tunnel 1 true, .failed, .closeReturned, .removed],
      Thread.Settled t := by simp [Thread.Settled]
  exact ⟨_, rfl, rfl, by decide, howner 1 (by decide) (by decide),
    hclose (by decide) hsettled 1 (by decide)⟩

/-- A carrier is cached, and `Close` has been through its critical section. -/
def taken : List Action :=
  [.dial, .advance 0 .ok, .advance 0 .ok, .advance 0 .ok, .advance 0 .h2, .advance 0 .ok,
    .advance 0 .ok, .advance 0 .ok, .close, .advance 1 .ok, .advance 1 .ok]

/-- Between its critical section and its calls of `conn.Close`, `Close` is the only owner of the
carrier that was in the cache. -/
theorem close_owns :
    ∃ s, run step (newFromSettings true) taken = some s ∧ 0 < s.shared.made ∧
      0 ∉ s.shared.closedConns ∧ ∀ o, Owns s o 0 → ∃ i, o = .close i := by
  have hinv := inv_of_run (show run step (newFromSettings true) taken = some _ from rfl)
  refine ⟨_, rfl, by decide, by decide, ?_⟩
  intro o ho
  exact ⟨1, (hinv.existsUnique_owner (by decide) (by decide)).unique ho ⟨∅, rfl⟩⟩

end BypassCore.Proxy.HTTPConnect
