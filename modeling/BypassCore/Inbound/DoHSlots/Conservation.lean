import BypassCore.Inbound.DoHSlots.Basic

/-!
# The slots are conserved

A slot that was taken has been given back, or a thread holds it, or it is the lease of a connection.
A channel holds as many tokens as slots of it are out. A connection has one thread, so it is not
registered twice, and once its callbacks are done it has no slot.
-/

namespace BypassCore.Inbound.DoHSlots

open Lib Threads Multiset Option Thread Listener DoHSlots

variable {l l' : Listener} {t t' : Thread} {s s' : State} {a : Action} {token : Token} {ch : ℕ}

def Thread.held : Thread → Multiset Token
  | .registering c slots | .givingBack c slots | .leaving c slots => {⟨.doh, c, slots⟩}
  | .tracking c slots | .returning c slots | .serving c slots | .untracking c slots
  | .finishing c slots => {⟨.tcp, c, slots⟩}
  | .opened _ | .choosing _ _ | .reported _ | .ended _ | .gone _ | .accepted _ | .picking _ _
  | .finished _ | .stopping | .sweeping | .waiting | .clearing | .stopped => 0

def leaseTokens (leases : GoMap ℕ ℕ) : Multiset Token :=
  ↑(leases.entries.map fun e => (⟨.doh, e.1, e.2⟩ : Token))

def Listener.leases (l : Listener) : Multiset Token := l.dohConns.elim 0 leaseTokens

def outstanding (s : State) : Multiset Token := s.shared.leases + total held s.threads

variable {leases : GoMap ℕ ℕ}

lemma leaseTokens_insert {c : ℕ} (h : leases.lookup c = none) (slots : ℕ) :
    leaseTokens (leases.insert c slots) = leaseTokens leases + {⟨.doh, c, slots⟩} := by
  rw [leaseTokens, AList.entries_insert_of_notMem (AList.lookup_eq_none.mp h), List.map_cons,
    ← cons_coe, Multiset.add_comm]
  rfl

lemma leaseTokens_erase {c slots : ℕ} (h : leases.lookup c = some slots) :
    leaseTokens leases = leaseTokens (leases.erase c) + {⟨.doh, c, slots⟩} := by
  rw [leaseTokens, coe_eq_coe.mpr ((GoMap.entries_erase_perm h).map _), List.map_cons, ← cons_coe,
    Multiset.add_comm]
  rfl

lemma leases_of_some (h : l.dohConns = some leases) : l.leases = leaseTokens leases := by
  rw [Listener.leases, h]
  rfl

lemma mem_leases_iff : token ∈ l.leases ↔ token.transport = .doh ∧
    ∃ leases, l.dohConns = some leases ∧ leases.lookup token.conn = some token.slots := by
  obtain ⟨transport, c, slots⟩ := token
  cases hl : l.dohConns with
  | none => simp [leases, hl]
  | some leases =>
    rw [leases_of_some hl, leaseTokens, mem_coe, List.mem_map]
    constructor
    · rintro ⟨e, he, heq⟩
      cases heq
      exact ⟨rfl, leases, rfl, GoMap.lookup_eq_some_iff.mpr he⟩
    · rintro ⟨rfl, leases', hl', hc⟩
      cases hl'
      exact ⟨⟨c, slots⟩, GoMap.lookup_eq_some_iff.mp hc, rfl⟩

/-! ### Channel operations -/

def Listener.lenAt (l : Listener) (ch : ℕ) : ℕ := l.channels[ch]?.elim 0 Channel.len

lemma acquire_eq_some (h : l.acquire token = some l') : ∃ channel,
    l.channels[token.slots]? = some channel ∧ channel.len < channel.capacity ∧
      l' = { l with
        channels := l.channels.set token.slots { channel with len := channel.len + 1 }
        acquired := token ::ₘ l.acquired } := by
  obtain ⟨channel, hch, h⟩ := bind_eq_some_iff.mp h
  split_ifs at h with hroom
  cases h
  exact ⟨channel, hch, hroom, rfl⟩

lemma giveBack_eq_some (h : l.giveBack token = some l') : ∃ channel,
    l.channels[token.slots]? = some channel ∧ 0 < channel.len ∧
      l' = { l with
        channels := l.channels.set token.slots { channel with len := channel.len - 1 }
        returned := token ::ₘ l.returned } := by
  obtain ⟨channel, hch, h⟩ := bind_eq_some_iff.mp h
  split_ifs at h with hpos
  cases h
  exact ⟨channel, hch, hpos, rfl⟩

lemma tokens_acquire (h : l.acquire token = some l') :
    l'.acquired = l.acquired + {token} ∧ l'.returned = l.returned ∧ l'.leases = l.leases := by
  obtain ⟨channel, -, -, rfl⟩ := acquire_eq_some h
  refine ⟨?_, rfl, rfl⟩
  rw [← singleton_add, Multiset.add_comm]

lemma tokens_giveBack (h : l.giveBack token = some l') :
    l'.acquired = l.acquired ∧ l'.returned = l.returned + {token} ∧ l'.leases = l.leases := by
  obtain ⟨channel, -, -, rfl⟩ := giveBack_eq_some h
  refine ⟨rfl, ?_, rfl⟩
  rw [← singleton_add, Multiset.add_comm]

/-- What a step adds to the slots taken, it adds to those given back or out. -/
lemma tokens_moves (h : Moves l t l' t')
    (hfresh : ∀ c slots leases, t = .registering c slots → l.dohConns = some leases →
      leases.lookup c = none) :
    ∃ added, l'.acquired = l.acquired + added ∧
      l'.returned + l'.leases + t'.held = l.returned + l.leases + t.held + added := by
  cases h with
  | takes h | picks h =>
    obtain ⟨hacquired, hreturned, hleases⟩ := tokens_acquire h
    refine ⟨_, hacquired, ?_⟩
    simp only [hreturned, hleases, held, add_zero]
  | returns h | leaves h | returnsTCP h | finishes h =>
    obtain ⟨hacquired, hreturned, hleases⟩ := tokens_giveBack h
    refine ⟨0, by rw [hacquired, add_zero], ?_⟩
    simp only [hreturned, hleases, held, add_zero]
    exact add_right_comm _ _ _
  | registers h =>
    refine ⟨0, (add_zero _).symm, ?_⟩
    rw [leases_of_some h, leases_of_some rfl, leaseTokens_insert (hfresh _ _ _ rfl h)]
    simp only [held, add_assoc]
  | unregisters h hc =>
    refine ⟨0, (add_zero _).symm, ?_⟩
    rw [leases_of_some h, leases_of_some rfl, leaseTokens_erase hc]
    simp only [held, add_zero, add_assoc]
  | sweeps h hc hl =>
    obtain ⟨hacquired, hreturned, -⟩ := tokens_giveBack hl
    refine ⟨0, by rw [add_zero]; exact hacquired, ?_⟩
    rw [leases_of_some h, leases_of_some rfl, leaseTokens_erase hc, hreturned]
    simp only [held, add_zero]
    rw [add_right_comm, add_assoc]
  | swept h =>
    refine ⟨0, (add_zero _).symm, ?_⟩
    have hleases : l.leases = 0 := by
      cases hl : l.dohConns with
      | none =>
        rw [leases, hl]
        rfl
      | some leases =>
        rw [leases_of_some hl, leaseTokens, h leases hl]
        rfl
    simp only [hleases, add_zero]
    exact add_zero _
  | _ => exact ⟨0, (add_zero _).symm, (add_zero _).symm⟩

lemma lenAt_set (i : ℕ) {channel : Channel} (h : l.channels[i]? = some channel)
    (channel' : Channel) (acquired returned : Multiset Token) (ch : ℕ) :
    ({ l with channels := l.channels.set i channel', acquired, returned } : Listener).lenAt ch =
      if i = ch then channel'.len else l.lenAt ch := by
  have hi := (List.getElem?_eq_some_iff.mp h).1
  simp only [lenAt, List.getElem?_set]
  split_ifs <;> rfl

/-- A channel holds as many tokens as slots of it have been taken and not given back, and no more
than it has room for. -/
structure Filled (l : Listener) : Prop where
  len : ∀ ch, l.lenAt ch + l.returned.countP (·.slots = ch) = l.acquired.countP (·.slots = ch)
  capacity : ∀ channel ∈ l.channels, channel.len ≤ channel.capacity

lemma Filled.acquire (h : Filled l) (ha : l.acquire token = some l') : Filled l' := by
  obtain ⟨channel, hch, hroom, rfl⟩ := acquire_eq_some ha
  refine ⟨?_, ?_⟩
  · intro ch
    have hlen := h.len ch
    rw [lenAt_set _ hch, countP_cons]
    split_ifs with heq
    · subst heq
      rw [lenAt, hch, elim_some] at hlen
      dsimp only
      omega
    · exact hlen
  · exact forall_mem_set h.capacity (fun _ _ hu => hu) (Nat.succ_le_of_lt hroom) _

lemma Filled.giveBack (h : Filled l) (ha : l.giveBack token = some l') : Filled l' := by
  obtain ⟨channel, hch, hpos, rfl⟩ := giveBack_eq_some ha
  refine ⟨?_, ?_⟩
  · intro ch
    have hlen := h.len ch
    rw [lenAt_set _ hch, countP_cons]
    split_ifs with heq
    · subst heq
      rw [lenAt, hch, elim_some] at hlen
      dsimp only
      omega
    · exact hlen
  · have hcap := h.capacity channel (List.mem_of_getElem? hch)
    exact forall_mem_set h.capacity (fun _ _ hu => hu) ((Nat.sub_le _ _).trans hcap) _

lemma Filled.moves (h : Filled l) (hm : Moves l t l' t') : Filled l' := by
  cases hm with
  | takes ha | picks ha => exact h.acquire ha
  | returns ha | leaves ha | returnsTCP ha | finishes ha => exact h.giveBack ha
  | sweeps _ _ ha => exact ⟨(h.giveBack ha).len, (h.giveBack ha).capacity⟩
  | _ => exact ⟨h.len, h.capacity⟩

lemma Filled.install (h : Filled l) (capacity : ℕ) (tcpSlots : Option ℕ) :
    Filled { l with channels := l.channels ++ [⟨capacity, 0⟩], tcpSlots } := by
  refine ⟨?_, forall_mem_concat h.capacity (Nat.zero_le _)⟩
  intro ch
  rw [← h.len ch]
  simp only [lenAt, List.getElem?_append]
  split_ifs with hlt
  · rfl
  · rw [List.getElem?_eq_none (Nat.not_lt.mp hlt)]
    cases ch - l.channels.length <;> rfl

/-! ### Leases and threads -/

/-- Whether `Close` has set `dohConns` to nil. -/
def Thread.Past : Thread → Prop
  | .waiting | .clearing | .stopped => True
  | _ => False

lemma dohConns_acquire (h : l.acquire token = some l') : l'.dohConns = l.dohConns := by
  obtain ⟨channel, -, -, rfl⟩ := acquire_eq_some h
  rfl

lemma dohConns_giveBack (h : l.giveBack token = some l') : l'.dohConns = l.dohConns := by
  obtain ⟨channel, -, -, rfl⟩ := giveBack_eq_some h
  rfl

section

variable (hm : Moves l t l' t')
include hm

lemma dohConns_moves (h : l.dohConns = none) : l'.dohConns = none := by
  cases hm with
  | takes ha | picks ha => rw [dohConns_acquire ha, h]
  | returns ha | leaves ha | returnsTCP ha | finishes ha => rw [dohConns_giveBack ha, h]
  | registers hl | unregisters hl | sweeps hl => exact absurd (h.symm.trans hl) nofun
  | swept => rfl
  | _ => exact h

lemma past_moves (h : t.Past → l.dohConns = none) (ht' : t'.Past) : l'.dohConns = none := by
  cases hm with
  | swept => rfl
  | waits | clears => exact h trivial
  | _ => exact ht'.elim

lemma conn_moves : t'.conn = t.conn := by
  cases hm <;> rfl

lemma seen_moves : l'.seen = l.seen := by
  cases hm with
  | takes ha | picks ha =>
    obtain ⟨channel, -, -, rfl⟩ := acquire_eq_some ha
    rfl
  | returns ha | leaves ha | returnsTCP ha | finishes ha | sweeps _ _ ha =>
    obtain ⟨channel, -, -, rfl⟩ := giveBack_eq_some ha
    rfl
  | _ => rfl

end

/-- A registered connection has reported `StateNew` and its lease is still looked for. -/
def Registered (s : State) : Prop :=
  ∀ leases c slots, s.shared.dohConns = some leases → leases.lookup c = some slots →
    .reported c ∈ s.threads ∨ .ended c ∈ s.threads

/-- A step of another thread leaves the thread of a registered connection. -/
lemma mem_of_other {threads : List Thread} {i c : ℕ} (hi : threads[i]? = some t)
    (h : .reported c ∈ threads ∨ .ended c ∈ threads) (hr : t ≠ .reported c) (he : t ≠ .ended c) :
    .reported c ∈ threads.set i t' ∨ .ended c ∈ threads.set i t' := by
  rcases h with h | h
  · exact .inl (mem_set_of_ne hi h hr.symm)
  · exact .inr (mem_set_of_ne hi h he.symm)

lemma Registered.advance (h : Registered s) {i : ℕ} (hi : s.threads[i]? = some t)
    (hm : Moves s.shared t l' t') : Registered ⟨l', s.threads.set i t'⟩ := by
  intro leases c slots hl hc
  cases hm with
  | takes ha | picks ha =>
    rw [dohConns_acquire ha] at hl
    exact mem_of_other hi (h leases c slots hl hc) nofun nofun
  | returns ha | leaves ha | returnsTCP ha | finishes ha =>
    rw [dohConns_giveBack ha] at hl
    exact mem_of_other hi (h leases c slots hl hc) nofun nofun
  | @registers c' slots' leases' hold =>
    cases hl
    rw [GoMap.lookup_insert_eq] at hc
    split_ifs at hc with heq
    · subst heq
      exact .inl (mem_set_self hi _)
    · exact mem_of_other hi (h leases' c slots hold hc) nofun nofun
  | @unregisters c' slots' leases' hold =>
    cases hl
    rw [GoMap.lookup_erase_eq] at hc
    split_ifs at hc with heq
    refine mem_of_other hi (h leases' c slots hold hc) nofun ?_
    intro hended
    cases hended
    exact heq rfl
  | @sweeps c' slots' leases' l'' hold =>
    cases hl
    rw [GoMap.lookup_erase_eq] at hc
    split_ifs at hc
    exact mem_of_other hi (h leases' c slots hold hc) nofun nofun
  | swept => cases hl
  | @ends c' =>
    by_cases heq : c' = c
    · subst heq
      exact .inr (mem_set_self hi _)
    · refine mem_of_other hi (h leases c slots hl hc) ?_ nofun
      intro hreported
      cases hreported
      exact heq rfl
  | @absent c' habsent =>
    refine mem_of_other hi (h leases c slots hl hc) nofun ?_
    intro hended
    cases hended
    rw [habsent leases hl] at hc
    cases hc
  | _ => exact mem_of_other hi (h leases c slots hl hc) nofun nofun

/-! ## Every slot is given back once -/

open List

structure Inv (s : State) : Prop where
  unique : Unique conn s.threads
  seen : ∀ t ∈ s.threads, ∀ c, t.conn = some c → c ∈ s.shared.seen
  registered : Registered s
  past : ∀ t ∈ s.threads, t.Past → s.shared.dohConns = none
  tokens : s.shared.acquired = s.shared.returned + outstanding s
  filled : Filled s.shared

lemma inv_started (capacity : ℕ) : Inv (started capacity) where
  unique := unique_nil
  seen := forall_mem_nil _
  registered := by
    intro leases c slots hl hc
    cases hl
    cases hc
  past := forall_mem_nil _
  tokens := rfl
  filled := by
    refine ⟨?_, forall_mem_singleton.mpr (Nat.zero_le _)⟩
    intro ch
    cases ch <;> rfl

lemma Inv.fresh (h : Inv s) (ht : t ∈ s.threads) :
    ∀ c slots leases, t = .registering c slots → s.shared.dohConns = some leases →
      leases.lookup c = none := by
  rintro c slots leases rfl hl
  by_contra hne
  obtain ⟨slots', hc⟩ := ne_none_iff_exists'.mp hne
  rcases h.registered leases c slots' hl hc with hu | hu
  · exact absurd (h.unique.eq ht hu rfl rfl) nofun
  · exact absurd (h.unique.eq ht hu rfl rfl) nofun

lemma Inv.advance (h : Inv s) {i : ℕ} (hi : s.threads[i]? = some t)
    (hm : Moves s.shared t l' t') : Inv ⟨l', s.threads.set i t'⟩ := by
  have ht := mem_of_getElem? hi
  refine ⟨?_, ?_, ?_, ?_, ?_, ?_⟩
  · exact h.unique.set hi (conn_moves hm)
  · rw [seen_moves hm]
    refine forall_mem_set h.seen (fun _ _ hu => hu) ?_ i
    rw [conn_moves hm]
    exact h.seen t ht
  · exact h.registered.advance hi hm
  · exact forall_mem_set h.past (fun _ _ hu hpast => dohConns_moves hm (hu hpast))
      (past_moves hm (h.past t ht)) i
  · obtain ⟨added, hacquired, htokens⟩ := tokens_moves hm (h.fresh ht)
    have htotal := increased_set (fun l : Listener => l.returned + l.leases) hi htokens
    rw [hacquired, h.tokens]
    simp only [outstanding, ← add_assoc]
    exact htotal.symm
  · exact h.filled.moves hm

lemma Inv.enter (h : Inv s) {c : ℕ} (hc : c ∉ s.shared.seen) (hconn : t.conn = some c)
    (hheld : t.held = 0) (hpast : ¬ t.Past) : Inv (State.enter s c t) where
  unique := by
    refine h.unique.concat ?_
    intro u hu k hk hk'
    rw [hconn, Option.some.injEq] at hk'
    subst hk'
    exact hc (h.seen u hu c hk)
  seen := by
    refine forall_mem_concat (fun u hu k hk => List.mem_cons_of_mem _ (h.seen u hu k hk)) ?_
    intro k hk
    rw [hconn, Option.some.injEq] at hk
    subst hk
    exact List.mem_cons_self
  registered := by
    intro leases k slots hl hk
    exact (h.registered leases k slots hl hk).imp (mem_append_left _) (mem_append_left _)
  past := forall_mem_concat h.past fun ht => absurd ht hpast
  tokens := by
    rw [outstanding, State.enter, Config.spawn, total_concat, hheld, add_zero]
    exact h.tokens
  filled := ⟨h.filled.len, h.filled.capacity⟩

lemma Inv.step (h : Inv s) (hs : step s a = some s') : Inv s' := by
  cases a with simp only [step] at hs
  | connect c | accept c =>
    split_ifs at hs with hc
    cases hs
    exact h.enter hc rfl rfl id
  | install capacity =>
    split_ifs at hs
    cases hs
    exact ⟨h.unique, h.seen, h.registered, h.past, h.tokens, h.filled.install capacity _⟩
  | close =>
    split_ifs at hs
    cases hs
    refine ⟨?_, ?_, ?_, ?_, ?_, ⟨h.filled.len, h.filled.capacity⟩⟩
    · refine h.unique.concat ?_
      intro u _ k _
      exact nofun
    · exact forall_mem_concat h.seen nofun
    · intro leases k slots hl hk
      exact (h.registered leases k slots hl hk).imp (mem_append_left _) (mem_append_left _)
    · exact forall_mem_concat h.past nofun
    · rw [outstanding, Config.spawn, total_concat]
      exact h.tokens.trans (congrArg (_ + ·) (congrArg (_ + ·) (add_zero _).symm))
  | advance i choice =>
    obtain ⟨t, l', t', hi, hexec, rfl⟩ := Config.advance_eq_some hs
    exact h.advance hi (moves_of_exec hexec)

/-! ### What follows -/

lemma conn_of_mem_held (h : token ∈ t.held) : t.conn = some token.conn := by
  cases t with
  | registering | givingBack | leaving | tracking | returning | serving | untracking | finishing =>
    rw [held, Multiset.mem_singleton] at h
    subst h
    rfl
  | _ => exact absurd h (notMem_zero _)

/-- A channel holds as many tokens as slots of it are out. -/
lemma Inv.lenAt_eq (h : Inv s) (ch : ℕ) :
    s.shared.lenAt ch = (outstanding s).countP (·.slots = ch) := by
  have hlen := h.filled.len ch
  rw [h.tokens, countP_add] at hlen
  omega

/-- A slot that is out can be given back at once. -/
lemma Inv.giveBack_isSome (h : Inv s) (htoken : token ∈ outstanding s) :
    (s.shared.giveBack token).isSome := by
  have hpos : 0 < s.shared.lenAt token.slots := by
    rw [h.lenAt_eq]
    exact countP_pos_of_mem htoken rfl
  rw [lenAt] at hpos
  cases hch : s.shared.channels[token.slots]? with
  | none =>
    rw [hch] at hpos
    cases hpos
  | some channel =>
    rw [hch, elim_some] at hpos
    rw [giveBack, hch, bind_some, if_pos hpos]
    rfl

/-- A connection whose thread holds nothing, and is not one of a registered connection, has no slot
out. -/
lemma Inv.conn_ne (h : Inv s) (ht : t ∈ s.threads) {c : ℕ} (hconn : t.conn = some c)
    (hheld : t.held = 0) (hreported : t ≠ .reported c) (hended : t ≠ .ended c)
    (htoken : token ∈ outstanding s) : token.conn ≠ c := by
  rintro rfl
  rcases Multiset.mem_add.mp htoken with htoken | htoken
  · obtain ⟨-, leases, hl, hc⟩ := mem_leases_iff.mp htoken
    rcases h.registered leases _ _ hl hc with hu | hu
    · exact hreported (h.unique.eq ht hu hconn rfl)
    · exact hended (h.unique.eq ht hu hconn rfl)
  · obtain ⟨u, hu, htoken⟩ := mem_total.mp htoken
    rw [h.unique.eq hu ht (conn_of_mem_held htoken) hconn, hheld] at htoken
    exact notMem_zero _ htoken

def Thread.Callback : Thread → Prop
  | .opened _ | .choosing _ _ | .registering _ _ | .givingBack _ _ | .ended _ | .leaving _ _ => True
  | _ => False

def Thread.serves (ch : ℕ) : Thread → ℕ
  | .serving _ slots => if slots = ch then 1 else 0
  | _ => 0

lemma serves_le (t : Thread) (ch : ℕ) : t.serves ch ≤ t.held.countP (·.slots = ch) := by
  cases t with
  | serving c slots =>
    rw [serves, held, ← cons_zero, Multiset.countP_cons, countP_zero, Nat.zero_add]
  | _ => exact Nat.zero_le _

/-- The connections that are admitted with a slot of a channel hold tokens of it. -/
lemma Inv.admitted_le (h : Inv s) (ch : ℕ) :
    s.shared.leases.countP (·.slots = ch) + total (serves ch) s.threads ≤ s.shared.lenAt ch := by
  rw [h.lenAt_eq, outstanding, countP_add, countP_total]
  refine Nat.add_le_add_left ?_ _
  exact (total_le_add fun t _ => serves_le t ch).trans (by rw [Nat.zero_mul, Nat.add_zero])

lemma doh_of_not_callback (hcallback : ¬ t.Callback) (h : token ∈ t.held) :
    token.transport ≠ .doh := by
  cases t with
  | registering | givingBack | leaving => exact absurd trivial hcallback
  | tracking | returning | serving | untracking | finishing =>
    rw [held, Multiset.mem_singleton] at h
    subst h
    intro h
    cases h
  | _ => exact absurd h (notMem_zero _)

/-- Along every interleaving of the callbacks of connections, plain connections, policy reloads and
one `Close`: a slot that was taken has been given back to its channel or is out, and none is out for
a connection that is over; a slot that is out can be given back without waiting; the admitted
connections do not exceed the capacity of their policy; and when `Close` has returned and no
callback is under way no slot is out for a DoH connection. -/
theorem slots_conserved (capacity : ℕ) (as : List Action) (s : State)
    (hr : run step (started capacity) as = some s) :
    (s.shared.acquired = s.shared.returned + outstanding s ∧
      ∀ c, .gone c ∈ s.threads ∨ .finished c ∈ s.threads →
        ∀ token ∈ outstanding s, token.conn ≠ c) ∧
    (∀ token ∈ outstanding s, (s.shared.giveBack token).isSome) ∧
    (∀ ch channel, s.shared.channels[ch]? = some channel →
      s.shared.leases.countP (·.slots = ch) + total (serves ch) s.threads ≤
        channel.capacity) ∧
    (.stopped ∈ s.threads → (∀ t ∈ s.threads, ¬ t.Callback) →
      ∀ token ∈ outstanding s, token.transport ≠ .doh) := by
  have h : Inv s := run_invariant (fun _ _ _ hI hs => hI.step hs) (inv_started capacity) hr
  refine ⟨⟨h.tokens, ?_⟩, fun _ htoken => h.giveBack_isSome htoken, ?_, ?_⟩
  · rintro c (ht | ht) token htoken
    · exact h.conn_ne ht rfl rfl nofun nofun htoken
    · exact h.conn_ne ht rfl rfl nofun nofun htoken
  · intro ch channel hch
    have hle := h.admitted_le ch
    rw [lenAt, hch] at hle
    exact hle.trans (h.filled.capacity channel (mem_of_getElem? hch))
  · intro hstopped hcallback token htoken
    rcases Multiset.mem_add.mp htoken with htoken | htoken
    · obtain ⟨-, leases, hl, -⟩ := mem_leases_iff.mp htoken
      cases (h.past _ hstopped trivial).symm.trans hl
    · obtain ⟨t, ht, htoken⟩ := mem_total.mp htoken
      exact doh_of_not_callback (hcallback t ht) htoken

/-- A connection takes a slot of the second policy while `Close` sweeps that of the first. -/
def sweptWhileRegistering : List Action :=
  [.connect 0, .advance 0 0, .advance 0 0, .advance 0 0, .install 1, .connect 1, .advance 1 0,
    .close, .advance 2 0, .advance 2 0, .advance 1 0, .advance 2 0, .advance 1 0, .advance 1 0,
    .advance 2 0, .advance 2 0]

theorem slots_conserved_sweptWhileRegistering :
    ∃ s, run step (started 1) sweptWhileRegistering = some s ∧
      s.threads = [.reported 0, .reported 1, .stopped] ∧
      ∀ token ∈ outstanding s, token.transport ≠ .doh := by
  obtain ⟨s, hr, hthreads⟩ : ∃ s, run step (started 1) sweptWhileRegistering = some s ∧
      s.threads = [.reported 0, .reported 1, .stopped] := ⟨_, rfl, rfl⟩
  obtain ⟨-, -, -, hstopped⟩ := slots_conserved 1 sweptWhileRegistering s hr
  refine ⟨s, hr, hthreads, hstopped ?_ ?_⟩
  · simp [hthreads]
  · simp [hthreads, Thread.Callback]

end BypassCore.Inbound.DoHSlots
