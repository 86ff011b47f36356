import BypassCore.Runtime.Reload.Basic
import BypassCore.Lib.Runs

/-!
# Rolling the listeners back

A listener that has taken a new configuration can take its previous one again, and is then what it
was before. So `reloadInbounds` moves all listeners or none of them, and a second call takes them
back.
-/

namespace BypassCore.Reload

open Lib List MetricsServer Reload.Inbound

variable {D : Deps}

/-! ### One listener -/

/-- What a listener has installed is what its configuration asks for. -/
def Inbound.WellBuilt : Inbound D → Prop
  | .proxy l =>
    D.newSnifferWithOptions l.cfg.sniffing l.cfg.sniffingTimeoutMs l.cfg.sniffingMaxBytes =
        .ok l.sniffer ∧
      (∀ limits ∈ l.limits, D.udpResourceLimitsFromConfig l.cfg = .ok limits) ∧
      D.tcpIdleTimeoutFromConfig l.cfg = .ok l.tcpIdleTimeout
  | .dns l => D.buildDNSRuntimePolicy l.cfg = .ok l.policy

def Prepared.cfg : Prepared D → InboundConfig
  | .proxy cfg _ _ _ => cfg
  | .dns cfg _ => cfg

/-- A listener after it has taken a configuration: it can take its previous one again. -/
structure Moved (l l' : Inbound D) : Prop where
  wellBuilt : l'.WellBuilt
  back : ∀ validate : InboundConfig → Except String Unit, validate l.cfg = .ok () →
    ∃ q, l'.prepareReload validate true (some l.cfg) = .ok q ∧ l'.commit true q = .ok l

lemma sameListenerBinding_symm {left right : InboundConfig}
    (h : sameListenerBinding D left right = true) : sameListenerBinding D right left = true := by
  simp only [sameListenerBinding, decide_eq_true_eq] at h ⊢
  exact ⟨h.1.symm, h.2.1.symm, h.2.2.1.symm, h.2.2.2.symm⟩

lemma sameDNSIdentity_symm {left right : InboundConfig} (h : sameDNSIdentity left right = true) :
    sameDNSIdentity right left = true := by
  simp only [sameDNSIdentity, decide_eq_true_eq] at h ⊢
  exact ⟨h.1.symm, h.2.1.symm, h.2.2.symm⟩

variable {cfg : InboundConfig}

lemma Listener.prepareLimits_eq_ok {l : Listener D} {limits : Option D.Limits} :
    l.prepareLimits cfg = .ok limits ↔
      limits.isSome = l.limits.isSome ∧
        ∀ x ∈ limits, D.udpResourceLimitsFromConfig cfg = .ok x := by
  rw [Listener.prepareLimits]
  cases l.limits <;> cases limits <;>
    cases D.udpResourceLimitsFromConfig cfg <;> simp [Functor.map, Except.map]

variable {validate : InboundConfig → Except String Unit} {running : Bool} {p : Prepared D}

lemma Listener.prepareReload_eq_ok {l : Listener D} : l.prepareReload validate running cfg = .ok p ↔
      validate cfg = .ok () ∧ running = true ∧ sameListenerBinding D l.cfg cfg = true ∧
        l.cfg.tag = cfg.tag ∧ ∃ sniffer,
          D.newSnifferWithOptions cfg.sniffing cfg.sniffingTimeoutMs cfg.sniffingMaxBytes =
            .ok sniffer ∧
          ∃ limits, l.prepareLimits cfg = .ok limits ∧
            ∃ tcpIdleTimeout, D.tcpIdleTimeoutFromConfig cfg = .ok tcpIdleTimeout ∧
              .proxy cfg sniffer limits tcpIdleTimeout = p := by
  simp only [Listener.prepareReload, bind_eq_ok, Unique.exists_iff, PUnit.default_eq_unit,
    ensure_eq_ok, decide_eq_true_eq, pure, Except.pure, Except.ok.injEq]

lemma DNSListener.prepareReload_eq_ok {l : DNSListener D} :
    l.prepareReload validate running cfg = .ok p ↔
      validate cfg = .ok () ∧ running = true ∧
        (sameListenerBinding D l.cfg cfg = true ∧ sameDNSIdentity l.cfg cfg = true) ∧
        l.cfg.tag = cfg.tag ∧ ∃ policy, D.buildDNSRuntimePolicy cfg = .ok policy ∧
          .dns cfg policy = p := by
  simp only [DNSListener.prepareReload, bind_eq_ok, Unique.exists_iff, PUnit.default_eq_unit,
    ensure_eq_ok, decide_eq_true_eq, pure, Except.pure, Except.ok.injEq, Bool.and_eq_true]

variable {l : Inbound D} {c : Option InboundConfig}

lemma Inbound.cfg_of_prepareReload
    (h : l.prepareReload validate running c = .ok p) : c = some p.cfg := by
  cases c with
  | none => cases h
  | some cfg =>
    cases l with
    | proxy l =>
      obtain ⟨-, -, -, -, -, -, -, -, -, -, rfl⟩ := Listener.prepareReload_eq_ok.mp h
      rfl
    | dns l =>
      obtain ⟨-, -, -, -, -, -, rfl⟩ := DNSListener.prepareReload_eq_ok.mp h
      rfl

variable {l' : Inbound D} {stillRunning : Bool} {ls' done : List (Inbound D)}

lemma moved_proxy {l : Listener D} (hl : (proxy l).WellBuilt)
    (hp : l.prepareReload validate running cfg = .ok p)
    (hc : (proxy l).commit stillRunning p = .ok l') : l'.cfg = cfg ∧ Moved (.proxy l) l' := by
  obtain ⟨-, -, hbind, htag, sniffer, hs, limits, hlim, idle, hidle, rfl⟩ :=
    Listener.prepareReload_eq_ok.mp hp
  obtain ⟨hsome, hbuilt⟩ := Listener.prepareLimits_eq_ok.mp hlim
  have hlimits : (if l.limits.isSome then limits else none) = limits := by
    cases limits <;> simp [← hsome]
  simp only [commit, bind_eq_ok, pure, Except.pure, Except.ok.injEq, hlimits] at hc
  obtain ⟨-, -, rfl⟩ := hc
  obtain ⟨hs', hbuilt', hidle'⟩ := hl
  refine ⟨rfl, ⟨⟨hs, hbuilt, hidle⟩, ?_⟩⟩
  intro v hv
  refine ⟨.proxy l.cfg l.sniffer l.limits l.tcpIdleTimeout, ?_, ?_⟩
  · exact Listener.prepareReload_eq_ok.mpr
      ⟨hv, rfl, sameListenerBinding_symm hbind, htag.symm, _, hs', _,
        Listener.prepareLimits_eq_ok.mpr ⟨hsome.symm, hbuilt'⟩, _, hidle', rfl⟩
  · have hlimits' : (if limits.isSome then l.limits else none) = l.limits := by
      cases hl : l.limits <;> simp [hsome, hl]
    simp [commit, sameListenerBinding_symm hbind, htag, hlimits', ensure, bind,
      Except.bind, pure, Except.pure]

lemma moved_dns {l : DNSListener D} (hl : (dns l).WellBuilt)
    (hp : l.prepareReload validate running cfg = .ok p)
    (hc : (dns l).commit stillRunning p = .ok l') : l'.cfg = cfg ∧ Moved (.dns l) l' := by
  obtain ⟨-, -, ⟨hbind, hid⟩, htag, policy, hpolicy, rfl⟩ := DNSListener.prepareReload_eq_ok.mp hp
  simp only [commit, bind_eq_ok, pure, Except.pure, Except.ok.injEq] at hc
  obtain ⟨-, -, rfl⟩ := hc
  refine ⟨rfl, ⟨hpolicy, ?_⟩⟩
  intro v hv
  refine ⟨.dns l.cfg l.policy, ?_, ?_⟩
  · exact DNSListener.prepareReload_eq_ok.mpr
      ⟨hv, rfl, ⟨sameListenerBinding_symm hbind, sameDNSIdentity_symm hid⟩, htag.symm, _, hl, rfl⟩
  · simp [commit, sameListenerBinding_symm hbind, htag, ensure, bind, Except.bind, pure,
      Except.pure]

lemma moved_of_commit (hl : l.WellBuilt) (hp : l.prepareReload validate running c = .ok p)
    (hc : l.commit stillRunning p = .ok l') : l'.cfg = p.cfg ∧ Moved l l' := by
  obtain rfl := cfg_of_prepareReload hp
  cases l with
  | proxy l => exact moved_proxy hl hp hc
  | dns l => exact moved_dns hl hp hc

/-! ### All listeners -/

def configs (ls : List (Inbound D)) : List (Option InboundConfig) :=
  ls.map fun l => some l.cfg

/-- A pass that takes listeners back to their configurations meets no obstacle: they are running
and the configurations are still valid. -/
def Pass.Restores (pass : Pass) (index : Nat) (ls : List (Inbound D)) : Prop :=
  ∀ i l, ls[i]? = some l → pass.running (index + i) = true ∧
    pass.stillRunning (index + i) = true ∧ pass.validate (index + i) l.cfg = .ok ()

variable {pass : Pass} {index : Nat} {ls : List (Inbound D)}

lemma Pass.Restores.head (h : pass.Restores index (l :: ls)) : pass.running index = true ∧
      pass.stillRunning index = true ∧ pass.validate index l.cfg = .ok () :=
  h 0 l rfl

lemma Pass.Restores.tail (h : pass.Restores index (l :: ls)) : pass.Restores (index + 1) ls := by
  intro i l' hi
  rw [show index + 1 + i = index + (i + 1) by omega]
  exact h (i + 1) l' hi

lemma Pass.Restores.left (h : pass.Restores index (ls ++ ls')) : pass.Restores index ls := by
  intro i l hi
  apply h i l
  rw [getElem?_append_left (List.getElem?_eq_some_iff.mp hi).1, hi]

variable {undo : Pass}

/-- The rollback loop takes the moved listeners back. -/
lemma rollback_eq
    (hmoved : List.Forall₂ Moved ls done) (h : undo.Restores index ls)
    (more : List (Option InboundConfig)) :
    rollback undo index done (configs ls ++ more) = (ls, []) := by
  induction hmoved generalizing index with
  | nil => cases more <;> rfl
  | @cons l l' ls done hl _ ih =>
    obtain ⟨hrun, hstill, hvalid⟩ := h.head
    obtain ⟨q, hprep, hcommit⟩ := hl.back _ hvalid
    have hreload : l'.reload undo index (some l.cfg) = .ok l := by
      rw [Inbound.reload, hrun, hstill, bind_eq_ok]
      exact ⟨q, hprep, hcommit⟩
    show rollback undo index (l' :: done) (some l.cfg :: (configs ls ++ more)) = _
    rw [rollback, ih h.tail, hreload]

variable {ps : List (Prepared D)}

/-- What the first loop leaves is prepared for the listeners and the configurations. -/
lemma prepareAll_eq_ok {next : List (Option InboundConfig)} (hlen : ls.length = next.length)
    (h : prepareAll pass index ls next = .ok ps) :
    next = ps.map (fun p => some p.cfg) ∧
      List.Forall₂ (fun l p => ∃ validate running c,
        prepareReload l validate running c = .ok p) ls ps := by
  induction ls generalizing index next ps with
  | nil =>
    cases next with
    | nil =>
      cases h
      exact ⟨rfl, .nil⟩
    | cons c next => cases hlen
  | cons l ls ih =>
    cases next with
    | nil => cases hlen
    | cons c next =>
      rw [prepareAll, bind_eq_ok] at h
      obtain ⟨p, hp, h⟩ := h
      obtain ⟨rest, hrest, h⟩ := bind_eq_ok.mp h
      cases h
      obtain ⟨hnext, hall⟩ := ih (Nat.succ.inj hlen) hrest
      rw [cfg_of_prepareReload hp, hnext]
      exact ⟨rfl, .cons ⟨_, _, _, hp⟩ hall⟩

/-- The second loop commits everything or takes back what it has committed. -/
lemma commitAll_spec {todo : List (Inbound D)} (hmoved : List.Forall₂ Moved ls done)
    (hps : List.Forall₂ (fun l p => ∃ validate running c,
      prepareReload l validate running c = .ok p) todo ps)
    (hbuilt : ∀ l ∈ todo, l.WellBuilt) (hundo : undo.Restores 0 (ls ++ todo)) :
    (∃ e, commitAll pass undo (configs (ls ++ todo)) done (todo.zip ps) = (ls ++ todo, some e)) ∨
      ∃ ls', commitAll pass undo (configs (ls ++ todo)) done (todo.zip ps) = (ls', none) ∧
        List.Forall₂ Moved (ls ++ todo) ls' ∧
        configs ls' = configs done ++ ps.map (fun p => some p.cfg) := by
  induction hps generalizing ls done with
  | nil =>
    right
    refine ⟨done, rfl, ?_, ?_⟩
    · rwa [append_nil]
    · rw [map_nil, append_nil]
  | @cons l p todo ps hp hps ih =>
    obtain ⟨validate, running, c, hp⟩ := hp
    rw [zip_cons_cons, commitAll]
    cases hc : l.commit (pass.stillRunning done.length) p with
    | error e =>
      -- the listeners before this one are taken back, and the others have not moved
      left
      have hroll := rollback_eq hmoved hundo.left (configs (l :: todo))
      have hcfgs : configs (ls ++ l :: todo) = configs ls ++ configs (l :: todo) := map_append
      have htodo : (todo.zip ps).map Prod.fst = todo :=
        map_fst_zip (Nat.le_of_eq (Forall₂.length_eq hps))
      rw [hcfgs, hroll, htodo]
      exact ⟨_, rfl⟩
    | ok l' =>
      obtain ⟨hcfg, hm⟩ := moved_of_commit (hbuilt l mem_cons_self) hp hc
      have hassoc : ls ++ l :: todo = (ls ++ [l]) ++ todo := by simp
      have hstep := ih (rel_append hmoved (.cons hm .nil))
        (fun x hx => hbuilt x (mem_cons_of_mem _ hx)) (hassoc ▸ hundo)
      rw [hassoc]
      rcases hstep with herr | ⟨ls', hls', hmoved', hcfgs⟩
      · exact .inl herr
      · refine .inr ⟨ls', hls', hmoved', ?_⟩
        rw [hcfgs]
        simp [configs, hcfg]

/-- `reloadInbounds` moves every listener to its new configuration, or none. -/
theorem reloadInbounds_spec (pass : Pass)
    (next : List (Option InboundConfig)) (hbuilt : ∀ l ∈ ls, l.WellBuilt)
    (hundo : undo.Restores 0 ls) :
    (∃ e, reloadInbounds pass undo ls (configs ls) next = (ls, some e)) ∨
      ∃ ls', reloadInbounds pass undo ls (configs ls) next = (ls', none) ∧
        List.Forall₂ Moved ls ls' ∧ configs ls' = next := by
  rw [reloadInbounds]
  split_ifs with hlen
  · exact .inl ⟨_, rfl⟩
  · cases hprep : prepareAll pass 0 ls next with
    | error e => exact .inl ⟨_, rfl⟩
    | ok ps =>
      obtain ⟨hnext, hps⟩ := prepareAll_eq_ok (not_not.mp hlen) hprep
      rw [hnext]
      exact commitAll_spec .nil hps hbuilt hundo

lemma wellBuilt_of_moved (h : List.Forall₂ Moved ls ls') : ∀ l ∈ ls', l.WellBuilt := by
  induction h with
  | nil => simp
  | cons hl _ ih => exact forall_mem_cons.mpr ⟨hl.wellBuilt, ih⟩

lemma prepareAll_back
    (hmoved : List.Forall₂ Moved ls ls') (h : pass.Restores index ls) :
    ∃ ps, prepareAll pass index ls' (configs ls) = .ok ps ∧
      List.Forall₂ (fun l e => commit true e.1 e.2 = .ok l) ls (ls'.zip ps) := by
  induction hmoved generalizing index with
  | nil => exact ⟨[], rfl, .nil⟩
  | @cons l l' ls ls' hl _ ih =>
    obtain ⟨hrun, -, hvalid⟩ := h.head
    obtain ⟨q, hprep, hcommit⟩ := hl.back _ hvalid
    obtain ⟨ps, hps, hall⟩ := ih h.tail
    refine ⟨q :: ps, ?_, .cons hcommit hall⟩
    show prepareAll pass index (l' :: ls') (some l.cfg :: configs ls) = _
    rw [prepareAll, hrun, bind_eq_ok]
    exact ⟨q, hprep, bind_eq_ok.mpr ⟨ps, hps, rfl⟩⟩

lemma commitAll_back {previous : List (Option InboundConfig)} {todo : List (Inbound D × Prepared D)}
    (hall : List.Forall₂ (fun l e => commit true e.1 e.2 = .ok l) ls todo)
    (h : pass.Restores done.length ls) :
    commitAll pass undo previous done todo = (done ++ ls, none) := by
  induction hall generalizing done with
  | nil => simp [commitAll]
  | @cons l e ls todo hcommit _ ih =>
    obtain ⟨-, hstill, -⟩ := h.head
    have hrest : pass.Restores (done ++ [l]).length ls := by
      rw [length_append]
      exact h.tail
    rw [commitAll, hstill, hcommit]
    show commitAll pass undo previous (done ++ [l]) todo = _
    rw [ih hrest, append_assoc, singleton_append]

/-- A second `reloadInbounds` takes the moved listeners back. -/
theorem reloadInbounds_back
    (hmoved : List.Forall₂ Moved ls ls') (h : pass.Restores 0 ls) (undo : Pass)
    (previous : List (Option InboundConfig)) :
    reloadInbounds pass undo ls' previous (configs ls) = (ls, none) := by
  obtain ⟨ps, hps, hall⟩ := prepareAll_back hmoved h
  have hlen : ls'.length = (configs ls).length := by
    rw [configs, length_map, hmoved.length_eq]
  rw [reloadInbounds, if_neg (not_not.mpr hlen), hps]
  exact commitAll_back hall h

/-!
## A reload is a transaction

In every state that a service reaches from its start by reloads, each listener and the metrics
server have installed what the current configuration asks for.
-/

/-! ### Consistent services -/

/-- A metrics server that its own configuration builds and validates. -/
def MetricsServer.Accepted (m : MetricsServer D) : Prop :=
  newMetrics m.config = .ok m ∧ m.validate = .ok ()

/-- The listeners and the metrics server are those of the current configuration. -/
structure Consistent (s : Service D) : Prop where
  inbounds : configs s.inbounds = s.current.config.inbounds
  wellBuilt : ∀ l ∈ s.inbounds, l.WellBuilt
  metrics : s.metrics.map config = s.current.config.metrics
  accepted : ∀ m ∈ s.metrics, m.Accepted

variable {config : MetricsConfig} {m : MetricsServer D} {s : Service D} {c : Call D}

lemma newMetrics_eq_ok (h : newMetrics config = .ok m) : m.config = config := by
  obtain ⟨allowed, -, h⟩ := bind_eq_ok.mp h
  cases h
  rfl

lemma startInbound_eq_ok {cfg : InboundConfig} {listen : Except String Unit} {l : Inbound D}
    (h : startInbound cfg listen = .ok l) : l.cfg = cfg ∧ l.WellBuilt := by
  rw [startInbound] at h
  split_ifs at h
  · obtain ⟨policy, hpolicy, h⟩ := bind_eq_ok.mp h
    obtain ⟨-, -, h⟩ := bind_eq_ok.mp h
    cases h
    exact ⟨rfl, hpolicy⟩
  · obtain ⟨sniffer, hsniffer, h⟩ := bind_eq_ok.mp h
    obtain ⟨idle, hidle, h⟩ := bind_eq_ok.mp h
    split at h
    · cases h
    · next wantUDP _ =>
      obtain ⟨limits, hlimits, h⟩ := bind_eq_ok.mp h
      obtain ⟨-, -, h⟩ := bind_eq_ok.mp h
      cases h
      refine ⟨rfl, hsniffer, ?_, hidle⟩
      intro x hx
      rw [startLimits] at hlimits
      split_ifs at hlimits
      · obtain ⟨built, hbuilt, rfl⟩ := map_eq_ok.mp hlimits
        cases hx
        exact hbuilt
      · cases hlimits
        cases hx

variable {listen : Nat → Except String Unit} {ls : List (Inbound D)}

lemma startInbounds_eq_ok {index : Nat} {cfgs : List (Option InboundConfig)}
    (h : startInbounds listen index cfgs = .ok ls) : configs ls = cfgs ∧ ∀ l ∈ ls, l.WellBuilt := by
  induction cfgs generalizing index ls with
  | nil =>
    cases h
    exact ⟨rfl, by simp⟩
  | cons c cfgs ih =>
    cases c with
    | none => cases h
    | some cfg =>
      obtain ⟨l, hl, h⟩ := bind_eq_ok.mp h
      obtain ⟨rest, hrest, h⟩ := bind_eq_ok.mp h
      cases h
      obtain ⟨hcfg, hbuilt⟩ := startInbound_eq_ok hl
      obtain ⟨hcfgs, hall⟩ := ih hrest
      refine ⟨?_, ?_⟩
      · rw [← hcfgs, ← hcfg]
        rfl
      · exact List.forall_mem_cons.mpr ⟨hbuilt, hall⟩

variable {metrics : Option (MetricsServer D)}

lemma startMetrics_eq_ok {listen : Except String Unit} {config : Option MetricsConfig}
    (h : startMetrics listen config = .ok metrics) :
    metrics.map MetricsServer.config = config ∧ ∀ m ∈ metrics, m.Accepted := by
  cases config with
  | none =>
    cases h
    exact ⟨rfl, by simp⟩
  | some config =>
    obtain ⟨m, hm, h⟩ := bind_eq_ok.mp h
    obtain ⟨_, hvalid, h⟩ := bind_eq_ok.mp h
    obtain ⟨-, -, h⟩ := bind_eq_ok.mp h
    cases h
    obtain rfl := newMetrics_eq_ok hm
    refine ⟨rfl, ?_⟩
    intro m' hm'
    cases hm'
    exact ⟨hm, hvalid⟩

variable {cfg : Config D} {hash : String} {buildSnapshot : Except String D.Resources}
  {listenMetrics : Except String Unit}

lemma consistent_of_start
    (h : startService cfg hash buildSnapshot listenMetrics listen = .ok s) : Consistent s := by
  obtain ⟨resources, -, h⟩ := bind_eq_ok.mp h
  obtain ⟨metrics, hmetrics, h⟩ := bind_eq_ok.mp h
  obtain ⟨inbounds, hinbounds, h⟩ := bind_eq_ok.mp h
  cases h
  obtain ⟨hcfgs, hbuilt⟩ := startInbounds_eq_ok hinbounds
  obtain ⟨hconfig, haccepted⟩ := startMetrics_eq_ok hmetrics
  exact ⟨hcfgs, hbuilt, hconfig, haccepted⟩

lemma MetricsServer.reload_eq_ok {m' : MetricsServer D} (h : m.reload config = .ok m') :
    m'.config = config ∧ m'.Accepted ∧ normalizedListen config = normalizedListen m.config := by
  obtain ⟨candidate, hnew, h⟩ := bind_eq_ok.mp h
  obtain ⟨_, hvalid, h⟩ := bind_eq_ok.mp h
  obtain ⟨_, hlisten, h⟩ := bind_eq_ok.mp h
  cases h
  obtain rfl := newMetrics_eq_ok hnew
  exact ⟨rfl, ⟨hnew, hvalid⟩, of_decide_eq_true (ensure_eq_ok.mp hlisten)⟩

/-- A metrics server that has taken a configuration can take its previous one again. -/
lemma MetricsServer.reload_back {m' : MetricsServer D} (hm : m.Accepted)
    (h : m.reload config = .ok m') : m'.reload m.config = .ok m := by
  obtain ⟨rfl, -, hlisten⟩ := reload_eq_ok h
  rw [reload, bind_eq_ok]
  refine ⟨m, hm.1, bind_eq_ok.mpr ⟨(), hm.2, bind_eq_ok.mpr ⟨(), ?_, rfl⟩⟩⟩
  exact ensure_eq_ok.mpr (decide_eq_true hlisten.symm)

lemma Consistent.reloadMetrics (hs : Consistent s) {next : Config D}
    (hnone : s.current.config.metrics.isNone = next.metrics.isNone) {inbounds : List (Inbound D)}
    (h : Service.reloadMetrics { s with inbounds := inbounds } next.metrics = .ok metrics) :
    metrics.map MetricsServer.config = next.metrics ∧ (∀ m ∈ metrics, m.Accepted) ∧
      ∀ ls, Service.reloadMetrics { s with inbounds := ls, metrics := metrics }
        s.current.config.metrics = .ok s.metrics := by
  have hmetrics := hs.metrics
  rw [← hmetrics] at hnone
  rw [← hmetrics]
  cases hm : s.metrics with
  | none =>
    rw [hm] at hnone
    have hnext : next.metrics = none := Option.isNone_iff_eq_none.mp hnone.symm
    simp only [hm] at h
    cases h
    exact ⟨hnext.symm, by simp, fun _ => rfl⟩
  | some m =>
    rw [hm] at hnone
    cases hnext : next.metrics with
    | none =>
      rw [hnext] at hnone
      cases hnone
    | some config =>
      simp only [hm, hnext] at h
      obtain ⟨m', hm', rfl⟩ := map_eq_ok.mp h
      obtain ⟨hconfig, haccepted, -⟩ := reload_eq_ok hm'
      refine ⟨by rw [Option.map_some, hconfig], ?_, ?_⟩
      · intro x hx
        cases hx
        exact haccepted
      · intro ls
        exact map_eq_ok.mpr ⟨m, reload_back (hs.accepted m hm) hm', rfl⟩

/-! ### Reload -/

def Call.Restores (s : Service D) (c : Call D) : Prop :=
  c.undoApply.Restores 0 s.inbounds ∧ c.revert.Restores 0 s.inbounds

/-- Two services with the same snapshot, listeners and metrics server. -/
structure Unchanged (s s' : Service D) : Prop where
  current : s'.current = s.current
  inbounds : s'.inbounds = s.inbounds
  metrics : s'.metrics = s.metrics

/-- A call that is a transaction: it changes nothing, or it succeeds and everything has moved to
the new configuration, under the next revision. -/
inductive Outcome (s : Service D) (c : Call D) :
    Service D × Except Failure Response → Prop where
  | unchanged {s' : Service D} {hash : String} (h : Unchanged s s')
    (hash_eq : hash = s.current.hash)
    (config_eq : ∃ cfg, c.config = .ok (cfg, hash)) :
    Outcome s c (s', .ok ⟨false, true, hash, s.current.revision⟩)
  | failed {s' : Service D} {e : Failure} (h : Unchanged s s') : Outcome s c (s', .error e)
  | reloaded {s' : Service D} {cfg : Config D} {hash : String} (h : Consistent s')
    (config_eq : c.config = .ok (cfg, hash)) (hash_ne : hash ≠ s.current.hash)
    (current_config : s'.current.config = cfg) (current_hash : s'.current.hash = hash)
    (current_revision : s'.current.revision = s.current.revision + 1) :
    Outcome s c (s', .ok ⟨true, false, hash, s'.current.revision⟩)

lemma Unchanged.refl (s : Service D) : Unchanged s s := ⟨rfl, rfl, rfl⟩

lemma Unchanged.fail {s' : Service D} (h : Unchanged s s') (c : Call D) (e : Failure) :
    Outcome s c (s'.fail e) :=
  .failed ⟨h.current, h.inbounds, h.metrics⟩

/-- Once the listeners and the metrics server have moved, a rollback takes both back. -/
lemma Consistent.rollbackAll (hs : Consistent s) (next : Config D)
    (hc : c.revert.Restores 0 s.inbounds) (hmoved : List.Forall₂ Moved s.inbounds ls)
    (hback : Service.reloadMetrics { s with inbounds := ls, metrics := metrics }
      s.current.config.metrics = .ok s.metrics) :
    Unchanged s (Service.rollbackAll { s with inbounds := ls, metrics := metrics } c
      s.current.config next).1 := by
  have hinbounds := reloadInbounds_back hmoved hc c.undoRevert next.inbounds
  rw [hs.inbounds] at hinbounds
  simp only [Service.rollbackAll, hinbounds, hback]
  exact ⟨rfl, rfl, rfl⟩

lemma Consistent.install (hs : Consistent s) (hc : c.Restores s)
    (hconfig : c.config = .ok (cfg, hash))
    (hne : hash ≠ s.current.hash) (hnone : s.current.config.metrics.isNone = cfg.metrics.isNone)
    (resources : D.Resources) :
    Outcome s c (s.install c ⟨cfg, hash, s.current.revision + 1, resources⟩) := by
  obtain ⟨hundo, hrevert⟩ := hc
  have hspec := reloadInbounds_spec c.apply cfg.inbounds hs.wellBuilt hundo
  rw [hs.inbounds] at hspec
  rcases hspec with ⟨e, hls⟩ | ⟨ls, hls, hmoved, hcfgs⟩
  · simp only [Service.install, hls]
    exact Unchanged.fail ⟨rfl, rfl, rfl⟩ c _
  · simp only [Service.install, hls]
    cases hm : Service.reloadMetrics { s with inbounds := ls } cfg.metrics with
    | error e =>
      -- the metrics server has not moved; the listeners are taken back
      have hback := reloadInbounds_back hmoved hrevert c.undoRevert cfg.inbounds
      rw [hs.inbounds] at hback
      simp only [hback]
      exact Unchanged.fail ⟨rfl, rfl, rfl⟩ c _
    | ok metrics =>
      obtain ⟨hmetrics, haccepted, hback⟩ := hs.reloadMetrics hnone hm
      have hroll := hs.rollbackAll cfg hrevert hmoved (hback ls)
      cases c.activate with
      | error e => exact hroll.fail c _
      | ok _ =>
        split_ifs
        · exact .failed hroll
        · exact .reloaded ⟨hcfgs, wellBuilt_of_moved hmoved, hmetrics, haccepted⟩ hconfig hne
            rfl rfl rfl

lemma isNone_of_reloadCompatibility {current next : Config D}
    (h : reloadCompatibility current next = .ok ()) :
    current.metrics.isNone = next.metrics.isNone := by
  obtain ⟨-, -, h⟩ := bind_eq_ok.mp h
  obtain ⟨-, -, h⟩ := bind_eq_ok.mp h
  obtain ⟨_, hmetrics, -⟩ := bind_eq_ok.mp h
  exact (of_decide_eq_true (ensure_eq_ok.mp hmetrics)).1

/-- A reload of a consistent service is a transaction. -/
lemma Consistent.reload (hs : Consistent s) (hc : c.Restores s) : Outcome s c (s.reload c) := by
  rw [Service.reload]
  cases hconfig : c.config with
  | error e =>
    dsimp only
    split_ifs
    · exact .failed (.refl s)
    · exact (Unchanged.refl s).fail c _
  | ok p =>
    obtain ⟨cfg, hash⟩ := p
    dsimp only
    split_ifs with hbusy hclosed hmatch hhash
    · exact .failed (.refl s)
    · exact .failed (.refl s)
    · exact (Unchanged.refl s).fail c _
    · exact .unchanged (.refl s) hhash ⟨cfg, hconfig⟩
    · cases hcompat : reloadCompatibility s.current.config cfg with
      | error e => exact (Unchanged.refl s).fail c _
      | ok _ =>
        have hnone := isNone_of_reloadCompatibility hcompat
        cases c.buildSnapshot with
        | error e => exact (Unchanged.refl s).fail c _
        | ok resources =>
          cases c.probe with
          | error e => exact (Unchanged.refl s).fail c _
          | ok _ => exact hs.install hc hconfig hhash hnone resources

lemma reload_of_mismatch {value : String} {rest : List String}
    (hvalue : c.expectedValues = value :: rest) (hne : expected value ≠ "")
    (hrevision : expected value ≠ toString s.current.revision.toNat)
    (hhash : expected value ≠ s.current.hash) : ∃ e, (s.reload c).2 = .error e := by
  rw [Nat.toString_eq_repr] at hrevision
  have h : mismatch s.current c.expectedValues = true := by
    simp [hvalue, mismatch, hne, hrevision, hhash]
  rw [Service.reload]
  cases c.config with
  | error e | ok p =>
    split_ifs <;> exact ⟨_, rfl⟩

lemma Unchanged.consistent {s' : Service D} (h : Unchanged s s') (hs : Consistent s) :
    Consistent s' := by
  refine ⟨?_, ?_, ?_, ?_⟩
  · rw [h.inbounds, h.current, hs.inbounds]
  · rw [h.inbounds]
    exact hs.wellBuilt
  · rw [h.metrics, h.current, hs.metrics]
  · rw [h.metrics]
    exact hs.accepted

namespace Outcome

variable {s : Service D} {c : Call D} {r : Service D × Except Failure Response}

lemma consistent (hs : Consistent s) (h : Outcome s c r) : Consistent r.1 := by
  cases h with
  | unchanged h _ _ => exact h.consistent hs
  | failed h => exact h.consistent hs
  | reloaded h _ _ _ _ _ => exact h

lemma unchanged_of_error (h : Outcome s c r) {e : Failure} (he : r.2 = .error e) :
    Unchanged s r.1 := by
  cases h with
  | unchanged _ _ _ => cases he
  | failed h => exact h
  | reloaded _ _ _ _ _ _ => cases he

lemma unchanged_of_hash (h : Outcome s c r) {next : Config D}
    (hconfig : c.config = .ok (next, s.current.hash)) : Unchanged s r.1 := by
  cases h with
  | unchanged h _ _ => exact h
  | failed h => exact h
  | reloaded _ hcfg hne _ _ _ =>
    rw [hconfig] at hcfg
    cases hcfg
    exact absurd rfl hne

/-- A reload that succeeds with another hash has installed the configuration it read. -/
lemma reloaded_of_ne (h : Outcome s c r) {response : Response} {next : Config D} {hash : String}
    (hok : r.2 = .ok response) (hconfig : c.config = .ok (next, hash))
    (hne : hash ≠ s.current.hash) :
    Consistent r.1 ∧ r.1.current.config = next ∧ r.1.current.hash = hash ∧
      r.1.current.revision = s.current.revision + 1 := by
  cases h with
  | unchanged _ heq hcfg =>
    obtain ⟨cfg, hcfg⟩ := hcfg
    rw [hconfig] at hcfg
    cases hcfg
    exact absurd heq hne
  | failed _ => cases hok
  | reloaded h hcfg _ hcurrent hhash hrevision =>
    rw [hconfig] at hcfg
    cases hcfg
    exact ⟨h, hcurrent, hhash, hrevision⟩

end Outcome

def step (s : Service D) (c : Call D) : Option (Service D) := some (s.reload c).1

lemma consistent_of_run {s₀ : Service D} {calls : List (Call D)}
    (hstart : startService cfg hash buildSnapshot listenMetrics listen = .ok s₀)
    (hg : Guarded step Call.Restores s₀ calls) (hr : run step s₀ calls = some s) :
    Consistent s := by
  refine Guarded.invariant (I := Consistent) ?_ (consistent_of_start hstart) hg hr
  intro s c s' hs hc he
  cases he
  exact (hs.reload hc).consistent hs

/-- In every state that a service reaches from its start by reloads, a further reload that fails
changes neither the snapshot nor any listener nor the metrics server; one that succeeds with a
changed hash has moved all of them to the new configuration, under the next revision; and neither
an `If-Match` value that does not match nor an unchanged hash changes anything. -/
theorem reload_transaction (D : Deps) (cfg : Config D) (hash : String)
    (buildSnapshot : Except String D.Resources) (listenMetrics : Except String Unit)
    (listen : Nat → Except String Unit) (s₀ s : Service D) (calls : List (Call D)) (c : Call D)
    (hstart : startService cfg hash buildSnapshot listenMetrics listen = .ok s₀)
    (hg : Guarded step Call.Restores s₀ calls) (hr : run step s₀ calls = some s)
    (hc : c.Restores s) :
    (∀ e, (s.reload c).2 = .error e → Unchanged s (s.reload c).1) ∧
      (∀ response next hash', (s.reload c).2 = .ok response → c.config = .ok (next, hash') →
        hash' ≠ s.current.hash →
        (s.reload c).1.current.config = next ∧ (s.reload c).1.current.hash = hash' ∧
          (s.reload c).1.current.revision = s.current.revision + 1 ∧
          (s.current.revision.toNat + 1 < 2 ^ 64 →
            (s.reload c).1.current.revision.toNat = s.current.revision.toNat + 1) ∧
          configs (s.reload c).1.inbounds = next.inbounds ∧
          (∀ l ∈ (s.reload c).1.inbounds, l.WellBuilt) ∧
          (s.reload c).1.metrics.map MetricsServer.config = next.metrics ∧
          ∀ m ∈ (s.reload c).1.metrics, m.Accepted) ∧
      (∀ value rest, c.expectedValues = value :: rest → expected value ≠ "" →
        expected value ≠ toString s.current.revision.toNat → expected value ≠ s.current.hash →
        Unchanged s (s.reload c).1 ∧ ∃ e, (s.reload c).2 = .error e) ∧
      (∀ next, c.config = .ok (next, s.current.hash) → Unchanged s (s.reload c).1) := by
  have hs := consistent_of_run hstart hg hr
  have hout := hs.reload hc
  refine ⟨fun e => hout.unchanged_of_error, ?_, ?_, fun next => hout.unchanged_of_hash⟩
  · intro response next hash' hok hconfig hne
    obtain ⟨h, hcurrent, hhash, hrevision⟩ := hout.reloaded_of_ne hok hconfig hne
    refine ⟨hcurrent, hhash, hrevision, ?_, ?_, h.wellBuilt, ?_, h.accepted⟩
    · intro hlt
      rw [hrevision]
      exact Nat.mod_eq_of_lt hlt
    · rw [h.inbounds, hcurrent]
    · rw [h.metrics, hcurrent]
  · intro value rest hvalue hempty hrevision hhash
    obtain ⟨e, he⟩ := reload_of_mismatch hvalue hempty hrevision hhash
    exact ⟨hout.unchanged_of_error he, e, he⟩

/-! ### An example -/

def exampleDeps : Deps where
  Sniffer := Unit
  Limits := Unit
  DNSPolicy := Unit
  NetPrefix := Unit
  Control := Unit
  Other := Unit
  Resources := Unit
  toLower := id
  newSnifferWithOptions _ _ _ := .ok ()
  udpResourceLimitsFromConfig _ := .ok ()
  tcpIdleTimeoutFromConfig cfg := .ok cfg.tcpIdleTimeoutSeconds
  buildDNSRuntimePolicy _ := .ok ()
  parsePrefix _ := .ok ()
  splitHostPort address := .ok (.ofList (address.toList.takeWhile (· ≠ ':')))
  isLoopback _ := some true
  isLocalhost _ := false
  equivalentConfig _ _ := true

def exampleInbound (tag : String) (port tcpIdleTimeoutSeconds : Int) : InboundConfig :=
  { (default : InboundConfig) with
    tag, type := "redirect", listen := "127.0.0.1", port, tcpIdleTimeoutSeconds }

def exampleConfig (tcpIdleTimeoutSeconds : Int) : Config exampleDeps where
  inbounds := [some (exampleInbound "a" 1080 tcpIdleTimeoutSeconds),
    some (exampleInbound "b" 1081 tcpIdleTimeoutSeconds)]
  metrics := some ⟨"", [], false⟩
  control := ()
  other := ()

def examplePass (stillRunning : Nat → Bool) : Pass where
  validate _ _ := .ok ()
  running _ := true
  stillRunning := stillRunning

def exampleCall (tcpIdleTimeoutSeconds : Int) (hash : String) (stillRunning : Nat → Bool) :
    Call exampleDeps where
  expectedValues := []
  config := .ok (exampleConfig tcpIdleTimeoutSeconds, hash)
  buildSnapshot := .ok ()
  probe := .ok ()
  apply := examplePass stillRunning
  undoApply := examplePass fun _ => true
  revert := examplePass fun _ => true
  undoRevert := examplePass fun _ => true
  activate := .ok ()
  closed := false

lemma restores_exampleCall (s : Service exampleDeps) (n : Int) (hash : String)
    (stillRunning : Nat → Bool) : (exampleCall n hash stillRunning).Restores s :=
  ⟨fun _ _ _ => ⟨rfl, rfl, rfl⟩, fun _ _ _ => ⟨rfl, rfl, rfl⟩⟩

/-- After a reload, a second one fails at its second listener and changes nothing. -/
theorem reload_transaction_second_fails :
    ∃ s₀ s e, startService (exampleConfig 0) "h0" (.ok ()) (.ok ()) (fun _ => .ok ()) = .ok s₀ ∧
      run step s₀ [exampleCall 60 "h1" fun _ => true] = some s ∧
      (s.reload (exampleCall 90 "h2" fun i => i == 0)).2 = .error e ∧
      Unchanged s (s.reload (exampleCall 90 "h2" fun i => i == 0)).1 :=
  ⟨_, _, _, rfl, rfl, rfl,
    (reload_transaction exampleDeps (exampleConfig 0) "h0" (.ok ()) (.ok ()) (fun _ => .ok ()) _ _
      [exampleCall 60 "h1" fun _ => true] (exampleCall 90 "h2" fun i => i == 0) rfl
      (guarded_cons (restores_exampleCall _ _ _ _) rfl trivial) rfl
      (restores_exampleCall _ _ _ _)).1 _ rfl⟩

end BypassCore.Reload
