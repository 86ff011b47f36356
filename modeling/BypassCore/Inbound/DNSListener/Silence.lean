import BypassCore.Inbound.DNSListener.Basic

/-!
# Responses are not answered

A message with the QR bit set is not a query, and the handler drops it once it has read it. The
paths that answer before that do not look at the bit: a message over TCP that a limiter refuses, a
message that finds no query slot, and one that the handler cannot read. These are the only messages
of this kind that the listener answers.
-/

namespace BypassCore.Inbound

open Lib List Option

namespace DNSListener

variable {IP β γ : Type} {C : WireCodec β} {D : RawCodec γ} {s s' : DNSListener IP}
  {raw response : List UInt8} {loop : Loop} {written : Bool}

/-- No message with the QR bit set has been answered. -/
def Silent (s : DNSListener IP) : Prop := ∀ r ∈ s.sent, ¬ IsResponse r.request

/-- A step that has a message with the QR bit set in hand passes it on to a place where it can still
be dropped, or drops it: limiters over TCP let it pass, it finds a query slot, and the handler can
read it. -/
def Passes [DecidableEq IP] (C : WireCodec β) (s : DNSListener IP) : DNSListenerEvent IP → Prop
  | .source (.tcp conn) _ => ∀ policy raw ip now,
    s.stage (.tcp conn) = some (.source policy raw ip now) → IsResponse raw →
      ((s.policy policy).allowSource ip now).1
  | .global (.tcp conn) _ => ∀ policy raw now,
    s.stage (.tcp conn) = some (.global policy raw now) → IsResponse raw →
      ((s.policy policy).allowGlobal now).1
  | .select .udp _ _ => ∀ policy raw,
    s.stage .udp = some (.select policy raw) → IsResponse raw → (s.policy policy).querySlots.free
  | .select (.tcp conn) _ _ => ∀ policy raw,
    s.stage (.tcp conn) = some (.select policy raw) → IsResponse raw →
      (s.policy policy).querySlots.free ∨ s.cancelled
  | .handleUDP i _ _ => ∀ q,
    s.queries[i]? = some q → IsResponse q.raw → Legible C (s.policy s.current).queryBytes q.raw
  | .handleTCP conn _ _ _ => ∀ policy raw,
    s.stage (.tcp conn) = some (.handling policy raw) → IsResponse raw →
      Legible C (s.policy s.current).queryBytes raw
  | _ => True

/-! ### What is sent -/

@[simp] lemma sent_goto (s : DNSListener IP) (loop : Loop) (stage : Stage IP) :
    (s.goto loop stage).sent = s.sent := by
  cases loop <;> rfl

@[simp] lemma sent_giveUp (s : DNSListener IP) (loop : Loop) : (s.giveUp loop).sent = s.sent := by
  cases loop with
  | udp => rfl
  | tcp conn =>
    rw [giveUp]
    split <;> rfl

variable {stage : Stage IP}

@[simp] lemma silent_goto : (s.goto loop stage).Silent ↔ s.Silent := by
  rw [Silent, sent_goto, Silent]

@[simp] lemma silent_giveUp : (s.giveUp loop).Silent ↔ s.Silent := by
  rw [Silent, sent_giveUp, Silent]

@[simp] lemma silent_setPolicy {i : ℕ} {p : DNSRuntimePolicy IP} :
    (s.setPolicy i p).Silent ↔ s.Silent := Iff.rfl

@[simp] lemma silent_send : (s.send raw response).Silent ↔ s.Silent ∧ ¬ IsResponse raw := by
  simp only [Silent, send, forall_mem_append, forall_mem_singleton]

/-- Answering a response breaks the silence, unless there is nothing to send. -/
lemma silent_respond (hshort : IsResponse raw → response.length ≤ maxDNSMessageSize) :
    (s.respond loop raw response written).Silent ↔ s.Silent ∧ (IsResponse raw → response = []) := by
  by_cases hempty : response = []
  · cases loop <;> simp [respond, hempty]
  · cases loop with
    | udp => simp [respond, hempty]
    | tcp conn =>
      by_cases hlong : maxDNSMessageSize < response.length
      · have hraw : ¬ IsResponse raw := fun hraw => absurd (hshort hraw) (by omega)
        simp [respond, hlong, hraw]
      · cases written <;> simp [respond, hempty, hlong]

lemma silent_respond_error (hC : C.Documented) {rcode : UInt16} :
    (s.respond loop raw (errorResponse C raw rcode) written).Silent ↔
      s.Silent ∧ ¬ IsResponse raw := by
  rw [silent_respond]
  · refine and_congr_right fun _ => ⟨fun h hraw => ?_, fun h hraw => absurd hraw h⟩
    have hlength := length_errorResponse hC hraw rcode
    rw [h hraw] at hlength
    cases hlength
  · intro hraw
    rw [length_errorResponse hC hraw]
    decide

variable {conn : ℕ}

lemma silent_refuse_tcp (hC : C.Documented) :
    (s.refuse C (.tcp conn) raw written).Silent ↔ s.Silent ∧ ¬ IsResponse raw :=
  silent_respond_error hC

@[simp] lemma silent_refuse_udp : (s.refuse C .udp raw written).Silent ↔ s.Silent :=
  silent_giveUp

/-- A loop goes on if a limiter lets its message pass. -/
lemma silent_limited_tcp (hC : C.Documented) {ok : Bool} :
    (if ok then s.goto (.tcp conn) stage else s.refuse C (.tcp conn) raw written).Silent ↔
      s.Silent ∧ (IsResponse raw → ok) := by
  cases ok with
  | true => simp
  | false => simp [silent_refuse_tcp hC]

lemma silent_limited_udp {ok : Bool} :
    (if ok then s.goto .udp stage else s.refuse C .udp raw written).Silent ↔ s.Silent := by
  cases ok <;> simp

@[simp] lemma silent_accept {peer : Option IP} : (s.accept conn peer).Silent ↔ s.Silent := by
  cases peer with
  | none => rfl
  | some peerIP =>
    simp only [accept]
    split_ifs <;> rfl

variable {now : ℤ}

@[simp] lemma silent_datagram {peer : Option IP} : (s.datagram raw peer now).Silent ↔ s.Silent := by
  simp only [datagram]
  split_ifs with hlong
  · rfl
  · cases peer with
    | none => rfl
    | some peerIP =>
      dsimp only
      split_ifs <;> simp

variable {policy : ℕ}

@[simp] lemma silent_frame {c : TCPConn IP} {hi lo : UInt8} :
    (s.frame conn c policy hi lo raw now).Silent ↔ s.Silent := by
  simp only [frame]
  split_ifs <;> simp

lemma silent_select_udp (hC : C.Documented) {done : Bool} :
    (s.select C .udp policy raw done written).Silent ↔
      s.Silent ∧ (IsResponse raw → (s.policy policy).querySlots.free) := by
  simp only [select]
  split_ifs with hfree
  · rw [and_iff_left fun _ => hfree]
    rfl
  · rw [silent_respond_error hC]
    simp [hfree]

lemma silent_select_tcp (hC : C.Documented) {done : Bool} :
    (s.select C (.tcp conn) policy raw done written).Silent ↔
      s.Silent ∧ (IsResponse raw → (s.policy policy).querySlots.free ∨ s.cancelled) := by
  simp only [select]
  split_ifs with hfree hdone
  · rw [silent_goto, silent_setPolicy, and_iff_left fun _ => .inl hfree.1]
  · rw [silent_giveUp, and_iff_left fun _ => .inr hdone]
  · rw [silent_respond_error hC]
    simp only [hdone, Bool.false_eq_true, false_and, not_false_eq_true, and_true] at hfree
    simp [hfree, hdone]

/-- What the handler does to a message: it sends nothing itself, and the response to a message with
the QR bit set is short, and empty if the message can be read. -/
structure Handled (C : WireCodec β) (s : DNSListener IP) (raw : List UInt8) (s' : DNSListener IP)
    (response : List UInt8) : Prop where
  silent_iff : s'.Silent ↔ s.Silent
  short : IsResponse raw → response.length ≤ maxDNSMessageSize
  empty_iff : IsResponse raw →
    (response = [] ↔ Legible C (s.policy s.current).queryBytes raw)

lemma handleQuery_handled (hC : C.Documented) {udp : Bool} {client : Client}
    (h : s.handleQuery C D raw udp client now = some (s', response)) :
    Handled C s raw s' response := by
  simp only [handleQuery, map_eq_some_iff, Prod.exists] at h
  obtain ⟨rawCache, response, hhandle, rfl, rfl⟩ := h
  have hresponse (hraw : IsResponse raw) : response =
      if Legible C (s.policy s.current).queryBytes raw then []
      else errorResponse C raw rCodeFormatError := by
    rw [handleQueryContext_response hC hraw, Option.some.injEq, Prod.mk.injEq] at hhandle
    exact hhandle.2.symm
  refine ⟨Iff.rfl, fun hraw => ?_, fun hraw => ?_⟩
  · rw [hresponse hraw]
    split_ifs
    · exact Nat.zero_le _
    · rw [length_errorResponse hC hraw]
      decide
  · rw [hresponse hraw]
    split_ifs with hlegible
    · exact iff_of_true rfl hlegible
    · refine iff_of_false (fun hempty => ?_) hlegible
      have hlength := length_errorResponse hC hraw rCodeFormatError
      rw [hempty] at hlength
      cases hlength

/-- A loop or a goroutine that sends what the handler gave it. -/
lemma Handled.silent_send_iff (h : Handled C s raw s' response) :
    (if response = [] then s' else s'.send raw response).Silent ↔
      s.Silent ∧ (IsResponse raw → Legible C (s.policy s.current).queryBytes raw) := by
  rw [← h.silent_iff]
  split_ifs with hempty
  · exact (and_iff_left fun hraw => (h.empty_iff hraw).mp hempty).symm
  · rw [silent_send]
    refine and_congr_right fun _ => ⟨fun hraw hraw' => absurd hraw' hraw, fun hpass hraw => ?_⟩
    exact hempty ((h.empty_iff hraw).mpr (hpass hraw))

lemma Handled.silent_respond_iff (h : Handled C s raw s' response) :
    ((s'.release policy).respond loop raw response written).Silent ↔
      s.Silent ∧ (IsResponse raw → Legible C (s.policy s.current).queryBytes raw) := by
  rw [silent_respond h.short]
  exact and_congr h.silent_iff (forall_congr' h.empty_iff)

/-! ### Runs -/

/-- A step keeps the silence exactly when it passes the response on that it has in hand. -/
lemma silent_step [DecidableEq IP] (hC : C.Documented) {e : DNSListenerEvent IP}
    (h : s.step C D e = some s') : s'.Silent ↔ s.Silent ∧ s.Passes C e := by
  cases e with simp only [step] at h
  | install policy | cancel =>
    cases h
    exact (and_iff_left trivial).symm
  | accept conn peer =>
    simp only [ite_none_right_eq_some, Option.some.injEq] at h
    obtain ⟨-, rfl⟩ := h
    simp [Passes]
  | load conn | hangup conn | datagram raw peer now =>
    split at h <;> cases h
    simp [Passes]
  | frame conn hi lo body now =>
    split at h
    · split at h <;> cases h
      simp [Passes]
    · cases h
  | source loop written =>
    split at h
    · rename_i policy raw ip now hstage
      rw [← apply_ite some] at h
      cases h
      cases loop with
      | udp => simp [silent_limited_udp, Passes]
      | tcp conn =>
        rw [silent_limited_tcp hC]
        refine and_congr_right fun _ => ⟨fun hpass => ?_, fun h => h policy raw ip now hstage⟩
        intro policy' raw' ip' now' hstage'
        rw [hstage] at hstage'
        cases hstage'
        exact hpass
    · cases h
  | global loop written =>
    split at h
    · rename_i policy raw now hstage
      rw [← apply_ite some] at h
      cases h
      cases loop with
      | udp => simp [silent_limited_udp, Passes]
      | tcp conn => simp [silent_limited_tcp hC, Passes, hstage]
    · cases h
  | select loop done written =>
    split at h <;> cases h
    rename_i policy raw hstage
    cases loop with
    | udp => simp [Passes, hstage, silent_select_udp hC]
    | tcp conn => simp [Passes, hstage, silent_select_tcp hC]
  | handleUDP i client now =>
    simp only [bind_eq_bind, bind_eq_some_iff, Prod.exists, Option.some.injEq] at h
    obtain ⟨q, hq, s₁, response, hhandle, rfl⟩ := h
    have hhandled := handleQuery_handled hC hhandle
    have hreleased : Handled C s q.raw
        ({ s₁ with queries := s₁.queries.eraseIdx i }.release q.policy) response :=
      ⟨hhandled.silent_iff, hhandled.short, hhandled.empty_iff⟩
    rw [hreleased.silent_send_iff]
    simp [Passes, hq]
  | handleTCP conn client now written =>
    split at h
    · rename_i policy raw hstage
      simp only [bind_eq_bind, bind_eq_some_iff, Prod.exists, Option.some.injEq] at h
      obtain ⟨s₁, response, hhandle, rfl⟩ := h
      rw [(handleQuery_handled hC hhandle).silent_respond_iff]
      simp [Passes, hstage]
    · cases h

/-- Along a run, no message with the QR bit set is answered exactly when each step that has one in
hand passes it on. -/
theorem answers_no_response_iff [DecidableEq IP] (hC : C.Documented)
    {es : List (DNSListenerEvent IP)} (hsent : s.sent = []) (hr : run (step C D) s es = some s') :
    (∀ r ∈ s'.sent, ¬ IsResponse r.request) ↔ Guarded (step C D) (Passes C) s es := by
  have hsilent : s.Silent := by
    rw [Silent, hsent]
    exact fun r hr => nomatch hr
  have hiff := iff_guarded (fun _ _ _ he => silent_step (D := D) hC he) hr
  exact hiff.trans (and_iff_right hsilent)

/-! ### A listener with one slot -/

def headerCodec : WireCodec Empty where
  unpack raw :=
    if 12 ≤ raw.length ∧ (raw.drop 4).take 8 = List.replicate 8 0 then
      some
        { header :=
            { headerOf ((raw.getD 0 0).toUInt16 <<< 8 ||| (raw.getD 1 0).toUInt16) with
              response := raw.getD 2 0 &&& 0x80 ≠ 0
              opCode := (raw.getD 2 0 >>> 3 &&& 0x0f).toUInt16
              recursionDesired := raw.getD 2 0 &&& 1 ≠ 0
              checkingDisabled := raw.getD 3 0 &&& 0x10 ≠ 0
              rCode := (raw.getD 3 0 &&& 0x0f).toUInt16 } }
    else none
  pack m :=
    if m.questions.isEmpty ∧ m.answers.isEmpty ∧ m.additionals.isEmpty then
      some ([(m.header.id >>> 8).toUInt8, m.header.id.toUInt8,
        m.header.response.toUInt8 <<< 7 ||| m.header.opCode.toUInt8 <<< 3 |||
          m.header.truncated.toUInt8 <<< 1 ||| m.header.recursionDesired.toUInt8,
        m.header.recursionAvailable.toUInt8 <<< 7 ||| m.header.checkingDisabled.toUInt8 <<< 4 |||
          m.header.rCode.toUInt8] ++ List.replicate 8 0)
    else none
  questions _ := none

lemma headerCodec_documented : headerCodec.Documented where
  response_eq raw m h := by
    simp only [headerCodec, ite_none_right_eq_some, Option.some.injEq] at h
    obtain ⟨⟨hlong, -⟩, rfl⟩ := h
    simp [IsResponse, hlong]
  pack_header header := ⟨_, rfl, rfl⟩

/-- A library that reads no message, for a listener without a cache. -/
def noCodec : RawCodec Empty where
  unpack _ := none
  pack _ := none

def oneSlotPolicy : DNSRuntimePolicy ℕ where
  querySlots := ⟨1, 0⟩
  tcpSlots := ⟨1, 0⟩
  queryBytes := 512
  allowedClients := []
  rateLimiter := none
  globalLimiter := none
  dnsRules := []
  rawCache := none

def oneSlot : DNSListener ℕ where
  policy _ := oneSlotPolicy
  current := 0
  cancelled := false
  udp := .top
  conns _ := none
  queries := []
  sent := []

/-- A datagram from some source goes through the limiters. -/
def udpRound (raw : List UInt8) : List (DNSListenerEvent ℕ) :=
  [.datagram raw (some 1) 0, .source .udp true, .global .udp true, .select .udp false true]

def emptyClient : Client where
  lookupIP _ _ := ([], 0, none)
  lookupRaw := none

/-- A header with the QR bit set, and a number of questions that do not follow. -/
def responseWith (questions : UInt8) : List UInt8 :=
  [0, 7, 0x80, 0, 0, questions, 0, 0, 0, 0, 0, 0]

/-- A response that is read is dropped. -/
theorem answers_no_response_iff_oneSlot : ∃ t,
    run (step headerCodec noCodec) oneSlot
      (udpRound (responseWith 0) ++ [.handleUDP 0 emptyClient 0]) = some t ∧
    (∀ r ∈ t.sent, ¬ IsResponse r.request) ∧
    Guarded (step headerCodec noCodec) (Passes headerCodec) oneSlot
      (udpRound (responseWith 0) ++ [.handleUDP 0 emptyClient 0]) := by
  have hsilent : ∀ r ∈ ([] : List Reply), ¬ IsResponse r.request := by decide
  exact ⟨_, rfl, hsilent, (answers_no_response_iff headerCodec_documented rfl rfl).mp hsilent⟩

/-- A malformed response is answered, and so is a well-formed one that finds no slot. -/
theorem oneSlot_answers_response :
    (∃ t, run (step headerCodec noCodec) oneSlot
        (udpRound (responseWith 1) ++ [.handleUDP 0 emptyClient 0]) = some t ∧
      ∃ r ∈ t.sent, IsResponse r.request) ∧
    ∃ t, run (step headerCodec noCodec) oneSlot
        (udpRound (responseWith 0) ++ udpRound (responseWith 0)) = some t ∧
      ∃ r ∈ t.sent, IsResponse r.request := by
  refine ⟨⟨_, rfl, ?_⟩, _, rfl, ?_⟩
  · decide
  · decide

end DNSListener

end BypassCore.Inbound
