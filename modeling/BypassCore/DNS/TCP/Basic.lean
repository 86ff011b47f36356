import BypassCore.Lib.Reader
import BypassCore.Lib.Writer
import Mathlib.Data.Finset.Basic

/-!
# DNS over TCP

The exchange of `app/dns/nameserver_tcp.go`: a message on a connection, the pool of idle
connections, and the exchange that reuses one of them and tries once more when that fails.
-/

namespace BypassCore.DNS.TCP

open Lib

/-- The errors that the exchange tells apart or makes; all others by their text. -/
inductive Err
  | eof
  | unexpectedEOF
  | errClosed
  | new (text : String)
  deriving DecidableEq

variable (w : Lib.Writer UInt8 Err)

/-- A connection: what it takes of the writes, and what the peer sends on it. -/
structure Conn where
  id : Nat
  writer : Lib.Writer UInt8 Err
  reader : Reader UInt8 Err

def writeDNSPayload (payload : List UInt8) : Option Err × Lib.Writer UInt8 Err :=
  w.writeFully .unexpectedEOF payload

/-- `binary.Write` of a big-endian `uint16`: one write, of which only the error counts. -/
def writeUint16 (n : Nat) : Option Err × Lib.Writer UInt8 Err :=
  (w.write [UInt8.ofNat (n / 256), UInt8.ofNat n]).2

def readUint16 (r : Reader UInt8 Err) : Except Err Nat × Reader UInt8 Err :=
  match r.readFull .eof .unexpectedEOF 2 with
  | (.ok (hi :: lo :: _), r') => (.ok (hi.toNat * 256 + lo.toNat), r')
  | (.ok _, r') => (.error .unexpectedEOF, r')
  | (.error e, r') => (.error e, r')

def writeQuery (query : List UInt8) : Option Err × Lib.Writer UInt8 Err :=
  match writeUint16 w query.length with
  | (some e, w') => (some e, w')
  | (none, w') => writeDNSPayload w' query

def readResponse (r : Reader UInt8 Err) : Except Err (List UInt8) × Reader UInt8 Err :=
  match readUint16 r with
  | (.error e, r') => (.error e, r')
  | (.ok length, r') =>
    if length = 0 then (.error (.new "empty DNS over TCP response"), r')
    else r'.readFull .eof .unexpectedEOF length

def exchangeDNSMessage (conn : Conn) (query : List UInt8) : Except Err (List UInt8) × Conn :=
  match writeQuery conn.writer query with
  | (some e, w) => (.error e, { conn with writer := w })
  | (none, w) =>
    let (response, r) := readResponse conn.reader
    (response, { conn with writer := w, reader := r })

/-! ### Messages on the wire -/

variable {message rest : List UInt8} {r : Reader UInt8 Err}

lemma out_writeQuery : (writeQuery ⟨[], []⟩ message).2.out =
    [UInt8.ofNat (message.length / 256), UInt8.ofNat message.length] ++ message := by
  cases message <;> simp [writeQuery, writeUint16, writeDNSPayload, Lib.Writer.write,
    Lib.Writer.writeFully]

/-- **Framing.** A message is read as it was written, however the stream is cut on its way, and
what follows it is left for the next read. -/
theorem readResponse_of_writeQuery (hne : message ≠ []) (hlen : message.length < 2 ^ 16)
    (hr : r.Delivers ((writeQuery ⟨[], []⟩ message).2.out ++ rest)) :
    ∃ r', readResponse r = (.ok message, r') ∧ r'.Delivers rest := by
  rw [out_writeQuery, List.append_assoc] at hr
  obtain ⟨r₁, hsize, hr₁⟩ : ∃ r₁, r.readFull .eof .unexpectedEOF 2 = (.ok _, r₁) ∧ r₁.Delivers _ :=
    Reader.readFull_of_delivers .unexpectedEOF hr rfl
  obtain ⟨r₂, hmessage, hr₂⟩ : ∃ r₂, r₁.readFull .eof .unexpectedEOF message.length = (_, r₂) ∧ _ :=
    Reader.readFull_of_delivers .unexpectedEOF hr₁ rfl
  have hlength : message.length / 256 % 256 * 256 + message.length % 256 = message.length := by
    omega
  refine ⟨r₂, ?_, hr₂⟩
  simp [readResponse, readUint16, hsize, hlength, hne, hmessage]

theorem readResponse_of_writeQuery_cut :
    ∃ r', readResponse [([0], none), ([2, 5], none), ([7, 9], none)] = (.ok [5, 7], r') ∧
      r'.Delivers [9] :=
  readResponse_of_writeQuery (by simp) (by simp) (by simp [out_writeQuery, Reader.Delivers])

def defaultDNSMaxIdleTCPConnections : Nat := 4

structure TCPNameServer where
  idleConns : List Conn
  activeConns : Finset Nat
  closed : Bool

/-- `dial`: the connection or an error. Other calls may change the server meanwhile. -/
abbrev Dial := TCPNameServer → Except Err Conn × TCPNameServer

namespace TCPNameServer

def acquireTCP (dial : Dial) (s : TCPNameServer) : Except Err (Conn × Bool) × TCPNameServer :=
  if s.closed then (.error .errClosed, s)
  else
    match s.idleConns with
    | conn :: idle =>
      (.ok (conn, true),
        { s with idleConns := idle, activeConns := insert conn.id s.activeConns })
    | [] =>
      match dial s with
      | (.error e, s') => (.error e, s')
      | (.ok conn, s') =>
        if s'.closed then (.error .errClosed, s')
        else (.ok (conn, false), { s' with activeConns := insert conn.id s'.activeConns })

/-- A healthy connection goes to the back of the idle ones if there is room; any other is closed. -/
def releaseTCP (conn : Conn) (healthy : Bool) (s : TCPNameServer) : TCPNameServer :=
  let s := { s with activeConns := s.activeConns.erase conn.id }
  if !healthy || s.closed then s
  else if s.idleConns.length < defaultDNSMaxIdleTCPConnections then
    { s with idleConns := s.idleConns ++ [conn] }
  else s

/-- What an attempt finds the context to be: not done; done before the exchange had ended, with its
error; or done only when the exchange had failed. -/
inductive Context
  | live
  | cancelled (err : Err)
  | doneAfter

/-- What counts as the outcome of a message: a response that does not pass is an error. -/
def checked (validate : Option (List UInt8 → Option Err)) :
    Except Err (List UInt8) → Except Err (List UInt8)
  | .error e => .error e
  | .ok response =>
    match validate.bind fun validate => validate response with
    | none => .ok response
    | some e => .error e

def attempts (dial : Dial) (query : List UInt8) (validate : Option (List UInt8 → Option Err)) :
    List Context → TCPNameServer → Except Err (List UInt8) × TCPNameServer
  | [], s => (.error (.new "DNS over TCP exchange failed"), s)
  | ctx :: rest, s =>
    match s.acquireTCP dial with
    | (.error e, s) => (.error e, s)
    | (.ok (conn, reused), s) =>
      let (result, conn) := exchangeDNSMessage conn query
      match ctx with
      | .cancelled err => (.error err, s.releaseTCP conn false)
      | _ =>
        match checked validate result with
        | .ok response => (.ok response, s.releaseTCP conn true)
        | .error e =>
          if !reused || ctx matches .doneAfter then (.error e, s.releaseTCP conn false)
          else attempts dial query validate rest (s.releaseTCP conn false)

/-- `exchangeTCP`, with the context as its two attempts find it. -/
def exchangeTCP (dial : Dial) (query : List UInt8) (validate : Option (List UInt8 → Option Err))
    (ctx ctx' : Context) (s : TCPNameServer) : Except Err (List UInt8) × TCPNameServer :=
  attempts dial query validate [ctx, ctx'] s

end TCPNameServer

/-!
## Idle connections that the peer has closed

An idle connection may have been closed by the peer without notice, so a failed exchange on a
reused connection is tried once more. The second attempt takes the next idle connection, which may
be closed as well: the exchange survives one stale connection in front, not two.
-/

variable {conn : Conn} {query response : List UInt8}

/-- The peer sends nothing more. Writes may still be taken. -/
def Conn.Closed (conn : Conn) : Prop := conn.reader.stream = []

def Conn.Completes (query response : List UInt8) (conn : Conn) : Prop :=
  (exchangeDNSMessage conn query).1 = .ok response

lemma readResponse_of_stream_nil {r : Reader UInt8 Err} (h : r.stream = []) :
    ∃ e, (readResponse r).1 = .error e := by
  obtain ⟨e, he⟩ : ∃ e, (r.readFull .eof .unexpectedEOF 2).1 = .error e :=
    Reader.readFull_of_stream_nil .unexpectedEOF Nat.zero_lt_two h
  rcases hfull : r.readFull .eof .unexpectedEOF 2 with ⟨result, r'⟩
  rw [hfull] at he
  obtain rfl : result = .error e := he
  exact ⟨e, by simp [readResponse, readUint16, hfull]⟩

lemma Conn.Closed.exchange (h : conn.Closed) (query : List UInt8) :
    ∃ e, (exchangeDNSMessage conn query).1 = .error e := by
  rw [exchangeDNSMessage]
  rcases writeQuery conn.writer query with ⟨_ | e, w⟩
  · exact readResponse_of_stream_nil h
  · exact ⟨e, rfl⟩

lemma Conn.Closed.not_completes (h : conn.Closed) : ¬ conn.Completes query response := by
  obtain ⟨e, he⟩ := h.exchange query
  intro hok
  rw [Conn.Completes, he] at hok
  cases hok

namespace TCPNameServer

variable {dial : Dial} {validate : Option (List UInt8 → Option Err)} {s : TCPNameServer}
  {ctxs : List Context}

def Passes (validate : Option (List UInt8 → Option Err)) (response : List UInt8) : Prop :=
  checked validate (.ok response) = .ok response

lemma attempts_of_acquire {s' : TCPNameServer} {reused : Bool}
    (hacquire : s.acquireTCP dial = (.ok (conn, reused), s'))
    (hconn : conn.Completes query response) (hpass : Passes validate response) :
    (attempts dial query validate (.live :: ctxs) s).1 = .ok response := by
  rw [Conn.Completes] at hconn
  rw [Passes] at hpass
  simp [attempts, hacquire, hconn, hpass]

/-- An attempt on a stale connection only takes it out of the pool. -/
lemma attempts_of_closed (dial : Dial) (query : List UInt8)
    (validate : Option (List UInt8 → Option Err)) (ctxs : List Context) {idle : List Conn}
    (hopen : s.closed = false) (hidle : s.idleConns = conn :: idle) (hconn : conn.Closed) :
    ∃ s' : TCPNameServer, s'.idleConns = idle ∧ s'.closed = false ∧
      attempts dial query validate (.live :: ctxs) s = attempts dial query validate ctxs s' := by
  obtain ⟨e, he⟩ := hconn.exchange query
  simp only [attempts, acquireTCP, hopen, hidle, Bool.false_eq_true, if_false, he]
  refine ⟨_, ?_, ?_, rfl⟩
  · rfl
  · rfl

/-- How the exchange fares with some number of attempts. -/
lemma attempts_live_iff (hdial : ∀ s, s.closed = false → ∃ conn s', dial s = (.ok conn, s') ∧
      s'.closed = false ∧ conn.Completes query response)
    (hpass : Passes validate response) (hopen : s.closed = false)
    (hidle : ∀ conn ∈ s.idleConns, conn.Closed ∨ conn.Completes query response) (n : Nat) :
    (attempts dial query validate (List.replicate n .live) s).1 = .ok response ↔
      ¬ (n ≤ s.idleConns.length ∧ ∀ conn ∈ s.idleConns.take n, conn.Closed) := by
  induction n generalizing s with
  | zero => simp [attempts]
  | succ n ih =>
    rw [List.replicate_succ]
    cases hlist : s.idleConns with
    | nil =>
      obtain ⟨conn, s', hconn, hopen', hcompletes⟩ := hdial s hopen
      have hacquire : s.acquireTCP dial =
          (.ok (conn, false), { s' with activeConns := insert conn.id s'.activeConns }) := by
        simp [acquireTCP, hopen, hlist, hconn, hopen']
      simp [attempts_of_acquire hacquire hcompletes hpass]
    | cons conn idle =>
      rw [hlist, List.forall_mem_cons] at hidle
      rcases hidle.1 with hclosed | hcompletes
      · obtain ⟨s', hidle', hopen', heq⟩ :=
          attempts_of_closed dial query validate (List.replicate n .live) hopen hlist hclosed
        rw [heq, ih hopen' (by rw [hidle']; exact hidle.2), hidle']
        simp [hclosed]
      · have hacquire : s.acquireTCP dial = (.ok (conn, true),
            { s with idleConns := idle, activeConns := insert conn.id s.activeConns }) := by
          simp [acquireTCP, hopen, hlist]
        have hnot : ¬ conn.Closed := fun h => h.not_completes hcompletes
        simp [attempts_of_acquire hacquire hcompletes hpass, hnot]

/-- **Stale connections.** Let every idle connection be closed by the peer or answer as the
upstream does, and let a fresh connection always complete the exchange with a response that passes.
The exchange of an open server with a live context returns that response exactly when the two
connections at the front of the pool are not both closed. -/
theorem exchangeTCP_eq_ok_iff (dial : Dial) (query response : List UInt8)
    (validate : Option (List UInt8 → Option Err)) (s : TCPNameServer)
    (hdial : ∀ s, s.closed = false → ∃ conn s', dial s = (.ok conn, s') ∧ s'.closed = false ∧
      conn.Completes query response) (hpass : Passes validate response) (hopen : s.closed = false)
    (hidle : ∀ conn ∈ s.idleConns, conn.Closed ∨ conn.Completes query response) :
    (exchangeTCP dial query validate .live .live s).1 = .ok response ↔
      ¬ (2 ≤ s.idleConns.length ∧ ∀ conn ∈ s.idleConns.take 2, conn.Closed) :=
  attempts_live_iff hdial hpass hopen hidle 2

def staleConn (id : Nat) : Conn := ⟨id, ⟨[], []⟩, []⟩

def freshConn (id : Nat) : Conn := ⟨id, ⟨[], []⟩, [([0, 1, 42], none)]⟩

lemma closed_staleConn (id : Nat) : (staleConn id).Closed := rfl

lemma completes_freshConn (id : Nat) : (freshConn id).Completes [7] [42] := by
  simp [Conn.Completes, exchangeDNSMessage, freshConn, writeQuery, writeUint16, writeDNSPayload,
    Lib.Writer.write, Lib.Writer.writeFully, readResponse, readUint16, Reader.readFull, Reader.fill,
    Reader.read]

/-- One stale connection is survived. -/
theorem exchangeTCP_eq_ok_iff_oneStale :
    (exchangeTCP (fun s => (.ok (freshConn 9), s)) [7] none .live .live
      ⟨[staleConn 0], ∅, false⟩).1 = .ok [42] :=
  (exchangeTCP_eq_ok_iff (fun s => (.ok (freshConn 9), s)) [7] [42] none
    ⟨[staleConn 0], ∅, false⟩ (fun s h => ⟨_, s, rfl, h, completes_freshConn 9⟩) rfl rfl
    (by simp [closed_staleConn])).mpr (by simp)

/-- Two stale connections in front of the pool are not, although a fresh one would answer. -/
theorem exchangeTCP_twoStale :
    (freshConn 9).Completes [7] [42] ∧ (staleConn 0).Closed ∧ (staleConn 1).Closed ∧
      (exchangeTCP (fun s => (.ok (freshConn 9), s)) [7] none .live .live
        ⟨[staleConn 0, staleConn 1], ∅, false⟩).1 =
          .error (.new "DNS over TCP exchange failed") := by
  refine ⟨completes_freshConn 9, rfl, rfl, ?_⟩
  obtain ⟨s, hidle, hopen, heq⟩ := attempts_of_closed (fun s => (.ok (freshConn 9), s)) [7] none
    [.live] (s := ⟨[staleConn 0, staleConn 1], ∅, false⟩) rfl rfl (closed_staleConn 0)
  obtain ⟨s', -, -, heq'⟩ := attempts_of_closed (fun s => (.ok (freshConn 9), s)) [7] none
    [] hopen hidle (closed_staleConn 1)
  rw [exchangeTCP, heq, heq']
  rfl

end TCPNameServer

end BypassCore.DNS.TCP
