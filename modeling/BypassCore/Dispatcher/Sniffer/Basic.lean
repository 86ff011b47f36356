import BypassCore.Lib.Reader
import BypassCore.Protocol.HTTP
import BypassCore.Protocol.TLS
import BypassCore.Lib.Writer

/-!
# The TCP sniffer

`SniffMetadata` of `app/dispatcher/sniffer.go`: it reads a bounded part of a connection until the
TLS or the HTTP sniffer has decided, and hands the connection on with what it has read in front.
-/

namespace BypassCore.Dispatcher

open Lib Reader

variable {ε : Type*}

inductive Protocol
  | tls
  | http
  deriving DecidableEq

def completeTLSRecordBytes (data : List UInt8) : Nat :=
  if 5 ≤ data.length then
    let stop := 5 + TLS.uint16 (data.drop 3)
    if data.length < stop then 0 else stop + completeTLSRecordBytes (data.drop stop)
  else 0
termination_by data.length
decreasing_by
  simp only [List.length_drop]
  omega

def containsHeaderEnd : List UInt8 → Bool
  | a :: b :: c :: d :: data =>
    (a == 13 && b == 10 && c == 13 && d == 10) || containsHeaderEnd (b :: c :: d :: data)
  | _ => false

def methods : List (List UInt8) :=
  [ascii "GET ", ascii "POST ", ascii "PUT ", ascii "DELETE ", ascii "HEAD ", ascii "OPTIONS ",
    ascii "CONNECT ", ascii "PATCH "]

/-- Whether the data agrees with the start of a request so far. Both sides have the same number of
bytes and the right one is ASCII, so that `bytes.EqualFold` folds ASCII letters only. -/
def startsMethod (data : List UInt8) : Bool :=
  methods.any fun method => ASCII.equalFold (data.take method.length) (method.take data.length)

def sniffNeedsMore (data : List UInt8) (maxBytes : Nat) : Bool :=
  if data = [] then true
  else if data.head? = some 0x16 then data.length < maxBytes
  else if startsMethod data then data.length < maxBytes && !containsHeaderEnd data
  else false

inductive Round
  | found (domain : List UInt8) (protocol : Protocol)
  | stop
  | more (lastTLSParsed : Nat)

def inspect (S : HTTP.Strings) (maxBytes : Nat) (data : List UInt8) (lastTLSParsed : Nat) : Round :=
  if data.head? = some 0x16 then
    let complete := lastTLSParsed + completeTLSRecordBytes (data.drop lastTLSParsed)
    if lastTLSParsed < complete then
      let r := TLS.sniffSNIWithStatus (data.take complete)
      if r.1 ≠ [] then .found r.1 .tls
      else if r.2 = false then .stop
      else if sniffNeedsMore data maxBytes then .more complete
      else .stop
    else if sniffNeedsMore data maxBytes then .more lastTLSParsed
    else .stop
  else if containsHeaderEnd data then
    if HTTP.sniffHost S data ≠ [] then .found (HTTP.sniffHost S data) .http else .stop
  else if sniffNeedsMore data maxBytes then .more lastTLSParsed
  else .stop

/-- How the loop ended: with a domain, without one, or with a read error (from which the source
takes the label of its failure counter). -/
inductive Ending (ε : Type*)
  | found (domain : List UInt8) (protocol : Protocol)
  | undecided
  | failed (err : ε)

/-- The read loop. It ends with the data that was read, the reader, and its ending. -/
def sniffLoop (S : HTTP.Strings) (eof : ε) (maxBytes : Nat) (data : List UInt8)
    (lastTLSParsed : Nat) (conn : Reader UInt8 ε) : List UInt8 × Reader UInt8 ε × Ending ε :=
  if hmore : data.length < maxBytes then
    match hread : conn.read eof (min 4096 (maxBytes - data.length)) with
    | (chunk, some e, conn') =>
      if chunk = [] then (data, conn', .failed e)
      else
        match inspect S maxBytes (data ++ chunk) lastTLSParsed with
        | .found domain protocol => (data ++ chunk, conn', .found domain protocol)
        | .stop => (data ++ chunk, conn', .undecided)
        | .more _ => (data ++ chunk, conn', .failed e)
    | (chunk, none, conn') =>
      have := read_size_lt (by omega) hread
      if chunk = [] then sniffLoop S eof maxBytes data lastTLSParsed conn'
      else
        match inspect S maxBytes (data ++ chunk) lastTLSParsed with
        | .found domain protocol => (data ++ chunk, conn', .found domain protocol)
        | .stop => (data ++ chunk, conn', .undecided)
        | .more lastTLSParsed => sniffLoop S eof maxBytes (data ++ chunk) lastTLSParsed conn'
  else (data, conn, .undecided)
termination_by conn.size

/-- A connection as the sniffer returns it: as it came, or with bytes to replay first. -/
inductive Conn (ε : Type*)
  | plain (conn : Reader UInt8 ε)
  | prepend (buf : List UInt8) (conn : Reader UInt8 ε)

structure Sniffer where
  enabled : Bool
  maxBytes : Nat

structure Metadata (ε : Type*) where
  conn : Conn ε
  domain : List UInt8
  protocol : Option Protocol
  ending : Ending ε

def Sniffer.sniffMetadata (s : Sniffer) (S : HTTP.Strings) (eof : ε) (conn : Reader UInt8 ε) :
    Metadata ε :=
  if s.enabled then
    match sniffLoop S eof s.maxBytes [] 0 conn with
    | (data, conn', .found domain protocol) =>
      ⟨.prepend data conn', domain, some protocol, .found domain protocol⟩
    | (data, conn', ending) =>
      if data = [] then ⟨.plain conn', [], none, ending⟩
      else ⟨.prepend data conn', [], none, ending⟩
  else ⟨.plain conn, [], none, .undecided⟩

/-!
## The connection after sniffing

`prependConn` of `app/dispatcher/sniffer.go` replays what the sniffer has read and goes on with the
connection. Sniffing takes nothing from the stream, wherever it stops.
-/

open List

namespace Conn

def read (eof : ε) (k : Nat) : Conn ε → List UInt8 × Option ε × Conn ε
  | .plain conn =>
    let (data, err, conn') := conn.read eof k
    (data, err, .plain conn')
  | .prepend buf conn =>
    if 0 < buf.length then (buf.take k, none, .prepend (buf.drop k) conn)
    else
      let (data, err, conn') := conn.read eof k
      (data, err, .prepend buf conn')

def reads (eof : ε) : List Nat → Conn ε → List (List UInt8 × Option ε) × Conn ε
  | [], c => ([], c)
  | k :: ks, c =>
    let (data, err, c') := c.read eof k
    let (rest, c'') := c'.reads eof ks
    ((data, err) :: rest, c'')

def stream : Conn ε → List UInt8
  | .plain conn => conn.stream
  | .prepend buf conn => buf ++ conn.stream

def untilError : Conn ε → List UInt8
  | .plain conn => conn.untilError
  | .prepend buf conn => buf ++ conn.untilError

def replayed : Conn ε → List UInt8
  | .plain _ => []
  | .prepend buf _ => buf

def rest : Conn ε → Reader UInt8 ε
  | .plain conn => conn
  | .prepend _ conn => conn

/-- A bound on the reads that it can be taken in. -/
def size : Conn ε → Nat
  | .plain conn => conn.size
  | .prepend buf conn => buf.length + conn.size

variable {eof : ε} {k : Nat} {c c' : Conn ε} {data : List UInt8} {err : Option ε}

/-- What a read can be: a part of the replayed bytes, or a read of the connection. -/
lemma read_cases (h : c.read eof k = (data, err, c')) :
    (∃ buf conn, 0 < buf.length ∧ c = .prepend buf conn ∧ data = buf.take k ∧ err = none ∧
      c' = .prepend (buf.drop k) conn) ∨
    ∃ conn conn', conn.read eof k = (data, err, conn') ∧
      ((c = .plain conn ∧ c' = .plain conn') ∨
        (c = .prepend [] conn ∧ c' = .prepend [] conn')) := by
  cases c with
  | plain conn =>
    cases h
    exact .inr ⟨conn, _, rfl, .inl ⟨rfl, rfl⟩⟩
  | prepend buf conn =>
    rw [read] at h
    split_ifs at h with hbuf <;> cases h
    · exact .inl ⟨buf, conn, hbuf, rfl, rfl, rfl, rfl⟩
    · obtain rfl : buf = [] := length_eq_zero_iff.mp (by omega)
      exact .inr ⟨conn, _, rfl, .inr ⟨rfl, rfl⟩⟩

lemma read_stream (h : c.read eof k = (data, err, c')) : data ++ c'.stream = c.stream := by
  rcases read_cases h with ⟨buf, conn, -, rfl, rfl, -, rfl⟩ | ⟨conn, conn', hr, hc⟩
  · rw [stream, stream, ← append_assoc, List.take_append_drop]
  · rcases hc with ⟨rfl, rfl⟩ | ⟨rfl, rfl⟩ <;> exact read_stream hr

lemma read_untilError_none (h : c.read eof k = (data, none, c')) :
    data ++ c'.untilError = c.untilError := by
  rcases read_cases h with ⟨buf, conn, -, rfl, rfl, -, rfl⟩ | ⟨conn, conn', hr, hc⟩
  · rw [untilError, untilError, ← append_assoc, List.take_append_drop]
  · rcases hc with ⟨rfl, rfl⟩ | ⟨rfl, rfl⟩ <;> exact read_untilError_none hr

lemma read_untilError_some {e : ε} (h : c.read eof k = (data, some e, c')) :
    c.untilError = data := by
  rcases read_cases h with ⟨buf, conn, -, rfl, rfl, herr, rfl⟩ | ⟨conn, conn', hr, hc⟩
  · cases herr
  · rcases hc with ⟨rfl, rfl⟩ | ⟨rfl, rfl⟩ <;> exact read_untilError_some hr

lemma read_firstError_none (h : c.read eof k = (data, none, c')) :
    c'.rest.firstError eof = c.rest.firstError eof := by
  rcases read_cases h with ⟨buf, conn, -, rfl, -, -, rfl⟩ | ⟨conn, conn', hr, hc⟩
  · rfl
  · rcases hc with ⟨rfl, rfl⟩ | ⟨rfl, rfl⟩ <;> exact read_firstError_none hr

lemma read_firstError_some {e : ε} (h : c.read eof k = (data, some e, c')) :
    c.rest.firstError eof = e := by
  rcases read_cases h with ⟨buf, conn, -, rfl, rfl, herr, rfl⟩ | ⟨conn, conn', hr, hc⟩
  · cases herr
  · rcases hc with ⟨rfl, rfl⟩ | ⟨rfl, rfl⟩ <;> exact read_firstError_some hr

lemma read_size_lt (hk : 0 < k) (h : c.read eof k = (data, none, c')) : c'.size < c.size := by
  rcases read_cases h with ⟨buf, conn, hbuf, rfl, rfl, -, rfl⟩ | ⟨conn, conn', hr, hc⟩
  · rw [size, size, length_drop]
    omega
  · have := Reader.read_size_lt hk hr
    rcases hc with ⟨rfl, rfl⟩ | ⟨rfl, rfl⟩
    · exact this
    · exact Nat.add_lt_add_left this _

/-- The calls return the front of the stream, in order. -/
lemma reads_stream (eof : ε) (ks : List Nat) (c : Conn ε) :
    (c.reads eof ks).1.flatMap Prod.fst ++ (c.reads eof ks).2.stream = c.stream := by
  induction ks generalizing c with
  | nil => rfl
  | cons k ks ih =>
    rcases hread : c.read eof k with ⟨data, err, c'⟩
    rw [← read_stream hread, ← ih c']
    simp [reads, hread]

/-- What every read keeps of the rest, a sequence of them keeps. -/
lemma reads_of_read {P : Reader UInt8 ε → Prop}
    (hP : ∀ k data err conn conn', conn.read eof k = (data, err, conn') → P conn → P conn')
    (ks : List Nat) (c : Conn ε) (h : P c.rest) : P (c.reads eof ks).2.rest := by
  induction ks generalizing c with
  | nil => exact h
  | cons k ks ih =>
    rcases hread : c.read eof k with ⟨data, err, c'⟩
    have hc' : P c'.rest := by
      rcases read_cases hread with ⟨buf, conn, -, rfl, -, -, rfl⟩ | ⟨conn, conn', hr, hc⟩
      · exact h
      · rcases hc with ⟨rfl, rfl⟩ | ⟨rfl, rfl⟩ <;> exact hP _ _ _ _ _ hr h
    simpa [reads, hread] using ih c' hc'

lemma untilError_eq_stream (h : ∀ p ∈ c.rest, p.2 = none) : c.untilError = c.stream := by
  cases c with
  | plain conn => exact untilError_eq_stream h
  | prepend buf conn => exact congrArg (buf ++ ·) (untilError_eq_stream h)

lemma untilError_isPrefix (c : Conn ε) : c.untilError <+: c.stream := by
  cases c with
  | plain conn => exact conn.untilError_isPrefix
  | prepend buf conn => exact (prefix_append_right_inj buf).mpr conn.untilError_isPrefix

end Conn

lemma sniffLoop_stream (S : HTTP.Strings) (eof : ε) (maxBytes : Nat) (data : List UInt8)
    (lastTLSParsed : Nat) (conn : Reader UInt8 ε) :
    (sniffLoop S eof maxBytes data lastTLSParsed conn).1 ++
      (sniffLoop S eof maxBytes data lastTLSParsed conn).2.1.stream = data ++ conn.stream := by
  fun_induction sniffLoop S eof maxBytes data lastTLSParsed conn with
  | case1 data _ conn _ e conn' hread => rw [← read_stream hread, nil_append]
  | case5 data _ conn _ conn' hread _ ih => rw [ih, ← read_stream hread, nil_append]
  | case8 data _ conn _ chunk conn' hread _ _ _ _ ih =>
    rw [ih, ← read_stream hread, append_assoc]
  | case9 => rfl
  | _ =>
    have hread := read_stream ‹read _ _ _ = _›
    rw [← hread, append_assoc]

variable {P : Reader UInt8 ε → Prop}

/-- What every read keeps of the connection, the loop keeps. -/
lemma sniffLoop_of_read (S : HTTP.Strings) (eof : ε) (maxBytes : Nat)
    (hP : ∀ k data err conn conn', conn.read eof k = (data, err, conn') → P conn → P conn')
    (data : List UInt8) (lastTLSParsed : Nat) (conn : Reader UInt8 ε) (h : P conn) :
    P (sniffLoop S eof maxBytes data lastTLSParsed conn).2.1 := by
  fun_induction sniffLoop S eof maxBytes data lastTLSParsed conn with
  | case5 data _ conn _ conn' hread _ ih => exact ih (hP _ _ _ _ _ hread h)
  | case8 data _ conn _ chunk conn' hread _ _ _ _ ih => exact ih (hP _ _ _ _ _ hread h)
  | case9 => exact h
  | _ => exact hP _ _ _ _ _ ‹read _ _ _ = _› h

/-- The connection that is handed on: the loop's data in front of the loop's connection. -/
lemma sniffMetadata_conn (s : Sniffer) (S : HTTP.Strings) (eof : ε) (conn : Reader UInt8 ε) :
    (s.sniffMetadata S eof conn).conn = .plain conn ∨
      let r := sniffLoop S eof s.maxBytes [] 0 conn
      (s.sniffMetadata S eof conn).conn = .prepend r.1 r.2.1 ∨
        (r.1 = [] ∧ (s.sniffMetadata S eof conn).conn = .plain r.2.1) := by
  rw [Sniffer.sniffMetadata]
  split_ifs
  · right
    rcases sniffLoop S eof s.maxBytes [] 0 conn with ⟨data, conn', ending⟩
    cases ending with
    | found domain protocol => exact .inl rfl
    | _ =>
      by_cases hdata : data = []
      · exact .inr ⟨hdata, by simp [hdata]⟩
      · exact .inl (by simp [hdata])
  · exact .inl rfl

lemma sniffMetadata_stream (s : Sniffer) (S : HTTP.Strings) (eof : ε) (conn : Reader UInt8 ε) :
    (s.sniffMetadata S eof conn).conn.stream = conn.stream := by
  have hloop := sniffLoop_stream S eof s.maxBytes [] 0 conn
  rcases sniffMetadata_conn s S eof conn with h | h | ⟨hdata, h⟩
  · rw [h, Conn.stream]
  · rw [h, Conn.stream, hloop, nil_append]
  · rw [hdata, nil_append] at hloop
    rw [h, Conn.stream, hloop, nil_append]

lemma sniffMetadata_of_read (s : Sniffer) (S : HTTP.Strings) (eof : ε)
    (hP : ∀ k data err conn conn', conn.read eof k = (data, err, conn') → P conn → P conn')
    (conn : Reader UInt8 ε) (h : P conn) : P (s.sniffMetadata S eof conn).conn.rest := by
  have hloop := sniffLoop_of_read S eof s.maxBytes hP [] 0 conn h
  rcases sniffMetadata_conn s S eof conn with hc | hc | ⟨-, hc⟩
  · rwa [hc]
  · rwa [hc]
  · rwa [hc]

end BypassCore.Dispatcher
