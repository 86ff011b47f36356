import BypassCore.Dispatcher.Sniffer.Basic

/-!
# Copying from the client to the outbound

`copyWithIdleTimeout` of `transport/bridge.go`, with and without a guard, from a connection that
the sniffer has returned. Without a guard it is `io.Copy`, which uses `prependConn.WriteTo`. The
guard only moves deadlines; an expired one is a read or a write that fails.

The outbound receives the stream of the client in order, up to the first error.
-/

namespace BypassCore.Transport

open Lib Dispatcher List

variable {ε : Type*}

def bridgeBufferSize : Nat := 32 * 1024

/-- `writeFullyWithActivity`, and the loop of `prependConn.WriteTo` over its buffer. -/
abbrev writeFullyWithActivity (shortWrite : ε) (w : Writer UInt8 ε) (data : List UInt8) :
    Option ε × Writer UInt8 ε :=
  w.writeFully shortWrite data

/-- How `io.Copy` writes a chunk: once, and a short write is an error. -/
def writeOnce (shortWrite : ε) (w : Writer UInt8 ε) (data : List UInt8) :
    Option ε × Writer UInt8 ε :=
  match w.write data with
  | (_, some e, w') => (some e, w')
  | (n, none, w') => if n = data.length then (none, w') else (some shortWrite, w')

/-- Whether a copy ended with an error of the source or of the destination. -/
inductive Stop (ε : Type*)
  | read (e : ε)
  | write (e : ε)

/-- The write of a chunk, which is left out when nothing was read. -/
def writeChunk (put : Writer UInt8 ε → List UInt8 → Option ε × Writer UInt8 ε)
    (w : Writer UInt8 ε) (data : List UInt8) : Option ε × Writer UInt8 ε :=
  if 0 < data.length then put w data else (none, w)

/-- Read a chunk, write it with `put`, until either fails. -/
def copyLoop (eof : ε) (put : Writer UInt8 ε → List UInt8 → Option ε × Writer UInt8 ε)
    (w : Writer UInt8 ε) (src : Conn ε) : Stop ε × Writer UInt8 ε :=
  match hread : src.read eof bridgeBufferSize with
  | (data, some e, _) =>
    match writeChunk put w data with
    | (some writeErr, w') => (.write writeErr, w')
    | (none, w') => (.read e, w')
  | (data, none, src') =>
    have := Conn.read_size_lt (show 0 < bridgeBufferSize by decide) hread
    match writeChunk put w data with
    | (some writeErr, w') => (.write writeErr, w')
    | (none, w') => copyLoop eof put w' src'
termination_by src.size

/-- `prependConn.WriteTo` and `io.Copy`, whose loop has a buffer of the same size. -/
def ioCopy (eof shortWrite : ε) (w : Writer UInt8 ε) : Conn ε → Stop ε × Writer UInt8 ε
  | .plain conn => copyLoop eof (writeOnce shortWrite) w (.plain conn)
  | .prepend buf conn =>
    match w.writeFully shortWrite buf with
    | (some e, w') => (.write e, w')
    | (none, w') => copyLoop eof (writeOnce shortWrite) w' (.plain conn)

/-- `copyWithIdleTimeout`: the error that it returns and the destination afterwards. -/
def copyWithIdleTimeout [DecidableEq ε] (eof shortWrite : ε) (guard : Bool) (dst : Writer UInt8 ε)
    (src : Conn ε) : Option ε × Writer UInt8 ε :=
  if guard then
    match copyLoop eof (writeFullyWithActivity shortWrite) dst src with
    | (.read e, dst') => (some e, dst')
    | (.write e, dst') => (some e, dst')
  else
    match ioCopy eof shortWrite dst src with
    | (.read e, dst') => (if e = eof then none else some e, dst')
    | (.write e, dst') => (some e, dst')

/-! ### What a copy delivers -/

variable {once once' : ℕ → Prop} {shortWrite e readErr : ε} {w w' w'' : Writer UInt8 ε}
  {d data rest : List UInt8} {stop : Stop ε}

/-- How a copy ends: at the first read error with everything before it delivered, or at the first
write that fails. -/
inductive Copied (once : ℕ → Prop) (shortWrite readErr : ε) (w : Writer UInt8 ε)
    (data : List UInt8) : Stop ε → Writer UInt8 ε → Prop
  | read {w' : Writer UInt8 ε} (h : w.Sent data data w') :
    Copied once shortWrite readErr w data (.read readErr) w'
  | write {e : ε} {w' : Writer UInt8 ε} (h : w.Fails once shortWrite data e w') :
    Copied once shortWrite readErr w data (.write e) w'

/-- A copy that goes on after some data has been delivered. -/
lemma Copied.after (h : w.Sent d d w') (honce : ∀ k, once k → once' (d.length + k))
    (hc : Copied once shortWrite readErr w' rest stop w'') :
    Copied once' shortWrite readErr w (d ++ rest) stop w'' := by
  have hd := h.mono ( prefix_append d rest)
  cases hc with
  | read hsent => exact .read (hd.trans hsent)
  | write hfails => exact .write (.after hd honce hfails)

lemma Copied.out_isPrefix {plan : List (Nat × Option ε)}
    (h : Copied once shortWrite readErr ⟨plan, []⟩ data stop w) : w.out <+: data := by
  cases h with
  | read hsent => exact hsent.out_eq ▸ prefix_rfl
  | write hfails =>
    obtain ⟨part, hpart, hout⟩ := hfails.out_eq
    exact hout ▸ hpart

/-- What the copy loop needs of the way a chunk is written. -/
def Puts (once : Prop) (shortWrite : ε)
    (put : Writer UInt8 ε → List UInt8 → Option ε × Writer UInt8 ε) : Prop :=
  ∀ (w : Writer UInt8 ε) (data : List UInt8), data ≠ [] →
    w.Wrote (fun _ => once) shortWrite data (put w data).1 (put w data).2

lemma puts_writeFully (shortWrite : ε) :
    Puts False shortWrite (writeFullyWithActivity shortWrite) :=
  fun w data _ => Writer.writeFully_spec (fun _ => False) shortWrite w data

lemma puts_writeOnce (shortWrite : ε) : Puts True shortWrite (writeOnce shortWrite) := by
  intro w data hne
  rcases hwrite : w.write data with ⟨n, err, w'⟩
  cases err with
  | some e =>
    simp only [writeOnce, hwrite]
    exact .failed ⟨[], data, w, n, some e, .nothing, hne, prefix_rfl, hwrite, rfl, .inl nofun⟩
  | none =>
    simp only [writeOnce, hwrite]
    split_ifs with hn
    · have hsent := Writer.Sent.nothing.chunk hne prefix_rfl (hn ▸ length_pos_iff.mpr hne) hwrite
      rw [hn, take_length] at hsent
      exact .all hsent
    · have hlt : n < data.length := lt_of_le_of_ne (Writer.write_spec hwrite).2 hn
      exact .failed ⟨[], data, w, n, none, .nothing, hne, prefix_rfl, hwrite, rfl,
        .inr (.inr ⟨trivial, hlt⟩)⟩

variable {c : Prop} {put : Writer UInt8 ε → List UInt8 → Option ε × Writer UInt8 ε}

lemma Puts.writeChunk (hput : Puts c shortWrite put) (w : Writer UInt8 ε) (data : List UInt8) :
    w.Wrote (fun _ => c) shortWrite data (writeChunk put w data).1 (writeChunk put w data).2 := by
  rw [Transport.writeChunk]
  split_ifs with hdata
  · exact hput w data (length_pos_iff.mp hdata)
  · obtain rfl : data = [] := length_eq_zero_iff.mp (by omega)
    exact .all .nothing

lemma copyLoop_spec (eof : ε) (hput : Puts c shortWrite put) (w : Writer UInt8 ε) (src : Conn ε) :
    Copied (fun _ => c) shortWrite (src.rest.firstError eof) w src.untilError
      (copyLoop eof put w src).1 (copyLoop eof put w src).2 := by
  fun_induction copyLoop eof put w src with
  | case1 w src data e src' hread writeErr w' hwrite =>
    have h := hput.writeChunk w data
    rw [hwrite] at h
    cases h with
    | failed hfails => exact .write (Conn.read_untilError_some hread ▸ hfails)
  | case2 w src data e src' hread w' hwrite =>
    have h := hput.writeChunk w data
    rw [hwrite] at h
    cases h with
    | all hsent =>
      rw [Conn.read_untilError_some hread, Conn.read_firstError_some hread]
      exact .read hsent
  | case3 w src data src' hread _ writeErr w' hwrite =>
    have h := hput.writeChunk w data
    rw [hwrite] at h
    cases h with
    | failed hfails => exact .write (hfails.mono ⟨_, Conn.read_untilError_none hread⟩)
  | case4 w src data src' hread _ w' hwrite ih =>
    have h := hput.writeChunk w data
    rw [hwrite] at h
    rw [← Conn.read_untilError_none hread, ← Conn.read_firstError_none hread]
    cases h with
    | all hsent => exact .after hsent (fun _ => id) ih

lemma ioCopy_spec (eof shortWrite : ε) (w : Writer UInt8 ε) (src : Conn ε) :
    Copied (src.replayed.length ≤ ·) shortWrite (src.rest.firstError eof) w src.untilError
      (ioCopy eof shortWrite w src).1 (ioCopy eof shortWrite w src).2 := by
  have hloop := copyLoop_spec eof (puts_writeOnce shortWrite)
  cases src with
  | plain conn => simpa [Conn.replayed, ioCopy] using hloop w (.plain conn)
  | prepend buf conn =>
    have hbuf := Writer.writeFully_spec (buf.length ≤ ·) shortWrite w buf
    simp only [ioCopy]
    rcases hwrite : w.writeFully shortWrite buf with ⟨_ | e, w'⟩ <;> rw [hwrite] at hbuf
    · cases hbuf with
      | all hsent => exact .after hsent (fun k _ => Nat.le_add_right _ k) (hloop w' (.plain conn))
    · cases hbuf with
      | failed hfails => exact .write (hfails.mono ( prefix_append buf _))

/-- How the error that is returned comes from the end of the copy. -/
lemma copyWithIdleTimeout_spec [DecidableEq ε] (eof shortWrite : ε) (guard : Bool)
    (w : Writer UInt8 ε) (src : Conn ε) :
    let copy := copyWithIdleTimeout eof shortWrite guard w src
    ∃ stop, Copied (fun k => guard = false ∧ src.replayed.length ≤ k) shortWrite
        (src.rest.firstError eof) w src.untilError stop copy.2 ∧
      copy.1 = match stop with
        | .read e => if guard = false ∧ e = eof then none else some e
        | .write e => some e := by
  cases guard with
  | true =>
    have h := copyLoop_spec eof (puts_writeFully shortWrite) w src
    simp only [copyWithIdleTimeout, Bool.true_eq_false, false_and]
    rcases hcopy : copyLoop eof (writeFullyWithActivity shortWrite) w src with ⟨_ | _, w'⟩ <;>
      rw [hcopy] at h <;> exact ⟨_, h, by simp⟩
  | false =>
    have h := ioCopy_spec eof shortWrite w src
    simp only [copyWithIdleTimeout, true_and]
    rcases hcopy : ioCopy eof shortWrite w src with ⟨_ | _, w'⟩ <;>
      rw [hcopy] at h <;> exact ⟨_, h, by simp⟩

/-- **No byte is lost.** The client's stream is cut into reads and errors in any way, the sniffer
stops where it does, some `Read` calls follow, and the rest is copied to an outbound that takes the
data in any portions. What the calls return and what the connection then holds is the stream. Every
write offers the bytes that come next. Either all up to the first read error is taken and that error
is returned (the end of the stream is none for `io.Copy`), or the copy ends at the first write that
fails, with its error: one that returns an error or takes nothing or, without a guard and after the
replayed bytes, falls short. -/
theorem relay_lossless [DecidableEq ε] (s : Sniffer) (S : HTTP.Strings) (eof shortWrite : ε)
    (client : Reader UInt8 ε) (ks : List Nat) (guard : Bool) (plan : List (Nat × Option ε)) :
    let r := (s.sniffMetadata S eof client).conn.reads eof ks
    let copy := copyWithIdleTimeout eof shortWrite guard ⟨plan, []⟩ r.2
    let readErr := r.2.rest.firstError eof
    r.1.flatMap Prod.fst ++ r.2.stream = client.stream ∧
      copy.2.out <+: r.2.untilError ∧ r.2.untilError <+: r.2.stream ∧
      ((Writer.Sent ⟨plan, []⟩ r.2.untilError r.2.untilError copy.2 ∧
          copy.2.out = r.2.untilError ∧
          copy.1 = if guard = false ∧ readErr = eof then none else some readErr) ∨
        ∃ e, Writer.Fails (fun k => guard = false ∧ r.2.replayed.length ≤ k) shortWrite ⟨plan, []⟩
            r.2.untilError e copy.2 ∧ copy.1 = some e) ∧
      ((∀ p ∈ client, p.2 = none) → r.2.untilError = r.2.stream) := by
  intro r copy readErr
  obtain ⟨stop, hcopied, hreturn⟩ := copyWithIdleTimeout_spec eof shortWrite guard ⟨plan, []⟩ r.2
  refine ⟨?_, hcopied.out_isPrefix, r.2.untilError_isPrefix, ?_, ?_⟩
  · rw [Conn.reads_stream, sniffMetadata_stream]
  · cases hcopied with
    | read hsent => exact .inl ⟨hsent, hsent.out_eq, hreturn⟩
    | write hfails => exact .inr ⟨_, hfails, hreturn⟩
  · intro hclient
    refine Conn.untilError_eq_stream ?_
    have hP : ∀ k data err (conn conn' : Reader UInt8 ε), conn.read eof k = (data, err, conn') →
        (∀ p ∈ conn, p.2 = none) → ∀ p ∈ conn', p.2 = none :=
      fun k data err conn conn' => Reader.read_forall_none
    exact Conn.reads_of_read hP ks _ (sniffMetadata_of_read s S eof hP client hclient)

end BypassCore.Transport
