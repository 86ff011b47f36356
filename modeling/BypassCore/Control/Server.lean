import BypassCore.Lib.Reader
import BypassCore.Lib.Threads

/-!
# The control server's request budget

The request path of `app/control/server.go`: the semaphore of `handler`, `mutationOnly`, and the
bodies that `readBody` and `decodeBody` read through a `budgetReader` over an `http.MaxBytesReader`.
Each request is a thread; each channel operation, each `Read` of the body and each atomic operation
on `inflightBytes` is a step of its own.
-/

namespace BypassCore.Control

open Lib Threads

/-- The limits of a `Config` that `normalizeConfig` accepts. -/
structure Config where
  maxRequestBytes : ℕ
  maxInflightRequestBytes : ℕ
  maxConcurrentRequests : ℕ
  maxRequestBytes_bounds : 1 ≤ maxRequestBytes ∧ maxRequestBytes ≤ 2097152
  maxInflightRequestBytes_bounds :
    maxRequestBytes ≤ maxInflightRequestBytes ∧ maxInflightRequestBytes ≤ 8388608
  maxConcurrentRequests_bounds : 1 ≤ maxConcurrentRequests ∧ maxConcurrentRequests ≤ 64

/-- The routes of `handler`; `other` is a request that no pattern of the mux matches. -/
inductive Endpoint where
  | capabilities | status | ready | observatory | metrics | dnsResults | dnsNFTSets
  | probeDNSNFTSets | validate | reload
  | explain | resolve | tcpProbe | handshakeProbe | urlTest
  | other
deriving DecidableEq

/-- How an endpoint takes its body: not at all, by `readBody`, or by `decodeBody`. -/
inductive BodyKind where
  | none
  | raw
  | json
deriving DecidableEq

namespace Endpoint

def bodyKind : Endpoint → BodyKind
  | .capabilities | .status | .ready | .observatory | .metrics | .dnsResults | .dnsNFTSets
  | .probeDNSNFTSets | .other => .none
  | .validate | .reload => .raw
  | .explain | .resolve | .tcpProbe | .handshakeProbe | .urlTest => .json

def mutation : Endpoint → Bool
  | .probeDNSNFTSets | .validate | .reload => true
  | .capabilities | .status | .ready | .observatory | .metrics | .dnsResults | .dnsNFTSets
  | .explain | .resolve | .tcpProbe | .handshakeProbe | .urlTest | .other => false

end Endpoint

inductive ReadError where
  | eof
  | maxBytes
  | inflightBudget
  /-- An error of the connection, such as an abort by the client. -/
  | other (message : String)
deriving DecidableEq

def ReadError.message : ReadError → String
  | .eof => "EOF"
  | .maxBytes => "http: request body too large"
  | .inflightBudget => "control request byte budget exhausted"
  | .other message => message

structure Request where
  endpoint : Endpoint
  body : Reader UInt8 ReadError

structure APIError where
  code : String
  message : String
  status : ℕ
deriving DecidableEq

def bodyReadError (err : ReadError) : APIError :=
  match err with
  | .maxBytes => ⟨"request_too_large", err.message, 413⟩
  | .inflightBudget => ⟨"busy", err.message, 503⟩
  | .eof | .other _ => ⟨"invalid_request", err.message, 400⟩

def requestsBusy : APIError := ⟨"busy", "too many concurrent control requests", 503⟩

def mutationBusy : APIError := ⟨"busy", "a validate or reload request is already running", 503⟩

/-- What is written to the client: an error, or what the backend returned. -/
inductive Answer where
  | error (error : APIError)
  | result

structure MaxBytesReader where
  reader : Reader UInt8 ReadError
  /-- The bytes that remain. -/
  n : ℕ
  err : Option ReadError := none

/-- `Read` into a buffer that is not empty. -/
def MaxBytesReader.read (l : MaxBytesReader) (k : ℕ) :
    List UInt8 × Option ReadError × MaxBytesReader :=
  match l.err with
  | some err => ([], some err, l)
  | none =>
    -- One byte more than remains tells whether the limit is passed.
    let k := if l.n < k - 1 then l.n + 1 else k
    let (data, err, reader) := l.reader.read .eof k
    if data.length ≤ l.n then (data, err, ⟨reader, l.n - data.length, err⟩)
    else (data.take l.n, some .maxBytes, ⟨reader, 0, some .maxBytes⟩)

/-- `budgetReader`, with what `release` has given back. `once` has run exactly when there is an
entry. -/
structure BudgetReader where
  reader : MaxBytesReader
  reserved : ℕ := 0
  returned : List ℕ := []

structure Server where
  semaphore : ℕ := 0
  mutation : ℕ := 0
  inflightBytes : ℤ := 0

def release (s : Server) (r : BudgetReader) : Server × BudgetReader :=
  if r.returned = [] then
    ({ s with inflightBytes := s.inflightBytes - r.reserved },
      { r with returned := r.returned ++ [r.reserved] })
  else (s, r)

inductive Thread where
  | arrived (q : Request)
  | admitted (q : Request)
  /-- `io.ReadAll` or the decoder is about to read, or to stop; `got` is what was read. -/
  | reading (q : Request) (r : BudgetReader) (got : List UInt8)
  /-- `Read` has some data and is about to load `inflightBytes`. -/
  | loading (q : Request) (r : BudgetReader) (got data : List UInt8) (err : Option ReadError)
  /-- `Read` has loaded `inflightBytes` and is about to swap it. -/
  | swapping (q : Request) (r : BudgetReader) (got data : List UInt8) (err : Option ReadError)
    (current : ℤ)
  /-- The backend runs, until it returns or panics. A raw-body handler is called with `body`. -/
  | calling (q : Request) (r : Option BudgetReader) (body : List UInt8)
  | releasing (q : Request) (r : BudgetReader) (answer : Answer)
  /-- The request is about to give its token of `mutation` back, if it has one. -/
  | unlocking (q : Request) (r : Option BudgetReader) (answer : Answer)
  /-- The request is about to give its token of `semaphore` back. -/
  | leaving (q : Request) (r : Option BudgetReader) (answer : Answer)
  | finished (q : Request) (r : Option BudgetReader) (answer : Answer)

abbrev State := Threads.Config Server Thread

def initial : State := ⟨{}, []⟩

/-! ### Steps -/

/-- What the environment chooses for a request that reads its body: the size of the next buffer
(less one), or how the decoder stops. -/
inductive Choice where
  | read (k : ℕ)
  | fail (error : APIError)
  | call

variable (config : Config)

def serve (q : Request) : Thread :=
  match q.endpoint.bodyKind with
  | .none => .calling q none []
  | .raw | .json => .reading q { reader := ⟨q.body, config.maxRequestBytes, none⟩ } []

/-- What follows a `Read`. `io.ReadAll` goes on until there is an error and takes the end of the
stream as the end of the body; a decoder may go on, stop or report an error after any `Read`. -/
def afterRead (q : Request) (r : BudgetReader) (got data : List UInt8) (err : Option ReadError) :
    Thread :=
  match q.endpoint.bodyKind, err with
  | .raw, some .eof => .calling q (some r) (got ++ data)
  | .raw, some err => .releasing q r (.error (bodyReadError err))
  | _, _ => .reading q r (got ++ data)

def readSome (q : Request) (r : BudgetReader) (got : List UInt8) (k : ℕ) : Thread :=
  let (data, err, reader) := r.reader.read (k + 1)
  if data = [] then afterRead q { r with reader := reader } got [] err
  else .loading q { r with reader := reader } got data err

def exec (_ : List Thread) (s : Server) (t : Thread) (choice : Choice) : Option (Server × Thread) :=
  match t with
  | .arrived q =>
    if s.semaphore < config.maxConcurrentRequests then
      some ({ s with semaphore := s.semaphore + 1 }, .admitted q)
    else some (s, .finished q none (.error requestsBusy))
  | .admitted q =>
    if q.endpoint.mutation then
      if s.mutation < 1 then some ({ s with mutation := s.mutation + 1 }, serve config q)
      else some (s, .leaving q none (.error mutationBusy))
    else some (s, serve config q)
  | .reading q r got =>
    match choice, q.endpoint.bodyKind with
    | .read k, _ => some (s, readSome q r got k)
    | .fail error, .json => some (s, .releasing q r (.error error))
    | .call, .json => some (s, .calling q (some r) got)
    | _, _ => none
  | .loading q r got data err =>
    if config.maxInflightRequestBytes < s.inflightBytes + data.length then
      some (s, afterRead q r got [] (some .inflightBudget))
    else some (s, .swapping q r got data err s.inflightBytes)
  | .swapping q r got data err current =>
    if s.inflightBytes = current then
      some ({ s with inflightBytes := current + data.length },
        afterRead q { r with reserved := r.reserved + data.length } got data err)
    else some (s, .loading q r got data err)
  | .calling q none _ => some (s, .unlocking q none .result)
  | .calling q (some r) _ => some (s, .releasing q r .result)
  | .releasing q r answer =>
    some ((release s r).1, .unlocking q (some (release s r).2) answer)
  | .unlocking q r answer =>
    if q.endpoint.mutation then
      if 0 < s.mutation then some ({ s with mutation := s.mutation - 1 }, .leaving q r answer)
      else none
    else some (s, .leaving q r answer)
  | .leaving q r answer =>
    if 0 < s.semaphore then some ({ s with semaphore := s.semaphore - 1 }, .finished q r answer)
    else none
  | .finished _ _ _ => none

inductive Action where
  | request (q : Request)
  | advance (i : ℕ) (choice : Choice)

def step (c : State) : Action → Option State
  | .request q => some (c.spawn (.arrived q))
  | .advance i choice => c.advance (exec config) i choice

inductive Moves (s : Server) : Thread → Server → Thread → Prop where
  | admits {q} (h : s.semaphore < config.maxConcurrentRequests) :
    Moves s (.arrived q) { s with semaphore := s.semaphore + 1 } (.admitted q)
  | refuses {q} : Moves s (.arrived q) s (.finished q none (.error requestsBusy))
  | locks {q} (hq : q.endpoint.mutation = true) (h : s.mutation < 1) :
    Moves s (.admitted q) { s with mutation := s.mutation + 1 } (serve config q)
  | busy {q} : Moves s (.admitted q) s (.leaving q none (.error mutationBusy))
  | passes {q} (hq : q.endpoint.mutation = false) : Moves s (.admitted q) s (serve config q)
  | reads {q r got k} : Moves s (.reading q r got) s (readSome q r got k)
  | fails {q r got error} : Moves s (.reading q r got) s (.releasing q r (.error error))
  | calls {q r got} (hq : q.endpoint.bodyKind = .json) :
    Moves s (.reading q r got) s (.calling q (some r) got)
  | exceeds {q r got data err} :
    Moves s (.loading q r got data err) s (afterRead q r got [] (some .inflightBudget))
  | loads {q r got data err}
      (h : s.inflightBytes + data.length ≤ config.maxInflightRequestBytes) :
    Moves s (.loading q r got data err) s (.swapping q r got data err s.inflightBytes)
  | swaps {q r got data err} :
    Moves s (.swapping q r got data err s.inflightBytes)
      { s with inflightBytes := s.inflightBytes + data.length }
      (afterRead q { r with reserved := r.reserved + data.length } got data err)
  | retries {q r got data err current} :
    Moves s (.swapping q r got data err current) s (.loading q r got data err)
  | answers {q body} : Moves s (.calling q none body) s (.unlocking q none .result)
  | returns {q r body} : Moves s (.calling q (some r) body) s (.releasing q r .result)
  | releases {q r answer} :
    Moves s (.releasing q r answer) (release s r).1 (.unlocking q (some (release s r).2) answer)
  | unlocks {q r answer} (hq : q.endpoint.mutation = true) (h : 0 < s.mutation) :
    Moves s (.unlocking q r answer) { s with mutation := s.mutation - 1 } (.leaving q r answer)
  | skips {q r answer} (hq : q.endpoint.mutation = false) :
    Moves s (.unlocking q r answer) s (.leaving q r answer)
  | leaves {q r answer} (h : 0 < s.semaphore) :
    Moves s (.leaving q r answer) { s with semaphore := s.semaphore - 1 } (.finished q r answer)

variable {config} {threads : List Thread} {s s' : Server} {t t' : Thread} {choice : Choice}

lemma moves_of_exec (h : exec config threads s t choice = some (s', t')) :
    Moves config s t s' t' := by
  cases t with simp only [exec] at h
  | arrived q =>
    split_ifs at h with hroom <;> cases h
    · exact .admits hroom
    · exact .refuses
  | admitted q =>
    split_ifs at h with hq hroom <;> cases h
    · exact .locks hq hroom
    · exact .busy
    · exact .passes (Bool.not_eq_true _ ▸ hq)
  | reading q r got =>
    split at h <;> cases h
    · exact .reads
    · exact .fails
    · exact .calls ‹_›
  | loading q r got data err =>
    split_ifs at h with hmax <;> cases h
    · exact .exceeds
    · exact .loads (Int.not_lt.mp hmax)
  | swapping q r got data err current =>
    split_ifs at h with hcurrent <;> cases h
    · subst hcurrent
      exact .swaps
    · exact .retries
  | calling q r body =>
    cases r with
    | none =>
      cases h
      exact .answers
    | some r =>
      cases h
      exact .returns
  | releasing q r answer =>
    cases h
    exact .releases
  | unlocking q r answer =>
    split_ifs at h with hq hpos <;> cases h
    · exact .unlocks hq hpos
    · exact .skips (Bool.not_eq_true _ ▸ hq)
  | leaving q r answer =>
    split_ifs at h with hpos
    cases h
    exact .leaves hpos
  | finished q r answer => cases h

/-!
## What the requests hold

The counter of in-flight bytes and the tokens in the two channels are what the requests hold
together. A body that a raw-body handler is called with was read up to the end of the stream.
-/

open List

variable {config : Config} {c c' : State} {a : Action}

/-! ### Shares -/

def BudgetReader.share (r : BudgetReader) : ℤ := r.reserved - r.returned.sum

namespace Thread

def reader : Thread → Option BudgetReader
  | .arrived _ | .admitted _ => none
  | .reading _ r _ | .loading _ r _ _ _ | .swapping _ r _ _ _ _ | .releasing _ r _ => some r
  | .calling _ r _ | .unlocking _ r _ | .leaving _ r _ | .finished _ r _ => r

/-- The bytes that a request has reserved and not given back. -/
def held (t : Thread) : ℤ := t.reader.elim 0 BudgetReader.share

def running : Thread → ℤ
  | .arrived _ | .finished _ _ _ => 0
  | .admitted _ | .reading _ _ _ | .loading _ _ _ _ _ | .swapping _ _ _ _ _ _ | .calling _ _ _
  | .releasing _ _ _ | .unlocking _ _ _ | .leaving _ _ _ => 1

def mutating : Thread → ℤ
  | .arrived _ | .admitted _ | .leaving _ _ _ | .finished _ _ _ => 0
  | .reading q _ _ | .loading q _ _ _ _ | .swapping q _ _ _ _ _ | .calling q _ _
  | .releasing q _ _ | .unlocking q _ _ => q.endpoint.mutation.toNat

end Thread

@[simp] lemma held_serve (config : Config) (q : Request) : (serve config q).held = 0 := by
  unfold serve
  split <;> rfl

@[simp] lemma running_serve (config : Config) (q : Request) : (serve config q).running = 1 := by
  unfold serve
  split <;> rfl

@[simp] lemma mutating_serve (config : Config) (q : Request) :
    (serve config q).mutating = q.endpoint.mutation.toNat := by
  unfold serve
  split <;> rfl

section AfterRead

variable (q : Request) (r : BudgetReader) (got data : List UInt8) (err : Option ReadError) (k : ℕ)

@[simp] lemma held_afterRead : (afterRead q r got data err).held = r.share := by
  unfold afterRead
  split <;> rfl

@[simp] lemma running_afterRead : (afterRead q r got data err).running = 1 := by
  unfold afterRead
  split <;> rfl

@[simp] lemma mutating_afterRead :
    (afterRead q r got data err).mutating = q.endpoint.mutation.toNat := by
  unfold afterRead
  split <;> rfl

/-- A `Read` with data goes on to reserve it; one without is passed on. -/
lemma readSome_cases : ∃ data err l, r.reader.read (k + 1) = (data, err, l) ∧
    (data = [] ∧ readSome q r got k = afterRead q { r with reader := l } got data err ∨
      readSome q r got k = .loading q { r with reader := l } got data err) := by
  rcases hread : r.reader.read (k + 1) with ⟨data, err, l⟩
  refine ⟨data, err, l, rfl, ?_⟩
  simp only [readSome, hread]
  split_ifs with hdata
  · subst hdata
    exact .inl ⟨rfl, rfl⟩
  · exact .inr rfl

@[simp] lemma held_readSome : (readSome q r got k).held = r.share := by
  obtain ⟨data, err, l, -, ⟨-, h⟩ | h⟩ := readSome_cases q r got k
  · rw [h, held_afterRead]
    rfl
  · rw [h]
    rfl

@[simp] lemma running_readSome : (readSome q r got k).running = 1 := by
  obtain ⟨data, err, l, -, ⟨-, h⟩ | h⟩ := readSome_cases q r got k
  · rw [h, running_afterRead]
  · rw [h]
    rfl

@[simp] lemma mutating_readSome : (readSome q r got k).mutating = q.endpoint.mutation.toNat := by
  obtain ⟨data, err, l, -, ⟨-, h⟩ | h⟩ := readSome_cases q r got k
  · rw [h, mutating_afterRead]
  · rw [h]
    rfl

end AfterRead

lemma release_share (s : Server) (r : BudgetReader) :
    -(release s r).1.inflightBytes + (release s r).2.share = -s.inflightBytes + r.share := by
  unfold release
  split_ifs with h
  · simp only [BudgetReader.share, h, nil_append, sum_singleton, sum_nil]
    omega
  · rfl

@[simp] lemma semaphore_release (s : Server) (r : BudgetReader) :
    (release s r).1.semaphore = s.semaphore := by
  unfold release
  split_ifs <;> rfl

@[simp] lemma mutation_release (s : Server) (r : BudgetReader) :
    (release s r).1.mutation = s.mutation := by
  unfold release
  split_ifs <;> rfl

section

variable (h : Moves config s t s' t')
include h

lemma inflightBytes_moves : -s'.inflightBytes + t'.held = -s.inflightBytes + t.held := by
  cases h with
  | swaps =>
    rw [held_afterRead]
    simp only [Thread.held, Thread.reader, Option.elim_some, BudgetReader.share]
    omega
  | releases => exact release_share _ _
  | locks | passes =>
    rw [held_serve]
    rfl
  | reads =>
    rw [held_readSome]
    rfl
  | exceeds =>
    rw [held_afterRead]
    rfl
  | _ => rfl

lemma semaphore_moves : -(s'.semaphore : ℤ) + t'.running = -s.semaphore + t.running := by
  cases h with
  | admits =>
    simp only [Thread.running]
    omega
  | leaves h =>
    simp only [Thread.running]
    omega
  | locks | passes =>
    rw [running_serve]
    rfl
  | reads =>
    rw [running_readSome]
    rfl
  | exceeds | swaps =>
    rw [running_afterRead]
    rfl
  | releases =>
    rw [semaphore_release]
    rfl
  | _ => rfl

lemma mutation_moves : -(s'.mutation : ℤ) + t'.mutating = -s.mutation + t.mutating := by
  cases h with
  | locks hq =>
    rw [mutating_serve, hq]
    simp only [Thread.mutating, Bool.toNat_true]
    omega
  | passes hq =>
    rw [mutating_serve, hq]
    rfl
  | unlocks hq h =>
    simp only [Thread.mutating, hq, Bool.toNat_true]
    omega
  | skips hq =>
    simp only [Thread.mutating, hq, Bool.toNat_false, Nat.cast_zero]
  | reads =>
    rw [mutating_readSome]
    rfl
  | exceeds | swaps =>
    rw [mutating_afterRead]
    rfl
  | releases =>
    rw [mutation_release]
    rfl
  | _ => rfl

end

/-! ### The body -/

/-- A body that has been read up to the end of the stream. -/
def Whole (q : Request) (body : List UInt8) : Prop :=
  body = q.body.untilError ∧ q.body.firstError .eof = .eof

def Ahead (q : Request) (l : MaxBytesReader) (got : List UInt8) : Prop :=
  l.err = none ∧ got ++ l.reader.untilError = q.body.untilError ∧
    l.reader.firstError .eof = q.body.firstError .eof

def Reached (q : Request) (l : MaxBytesReader) (got : List UInt8) (err : Option ReadError) : Prop :=
  (err = none → Ahead q l got) ∧ (err = some .eof → Whole q got)

variable {data : List UInt8} {err : Option ReadError}

/-- A limited reader passes a `Read` on, or reports that the limit is passed. -/
lemma MaxBytesReader.read_cases {l l' : MaxBytesReader}
    {k : ℕ} (hnone : l.err = none) (h : l.read k = (data, err, l')) :
    (∃ k', l.reader.read .eof k' = (data, err, l'.reader) ∧ l'.err = err) ∨
      err = some .maxBytes := by
  simp only [MaxBytesReader.read, hnone] at h
  generalize (if l.n < k - 1 then l.n + 1 else k) = k' at h
  rcases hread : l.reader.read .eof k' with ⟨data', err', reader⟩
  rw [hread] at h
  split_ifs at h <;> cases h
  · exact .inl ⟨k', hread, rfl⟩
  · exact .inr rfl

lemma Ahead.read {q : Request} {l l' : MaxBytesReader} {got : List UInt8}
    {k : ℕ} (h : Ahead q l got) (hread : l.read k = (data, err, l')) :
    Reached q l' (got ++ data) err := by
  obtain ⟨hnone, hbody, hend⟩ := h
  rcases MaxBytesReader.read_cases hnone hread with ⟨k', hread, herr⟩ | rfl
  · constructor
    · rintro rfl
      refine ⟨herr, ?_, ?_⟩
      · rw [append_assoc, Reader.read_untilError_none hread, hbody]
      · rw [Reader.read_firstError_none hread, hend]
    · rintro rfl
      rw [Whole, ← hbody, ← hend, Reader.read_untilError_some hread,
        Reader.read_firstError_some hread]
      exact ⟨rfl, rfl⟩
  · exact ⟨nofun, nofun⟩

def Thread.Sound (config : Config) : Thread → Prop
  | .arrived _ | .admitted _ => True
  | .reading q r got =>
    r.returned = [] ∧ (q.endpoint.bodyKind = .raw → Ahead q r.reader got)
  | .loading q r got data err =>
    r.returned = [] ∧ (q.endpoint.bodyKind = .raw → Reached q r.reader (got ++ data) err)
  | .swapping q r got data err current =>
    r.returned = [] ∧ (q.endpoint.bodyKind = .raw → Reached q r.reader (got ++ data) err) ∧
      current + data.length ≤ config.maxInflightRequestBytes
  | .calling q r body =>
    (∀ b ∈ r, b.returned = []) ∧ (q.endpoint.bodyKind = .raw → Whole q body)
  | .releasing _ r _ => r.returned = []
  | .unlocking _ r _ | .leaving _ r _ | .finished _ r _ => ∀ b ∈ r, b.returned = [b.reserved]

lemma sound_serve (config : Config) (q : Request) : (serve config q).Sound config := by
  unfold serve
  split
  · next hq => exact ⟨nofun, fun hraw => absurd (hq.symm.trans hraw) nofun⟩
  · exact ⟨rfl, fun _ => ⟨rfl, rfl, rfl⟩⟩
  · exact ⟨rfl, fun _ => ⟨rfl, rfl, rfl⟩⟩

lemma sound_afterRead {q : Request} {r : BudgetReader} {got : List UInt8} (hr : r.returned = [])
    (h : q.endpoint.bodyKind = .raw → Reached q r.reader (got ++ data) err) :
    (afterRead q r got data err).Sound config := by
  cases hq : q.endpoint.bodyKind with
  | none | json =>
    simp only [afterRead, hq]
    exact ⟨hr, fun hraw => absurd (hq.symm.trans hraw) nofun⟩
  | raw =>
    cases err with
    | none =>
      simp only [afterRead, hq]
      exact ⟨hr, fun _ => (h hq).1 rfl⟩
    | some e =>
      cases e with simp only [afterRead, hq]
      | eof =>
        refine ⟨?_, fun _ => (h hq).2 rfl⟩
        rintro b ⟨⟩
        exact hr
      | maxBytes | inflightBudget | other => exact hr

lemma sound_readSome {q : Request} {r : BudgetReader} {got : List UInt8} (k : ℕ)
    (hr : r.returned = []) (h : q.endpoint.bodyKind = .raw → Ahead q r.reader got) :
    (readSome q r got k).Sound config := by
  obtain ⟨data, err, l, hread, hcases⟩ := readSome_cases q r got k
  have hreached : q.endpoint.bodyKind = .raw → Reached q l (got ++ data) err :=
    fun hq => (h hq).read hread
  rcases hcases with ⟨-, heq⟩ | heq
  · rw [heq]
    exact sound_afterRead hr hreached
  · rw [heq]
    exact ⟨hr, hreached⟩

lemma sound_release {r : BudgetReader} (s : Server) (hr : r.returned = []) :
    (release s r).2.returned = [(release s r).2.reserved] := by
  rw [release, if_pos hr]
  simp only [hr, nil_append]

lemma sound_moves (h : Moves config s t s' t') (ht : t.Sound config) : t'.Sound config := by
  cases h with
  | admits => trivial
  | refuses | busy => exact nofun
  | locks | passes => exact sound_serve config _
  | reads => exact sound_readSome _ ht.1 ht.2
  | fails => exact ht.1
  | calls hq =>
    refine ⟨?_, fun hraw => absurd (hq.symm.trans hraw) nofun⟩
    rintro b ⟨⟩
    exact ht.1
  | exceeds => exact sound_afterRead ht.1 fun _ => ⟨nofun, nofun⟩
  | loads h => exact ⟨ht.1, ht.2, h⟩
  | swaps => exact sound_afterRead ht.1 ht.2.1
  | retries => exact ⟨ht.1, ht.2.1⟩
  | answers => exact nofun
  | returns => exact ht.1 _ rfl
  | releases =>
    rintro b ⟨⟩
    exact sound_release s ht
  | unlocks | skips | leaves => exact ht

/-! ### The invariant -/

/-- A request does not give back more than it has reserved. -/
lemma held_nonneg (ht : t.Sound config) : 0 ≤ t.held := by
  have hempty : ∀ r : BudgetReader, r.returned = [] → 0 ≤ r.share := by
    intro r hr
    rw [BudgetReader.share, hr, sum_nil, Nat.cast_zero]
    exact Int.natCast_nonneg _
  have hall : ∀ r : Option BudgetReader, (∀ b ∈ r, b.returned = [b.reserved]) →
      0 ≤ r.elim 0 BudgetReader.share := by
    rintro (- | r) hr
    · exact Int.le_refl _
    · have hzero : r.share = 0 := by
        rw [BudgetReader.share, hr r rfl, sum_singleton, sub_self]
      exact Int.le_of_eq hzero.symm
  cases t with
  | arrived | admitted => exact Int.le_refl _
  | reading q r | loading q r | swapping q r => exact hempty r ht.1
  | calling q r =>
    cases r with
    | none => exact Int.le_refl _
    | some r => exact hempty r (ht.1 r rfl)
  | releasing q r => exact hempty r ht
  | unlocking q r | leaving q r | finished q r => exact hall r ht

/-- The counter and the channels are what the requests hold, within their limits. -/
structure Inv (config : Config) (c : State) : Prop where
  inflight : -c.shared.inflightBytes + total Thread.held c.threads = 0
  semaphore : -(c.shared.semaphore : ℤ) + total Thread.running c.threads = 0
  mutation : -(c.shared.mutation : ℤ) + total Thread.mutating c.threads = 0
  inflight_le : c.shared.inflightBytes ≤ config.maxInflightRequestBytes
  semaphore_le : c.shared.semaphore ≤ config.maxConcurrentRequests
  mutation_le : c.shared.mutation ≤ 1
  sound : ∀ t ∈ c.threads, t.Sound config

lemma inv_initial (config : Config) : Inv config initial where
  inflight := rfl
  semaphore := rfl
  mutation := rfl
  inflight_le := Int.natCast_nonneg _
  semaphore_le := Nat.zero_le _
  mutation_le := Nat.zero_le _
  sound := forall_mem_nil _

/-- Bytes are only given back, or reserved within the limit. -/
lemma inflight_le_moves (h : Moves config s t s' t') (ht : t.Sound config)
    (hs : s.inflightBytes ≤ config.maxInflightRequestBytes) :
    s'.inflightBytes ≤ config.maxInflightRequestBytes := by
  cases h with
  | swaps => exact ht.2.2
  | @releases q r =>
    rw [release]
    split_ifs
    · exact Int.le_trans (Int.sub_le_self _ (Int.natCast_nonneg r.reserved)) hs
    · exact hs
  | _ => exact hs

lemma tokens_le_moves (h : Moves config s t s' t')
    (hs : s.semaphore ≤ config.maxConcurrentRequests ∧ s.mutation ≤ 1) :
    s'.semaphore ≤ config.maxConcurrentRequests ∧ s'.mutation ≤ 1 := by
  cases h with
  | admits h => exact ⟨h, hs.2⟩
  | locks _ h => exact ⟨hs.1, h⟩
  | releases =>
    rw [semaphore_release, mutation_release]
    exact hs
  | unlocks => exact ⟨hs.1, (Nat.sub_le _ _).trans hs.2⟩
  | leaves => exact ⟨(Nat.sub_le _ _).trans hs.1, hs.2⟩
  | _ => exact hs

section

variable (h : Inv config c)
include h

lemma Inv.advance {i : ℕ} (hi : c.threads[i]? = some t) (hm : Moves config c.shared t s' t') :
    Inv config ⟨s', c.threads.set i t'⟩ := by
  have ht := h.sound t (mem_of_getElem? hi)
  have htokens := tokens_le_moves hm ⟨h.semaphore_le, h.mutation_le⟩
  exact {
    inflight := (conserved_set (fun s : Server => -s.inflightBytes) hi
      (inflightBytes_moves hm)).trans h.inflight
    semaphore := (conserved_set (fun s : Server => -(s.semaphore : ℤ)) hi
      (semaphore_moves hm)).trans h.semaphore
    mutation := (conserved_set (fun s : Server => -(s.mutation : ℤ)) hi
      (mutation_moves hm)).trans h.mutation
    inflight_le := inflight_le_moves hm ht h.inflight_le
    semaphore_le := htokens.1
    mutation_le := htokens.2
    sound := forall_mem_set h.sound (fun _ _ hu => hu) (sound_moves hm ht) i }

lemma Inv.step (hs : Control.step config c a = some c') : Inv config c' := by
  cases a with
  | request q =>
    cases hs
    exact {
      inflight := by
        rw [Config.spawn, total_concat]
        exact (congrArg _ (add_zero _)).trans h.inflight
      semaphore := by
        rw [Config.spawn, total_concat]
        exact (congrArg _ (add_zero _)).trans h.semaphore
      mutation := by
        rw [Config.spawn, total_concat]
        exact (congrArg _ (add_zero _)).trans h.mutation
      inflight_le := h.inflight_le
      semaphore_le := h.semaphore_le
      mutation_le := h.mutation_le
      sound := forall_mem_concat h.sound trivial }
  | advance i choice =>
    obtain ⟨t, s', t', hi, hexec, rfl⟩ := Config.advance_eq_some hs
    exact h.advance hi (moves_of_exec hexec)

lemma Inv.inflight_eq : c.shared.inflightBytes = total Thread.held c.threads := by
  have hinflight := h.inflight
  omega

lemma Inv.inflight_nonneg : 0 ≤ c.shared.inflightBytes := by
  rw [h.inflight_eq]
  exact total_nonneg fun t ht => held_nonneg (h.sound t ht)

end

lemma running_nonneg (t : Thread) : 0 ≤ t.running := by
  cases t <;> exact Int.natCast_nonneg _

lemma mutating_nonneg (t : Thread) : 0 ≤ t.mutating := by
  cases t <;> exact Int.natCast_nonneg _

/-- A request that has not finished is not kept waiting by the server: the token that it gives back
is there. -/
lemma Inv.exec_isSome (h : Inv config c) (ht : t ∈ c.threads)
    (hfinished : ∀ q r answer, t ≠ .finished q r answer) :
    ∃ choice, (exec config c.threads c.shared t choice).isSome := by
  refine ⟨.read 0, ?_⟩
  cases t with
  | arrived q | loading q r got data err | swapping q r got data err current | admitted q =>
    simp only [exec]
    split_ifs <;> rfl
  | reading q r got => rfl
  | calling q r body => cases r <;> rfl
  | releasing q r answer => rfl
  | unlocking q r answer =>
    have hle := share_le_total (fun t _ => mutating_nonneg t) ht
    have htotal := h.mutation
    simp only [exec]
    split_ifs with hq hpos
    · rfl
    · rw [Thread.mutating, hq, Bool.toNat_true] at hle
      omega
    · rfl
  | leaving q r answer =>
    have hle := share_le_total (fun t _ => running_nonneg t) ht
    have htotal := h.semaphore
    rw [Thread.running] at hle
    have hpos : 0 < c.shared.semaphore := by omega
    simp only [exec, if_pos hpos]
    rfl
  | finished q r answer => exact absurd rfl (hfinished q r answer)

/-- Along every interleaving of control requests, however their bodies are cut and wherever they
fail, the counter of in-flight bytes is what the requests have reserved and not given back, within
its limits, and a request that has finished has given its whole share back at once. No more requests
run than configured, and one mutation. A raw-body handler is called with the whole body that the
client sent. No request is kept waiting by the others. -/
theorem inflightBytes_accounted (config : Config) (as : List Action) (c : State)
    (hr : run (step config) initial as = some c) :
    (c.shared.inflightBytes = total Thread.held c.threads ∧ 0 ≤ c.shared.inflightBytes ∧
      c.shared.inflightBytes ≤ config.maxInflightRequestBytes) ∧
    (∀ q r answer, .finished q (some r) answer ∈ c.threads → r.returned = [r.reserved]) ∧
    (total Thread.running c.threads ≤ config.maxConcurrentRequests ∧
      total Thread.mutating c.threads ≤ 1) ∧
    (∀ q r body, .calling q r body ∈ c.threads → q.endpoint.bodyKind = .raw →
      body = q.body.untilError ∧ q.body.firstError .eof = .eof) ∧
    (∀ t ∈ c.threads, (∀ q r answer, t ≠ .finished q r answer) →
      ∃ choice, (exec config c.threads c.shared t choice).isSome) := by
  have h : Inv config c := run_invariant (fun _ _ _ hI hs => hI.step hs) (inv_initial config) hr
  refine ⟨⟨h.inflight_eq, h.inflight_nonneg, h.inflight_le⟩, ?_, ⟨?_, ?_⟩, ?_, ?_⟩
  · intro q r answer ht
    exact h.sound _ ht r rfl
  · have hsemaphore := h.semaphore
    have hle := h.semaphore_le
    omega
  · have hmutation := h.mutation
    have hle := h.mutation_le
    omega
  · intro q r body ht hq
    exact (h.sound _ ht).2 hq
  · intro t ht hfinished
    exact h.exec_isSome ht hfinished

def oneRequest : Config where
  maxRequestBytes := 4
  maxInflightRequestBytes := 4
  maxConcurrentRequests := 1
  maxRequestBytes_bounds := by decide
  maxInflightRequestBytes_bounds := by decide
  maxConcurrentRequests_bounds := by decide

def validateRequest : Request where
  endpoint := .validate
  body := [([123], none), ([125], some .eof)]

def readAndRefused : List Action :=
  [.request validateRequest, .advance 0 .call, .advance 0 .call, .advance 0 (.read 511),
    .advance 0 .call, .request validateRequest, .advance 1 .call, .advance 0 .call,
    .advance 0 (.read 510), .advance 0 .call, .advance 0 .call]

theorem inflightBytes_accounted_readAndRefused :
    ∃ c q r, run (step oneRequest) initial readAndRefused = some c ∧
      .calling q r [123, 125] ∈ c.threads ∧ c.shared.inflightBytes = 2 ∧
      [123, 125] = q.body.untilError := by
  obtain ⟨c, hr, ht, hbytes⟩ : ∃ c, run (step oneRequest) initial readAndRefused = some c ∧
      c.threads.head? = some (.calling validateRequest (some ⟨⟨[], 2, some .eof⟩, 2, []⟩)
        [123, 125]) ∧ c.shared.inflightBytes = 2 := ⟨_, rfl, rfl, rfl⟩
  have hmem := mem_of_mem_head? ht
  have hbody := (inflightBytes_accounted oneRequest readAndRefused c hr).2.2.2.1 _ _ _ hmem rfl
  exact ⟨c, _, _, hr, hmem, hbytes, hbody.1⟩

end BypassCore.Control
