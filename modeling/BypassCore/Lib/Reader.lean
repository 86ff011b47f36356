import Mathlib.Algebra.GroupWithZero.Nat
import Mathlib.Data.List.Basic

/-!
# Readers

What a Go `io.Reader` still has to deliver is a list of portions. A portion is some data, with an
error that comes together with the last of it or none. `Read` into a buffer takes the next portion,
or as much of it as the buffer holds; after the last portion it reports the end of the stream.
Every way of cutting a stream into reads is such a list.
-/

namespace Lib

open List

variable {α ε : Type*}

abbrev Reader (α ε : Type*) := List (List α × Option ε)

namespace Reader

/-- `Read` into a buffer of `k` places: the data, the error, and the reader afterwards. -/
def read (eof : ε) (k : Nat) : Reader α ε → List α × Option ε × Reader α ε
  | [] => ([], some eof, [])
  | (data, err) :: r =>
    if data.length ≤ k then (data, err, r) else (data.take k, none, (data.drop k, err) :: r)

def stream (r : Reader α ε) : List α := r.flatMap Prod.fst

def untilError : Reader α ε → List α
  | [] => []
  | (data, none) :: r => data ++ untilError r
  | (data, some _) :: _ => data

/-- The first error, which is the end of the stream if there is no other. -/
def firstError (eof : ε) : Reader α ε → ε
  | [] => eof
  | (_, none) :: r => firstError eof r
  | (_, some e) :: _ => e

def size (r : Reader α ε) : Nat := (r.map fun p => p.1.length + 1).sum

/-- A stream that is cut into portions, none of them empty and none with an error. -/
def Cuts (r : Reader α ε) (s : List α) : Prop :=
  (∀ p ∈ r, p.1 ≠ [] ∧ p.2 = none) ∧ r.stream = s

/-- A stream that comes without an error, in portions of any size. -/
def Delivers (r : Reader α ε) (s : List α) : Prop := (∀ p ∈ r, p.2 = none) ∧ r.stream = s

variable {eof : ε} {k : Nat} {r r' : Reader α ε} {data : List α} {err : Option ε}

@[simp] lemma stream_nil : stream ([] : Reader α ε) = [] := rfl

@[simp] lemma stream_cons (p : List α × Option ε) (r : Reader α ε) :
    stream (p :: r) = p.1 ++ r.stream := rfl

/-- What a read can do: report the end of the stream, take the next portion or a part of it. -/
inductive Reads (eof : ε) (k : Nat) : Reader α ε → List α → Option ε → Reader α ε → Prop
  | ended : Reads eof k [] [] (some eof) []
  | whole d e r (h : d.length ≤ k) : Reads eof k ((d, e) :: r) d e r
  | part d e r (h : k < d.length) : Reads eof k ((d, e) :: r) (d.take k) none ((d.drop k, e) :: r)

lemma reads (h : read eof k r = (data, err, r')) : Reads eof k r data err r' := by
  cases r with
  | nil =>
    cases h
    exact .ended
  | cons p r =>
    simp only [read] at h
    split_ifs at h with hk <;> cases h
    · exact .whole _ _ _ hk
    · exact .part _ _ _ (Nat.lt_of_not_le hk)

lemma read_stream (h : read eof k r = (data, err, r')) : data ++ r'.stream = r.stream := by
  cases reads h with
  | ended => rfl
  | whole => rfl
  | part => simp [← append_assoc]

lemma read_length_le (h : read eof k r = (data, err, r')) : data.length ≤ k := by
  cases reads h with
  | ended => exact Nat.zero_le k
  | whole d e r hk => exact hk
  | part => exact length_take_le k _

/-- A read without an error does not pass the first error. -/
lemma read_untilError_none (h : read eof k r = (data, none, r')) :
    data ++ r'.untilError = r.untilError := by
  cases reads h with
  | whole => rfl
  | part d e r => cases e <;> simp [untilError, ← append_assoc]

lemma read_untilError_some {e : ε} (h : read eof k r = (data, some e, r')) :
    r.untilError = data := by
  cases reads h <;> rfl

lemma read_firstError_none (h : read eof k r = (data, none, r')) :
    r'.firstError eof = r.firstError eof := by
  cases reads h with
  | whole => rfl
  | part d e r => cases e <;> rfl

lemma read_firstError_some {e : ε} (h : read eof k r = (data, some e, r')) :
    r.firstError eof = e := by
  cases reads h <;> rfl

lemma untilError_isPrefix (r : Reader α ε) : r.untilError <+: r.stream := by
  fun_induction untilError r with
  | case1 => exact prefix_rfl
  | case2 data r ih => exact (prefix_append_right_inj data).mpr ih
  | case3 data e r => exact prefix_append data _

lemma untilError_eq_stream (h : ∀ p ∈ r, p.2 = none) : r.untilError = r.stream := by
  fun_induction untilError r with
  | case1 => rfl
  | case2 data r ih => rw [ih fun p hp => h p (mem_cons_of_mem _ hp), stream_cons]
  | case3 data e r => cases h (data, some e) mem_cons_self

lemma read_forall_none (h : read eof k r = (data, err, r')) (hr : ∀ p ∈ r, p.2 = none) :
    ∀ p ∈ r', p.2 = none := by
  cases reads h with
  | ended => exact hr
  | whole => exact (forall_mem_cons.mp hr).2
  | part => exact forall_mem_cons.mpr (forall_mem_cons.mp hr)

lemma read_size_lt (hk : 0 < k) (h : read eof k r = (data, none, r')) : r'.size < r.size := by
  cases reads h with
  | whole => simp [size]
  | part d e r hlen =>
    simp only [size, map_cons, sum_cons, length_drop]
    omega

/-- Read until `k` places are filled or an error comes, as `io.ReadAtLeast` does. -/
def fill (eof : ε) (k : Nat) (got : List α) (r : Reader α ε) : List α × Option ε × Reader α ε :=
  if hmore : got.length < k then
    match hread : read eof (k - got.length) r with
    | (data, some e, r') => (got ++ data, some e, r')
    | (data, none, r') =>
      have := read_size_lt (by omega) hread
      fill eof k (got ++ data) r'
  else (got, none, r)
termination_by r.size

/-- `io.ReadFull`: an error that comes with the last byte is dropped. -/
def readFull [DecidableEq ε] (eof unexpectedEOF : ε) (k : Nat) (r : Reader α ε) :
    Except ε (List α) × Reader α ε :=
  match fill eof k [] r with
  | (data, none, r') => (.ok data, r')
  | (data, some e, r') =>
    if k ≤ data.length then (.ok data, r')
    else if 0 < data.length ∧ e = eof then (.error unexpectedEOF, r')
    else (.error e, r')

variable (got : List α)

lemma fill_stream (r : Reader α ε) :
    (fill eof k got r).1 ++ (fill eof k got r).2.2.stream = got ++ r.stream := by
  fun_induction fill eof k got r with
  | case1 got r _ data e r' hread => rw [← read_stream hread, append_assoc]
  | case2 got r _ data r' hread _ ih => rw [ih, ← read_stream hread, append_assoc]
  | case3 got r _ => rfl

lemma fill_length_of_none (r : Reader α ε) :
    (fill eof k got r).2.1 = none → k ≤ (fill eof k got r).1.length := by
  fun_induction fill eof k got r with
  | case1 got r _ data e r' hread => exact fun h => by cases h
  | case2 got r _ data r' hread _ ih => exact ih
  | case3 got r hk => exact fun _ => Nat.le_of_not_lt hk

lemma readFull_of_stream_nil [DecidableEq ε] (unexpectedEOF : ε) (hk : 0 < k)
    (hr : r.stream = []) : ∃ e, (readFull eof unexpectedEOF k r).1 = .error e := by
  have hdata : (fill eof k [] r).1 = [] := by
    have hstream : (fill eof k [] r).1 ++ (fill eof k [] r).2.2.stream = [] ++ r.stream :=
      fill_stream [] r
    rw [hr] at hstream
    exact (append_eq_nil_iff.mp hstream).1
  have hnone : (fill eof k [] r).2.1 = none → k ≤ (fill eof k [] r).1.length :=
    fill_length_of_none [] r
  rw [readFull]
  rcases hfill : fill eof k [] r with ⟨data, err, r'⟩
  rw [hfill] at hdata hnone
  obtain rfl : data = [] := hdata
  cases err with
  | none => exact absurd (hnone rfl) (Nat.not_le.mpr hk)
  | some e =>
    refine ⟨e, ?_⟩
    simp [Nat.not_le.mpr hk]

lemma fill_length_le (hgot : got.length ≤ k) (r : Reader α ε) :
    (fill eof k got r).1.length ≤ k := by
  fun_induction fill eof k got r with
  | case1 got r _ data e r' hread =>
    have hdata := read_length_le hread
    rw [length_append]
    omega
  | case2 got r _ data r' hread _ ih =>
    have hdata := read_length_le hread
    refine ih ?_
    rw [length_append]
    omega
  | case3 got r _ => exact hgot

lemma fill_of_delivers {s : List α} (hr : r.Delivers s) (hk : k ≤ got.length + s.length) :
    (fill eof k got r).2.1 = none ∧ ∀ p ∈ (fill eof k got r).2.2, p.2 = none := by
  fun_induction fill eof k got r generalizing s with
  | case1 got r hmore data e r' hread =>
    -- the only error is the end of the stream
    cases reads hread with
    | ended =>
      have hs : s = [] := hr.2.symm
      rw [hs, length_nil] at hk
      omega
    | whole => cases hr.1 _ mem_cons_self
  | case2 got r hmore data r' hread _ ih =>
    have hstream := read_stream hread
    rw [hr.2] at hstream
    refine ih ⟨read_forall_none hread hr.1, rfl⟩ ?_
    rw [← hstream, length_append] at hk
    rw [length_append]
    omega
  | case3 got r _ => exact ⟨rfl, hr.1⟩

/-- Reading in full takes as much as asked for, however the stream is cut. -/
lemma readFull_of_delivers [DecidableEq ε] (unexpectedEOF : ε) {s rest : List α}
    (hr : r.Delivers (s ++ rest)) (hk : s.length = k) :
    ∃ r', readFull eof unexpectedEOF k r = (.ok s, r') ∧ r'.Delivers rest := by
  have hstream : (fill eof k [] r).1 ++ (fill eof k [] r).2.2.stream = [] ++ r.stream :=
    fill_stream [] r
  have hlow : (fill eof k [] r).2.1 = none → k ≤ (fill eof k [] r).1.length :=
    fill_length_of_none [] r
  have hup : (fill eof k [] r).1.length ≤ k := fill_length_le [] (Nat.zero_le k) r
  obtain ⟨hnone, hrest⟩ : (fill eof k [] r).2.1 = none ∧ ∀ p ∈ (fill eof k [] r).2.2, p.2 = none :=
    fill_of_delivers [] hr (by simp [← hk])
  rw [readFull]
  rcases hfill : fill eof k [] r with ⟨data, err, r'⟩
  rw [hfill] at hstream hlow hup hnone hrest
  obtain rfl : err = none := hnone
  rw [nil_append, hr.2] at hstream
  obtain ⟨rfl, hr'⟩ := append_inj hstream (by rw [hk]; exact Nat.le_antisymm hup (hlow rfl))
  exact ⟨r', rfl, hrest, hr'⟩

lemma Cuts.read {s : List α} (hr : r.Cuts s) (h : read eof k r = (data, none, r')) :
    r'.Cuts (s.drop data.length) := by
  refine ⟨?_, ?_⟩
  · cases reads h with
    | whole => exact (forall_mem_cons.mp hr.1).2
    | part d e r hlen =>
      obtain ⟨hp, hrest⟩ := forall_mem_cons.mp hr.1
      refine forall_mem_cons.mpr ⟨⟨?_, hp.2⟩, hrest⟩
      rw [← length_pos_iff, length_drop]
      omega
  · rw [← hr.2, ← read_stream h, drop_left]

section Consumes

variable {α ε φ : Type} {β γ : Type} {x : ExceptT φ (StateM (Reader α ε)) β} {s t : List α} {a : β}

/-- However a stream that begins with `s` is cut, the computation takes `s` from it and returns
`a`. -/
def Consumes (x : ExceptT φ (StateM (Reader α ε)) β) (s : List α) (a : β) : Prop :=
  ∀ rest r, Delivers r (s ++ rest) → ∃ r', x.run.run r = (.ok a, r') ∧ Delivers r' rest

lemma consumes_pure (a : β) : Consumes (pure a : ExceptT φ (StateM (Reader α ε)) β) [] a :=
  fun _ r hr => ⟨r, rfl, hr⟩

lemma Consumes.bind {f : β → ExceptT φ (StateM (Reader α ε)) γ} {b : γ} (hx : Consumes x s a)
    (hf : Consumes (f a) t b) : Consumes (x >>= f) (s ++ t) b := by
  intro rest r hr
  rw [append_assoc] at hr
  obtain ⟨r₁, hx', hr₁⟩ := hx _ r hr
  obtain ⟨r₂, hf', hr₂⟩ := hf _ r₁ hr₁
  refine ⟨r₂, ?_, hr₂⟩
  simp only [ExceptT.run_bind, StateT.run_bind, hx']
  exact hf'

end Consumes

end Reader

end Lib
