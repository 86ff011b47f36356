import BypassCore.Lib.Except
import BypassCore.Lib.Fragments
import BypassCore.Lib.Slices
import BypassCore.Protocol.TLS

/-!
# Server names in QUIC Initial packets

The sniffer of `common/protocol/quic`: the long header of a packet, the removal of its protection,
the frames of an Initial packet, and the loop that puts the CRYPTO data of the packets together and
looks for a ClientHello in it. The cryptographic primitives enter as parameters.
-/

namespace BypassCore.QUIC

open Lib

inductive Err where
  | notQUIC
  | unexpectedEOF
  /-- The packet is not authentic. -/
  | cipher
deriving DecidableEq

def maxCryptoDataSize : Nat := 32768

def slice (data : List UInt8) (i j : Nat) : List UInt8 := (data.take j).drop i

/-- A number of several bytes, the highest first, behind some higher bits. -/
def bigEndian (high : Nat) (bytes : List UInt8) : Nat :=
  bytes.foldl (fun value b => value * 256 + b.toNat) high

def readVarint (data : List UInt8) : Option (Nat × Nat) :=
  match data with
  | [] => none
  | b :: _ =>
    let length := 1 <<< (b >>> 6).toNat
    if 8 < length ∨ data.length < length then none
    else some (bigEndian (b.toNat % 64) (slice data 1 length), length)

def readLengthPrefixed (data : List UInt8) (pos : Nat) : Option (List UInt8 × Nat) :=
  match data[pos]? with
  | none => none
  | some b =>
    let length := b.toNat
    if 20 < length ∨ data.length < pos + 1 + length then none
    else some (slice data (pos + 1) (pos + 1 + length), pos + 1 + length)

def orErr {α : Type} (e : Err) : Option α → Except Err α
  | some a => .ok a
  | none => .error e

/-! ### Frames -/

def skipVarints : Nat → List UInt8 → Except Err (List UInt8)
  | 0, data => .ok data
  | n + 1, data =>
    match readVarint data with
    | some (_, used) => skipVarints n (data.drop used)
    | none => .error .unexpectedEOF

def parseAck (ecn : Bool) (data : List UInt8) : Except Err (List UInt8) := do
  let data ← skipVarints 2 data
  let (count, used) ← orErr .unexpectedEOF (readVarint data)
  let data ← skipVarints 1 (data.drop used)
  let data ← skipVarints (count * 2) data
  if ecn then skipVarints 3 data else .ok data

def parseCrypto (data : List UInt8) : Except Err (Fragment UInt8 × List UInt8) := do
  let (offset, used) ← orErr .unexpectedEOF (readVarint data)
  let data := data.drop used
  let (length, used) ← orErr .unexpectedEOF (readVarint data)
  ensure (length ≤ data.length - used) .unexpectedEOF
  let data := data.drop used
  ensure (offset ≤ maxCryptoDataSize && length ≤ maxCryptoDataSize - offset) .notQUIC
  return (⟨offset, data.take length⟩, data.drop length)

def parseClose (data : List UInt8) : Except Err (List UInt8) := do
  let data ← skipVarints 2 data
  let (length, used) ← orErr .unexpectedEOF (readVarint data)
  ensure (length ≤ data.length - used) .unexpectedEOF
  return data.drop (used + length)

/-- One frame: the fragment it carries, if any, and what follows it. -/
def parseFrame (data : List UInt8) : Except Err (List (Fragment UInt8) × List UInt8) := do
  let (typ, n) ← orErr .unexpectedEOF (readVarint data)
  let data := data.drop n
  match typ with
  | 0 | 1 => return ([], data)
  | 2 => return ([], ← parseAck false data)
  | 3 => return ([], ← parseAck true data)
  | 6 =>
    let (fragment, data) ← parseCrypto data
    return ([fragment], data)
  | 0x1c => return ([], ← parseClose data)
  | _ => .error .notQUIC

/-! Every frame takes a byte at least. -/

lemma orErr_eq_ok {α : Type} {e : Err} {x : Option α} {a : α} : orErr e x = .ok a ↔ x = some a := by
  cases x <;> simp [orErr]

variable {data : List UInt8}

lemma readVarint_used {value used : Nat}
    (h : readVarint data = some (value, used)) : 1 ≤ used ∧ used ≤ data.length := by
  cases data with
  | nil => cases h
  | cons b data =>
    simp only [readVarint] at h
    split_ifs at h with hlen
    cases h
    refine ⟨?_, Nat.le_of_not_lt fun hlt => hlen (.inr hlt)⟩
    rw [Nat.one_shiftLeft]
    exact Nat.one_le_two_pow

variable {rest : List UInt8}

lemma length_of_skipVarints {n : Nat}
    (h : skipVarints n data = .ok rest) : rest.length ≤ data.length := by
  induction n generalizing data with
  | zero =>
    cases h
    exact Nat.le_refl _
  | succ n ih =>
    simp only [skipVarints] at h
    split at h
    · refine (ih h).trans ?_
      rw [List.length_drop]
      exact Nat.sub_le _ _
    · cases h

lemma length_of_parseAck {ecn : Bool} (h : parseAck ecn data = .ok rest) :
    rest.length ≤ data.length := by
  simp only [parseAck, bind_eq_ok, Prod.exists] at h
  obtain ⟨d₁, h₁, count, used, -, d₂, h₂, d₃, h₃, h⟩ := h
  have hdrop : (d₁.drop used).length ≤ d₁.length := by
    rw [List.length_drop]
    exact Nat.sub_le _ _
  have h₃₁ : d₃.length ≤ data.length :=
    (length_of_skipVarints h₃).trans ((length_of_skipVarints h₂).trans
      (hdrop.trans (length_of_skipVarints h₁)))
  split_ifs at h
  · exact (length_of_skipVarints h).trans h₃₁
  · cases h
    exact h₃₁

lemma length_of_parseCrypto {f : Fragment UInt8}
    (h : parseCrypto data = .ok (f, rest)) : rest.length ≤ data.length := by
  simp only [parseCrypto, bind_eq_ok, Prod.exists] at h
  obtain ⟨offset, used, -, length, used', -, -, -, -, -, h⟩ := h
  cases h
  simp only [List.length_drop]
  omega

lemma length_of_parseClose (h : parseClose data = .ok rest) : rest.length ≤ data.length := by
  simp only [parseClose, bind_eq_ok, Prod.exists] at h
  obtain ⟨d₁, h₁, length, used, -, -, -, h⟩ := h
  cases h
  refine Nat.le_trans ?_ (length_of_skipVarints h₁)
  rw [List.length_drop]
  exact Nat.sub_le _ _

lemma length_of_parseFrame {fragments : List (Fragment UInt8)}
    (h : parseFrame data = .ok (fragments, rest)) : rest.length < data.length := by
  simp only [parseFrame, bind_eq_ok, orErr_eq_ok, Prod.exists] at h
  obtain ⟨typ, n, hvarint, h⟩ := h
  obtain ⟨hpos, hle⟩ := readVarint_used hvarint
  have hdrop : (data.drop n).length < data.length := by
    rw [List.length_drop]
    omega
  refine Nat.lt_of_le_of_lt ?_ hdrop
  split at h
  · cases h
    exact Nat.le_refl _
  · cases h
    exact Nat.le_refl _
  · obtain ⟨d, hd, h⟩ := bind_eq_ok.mp h
    cases h
    exact length_of_parseAck hd
  · obtain ⟨d, hd, h⟩ := bind_eq_ok.mp h
    cases h
    exact length_of_parseAck hd
  · obtain ⟨d, hd, h⟩ := bind_eq_ok.mp h
    cases h
    exact length_of_parseCrypto hd
  · obtain ⟨d, hd, h⟩ := bind_eq_ok.mp h
    cases h
    exact length_of_parseClose hd
  · cases h

def parseInitialFrames (data : List UInt8) : Except Err (List (Fragment UInt8)) :=
  if data = [] then .ok []
  else
    match _h : parseFrame data with
    | .error e => .error e
    | .ok (fragments, rest) => do
      return fragments ++ (← parseInitialFrames rest)
termination_by data.length
decreasing_by exact length_of_parseFrame _h

/-! ### Packets -/

structure LongHeader where
  version : Nat
  initial : Bool
  dcid : List UInt8
  pnOffset : Nat
  stop : Nat
deriving DecidableEq

def versionDraft29 : Nat := 0xff00001d

/-- Only an Initial packet has a token: where it ends. -/
def skipToken (initial : Bool) (work : List UInt8) (pos : Nat) : Except Err Nat :=
  if initial then do
    let (tokenLen, n) ← orErr .notQUIC (readVarint (work.drop pos))
    ensure (tokenLen ≤ work.length) .notQUIC
    ensure (tokenLen ≤ work.length - (pos + n)) .unexpectedEOF
    return pos + n + tokenLen
  else .ok pos

/-- The part of `decryptInitial` that reads the header. -/
def readHeader (packet : List UInt8) : Except Err LongHeader := do
  let first := packet.headD 0
  ensure (7 ≤ packet.length && first &&& 0xc0 == 0xc0) .notQUIC
  let version := bigEndian 0 (slice packet 1 5)
  ensure (version == 1 || version == versionDraft29) .notQUIC
  let initial := (first &&& 0x30) >>> 4 == 0
  let (dcid, pos) ← orErr .notQUIC (readLengthPrefixed packet 5)
  let (_, pos) ← orErr .notQUIC (readLengthPrefixed packet pos)
  let pos ← skipToken initial packet pos
  let (packetLen, n) ← orErr .notQUIC (readVarint (packet.drop pos))
  ensure (4 ≤ packetLen) .notQUIC
  ensure (packetLen ≤ packet.length - (pos + n)) .unexpectedEOF
  return ⟨version, initial, dcid, pos + n, pos + n + packetLen⟩

/-- `crypto/hkdf`, `crypto/aes` and `crypto/cipher`. The lengths asked for are legal ones. -/
structure Primitives where
  extract (secret salt : List UInt8) : List UInt8
  expand (secret info : List UInt8) (length : Nat) : List UInt8
  encrypt (key block : List UInt8) : Vector UInt8 16
  openSealed (key nonce ciphertext header : List UInt8) : Option (List UInt8)

def saltDraft29 : List UInt8 :=
  [0xaf, 0xbf, 0xec, 0x28, 0x99, 0x93, 0xd2, 0x4c, 0x9e, 0x97, 0x86, 0xf1, 0x9c, 0x61, 0x11, 0xe0,
    0x43, 0x90, 0xa8, 0x99]

def saltV1 : List UInt8 :=
  [0x38, 0x76, 0x2c, 0xf7, 0xf5, 0x59, 0x34, 0xb3, 0x4d, 0x17, 0x9a, 0xe6, 0xa4, 0xc8, 0x0c, 0xad,
    0xcc, 0xbb, 0x7f, 0x0a]

variable (c : Primitives)

def expandLabel (secret : List UInt8) (label : List UInt8) (length : Nat) : List UInt8 :=
  let full : List UInt8 := [0x74, 0x6c, 0x73, 0x31, 0x33, 0x20] ++ label
  c.expand secret
    ([UInt8.ofNat (length / 256), UInt8.ofNat length, UInt8.ofNat full.length] ++ full ++ [0])
    length

def labelClient : List UInt8 := [0x63, 0x6c, 0x69, 0x65, 0x6e, 0x74, 0x20, 0x69, 0x6e]

def labelHP : List UInt8 := [0x71, 0x75, 0x69, 0x63, 0x20, 0x68, 0x70]

def labelKey : List UInt8 := [0x71, 0x75, 0x69, 0x63, 0x20, 0x6b, 0x65, 0x79]

def labelIV : List UInt8 := [0x71, 0x75, 0x69, 0x63, 0x20, 0x69, 0x76]

/-- The nonce of a packet: its number is put over the end of the vector. -/
def packetNonce (iv : List UInt8) (packetNumber : Nat) : List UInt8 :=
  let number := (List.range 8).map fun i => UInt8.ofNat (packetNumber / 256 ^ (7 - i))
  iv.take (iv.length - 8) ++ List.zipWith (· ^^^ ·) (iv.drop (iv.length - 8)) number

/-- The part of `decryptInitial` that removes the protection of an Initial packet. -/
def decrypt (h : LongHeader) (work : List UInt8) : Except Err (List UInt8) := do
  ensure (h.pnOffset + 4 + 16 ≤ h.stop) .notQUIC
  let salt := if h.version = versionDraft29 then saltDraft29 else saltV1
  let clientSecret := expandLabel c (c.extract h.dcid salt) labelClient 32
  let hpKey := expandLabel c clientSecret labelHP 16
  let mask := (c.encrypt hpKey (slice work (h.pnOffset + 4) (h.pnOffset + 4 + 16))).toList
  let first := work.headD 0 ^^^ (mask.headD 0 &&& 0x0f)
  let pnLen := (first &&& 3).toNat + 1
  ensure (h.pnOffset + pnLen ≤ h.stop) .notQUIC
  let number := List.zipWith (· ^^^ ·) (slice work h.pnOffset (h.pnOffset + pnLen)) (mask.drop 1)
  let key := expandLabel c clientSecret labelKey 16
  let nonce := packetNonce (expandLabel c clientSecret labelIV 12) (bigEndian 0 number)
  let header := first :: slice work 1 h.pnOffset ++ number
  orErr .cipher (c.openSealed key nonce (slice work (h.pnOffset + pnLen) h.stop) header)

structure Packet where
  consumed : Nat
  fragments : List (Fragment UInt8)
  initial : Bool
deriving DecidableEq

def decryptInitial (packet : List UInt8) : Except Err Packet := do
  let h ← readHeader packet
  if h.initial then
    let plaintext ← decrypt c h packet
    let fragments ← parseInitialFrames plaintext
    return ⟨h.stop, fragments, true⟩
  else return ⟨h.stop, [], false⟩

def contiguousCryptoData (S : SliceSort) (fragments : List (Fragment UInt8)) :
    List (Fragment UInt8) × List UInt8 :=
  let sorted := S.sort (fun f g => f.offset < g.offset) fragments
  (sorted, Fragment.assemble maxCryptoDataSize [] sorted)

def sniffPackets (c : Primitives) (S : SliceSort) (allFragments : List (Fragment UInt8))
    (data : List UInt8) : List UInt8 × Bool :=
  if _hne : data.length = 0 then ([], true)
  else
    match decryptInitial c data with
    | .error _ => ([], false)
    | .ok p =>
      if _hpos : p.consumed = 0 then ([], false)
      else if !p.initial then sniffPackets c S allFragments (data.drop p.consumed)
      else
        match contiguousCryptoData S (allFragments ++ p.fragments) with
        | (allFragments, cryptoData) =>
          if cryptoData = [] then sniffPackets c S allFragments (data.drop p.consumed)
          else
            match TLS.sniffClientHelloHandshake cryptoData with
            | (host, more) =>
              if host ≠ [] ∨ more = false then (host, false)
              else sniffPackets c S allFragments (data.drop p.consumed)
termination_by data.length
decreasing_by
  all_goals
    rw [List.length_drop]
    omega

def sniffSNI (S : SliceSort) (data : List UInt8) : List UInt8 × Bool :=
  if data.length = 0 then ([], true) else sniffPackets c S [] data

end BypassCore.QUIC

/-!
## A ClientHello may be spread over packets in any way

A packet is read from the front of the data that is left, whatever follows it. After each Initial
packet the sniffer looks at the longest prefix of the handshake that the fragments so far cover.
What it concludes from a prefix it concludes from all longer ones, so the last prefix decides.
-/

namespace BypassCore

open Lib List

namespace TLS

/-- A conclusion is not changed by what follows. -/
lemma sniffClientHelloHandshake_append {h : List UInt8}
    (hdone : sniffClientHelloHandshake h ≠ ([], true)) (t : List UInt8) :
    sniffClientHelloHandshake (h ++ t) = sniffClientHelloHandshake h := by
  rw [sniffClientHelloHandshake] at hdone
  split_ifs at hdone with hfour hhead hrange hmore
  all_goals first | exact absurd rfl hdone | skip
  all_goals
    have hlen : (h ++ t).length = h.length + t.length := length_append
    have hne : h ≠ [] := by
      rintro rfl
      exact hfour (by decide)
    rw [sniffClientHelloHandshake, sniffClientHelloHandshake, if_neg hfour, if_neg (by omega),
      head?_append_of_ne_nil h hne, handshakeLen_append (not_lt.mp hfour)]
  · rw [if_pos hhead, if_pos hhead]
  · rw [if_neg hhead, if_neg hhead, if_pos hrange, if_pos hrange]
  · rw [if_neg hhead, if_neg hhead, if_neg hrange, if_neg hrange, if_neg hmore, if_neg (by omega),
      drop_append_of_le_length (not_lt.mp hfour),
      take_append_of_le_length (by rw [length_drop]; omega)]

/-- There is no name yet while more bytes are wished for. -/
lemma sniffClientHelloHandshake_more {h : List UInt8}
    (hmore : (sniffClientHelloHandshake h).2 = true) :
    sniffClientHelloHandshake h = ([], true) := by
  rw [sniffClientHelloHandshake] at hmore ⊢
  split_ifs at hmore ⊢ <;> rfl

end TLS

namespace QUIC

/-! ### Packets from the front of the data -/

variable {c : Primitives} {data packet t : List UInt8} {h : LongHeader} {i j pos : Nat}

lemma slice_append (hj : j ≤ data.length) (i : Nat) (t : List UInt8) :
    slice (data ++ t) i j = slice data i j := by
  rw [slice, slice, take_append_of_le_length hj]

lemma readVarint_append {r : Nat × Nat} (hr : readVarint data = some r) (t : List UInt8) :
    readVarint (data ++ t) = some r := by
  cases data with
  | nil => cases hr
  | cons b data =>
    simp only [readVarint] at hr
    split_ifs at hr with hlen
    rw [not_or, not_lt, not_lt] at hlen
    have hslice : slice (b :: (data ++ t)) 1 (1 <<< (b >>> 6).toNat) =
        slice (b :: data) 1 (1 <<< (b >>> 6).toNat) := slice_append hlen.2 1 t
    have hmore : ¬ (8 < 1 <<< (b >>> 6).toNat ∨
        (b :: (data ++ t)).length < 1 <<< (b >>> 6).toNat) := by
      have hle := hlen.2
      simp only [length_cons, length_append] at hle ⊢
      omega
    simp only [cons_append, readVarint]
    rw [if_neg hmore, hslice, hr]

lemma readLengthPrefixed_append {r : List UInt8 × Nat} (hr : readLengthPrefixed data pos = some r)
    (t : List UInt8) : readLengthPrefixed (data ++ t) pos = some r := by
  rw [readLengthPrefixed] at hr ⊢
  cases hb : data[pos]? with
  | none =>
    rw [hb] at hr
    cases hr
  | some b =>
    have hpos : pos < data.length := (List.getElem?_eq_some_iff.mp hb).1
    rw [hb] at hr
    rw [getElem?_append_left hpos, hb]
    dsimp only at hr ⊢
    split_ifs at hr with hlen
    rw [not_or, not_lt, not_lt] at hlen
    rw [if_neg ?_, slice_append hlen.2, hr]
    rw [length_append]
    omega

lemma skipToken_append {initial : Bool} {stop : Nat} (hr : skipToken initial data pos = .ok stop)
    (t : List UInt8) : skipToken initial (data ++ t) pos = .ok stop := by
  cases initial with
  | false => exact hr
  | true =>
  simp only [skipToken, if_true, bind_eq_ok, orErr_eq_ok, ensure_eq_ok, Prod.exists,
    decide_eq_true_eq] at hr ⊢
  obtain ⟨tokenLen, n, hvarint, u, hlen, u', hrest, hr⟩ := hr
  have hpos : pos ≤ data.length := by
    by_contra hlt
    rw [drop_eq_nil_of_le (by omega)] at hvarint
    cases hvarint
  refine ⟨tokenLen, n, ?_, u, ?_, u', ?_, hr⟩
  · rw [drop_append_of_le_length hpos]
    exact readVarint_append hvarint t
  · rw [length_append]
    omega
  · rw [length_append]
    omega

lemma readHeader_append (hr : readHeader data = .ok h) (t : List UInt8) :
    readHeader (data ++ t) = .ok h := by
  simp only [readHeader, bind_eq_ok, orErr_eq_ok, ensure_eq_ok, Prod.exists, decide_eq_true_eq,
    Bool.and_eq_true] at hr ⊢
  obtain ⟨u₁, ⟨hseven, hform⟩, u₂, hversion, dcid, pos₁, hdcid, scid, pos₂, hscid, pos₃, htoken,
    packetLen, n, hvarint, u₃, hfour, u₄, hrest, hr⟩ := hr
  have hhead : (data ++ t).headD 0 = data.headD 0 := by
    cases data with
    | nil => exact absurd hseven (by decide)
    | cons b data => rfl
  have hpos : pos₃ ≤ data.length := by
    by_contra hlt
    rw [drop_eq_nil_of_le (by omega)] at hvarint
    cases hvarint
  have hslice : slice (data ++ t) 1 5 = slice data 1 5 := slice_append (by omega) 1 t
  rw [hhead, hslice]
  refine ⟨u₁, ⟨?_, hform⟩, u₂, hversion, dcid, pos₁, readLengthPrefixed_append hdcid t, scid, pos₂,
    readLengthPrefixed_append hscid t, pos₃, skipToken_append htoken t, packetLen, n, ?_, u₃, hfour,
    u₄, ?_, hr⟩
  · rw [length_append]
    omega
  · rw [drop_append_of_le_length hpos]
    exact readVarint_append hvarint t
  · rw [length_append]
    omega

lemma bounds_of_readHeader (hr : readHeader data = .ok h) :
    7 ≤ data.length ∧ h.pnOffset + 4 ≤ h.stop ∧ h.stop ≤ data.length := by
  simp only [readHeader, bind_eq_ok, orErr_eq_ok, ensure_eq_ok, Prod.exists, decide_eq_true_eq,
    Bool.and_eq_true] at hr
  obtain ⟨-, ⟨hseven, -⟩, -, -, dcid, pos₁, -, scid, pos₂, -, pos₃, -, packetLen, n, hvarint, -,
    hfour, -, hrest, hr⟩ := hr
  obtain ⟨-, hused⟩ := readVarint_used hvarint
  cases hr
  dsimp only
  omega

lemma decrypt_append (hstop : h.stop ≤ data.length) (hne : data ≠ []) (t : List UInt8) :
    decrypt c h (data ++ t) = decrypt c h data := by
  have hhead : (data ++ t).headD 0 = data.headD 0 := by
    cases data with
    | nil => exact absurd rfl hne
    | cons b data => rfl
  by_cases hsample : h.pnOffset + 4 + 16 ≤ h.stop
  · have hlow (b : UInt8) : (b &&& 3).toNat ≤ 3 := by
      exact Nat.and_le_right
    have hmask : slice (data ++ t) (h.pnOffset + 4) (h.pnOffset + 4 + 16) =
        slice data (h.pnOffset + 4) (h.pnOffset + 4 + 16) := slice_append (by omega) _ t
    have hnumber (b : UInt8) : slice (data ++ t) h.pnOffset (h.pnOffset + ((b &&& 3).toNat + 1)) =
        slice data h.pnOffset (h.pnOffset + ((b &&& 3).toNat + 1)) := by
      have hb := hlow b
      exact slice_append (by omega) _ t
    have hfront : slice (data ++ t) 1 h.pnOffset = slice data 1 h.pnOffset :=
      slice_append (by omega) 1 t
    have hsealed (i : Nat) : slice (data ++ t) i h.stop = slice data i h.stop :=
      slice_append hstop i t
    simp only [decrypt, hhead, hmask, hnumber, hfront, hsealed]
  · simp [decrypt, hsample, ensure, bind, Except.bind]

variable {p : Packet}

section

variable (hr : decryptInitial c data = .ok p)
include hr

/-- A packet is taken from the front of the data. -/
lemma decryptInitial_append (t : List UInt8) : decryptInitial c (data ++ t) = .ok p := by
  simp only [decryptInitial, bind_eq_ok] at hr ⊢
  obtain ⟨h, hheader, hr⟩ := hr
  obtain ⟨hseven, -, hstop⟩ := bounds_of_readHeader hheader
  have hne : data ≠ [] := by
    rintro rfl
    exact absurd hseven (by decide)
  refine ⟨h, readHeader_append hheader t, ?_⟩
  rw [decrypt_append hstop hne]
  exact hr

lemma packet_spec : p.consumed ≠ 0 ∧ (p.initial = false → p.fragments = []) := by
  simp only [decryptInitial, bind_eq_ok] at hr
  obtain ⟨h, hheader, hr⟩ := hr
  obtain ⟨-, hfour, -⟩ := bounds_of_readHeader hheader
  have hpos : h.stop ≠ 0 := by omega
  split_ifs at hr
  · obtain ⟨plaintext, -, hr⟩ := bind_eq_ok.mp hr
    obtain ⟨fragments, -, hr⟩ := bind_eq_ok.mp hr
    cases hr
    exact ⟨hpos, nofun⟩
  · cases hr
    exact ⟨hpos, fun _ => rfl⟩

end

/-! ### The fragments so far -/

section Sniff

variable {S : SliceSort} {s : List UInt8} {all : List (Fragment UInt8)} {n : Nat}

lemma mem_contiguousCryptoData {f : Fragment UInt8} :
    f ∈ (contiguousCryptoData S all).1 ↔ f ∈ all :=
  (S.perm _ all).mem_iff

/-- The data so far is the longest prefix that is covered. -/
lemma contiguousCryptoData_eq (hs : s.length ≤ maxCryptoDataSize) (hall : ∀ f ∈ all, f.Agrees s)
    (hn : Fragment.Reaches s all n) : (contiguousCryptoData S all).2 = s.take n := by
  have hsorted := S.sorted (fun f g : Fragment UInt8 => decide (f.offset < g.offset)) all
    (by simp only [decide_eq_false_iff_not]; omega) (by simp only [decide_eq_false_iff_not]; omega)
  refine Fragment.assemble_eq_take hs (hsorted.imp fun h => ?_) (fun f hf => ?_) ?_
  · exact not_lt.mp (of_decide_eq_false h)
  · exact hall f (mem_contiguousCryptoData.mp hf)
  · exact (Fragment.reaches_congr fun f => mem_contiguousCryptoData).mpr hn

/-- A long-header packet that can be read: an Initial packet that can be decrypted, or another one,
which is skipped. -/
structure Readable (c : Primitives) where
  bytes : List UInt8
  packet : Packet
  read : decryptInitial c bytes = .ok packet
  whole : packet.consumed = bytes.length

/-- The sniffer concludes what it would conclude from the prefix, or goes on. -/
def conclude (result : List UInt8 × Bool) (next : List UInt8 × Bool) : List UInt8 × Bool :=
  if result = ([], true) then next else result

/-- What a round of the loop finds in front of the data. -/
lemma Readable.front (p : Readable c) (rest : List UInt8) :
    (p.bytes ++ rest).length ≠ 0 ∧ decryptInitial c (p.bytes ++ rest) = .ok p.packet ∧
      p.packet.consumed ≠ 0 ∧ (p.bytes ++ rest).drop p.packet.consumed = rest := by
  have hpos := (packet_spec p.read).1
  refine ⟨?_, decryptInitial_append p.read rest, hpos, ?_⟩
  · rw [length_append, ← p.whole]
    omega
  · rw [p.whole, drop_left]

lemma sniffPackets_cons (p : Readable c) (rest : List UInt8) (hp : p.packet.initial = true) :
    sniffPackets c S all (p.bytes ++ rest) =
      conclude
        (TLS.sniffClientHelloHandshake (contiguousCryptoData S (all ++ p.packet.fragments)).2)
        (sniffPackets c S (contiguousCryptoData S (all ++ p.packet.fragments)).1 rest) := by
  obtain ⟨hne, hread, hpos, hdrop⟩ := p.front rest
  rw [sniffPackets, dif_neg hne, hread]
  dsimp only
  rw [dif_neg hpos, if_neg (by simp [hp]), hdrop, conclude]
  generalize contiguousCryptoData S (all ++ p.packet.fragments) = r
  obtain ⟨sorted, cryptoData⟩ := r
  by_cases hnil : cryptoData = []
  · rw [hnil]
    rfl
  · rw [if_neg hnil]
    have hmore : (TLS.sniffClientHelloHandshake cryptoData).2 = true →
        TLS.sniffClientHelloHandshake cryptoData = ([], true) := TLS.sniffClientHelloHandshake_more
    generalize TLS.sniffClientHelloHandshake cryptoData = result at hmore ⊢
    obtain ⟨host, more⟩ := result
    cases more with
    | false => simp
    | true =>
      rw [hmore rfl]
      simp

lemma sniffPackets_skip (p : Readable c) (rest : List UInt8) (hp : p.packet.initial = false) :
    sniffPackets c S all (p.bytes ++ rest) = sniffPackets c S all rest := by
  obtain ⟨hne, hread, hpos, hdrop⟩ := p.front rest
  rw [sniffPackets, dif_neg hne, hread]
  dsimp only
  rw [dif_neg hpos, if_pos (by simp [hp]), hdrop]

lemma sniffPackets_eq (hs : s.length ≤ maxCryptoDataSize) (packets : List (Readable c))
    (hall : ∀ f ∈ all, f.Agrees s) (hpackets : ∀ p ∈ packets, ∀ f ∈ p.packet.fragments, f.Agrees s)
    (hopen : ∀ m, Fragment.Reaches s all m → TLS.sniffClientHelloHandshake (s.take m) = ([], true))
    (hn : Fragment.Reaches s (all ++ packets.flatMap fun p => p.packet.fragments) n) :
    sniffPackets c S all (packets.flatMap Readable.bytes) =
      TLS.sniffClientHelloHandshake (s.take n) := by
  induction packets generalizing all with
  | nil =>
    rw [flatMap_nil, append_nil] at hn
    rw [sniffPackets, hopen n hn]
    rfl
  | cons p packets ih =>
    rw [forall_mem_cons] at hpackets
    rw [flatMap_cons, ← append_assoc] at hn
    rw [flatMap_cons]
    cases hp : p.packet.initial with
    | false =>
      rw [(packet_spec p.read).2 hp, append_nil] at hn
      rw [sniffPackets_skip p _ hp]
      exact ih hall hpackets.2 hopen hn
    | true =>
      have hall' : ∀ f ∈ all ++ p.packet.fragments, f.Agrees s := by
        intro f hf
        exact (mem_append.mp hf).elim (hall f) (hpackets.1 f)
      obtain ⟨m, hm⟩ := Fragment.exists_reaches s (all ++ p.packet.fragments)
      rw [sniffPackets_cons p _ hp, contiguousCryptoData_eq hs hall' hm, conclude]
      split_ifs with hmore
      · refine ih (fun f hf => hall' f (mem_contiguousCryptoData.mp hf)) hpackets.2 ?_ ?_
        · intro m' hm'
          rw [Fragment.reaches_congr fun f => mem_contiguousCryptoData] at hm'
          rw [hm'.unique hm, hmore]
        · rw [← Fragment.reaches_congr ?_] at hn
          · exact hn
          · intro f
            simp only [mem_append, mem_contiguousCryptoData]
      · -- the longer prefix that is covered in the end does not change the conclusion
        have hmn : m ≤ n := hm.mono hn fun f hf => mem_append_left _ hf
        have hsplit : s.take n = s.take m ++ (s.drop m).take (n - m) := by
          rw [← take_add, Nat.add_sub_cancel' hmn]
        rw [hsplit, TLS.sniffClientHelloHandshake_append hmore]

/-- However a handshake is spread over packets, the sniffer finds what the longest prefix tells that
their fragments cover. -/
theorem sniffSNI_spread (c : Primitives) (S : SliceSort) {s : List UInt8}
    (hs : s.length ≤ maxCryptoDataSize) (packets : List (Readable c))
    (hagrees : ∀ p ∈ packets, ∀ f ∈ p.packet.fragments, f.Agrees s) {n : Nat}
    (hn : Fragment.Reaches s (packets.flatMap fun p => p.packet.fragments) n) :
    sniffSNI c S (packets.flatMap Readable.bytes) = TLS.sniffClientHelloHandshake (s.take n) := by
  have hopen : ∀ m, Fragment.Reaches s [] m →
      TLS.sniffClientHelloHandshake (s.take m) = ([], true) := by
    intro m hm
    have hzero : m = 0 := by
      by_contra hne
      obtain ⟨f, hf, -⟩ := hm.1.2 0 (Nat.pos_of_ne_zero hne)
      cases hf
    rw [hzero]
    rfl
  have hloop := sniffPackets_eq (S := S) hs packets (forall_mem_nil _) hagrees hopen hn
  rw [sniffSNI]
  split_ifs with hempty
  · rw [← hloop, sniffPackets, dif_pos hempty]
  · exact hloop

/-- Primitives without any protection: a tag of sixteen bytes is taken off. -/
def plain : Primitives where
  extract secret _ := secret
  expand secret _ _ := secret
  encrypt _ _ := .replicate 16 0
  openSealed _ _ ciphertext _ := some (ciphertext.drop 16)

/-- An Initial packet with one CRYPTO frame of a few bytes. -/
def initialBytes (offset : UInt8) (data : List UInt8) : List UInt8 :=
  [0xc0, 0, 0, 0, 1, 0, 0, 0, UInt8.ofNat (20 + data.length), 0] ++ List.replicate 16 0 ++
    [6, offset, UInt8.ofNat data.length] ++ data

lemma decryptInitial_eq {p : List UInt8} {fragments : List (Fragment UInt8)}
    (hheader : readHeader data = .ok h) (hinitial : h.initial = true)
    (hplain : decrypt c h data = .ok p) (hframes : parseInitialFrames p = .ok fragments) :
    decryptInitial c data = .ok ⟨h.stop, fragments, true⟩ := by
  simp [decryptInitial, hheader, hinitial, hplain, hframes, bind, Except.bind, pure, Except.pure]

lemma parseInitialFrames_single {f : Fragment UInt8} (hne : data ≠ [])
    (hframe : parseFrame data = .ok ([f], [])) : parseInitialFrames data = .ok [f] := by
  rw [parseInitialFrames, if_neg hne]
  split
  · rename_i e he
    rw [he] at hframe
    cases hframe
  · rename_i fragments rest he
    rw [he] at hframe
    cases hframe
    rw [parseInitialFrames]
    rfl

/-- The last two bytes of a message come first. -/
def exampleTail : Readable plain where
  bytes := initialBytes 3 [0, 7]
  packet := ⟨31, [⟨3, [0, 7]⟩], true⟩
  read := decryptInitial_eq (h := ⟨1, true, [], 9, 31⟩) (p := [6, 3, 2, 0, 7]) (by decide) rfl
    (by decide) (parseInitialFrames_single (by decide) (by decide))
  whole := rfl

def exampleHead : Readable plain where
  bytes := initialBytes 0 [2, 0, 0, 0]
  packet := ⟨33, [⟨0, [2, 0, 0, 0]⟩], true⟩
  read := decryptInitial_eq (h := ⟨1, true, [], 9, 33⟩) (p := [6, 0, 4, 2, 0, 0, 0]) (by decide)
    rfl (by decide) (parseInitialFrames_single (by decide) (by decide))
  whole := rfl

theorem sniffSNI_spread_example :
    sniffSNI plain .insertion (exampleTail.bytes ++ exampleHead.bytes) = ([], false) := by
  have hreaches : Fragment.Reaches [2, 0, 0, 0, 7]
      ([exampleTail, exampleHead].flatMap fun p => p.packet.fragments) 5 := by
    refine Fragment.reaches_of_gap (by decide) ?_ (fun hlt => absurd hlt (by decide))
    intro i hi
    by_cases hlt : i < 4
    · exact ⟨⟨0, [2, 0, 0, 0]⟩, by decide, Nat.zero_le i, hlt⟩
    · exact ⟨⟨3, [0, 7]⟩, by decide, Nat.le_of_succ_le (not_lt.mp hlt), hi⟩
  exact sniffSNI_spread plain .insertion (by decide) [exampleTail, exampleHead] (by decide) hreaches

end Sniff

end QUIC

end BypassCore
