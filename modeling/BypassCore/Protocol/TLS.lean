import Mathlib.Data.UInt

/-!
# Server names of TLS ClientHello messages

The sniffer of `common/protocol/tls`. A host name is a list of bytes, empty when none is found;
the flag beside it says whether more bytes may change the answer. Every index and slice of the
source stands behind a length check, so a byte out of range is never read.
-/

namespace BypassCore.TLS

variable (data : List UInt8)

def byte (i : Nat) : Nat := (data.getD i 0).toNat

def uint16 : Nat := byte data 0 * 256 + byte data 1

def handshakeLen : Nat :=
  byte data 1 * 65536 + byte data 2 * 256 + byte data 3

def maxTLSHandshake : Nat := 1 <<< 20

def maxRecord : Nat := 18432

/-- The check of a name that stands in an SNI extension. -/
def parseName (name : List UInt8) : List UInt8 :=
  if name.any (· ≤ 0x20) then []
  else if name.getLast? = some 0x2e then []
  else name

def parseNames (data : List UInt8) : List UInt8 :=
  if data.length = 0 then []
  else if data.length < 3 then []
  else
    let nameType := byte data 0
    let nameLen := uint16 (data.drop 1)
    if nameLen = 0 ∨ (data.drop 3).length < nameLen then []
    else if nameType = 0 then parseName ((data.drop 3).take nameLen)
    else parseNames ((data.drop 3).drop nameLen)
termination_by data.length
decreasing_by
  simp only [List.length_drop]
  omega

def parseSNIExtension : List UInt8 :=
  if data.length < 2 then []
  else if uint16 data ≠ (data.drop 2).length then []
  else parseNames (data.drop 2)

def parseExtensions (data : List UInt8) : List UInt8 :=
  if data.length = 0 then []
  else if data.length < 4 then []
  else
    let typ := uint16 data
    let length := uint16 (data.drop 2)
    if (data.drop 4).length < length then []
    else if typ = 0 then parseSNIExtension ((data.drop 4).take length)
    else parseExtensions ((data.drop 4).drop length)
termination_by data.length
decreasing_by
  simp only [List.length_drop]
  omega

def parseClientHello : List UInt8 :=
  -- version and random
  if data.length < 35 then []
  else
    let data := data.drop 34
    let sidLen := byte data 0
    let data := data.drop 1
    if data.length < sidLen + 2 then []
    else
      let data := data.drop sidLen
      let csLen := uint16 data
      let data := data.drop 2
      if csLen = 0 ∨ csLen % 2 ≠ 0 ∨ data.length < csLen + 1 then []
      else
        let data := data.drop csLen
        let compressionLen := byte data 0
        let data := data.drop 1
        if compressionLen = 0 ∨ data.length < compressionLen then []
        else
          let data := data.drop compressionLen
          if data.length = 0 then []
          else if data.length < 2 then []
          else if uint16 data ≠ (data.drop 2).length then []
          else parseExtensions (data.drop 2)

/-- The handshake bytes without records, as QUIC carries them. -/
def sniffClientHelloHandshake : List UInt8 × Bool :=
  if data.length < 4 then ([], true)
  else if data.head? ≠ some 1 then ([], false)
  else if handshakeLen data < 34 ∨ maxTLSHandshake < handshakeLen data then ([], false)
  else if data.length < 4 + handshakeLen data then ([], true)
  else (parseClientHello ((data.drop 4).take (handshakeLen data)), false)

/-- What the reassembly loop concludes from the handshake bytes so far, if anything. -/
def verdict (handshake : List UInt8) : Option (List UInt8 × Bool) :=
  if 1 ≤ handshake.length ∧ handshake.head? ≠ some 1 then some ([], false)
  else if 4 ≤ handshake.length then
    if handshakeLen handshake < 34 ∨ maxTLSHandshake < handshakeLen handshake then
      some ([], false)
    else if 4 + handshakeLen handshake ≤ handshake.length then
      some (parseClientHello ((handshake.drop 4).take (handshakeLen handshake)), false)
    else none
  else none

/-- The reassembly loop: `data` is what stands from `offset` on. -/
def reassemble (handshake data : List UInt8) : List UInt8 × Bool :=
  if data.length < 5 then ([], true)
  else if data.head? ≠ some 0x16 then ([], false)
  else
    let recordLen := uint16 (data.drop 3)
    if recordLen = 0 ∨ maxRecord < recordLen then ([], false)
    else if data.length - 5 < recordLen then ([], true)
    else
      let handshake := handshake ++ (data.drop 5).take recordLen
      match verdict handshake with
      | some r => r
      | none =>
        if (data.drop (5 + recordLen)).length = 0 then ([], true)
        else reassemble handshake (data.drop (5 + recordLen))
termination_by data.length
decreasing_by
  simp only [List.length_drop]
  omega

/-- The parse of a ClientHello that the first record holds as a whole. -/
def fastPath : Option (List UInt8 × Bool) :=
  if 5 ≤ data.length then
    let recordLen := uint16 (data.drop 3)
    if 0 < recordLen ∧ recordLen ≤ maxRecord ∧ 5 + recordLen ≤ data.length then
      let payload := (data.drop 5).take recordLen
      if 4 ≤ payload.length ∧ payload.head? = some 1 ∧ 34 ≤ handshakeLen payload ∧
          4 + handshakeLen payload ≤ payload.length then
        some (parseClientHello ((payload.drop 4).take (handshakeLen payload)), false)
      else none
    else none
  else none

def sniffSNIWithStatus : List UInt8 × Bool :=
  if data.length = 0 then ([], true)
  else if data.head? ≠ some 0x16 then ([], false)
  else (fastPath data).getD (reassemble [] data)

/-! ## TLS records are transparent -/

open List Option

structure Record where
  major : UInt8
  minor : UInt8
  payload : List UInt8
  nonempty : 0 < payload.length
  bounded : payload.length ≤ maxRecord

namespace Record

def frame (r : Record) : List UInt8 :=
  [0x16, r.major, r.minor, UInt8.ofNat (r.payload.length / 256),
    UInt8.ofNat (r.payload.length % 256)] ++ r.payload

variable (r : Record) (rest : List UInt8)

lemma length_frame : r.frame.length = 5 + r.payload.length := by
  rw [frame, length_append]
  rfl

lemma head?_frame : (r.frame ++ rest).head? = some 0x16 := rfl

lemma uint16_frame : uint16 ((r.frame ++ rest).drop 3) = r.payload.length := by
  have hlen : r.payload.length ≤ 18432 := r.bounded
  have hhi : r.payload.length / 256 % 256 = r.payload.length / 256 :=
    Nat.mod_eq_of_lt (by omega)
  simp only [frame, uint16, byte, cons_append, drop_succ_cons, drop_zero, getD_cons_zero,
    getD_cons_succ, UInt8.toNat_ofNat']
  omega

lemma take_drop_frame : ((r.frame ++ rest).drop 5).take r.payload.length = r.payload := by
  simp [frame]

lemma drop_frame : (r.frame ++ rest).drop (5 + r.payload.length) = rest := by
  rw [← r.length_frame, drop_left]

end Record

variable {h : List UInt8}

lemma byte_append {i : Nat} (hi : i < h.length) (t : List UInt8) : byte (h ++ t) i = byte h i := by
  simp only [byte, getD_eq_getElem?_getD, getElem?_append_left hi]

lemma handshakeLen_append (hh : 4 ≤ h.length) (t : List UInt8) :
    handshakeLen (h ++ t) = handshakeLen h := by
  simp only [handshakeLen, byte_append (show 1 < h.length by omega),
    byte_append (show 2 < h.length by omega), byte_append (show 3 < h.length by omega)]

variable {r : List UInt8 × Bool}

lemma verdict_append (hv : verdict h = some r) (t : List UInt8) : verdict (h ++ t) = some r := by
  have hlen : (h ++ t).length = h.length + t.length := length_append
  have hne : h ≠ [] := by
    rintro rfl
    simp [verdict] at hv
  have hhead : (h ++ t).head? = h.head? := head?_append_of_ne_nil h hne
  have hpos : 0 < h.length := length_pos_iff.mpr hne
  rw [verdict] at hv ⊢
  rw [hhead]
  split_ifs at hv with htype hfour hrange hwhole
  · rw [if_pos ⟨by omega, htype.2⟩, hv]
  · rw [if_neg (fun hc => htype ⟨hpos, hc.2⟩), if_pos (by omega), handshakeLen_append hfour,
      if_pos hrange, hv]
  · rw [if_neg (fun hc => htype ⟨hpos, hc.2⟩), if_pos (by omega), handshakeLen_append hfour,
      if_neg hrange, if_pos (by omega), drop_append_of_le_length hfour,
      take_append_of_le_length (by rw [length_drop]; omega), hv]

/-- What the records of a handshake are taken for: the verdict on its bytes, or a wish for more. -/
def status (handshake : List UInt8) : List UInt8 × Bool := (verdict handshake).getD ([], true)

lemma status_append (hv : verdict h = some r) (t : List UInt8) : status (h ++ t) = r := by
  rw [status, verdict_append hv]
  rfl

/-- The sniffer of bare handshake bytes gives the verdict on a ClientHello. -/
lemma sniffClientHelloHandshake_eq_status (hh : h.head? = some 1) :
    sniffClientHelloHandshake h = status h := by
  have hone : ¬ h.head? ≠ some 1 := not_not.mpr hh
  have htype : ¬ (1 ≤ h.length ∧ h.head? ≠ some 1) := fun hc => hc.2 hh
  rw [sniffClientHelloHandshake, status, verdict, if_neg htype]
  by_cases hfour : h.length < 4
  · rw [if_pos hfour, if_neg (by omega)]
    rfl
  · rw [if_pos (show 4 ≤ h.length by omega)]
    split_ifs with hrange hmore hwhole
    · rfl
    · omega
    · rfl
    · rfl
    · omega

lemma reassemble_frame (h : List UInt8) (r : Record) (rest : List UInt8) :
    reassemble h (r.frame ++ rest) =
      (verdict (h ++ r.payload)).getD
        (if rest.length = 0 then ([], true) else reassemble (h ++ r.payload) rest) := by
  have hlen : (r.frame ++ rest).length = 5 + r.payload.length + rest.length := by
    rw [length_append, r.length_frame]
  have hpos := r.nonempty
  have hmax := r.bounded
  rw [reassemble]
  simp only [r.head?_frame, r.uint16_frame, r.take_drop_frame, r.drop_frame]
  rw [if_neg (by omega), if_neg (by simp), if_neg (by omega), if_neg (by omega)]
  cases verdict (h ++ r.payload) <;> rfl

/-- The loop over the records of a handshake ends with its status. -/
lemma reassemble_records (h : List UInt8) {records : List Record} (hne : records ≠ []) :
    reassemble h (records.flatMap Record.frame) = status (h ++ records.flatMap Record.payload) := by
  induction records generalizing h with
  | nil => exact absurd rfl hne
  | cons r rs ih =>
    rw [flatMap_cons, flatMap_cons, reassemble_frame, ← append_assoc]
    cases hv : verdict (h ++ r.payload) with
    | some v => rw [status_append hv, getD_some]
    | none =>
      rw [getD_none]
      cases rs with
      | nil =>
        rw [flatMap_nil, flatMap_nil, append_nil, status, hv]
        rfl
      | cons r' rs =>
        have hlen : ((r' :: rs).flatMap Record.frame).length ≠ 0 := by
          rw [flatMap_cons, length_append, r'.length_frame]
          omega
        rw [if_neg hlen, ih _ (cons_ne_nil r' rs)]

variable {data : List UInt8}

/-- A whole ClientHello in the first record ends the loop in its first round. -/
lemma reassemble_of_fastPath (hhead : data.head? = some 0x16)
    {v : List UInt8 × Bool} (hv : fastPath data = some v) : reassemble [] data = v := by
  simp only [fastPath] at hv
  split_ifs at hv with hfive hrec hhello
  obtain ⟨hfour, hone, hmin, hfits⟩ := hhello
  -- such a message is far below the largest one the loop accepts
  have hlen : handshakeLen ((data.drop 5).take (uint16 (data.drop 3))) ≤ maxTLSHandshake := by
    have hsmall : maxRecord ≤ maxTLSHandshake := by decide
    rw [length_take] at hfits
    omega
  have hverdict : verdict ((data.drop 5).take (uint16 (data.drop 3))) = some v := by
    rw [verdict, if_neg (fun hc => hc.2 hone), if_pos hfour, if_neg (by omega), if_pos hfits, hv]
  rw [reassemble]
  simp only [nil_append, hverdict]
  rw [if_neg (by omega), if_neg (fun hc => hc hhead), if_neg (by omega), if_neg (by omega)]

lemma sniffSNIWithStatus_eq_reassemble (hhead : data.head? = some 0x16) :
    sniffSNIWithStatus data = reassemble [] data := by
  have hne : data.length ≠ 0 := by
    rintro h
    rw [length_eq_zero_iff.mp h] at hhead
    cases hhead
  rw [sniffSNIWithStatus, if_neg hne, if_neg (fun hc => hc hhead)]
  cases hv : fastPath data with
  | none => rfl
  | some v => exact (reassemble_of_fastPath hhead hv).symm

/-! ### More data -/

lemma uint16_drop_append {i : Nat} (hi : i + 2 ≤ data.length)
    (t : List UInt8) : uint16 ((data ++ t).drop i) = uint16 (data.drop i) := by
  have hlen : 2 ≤ (data.drop i).length := by
    rw [length_drop]
    omega
  rw [drop_append_of_le_length (by omega), uint16, uint16,
    byte_append (show 0 < (data.drop i).length by omega),
    byte_append (show 1 < (data.drop i).length by omega)]

lemma reassemble_complete (h : List UInt8) (hfive : 5 ≤ data.length)
    (hhead : data.head? = some 0x16) {n : Nat} (hn : uint16 (data.drop 3) = n)
    (hrange : ¬ (n = 0 ∨ maxRecord < n)) (hwhole : n ≤ data.length - 5) (t : List UInt8) :
    reassemble h (data ++ t) =
      (verdict (h ++ (data.drop 5).take n)).getD
        (if (data.drop (5 + n) ++ t).length = 0 then ([], true)
          else reassemble (h ++ (data.drop 5).take n) (data.drop (5 + n) ++ t)) := by
  have hne : data ≠ [] := ne_nil_of_length_pos (by omega)
  have hlen : (data ++ t).length = data.length + t.length := length_append
  rw [reassemble]
  simp only [uint16_drop_append (show 3 + 2 ≤ data.length by omega) t, hn,
    head?_append_of_ne_nil data hne]
  rw [if_neg (by omega), if_neg (not_not.mpr hhead), if_neg hrange, if_neg (by omega),
    drop_append_of_le_length (by omega), drop_append_of_le_length (by omega),
    take_append_of_le_length (by rw [length_drop]; omega)]
  cases verdict (h ++ (data.drop 5).take n) <;> rfl

lemma reassemble_append (h : List UInt8) (hr : (reassemble h data).2 = false)
    (t : List UInt8) : reassemble h (data ++ t) = reassemble h data := by
  fun_induction reassemble h data with
  | case1 => cases hr
  | case2 h data hfive hhead =>
    have hne : data ≠ [] := ne_nil_of_length_pos (by omega)
    rw [reassemble, length_append, head?_append_of_ne_nil data hne, if_neg (by omega), if_pos hhead]
  | case3 h data hfive hhead n hrange =>
    have hne : data ≠ [] := ne_nil_of_length_pos (by omega)
    rw [reassemble]
    simp only [uint16_drop_append (show 3 + 2 ≤ data.length by omega) t,
      head?_append_of_ne_nil data hne, length_append]
    rw [if_neg (by omega), if_neg hhead, if_pos hrange]
  | case4 => cases hr
  | case5 h data hfive hhead n hrange hwhole handshake v hv =>
    rw [reassemble_complete h (by omega) (not_not.mp hhead) rfl hrange (by omega), hv]
    rfl
  | case6 => cases hr
  | case7 h data hfive hhead n hrange hwhole handshake hv hrest ih =>
    have hmore : (data.drop (5 + n) ++ t).length ≠ 0 := by
      rw [length_append]
      omega
    rw [reassemble_complete h (by omega) (not_not.mp hhead) rfl hrange (by omega), hv,
      getD_none, if_neg hmore, ih hr]

lemma sniffSNIWithStatus_append (hr : (sniffSNIWithStatus data).2 = false)
    (t : List UInt8) : sniffSNIWithStatus (data ++ t) = sniffSNIWithStatus data := by
  have hne : data ≠ [] := by
    rintro rfl
    cases hr
  have hlen : data.length ≠ 0 := fun h => hne (length_eq_zero_iff.mp h)
  have happend : (data ++ t).head? = data.head? := head?_append_of_ne_nil data hne
  by_cases hhead : data.head? = some 0x16
  · rw [sniffSNIWithStatus_eq_reassemble hhead] at hr ⊢
    rw [sniffSNIWithStatus_eq_reassemble (happend.trans hhead), reassemble_append [] hr]
  · rw [sniffSNIWithStatus, sniffSNIWithStatus, if_neg (by rw [length_append]; omega),
      if_neg hlen, happend, if_pos hhead, if_pos hhead]

/-- What the sniffer has found in some data, or that nothing is there, stays when more comes. -/
theorem sniffSNIWithStatus_stable {p q : List UInt8} (hpq : p <+: q)
    (hp : (sniffSNIWithStatus p).2 = false) :
    (sniffSNIWithStatus q).1 = (sniffSNIWithStatus p).1 ∧ (sniffSNIWithStatus q).2 = false := by
  obtain ⟨t, rfl⟩ := hpq
  rw [sniffSNIWithStatus_append hp]
  exact ⟨rfl, hp⟩

/-- A record whose message is no ClientHello, and the first bytes of another one. -/
theorem sniffSNIWithStatus_stable_serverHello :
    (sniffSNIWithStatus [0x16, 3, 3, 0, 1, 2, 0x16, 3]).1 = [] ∧
      (sniffSNIWithStatus [0x16, 3, 3, 0, 1, 2, 0x16, 3]).2 = false := by
  have hp : sniffSNIWithStatus [0x16, 3, 3, 0, 1, 2] = ([], false) := by decide +kernel
  have h := sniffSNIWithStatus_stable (p := [0x16, 3, 3, 0, 1, 2]) ⟨[0x16, 3], rfl⟩ (by rw [hp])
  rwa [hp] at h

lemma verdict_snd (hv : verdict h = some r) : r.2 = false := by
  simp only [verdict] at hv
  split_ifs at hv <;> cases hv <;> rfl

/-- While the sniffer wants more data it has no host. -/
lemma reassemble_needMore (h data : List UInt8) (hr : (reassemble h data).2 = true) :
    (reassemble h data).1 = [] := by
  fun_induction reassemble h data with
  | case1 => rfl
  | case2 => rfl
  | case3 => rfl
  | case4 => rfl
  | case5 h data hfive hhead n hrange hwhole handshake v hv =>
    rw [verdict_snd hv] at hr
    cases hr
  | case6 => rfl
  | case7 h data hfive hhead n hrange hwhole handshake hv hrest ih => exact ih hr

lemma sniffSNIWithStatus_needMore (hr : (sniffSNIWithStatus data).2 = true) :
    (sniffSNIWithStatus data).1 = [] := by
  by_cases hhead : data.head? = some 0x16
  · rw [sniffSNIWithStatus_eq_reassemble hhead] at hr ⊢
    exact reassemble_needMore [] data hr
  · rw [sniffSNIWithStatus]
    split_ifs <;> rfl

/-- On every framing of a handshake that starts as a ClientHello, the sniffer of the records
returns what the sniffer of the handshake bytes does; and on every input that reaches it, the fast
path returns what the reassembly loop would. -/
theorem framing_transparent :
    (∀ (records : List Record) (handshake : List UInt8),
      records.flatMap Record.payload = handshake → handshake.head? = some 1 →
      sniffSNIWithStatus (records.flatMap Record.frame) = sniffClientHelloHandshake handshake) ∧
    ∀ (data : List UInt8) (v : List UInt8 × Bool), data.head? = some 0x16 →
      fastPath data = some v → reassemble [] data = v := by
  refine ⟨?_, fun data v hhead hv => reassemble_of_fastPath hhead hv⟩
  rintro records _ rfl hhead
  cases records with
  | nil => cases hhead
  | cons r rs =>
    have hframe : ((r :: rs).flatMap Record.frame).head? = some 0x16 := rfl
    rw [sniffSNIWithStatus_eq_reassemble hframe, reassemble_records [] (cons_ne_nil r rs),
      nil_append, sniffClientHelloHandshake_eq_status hhead]

def cutHeader : List Record :=
  [⟨3, 1, [1], by decide, by decide⟩, ⟨3, 3, [0, 0], by decide, by decide⟩]

theorem framing_transparent_cutHeader :
    sniffSNIWithStatus (cutHeader.flatMap Record.frame) = ([], true) :=
  (framing_transparent.1 cutHeader [1, 0, 0] rfl rfl).trans (by decide)

end BypassCore.TLS
