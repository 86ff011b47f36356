import BypassCore.Lib.UTF8

/-!
# JSON text

The grammar that `encoding/json` of Go reads, byte by byte as its scanner does. A value is kept as a
tree with the text of its strings, arrays and objects: what is decoded from it, and what is passed
on as it was written, is up to the reader.
-/

namespace Lib.JSON

open List Option UTF8

abbrev Text := List UInt8

abbrev Key := List Char

variable (b : UInt8)

def isSpace : Bool := b == 0x20 || b == 0x09 || b == 0x0a || b == 0x0d

variable (s : Text)

def skipSpace : Text := s.dropWhile isSpace

/-! ### Strings -/

def isHex : Bool :=
  (0x30 ≤ b && b ≤ 0x39) || (0x41 ≤ b && b ≤ 0x46) || (0x61 ≤ b && b ≤ 0x66)

/-- Where the scanner is in a string: after a backslash, or in front of hexadecimal digits. -/
inductive StringState where
  | plain
  | escape
  | hex (left : ℕ)
deriving DecidableEq

def StringState.next : StringState → UInt8 → Option StringState
  | .plain, b =>
    if b = 0x5c then some .escape
    else if b < 0x20 then none
    else some .plain
  | .escape, b =>
    if b = 0x75 then some (.hex 3)
    else if b ∈ [0x62, 0x66, 0x6e, 0x72, 0x74, 0x5c, 0x2f, 0x22] then some .plain
    else none
  | .hex 0, b => if isHex b then some .plain else none
  | .hex (left + 1), b => if isHex b then some (.hex left) else none

def scanString : StringState → Text → Option (Text × Text)
  | _, [] => none
  | state, b :: s =>
    if state = .plain ∧ b = 0x22 then some ([], s)
    else (state.next b).bind fun state' => (scanString state' s).map fun r => (b :: r.1, r.2)

def hexValue : ℕ :=
  if b ≤ 0x39 then b.toNat - 0x30
  else if b ≤ 0x46 then b.toNat - 0x37
  else b.toNat - 0x57

def getu4 : Text → Option ℕ
  | a :: b :: c :: d :: _ =>
    some (((hexValue a * 16 + hexValue b) * 16 + hexValue c) * 16 + hexValue d)
  | _ => none

/-- The character that an escape stands for, and the number of bytes after the backslash that it
takes. A surrogate without its other half counts as a replacement character. -/
def escaped : Char × ℕ :=
  match s with
  | [] => (runeError, 0)
  | b :: s =>
    if b = 0x62 then ('\x08', 1)
    else if b = 0x66 then ('\x0c', 1)
    else if b = 0x6e then ('\n', 1)
    else if b = 0x72 then ('\r', 1)
    else if b = 0x74 then ('\t', 1)
    else if b = 0x75 then
      match getu4 s with
      | none => (runeError, 1)
      | some hi =>
        if hi < 0xd800 ∨ 0xdfff < hi then (Char.ofNat hi, 5)
        else
          match s.drop 4 with
          | 0x5c :: 0x75 :: s =>
            match getu4 s with
            | some lo =>
              if hi < 0xdc00 ∧ 0xdc00 ≤ lo ∧ lo ≤ 0xdfff then
                (Char.ofNat (0x10000 + (hi - 0xd800) * 1024 + (lo - 0xdc00)), 11)
              else (runeError, 5)
            | none => (runeError, 5)
          | _ => (runeError, 5)
    else (Char.ofNat b.toNat, 1)

/-- The characters of a string, after some bytes of the last one. -/
def unquoteFrom : ℕ → Text → Key
  | _, [] => []
  | k + 1, _ :: s => unquoteFrom k s
  | 0, b :: s =>
    if b = 0x5c then (escaped s).1 :: unquoteFrom (escaped s).2 s
    else
      match decodeRune (b :: s) with
      | some (c, n) => c :: unquoteFrom (n - 1) s
      | none => runeError :: unquoteFrom 0 s

def unquote (body : Text) : Key := unquoteFrom 0 body

lemma unquoteFrom_eq_runesFrom {k : ℕ} {body : Text} (h : 0x5c ∉ body) :
    unquoteFrom k body = runesFrom k body := by
  induction body generalizing k with
  | nil => cases k <;> rfl
  | cons b s ih =>
    obtain ⟨hb, hs⟩ := not_or.mp (mem_cons.not.mp h)
    cases k with
    | succ k => exact ih hs
    | zero =>
      rw [unquoteFrom, runesFrom, if_neg (Ne.symm hb)]
      cases hrune : decodeRune (b :: s) with
      | none => exact congrArg _ (ih hs)
      | some r => exact congrArg _ (ih hs)

/-- A string without an escape. -/
lemma unquote_eq_runes {body : Text} (h : 0x5c ∉ body) : unquote body = runes body :=
  unquoteFrom_eq_runesFrom h

/-! ### Numbers -/

def isDigit : Bool := 0x30 ≤ b && b ≤ 0x39

inductive NumberState where
  | start
  | neg
  | zero
  | digits
  | dot
  | fraction
  | exponent
  | sign
  | power
deriving DecidableEq

namespace NumberState

def next : NumberState → UInt8 → Option NumberState
  | .start, b =>
    if b = 0x2d then some .neg
    else if b = 0x30 then some .zero
    else if isDigit b then some .digits
    else none
  | .neg, b => if b = 0x30 then some .zero else if isDigit b then some .digits else none
  | .zero, b =>
    if b = 0x2e then some .dot else if b = 0x65 ∨ b = 0x45 then some .exponent else none
  | .digits, b =>
    if isDigit b then some .digits
    else if b = 0x2e then some .dot
    else if b = 0x65 ∨ b = 0x45 then some .exponent
    else none
  | .dot, b => if isDigit b then some .fraction else none
  | .fraction, b =>
    if isDigit b then some .fraction
    else if b = 0x65 ∨ b = 0x45 then some .exponent
    else none
  | .exponent, b =>
    if b = 0x2b ∨ b = 0x2d then some .sign else if isDigit b then some .power else none
  | .sign, b | .power, b => if isDigit b then some .power else none

def ends : NumberState → Bool
  | .zero | .digits | .fraction | .power => true
  | _ => false

end NumberState

/-- The longest number that the text starts with, and what comes after it. -/
def scanNumber : NumberState → Text → Option (Text × Text)
  | state, [] => if state.ends then some ([], []) else none
  | state, b :: s =>
    match state.next b with
    | some state' => (scanNumber state' s).map fun r => (b :: r.1, r.2)
    | none => if state.ends then some ([], b :: s) else none

def isNumberByte : Bool :=
  isDigit b || b == 0x2b || b == 0x2d || b == 0x2e || b == 0x45 || b == 0x65

variable {state : NumberState} {rest : Text} {d : Doc}

lemma NumberState.isNumberByte_of_next {state' : NumberState} {b : UInt8}
    (h : state.next b = some state') : isNumberByte b = true := by
  by_contra hb
  simp only [isNumberByte, Bool.or_eq_true, not_or] at hb
  obtain ⟨⟨⟨⟨⟨hdigit, hplus⟩, hminus⟩, hdot⟩, hE⟩, he⟩ := hb
  have hzero : b ≠ 0x30 := by
    rintro rfl
    exact hdigit rfl
  cases state <;> simp_all [NumberState.next]

/-- What is scanned is the start of the text, and has only bytes of numbers. -/
lemma scanNumber_eq_some {s lit : Text} (h : scanNumber state s = some (lit, rest)) :
    s = lit ++ rest ∧ ∀ b ∈ lit, isNumberByte b = true := by
  induction s generalizing state lit with
  | nil =>
    simp only [scanNumber] at h
    split_ifs at h
    cases h
    exact ⟨rfl, forall_mem_nil _⟩
  | cons b s ih =>
    simp only [scanNumber] at h
    split at h
    · next state' hnext =>
      obtain ⟨⟨lit', rest'⟩, hscan, h⟩ := map_eq_some_iff.mp h
      cases h
      obtain ⟨hs, hbytes⟩ := ih hscan
      have hb := NumberState.isNumberByte_of_next hnext
      exact ⟨congrArg (b :: ·) hs, forall_mem_cons.mpr ⟨hb, hbytes⟩⟩
    · split_ifs at h
      cases h
      exact ⟨rfl, forall_mem_nil _⟩

lemma ne_nil_of_scanNumber {s lit : Text} (h : scanNumber .start s = some (lit, rest)) :
    lit ≠ [] := by
  rintro rfl
  cases s with
  | nil => cases h
  | cons b s =>
    simp only [scanNumber] at h
    split at h
    · obtain ⟨_, -, h⟩ := map_eq_some_iff.mp h
      cases h
    · cases h

structure Number where
  lit : Text
  nonempty : lit ≠ []
  bytes : ∀ b ∈ lit, isNumberByte b = true

def number : Option (Number × Text) :=
  match h : scanNumber .start s with
  | some (lit, rest) => some (⟨lit, ne_nil_of_scanNumber h, (scanNumber_eq_some h).2⟩, rest)
  | none => none

/-! ### Values -/

inductive Doc where
  | null
  | bool (b : Bool)
  | num (n : Number)
  | str (body : Text)
  /-- With the text after the bracket. -/
  | arr (inner : Text) (items : List Doc)
  | obj (inner : Text) (members : List (Key × Doc))

def Doc.raw : Doc → Text
  | .null => [0x6e, 0x75, 0x6c, 0x6c]
  | .bool true => [0x74, 0x72, 0x75, 0x65]
  | .bool false => [0x66, 0x61, 0x6c, 0x73, 0x65]
  | .num n => n.lit
  | .str body => 0x22 :: (body ++ [0x22])
  | .arr inner _ => 0x5b :: inner
  | .obj inner _ => 0x7b :: inner

def literal (d : Doc) (s : Text) : Option (Doc × Text) :=
  if d.raw.isPrefixOf s then some (d, s.drop d.raw.length) else none

def scalar : Option (Doc × Text) :=
  match s with
  | [] => none
  | b :: rest =>
    if b = 0x22 then (scanString .plain rest).map fun r => (.str r.1, r.2)
    else if b = 0x6e then literal .null s
    else if b = 0x74 then literal (.bool true) s
    else if b = 0x66 then literal (.bool false) s
    else (number s).map fun r => (.num r.1, r.2)

/-- One or more items with commas between them, up to the closing bracket. -/
def items {α : Type} (item : Text → Option (α × Text)) (close : UInt8) :
    ℕ → Text → Option (List α × Text)
  | 0, _ => none
  | n + 1, s =>
    (item (skipSpace s)).bind fun r =>
      match skipSpace r.2 with
      | [] => none
      | b :: s =>
        if b = 0x2c then (items item close n s).map fun rs => (r.1 :: rs.1, rs.2)
        else if b = close then some ([r.1], s)
        else none

/-- What comes after an opening bracket. An item has at least one byte. -/
def bracketed {α : Type} (item : Text → Option (α × Text)) (close : UInt8) (s : Text) :
    Option (List α × Text) :=
  match skipSpace s with
  | [] => none
  | b :: rest => if b = close then some ([], rest) else items item close s.length s

def member (value : Text → Option (Doc × Text)) (s : Text) : Option ((Key × Doc) × Text) :=
  match s with
  | [] => none
  | b :: s =>
    if b = 0x22 then
      (scanString .plain s).bind fun r =>
        match skipSpace r.2 with
        | [] => none
        | b :: s =>
          if b = 0x3a then (value (skipSpace s)).map fun v => ((unquote r.1, v.1), v.2) else none
    else none

def consumed (s rest : Text) : Text := s.take (s.length - rest.length)

/-- The value that the text starts with, and what comes after it, where arrays and objects may be
nested to some depth. -/
def value : ℕ → Text → Option (Doc × Text)
  | 0, s => scalar s
  | depth + 1, s =>
    match s with
    | [] => none
    | b :: rest =>
      if b = 0x5b then
        (bracketed (value depth) 0x5d rest).map fun r => (.arr (consumed rest r.2) r.1, r.2)
      else if b = 0x7b then
        (bracketed (member (value depth)) 0x7d rest).map fun r =>
          (.obj (consumed rest r.2) r.1, r.2)
      else scalar s

def maxNestingDepth : ℕ := 10000

/-! ### What is read -/

lemma length_skipSpace_le : (skipSpace s).length ≤ s.length :=
  (dropWhile_suffix _).length_le

lemma length_scanString {state : StringState} {s body : Text}
    (h : scanString state s = some (body, rest)) : rest.length < s.length := by
  induction s generalizing state body with
  | nil => cases h
  | cons b s ih =>
    rw [scanString] at h
    split_ifs at h
    · cases h
      exact Nat.lt_succ_self _
    · obtain ⟨state', -, h⟩ := bind_eq_some_iff.mp h
      obtain ⟨r, hr, h⟩ := map_eq_some_iff.mp h
      cases h
      exact Nat.lt_succ_of_lt (ih hr)

lemma scanNumber_of_number {s : Text} {n : Number} (h : number s = some (n, rest)) :
    scanNumber .start s = some (n.lit, rest) := by
  unfold number at h
  split at h <;> cases h
  · next hscan =>
    exact hscan

lemma literal_eq_some {d' : Doc} {s : Text} (h : literal d s = some (d', rest)) :
    d.raw.isPrefixOf s = true ∧ d' = d ∧ rest = s.drop d.raw.length := by
  unfold literal at h
  split_ifs at h with hstart
  cases h
  exact ⟨hstart, rfl, rfl⟩

lemma length_literal {d' : Doc} {s : Text} (hd : d.raw ≠ [])
    (h : literal d s = some (d', rest)) : rest.length < s.length := by
  obtain ⟨hstart, -, rfl⟩ := literal_eq_some h
  have hle := ( isPrefixOf_iff_prefix.mp hstart).length_le
  have hpos := length_pos_of_ne_nil hd
  rw [length_drop]
  omega

lemma length_scalar {s : Text} (h : scalar s = some (d, rest)) : rest.length < s.length := by
  unfold scalar at h
  split at h
  · cases h
  · split_ifs at h
    · obtain ⟨r, hr, h⟩ := map_eq_some_iff.mp h
      cases h
      exact Nat.lt_succ_of_lt (length_scanString hr)
    · exact length_literal (by decide) h
    · exact length_literal (by decide) h
    · exact length_literal (by decide) h
    · obtain ⟨r, hr, h⟩ := map_eq_some_iff.mp h
      cases h
      rw [(scanNumber_eq_some (scanNumber_of_number hr)).1, length_append]
      exact Nat.lt_add_of_pos_left (length_pos_of_ne_nil r.1.nonempty)

def Consumes {α : Type} (item : Text → Option (α × Text)) : Prop :=
  ∀ ⦃s a rest⦄, item s = some (a, rest) → rest.length < s.length

section Items

variable {α : Type} {item : Text → Option (α × Text)} {close : UInt8} {s rest : Text} {l : List α}

/-- Items that are read one after another up to the closing bracket. -/
inductive Items (item : Text → Option (α × Text)) (close : UInt8) :
    Text → List α → Text → Prop where
  | last {s r rest : Text} {a : α} (hitem : item (skipSpace s) = some (a, r))
      (hclose : skipSpace r = close :: rest) : Items item close s [a] rest
  | cons {s r s' rest : Text} {a : α} {l : List α} (hitem : item (skipSpace s) = some (a, r))
      (hcomma : skipSpace r = 0x2c :: s') (hitems : Items item close s' l rest) :
      Items item close s (a :: l) rest

lemma items_of_items {n : ℕ} (h : items item close n s = some (l, rest)) :
    Items item close s l rest := by
  induction n generalizing s l with
  | zero => cases h
  | succ n ih =>
    obtain ⟨⟨a, r⟩, hitem, h⟩ := bind_eq_some_iff.mp h
    split at h
    · cases h
    · next b s' hr =>
      split_ifs at h with hcomma hclose
      · obtain ⟨⟨l', rest'⟩, hl, h⟩ := map_eq_some_iff.mp h
        cases h
        subst hcomma
        exact .cons hitem hr (ih hl)
      · cases h
        subst hclose
        exact .last hitem hr

lemma Items.exists_first (h : Items item close s l rest) :
    ∃ a r, item (skipSpace s) = some (a, r) := by
  cases h with
  | last hitem _ => exact ⟨_, _, hitem⟩
  | cons hitem _ _ => exact ⟨_, _, hitem⟩

/-- What comes after an opening bracket: the closing one, or items. -/
lemma bracketed_eq_some (h : bracketed item close s = some (l, rest)) :
    skipSpace s = close :: rest ∧ l = [] ∨ Items item close s l rest := by
  unfold bracketed at h
  split at h
  · cases h
  · next b t hs =>
    split_ifs at h with hclose
    · cases h
      subst hclose
      exact .inl ⟨hs, rfl⟩
    · exact .inr (items_of_items h)

/-- An item and the byte after it take at least two bytes. -/
lemma length_after {r t : Text} {a : α} {b : UInt8} (hitem : Consumes item)
    (hr : item (skipSpace s) = some (a, r)) (ht : skipSpace r = b :: t) :
    t.length + 1 < s.length := by
  have hlt := hitem hr
  have hs := length_skipSpace_le s
  have hle := length_skipSpace_le r
  rw [ht, length_cons] at hle
  omega

lemma Items.length_lt (hitem : Consumes item) (h : Items item close s l rest) :
    rest.length < s.length := by
  induction h with
  | last hr hclose =>
    have hlt := length_after hitem hr hclose
    omega
  | cons hr hcomma _ ih =>
    have hlt := length_after hitem hr hcomma
    omega

lemma Consumes.bracketed (hitem : Consumes item) : Consumes (bracketed item close) := by
  intro s l rest h
  rcases bracketed_eq_some h with ⟨hs, -⟩ | hitems
  · have hle := length_skipSpace_le s
    rw [hs, length_cons] at hle
    omega
  · exact hitems.length_lt hitem

end Items

lemma member_eq_some {value : Text → Option (Doc × Text)} {s : Text} {key : Key}
    (h : member value s = some ((key, d), rest)) :
    ∃ t body r s', s = 0x22 :: t ∧ scanString .plain t = some (body, r) ∧
      skipSpace r = 0x3a :: s' ∧ value (skipSpace s') = some (d, rest) ∧ unquote body = key := by
  unfold member at h
  split at h
  · cases h
  · next b t =>
    split_ifs at h with hquote
    subst hquote
    obtain ⟨⟨body, r⟩, hbody, h⟩ := bind_eq_some_iff.mp h
    split at h
    · cases h
    · next b s' hr =>
      split_ifs at h with hcolon
      subst hcolon
      obtain ⟨⟨d', rest'⟩, hd, h⟩ := map_eq_some_iff.mp h
      cases h
      exact ⟨t, body, r, s', rfl, hbody, hr, hd, rfl⟩

lemma Consumes.member {value : Text → Option (Doc × Text)} (hvalue : Consumes value) :
    Consumes (member value) := by
  rintro s ⟨key, d⟩ rest h
  obtain ⟨t, body, r, s', rfl, hbody, hr, hd, -⟩ := member_eq_some h
  have hlt := length_scanString hbody
  have hle := length_skipSpace_le r
  have hle' := length_skipSpace_le s'
  have hlt' := hvalue hd
  rw [hr, length_cons] at hle
  rw [length_cons]
  omega

lemma value_eq_some {depth : ℕ} {s : Text} (h : value depth s = some (d, rest)) :
    scalar s = some (d, rest) ∨
      (∃ depth' t inner l, depth = depth' + 1 ∧ s = 0x5b :: t ∧ d = .arr inner l ∧
        bracketed (value depth') 0x5d t = some (l, rest)) ∨
      ∃ depth' t inner l, depth = depth' + 1 ∧ s = 0x7b :: t ∧ d = .obj inner l ∧
        bracketed (member (value depth')) 0x7d t = some (l, rest) := by
  cases depth with
  | zero => exact .inl h
  | succ depth' =>
    rw [value.eq_def] at h
    cases s with
    | nil => cases h
    | cons b t =>
      dsimp only at h
      split_ifs at h with harr hobj
      · subst harr
        obtain ⟨⟨l, rest'⟩, hl, h⟩ := map_eq_some_iff.mp h
        cases h
        exact .inr (.inl ⟨depth', t, _, l, rfl, rfl, rfl, hl⟩)
      · subst hobj
        obtain ⟨⟨l, rest'⟩, hl, h⟩ := map_eq_some_iff.mp h
        cases h
        exact .inr (.inr ⟨depth', t, _, l, rfl, rfl, rfl, hl⟩)
      · exact .inl h

/-- A value has at least one byte. -/
theorem consumes_value (depth : ℕ) : Consumes (value depth) := by
  induction depth with
  | zero => exact fun _ _ _ => length_scalar
  | succ depth ih =>
    intro s d rest h
    rcases value_eq_some h with hscalar | ⟨_, t, _, l, hdepth, rfl, -, hl⟩ |
      ⟨_, t, _, l, hdepth, rfl, -, hl⟩
    · exact length_scalar hscalar
    · cases hdepth
      exact Nat.lt_succ_of_lt (ih.bracketed hl)
    · cases hdepth
      exact Nat.lt_succ_of_lt (Consumes.bracketed (Consumes.member ih) hl)

/-- Bytes that no value starts with: space, a separator or a closing bracket. -/
def isDelimiter : Bool :=
  isSpace b || b == 0x2c || b == 0x3a || b == 0x5d || b == 0x7d

/-- A scalar starts with no bracket either. -/
lemma scalar_head {s : Text} (h : scalar s = some (d, rest)) :
    ∃ b t, s = b :: t ∧ isDelimiter b = false ∧ b ≠ 0x5b ∧ b ≠ 0x7b := by
  cases s with
  | nil => cases h
  | cons b t =>
    refine ⟨b, t, rfl, ?_⟩
    by_cases hletter : b = 0x22 ∨ b = 0x6e ∨ b = 0x74 ∨ b = 0x66
    · rcases hletter with rfl | rfl | rfl | rfl <;> decide
    · obtain ⟨hquote, hn, ht, hf⟩ : b ≠ 0x22 ∧ b ≠ 0x6e ∧ b ≠ 0x74 ∧ b ≠ 0x66 := by
        simpa only [not_or] using hletter
      rw [scalar, if_neg hquote, if_neg hn, if_neg ht, if_neg hf] at h
      obtain ⟨⟨n, rest'⟩, hnumber, -⟩ := map_eq_some_iff.mp h
      have hscan := scanNumber_of_number hnumber
      have hbyte : isNumberByte b = true := by
        rw [scanNumber] at hscan
        split at hscan
        · next hnext => exact NumberState.isNumberByte_of_next hnext
        · cases hscan
      have hne : ∀ c : UInt8, isNumberByte c = false → b ≠ c := by
        rintro c hc rfl
        exact absurd hc (Bool.not_eq_false _ ▸ hbyte)
      refine ⟨?_, hne _ rfl, hne _ rfl⟩
      simp only [isDelimiter, isSpace, Bool.or_eq_false_iff, beq_eq_false_iff_ne]
      exact ⟨⟨⟨⟨⟨⟨⟨hne _ rfl, hne _ rfl⟩, hne _ rfl⟩, hne _ rfl⟩, hne _ rfl⟩, hne _ rfl⟩,
        hne _ rfl⟩, hne _ rfl⟩

lemma value_head {depth : ℕ} {s : Text} (h : value depth s = some (d, rest)) :
    ∃ b t, s = b :: t ∧ isDelimiter b = false := by
  rcases value_eq_some h with hscalar | ⟨_, t, _, _, -, rfl, -⟩ | ⟨_, t, _, _, -, rfl, -⟩
  · obtain ⟨b, t, rfl, hb, -⟩ := scalar_head hscalar
    exact ⟨b, t, rfl, hb⟩
  · exact ⟨_, t, rfl, rfl⟩
  · exact ⟨_, t, rfl, rfl⟩

lemma value_of_scalar {s : Text} (h : scalar s = some (d, rest)) (depth : ℕ) :
    value depth s = some (d, rest) := by
  obtain ⟨b, t, rfl, -, harr, hobj⟩ := scalar_head h
  cases depth with
  | zero => exact h
  | succ depth => rw [value, if_neg harr, if_neg hobj, h]

/-!
## The streaming decoder

`Decoder` of `encoding/json`, which reads a document value by value with `Decode`, or token by token
with `Token` and `More`.
-/

inductive Failure where
  | eof
  | malformed
  | unmarshal
  | message (text : String)
  | base (text : String) (cause : Failure)
deriving DecidableEq

inductive TokenState where
  | topValue
  | arrayStart
  | arrayValue
  | arrayComma
  | objectStart
  | objectKey
  | objectColon
  | objectValue
  | objectComma
deriving DecidableEq

namespace TokenState

def valueAllowed : TokenState → Bool
  | .topValue | .arrayStart | .arrayValue | .objectValue => true
  | _ => false

def valueEnd : TokenState → TokenState
  | .arrayStart | .arrayValue => .arrayComma
  | .objectValue => .objectComma
  | state => state

end TokenState

inductive Token where
  | beginObject
  | endObject
  | beginArray
  | endArray
  | string (s : Key)
  | other
deriving DecidableEq

structure Decoder where
  rest : Text
  state : TokenState := .topValue
  stack : List TokenState := []

namespace Decoder

def new (s : Text) : Decoder := { rest := s }

def decode {α : Type} (unmarshal : Doc → Option α) (d : Decoder) :
    Except Failure (α × Decoder) :=
  match skipSpace d.rest with
  | [] => .error .eof
  | s@(_ :: _) =>
    match value maxNestingDepth s with
    | none => .error .malformed
    | some (doc, rest) =>
      match unmarshal doc with
      | none => .error .unmarshal
      | some a => .ok (a, { d with rest, state := d.state.valueEnd })

variable (d : Decoder)

def more : Bool :=
  match skipSpace d.rest with
  | [] => false
  | b :: _ => b != 0x5d && b != 0x7d

/-- `Token` goes past a colon or a comma where there is to be one. -/
def separated : Except Failure Decoder :=
  match skipSpace d.rest with
  | [] => .error .eof
  | b :: rest =>
    if b = 0x3a then
      if d.state = .objectColon then .ok { d with rest, state := .objectValue }
      else .error .malformed
    else if b = 0x2c then
      match d.state with
      | .arrayComma => .ok { d with rest, state := .arrayValue }
      | .objectComma => .ok { d with rest, state := .objectKey }
      | _ => .error .malformed
    else .ok d

def leave (token : Token) (rest : Text) : Except Failure (Token × Decoder) :=
  match d.stack with
  | [] => .error .malformed
  | state :: stack => .ok (token, { rest, state := state.valueEnd, stack })

def tokenAt : Except Failure (Token × Decoder) :=
  match skipSpace d.rest with
  | [] => .error .eof
  | b :: rest =>
    if b = 0x5b then
      if d.state.valueAllowed then
        .ok (.beginArray, { rest, state := .arrayStart, stack := d.state :: d.stack })
      else .error .malformed
    else if b = 0x5d then
      if d.state = .arrayStart ∨ d.state = .arrayComma then d.leave .endArray rest
      else .error .malformed
    else if b = 0x7b then
      if d.state.valueAllowed then
        .ok (.beginObject, { rest, state := .objectStart, stack := d.state :: d.stack })
      else .error .malformed
    else if b = 0x7d then
      if d.state = .objectStart ∨ d.state = .objectComma then d.leave .endObject rest
      else .error .malformed
    else if b = 0x22 ∧ (d.state = .objectStart ∨ d.state = .objectKey) then
      (d.decode stringOf).map fun r => (.string r.1, { r.2 with state := .objectColon })
    else if d.state.valueAllowed then d.decode tokenOf
    else .error .malformed
where
  stringOf : Doc → Option Key
    | .str body => some (unquote body)
    | _ => none
  /-- Decoding into a value of any type. -/
  tokenOf : Doc → Option Token
    | .str body => some (.string (unquote body))
    | _ => some .other

def token : Except Failure (Token × Decoder) := d.separated.bind tokenAt

section Decode

variable {α : Type} {unmarshal : Doc → Option α} {d d' : Decoder} {a : α}

lemma decode_eq_ok : d.decode unmarshal = .ok (a, d') ↔
    ∃ doc rest, value maxNestingDepth (skipSpace d.rest) = some (doc, rest) ∧
      unmarshal doc = some a ∧ d' = { d with rest, state := d.state.valueEnd } := by
  unfold decode
  split
  · next hs =>
    rw [hs]
    exact iff_of_false nofun fun ⟨_, _, h, _⟩ => nomatch h
  · next hs =>
    rw [hs]
    split
    · next hvalue =>
      rw [hvalue]
      exact iff_of_false nofun fun ⟨_, _, h, _⟩ => nomatch h
    · next doc rest hvalue =>
      rw [hvalue]
      split
      · next hnone =>
        refine iff_of_false nofun ?_
        rintro ⟨doc', rest', h, hsome, -⟩
        cases h
        exact absurd (hnone.symm.trans hsome) nofun
      · next a' hsome =>
        constructor
        · intro h
          cases h
          exact ⟨doc, rest, rfl, hsome, rfl⟩
        · rintro ⟨doc', rest', h, hsome', rfl⟩
          cases h
          cases hsome.symm.trans hsome'
          rfl

lemma decode_eq_eof : d.decode unmarshal = .error .eof ↔ skipSpace d.rest = [] := by
  unfold decode
  split
  · next hs => exact iff_of_true rfl hs
  · next hs =>
    refine iff_of_false ?_ (hs ▸ List.cons_ne_nil _ _)
    split
    · exact nofun
    · split
      · exact nofun
      · exact nofun

end Decode

/-! ### Tokens -/

section Tokens

variable {d d' : Decoder} {b : UInt8} {s rest : Text} {state : TokenState} {stack : List TokenState}

lemma more_eq (hs : skipSpace d.rest = b :: s) : d.more = (b != 0x5d && b != 0x7d) := by
  rw [more, hs]

lemma separated_colon (hs : skipSpace d.rest = 0x3a :: s) (hstate : d.state = .objectColon) :
    d.separated = .ok { d with rest := s, state := .objectValue } := by
  rw [separated, hs, hstate]
  rfl

lemma separated_comma (hs : skipSpace d.rest = 0x2c :: s) :
    (d.state = .arrayComma → d.separated = .ok { d with rest := s, state := .arrayValue }) ∧
      (d.state = .objectComma → d.separated = .ok { d with rest := s, state := .objectKey }) := by
  constructor <;>
    · intro hstate
      rw [separated, hs, hstate]
      rfl

lemma separated_eq (hs : skipSpace d.rest = b :: s) (hcolon : b ≠ 0x3a) (hcomma : b ≠ 0x2c) :
    d.separated = .ok d := by
  rw [separated, hs]
  dsimp only
  rw [if_neg hcolon, if_neg hcomma]

lemma token_eq (h : d.separated = .ok d') : d.token = d'.tokenAt := by
  rw [token, h]
  rfl

lemma token_eof (hs : skipSpace d.rest = []) : d.token = .error .eof := by
  rw [token, separated, hs]
  rfl

lemma tokenAt_beginArray (hs : skipSpace d.rest = 0x5b :: s)
    (hstate : d.state.valueAllowed = true) :
    d.tokenAt = .ok (.beginArray, ⟨s, .arrayStart, d.state :: d.stack⟩) := by
  rw [tokenAt, hs]
  exact if_pos hstate

lemma tokenAt_beginObject (hs : skipSpace d.rest = 0x7b :: s)
    (hstate : d.state.valueAllowed = true) :
    d.tokenAt = .ok (.beginObject, ⟨s, .objectStart, d.state :: d.stack⟩) := by
  rw [tokenAt, hs]
  exact if_pos hstate

lemma token_endArray (hs : skipSpace d.rest = 0x5d :: s)
    (hstate : d.state = .arrayStart ∨ d.state = .arrayComma) (hstack : d.stack = state :: stack) :
    d.token = .ok (.endArray, ⟨s, state.valueEnd, stack⟩) := by
  rw [token_eq (separated_eq hs (by decide) (by decide)), tokenAt, hs]
  calc _ = d.leave .endArray s := if_pos hstate
    _ = _ := by rw [leave, hstack]

lemma token_endObject (hs : skipSpace d.rest = 0x7d :: s)
    (hstate : d.state = .objectStart ∨ d.state = .objectComma) (hstack : d.stack = state :: stack) :
    d.token = .ok (.endObject, ⟨s, state.valueEnd, stack⟩) := by
  rw [token_eq (separated_eq hs (by decide) (by decide)), tokenAt, hs]
  calc _ = d.leave .endObject s := if_pos hstate
    _ = _ := by rw [leave, hstack]

lemma tokenAt_key {body : Text} (hs : skipSpace d.rest = 0x22 :: s)
    (hstate : d.state = .objectStart ∨ d.state = .objectKey)
    (hbody : scanString .plain s = some (body, rest)) :
    d.tokenAt = .ok (.string (unquote body), ⟨rest, .objectColon, d.stack⟩) := by
  have hscalar : scalar (skipSpace d.rest) = some (.str body, rest) := by
    rw [hs, scalar, hbody]
    rfl
  have hdecode : d.decode tokenAt.stringOf =
      .ok (unquote body, { d with rest, state := d.state.valueEnd }) :=
    decode_eq_ok.mpr ⟨_, _, value_of_scalar hscalar _, rfl, rfl⟩
  rw [tokenAt, hs]
  calc _ = (d.decode tokenAt.stringOf).map fun r =>
        (Token.string r.1, { r.2 with state := .objectColon }) := if_pos ⟨rfl, hstate⟩
    _ = _ := by
      rw [hdecode]
      rfl

lemma tokenAt_scalar {doc : Doc} (h : scalar (skipSpace d.rest) = some (doc, rest))
    (hstate : d.state.valueAllowed = true) :
    ∃ token, tokenAt.tokenOf doc = some token ∧
      d.tokenAt = .ok (token, ⟨rest, d.state.valueEnd, d.stack⟩) := by
  obtain ⟨b, t, hs, hb, harr, hobj⟩ := scalar_head h
  obtain ⟨token, htoken⟩ : ∃ token, tokenAt.tokenOf doc = some token := by
    cases doc <;> exact ⟨_, rfl⟩
  simp only [isDelimiter, Bool.or_eq_false_iff, beq_eq_false_iff_ne] at hb
  obtain ⟨⟨-, hendArray⟩, hendObject⟩ := hb
  have hkey : ¬ (b = 0x22 ∧ (d.state = .objectStart ∨ d.state = .objectKey)) := by
    rintro ⟨-, h | h⟩ <;>
      · rw [h] at hstate
        cases hstate
  refine ⟨token, htoken, ?_⟩
  rw [tokenAt, hs]
  dsimp only
  rw [if_neg harr, if_neg hendArray, if_neg hobj, if_neg hendObject, if_neg hkey, if_pos hstate]
  exact decode_eq_ok.mpr ⟨doc, rest, value_of_scalar h _, htoken, rfl⟩

end Tokens

end Decoder

end Lib.JSON
