import BypassCore.Lib.JSON.Text
import Mathlib.Data.Char
import Mathlib.Data.List.Lex

/-!
# Values of any type

Decoding into an `any` of Go, with numbers kept as they are written. An object becomes a map, which
is kept with its keys in order; a key that comes again overwrites the earlier one. Where no object
has a key twice, a map has the members of the object, in another order.
-/

namespace Lib.JSON

open List Doc

/-! ### Maps -/

section Maps

variable {α : Type} {k : Key} {a : α} {l : List (Key × α)}

def insertKey (k : Key) (a : α) : List (Key × α) → List (Key × α)
  | [] => [(k, a)]
  | m :: l =>
    if k = m.1 then (k, a) :: l
    else if k < m.1 then (k, a) :: m :: l
    else m :: insertKey k a l

def insertAll (members : List (Key × α)) : List (Key × α) :=
  members.foldl (fun l m => insertKey m.1 m.2 l) []

lemma insertKey_perm (hk : k ∉ l.map Prod.fst) : (insertKey k a l).Perm ((k, a) :: l) := by
  induction l with
  | nil => exact Perm.refl _
  | cons m l ih =>
    rw [map_cons, mem_cons, not_or] at hk
    rw [insertKey, if_neg hk.1]
    split_ifs
    · exact Perm.refl _
    · exact ((ih hk.2).cons m).trans (Perm.swap _ _ _)

variable {members : List (Key × α)}

lemma foldl_insertKey_perm (h : ((members ++ l).map Prod.fst).Nodup) :
    (members.foldl (fun l m => insertKey m.1 m.2 l) l).Perm (members ++ l) := by
  induction members generalizing l with
  | nil => exact Perm.refl _
  | cons m members ih =>
    rw [cons_append, map_cons, nodup_cons] at h
    have hm : m.1 ∉ l.map Prod.fst := by
      intro hm
      exact h.1 (by rw [map_append]; exact mem_append_right _ hm)
    have hperm := insertKey_perm (a := m.2) hm
    have hmid : (members ++ insertKey m.1 m.2 l).Perm (m :: (members ++ l)) :=
      (hperm.append_left members).trans perm_middle
    refine (ih ?_).trans hmid
    refine (hmid.map Prod.fst).nodup_iff.mpr ?_
    exact nodup_cons.mpr h

/-- Where no key comes twice, the map has the members. -/
lemma insertAll_perm (h : (members.map Prod.fst).Nodup) : (insertAll members).Perm members := by
  have hkeys : ((members ++ []).map Prod.fst).Nodup := by rwa [append_nil]
  have hperm := foldl_insertKey_perm hkeys
  rwa [append_nil] at hperm

lemma mem_insertKey {m : Key × α} (h : m ∈ insertKey k a l) : m = (k, a) ∨ m ∈ l := by
  induction l with
  | nil => exact .inl (mem_singleton.mp h)
  | cons m' l ih =>
    rw [insertKey] at h
    split_ifs at h
    · exact (mem_cons.mp h).imp_right (mem_cons_of_mem _)
    · exact mem_cons.mp h
    · rcases mem_cons.mp h with rfl | h
      · exact .inr mem_cons_self
      · exact (ih h).imp_right (mem_cons_of_mem _)

def Sorted (l : List (Key × α)) : Prop := l.Pairwise fun m m' => m.1 < m'.1

lemma Sorted.insertKey (h : Sorted l) : Sorted (insertKey k a l) := by
  induction l with
  | nil => exact pairwise_singleton _ _
  | cons m l ih =>
    obtain ⟨hm, hl⟩ := pairwise_cons.mp h
    rw [JSON.insertKey]
    split_ifs with heq hlt
    · refine pairwise_cons.mpr ⟨?_, hl⟩
      intro m' hm'
      exact heq.trans_lt (hm m' hm')
    · refine pairwise_cons.mpr ⟨forall_mem_cons.mpr ⟨hlt, ?_⟩, h⟩
      exact fun m' hm' => lt_trans hlt (hm m' hm')
    · refine pairwise_cons.mpr ⟨?_, ih hl⟩
      intro m' hm'
      rcases mem_insertKey hm' with rfl | hm'
      · exact (lt_trichotomy m.1 k).resolve_right (not_or.mpr ⟨Ne.symm heq, hlt⟩)
      · exact hm m' hm'

lemma sorted_insertAll (members : List (Key × α)) : Sorted (insertAll members) := by
  have hfold : ∀ l : List (Key × α), Sorted l →
      Sorted (members.foldl (fun l m => JSON.insertKey m.1 m.2 l) l) := by
    induction members with
    | nil => exact fun l hl => hl
    | cons m members ih => exact fun l hl => ih _ hl.insertKey
  exact hfold [] List.Pairwise.nil

lemma insertAll_eq_of_perm {members' : List (Key × α)}
    (h : (members.map Prod.fst).Nodup) (hperm : members.Perm members') :
    insertAll members = insertAll members' := by
  have h' : (members'.map Prod.fst).Nodup := (hperm.map Prod.fst).nodup_iff.mp h
  have hall : (insertAll members).Perm (insertAll members') :=
    (insertAll_perm h).trans (hperm.trans (insertAll_perm h').symm)
  refine hall.eq_of_pairwise ?_ (sorted_insertAll members) (sorted_insertAll members')
  intro m m' _ _ hlt hgt
  exact absurd hgt (lt_asymm hlt)

end Maps

inductive Generic (ν : Type) where
  | null
  | bool (b : Bool)
  | num (n : ν)
  | str (s : Key)
  | arr (items : List (Generic ν))
  | obj (members : List (Key × Generic ν))

section Convert

variable {ν μ : Type} (number : ν → Option μ)

mutual

def Generic.convert : Generic ν → Option (Generic μ)
  | .null => some .null
  | .bool b => some (.bool b)
  | .num n => (number n).map .num
  | .str s => some (.str s)
  | .arr items => (convertItems items).map .arr
  | .obj members => (convertMembers members).map .obj

def convertItems : List (Generic ν) → Option (List (Generic μ))
  | [] => some []
  | g :: items => g.convert.bind fun g' => (convertItems items).map (g' :: ·)

def convertMembers : List (Key × Generic ν) → Option (List (Key × Generic μ))
  | [] => some []
  | m :: members => (convertMember m).bind fun m' => (convertMembers members).map (m' :: ·)

def convertMember : Key × Generic ν → Option (Key × Generic μ)
  | (k, g) => g.convert.map fun g' => (k, g')

end

end Convert

mutual

def Doc.generic : Doc → Generic Number
  | .null => .null
  | .bool b => .bool b
  | .num n => .num n
  | .str body => .str (unquote body)
  | .arr _ items => .arr (genericItems items)
  | .obj _ members => .obj (insertAll (genericMembers members))

def genericItems : List Doc → List (Generic Number)
  | [] => []
  | d :: ds => d.generic :: genericItems ds

def genericMembers : List (Key × Doc) → List (Key × Generic Number)
  | [] => []
  | m :: ms => genericMember m :: genericMembers ms

def genericMember : Key × Doc → Key × Generic Number
  | (k, d) => (k, d.generic)

end

mutual

/-- Every number of a document passes a test. -/
def Doc.allNumbers (p : Number → Bool) : Doc → Bool
  | .num n => p n
  | .arr _ items => allItems p items
  | .obj _ members => allMembers p members
  | _ => true

def allItems (p : Number → Bool) : List Doc → Bool
  | [] => true
  | d :: ds => d.allNumbers p && allItems p ds

def allMembers (p : Number → Bool) : List (Key × Doc) → Bool
  | [] => true
  | m :: ms => allMember p m && allMembers p ms

def allMember (p : Number → Bool) : Key × Doc → Bool
  | (_, d) => d.allNumbers p

end

lemma genericItems_eq (ds : List Doc) : genericItems ds = ds.map generic := by
  induction ds with
  | nil => rfl
  | cons d ds ih => rw [genericItems, ih, map_cons]

lemma genericMembers_eq (ms : List (Key × Doc)) :
    genericMembers ms = ms.map fun m => (m.1, m.2.generic) := by
  induction ms with
  | nil => rfl
  | cons m ms ih =>
    rw [genericMembers, ih, map_cons, genericMember]

@[simp] lemma generic_arr (inner : Text) (items : List Doc) :
    (arr inner items).generic = .arr (items.map generic) := by
  rw [generic, genericItems_eq]

@[simp] lemma generic_obj (inner : Text) (members : List (Key × Doc)) :
    (obj inner members).generic = .obj (insertAll (members.map fun m => (m.1, m.2.generic))) := by
  rw [generic, genericMembers_eq]

variable {d : Doc}

lemma generic_eq_null (h : d.generic = .null) : d = .null := by
  cases d with
  | null => rfl
  | _ => cases h

lemma generic_eq_bool {b : Bool} (h : d.generic = .bool b) : d = .bool b := by
  cases d with
  | bool b' => rw [Generic.bool.inj h]
  | _ => cases h

lemma generic_eq_num {n : Number} (h : d.generic = .num n) : d = .num n := by
  cases d with
  | num n' => rw [Generic.num.inj h]
  | _ => cases h

lemma generic_eq_str {k : Key} (h : d.generic = .str k) :
    ∃ body, d = .str body ∧ unquote body = k := by
  cases d with
  | str body => exact ⟨body, rfl, Generic.str.inj h⟩
  | _ => cases h

lemma generic_eq_arr {items : List (Generic Number)} (h : d.generic = .arr items) :
    ∃ inner items', d = .arr inner items' ∧ items'.map generic = items := by
  cases d with
  | arr inner items' =>
    rw [generic_arr, Generic.arr.injEq] at h
    exact ⟨inner, items', rfl, h⟩
  | _ => cases h

lemma generic_eq_obj {members : List (Key × Generic Number)}
    (h : d.generic = .obj members) : ∃ inner members', d = .obj inner members' := by
  cases d with
  | obj inner members' => exact ⟨inner, members', rfl⟩
  | _ => cases h

inductive Doc.Distinct : Doc → Prop where
  | null : Distinct .null
  | bool (b : Bool) : Distinct (.bool b)
  | num (n : Number) : Distinct (.num n)
  | str (body : Text) : Distinct (.str body)
  | arr {inner : Text} {items : List Doc} (h : ∀ d ∈ items, Distinct d) :
      Distinct (.arr inner items)
  | obj {inner : Text} {members : List (Key × Doc)} (hkeys : (members.map Prod.fst).Nodup)
      (h : ∀ m ∈ members, Distinct m.2) : Distinct (.obj inner members)

lemma distinct_arr {inner : Text} {items : List Doc} :
    (arr inner items).Distinct ↔ ∀ d ∈ items, d.Distinct := by
  refine ⟨?_, .arr⟩
  rintro ⟨⟩
  assumption

lemma distinct_obj {inner : Text} {members : List (Key × Doc)} :
    (obj inner members).Distinct ↔ (members.map Prod.fst).Nodup ∧ ∀ m ∈ members, m.2.Distinct := by
  refine ⟨?_, fun h => .obj h.1 h.2⟩
  rintro ⟨⟩
  exact ⟨by assumption, by assumption⟩

/-- Two objects with the same value have the same members. -/
lemma members_perm {inner inner' : Text} {members members' : List (Key × Doc)}
    (h : (obj inner members).Distinct) (h' : (obj inner' members').Distinct)
    (heq : (obj inner members).generic = (obj inner' members').generic) :
    (members.map fun m => (m.1, m.2.generic)).Perm (members'.map fun m => (m.1, m.2.generic)) := by
  have hkeys : ∀ ms : List (Key × Doc),
      (ms.map fun m => (m.1, m.2.generic)).map Prod.fst = ms.map Prod.fst := by
    intro ms
    rw [map_map]
    rfl
  rw [generic_obj, generic_obj, Generic.obj.injEq] at heq
  have hperm := insertAll_perm ((hkeys members).symm ▸ (distinct_obj.mp h).1)
  have hperm' := insertAll_perm ((hkeys members').symm ▸ (distinct_obj.mp h').1)
  rw [heq] at hperm
  exact hperm.symm.trans hperm'

/-- What holds of a value if it holds of its parts holds of all values. -/
theorem Generic.induction {ν : Type} {P : Generic ν → Prop} (null : P .null)
    (bool : ∀ b, P (.bool b)) (num : ∀ n, P (.num n)) (str : ∀ s, P (.str s))
    (arr : ∀ items, (∀ g ∈ items, P g) → P (.arr items))
    (obj : ∀ members : List (Key × Generic ν), (∀ m ∈ members, P m.2) → P (.obj members))
    (g : Generic ν) : P g :=
  @Generic.rec ν P (fun items => ∀ g ∈ items, P g) (fun members => ∀ m ∈ members, P m.2)
    (fun m => P m.2) null bool num str arr obj
    (forall_mem_nil _) (fun _ _ hg hitems => forall_mem_cons.mpr ⟨hg, hitems⟩)
    (forall_mem_nil _) (fun _ _ hm hmembers => forall_mem_cons.mpr ⟨hm, hmembers⟩)
    (fun _ _ hg => hg) g

/-!
## Encoding

`Marshal` of a value of any type, with the characters that HTML gives a meaning escaped. The text
determines the value: a character can be read back from its escape, a string ends at its quote, a
number at a byte that belongs to none, and no value starts like what may come after one.
-/

/-! ### Strings -/

def hexDigit (n : ℕ) : Char := if n < 10 then Char.ofNat (0x30 + n) else Char.ofNat (0x57 + n)

variable (c : Char)

def escape : List Char :=
  if c = '"' ∨ c = '\\' then ['\\', c]
  else if c = '\x08' then ['\\', 'b']
  else if c = '\x0c' then ['\\', 'f']
  else if c = '\n' then ['\\', 'n']
  else if c = '\r' then ['\\', 'r']
  else if c = '\t' then ['\\', 't']
  else if c.toNat < 0x20 ∨ c = '<' ∨ c = '>' ∨ c = '&' then
    ['\\', 'u', '0', '0', hexDigit (c.toNat / 16), hexDigit (c.toNat % 16)]
  else if c.toNat = 0x2028 ∨ c.toNat = 0x2029 then
    ['\\', 'u', '2', '0', '2', hexDigit (c.toNat % 16)]
  else [c]

def marshalString (s : Key) : List Char := '"' :: (s.flatMap escape ++ ['"'])

def hexVal : ℕ := if c.toNat < 0x3a then c.toNat - 0x30 else c.toNat - 0x57

/-- The character that an escape was made of, from what comes after the backslash. -/
def unescapeTail : List Char → Option (Char × List Char)
  | [] => none
  | x :: s =>
    if x = 'u' then
      match s with
      | a :: b :: c :: d :: s =>
        some (Char.ofNat (((hexVal a * 16 + hexVal b) * 16 + hexVal c) * 16 + hexVal d), s)
      | _ => none
    else if x = 'b' then some ('\x08', s)
    else if x = 'f' then some ('\x0c', s)
    else if x = 'n' then some ('\n', s)
    else if x = 'r' then some ('\r', s)
    else if x = 't' then some ('\t', s)
    else some (x, s)

def unescape : List Char → Option (Char × List Char)
  | [] => none
  | c :: s => if c = '\\' then unescapeTail s else some (c, s)

lemma hexVal_hexDigit : ∀ n < 16, hexVal (hexDigit n) = n := by decide

/-- The two digits of the low byte, after two for the high one. -/
lemma unescape_hex {c a b : Char} (s : List Char) (hc : c.toNat / 256 = hexVal a * 16 + hexVal b) :
    unescape
        ('\\' :: 'u' :: a :: b :: hexDigit (c.toNat / 16 % 16) :: hexDigit (c.toNat % 16) :: s) =
      some (c, s) := by
  have hval : ((hexVal a * 16 + hexVal b) * 16 + c.toNat / 16 % 16) * 16 + c.toNat % 16 =
      c.toNat := by omega
  simp only [unescape, unescapeTail, if_true]
  rw [hexVal_hexDigit _ (Nat.mod_lt _ (by decide)), hexVal_hexDigit _ (Nat.mod_lt _ (by decide)),
    hval, Char.ofNat_toNat]

lemma unescape_escape (s : List Char) : unescape (escape c ++ s) = some (c, s) := by
  unfold escape
  split_ifs with hquote h8 hc hn hr ht hhex hsep
  · rcases hquote with rfl | rfl <;> rfl
  · rw [h8]
    rfl
  · rw [hc]
    rfl
  · rw [hn]
    rfl
  · rw [hr]
    rfl
  · rw [ht]
    rfl
  · have hlt : c.toNat < 256 := by
      rcases hhex with h | rfl | rfl | rfl
      · omega
      all_goals decide
    have hdiv : c.toNat / 16 = c.toNat / 16 % 16 := by omega
    rw [hdiv]
    exact unescape_hex s (Nat.div_eq_of_lt hlt)
  · have hdiv : '2' = hexDigit (c.toNat / 16 % 16) := by
      rcases hsep with h | h <;> rw [h] <;> rfl
    rw [hdiv]
    refine unescape_hex s ?_
    rcases hsep with h | h <;> rw [h] <;> rfl
  · rw [singleton_append, unescape, if_neg (fun h => hquote (.inr h))]

lemma escape_ne_quote (s t : List Char) : escape c ++ s ≠ '"' :: t := by
  intro h
  have hread := unescape_escape c s
  rw [h, unescape] at hread
  cases hread
  cases h

variable {r r' : List Char}

/-- A string ends at its quote. -/
lemma escapes_inj {s s' : Key}
    (h : s.flatMap escape ++ '"' :: r = s'.flatMap escape ++ '"' :: r') : s = s' ∧ r = r' := by
  induction s generalizing s' with
  | nil =>
    cases s' with
    | nil => exact ⟨rfl, tail_eq_of_cons_eq h⟩
    | cons c' s' =>
      rw [flatMap_cons, append_assoc] at h
      exact absurd h.symm (escape_ne_quote _ _ _)
  | cons c s ih =>
    cases s' with
    | nil =>
      rw [flatMap_cons, append_assoc] at h
      exact absurd h (escape_ne_quote _ _ _)
    | cons c' s' =>
      rw [flatMap_cons, flatMap_cons, append_assoc, append_assoc] at h
      have hread := unescape_escape c (s.flatMap escape ++ '"' :: r)
      rw [h, unescape_escape, Option.some.injEq, Prod.mk.injEq] at hread
      obtain ⟨hs, hr⟩ := ih hread.2.symm
      exact ⟨by rw [hread.1, hs], hr⟩

lemma marshalString_inj {s s' : Key}
    (h : marshalString s ++ r = marshalString s' ++ r') : s = s' ∧ r = r' := by
  rw [marshalString, marshalString, cons_append, cons_append, append_assoc, append_assoc] at h
  exact escapes_inj (tail_eq_of_cons_eq h)

/-- The text of a number, which is ASCII. -/
def Number.text (n : Number) : List Char := n.lit.map fun b => Char.ofNat b.toNat

def isNumberChar : Bool := isNumberByte (UInt8.ofNat c.toNat)

lemma ofNat_toNat_ofNat (b : UInt8) : UInt8.ofNat (Char.ofNat b.toNat).toNat = b := by
  have hvalid : b.toNat.isValidChar := .inl (Nat.lt_trans b.toNat_lt (by decide))
  rw [Char.ofNat, dif_pos hvalid]
  exact UInt8.ofNat_toNat

lemma Number.isNumberChar_of_mem (n : Number) : ∀ c ∈ n.text, isNumberChar c = true := by
  intro c hc
  obtain ⟨b, hb, rfl⟩ := mem_map.mp hc
  rw [isNumberChar, ofNat_toNat_ofNat]
  exact n.bytes b hb

def Ends (r : List Char) : Prop := ∀ c ∈ r.head?, c = ',' ∨ c = ']' ∨ c = '\x7d'

lemma Ends.takeWhile (h : Ends r) : r.takeWhile isNumberChar = [] := by
  cases r with
  | nil => rfl
  | cons c r =>
    have hc : isNumberChar c = false := by
      rcases h c rfl with rfl | rfl | rfl <;> rfl
    rw [takeWhile_cons, hc]
    rfl

/-- A number ends at the first byte that belongs to none. -/
lemma Number.text_inj {n n' : Number} (hr : Ends r) (hr' : Ends r')
    (h : n.text ++ r = n'.text ++ r') : n = n' ∧ r = r' := by
  have htake : n.text = n'.text := by
    have htext := congrArg (List.takeWhile isNumberChar) h
    rwa [takeWhile_append_of_pos n.isNumberChar_of_mem,
      takeWhile_append_of_pos n'.isNumberChar_of_mem, hr.takeWhile, hr'.takeWhile,
      append_nil, append_nil] at htext
  have hinj : Function.Injective fun b : UInt8 => Char.ofNat b.toNat :=
    Function.LeftInverse.injective (g := fun c : Char => UInt8.ofNat c.toNat) ofNat_toNat_ofNat
  have hlit : n.lit = n'.lit := map_injective_iff.mpr hinj htake
  rw [htake] at h
  refine ⟨?_, append_cancel_left h⟩
  cases n
  cases n'
  cases hlit
  rfl

def commas : List (List Char) → List Char
  | [] => []
  | t :: ts => t ++ ts.flatMap (',' :: ·)

mutual

def Generic.marshal : Generic Number → List Char
  | .null => ['n', 'u', 'l', 'l']
  | .bool true => ['t', 'r', 'u', 'e']
  | .bool false => ['f', 'a', 'l', 's', 'e']
  | .num n => n.text
  | .str s => marshalString s
  | .arr items => '[' :: (commas (marshalItems items) ++ [']'])
  | .obj members => '\x7b' :: (commas (marshalMembers members) ++ ['\x7d'])

def marshalItems : List (Generic Number) → List (List Char)
  | [] => []
  | g :: items => g.marshal :: marshalItems items

def marshalMembers : List (Key × Generic Number) → List (List Char)
  | [] => []
  | m :: members => marshalMember m :: marshalMembers members

def marshalMember : Key × Generic Number → List Char
  | (k, g) => marshalString k ++ ':' :: g.marshal

end

lemma marshalItems_eq (items : List (Generic Number)) :
    marshalItems items = items.map Generic.marshal := by
  induction items with
  | nil => rfl
  | cons g items ih => rw [marshalItems, ih, map_cons]

lemma marshalMembers_eq (members : List (Key × Generic Number)) :
    marshalMembers members = members.map marshalMember := by
  induction members with
  | nil => rfl
  | cons m members ih => rw [marshalMembers, ih, map_cons]

/-! ### The text determines the value -/

def kindOf : ℕ :=
  if c = 'n' then 0
  else if c = 't' then 1
  else if c = 'f' then 2
  else if c = '"' then 3
  else if c = '[' then 4
  else if c = '\x7b' then 5
  else if isNumberChar c then 6
  else 7

def Generic.kind : Generic Number → ℕ
  | .null => 0
  | .bool true => 1
  | .bool false => 2
  | .str _ => 3
  | .arr _ => 4
  | .obj _ => 5
  | .num _ => 6

lemma kindOf_of_isNumberChar {c : Char} (h : isNumberChar c = true) : kindOf c = 6 := by
  have hne : ∀ x : Char, isNumberChar x = false → c ≠ x := by
    rintro x hx rfl
    exact absurd (h.symm.trans hx) nofun
  rw [kindOf, if_neg (hne 'n' rfl), if_neg (hne 't' rfl), if_neg (hne 'f' rfl),
    if_neg (hne '"' rfl), if_neg (hne '[' rfl), if_neg (hne '\x7b' rfl), if_pos h]

variable (g : Generic Number)

lemma marshal_head : ∃ c t, g.marshal = c :: t ∧ kindOf c = g.kind := by
  cases g with
  | null => exact ⟨_, _, rfl, rfl⟩
  | bool b => cases b <;> exact ⟨_, _, rfl, rfl⟩
  | num n =>
    obtain ⟨b, lit, hlit⟩ := exists_cons_of_ne_nil n.nonempty
    refine ⟨Char.ofNat b.toNat, lit.map fun b => Char.ofNat b.toNat, ?_, ?_⟩
    · rw [Generic.marshal, Number.text, hlit, map_cons]
    · refine kindOf_of_isNumberChar (n.isNumberChar_of_mem _ ?_)
      rw [Number.text, hlit]
      exact mem_cons_self
  | str s => exact ⟨_, _, rfl, rfl⟩
  | arr items => exact ⟨_, _, rfl, rfl⟩
  | obj members => exact ⟨_, _, rfl, rfl⟩

def Decodes {α : Type} (enc : α → List Char) (a : α) : Prop :=
  ∀ a' r r', Ends r → Ends r' → enc a ++ r = enc a' ++ r' → a = a' ∧ r = r'

section Lists

variable {α : Type} {enc : α → List Char} {close : Char} {r r' : List Char}

lemma ends_cons (hclose : close = ']' ∨ close = '\x7d') (r : List Char) : Ends (close :: r) := by
  intro c hc
  cases hc
  exact .inr hclose

lemma ends_tail (hclose : close = ']' ∨ close = '\x7d') (ts : List (List Char)) (r : List Char) :
    Ends (ts.flatMap (',' :: ·) ++ close :: r) := by
  cases ts with
  | nil => exact ends_cons hclose r
  | cons t ts =>
    intro c hc
    cases hc
    exact .inl rfl

lemma tail_inj (hclose : close = ']' ∨ close = '\x7d') {l l' : List α} (h : ∀ a ∈ l, Decodes enc a)
    (heq : (l.map enc).flatMap (',' :: ·) ++ close :: r =
      (l'.map enc).flatMap (',' :: ·) ++ close :: r') : l = l' ∧ r = r' := by
  have hcomma : close ≠ ',' := by
    rcases hclose with rfl | rfl <;> decide
  induction l generalizing l' with
  | nil =>
    cases l' with
    | nil => exact ⟨rfl, List.tail_eq_of_cons_eq heq⟩
    | cons a' l' => exact absurd (List.head_eq_of_cons_eq heq) hcomma
  | cons a l ih =>
    cases l' with
    | nil => exact absurd (List.head_eq_of_cons_eq heq).symm hcomma
    | cons a' l' =>
      obtain ⟨ha, hl⟩ := List.forall_mem_cons.mp h
      simp only [List.map_cons, List.flatMap_cons, List.cons_append, List.append_assoc,
        List.cons.injEq, true_and] at heq
      obtain ⟨rfl, htail⟩ := ha _ _ _ (ends_tail hclose _ _) (ends_tail hclose _ _) heq
      exact (ih hl htail).imp_left (congrArg _)

lemma commas_ne (hclose : close = ']' ∨ close = '\x7d') (hstart : ∀ a t, ¬ Ends (enc a ++ t))
    (a : α) (l : List α) : commas ((a :: l).map enc) ++ close :: r ≠ close :: r' := by
  intro heq
  rw [map_cons, commas, append_assoc] at heq
  exact hstart a _ (heq ▸ ends_cons hclose r')

lemma commas_inj (hclose : close = ']' ∨ close = '\x7d')
    (hstart : ∀ a t, ¬ Ends (enc a ++ t)) {l l' : List α} (h : ∀ a ∈ l, Decodes enc a)
    (heq : commas (l.map enc) ++ close :: r = commas (l'.map enc) ++ close :: r') :
    l = l' ∧ r = r' := by
  cases l with
  | nil =>
    cases l' with
    | nil => exact ⟨rfl, List.tail_eq_of_cons_eq heq⟩
    | cons a' l' => exact absurd heq.symm (commas_ne hclose hstart _ _)
  | cons a l =>
    cases l' with
    | nil => exact absurd heq (commas_ne hclose hstart _ _)
    | cons a' l' =>
      -- With a comma in front, these are tails of longer lists.
      exact tail_inj hclose h (congrArg (',' :: ·) heq)

end Lists

lemma not_ends_marshal (t : List Char) : ¬ Ends (g.marshal ++ t) := by
  obtain ⟨c, s, hg, hkind⟩ := marshal_head g
  intro h
  rw [hg] at h
  have hseven : kindOf c = 7 := by
    rcases h c rfl with rfl | rfl | rfl <;> rfl
  rw [hseven] at hkind
  cases g with
  | bool b => cases b <;> exact absurd hkind nofun
  | _ => exact absurd hkind nofun

lemma not_ends_marshalMember (m : Key × Generic Number) (t : List Char) :
    ¬ Ends (marshalMember m ++ t) := by
  obtain ⟨k, g⟩ := m
  intro h
  rcases h '"' rfl with h | h | h <;> exact absurd h (by decide)

lemma decodes_member {m : Key × Generic Number} (h : Decodes Generic.marshal m.2) :
    Decodes marshalMember m := by
  obtain ⟨k, g⟩ := m
  rintro ⟨k', g'⟩ r r' hr hr' heq
  simp only [marshalMember, append_assoc] at heq
  obtain ⟨rfl, hvalue⟩ := marshalString_inj heq
  obtain ⟨rfl, rfl⟩ := h g' r r' hr hr' (tail_eq_of_cons_eq hvalue)
  exact ⟨rfl, rfl⟩

/-- Values with the same text in front of what comes after them are of one kind. -/
lemma kind_eq {g g' : Generic Number} (h : g.marshal ++ r = g'.marshal ++ r') :
    g.kind = g'.kind := by
  obtain ⟨c, t, hg, hc⟩ := marshal_head g
  obtain ⟨c', t', hg', hc'⟩ := marshal_head g'
  rw [hg, hg'] at h
  rw [← hc, ← hc', head_eq_of_cons_eq h]

lemma decodes_marshal : Decodes Generic.marshal g := by
  -- The first character tells what the other value is.
  induction g using Generic.induction with
  | null =>
    intro g' r r' _ _ h
    cases g' with
    | null => exact ⟨rfl, append_cancel_left h⟩
    | bool b => cases b <;> exact absurd (kind_eq h) nofun
    | _ => exact absurd (kind_eq h) nofun
  | bool b =>
    intro g' r r' _ _ h
    cases g' with
    | bool b' =>
      cases b <;> cases b'
      · exact ⟨rfl, append_cancel_left h⟩
      · exact absurd (kind_eq h) nofun
      · exact absurd (kind_eq h) nofun
      · exact ⟨rfl, append_cancel_left h⟩
    | _ => cases b <;> exact absurd (kind_eq h) nofun
  | num n =>
    intro g' r r' hr hr' h
    cases g' with
    | num n' =>
      exact (Number.text_inj hr hr' h).imp_left (congrArg _)
    | bool b => cases b <;> exact absurd (kind_eq h) nofun
    | _ => exact absurd (kind_eq h) nofun
  | str s =>
    intro g' r r' _ _ h
    cases g' with
    | str s' =>
      exact (marshalString_inj h).imp_left (congrArg _)
    | bool b => cases b <;> exact absurd (kind_eq h) nofun
    | _ => exact absurd (kind_eq h) nofun
  | arr items ih =>
    intro g' r r' _ _ h
    cases g' with
    | arr items' =>
      simp only [Generic.marshal, marshalItems_eq, cons_append, append_assoc, List.cons.injEq,
        true_and] at h
      exact (commas_inj (.inl rfl) not_ends_marshal ih h).imp_left (congrArg _)
    | bool b => cases b <;> exact absurd (kind_eq h) nofun
    | _ => exact absurd (kind_eq h) nofun
  | obj members ih =>
    intro g' r r' _ _ h
    cases g' with
    | obj members' =>
      simp only [Generic.marshal, marshalMembers_eq, cons_append, append_assoc, List.cons.injEq,
        true_and] at h
      have hmembers : ∀ m ∈ members, Decodes marshalMember m := fun m hm => decodes_member (ih m hm)
      exact (commas_inj (.inr rfl) not_ends_marshalMember hmembers h).imp_left (congrArg _)
    | bool b => cases b <;> exact absurd (kind_eq h) nofun
    | _ => exact absurd (kind_eq h) nofun

/-- Two values with the same encoding are the same. -/
theorem marshal_injective : Function.Injective Generic.marshal := by
  intro g g' h
  have hends : Ends [] := fun c hc => absurd hc nofun
  exact (decodes_marshal g g' [] [] hends hends (by rw [h])).1

end Lib.JSON
