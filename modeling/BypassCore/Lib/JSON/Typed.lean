import BypassCore.Lib.JSON.Generic

/-!
# Decoding into Go types

A type is a schema; decoding goes through the document and the schema together, into the value that
is there, with unknown fields refused. A key sets the field of that name or, if there is none, the
first one whose name is the same but for case.

Two documents with the same value may differ in the order of their members. What is decoded from
them is the same if no object sets a field twice, and what is kept as raw text was written the same.
-/

namespace Lib.JSON

open List Option

inductive Value (L : Type) where
  /-- A nil pointer, slice or map. -/
  | nil
  | leaf (a : L)
  | raw (text : Text)
  | ptr (v : Value L)
  | slice (items : List (Value L))
  | map (entries : List (Key × Value L))
  | struct (fields : List (Value L))

/-- A type that is decoded in one go, into the value that is there. What is read depends on the
value in the document, however it is written. -/
structure Leaf (L : Type) where
  zero : L
  read : L → Doc → Option L
  read_eq : ∀ {d d' : Doc} {a a' : L}, d.generic = d'.generic → read zero d = some a →
    read zero d' = some a' → a = a'

def Leaf.ofGeneric {L : Type} (zero : L) (read : L → Generic Number → Option L) : Leaf L where
  zero := zero
  read := fun a d => read a d.generic
  read_eq := by
    intro d d' a a' h ha ha'
    rw [h] at ha
    exact Option.some.inj (ha.symm.trans ha')

/-- A type that also refuses documents for what their value does not have: members that later ones
overwrite are decoded too. -/
def Leaf.guard {L : Type} (accepts : Doc → Bool) (l : Leaf L) : Leaf L where
  zero := l.zero
  read := fun a d => if accepts d then l.read a d else none
  read_eq := by
    intro d d' a a' h ha ha'
    exact l.read_eq h (ite_none_right_eq_some.mp ha).2 (ite_none_right_eq_some.mp ha').2

mutual

inductive Schema (L : Type) where
  | leaf (l : Leaf L)
  | raw
  | ptr (T : Schema L)
  | slice (T : Schema L)
  | map (T : Schema L)
  | struct (fields : Fields L)
  /-- A type that also accepts a string. -/
  | orString (read : Value L → Key → Value L) (T : Schema L)

inductive Fields (L : Type) where
  | nil
  | cons (name : Key) (T : Schema L) (rest : Fields L)

end

variable {L : Type}

def Fields.names : Fields L → List Key
  | .nil => []
  | .cons name _ rest => name :: rest.names

def Fields.types : Fields L → List (Schema L)
  | .nil => []
  | .cons _ T rest => T :: rest.types

/-- What holds of a type if it holds of its parts holds of all types. -/
theorem Schema.induction {P : Schema L → Prop} (leaf : ∀ l, P (.leaf l)) (raw : P .raw)
    (ptr : ∀ T, P T → P (.ptr T)) (slice : ∀ T, P T → P (.slice T))
    (map : ∀ T, P T → P (.map T)) (struct : ∀ fs : Fields L, (∀ T ∈ fs.types, P T) → P (.struct fs))
    (orString : ∀ read T, P T → P (.orString read T)) (T : Schema L) : P T :=
  @Schema.rec L P (fun fs => ∀ T ∈ fs.types, P T) leaf raw ptr slice map struct orString
    (forall_mem_nil _) (fun _ _ _ hT hrest => forall_mem_cons.mpr ⟨hT, hrest⟩) T

/-- `foldRune`, on the characters that fold to one of ASCII: beside the letters these are the Kelvin
sign and the long s. -/
def foldRune (c : Char) : Char :=
  if c.toNat = 0x212a then 'K' else if c.toNat = 0x17f then 'S' else c.toUpper

def foldName (name : Key) : Key := name.map foldRune

def findField (names : List Key) (key : Key) : Option ℕ :=
  (names.findIdx? (· == key)).or (names.findIdx? fun name => foldName name == foldName key)

def readAll {α β : Type} (read : α → Option β) : List α → Option (List β)
  | [] => some []
  | a :: l => (read a).bind fun b => (readAll read l).map (b :: ·)

/-- Decode the members of an object one after another into the fields that they set. -/
def decodeMembers (names : List Key) (decoders : List (Value L → Doc → Option (Value L))) :
    List (Key × Doc) → List (Value L) → Option (List (Value L))
  | [], fields => some fields
  | m :: members, fields =>
    (findField names m.1).bind fun i =>
      (decoders[i]?).bind fun decode =>
        (fields[i]?).bind fun current =>
          (decode current m.2).bind fun v =>
            decodeMembers names decoders members (fields.set i v)

mutual

def Schema.zero : Schema L → Value L
  | .leaf l => .leaf l.zero
  | .raw | .ptr _ | .slice _ | .map _ => .nil
  | .struct fs => .struct fs.zeros
  | .orString _ T => T.zero

def Fields.zeros : Fields L → List (Value L)
  | .nil => []
  | .cons _ T rest => T.zero :: rest.zeros

end

mutual

def Schema.decode : Schema L → Value L → Doc → Option (Value L)
  | .leaf l, current, d =>
    match current with
    | .leaf a => (l.read a d).map .leaf
    | _ => none
  | .raw, _, d => some (.raw d.raw)
  | .ptr T, current, d =>
    match d with
    | .null => some .nil
    | d =>
      match current with
      | .ptr v => (T.decode v d).map .ptr
      | _ => (T.decode T.zero d).map .ptr
  | .slice T, _, d =>
    match d with
    | .null => some .nil
    | .arr _ items => (readAll (T.decode T.zero) items).map .slice
    | _ => none
  | .map T, current, d =>
    match d with
    | .null => some .nil
    | .obj _ members =>
      (readAll (fun m => (T.decode T.zero m.2).map fun v => (m.1, v)) members).map fun entries =>
        match current with
        | .map old => .map (entries.foldl (fun l m => insertKey m.1 m.2 l) old)
        | _ => .map (insertAll entries)
    | _ => none
  | .struct fs, current, d =>
    match d with
    | .null => some current
    | .obj _ members =>
      match current with
      | .struct fields => (decodeMembers fs.names fs.decoders members fields).map .struct
      | _ => none
    | _ => none
  | .orString read T, current, d =>
    match d with
    | .str body => some (read current (unquote body))
    | .null => some (read current [])
    | d => T.decode T.zero d

def Fields.decoders : Fields L → List (Value L → Doc → Option (Value L))
  | .nil => []
  | .cons _ T rest => T.decode :: rest.decoders

end

mutual

/-- No object of the document has two members that set one field. -/
def Schema.SetsOnce : Schema L → Doc → Prop
  | .leaf _, _ | .raw, _ => True
  | .ptr T, d => T.SetsOnce d
  | .slice T, d =>
    match d with
    | .arr _ items => ∀ item ∈ items, T.SetsOnce item
    | _ => True
  | .map T, d =>
    match d with
    | .obj _ members => ∀ m ∈ members, T.SetsOnce m.2
    | _ => True
  | .struct fs, d =>
    match d with
    | .obj _ members =>
      (members.Pairwise fun m m' => findField fs.names m.1 ≠ findField fs.names m'.1) ∧
        ∀ m ∈ members, ∀ i ∈ findField fs.names m.1, ∀ P ∈ fs.setsOnce[i]?, P m.2
    | _ => True
  | .orString _ T, d => T.SetsOnce d

def Fields.setsOnce : Fields L → List (Doc → Prop)
  | .nil => []
  | .cons _ T rest => T.SetsOnce :: rest.setsOnce

end

mutual

/-- What is kept as raw text was written the same in two documents. -/
def Schema.SameRaw : Schema L → Doc → Doc → Prop
  | .leaf _, _, _ => True
  | .raw, d, d' => d.raw = d'.raw
  | .ptr T, d, d' =>
    match d with
    | .null => True
    | d => T.SameRaw d d'
  | .slice T, d, d' =>
    match d, d' with
    | .arr _ items, .arr _ items' => List.Forall₂ T.SameRaw items items'
    | _, _ => True
  | .map T, d, d' =>
    match d, d' with
    | .obj _ members, .obj _ members' =>
      ∀ m ∈ members, ∀ m' ∈ members', m.1 = m'.1 → T.SameRaw m.2 m'.2
    | _, _ => True
  | .struct fs, d, d' =>
    match d, d' with
    | .obj _ members, .obj _ members' =>
      ∀ m ∈ members, ∀ m' ∈ members', m.1 = m'.1 →
        ∀ i ∈ findField fs.names m.1, ∀ P ∈ fs.sameRaw[i]?, P m.2 m'.2
    | _, _ => True
  | .orString _ T, d, d' =>
    match d with
    | .str _ | .null => True
    | d => T.SameRaw d d'

def Fields.sameRaw : Fields L → List (Doc → Doc → Prop)
  | .nil => []
  | .cons _ T rest => T.SameRaw :: rest.sameRaw

end

lemma Fields.zeros_eq : ∀ fs : Fields L, fs.zeros = fs.types.map Schema.zero
  | .nil => rfl
  | .cons _ T rest => congrArg (T.zero :: ·) rest.zeros_eq

lemma Fields.decoders_eq : ∀ fs : Fields L, fs.decoders = fs.types.map Schema.decode
  | .nil => rfl
  | .cons _ T rest => congrArg (T.decode :: ·) rest.decoders_eq

lemma Fields.setsOnce_eq : ∀ fs : Fields L, fs.setsOnce = fs.types.map Schema.SetsOnce
  | .nil => rfl
  | .cons _ T rest => congrArg (T.SetsOnce :: ·) rest.setsOnce_eq

lemma Fields.sameRaw_eq : ∀ fs : Fields L, fs.sameRaw = fs.types.map Schema.SameRaw
  | .nil => rfl
  | .cons _ T rest => congrArg (T.SameRaw :: ·) rest.sameRaw_eq

/-! ### Lists of members -/

lemma readAll_eq_some {α β : Type} {read : α → Option β} {l : List α} {r : List β}
    (h : readAll read l = some r) : List.Forall₂ (fun a b => read a = some b) l r := by
  induction l generalizing r with
  | nil =>
    cases h
    exact .nil
  | cons a l ih =>
    obtain ⟨b, hb, h⟩ := bind_eq_some_iff.mp h
    obtain ⟨r, hr, rfl⟩ := map_eq_some_iff.mp h
    exact .cons hb (ih hr)

section Members

variable {members members' : List (Key × Doc)} {m m' : Key × Doc}

/-- Members that are the same but for their order and the way they are written. -/
def SameMembers (members members' : List (Key × Doc)) : Prop :=
  (members.map fun m => (m.1, m.2.generic)).Perm (members'.map fun m => (m.1, m.2.generic))

section

variable (h : SameMembers members members')
include h

lemma SameMembers.symm : SameMembers members' members :=
  Perm.symm h

lemma SameMembers.exists_mem (hm : m ∈ members) :
    ∃ m' ∈ members', m.1 = m'.1 ∧ m.2.generic = m'.2.generic := by
  obtain ⟨m', hm', heq⟩ := List.mem_map.mp (h.mem_iff.mp (List.mem_map_of_mem hm))
  obtain ⟨hkey, hgeneric⟩ := Prod.mk.inj heq
  exact ⟨m', hm', hkey.symm, hgeneric.symm⟩

/-- Where no key comes twice, a key has one value. -/
lemma SameMembers.generic_eq (hkeys : (members'.map Prod.fst).Nodup) (hm : m ∈ members)
    (hm' : m' ∈ members') (hkey : m.1 = m'.1) : m.2.generic = m'.2.generic := by
  obtain ⟨m'', hm'', hkey', hgeneric⟩ := h.exists_mem hm
  rw [hgeneric, inj_on_of_nodup_map hkeys hm'' hm' (hkey'.symm.trans hkey)]

end

end Members

/-- What the members of an object make of the fields, where no two of them set the same. -/
structure FieldsOf (names : List Key) (decoders : List (Value L → Doc → Option (Value L)))
    (members : List (Key × Doc)) (fields result : List (Value L)) : Prop where
  known : ∀ m ∈ members, ∃ i, findField names m.1 = some i
  set : ∀ m ∈ members, ∀ i, findField names m.1 = some i → ∃ decode current v,
    decoders[i]? = some decode ∧ fields[i]? = some current ∧ decode current m.2 = some v ∧
      result[i]? = some v
  unset : ∀ i, (∀ m ∈ members, findField names m.1 ≠ some i) → result[i]? = fields[i]?

lemma fieldsOf_decodeMembers {names : List Key}
    {decoders : List (Value L → Doc → Option (Value L))} {members : List (Key × Doc)}
    {fields result : List (Value L)}
    (honce : members.Pairwise fun m m' => findField names m.1 ≠ findField names m'.1)
    (h : decodeMembers names decoders members fields = some result) :
    FieldsOf names decoders members fields result := by
  induction members generalizing fields with
  | nil =>
    cases h
    exact ⟨forall_mem_nil _, forall_mem_nil _, fun i _ => rfl⟩
  | cons m members ih =>
    obtain ⟨hm, honce⟩ := pairwise_cons.mp honce
    obtain ⟨i, hi, h⟩ := bind_eq_some_iff.mp h
    obtain ⟨decode, hdecode, h⟩ := bind_eq_some_iff.mp h
    obtain ⟨current, hcurrent, h⟩ := bind_eq_some_iff.mp h
    obtain ⟨v, hv, h⟩ := bind_eq_some_iff.mp h
    have hrest := ih honce h
    -- The later members set other fields.
    have hother : ∀ m' ∈ members, findField names m'.1 ≠ some i := by
      intro m' hm' hi'
      exact hm m' hm' (hi.trans hi'.symm)
    refine ⟨?_, ?_, ?_⟩
    · exact forall_mem_cons.mpr ⟨⟨i, hi⟩, hrest.known⟩
    · refine forall_mem_cons.mpr ⟨?_, ?_⟩
      · intro j hj
        cases hi.symm.trans hj
        refine ⟨decode, current, v, hdecode, hcurrent, hv, ?_⟩
        rw [hrest.unset i hother, getElem?_set_self (List.getElem?_eq_some_iff.mp hcurrent).1]
      · intro m' hm' j hj
        obtain ⟨decode', current', v', hdecode', hcurrent', hv', hresult⟩ := hrest.set m' hm' j hj
        have hne : i ≠ j := by
          rintro rfl
          exact hother m' hm' hj
        rw [getElem?_set_ne hne] at hcurrent'
        exact ⟨decode', current', v', hdecode', hcurrent', hv', hresult⟩
    · intro j hj
      obtain ⟨hmj, hj⟩ := forall_mem_cons.mp hj
      have hne : i ≠ j := by
        rintro rfl
        exact hmj hi
      rw [hrest.unset j hj, getElem?_set_ne hne]

/-! ### What two documents with one value decode to -/

/-- Two documents with one value, without a key that comes twice or two that set one field, and what
they decode to. -/
structure Decoded (T : Schema L) (d d' : Doc) (v v' : Value L) : Prop where
  left : T.decode T.zero d = some v
  right : T.decode T.zero d' = some v'
  generic : d.generic = d'.generic
  distinct : d.Distinct
  distinct' : d'.Distinct
  once : T.SetsOnce d
  once' : T.SetsOnce d'

/-- What is decoded is the same if and only if the raw text is. -/
def Schema.Determined (T : Schema L) : Prop :=
  ∀ d d' v v', Decoded T d d' v v' → (v = v' ↔ T.SameRaw d d')

variable {d : Doc} {T : Schema L}

lemma eq_null_iff {d' : Doc} (h : d.generic = d'.generic) : d = .null ↔ d' = .null := by
  constructor
  · rintro rfl
    exact generic_eq_null h.symm
  · rintro rfl
    exact generic_eq_null h

lemma Decoded.null {d' : Doc} {v v' : Value L} (h : Decoded T .null d' v v')
    (hraw : T.SameRaw .null .null) : v = v' ↔ T.SameRaw .null d' := by
  have hright := h.right
  rw [(eq_null_iff h.generic).mp rfl, h.left, Option.some.injEq] at hright
  rw [(eq_null_iff h.generic).mp rfl]
  exact iff_of_true hright hraw

lemma determined_leaf (l : Leaf L) : (Schema.leaf l).Determined := by
  intro d d' v v' h
  obtain ⟨a, ha, rfl⟩ := map_eq_some_iff.mp h.left
  obtain ⟨a', ha', rfl⟩ := map_eq_some_iff.mp h.right
  exact iff_of_true (congrArg _ (l.read_eq h.generic ha ha')) trivial

lemma determined_raw : (Schema.raw : Schema L).Determined := by
  intro d d' v v' h
  cases h.left
  cases h.right
  exact Value.raw.injEq _ _ ▸ Iff.rfl

lemma decode_ptr (hd : d ≠ .null) :
    (Schema.ptr T).decode .nil d = (T.decode T.zero d).map .ptr := by
  cases d with
  | null => exact absurd rfl hd
  | _ => rfl

lemma sameRaw_ptr {d' : Doc} (hd : d ≠ .null) : (Schema.ptr T).SameRaw d d' ↔ T.SameRaw d d' := by
  cases d with
  | null => exact absurd rfl hd
  | _ => rfl

lemma determined_ptr (hT : T.Determined) : (Schema.ptr T).Determined := by
  intro d d' v v' h
  by_cases hd : d = .null
  · obtain rfl := hd
    exact h.null trivial
  · have hd' : d' ≠ .null := fun hd' => hd ((eq_null_iff h.generic).mpr hd')
    have hleft := h.left
    have hright := h.right
    rw [Schema.zero, decode_ptr hd] at hleft
    rw [Schema.zero, decode_ptr hd'] at hright
    obtain ⟨w, hw, rfl⟩ := map_eq_some_iff.mp hleft
    obtain ⟨w', hw', rfl⟩ := map_eq_some_iff.mp hright
    rw [Value.ptr.injEq, sameRaw_ptr hd]
    exact hT d d' w w' ⟨hw, hw', h.generic, h.distinct, h.distinct', h.once, h.once'⟩

/-! #### Slices -/

lemma forall₂_determined (hT : T.Determined) {items items' : List Doc} {vs vs' : List (Value L)}
    (hvs : List.Forall₂ (fun d v => T.decode T.zero d = some v) items vs)
    (hvs' : List.Forall₂ (fun d v => T.decode T.zero d = some v) items' vs')
    (hgeneric : items.map Doc.generic = items'.map Doc.generic)
    (hdistinct : ∀ d ∈ items, d.Distinct) (hdistinct' : ∀ d ∈ items', d.Distinct)
    (honce : ∀ d ∈ items, T.SetsOnce d) (honce' : ∀ d ∈ items', T.SetsOnce d) :
    vs = vs' ↔ List.Forall₂ T.SameRaw items items' := by
  induction hvs generalizing items' vs' with
  | nil =>
    cases hvs' with
    | nil => exact iff_of_true rfl .nil
    | cons => cases hgeneric
  | @cons d v items vs hv hvs ih =>
    cases hvs' with
    | nil => cases hgeneric
    | @cons d' v' items' vs' hv' hvs' =>
      rw [map_cons, map_cons, List.cons.injEq] at hgeneric
      obtain ⟨hd, hdistinct⟩ := forall_mem_cons.mp hdistinct
      obtain ⟨hd', hdistinct'⟩ := forall_mem_cons.mp hdistinct'
      obtain ⟨ho, honce⟩ := forall_mem_cons.mp honce
      obtain ⟨ho', honce'⟩ := forall_mem_cons.mp honce'
      have hhead := hT d d' v v' ⟨hv, hv', hgeneric.1, hd, hd', ho, ho'⟩
      have htail := ih hvs' hgeneric.2 hdistinct hdistinct' honce honce'
      rw [List.cons.injEq, forall₂_cons, hhead, htail]

lemma determined_slice (hT : T.Determined) : (Schema.slice T).Determined := by
  intro d d' v v' h
  have hleft := h.left
  have hright := h.right
  cases d with
  | null => exact h.null trivial
  | arr inner items =>
    obtain ⟨inner', items', rfl, hgeneric⟩ :=
      generic_eq_arr (h.generic.symm.trans (generic_arr inner items))
    obtain ⟨vs, hvs, rfl⟩ := map_eq_some_iff.mp hleft
    obtain ⟨vs', hvs', rfl⟩ := map_eq_some_iff.mp hright
    rw [Value.slice.injEq]
    exact forall₂_determined hT (readAll_eq_some hvs) (readAll_eq_some hvs') hgeneric.symm
      (distinct_arr.mp h.distinct) (distinct_arr.mp h.distinct') h.once h.once'
  | _ => cases hleft

/-! #### Maps -/

section Maps

variable {T : Schema L} {members members' : List (Key × Doc)}
  {entries entries' : List (Key × Value L)}

def ReadInto (T : Schema L) (members : List (Key × Doc)) (entries : List (Key × Value L)) : Prop :=
  List.Forall₂
    (fun m e => (T.decode T.zero m.2).map (fun v => (m.1, v)) = some e) members entries

section ReadInto

variable (h : ReadInto T members entries)
include h

lemma ReadInto.keys : entries.map Prod.fst = members.map Prod.fst := by
  induction h with
  | nil => rfl
  | @cons m e members entries hm _ ih =>
    obtain ⟨v, -, rfl⟩ := map_eq_some_iff.mp hm
    rw [map_cons, map_cons, ih]

lemma ReadInto.exists_entry {m : Key × Doc} (hm : m ∈ members) :
    ∃ v, T.decode T.zero m.2 = some v ∧ (m.1, v) ∈ entries := by
  induction h with
  | nil => cases hm
  | @cons m' e members entries hm' _ ih =>
    rcases mem_cons.mp hm with rfl | hm
    · obtain ⟨v, hv, rfl⟩ := map_eq_some_iff.mp hm'
      exact ⟨v, hv, mem_cons_self⟩
    · obtain ⟨v, hv, hmem⟩ := ih hm
      exact ⟨v, hv, mem_cons_of_mem _ hmem⟩

lemma ReadInto.exists_member {e : Key × Value L} (he : e ∈ entries) :
    ∃ m ∈ members, m.1 = e.1 ∧ T.decode T.zero m.2 = some e.2 := by
  induction h with
  | nil => cases he
  | @cons m e' members entries hm _ ih =>
    rcases mem_cons.mp he with rfl | he
    · obtain ⟨v, hv, rfl⟩ := map_eq_some_iff.mp hm
      exact ⟨m, mem_cons_self, rfl, hv⟩
    · obtain ⟨m', hm', hkey, hv⟩ := ih he
      exact ⟨m', mem_cons_of_mem _ hm', hkey, hv⟩

lemma ReadInto.length : entries.length = members.length :=
  h.length_eq.symm

/-- Two maps are equal if and only if their keys have the same values. -/
lemma insertAll_eq_iff (h' : ReadInto T members' entries') (hsame : SameMembers members members')
    (hkeys : (members.map Prod.fst).Nodup) (hkeys' : (members'.map Prod.fst).Nodup) :
    insertAll entries = insertAll entries' ↔
      ∀ m ∈ members, ∀ m' ∈ members', m.1 = m'.1 → T.decode T.zero m.2 = T.decode T.zero m'.2 := by
  rw [← h.keys] at hkeys
  rw [← h'.keys] at hkeys'
  constructor
  · intro heq m hm m' hm' hkey
    obtain ⟨v, hv, hentry⟩ := h.exists_entry hm
    obtain ⟨v', hv', hentry'⟩ := h'.exists_entry hm'
    have hperm : entries.Perm entries' :=
      (insertAll_perm hkeys).symm.trans (heq ▸ insertAll_perm hkeys')
    have hsameEntry : (m.1, v) = (m'.1, v') :=
      inj_on_of_nodup_map hkeys' (hperm.mem_iff.mp hentry) hentry' hkey
    rw [hv, hv', (Prod.mk.inj hsameEntry).2]
  · intro hvalues
    refine insertAll_eq_of_perm hkeys ?_
    have hsub : entries ⊆ entries' := by
      rintro ⟨k, v⟩ he
      obtain ⟨m, hm, rfl, hv⟩ := h.exists_member he
      obtain ⟨m', hm', hkey, -⟩ := hsame.exists_mem hm
      obtain ⟨v', hv', hentry'⟩ := h'.exists_entry hm'
      rw [← hkey] at hentry'
      rw [hvalues m hm m' hm' hkey, hv'] at hv
      cases hv
      exact hentry'
    have hnodup : entries.Nodup := hkeys.of_map _
    refine (subperm_of_subset hnodup hsub).perm_of_length_le ?_
    have hlength := hsame.length_eq
    rw [length_map, length_map] at hlength
    rw [h.length, h'.length, hlength]

end ReadInto

end Maps

lemma determined_map (hT : T.Determined) : (Schema.map T).Determined := by
  intro d d' v v' h
  have hleft := h.left
  have hright := h.right
  cases d with
  | null => exact h.null trivial
  | obj inner members =>
    obtain ⟨inner', members', rfl⟩ :=
      generic_eq_obj (h.generic.symm.trans (generic_obj inner members))
    have hsame : SameMembers members members' := members_perm h.distinct h.distinct' h.generic
    obtain ⟨hkeys, hdistinct⟩ := distinct_obj.mp h.distinct
    obtain ⟨hkeys', hdistinct'⟩ := distinct_obj.mp h.distinct'
    obtain ⟨entries, hentries, rfl⟩ := map_eq_some_iff.mp hleft
    obtain ⟨entries', hentries', rfl⟩ := map_eq_some_iff.mp hright
    have hread : ReadInto T members entries := readAll_eq_some hentries
    have hread' : ReadInto T members' entries' := readAll_eq_some hentries'
    refine (Value.map.injEq _ _ ▸ insertAll_eq_iff hread hread' hsame hkeys hkeys').trans ?_
    refine forall₄_congr fun m hm m' hm' => imp_congr_right fun hkey => ?_
    obtain ⟨v, hv, -⟩ := hread.exists_entry hm
    obtain ⟨v', hv', -⟩ := hread'.exists_entry hm'
    rw [hv, hv', Option.some.injEq]
    exact hT m.2 m'.2 v v' ⟨hv, hv', hsame.generic_eq hkeys' hm hm' hkey, hdistinct m hm,
      hdistinct' m' hm', h.once m hm, h.once' m' hm'⟩
  | _ => cases hleft

/-! #### Structures -/

section Structs

variable {fs : Fields L} {members members' : List (Key × Doc)} {result result' : List (Value L)}
  {m m' : Key × Doc} {i : ℕ}

lemma FieldsOf.exists_type (h : FieldsOf fs.names fs.decoders members fs.zeros result)
    (hm : m ∈ members) (hi : findField fs.names m.1 = some i) :
    ∃ T v, fs.types[i]? = some T ∧ T.decode T.zero m.2 = some v ∧ result[i]? = some v := by
  obtain ⟨decode, current, v, hdecode, hcurrent, hv, hresult⟩ := h.set m hm i hi
  rw [fs.decoders_eq, getElem?_map] at hdecode
  rw [fs.zeros_eq, getElem?_map] at hcurrent
  obtain ⟨T, hT, rfl⟩ := map_eq_some_iff.mp hdecode
  rw [hT, map_some, Option.some.injEq] at hcurrent
  subst hcurrent
  exact ⟨T, v, hT, hv, hresult⟩

lemma field_eq_iff (hfs : ∀ T ∈ fs.types, T.Determined)
    (h : FieldsOf fs.names fs.decoders members fs.zeros result)
    (h' : FieldsOf fs.names fs.decoders members' fs.zeros result')
    (hm : m ∈ members) (hm' : m' ∈ members') (hkey : m.1 = m'.1)
    (hgeneric : m.2.generic = m'.2.generic) (hdistinct : m.2.Distinct) (hdistinct' : m'.2.Distinct)
    (honce : ∀ P ∈ fs.setsOnce[i]?, P m.2) (honce' : ∀ P ∈ fs.setsOnce[i]?, P m'.2)
    (hi : findField fs.names m.1 = some i) :
    result[i]? = result'[i]? ↔ ∀ P ∈ fs.sameRaw[i]?, P m.2 m'.2 := by
  obtain ⟨T, v, hT, hv, hresult⟩ := h.exists_type hm hi
  obtain ⟨T', v', hT', hv', hresult'⟩ := h'.exists_type hm' (hkey ▸ hi)
  cases hT.symm.trans hT'
  rw [fs.setsOnce_eq, getElem?_map, hT] at honce honce'
  rw [hresult, hresult', Option.some.injEq, fs.sameRaw_eq, getElem?_map, hT]
  have hiff := hfs T (mem_of_getElem? hT) m.2 m'.2 v v'
    ⟨hv, hv', hgeneric, hdistinct, hdistinct', honce _ rfl, honce' _ rfl⟩
  rw [hiff]
  refine ⟨?_, fun hP => hP _ rfl⟩
  rintro hsame P ⟨⟩
  exact hsame

end Structs

lemma determined_struct {fs : Fields L} (hfs : ∀ T ∈ fs.types, T.Determined) :
    (Schema.struct fs).Determined := by
  intro d d' v v' h
  have hleft := h.left
  have hright := h.right
  cases d with
  | null => exact h.null trivial
  | obj inner members =>
    obtain ⟨inner', members', rfl⟩ :=
      generic_eq_obj (h.generic.symm.trans (generic_obj inner members))
    have hsame : SameMembers members members' := members_perm h.distinct h.distinct' h.generic
    obtain ⟨hkeys, hdistinct⟩ := distinct_obj.mp h.distinct
    obtain ⟨hkeys', hdistinct'⟩ := distinct_obj.mp h.distinct'
    obtain ⟨honce, hfields⟩ := h.once
    obtain ⟨honce', hfields'⟩ := h.once'
    obtain ⟨result, hresult, rfl⟩ := map_eq_some_iff.mp hleft
    obtain ⟨result', hresult', rfl⟩ := map_eq_some_iff.mp hright
    have hof := fieldsOf_decodeMembers honce hresult
    have hof' := fieldsOf_decodeMembers honce' hresult'
    have hfield : ∀ m ∈ members, ∀ m' ∈ members', m.1 = m'.1 → ∀ i ∈ findField fs.names m.1,
        (result[i]? = result'[i]? ↔ ∀ P ∈ fs.sameRaw[i]?, P m.2 m'.2) := by
      intro m hm m' hm' hkey i hi
      exact field_eq_iff hfs hof hof' hm hm' hkey (hsame.generic_eq hkeys' hm hm' hkey)
        (hdistinct m hm) (hdistinct' m' hm') (hfields m hm i hi) (hfields' m' hm' i (hkey ▸ hi)) hi
    rw [Value.struct.injEq]
    constructor
    · rintro rfl m hm m' hm' hkey i hi
      exact (hfield m hm m' hm' hkey i hi).mp rfl
    · intro hraw
      refine ext_getElem? ?_
      intro i
      by_cases hset : ∃ m ∈ members, findField fs.names m.1 = some i
      · obtain ⟨m, hm, hi⟩ := hset
        obtain ⟨m', hm', hkey, -⟩ := hsame.exists_mem hm
        exact (hfield m hm m' hm' hkey i hi).mpr (hraw m hm m' hm' hkey i hi)
      · push Not at hset
        have hset' : ∀ m' ∈ members', findField fs.names m'.1 ≠ some i := by
          intro m' hm'
          obtain ⟨m, hm, hkey, -⟩ := hsame.symm.exists_mem hm'
          rw [hkey]
          exact hset m hm
        rw [hof.unset i hset, hof'.unset i hset']
  | _ => cases hleft

/-! #### Types that accept a string -/

def Doc.IsString : Doc → Prop
  | .str _ | .null => True
  | _ => False

variable {read : Value L → Key → Value L}

lemma decode_orString (hd : ¬ d.IsString) (current : Value L) :
    (Schema.orString read T).decode current d = T.decode T.zero d := by
  cases d with
  | str | null => exact absurd trivial hd
  | _ => rfl

lemma sameRaw_orString {d' : Doc}
    (hd : ¬ d.IsString) : (Schema.orString read T).SameRaw d d' ↔ T.SameRaw d d' := by
  cases d with
  | str | null => exact absurd trivial hd
  | _ => rfl

lemma isString_congr {d' : Doc} (h : d.generic = d'.generic) (hd : ¬ d.IsString) :
    ¬ d'.IsString := by
  intro hd'
  cases d' with
  | str body' =>
    obtain ⟨body, rfl, -⟩ := generic_eq_str h
    exact hd trivial
  | null =>
    obtain rfl := generic_eq_null h
    exact hd trivial
  | _ => exact hd'

lemma determined_orString (read : Value L → Key → Value L) (hT : T.Determined) :
    (Schema.orString read T).Determined := by
  intro d d' v v' h
  have hleft := h.left
  have hright := h.right
  by_cases hd : d.IsString
  · cases d with
    | str body =>
      obtain ⟨body', rfl, hbody⟩ := generic_eq_str h.generic.symm
      cases hleft
      cases hright
      exact iff_of_true (by rw [hbody]) trivial
    | null => exact h.null trivial
    | _ => exact hd.elim
  · rw [decode_orString hd] at hleft
    rw [decode_orString (isString_congr h.generic hd)] at hright
    rw [sameRaw_orString hd]
    exact hT d d' v v' ⟨hleft, hright, h.generic, h.distinct, h.distinct', h.once, h.once'⟩

/-- What two documents with one value decode to, for every type. -/
theorem Schema.determined (T : Schema L) : T.Determined := by
  induction T using Schema.induction with
  | leaf l => exact determined_leaf l
  | raw => exact determined_raw
  | ptr T hT => exact determined_ptr hT
  | slice T hT => exact determined_slice hT
  | map T hT => exact determined_map hT
  | struct fs hfs => exact determined_struct hfs
  | orString read T hT => exact determined_orString read hT

end Lib.JSON
