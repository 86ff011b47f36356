import Mathlib.Data.UInt

/-!
# UTF-8 strings of Go

A Go string is a list of bytes. A loop over its runes decodes one character after another; a byte
that starts none counts as a replacement character of its own.
-/

namespace Lib.UTF8

open List

def isCont (b : UInt8) : Bool := 0x80 ≤ b && b ≤ 0xbf

def low (b : UInt8) : Nat := b.toNat % 64

/-- `utf8.DecodeRune`, when the bytes start with a character: it and its size. -/
def decodeRune : List UInt8 → Option (Char × Nat)
  | [] => none
  | a :: s =>
    if a < 0x80 then some (Char.ofNat a.toNat, 1)
    else if a < 0xc2 then none
    else if a < 0xe0 then
      match s with
      | b :: _ =>
        if isCont b then some (Char.ofNat (a.toNat % 32 * 64 + low b), 2) else none
      | _ => none
    else if a < 0xf0 then
      match s with
      | b :: c :: _ =>
        if isCont b && isCont c && !(a == 0xe0 && b < 0xa0) && !(a == 0xed && 0x9f < b) then
          some (Char.ofNat ((a.toNat % 16 * 64 + low b) * 64 + low c), 3)
        else none
      | _ => none
    else if a < 0xf5 then
      match s with
      | b :: c :: d :: _ =>
        if isCont b && isCont c && isCont d && !(a == 0xf0 && b < 0x90) &&
            !(a == 0xf4 && 0x8f < b) then
          some (Char.ofNat (((a.toNat % 8 * 64 + low b) * 64 + low c) * 64 + low d), 4)
        else none
      | _ => none
    else none

def runeError : Char := Char.ofNat 0xfffd

def runesFrom : Nat → List UInt8 → List Char
  | _, [] => []
  | k + 1, _ :: s => runesFrom k s
  | 0, b :: s =>
    match decodeRune (b :: s) with
    | some (c, n) => c :: runesFrom (n - 1) s
    | none => runeError :: runesFrom 0 s

def runes (s : List UInt8) : List Char := runesFrom 0 s

/-- Whether every byte belongs to a character, after some bytes of the last one. -/
def validFrom : Nat → List UInt8 → Bool
  | _, [] => true
  | k + 1, _ :: s => validFrom k s
  | 0, b :: s =>
    match decodeRune (b :: s) with
    | some (_, n) => validFrom (n - 1) s
    | none => false

def validString (s : List UInt8) : Bool := validFrom 0 s

/-- `utf8.AppendRune`: the bytes of a rune, or of `utf8.RuneError` if it is not valid. -/
def encodeRune (r : Nat) : List UInt8 :=
  if r < 0x80 then [.ofNat r]
  else if r < 0x800 then [.ofNat (0xc0 + r / 64), .ofNat (0x80 + r % 64)]
  else if (0xd800 ≤ r ∧ r < 0xe000) ∨ 0x10ffff < r then [0xef, 0xbf, 0xbd]
  else if r < 0x10000 then
    [.ofNat (0xe0 + r / 4096), .ofNat (0x80 + r / 64 % 64), .ofNat (0x80 + r % 64)]
  else
    [.ofNat (0xf0 + r / 262144), .ofNat (0x80 + r / 4096 % 64), .ofNat (0x80 + r / 64 % 64),
      .ofNat (0x80 + r % 64)]

variable {b : UInt8} {s : List UInt8}

lemma decodeRune_append_ascii {a : UInt8} {t : List UInt8} (hb : b < 0x80) :
    decodeRune (a :: (s ++ b :: t)) = decodeRune (a :: s) := by
  have hcont : isCont b = false := by
    rw [isCont, decide_eq_false (UInt8.not_le.mpr hb), Bool.false_and]
  -- Three bytes after the first one decide.
  rcases s with _ | ⟨x, _ | ⟨y, _ | ⟨z, s⟩⟩⟩ <;> rcases t with _ | ⟨v, _ | ⟨w, t⟩⟩ <;>
    simp [decodeRune, hcont]

lemma size_le {a : UInt8} {c : Char} {n : Nat}
    (h : decodeRune (a :: s) = some (c, n)) : n - 1 ≤ s.length := by
  rcases s with _ | ⟨x, _ | ⟨y, _ | ⟨z, s⟩⟩⟩ <;> simp only [decodeRune] at h <;>
    split_ifs at h <;> simp_all <;> omega

lemma runesFrom_append_ascii (hb : b < 0x80) (t : List UInt8) {k : Nat} (hk : k ≤ s.length) :
    runesFrom k (s ++ b :: t) = runesFrom k s ++ Char.ofNat b.toNat :: runes t := by
  induction s generalizing k with
  | nil =>
    obtain rfl := Nat.le_zero.mp hk
    simp [runesFrom, decodeRune, hb, runes]
  | cons a s ih =>
    cases k with
    | succ k => exact ih (Nat.le_of_succ_le_succ hk)
    | zero =>
      rw [cons_append, runesFrom, runesFrom, decodeRune_append_ascii hb]
      split
      · next c n hc => rw [ih (size_le hc), cons_append]
      · rw [ih (Nat.zero_le _), cons_append]

/-- An ASCII character is read as one, wherever it is. -/
lemma runes_append_ascii (hb : b < 0x80) (s t : List UInt8) :
    runes (s ++ b :: t) = runes s ++ Char.ofNat b.toNat :: runes t :=
  runesFrom_append_ascii hb t (Nat.zero_le _)

lemma mem_runes (hb : b < 0x80) (h : b ∈ s) : Char.ofNat b.toNat ∈ runes s := by
  obtain ⟨s, t, rfl⟩ := append_of_mem h
  rw [runes_append_ascii hb]
  exact mem_append_right _ mem_cons_self

lemma isCont_iff : isCont b = true ↔ 128 ≤ b.toNat ∧ b.toNat ≤ 191 := by
  simp [isCont, UInt8.le_iff_toNat_le]

lemma eq_ofNat {n : Nat} (h : b.toNat = n) : b = .ofNat n := by
  rw [← h, UInt8.ofNat_toNat]

lemma toNat_ofNat {v : Nat} (h : v < 0xd800 ∨ 0xdfff < v ∧ v < 0x110000) :
    (Char.ofNat v).toNat = v := by
  rw [Char.ofNat, dif_pos h]
  rfl

/-- A character that is decoded stands there with its own bytes. -/
lemma take_of_decodeRune {c : Char} {n : Nat} (h : decodeRune s = some (c, n)) :
    s.take n = encodeRune c.toNat := by
  cases s with
  | nil => cases h
  | cons a s =>
    have ha := a.toNat_lt
    simp only [decodeRune, low, UInt8.lt_iff_toNat_lt, Bool.and_eq_true, isCont_iff,
      Bool.not_eq_true', Bool.and_eq_false_iff, beq_eq_false_iff_ne, ne_eq,
      decide_eq_false_iff_not, ← UInt8.toNat_inj, UInt8.reduceToNat] at h
    split_ifs at h with h1 h2 h3 h4 h5
    · cases h
      rw [toNat_ofNat (by omega), encodeRune, if_pos h1, UInt8.ofNat_toNat]
      rfl
    · split at h
      · split_ifs at h with hb
        cases h
        rw [toNat_ofNat (by omega), encodeRune, if_neg (by omega), if_pos (by omega)]
        simp only [take_succ_cons, take_zero, List.cons.injEq, and_true]
        exact ⟨eq_ofNat (by omega), eq_ofNat (by omega)⟩
      · cases h
    · split at h
      · split_ifs at h with hb
        cases h
        rw [toNat_ofNat (by omega), encodeRune, if_neg (by omega), if_neg (by omega),
          if_neg (by omega), if_pos (by omega)]
        simp only [take_succ_cons, take_zero, List.cons.injEq, and_true]
        exact ⟨eq_ofNat (by omega), eq_ofNat (by omega), eq_ofNat (by omega)⟩
      · cases h
    · split at h
      · split_ifs at h with hb
        cases h
        rw [toNat_ofNat (by omega), encodeRune, if_neg (by omega), if_neg (by omega),
          if_neg (by omega), if_neg (by omega)]
        simp only [take_succ_cons, take_zero, List.cons.injEq, and_true]
        exact ⟨eq_ofNat (by omega), eq_ofNat (by omega), eq_ofNat (by omega), eq_ofNat (by omega)⟩
      · cases h

end Lib.UTF8
