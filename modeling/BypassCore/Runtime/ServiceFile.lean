import BypassCore.Lib.GoStrings

/-!
# Paths in service files

`cmd/bypasscore/service.go` writes paths into a systemd unit and into a shell script. What systemd
and a shell read there is the path, as one word.
-/

namespace BypassCore.ServiceFile

open Lib List

/-- `strings.ReplaceAll` of one byte. -/
def replaceAll (old : UInt8) (new s : List UInt8) : List UInt8 :=
  s.flatMap fun b => if b = old then new else [b]

def quoteShellArgument (value : List UInt8) : List UInt8 :=
  ascii "'" ++ replaceAll 0x27 (ascii "'\\''") value ++ ascii "'"

/-- The replacer of `quoteSystemdArgument`. -/
def escape (b : UInt8) : List UInt8 :=
  if b = 0x5c then ascii "\\\\" else if b = 0x22 then ascii "\\\"" else if b = 0x25 then ascii "%%"
  else if b = 0x0a then ascii "\\n" else if b = 0x0d then ascii "\\r"
  else if b = 0x09 then ascii "\\t" else [b]

def quoteSystemdArgument (value : List UInt8) : List UInt8 :=
  ascii "\"" ++ value.flatMap escape ++ ascii "\""

def configArgument (configPath : List UInt8) : List UInt8 :=
  quoteSystemdArgument (replaceAll 0x24 (ascii "$$") configPath)

/-- The `ExecStart` line of `renderSystemdUnit`. -/
def execStart (binPath configPath : List UInt8) : List UInt8 :=
  ascii "ExecStart=" ++ quoteSystemdArgument binPath ++ ascii " -config " ++
    configArgument configPath ++ ascii " -run"

/-! ## Readers -/

inductive Mode
  | plain
  | quoted
  | escaped

/-- A word and what follows it, if a word can be read. -/
abbrev Word := Option (List UInt8 × List UInt8)

def push (b : UInt8) : Word → Word := Option.map (Prod.map (b :: ·) id)

/-- The word at the front of a shell command. One that is to be expanded is not read. -/
def shellWord : Mode → List UInt8 → Word
  | .plain, [] => some ([], [])
  | .plain, b :: s =>
    if b ∈ ascii " \t\n|&;<>()" then some ([], b :: s)
    else if b = 0x27 then shellWord .quoted s
    else if b = 0x5c then shellWord .escaped s
    else if b ∈ ascii "$`\"*?[~" then none
    else push b (shellWord .plain s)
  | .quoted, b :: s => if b = 0x27 then shellWord .plain s else push b (shellWord .quoted s)
  -- an escaped line break is no part of the word
  | .escaped, b :: s => (if b = 0x0a then id else push b) (shellWord .plain s)
  | _, [] => none

/-- The C escapes of one character. -/
def unescape (b : UInt8) : Option UInt8 :=
  ((ascii "abfnrtvs\\\"'").zip (ascii "\x07\x08\x0c\n\r\t\x0b \\\"'")).lookup b

/-- The word at the front of a command line of systemd, which ends where the line does. -/
def execWord : Mode → List UInt8 → Word
  | .plain, [] => some ([], [])
  | .plain, b :: s =>
    if b ∈ ascii " \t\n\r" then some ([], b :: s)
    else if b = 0x22 then execWord .quoted s
    else if b ∈ ascii "'\\" then none
    else push b (execWord .plain s)
  | .quoted, b :: s =>
    if b = 0x22 then execWord .plain s
    else if b = 0x5c then execWord .escaped s
    else if b ∈ ascii "\n\r" then none
    else push b (execWord .quoted s)
  | .escaped, b :: s => (unescape b).bind fun c => push c (execWord .quoted s)
  | _, [] => none

/-- Two of a character are read as one, one alone is not read: it starts an expansion. -/
def undouble (c : UInt8) : Bool → List UInt8 → Option (List UInt8)
  | single, [] => if single then none else some []
  | false, b :: s => if b = c then undouble c true s else (undouble c false s).map (b :: ·)
  | true, b :: s => if b = c then (undouble c false s).map (c :: ·) else none

/-- An argument of `ExecStart`, with its specifiers and variables. -/
def execArgument (s : List UInt8) : Word := do
  let (word, rest) ← execWord .plain s
  let word ← undouble 0x25 false word
  return (← undouble 0x24 false word, rest)

/-! ## Round trips -/

variable (s : List UInt8) {rest : List UInt8}

lemma undouble_replaceAll (c : UInt8) : undouble c false (replaceAll c [c, c] s) = some s := by
  induction s with
  | nil => rfl
  | cons b s ih =>
    rw [replaceAll] at ih
    by_cases hb : b = c <;> simp [replaceAll, undouble, hb, ih]

lemma shellWord_quoted (h : shellWord .plain rest = some ([], rest)) :
    shellWord .quoted (replaceAll 0x27 (ascii "'\\''") s ++ 0x27 :: rest) = some (s, rest) := by
  induction s with
  | nil => exact h
  | cons b s ih =>
    by_cases hb : b = 0x27
    · subst hb
      exact congr_arg (push 0x27) ih
    · rw [replaceAll, flatMap_cons, if_neg hb]
      exact (if_neg hb).trans (congr_arg (push b) ih)

lemma execWord_escape (b : UInt8) : execWord .quoted (escape b ++ s) =
    (if b = 0x25 then push b ∘ push b else push b) (execWord .quoted s) := by
  rw [escape]
  split_ifs <;> simp_all [execWord, ascii, unescape, lookup_cons]

lemma execWord_quoted (h : execWord .plain rest = some ([], rest)) :
    execWord .quoted (s.flatMap escape ++ 0x22 :: rest) =
      some (replaceAll 0x25 (ascii "%%") s, rest) := by
  induction s with
  | nil => exact h
  | cons b s ih =>
    rw [flatMap_cons, append_assoc, execWord_escape, ih, replaceAll, replaceAll, flatMap_cons]
    split_ifs with hb
    · subst hb
      rfl
    · rfl

lemma newline_not_mem_escape (b : UInt8) : 0x0a ∉ escape b := by
  rw [escape]
  split_ifs <;> simp_all [ascii, eq_comm]

/-- **A service file holds its paths as they are.** A shell reads a quoted path as one word, and
systemd reads the configuration in its `ExecStart` line as one argument. The line stays one line. -/
theorem service_paths_roundtrip (binPath path rest : List UInt8) :
    shellWord .plain (quoteShellArgument path ++ 0x0a :: rest) = some (path, 0x0a :: rest) ∧
    execArgument (configArgument path ++ (ascii " -run" ++ rest)) =
      some (path, ascii " -run" ++ rest) ∧
    0x0a ∉ execStart binPath path := by
  refine ⟨?_, ?_, ?_⟩
  · rw [quoteShellArgument, append_assoc]
    exact shellWord_quoted path rfl
  · have hword : execWord .plain (configArgument path ++ (ascii " -run" ++ rest)) =
        some (replaceAll 0x25 [0x25, 0x25] (replaceAll 0x24 [0x24, 0x24] path),
          ascii " -run" ++ rest) := by
      rw [configArgument, quoteSystemdArgument, append_assoc]
      exact execWord_quoted _ rfl
    simp [execArgument, hword, undouble_replaceAll]
  · simp [execStart, configArgument, quoteSystemdArgument, ascii, newline_not_mem_escape]

end BypassCore.ServiceFile
