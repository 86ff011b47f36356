import BypassCore.Lib.GoStrings
import BypassCore.Lib.GoMap

/-!
# Host names of HTTP requests

The sniffer of `common/protocol/http`. The functions of package `strings` that look at Unicode
characters are a parameter: nothing here depends on how they treat bytes outside ASCII.
-/

namespace BypassCore.HTTP

open Lib Lib.GoBytes

/-- The functions of package `strings` that decode characters. -/
structure Strings where
  fields : List UInt8 → List (List UInt8)
  toLower : List UInt8 → List UInt8
  trimSpace : List UInt8 → List UInt8
  equalFold : List UInt8 → List UInt8 → Bool

namespace Strings

/-- The white space among the ASCII bytes. -/
def isSpace (b : UInt8) : Bool := (9 ≤ b && b ≤ 13) || b == 32

/-- `strings.Fields` on ASCII: `word` is what has been read of a field, reversed. -/
def asciiFields : List UInt8 → List UInt8 → List (List UInt8)
  | word, [] => if word = [] then [] else [word.reverse]
  | word, b :: s =>
    if isSpace b then
      if word = [] then asciiFields [] s else word.reverse :: asciiFields [] s
    else asciiFields (b :: word) s

def ofASCII : Strings where
  fields := asciiFields []
  toLower := ASCII.toLower
  trimSpace s := ((s.dropWhile isSpace).reverse.dropWhile isSpace).reverse
  equalFold := ASCII.equalFold

end Strings

def methods : List (List UInt8) :=
  [ascii "GET", ascii "POST", ascii "PUT", ascii "DELETE", ascii "HEAD", ascii "OPTIONS",
    ascii "CONNECT", ascii "PATCH"]

variable (S : Strings)

def knownMethod (method : List UInt8) : Bool :=
  methods.any fun candidate => S.equalFold method candidate

def normalizeHost (value : List UInt8) : List UInt8 :=
  match splitHostPort value with
  | some (host, portText) =>
    match atoi portText with
    | none => []
    | some port => if port < 1 ∨ 65535 < port then [] else trim host (ascii "[]")
  | none =>
    let value :=
      if value.head? = some 0x5b ∧ value.getLast? = some 0x5d then trim value (ascii "[]")
      else value
    if value = [] ∨ containsAny value (ascii " \t/\\") then []
    else if value.count 0x3a = 1 then []
    else value

/-- The headers of a request and its host, and `none` where the source gives up. -/
def sniffHeaders : List (List UInt8) → List UInt8 → GoMap (List UInt8) (List UInt8) →
    Option (List UInt8 × GoMap (List UInt8) (List UInt8))
  | [], host, attributes => some (host, attributes)
  | line :: lines, host, attributes =>
    match splitN2 0x3a line with
    | [name, text] =>
      let key := S.toLower (S.trimSpace name)
      let value := S.trimSpace text
      if key = [] ∨ containsAny key (ascii " \t\r\n") ∨
          containsAny value (ascii "\r\n" ++ [0]) then none
      else if key = ascii "host" then
        if normalizeHost value = [] then none
        else sniffHeaders lines (normalizeHost value) (attributes.insert key value)
      else sniffHeaders lines host (attributes.insert key value)
    | _ => sniffHeaders lines host attributes

def sniffHeaderBlock (block : List UInt8) :
    List UInt8 × Option (GoMap (List UInt8) (List UInt8)) :=
  match split (ascii "\r\n") block with
  | [] => ([], none)
  | first :: lines =>
    match S.fields first with
    | [method, path, version] =>
      if knownMethod S method = true ∧ ascii "HTTP/1." <+: version then
        let attributes : GoMap (List UInt8) (List UInt8) :=
          (AList.insert (ascii ":method") method ∅).insert (ascii ":path") path
        match sniffHeaders S lines [] attributes with
        | none => ([], none)
        | some (host, attributes) => (host, some attributes)
      else ([], none)
    | _ => ([], none)

def headerEnd : List UInt8 := ascii "\r\n\r\n"

def sniffRequest (data : List UInt8) :
    List UInt8 × Option (GoMap (List UInt8) (List UInt8)) :=
  match index headerEnd data with
  | none => ([], none)
  | some i => sniffHeaderBlock S (data.take i)

def sniffHost (data : List UInt8) : List UInt8 := (sniffRequest S data).1

/-- Only the header block counts. -/
lemma sniffHost_append {data : List UInt8} {i : Nat} (h : index headerEnd data = some i)
    (t : List UInt8) : sniffHost S (data ++ t) = sniffHost S data := by
  simp only [sniffHost, sniffRequest, h, index_append h t, take_of_index h t]

end BypassCore.HTTP
