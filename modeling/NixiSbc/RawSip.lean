import NixiSbc.Diagnostics
import NixiSbc.TextScan

namespace NixiSbc.RawSip

open Diagnostics TextScan

/-- Lower-casing of the characters outside ASCII, in the context of the text
before and after. The tables of the standard library decide it. -/
abbrev Lowering := List Char → Char → List Char → List Char

def lowerFrom (U : Lowering) (before : List Char) : List Char → List Char
  | [] => []
  | c :: after =>
      (if c.toNat < 128 then [c.toLower] else U before c after) ++ lowerFrom U (before ++ [c]) after

def toLowercase (U : Lowering) (text : List Char) : List Char := lowerFrom U [] text

/-- The lowering that keeps everything outside ASCII. -/
def asciiOnly : Lowering := fun _ c _ => [c]

/-- A parsed message: start line, unfolded header lines, body. -/
structure RawSipMessage where
  startLine : List Char
  headers : List (List Char)
  body : List Char

def isFolded (line : List Char) : Bool := line.head? = some ' ' ∨ line.head? = some '\t'

/-- The header loop. A folded line is joined to the current header with one
space, and dropped when there is none; an empty line ends the current header. -/
def collectHeaders : Option (List Char) → List (List Char) → List (List Char)
  | current, [] => current.toList
  | current, line :: rest =>
      if isFolded line then collectHeaders (current.map fun h => h ++ ' ' :: trim line) rest
      else if line = [] then current.toList ++ collectHeaders none rest
      else current.toList ++ collectHeaders (some line) rest

def crlfCrlf : List Char := ['\r', '\n', '\r', '\n']

/-- Header part and body, split at the first CRLFCRLF, else at the first LFLF. -/
def splitBody (raw : List Char) : List Char × List Char :=
  match findSub crlfCrlf raw with
  | some pos => (raw.take pos, raw.drop (pos + 4))
  | none =>
      match findSub ['\n', '\n'] raw with
      | some pos => (raw.take pos, raw.drop (pos + 2))
      | none => (raw, [])

/-- A text always has a first piece, so the error for an empty message is never
reached. -/
def parse (raw : List Char) : Except Error RawSipMessage :=
  let (headerPart, body) := splitBody raw
  .ok {
    startLine := trim (headerPart.takeWhile fun c => c ≠ '\r' ∧ c ≠ '\n')
    headers := collectHeaders none ((lines headerPart).drop 1)
    body := body }

/-- Compact header names in their long form. -/
def shortForm (name : List Char) : List Char :=
  if name = "v".toList then "via".toList
  else if name = "f".toList then "from".toList
  else if name = "t".toList then "to".toList
  else if name = "m".toList then "contact".toList
  else if name = "i".toList then "call-id".toList
  else if name = "e".toList then "content-encoding".toList
  else if name = "l".toList then "content-length".toList
  else if name = "c".toList then "content-type".toList
  else if name = "s".toList then "subject".toList
  else if name = "k".toList then "supported".toList
  else name

/-- Does this header line have the given name, long or compact? -/
def hasName (U : Lowering) (name header : List Char) : Bool :=
  let lower := toLowercase U (trim (header.takeWhile (· ≠ ':')))
  ':' ∈ header ∧ (lower = toLowercase U name ∨ shortForm lower = toLowercase U name)

def headerValue (header : List Char) : List Char := trim ((header.dropWhile (· ≠ ':')).drop 1)

def headerValues (U : Lowering) (m : RawSipMessage) (name : List Char) : List (List Char) :=
  (m.headers.filter (hasName U name)).map headerValue

/-- The parts around the first empty line. -/
theorem splitBody_append {text body : List Char}
    (h : findSub crlfCrlf (text ++ crlfCrlf ++ body) = some text.length) :
    splitBody (text ++ crlfCrlf ++ body) = (text, body) := by
  have hlen : text.length + 4 = (text ++ crlfCrlf).length := by
    rw [List.length_append]
    rfl
  rw [splitBody, h]
  dsimp only
  rw [hlen, List.drop_left, List.append_assoc, List.take_left]

theorem headerValue_append {name rest : List Char} (h : ':' ∉ name) :
    headerValue (name ++ ':' :: rest) = trim rest := by
  have hd : (name ++ ':' :: rest).dropWhile (· ≠ ':') = ':' :: rest := by
    rw [List.dropWhile_append_of_pos]
    · rfl
    · intro c hc
      simp only [decide_eq_true_eq]
      rintro rfl
      exact h hc
  rw [headerValue, hd, List.drop_one, List.tail_cons]

end NixiSbc.RawSip
