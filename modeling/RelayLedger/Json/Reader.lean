/-
# Lists and objects

`elements` and `entries` read what stands between the brackets of a list and the braces of an
object, given a reader for what stands in them. Every turn takes at least one byte, so the number
of bytes bounds the turns (`fuel`). Lists and objects nest at most `maxNesting` deep; a reader is
told by `room` how many levels are left. `skipValue` goes past a value nobody asked for and looks
only at its outline.

Key definitions: `Json.Reader`, `Json.elements`, `Json.entries`, `Json.skipValue`.
-/
import RelayLedger.Json.Lexeme

namespace RelayLedger
namespace Json

/-- Takes the levels left and the bytes left, and gives a value and the bytes after it. -/
abbrev Reader (α : Type) := Nat → Bytes → Except Reason (α × Bytes)

/-- How deep lists and objects may be nested. -/
def maxNesting : Nat := 127

/-- Where the next element of a list starts, and whether a bare element may still follow. `b` is
the first byte that is not blank. A comma may stand in front of any element, and must stand in
front of every bare element but the first. -/
def elementStart (first : Bool) (b : UInt8) (rest : Bytes) : Except Reason (Bool × Bytes) :=
  if b = comma then
    match skipBlank rest with
    | [] => .error .endOfValue
    | c :: _ => if c = closeBracket then .error .trailingComma else .ok (first, rest)
  else if first then .ok (false, b :: rest)
  else .error .expectedListEnd

/-- Reads the elements of a list up to its closing bracket. -/
def elements {α : Type} (read : Bytes → Except Reason (α × Bytes)) :
    Nat → Bool → Bytes → Except Reason (List α × Bytes)
  | 0, _, _ => .error .endOfList
  | fuel + 1, first, s =>
    match skipBlank s with
    | [] => .error .endOfList
    | b :: rest =>
      if b = closeBracket then .ok ([], rest)
      else do
        let (first, s) ← elementStart first b rest
        let (a, s) ← read s
        let (as, s) ← elements read fuel first s
        return (a :: as, s)

/-- Where the next key of an object starts; every entry but the first has a comma in front. -/
def keyStart (first : Bool) (b : UInt8) (rest : Bytes) : Except Reason Bytes := do
  let s ← if first then .ok (b :: rest)
    else if b = comma then .ok (skipBlank rest)
    else .error .expectedObjectEnd
  match s with
  | [] => .error .endOfValue
  | c :: rest =>
    if c = quoteByte then .ok (c :: rest)
    else if c = closeBrace then .error .trailingComma
    else .error .keyNotString

/-- Reads the entries of an object up to its closing brace. `entry` is given the key and the bytes
from the colon on. -/
def entries {σ : Type} (entry : String → σ → Bytes → Except Reason (σ × Bytes)) :
    Nat → Bool → σ → Bytes → Except Reason (σ × Bytes)
  | 0, _, _, _ => .error .endOfObject
  | fuel + 1, first, state, s =>
    match skipBlank s with
    | [] => .error .endOfObject
    | b :: rest =>
      if b = closeBrace then .ok (state, rest)
      else do
        let s ← keyStart first b rest
        let (key, s) ← readString s
        let (state, s) ← entry key state s
        entries entry fuel false state s

/-- Reads a list with a reader for its elements. -/
def readList {α : Type} (read : Reader α) : Reader (List α) := fun room s =>
  match skipBlank s with
  | [] => .error .endOfValue
  | b :: rest =>
    if b = openBracket then
      match room with
      | 0 => .error .tooNested
      | room + 1 => elements (read room) (rest.length + 1) true rest
    else .error .wrongType

/-- Reads an object from an initial state, with a reader for its entries. -/
def readObject {σ : Type} (start : σ)
    (entry : Nat → String → σ → Bytes → Except Reason (σ × Bytes)) : Reader σ := fun room s =>
  match skipBlank s with
  | [] => .error .endOfValue
  | b :: rest =>
    if b = openBrace then
      match room with
      | 0 => .error .tooNested
      | room + 1 => entries (entry room) (rest.length + 1) true start rest
    else .error .wrongType

/-- Whether a byte ends a value that is skipped. -/
def endsSkipped (b : UInt8) : Bool := b == comma || b == closeBrace || b == closeBracket

/-- Goes past a number or a word: up to the next comma or closing bracket, whatever stands
there. -/
def skipScalar (s : Bytes) : Except Reason (Unit × Bytes) :=
  match s.dropWhile (!endsSkipped ·) with
  | [] => .error .endOfString
  | b :: rest => .ok ((), b :: rest)

/-- Goes past a value. -/
def skipValue : Reader Unit
  | room, s =>
    match skipBlank s with
    | [] => .error .endOfValue
    | b :: rest =>
      if b = quoteByte then (readString (b :: rest)).map fun (_, after) => ((), after)
      else if b = openBracket then
        match room with
        | 0 => .error .tooNested
        | room + 1 =>
          (elements (skipValue room) (rest.length + 1) true rest).map fun (_, after) => ((), after)
      else if b = openBrace then
        match room with
        | 0 => .error .tooNested
        | room + 1 =>
          let entry := fun (_ : String) (_ : Unit) s => do skipValue room (← readColon s)
          entries entry (rest.length + 1) true () rest
      else if endsSkipped b then .error .expectedValue
      else skipScalar rest

end Json
end RelayLedger
