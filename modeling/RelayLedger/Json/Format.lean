/-
# Formats: how the values of a type are written and read

A `Format` is a writer and a reader for the same type. Leaves are strings, numbers and truth
values; `Format.option`, `Format.list` and `Format.map` build on another format. Numbers that do
not fit into 64 bits, bytes and identifiers are spelled as strings.

Key definitions: `Json.Format`, `Json.Format.spelled`, `Json.Format.option`, `Json.Format.list`,
`Json.Format.map`.
-/
import RelayLedger.ChainAddress
import RelayLedger.Json.Reader
import RelayLedger.OrderedMap
import RelayLedger.Text.Base64

namespace RelayLedger
namespace Json

/-- How the values of a type are written and read. -/
structure Format (α : Type) where
  write : α → Bytes
  read : Reader α
  /-- The value of a field that is not there, if it may be left out. -/
  absent : Option α := none

namespace Format

variable {α β : Type}

/-! ### Leaves -/

/-- Any text. -/
def text : Format String where
  write := escape
  read _ s := readString s

/-- A text that spells a value of another type. -/
def spelled (spell : α → String) (parse : String → Except Reason α) : Format α where
  write a := escape (spell a)
  read _ s := do
    let (t, after) ← readString s
    let a ← parse t
    return (a, after)

/-- A number of at most so many bits. -/
def word (bits : Nat) : Format (Word bits) where
  write w := digits w.toNat
  read _ s := readWord bits s

/-- A truth value. -/
def bool : Format Bool where
  write b := utf8 (toString b)
  read _ s := readBool s

/-- A number of at most so many bits, as decimal text. -/
def numeral (bits : Nat) : Format (Word bits) :=
  spelled toString fun t => (Numeral.parse bits t).mapError (.numeral t)

/-- Bytes as base64 text. -/
def base64 : Format Bytes :=
  spelled Base64.encode fun t => (Base64.decode t).elim (.error (.notBase64 t)) .ok

/-- An identifier as hexadecimal text. -/
def fixed (kind : FixedKind) : Format (Fixed kind) :=
  spelled Fixed.toString fun t => (Fixed.parse kind t).mapError .fixed

/-- The format of a type that has the same values under other names. -/
def renamed (f : Format α) (make : α → β) (parts : β → α) : Format β where
  write b := f.write (parts b)
  read room s := (f.read room s).map fun (a, after) => (make a, after)
  absent := f.absent.map make

/-- An address of the hosting chain, as any text. -/
def chainAddress : Format ChainAddress := text.renamed ChainAddress.mk ChainAddress.text

/-- The format of a field that may be left out. -/
def withDefault (f : Format α) (a : α) : Format α := { f with absent := some a }

/-! ### Options, lists and maps -/

/-- A value or `null`; as a field it may be left out. -/
def option (f : Format α) : Format (Option α) where
  write
    | none => utf8 "null"
    | some a => f.write a
  read room s :=
    match skipBlank s with
    | [] => .error .endOfValue
    | b :: rest =>
      if b = 110 then (readWordTail (utf8 "ull") rest).map fun after => (none, after)
      else (f.read room (b :: rest)).map fun (a, after) => (some a, after)
  absent := some none

/-- Written parts with commas between them. -/
def commaSeparated : List Bytes → Bytes
  | [] => []
  | [a] => a
  | a :: b :: rest => a ++ comma :: commaSeparated (b :: rest)

/-- Values in order. -/
def list (f : Format α) : Format (List α) where
  write l := openBracket :: commaSeparated (l.map f.write) ++ [closeBracket]
  read := readList f.read

/-- An entry of an object, written. -/
def writeEntry (key : String) (value : Bytes) : Bytes := escape key ++ colon :: value

/-- An object of the given entries, written. -/
def writeObject (l : List (String × Bytes)) : Bytes :=
  openBrace :: commaSeparated (l.map fun (key, value) => writeEntry key value) ++ [closeBrace]

/-- Values by name. A name that is repeated keeps its last value. -/
def map (f : Format α) : Format (OrderedMap String α) where
  write m := writeObject (m.toList.map fun (key, a) => (key, f.write a))
  read := readObject ∅ fun room key m s => do
    let (a, after) ← f.read room (← readColon s)
    return (m.insert key a, after)

end Format

end Json
end RelayLedger
