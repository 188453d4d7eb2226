/-
# The smallest parts of a JSON text

Blanks, strings, numbers and the three words. A reader takes the bytes that are left and gives what
it read together with the bytes after it. A string is first cut out up to its closing quote, then
its escapes are resolved, then it must be UTF-8, so of two faults the one met first in this order
is reported. Bytes below 32 are refused where escapes are resolved, so a string without any escape
may hold them. `escape` is the writing of a string.

Key definitions: `Json.unescape`, `Json.readString`, `Json.readWord`, `Json.escape`.
-/
import RelayLedger.Json.Reason

namespace RelayLedger
namespace Json

/-! ### Punctuation -/

/-- The double quote. -/
def quoteByte : UInt8 := 34

def comma : UInt8 := 44

def colon : UInt8 := 58

def backslash : UInt8 := 92

def openBracket : UInt8 := 91

def closeBracket : UInt8 := 93

def openBrace : UInt8 := 123

def closeBrace : UInt8 := 125

/-- Space, tab, line feed and carriage return. -/
def isBlank (b : UInt8) : Bool := b == 32 || b == 9 || b == 10 || b == 13

/-- The bytes from the first one on that is not blank. -/
def skipBlank (s : Bytes) : Bytes := s.dropWhile isBlank

/-! ### Strings -/

/-- What stands before the closing quote, escapes unresolved, and the bytes after the quote. -/
def cutString : Bytes → Option (Bytes × Bytes)
  | [] => none
  | b :: rest =>
    if b = quoteByte then some ([], rest)
    else if b = backslash then
      match rest with
      | [] => none
      | c :: rest => (cutString rest).map fun (raw, after) => (b :: c :: raw, after)
    else (cutString rest).map fun (raw, after) => (b :: raw, after)

/-- The byte that an escape of one letter stands for. -/
def simpleEscape (b : UInt8) : Option UInt8 :=
  if b = 34 ∨ b = 92 ∨ b = 47 then some b
  else if b = 98 then some 8
  else if b = 102 then some 12
  else if b = 110 then some 10
  else if b = 114 then some 13
  else if b = 116 then some 9
  else none

/-- The value of a hexadecimal digit of an escape. -/
def hexDigit (b : UInt8) : Except Reason Nat :=
  if b < 32 then .error .controlInString
  else match Hex.value? b with
    | some n => .ok n
    | none => .error .badEscape

/-- The number that four hexadecimal digits spell. -/
def hexUnit (s : Bytes) : Except Reason Nat := do
  let values ← s.mapM hexDigit
  if values.length = 4 then return values.foldl (fun n v => n * 16 + v) 0
  else .error .badEscape

/-- The UTF-8 bytes of a code point. -/
def codePoint (n : Nat) : Bytes := String.utf8EncodeChar (Char.ofNat n)

/-- What an escape with this number adds to a text, when `pending` is the first half of a pair that
waits for its second half; and which half waits after it. Numbers that are no half of a pair add
their own character and leave the waiting half alone. -/
def addUnit (pending : Option Nat) (unit : Nat) : Except Reason (Option Nat × Bytes) :=
  if unit < 0xD800 ∨ 0xE000 ≤ unit then .ok (pending, codePoint unit)
  else match pending with
    | none => if unit < 0xDC00 then .ok (some unit, []) else .error .expectedHighSurrogate
    | some high =>
      if unit < 0xDC00 then .error .expectedLowSurrogate
      else .ok (none, codePoint (0x10000 + (high - 0xD800) * 0x400 + (unit - 0xDC00)))

/-- Resolves escapes. `pending` is the first half of a pair that waits for its second half: other
escapes may come in between, but neither a bare byte nor the end. -/
def unescape : Option Nat → Bytes → Except Reason Bytes
  | none, [] => .ok []
  | some _, [] => .error .loneSurrogate
  | pending, b :: rest =>
    if b < 32 then .error .controlInString
    else if b = backslash then
      match rest with
      | [] => .error .badEscape
      | e :: rest =>
        if e < 32 then .error .controlInString
        else match simpleEscape e with
          | some c => (unescape pending rest).map (c :: ·)
          | none =>
            if e = 117 then
              match rest with
              | h₁ :: h₂ :: h₃ :: h₄ :: rest => do
                let unit ← hexUnit [h₁, h₂, h₃, h₄]
                let (pending, s) ← addUnit pending unit
                (unescape pending rest).map (s ++ ·)
              | short => do
                let _ ← hexUnit short
                .error .badEscape
            else .error .badEscape
    else match pending with
      | none => (unescape none rest).map (b :: ·)
      | some _ => .error .loneSurrogate

/-- The bytes of what stands between quotes. Without an escape they are taken as they are. -/
def resolve (raw : Bytes) : Except Reason Bytes :=
  if raw.contains backslash then unescape none raw else .ok raw

/-- Reads a string. -/
def readString (s : Bytes) : Except Reason (String × Bytes) :=
  match skipBlank s with
  | [] => .error .endOfValue
  | b :: rest =>
    if b = quoteByte then
      match cutString rest with
      | none => .error .endOfString
      | some (raw, after) => do
        let text ← resolve raw
        match ofUtf8? text with
        | some text => return (text, after)
        | none => .error .badCodePoint
    else .error .wrongType

/-- The escape of a byte that cannot stand in a string as it is. -/
def escapeByte (b : UInt8) : Bytes :=
  if b = 34 ∨ b = 92 then [backslash, b]
  else if b = 8 then [backslash, 98]
  else if b = 9 then [backslash, 116]
  else if b = 10 then [backslash, 110]
  else if b = 12 then [backslash, 102]
  else if b = 13 then [backslash, 114]
  else if b < 32 then [backslash, 117, 48, 48] ++ utf8 (Hex.upperPair b)
  else [b]

/-- Writes a string: quotes around it, and escapes only where they are needed. -/
def escape (text : String) : Bytes :=
  quoteByte :: (utf8 text).flatMap escapeByte ++ [quoteByte]

/-! ### Numbers and words -/

/-- Reads the digits of a number: a zero stands alone, other numbers go on to the first byte that
is no digit. -/
def readDigits : Bytes → Except Reason (Nat × Bytes)
  | [] => .error .endOfValue
  | b :: rest =>
    if b = 48 then .ok (0, rest)
    else if Numeral.isDigit b then
      .ok (Numeral.value ((b :: rest).takeWhile Numeral.isDigit),
        (b :: rest).dropWhile Numeral.isDigit)
    else .error .wrongType

/-- Reads a number of at most so many bits. -/
def readWord (bits : Nat) (s : Bytes) : Except Reason (Word bits × Bytes) :=
  match skipBlank s with
  | [] => .error .endOfValue
  | b :: rest => do
    if b = 45 then .error .badNumber
    else
      let (n, after) ← readDigits (b :: rest)
      match Word.ofNat? n with
      | some w => return (w, after)
      | none => .error .badNumber

/-- Reads a whole number with an optional minus sign, directly before the digits. -/
def readInt (s : Bytes) : Except Reason (Int × Bytes) :=
  match skipBlank s with
  | [] => .error .endOfValue
  | b :: rest => do
    if b = 45 then
      let (n, after) ← readDigits rest
      return (-(n : Int), after)
    else
      let (n, after) ← readDigits (b :: rest)
      return ((n : Int), after)

/-- The digits of a number. -/
def digits (n : Nat) : Bytes := (Nat.toDigits 10 n).map fun c => UInt8.ofNat c.toNat

/-- Goes past the letters that must follow. -/
def readWordTail (letters : Bytes) (s : Bytes) : Except Reason Bytes :=
  if letters.isPrefixOf s then .ok (s.drop letters.length) else .error .expectedWord

/-- Reads `true` or `false`. -/
def readBool (s : Bytes) : Except Reason (Bool × Bytes) :=
  match skipBlank s with
  | [] => .error .endOfValue
  | b :: rest => do
    if b = 116 then
      let after ← readWordTail (utf8 "rue") rest
      return (true, after)
    else if b = 102 then
      let after ← readWordTail (utf8 "alse") rest
      return (false, after)
    else .error .wrongType

/-- Goes past a colon. -/
def readColon (s : Bytes) : Except Reason Bytes :=
  match skipBlank s with
  | [] => .error .endOfObject
  | b :: rest => if b = colon then .ok rest else .error .expectedColon

end Json
end RelayLedger
