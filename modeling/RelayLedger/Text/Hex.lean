/-
# Hexadecimal text

Bytes are written as two lower-case digits each and read back from digits of either case. Reading
works on the bytes of the text: an odd number of them is refused first, and otherwise the first
byte that is no digit is named with its place.

Key definitions: `Hex.encode`, `Hex.decode`, `Hex.Fault`.
-/
import RelayLedger.Text.Utf8

namespace RelayLedger
namespace Hex

/-- Why a text is not hexadecimal. -/
inductive Fault
  /-- The number of bytes is odd. -/
  | oddLength
  /-- The byte at this place is no digit. -/
  | badDigit (byte : UInt8) (place : Nat)
  deriving DecidableEq

/-- The lower-case digit of a number below sixteen. -/
def digit (n : Nat) : Char := if n < 10 then Char.ofNat (48 + n) else Char.ofNat (87 + n)

/-- The upper-case digit of a number below sixteen. -/
def upperDigit (n : Nat) : Char := if n < 10 then Char.ofNat (48 + n) else Char.ofNat (55 + n)

/-- The value of a digit of either case. -/
def value? (b : UInt8) : Option Nat :=
  let n := b.toNat
  if 48 ≤ n ∧ n ≤ 57 then some (n - 48)
  else if 97 ≤ n ∧ n ≤ 102 then some (n - 87)
  else if 65 ≤ n ∧ n ≤ 70 then some (n - 55)
  else none

/-- The two digits of a byte. -/
def pair (b : UInt8) : List Char := [digit (b.toNat / 16), digit (b.toNat % 16)]

/-- Two lower-case digits for each byte. -/
def encode (s : Bytes) : String := String.ofList (s.flatMap pair)

/-- Two upper-case digits for a byte. -/
def upperPair (b : UInt8) : String :=
  String.ofList [upperDigit (b.toNat / 16), upperDigit (b.toNat % 16)]

/-- Reads pairs of digits; `place` is where the first of them stands. -/
def decodeFrom : Nat → Bytes → Except Fault Bytes
  | _, [] => .ok []
  | _, [_] => .error .oddLength
  | place, a :: b :: rest =>
    match value? a, value? b with
    | some x, some y => do
      let tail ← decodeFrom (place + 2) rest
      return UInt8.ofNat (16 * x + y) :: tail
    | some _, none => .error (.badDigit b (place + 1))
    | none, _ => .error (.badDigit a place)

/-- The bytes that a text of hexadecimal digits, given by its own bytes, stands for. -/
def decode (text : Bytes) : Except Fault Bytes :=
  if text.length % 2 = 1 then .error .oddLength else decodeFrom 0 text

/-- How a byte is quoted in a message: between single quotes as the character of that number, with
an escape where the character cannot be printed or would end the quotation. -/
def quote (b : UInt8) : String :=
  let body :=
    if b = 0 then "\\0"
    else if b = 9 then "\\t"
    else if b = 10 then "\\n"
    else if b = 13 then "\\r"
    else if b = 39 then "\\'"
    else if b = 92 then "\\\\"
    else if b < 32 ∨ (127 ≤ b ∧ b ≤ 160) ∨ b = 173 then
      "\\u\x7b" ++ String.ofList (Nat.toDigits 16 b.toNat) ++ "\x7d"
    else String.singleton (Char.ofNat b.toNat)
  "'" ++ body ++ "'"

/-- The wording of a refusal. -/
def Fault.message : Fault → String
  | .oddLength => "Odd number of digits"
  | .badDigit byte place => s!"Invalid character {quote byte} at position {place}"

end Hex
end RelayLedger
