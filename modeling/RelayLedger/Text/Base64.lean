/-
# Base64 text

The standard alphabet. Writing pads to a multiple of four symbols. Reading takes the padding that
belongs there or any shorter one, also none, and refuses a last symbol whose unused bits are set,
so that each byte string has one spelling up to padding.

Key definitions: `Base64.encode`, `Base64.decode`.
-/
import RelayLedger.Bytes

namespace RelayLedger
namespace Base64

/-- The symbol of a number below sixty-four. -/
def symbol (n : Nat) : Char :=
  if n < 26 then Char.ofNat (65 + n)
  else if n < 52 then Char.ofNat (71 + n)
  else if n < 62 then Char.ofNat (n - 4)
  else if n = 62 then '+' else '/'

/-- The number of a symbol. -/
def value? (c : Char) : Option Nat :=
  let n := c.toNat
  if 65 ≤ n ∧ n ≤ 90 then some (n - 65)
  else if 97 ≤ n ∧ n ≤ 122 then some (n - 71)
  else if 48 ≤ n ∧ n ≤ 57 then some (n + 4)
  else if c = '+' then some 62
  else if c = '/' then some 63
  else none

/-- Four symbols for each three bytes, padded at the end. -/
def encodeChars : Bytes → List Char
  | [] => []
  | [a] => [symbol (a.toNat / 4), symbol (a.toNat % 4 * 16), '=', '=']
  | [a, b] =>
    [symbol (a.toNat / 4), symbol (a.toNat % 4 * 16 + b.toNat / 16),
      symbol (b.toNat % 16 * 4), '=']
  | a :: b :: c :: rest =>
    symbol (a.toNat / 4) :: symbol (a.toNat % 4 * 16 + b.toNat / 16) ::
      symbol (b.toNat % 16 * 4 + c.toNat / 64) :: symbol (c.toNat % 64) :: encodeChars rest

/-- The base64 text of a byte string. -/
def encode (s : Bytes) : String := String.ofList (encodeChars s)

/-- The bytes that a run of six-bit numbers holds; bits left over at the end must be zero. -/
def join : List Nat → Option Bytes
  | [] => some []
  | [_] => none
  | [a, b] => if b % 16 = 0 then some [UInt8.ofNat (a * 4 + b / 16)] else none
  | [a, b, c] =>
    if c % 4 = 0 then
      some [UInt8.ofNat (a * 4 + b / 16), UInt8.ofNat (b % 16 * 16 + c / 4)]
    else none
  | a :: b :: c :: d :: rest =>
    (join rest).map fun tail =>
      UInt8.ofNat (a * 4 + b / 16) :: UInt8.ofNat (b % 16 * 16 + c / 4) ::
        UInt8.ofNat (c % 4 * 64 + d) :: tail

/-- The bytes that a list of base64 characters stands for. -/
def decodeChars (cs : List Char) : Option Bytes :=
  let body := cs.takeWhile (· != '=')
  let padding := cs.dropWhile (· != '=')
  if padding.all (· == '=') ∧ padding.length ≤ (4 - body.length % 4) % 4 then
    (body.mapM value?).bind join
  else none

/-- The bytes that a base64 text stands for. -/
def decode (text : String) : Option Bytes := decodeChars text.toList

end Base64
end RelayLedger
