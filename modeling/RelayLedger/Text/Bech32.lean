/-
# Bech32 text

A Bech32 text is a human part, a `1`, and data symbols of five bits each, the last six of which are
a checksum over both. `Bech32.encode` writes a byte string under a human part in lower case;
`Bech32.decode` reads any text in one case whose checksum is right and gives the human part and
the bytes, dropping the bits that do not fill a byte.

Key definitions: `Bech32.checksum`, `Bech32.encode`, `Bech32.decode`.
-/
import RelayLedger.Bytes

namespace RelayLedger
namespace Bech32

/-- The symbols of five-bit numbers, in order. -/
def alphabet : List Char :=
  ['q', 'p', 'z', 'r', 'y', '9', 'x', '8', 'g', 'f', '2', 't', 'v', 'd', 'w', '0',
   's', '3', 'j', 'n', '5', '4', 'k', 'h', 'c', 'e', '6', 'm', 'u', 'a', '7', 'l']

/-- The symbol of a number below thirty-two. -/
def symbol (n : Nat) : Char := alphabet.getD n 'q'

/-- The number of a symbol of either case. -/
def value? (c : Char) : Option Nat :=
  let n := alphabet.idxOf c.toLower
  if n < 32 then some n else none

/-- The generator polynomial: what is added for each bit that leaves the top of the remainder. -/
def generator : List Nat := [0x3b6a57b2, 0x26508e6d, 0x1ea119fa, 0x3d4233dd, 0x2a1462b3]

/-- One step of the division by the generator polynomial. -/
def divide (remainder : Nat) (value : Nat) : Nat :=
  let top := remainder >>> 25
  generator.zipIdx.foldl (fun r g => if top.testBit g.2 then r ^^^ g.1 else r)
    (((remainder % (1 <<< 25)) <<< 5) ^^^ value)

/-- The remainder of a run of five-bit numbers; a right checksum leaves one. -/
def remainder (values : List Nat) : Nat := values.foldl divide 1

/-- The human part as the checksum sees it: high bits, a zero, low bits. -/
def expand (human : List Char) : List Nat :=
  human.map (·.toNat / 32) ++ 0 :: human.map (·.toNat % 32)

/-- The six symbols that make the remainder one. -/
def checksum (human : List Char) (data : List Nat) : List Nat :=
  let r := remainder (expand human ++ data ++ [0, 0, 0, 0, 0, 0]) ^^^ 1
  [25, 20, 15, 10, 5, 0].map fun shift => (r >>> shift) % 32

/-- Regroups eight-bit numbers into five-bit numbers, filling up with zero bits at the end; `held`
has the `count` bits not yet written, `count < 5`. -/
def toFives : Nat → Nat → Bytes → List Nat
  | held, count, [] => if count = 0 then [] else [held <<< (5 - count)]
  | held, count, b :: rest =>
    let all := held * 256 + b.toNat
    let size := count + 8
    if size < 10 then
      all >>> (size - 5) :: toFives (all % (1 <<< (size - 5))) (size - 5) rest
    else
      all >>> (size - 5) :: (all >>> (size - 10)) % 32 ::
        toFives (all % (1 <<< (size - 10))) (size - 10) rest

/-- Regroups five-bit numbers into bytes, dropping the bits left over; `held` has the `count` bits
not yet written, `count < 8`. -/
def toEights : Nat → Nat → List Nat → Bytes
  | _, _, [] => []
  | held, count, v :: rest =>
    let all := held * 32 + v
    let size := count + 5
    if size < 8 then toEights all size rest
    else UInt8.ofNat (all >>> (size - 8)) :: toEights (all % (1 <<< (size - 8))) (size - 8) rest

/-- The lower-case text of a byte string under a human part. -/
def encode (human : List Char) (s : Bytes) : String :=
  let data := toFives 0 0 s
  String.ofList (human ++ '1' :: (data ++ checksum human data).map symbol)

/-- Splits at the last `1`. -/
def split (cs : List Char) : Option (List Char × List Char) :=
  let tail := cs.reverse.takeWhile (· != '1')
  match cs.reverse.dropWhile (· != '1') with
  | [] => none
  | _ :: head => some (head.reverse, tail.reverse)

/-- Whether capitals and small letters occur together. -/
def mixedCase (cs : List Char) : Bool := cs.any Char.isUpper && cs.any Char.isLower

/-- Whether a list of characters can be a human part. -/
def validHuman (cs : List Char) : Bool :=
  decide (1 ≤ cs.length) && decide (cs.length ≤ 83) &&
    cs.all fun c => decide (33 ≤ c.toNat) && decide (c.toNat ≤ 126)

/-- The longest text with a checksum that still finds every small error. -/
def maxLength : Nat := 1023

/-- The human part, in lower case, and the bytes of a text with a right checksum. -/
def decode (text : String) : Option (List Char × Bytes) := do
  let cs := text.toList
  let (human, symbols) ← split cs
  let values ← symbols.mapM value?
  if mixedCase cs || !validHuman human || decide (maxLength < cs.length) ||
      decide (values.length < 6) then none
  else
    let lower := human.map Char.toLower
    if remainder (expand lower ++ values) = 1 then
      some (lower, toEights 0 0 (values.take (values.length - 6)))
    else none

end Bech32
end RelayLedger
