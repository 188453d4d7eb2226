/-
# Decimal text of words

A word is read from decimal digits, with at most one plus sign in front and any number of leading
zeros. Digits are taken in groups of nineteen, the first group being the short one, and the first
group that holds something other than digits, or that does not fit, decides what is reported; so a
long text may be too large before its bad digit is seen (`Numeral.badDigitFault`).

Key definitions: `Numeral.parse`, `Numeral.Fault`.
-/
import RelayLedger.Word
import RelayLedger.Text.Utf8

namespace RelayLedger
namespace Numeral

/-- Why a text does not spell a word. -/
inductive Fault
  | empty
  | badDigit
  | tooLarge
  deriving DecidableEq

/-- The wording of a refusal. -/
def Fault.message : Fault → String
  | .empty => "Parsing u256: received empty string"
  | .badDigit =>
    "Parsing u256: (bnum) attempt to parse integer from string containing invalid digit"
  | .tooLarge =>
    "Parsing u256: (bnum) attempt to parse integer too large to be represented by the target type"

/-- Whether a byte is a decimal digit. -/
def isDigit (b : UInt8) : Bool := 48 ≤ b && b ≤ 57

/-- The number that a run of digits spells. -/
def value (digits : Bytes) : Nat := digits.foldl (fun n b => n * 10 + (b.toNat - 48)) 0

/-- How many bytes are read together. -/
def groupSize : Nat := 19

/-- By how much a number grows when a group is put behind it. -/
def groupScale : Nat := 10000000000000000000

/-- How many of the first `place` bytes of a text of length `size` lie in groups that end at or
before `place`. -/
def groupStart (size place : Nat) : Nat :=
  let short := if size % groupSize = 0 then groupSize else size % groupSize
  if place < short then 0 else short + (place - short) / groupSize * groupSize

/-- What is reported of a text with a byte that is no digit: the groups before the first such byte
are shifted to make room for its group, and may then not fit. -/
def badDigitFault (bits : Nat) (text : Bytes) : Fault :=
  let start := groupStart text.length (text.takeWhile isDigit).length
  if Word.bound bits ≤ value (text.take start) * groupScale then .tooLarge else .badDigit

/-- The text without its plus sign. -/
def unsigned : Bytes → Bytes
  | [] => []
  | b :: rest => if b = 43 then rest else b :: rest

/-- The word that a decimal text spells. -/
def parse (bits : Nat) (text : String) : Except Fault (Word bits) :=
  let s := utf8 text
  let body := unsigned s
  if s.isEmpty then .error .empty
  else if body.isEmpty then .error .badDigit
  else if body.all isDigit then
    match Word.ofNat? (value body) with
    | some w => .ok w
    | none => .error .tooLarge
  else .error (badDigitFault bits body)

end Numeral
end RelayLedger
