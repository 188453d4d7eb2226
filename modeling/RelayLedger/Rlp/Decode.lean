/-
# Reading items

`Rlp.decode` accepts the encoding of one item, nothing before or after it, with lists nested at
most `Rlp.maxDepth` deep. Reading goes by frames: the header of an item tells where its payload
ends, and the payload of a list is read item by item with one level less to go. No length is
believed before the bytes that it announces are there, so `needed` in a refusal counts from the
start of the item that is cut short.

Key definitions: `Rlp.frame`, `Rlp.readItem`, `Rlp.decode`.
-/
import RelayLedger.Rlp.Item

namespace RelayLedger
namespace Rlp

/-- The deepest nesting of lists that is read. -/
def maxDepth : Nat := 16

/-- `length` bytes that start at `offset`, and what follows them. The end must be a 64-bit
number. -/
def cut (input : Bytes) (offset length : Nat) : Except Fault (Bytes × Bytes) :=
  if Word.bound 64 ≤ offset + length then .error .nonCanonicalLength
  else if offset + length ≤ input.length then
    .ok ((input.drop offset).take length, input.drop (offset + length))
  else .error (.truncated (offset + length) input.length)

/-- The length that the `count` bytes after the first one spell: without leading zeros, and at
least 56, since shorter payloads have a shorter header. -/
def longLength (input : Bytes) (count : Nat) : Except Fault Nat := do
  let (digits, _) ← cut input 1 count
  if digits.head? = some 0 then .error .nonCanonicalLength
  else if Bytes.toNat digits < 56 then .error .nonCanonicalLength
  else .ok (Bytes.toNat digits)

/-- The first item of some bytes as its header describes it, and the bytes after it. -/
structure Frame where
  isList : Bool
  payload : Bytes
  rest : Bytes

/-- The payload at `offset`, as a frame. -/
def Frame.cut (isList : Bool) (input : Bytes) (offset length : Nat) : Except Fault Frame := do
  let (payload, rest) ← Rlp.cut input offset length
  return ⟨isList, payload, rest⟩

/-- Whether a string of this one byte should have been that byte alone. -/
def hasShorterForm : Bytes → Bool
  | [b] => b < 0x80
  | _ => false

/-- Reads the header of the first item. -/
def frame : Bytes → Except Fault Frame
  | [] => .error .empty
  | b :: rest =>
    let n := b.toNat
    if n < 0x80 then .ok ⟨false, [b], rest⟩
    else if n < 0xb8 then do
      let f ← Frame.cut false (b :: rest) 1 (n - 0x80)
      if hasShorterForm f.payload then .error .nonCanonicalLength else .ok f
    else if n < 0xc0 then do
      let length ← longLength (b :: rest) (n - 0xb7)
      Frame.cut false (b :: rest) (1 + (n - 0xb7)) length
    else if n < 0xf8 then Frame.cut true (b :: rest) 1 (n - 0xc0)
    else do
      let length ← longLength (b :: rest) (n - 0xf7)
      Frame.cut true (b :: rest) (1 + (n - 0xf7)) length

/-- Whether the first item is a list. -/
def opensList : Bytes → Bool
  | [] => false
  | b :: _ => 0xc0 ≤ b

/-- Reads items until nothing is left. Each of them takes at least one byte, so `fuel` need not
exceed the number of bytes. -/
def readAll (read : Bytes → Except Fault (Item × Bytes)) : Nat → Bytes → Except Fault (List Item)
  | _, [] => .ok []
  | 0, _ :: _ => .error .empty
  | fuel + 1, s => do
    let (item, rest) ← read s
    let items ← readAll read fuel rest
    return item :: items

/-- The first item of some bytes, with lists nested at most `room` deep, and the bytes after
it. -/
def readItem : Nat → Bytes → Except Fault (Item × Bytes)
  | 0, input =>
    if opensList input then .error .tooDeep
    else do
      let f ← frame input
      return (.str f.payload, f.rest)
  | room + 1, input => do
    let f ← frame input
    if f.isList then
      let items ← readAll (readItem room) f.payload.length f.payload
      return (.list items, f.rest)
    else return (.str f.payload, f.rest)

/-- The one item that some bytes encode, and the number of its bytes. -/
def decode (input : Bytes) : Except Fault (Item × Nat) := do
  let (item, rest) ← readItem maxDepth input
  if rest.isEmpty then return (item, input.length)
  else .error (.trailingBytes rest.length)

end Rlp
end RelayLedger
