/-
# Items of the recursive length format

An item is a byte string or a list of items. Each item has one encoding, `Item.encode`: a byte
below `0x80` is itself, a payload of less than 56 bytes has its length in the first byte, and a
longer one has there the number of bytes of its length, which follows without leading zeros.
`Item.depth` is how far lists are nested in one another.

Key definitions: `Item`, `Item.encode`, `Item.depth`, `Item.word`, `Rlp.Fault`.
-/
import RelayLedger.Word

namespace RelayLedger
namespace Rlp

/-- A byte string or a list of items. -/
inductive Item
  | str (s : Bytes)
  | list (items : List Item)

/-- Why bytes are no item, or an item is not the one wanted. -/
inductive Fault
  | empty
  /-- The item ends `needed` bytes from its start, and only `available` are there. -/
  | truncated (needed available : Nat)
  /-- A length, or a single byte, that has a shorter spelling. -/
  | nonCanonicalLength
  | trailingBytes (count : Nat)
  | expectedList
  | expectedString
  | leadingZero
  | integerTooLarge (size limit : Nat)
  | tooDeep
  deriving DecidableEq

/-- The wording of a refusal. -/
def Fault.message : Fault → String
  | .empty => "RLP input is empty"
  | .truncated needed available =>
    s!"RLP item is truncated: needs {needed} bytes, {available} available"
  | .nonCanonicalLength => "RLP length prefix is not canonical"
  | .trailingBytes count => s!"RLP has {count} trailing bytes after the top-level item"
  | .expectedList => "Expected an RLP list"
  | .expectedString => "Expected an RLP string"
  | .leadingZero => "RLP integer has leading zero bytes"
  | .integerTooLarge size limit => s!"RLP integer is {size} bytes, at most {limit} allowed"
  | .tooDeep => "RLP lists are nested too deeply"

/-- The first bytes of an item with a payload of this length; `base` is `0x80` for strings and
`0xc0` for lists. -/
def header (base length : Nat) : Bytes :=
  if length < 56 then [UInt8.ofNat (base + length)]
  else UInt8.ofNat (base + 55 + Bytes.width length) :: Bytes.minimal length

/-- The encoding of a byte string. -/
def encodeString : Bytes → Bytes
  | [b] => if b < 0x80 then [b] else header 0x80 1 ++ [b]
  | s => header 0x80 s.length ++ s

mutual

/-- The encoding of an item. -/
def Item.encode : Item → Bytes
  | .str s => encodeString s
  | .list items => header 0xc0 (encodeAll items).length ++ encodeAll items

/-- The encodings of items, one after another. -/
def encodeAll : List Item → Bytes
  | [] => []
  | item :: items => item.encode ++ encodeAll items

end

mutual

/-- How many lists lie around the innermost part of an item, the item itself included. -/
def Item.depth : Item → Nat
  | .str _ => 0
  | .list items => depthAll items + 1

/-- The greatest depth of some items. -/
def depthAll : List Item → Nat
  | [] => 0
  | item :: items => max item.depth (depthAll items)

end

namespace Item

/-- The bytes of a string. -/
def bytes : Item → Except Fault Bytes
  | .str s => .ok s
  | .list _ => .error .expectedString

/-- The items of a list. -/
def items : Item → Except Fault (List Item)
  | .list items => .ok items
  | .str _ => .error .expectedList

/-- The number that a string spells without leading zeros, in at most `bits / 8` bytes. -/
def word (bits : Nat) (item : Item) : Except Fault (Word bits) := do
  let s ← item.bytes
  if bits / 8 < s.length then .error (.integerTooLarge s.length (bits / 8))
  else if s.head? = some 0 then .error .leadingZero
  else .ok (Word.ofBytes s)

/-- The item of a number: its shortest string. -/
def ofWord {bits : Nat} (w : Word bits) : Item := .str (Bytes.minimal w.toNat)

end Item
end Rlp
end RelayLedger
