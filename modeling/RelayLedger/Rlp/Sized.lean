/-
# Reading items in 64-bit sizes

`Rlp.readItem` hands on the bytes behind an item. A machine counts the bytes of the item instead, in
numbers of 64 bits, and can go wrong where `Rlp.readItem` cannot: an index or a slice may lie
outside the bytes, a number may not fit, a round of the loop over a list may leave as many bytes as
it found, and lists may be entered ever deeper. Here the same rules are spelled out with each of
these steps guarded. One that goes wrong is a `Sized.Trap`; it is told apart from a refusal, which
is an answer.

Key definitions: `Sized.Trap`, `Sized.announced`, `Sized.items`, `Sized.item`.
-/
import RelayLedger.Rlp.Decode

namespace RelayLedger
namespace Rlp
namespace Sized

/-- What a machine must never do. -/
inductive Trap
  /-- Take a byte or a slice that is not there. -/
  | outOfRange
  /-- Compute a number that its type cannot hold. -/
  | overflow
  /-- End a round of the loop with no fewer bytes than before. -/
  | noProgress
  /-- Enter a list below the deepest level. -/
  | tooManyLevels
  deriving DecidableEq

/-- Why there is no item: a step went wrong, or the bytes are refused. -/
inductive Stop
  | trap (trap : Trap)
  | refused (fault : Fault)
  deriving DecidableEq

/-! ### Guarded steps -/

/-- The value, or a step that went wrong. -/
def orTrap {α : Type} (trap : Trap) : Option α → Except Stop α
  | some a => .ok a
  | none => .error (.trap trap)

/-- The byte at a position. -/
def byteAt (s : Bytes) (position : Nat) : Except Stop UInt8 := orTrap .outOfRange s[position]?

/-- The bytes from one position to another, if both are in range and in order. -/
def range? (s : Bytes) (start stop : Nat) : Option Bytes :=
  if start ≤ stop ∧ stop ≤ s.length then some ((s.take stop).drop start) else none

/-- The bytes from one position to another. -/
def slice (s : Bytes) (start stop : Nat) : Except Stop Bytes :=
  orTrap .outOfRange (range? s start stop)

/-- A number in 64 bits. -/
def fit (n : Nat) : Except Stop (Word 64) := orTrap .overflow (Word.ofNat? n)

/-- The sum of two sizes. -/
def add (a b : Word 64) : Except Stop (Word 64) := orTrap .overflow (a.add? b)

/-- How far a first byte lies above a base. -/
def above (b : UInt8) (base : Nat) : Except Stop (Word 64) :=
  if base ≤ b.toNat then fit (b.toNat - base) else .error (.trap .overflow)

/-- A length with one more byte behind it. -/
def shiftIn (n : Word 64) (b : UInt8) : Except Stop (Word 64) := fit (n.toNat * 256 + b.toNat)

/-! ### Headers -/

/-- The size of a first byte. -/
def one : Word 64 := ⟨1, by decide⟩

/-- The `length` bytes from `offset` that a header announces. The bytes are refused if these are not
there, or if they would end beyond the 64-bit sizes. -/
def announced (input : Bytes) (offset length : Word 64) : Except Stop Bytes :=
  match offset.add? length with
  | none => .error (.refused .nonCanonicalLength)
  | some stop =>
    match range? input offset.toNat stop.toNat with
    | some payload => .ok payload
    | none => .error (.refused (.truncated stop.toNat input.length))

/-- The length that the `count` bytes after the first one spell. -/
def longLength (input : Bytes) (count : Word 64) : Except Stop (Word 64) := do
  let digits ← announced input one count
  let first ← byteAt digits 0
  if first = 0 ∨ 8 < count.toNat then .error (.refused .nonCanonicalLength)
  else do
    let length ← digits.foldlM shiftIn 0
    if length.toNat < 56 then .error (.refused .nonCanonicalLength) else .ok length

/-- The item that `build` makes of the `length` bytes from `offset`, and the size of both. -/
def itemAt (input : Bytes) (offset length : Word 64) (build : Bytes → Except Stop Item) :
    Except Stop (Item × Word 64) := do
  let payload ← announced input offset length
  let t ← build payload
  let consumed ← add offset length
  return (t, consumed)

/-- An item whose length stands in the `count` bytes after the first one. -/
def longItemAt (input : Bytes) (count : Word 64) (build : Bytes → Except Stop Item) :
    Except Stop (Item × Word 64) := do
  let length ← longLength input count
  let offset ← add one count
  itemAt input offset length build

/-- The string of a short header: not a single byte that stands for itself. -/
def shortString (length : Word 64) (payload : Bytes) : Except Stop Item :=
  if length.toNat = 1 then do
    let b ← byteAt payload 0
    if b < 0x80 then .error (.refused .nonCanonicalLength) else .ok (.str payload)
  else .ok (.str payload)

/-- The first item of some bytes that lie inside `depth` lists; `enter` makes a list of its
payload. -/
def itemBy (enter : Bytes → Except Stop Item) (depth : Nat) : Bytes → Except Stop (Item × Word 64)
  | [] => .error (.refused .empty)
  | b :: rest =>
    let n := b.toNat
    if 0xc0 ≤ n ∧ maxDepth ≤ depth then .error (.refused .tooDeep)
    else if n < 0x80 then do
      let payload ← slice (b :: rest) 0 1
      return (.str payload, one)
    else if n < 0xb8 then do
      let length ← above b 0x80
      itemAt (b :: rest) one length (shortString length)
    else if n < 0xc0 then do
      let count ← above b 0xb7
      longItemAt (b :: rest) count fun payload => .ok (.str payload)
    else if n < 0xf8 then do
      let length ← above b 0xc0
      itemAt (b :: rest) one length enter
    else do
      let count ← above b 0xf7
      longItemAt (b :: rest) count enter

/-! ### Lists -/

/-- Reads items until nothing is left. -/
def items (read : Bytes → Except Stop (Item × Word 64)) (payload : Bytes) :
    Except Stop (List Item) :=
  if payload.isEmpty then .ok []
  else do
    let (t, consumed) ← read payload
    let rest ← slice payload consumed.toNat payload.length
    if _h : rest.length < payload.length then do
      let ts ← items read rest
      return t :: ts
    else .error (.trap .noProgress)
termination_by payload.length

/-- The first item of some bytes that lie inside `depth` lists, and its size. -/
def item (depth : Nat) : Bytes → Except Stop (Item × Word 64) :=
  itemBy (fun payload =>
    if _h : depth < maxDepth then do
      let ts ← items (item (depth + 1)) payload
      return .list ts
    else .error (.trap .tooManyLevels)) depth
termination_by maxDepth - depth

end Sized
end Rlp
end RelayLedger
