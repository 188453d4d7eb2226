/-
# The store of a contract

A contract keeps bytes under byte keys; everything it knows is in its `Store`. A `Slot` is a key at
which the JSON text of a value of one type is kept. Single items have their name as key; families
of items have a key of several parts, in which every part but the last is preceded by its length,
so that no two lists of parts make the same key.

Key definitions: `Store`, `Slot`, `Slot.load?`, `Slot.save`, `Store.key`.
-/
import RelayLedger.Fault

namespace RelayLedger

/-- What a contract keeps. -/
abbrev Store := OrderedMap Bytes Bytes

/-- The key of a member of a family: each part but the last has its length in two bytes in
front. -/
def Store.key : List Bytes → Bytes
  | [] => []
  | [last] => last
  | part :: next :: rest => Bytes.ofNat 2 part.length ++ part ++ Store.key (next :: rest)

/-- A key at which the text of a value of type `α` is kept. -/
structure Slot (α : Type) where
  key : Bytes

namespace Slot

variable {α : Type}

/-- Whether anything is kept there, readable or not. -/
def isTaken (slot : Slot α) (store : Store) : Bool := store.contains slot.key

/-- The store without what is kept there. -/
def erase (slot : Slot α) (store : Store) : Store := OrderedMap.erase store slot.key

variable [Json.Wire α]

/-- The value kept there, if there is one. -/
def load? (slot : Slot α) (store : Store) : Except Fault (Option α) :=
  match store.get? slot.key with
  | none => .ok none
  | some s => (Json.decodeAs α s).map some

/-- The value kept there, which must exist. -/
def load (slot : Slot α) (store : Store) : Except Fault α :=
  match store.get? slot.key with
  | none => .error (.notStored (Json.Wire.typeName α) slot.key)
  | some s => Json.decodeAs α s

/-- The store with a value kept there. -/
def save (slot : Slot α) (a : α) (store : Store) : Store := store.insert slot.key (Json.encode a)

end Slot
end RelayLedger
