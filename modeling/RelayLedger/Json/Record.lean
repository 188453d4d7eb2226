/-
# Objects with named fields

`Fields` describe an object that stands for a value: each field has a name and a format. Fields may
come in any order and unknown ones are skipped. One that is repeated is refused when its key is met
for the second time, and one that is missing when the object ends, the first in the order of
declaration.

Key definitions: `Json.Fields`, `Json.Fields.cons`, `Json.Fields.read`, `Json.Format.record`.
-/
import RelayLedger.Json.Format

namespace RelayLedger
namespace Json

/-- The fields of an object that stands for a value of type `α`. `Slots` holds the values read so
far. -/
structure Fields (α : Type) where
  Slots : Type
  /-- Nothing read yet. -/
  vacant : Slots
  /-- What to do with the value under a key, if a field has that name: refuse it, or read it. -/
  slot? : String → Slots → Option (Except Reason (Reader Slots))
  /-- The value, once the object has ended. -/
  finish : Slots → Except Reason α
  /-- The name and the text of each field. -/
  texts : α → List (String × Bytes)

namespace Fields

variable {α β : Type}

/-- No fields. -/
def empty : Fields Unit where
  Slots := Unit
  vacant := ()
  slot? _ _ := none
  finish _ := .ok ()
  texts _ := []

/-- One field in front of others. -/
def cons (name : String) (f : Format α) (rest : Fields β) : Fields (α × β) where
  Slots := Option α × rest.Slots
  vacant := (none, rest.vacant)
  slot? key slots :=
    if key = name then
      some <|
        if slots.1.isSome then .error (.repeatedField name)
        else .ok fun room s => do
          let (a, after) ← f.read room s
          return ((some a, slots.2), after)
    else
      (rest.slot? key slots.2).map fun step => step.map fun read room s => do
        let (others, after) ← read room s
        return ((slots.1, others), after)
  finish slots :=
    match slots.1 <|> f.absent with
    | none => .error (.missingField name)
    | some a => do
      let b ← rest.finish slots.2
      return (a, b)
  texts p := (name, f.write p.1) :: rest.texts p.2

/-- The fields of a type that has the same values under other names. -/
def renamed (f : Fields α) (make : α → β) (parts : β → α) : Fields β where
  Slots := f.Slots
  vacant := f.vacant
  slot? := f.slot?
  finish slots := (f.finish slots).map make
  texts b := f.texts (parts b)

/-- Reads one entry: a field, or a value to be skipped. -/
def entry (f : Fields α) (room : Nat) (key : String) (slots : f.Slots) (s : Bytes) :
    Except Reason (f.Slots × Bytes) :=
  match f.slot? key slots with
  | none => do
    let (_, after) ← skipValue room (← readColon s)
    return (slots, after)
  | some step => do
    let read ← step
    read room (← readColon s)

/-- Reads an object with these fields. -/
def read (f : Fields α) : Reader α := fun room s => do
  let (slots, after) ← readObject f.vacant f.entry room s
  let a ← f.finish slots
  return (a, after)

/-- Writes an object with these fields. -/
def write (f : Fields α) (a : α) : Bytes := Format.writeObject (f.texts a)

end Fields

/-- An object of named fields. -/
def Format.record {α : Type} (f : Fields α) : Format α where
  write := f.write
  read := f.read

end Json
end RelayLedger
