/-
# Named alternatives

A value of a type with alternatives is an object with one key, the name of the alternative; under
it stands an object of its fields. A name alone is no value, since every alternative has fields.

Key definitions: `Json.Case`, `Json.Case.readAny`, `Json.Format.variants`.
-/
import RelayLedger.Json.Record

namespace RelayLedger
namespace Json

/-- One of the named alternatives of a type, with its fields. -/
structure Case (α : Type) where
  name : String
  Payload : Type
  fields : Fields Payload
  inject : Payload → α
  project : α → Option Payload

namespace Case

variable {α β : Type}

/-- The case of these fields. -/
def ofFields (name : String) (fields : Fields β) (inject : β → α) (project : α → Option β) :
    Case α := ⟨name, β, fields, inject, project⟩

/-- Writes a value that is of this case. -/
def write? (c : Case α) (a : α) : Option Bytes :=
  (c.project a).map fun p => Format.writeObject [(c.name, c.fields.write p)]

/-- Reads the fields of this case. -/
def read (c : Case α) : Reader α := fun room s =>
  (c.fields.read room s).map fun (p, after) => (c.inject p, after)

/-- The reader for the fields of the case of a name. -/
def readerOf (cases : List (Case α)) (name : String) : Except Reason (Reader α) :=
  match cases.find? (·.name = name) with
  | some c => .ok c.read
  | none => .error (.unknownVariant name (cases.map (·.name)))

/-- Reads an object whose one key names the case and whose value has its fields. A name alone
stands for no value, since every case has fields. -/
def readAny (cases : List (Case α)) : Reader α := fun room s =>
  match skipBlank s with
  | [] => .error .endOfValue
  | b :: rest =>
    if b = openBrace then
      match room with
      | 0 => .error .tooNested
      | room + 1 => do
        let (name, s) ← readString rest
        let read ← readerOf cases name
        let (a, s) ← read room (← readColon s)
        match skipBlank s with
        | [] => .error .endOfValue
        | b :: after => if b = closeBrace then return (a, after) else .error .expectedValue
    else if b = quoteByte then do
      let (name, _) ← readString (b :: rest)
      let _ ← readerOf cases name
      .error .wrongType
    else .error .expectedWord

end Case

/-- One of several named alternatives. -/
def Format.variants {α : Type} (cases : List (Case α)) : Format α where
  write a := (cases.findSome? (·.write? a)).getD []
  read := Case.readAny cases

end Json
end RelayLedger
