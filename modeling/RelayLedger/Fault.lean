/-
# What can go wrong outside a contract's own rules

A text that does not decode, an item that is not stored, an identifier or an amount that is
misspelt, an address the chain does not know, a name without a contract. Each is a cause;
`Fault.message` is the wording that callers see.

Key definitions: `Fault`, `Fault.message`, `Json.decodeAs`.
-/
import RelayLedger.Json.Wire

namespace RelayLedger

/-- What can go wrong outside a contract's own rules. -/
inductive Fault
  /-- Said by someone else. -/
  | other (text : String)
  /-- Nothing is stored under the key. -/
  | notStored (typeName : String) (key : Bytes)
  /-- A JSON text is no value of the type. -/
  | unreadable (typeName : String) (reason : Json.Reason)
  | fixed (fault : Fixed.Fault)
  | numeral (fault : Numeral.Fault)
  | chainAddress (fault : ChainAddress.Fault)
  /-- The bytecode of an artifact is not hexadecimal. -/
  | bytecode (fault : Hex.Fault)
  /-- No contract goes by the name. -/
  | noReference (name : String)
  /-- A scripted client has no answer left. -/
  | noAnswer
  deriving DecidableEq

/-- The wording of a fault. -/
def Fault.message : Fault → String
  | .other text => Json.general text
  | .notStored typeName key =>
    let bytes := String.intercalate ", " (key.map Hex.upperPair)
    s!"type: {typeName}; key: [{bytes}] not found"
  | .unreadable typeName reason => s!"Error parsing into type {typeName}: {reason.message}"
  | .fixed fault => Json.general fault.message
  | .numeral fault => Json.general fault.message
  | .chainAddress fault => Json.general fault.message
  | .bytecode fault => Json.general s!"Invalid artifact bytecode: {fault.message}"
  | .noReference name => Json.general s!"No contract reference for '{name}'"
  | .noAnswer => Json.general "No mock query response queued"

/-- The value of a JSON text, or the fault that names the type. -/
def Json.decodeAs (α : Type) [Json.Wire α] (s : Bytes) : Except Fault α :=
  (Json.decode α s).mapError (.unreadable (Json.Wire.typeName α))

end RelayLedger
