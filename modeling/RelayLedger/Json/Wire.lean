/-
# Values as whole JSON texts

`Wire` says of a type how its values are written and what refusals call it. `encode` writes a
value, and `decode` reads one from a text that holds nothing else, blanks apart.

Key definitions: `Json.Wire`, `Json.encode`, `Json.decode`.
-/
import RelayLedger.Json.Variant

namespace RelayLedger
namespace Json

/-- A type whose values are stored and sent as JSON. -/
class Wire (α : Type) where
  /-- What refusals call the type. -/
  typeName : String
  format : Format α

instance (kind : FixedKind) : Wire (Fixed kind) where
  typeName :=
    match kind with
    | .address => "terranova_rs::evm::EvmAddress"
    | .txHash => "terranova_rs::evm::TxHash"
  format := .fixed kind

instance : Wire Bytes where
  typeName := "cosmwasm_std::binary::Binary"
  format := .base64

/-- The JSON text of a value. -/
def encode {α : Type} [Wire α] (a : α) : Bytes := (Wire.format : Format α).write a

/-- The value of a JSON text. -/
def decode (α : Type) [Wire α] (s : Bytes) : Except Reason α := do
  let (a, after) ← (Wire.format : Format α).read maxNesting s
  if (skipBlank after).isEmpty then return a else .error .trailingText

end Json
end RelayLedger
