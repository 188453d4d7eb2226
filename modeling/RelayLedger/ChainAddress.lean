/-
# Addresses on the hosting chain

Senders, owners and operators are named by texts of the hosting chain. A text from a message may be
anything; `ChainAddress.validate` accepts exactly the texts that the chain itself would write for
some address: Bech32 with the human part `cosmwasm`, 1 to 255 bytes, in lower case, nothing left
over. `ChainAddress.ofName` is the address that stands for a name.

Key definitions: `ChainAddress`, `ChainAddress.validate`, `ChainAddress.ofName`.
-/
import RelayLedger.Sha256
import RelayLedger.Text.Bech32
import RelayLedger.Text.Utf8

namespace RelayLedger

/-- The text that names a party on the hosting chain. -/
structure ChainAddress where
  text : String
  deriving DecidableEq

namespace ChainAddress

/-- Why a text is not an address of the chain. -/
inductive Fault
  | notBech32
  | wrongHumanPart
  | wrongLength
  | notNormalized
  deriving DecidableEq

/-- The wording of a refusal. -/
def Fault.message : Fault → String
  | .notBech32 => "Error decoding bech32"
  | .wrongHumanPart => "Wrong bech32 prefix"
  | .wrongLength => "Invalid canonical address length"
  | .notNormalized => "Invalid input: address not normalized"

/-- The human part of every address. -/
def humanPart : List Char := ['c', 'o', 's', 'm', 'w', 'a', 's', 'm']

/-- The text of the address with these bytes. -/
def ofBytes (s : Bytes) : ChainAddress := ⟨Bech32.encode humanPart s⟩

/-- Accepts the texts that the chain writes. -/
def validate (a : ChainAddress) : Except Fault ChainAddress :=
  match Bech32.decode a.text with
  | none => .error .notBech32
  | some (human, s) =>
    if human ≠ humanPart then .error .wrongHumanPart
    else if s.length < 1 ∨ 255 < s.length then .error .wrongLength
    else if ofBytes s ≠ a then .error .notNormalized
    else .ok a

/-- The address that stands for a name. -/
def ofName (name : String) : ChainAddress := ofBytes (Sha256.digest (utf8 name))

end ChainAddress
end RelayLedger
