/-
# Wallets and contract names

A wallet is an address with a name. One wallet, the validator's, is always there and goes by a name
of its own; the others are found by theirs. `References` are the addresses of contracts by name.

Key definitions: `Wallet`, `Wallets`, `Wallets.get?`, `References`, `References.require`.
-/
import RelayLedger.Fault

namespace RelayLedger

/-- An address of the hosting chain that can sign, and its name. -/
structure Wallet where
  name : String
  address : ChainAddress
  deriving DecidableEq

/-- The wallets that can be asked for by name. -/
structure Wallets where
  validator : Wallet
  others : OrderedMap String Wallet := ∅
  deriving DecidableEq

namespace Wallets

/-- The name that stands for the validator's wallet, whatever that wallet calls itself. -/
def validatorName : String := "validator"

/-- Adds a wallet under its name. -/
def insert (w : Wallets) (wallet : Wallet) : Wallets :=
  { w with others := w.others.insert wallet.name wallet }

/-- The wallet of a name. -/
def get? (w : Wallets) (name : String) : Option Wallet :=
  if name = validatorName then some w.validator else w.others.get? name

end Wallets

/-- The addresses of contracts by name. -/
structure References where
  contracts : OrderedMap String ChainAddress := ∅
  deriving DecidableEq

namespace References

/-- Names the address of a contract. -/
def insert (r : References) (name : String) (address : ChainAddress) : References :=
  ⟨r.contracts.insert name address⟩

/-- The address of a contract, if it has a name. -/
def get? (r : References) (name : String) : Option ChainAddress := r.contracts.get? name

/-- The address of a contract, which must have a name. -/
def require (r : References) (name : String) : Except Fault ChainAddress :=
  match r.get? name with
  | some address => .ok address
  | none => .error (.noReference name)

end References

open Json

/-- The fields of a wallet. -/
def Wallet.fields : Fields Wallet :=
  (Fields.cons "name" .text <| .cons "address" .chainAddress .empty).renamed
    (fun (name, address, _) => ⟨name, address⟩) (fun w => (w.name, w.address, ()))

instance : Wire Wallet where
  typeName := "terranova_rs::client::Wallet"
  format := .record Wallet.fields

instance : Wire Wallets where
  typeName := "terranova_rs::client::Wallets"
  format := .record <|
    (Fields.cons "validator" (.record Wallet.fields) <|
      .cons "others" (.map (.record Wallet.fields)) .empty).renamed
      (fun (validator, others, _) => ⟨validator, others⟩) (fun w => (w.validator, w.others, ()))

instance : Wire References where
  typeName := "terranova_rs::client::Refs"
  format := .record <|
    (Fields.cons "contracts" (.map .chainAddress) .empty).renamed
      (fun (contracts, _) => ⟨contracts⟩) (fun r => (r.contracts, ()))

end RelayLedger
