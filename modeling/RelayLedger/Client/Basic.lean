/-
# Clients

A client of the chain asks contracts for answers and sends them messages signed by a wallet, always
by the contract's name. A `Library` is a client together with the wallets and names that an
application works with.

Key definitions: `Client`, `ContractNames`, `Library`, `Library.count`, `Library.relay`.
-/
import RelayLedger.Client.Wallet
import RelayLedger.Counter.Message
import RelayLedger.Ledger.Message

namespace RelayLedger

/-- What can be done with a client whose state is of type `σ`. A failure is of type `ε` and the
reply to a message that went through of type `ρ`. -/
class Client (σ : Type) (ε ρ : outParam Type) where
  /-- Asks a contract and reads its answer. -/
  query : (α : Type) → [Json.Wire α] → (contract : String) → (message : Bytes) →
    StateM σ (Except ε α)
  /-- Sends a message to a contract. -/
  execute : (signer : Wallet) → (contract : String) → (message : Bytes) → StateM σ (Except ε ρ)

/-- The names under which an application knows its contracts. -/
structure ContractNames where
  counter : String := "counter"
  ledger : String := "terranova"
  deriving DecidableEq

open Json in
instance : Wire ContractNames where
  typeName := "terranova_rs::client::LibConfig"
  format := .record <|
    (Fields.cons "counter_contract" (Format.text.withDefault "counter") <|
      .cons "terranova_contract" (Format.text.withDefault "terranova") .empty).renamed
      (fun (counter, ledger, _) => ⟨counter, ledger⟩) (fun n => (n.counter, n.ledger, ()))

/-- A client with the wallets and names that an application works with. -/
structure Library (σ : Type) where
  wallets : Wallets
  references : References := {}
  names : ContractNames := {}
  client : σ

namespace Library

variable {σ ε ρ : Type} [Client σ ε ρ]

/-- Lets the client act. -/
def lift {α : Type} (act : StateM σ α) : StateM (Library σ) α := fun lib =>
  let (a, client) := act lib.client
  (a, { lib with client })

/-- Asks the counter for its count. -/
def count : StateM (Library σ) (Except ε Counter.Reading) := do
  let lib ← get
  lift (Client.query Counter.Reading lib.names.counter (Json.encode Counter.Query.count))

/-- Sends a transaction to be relayed, signed by the given wallet or else by the validator's. -/
def relay (caller : Address) (tx : Bytes) (signer : Option Wallet) :
    StateM (Library σ) (Except ε ρ) := do
  let lib ← get
  lift (Client.execute (signer.getD lib.wallets.validator) lib.names.ledger
    (Json.encode (Ledger.Command.relay caller tx)))

end Library
end RelayLedger
