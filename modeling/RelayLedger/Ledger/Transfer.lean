/-
# Transfers

A transaction that is relayed moves value between two accounts and counts up the sender's nonce;
gas is not charged. `check` looks a transaction over against the store and changes nothing;
`Transfer.apply` makes the move. Accounts that a move needs and that do not exist are created.

Every change of an account reads it, changes one thing and keeps it again, so a move from an
account to itself leaves its balance as it was.

Key definitions: `Ledger.Transfer`, `Ledger.check`, `Ledger.Transfer.apply`, `Ledger.relay`.
-/
import RelayLedger.Ledger.Account
import RelayLedger.Ledger.Config
import RelayLedger.Ledger.Notice
import RelayLedger.Ledger.Refusal

namespace RelayLedger
namespace Ledger

namespace Account

/-- The account of an address; a vacant one if there is none. -/
def load (address : Address) (store : Store) : Except Fault Account :=
  ((slot address).load? store).map (·.getD (vacant address))

/-- The store with an account kept under its own address. -/
def save (a : Account) (store : Store) : Store := (slot a.address).save a store

/-- Reads the account of an address. -/
def get (address : Address) : Action Refusal Account :=
  .read fun store => ofFault (load address store)

/-- Keeps an account. -/
def put (a : Account) : Action Refusal Unit := .write a.save

/-- Creates an account, which must not exist. -/
def create (address : Address) (code : Bytes) : Action Refusal Account := do
  let taken ← .read fun store => .ok ((slot address).isTaken store)
  if taken then throw (.accountExists address)
  else
    let account := { vacant address with code := code }
    put account
    return account

/-- Sets the balance of an account. -/
def setBalance (address : Address) (balance : Word 256) : Action Refusal Unit := do
  let account ← get address
  put { account with balance := balance }

/-- Takes from the balance of an account. -/
def debit (address : Address) (value : Word 256) : Action Refusal Unit := do
  let account ← get address
  match account.balance.sub? value with
  | none => throw (.insufficientFunds address)
  | some balance => setBalance address balance

/-- Adds to the balance of an account. -/
def credit (address : Address) (value : Word 256) : Action Refusal Unit := do
  let account ← get address
  match account.balance.add? value with
  | none => throw (.balanceOverflow address)
  | some balance => setBalance address balance

/-- Counts up the nonce of an account and answers the new one. -/
def countUp (address : Address) : Action Refusal (Word 64) := do
  let account ← get address
  match Word.ofNat? (account.nonce.toNat + 1) with
  | none => throw (.nonceOverflow address)
  | some nonce =>
    put { account with nonce := nonce }
    return nonce

end Account

/-- A move of value from one account to another. -/
structure Transfer where
  source : Address
  target : Address
  value : Word 256
  deriving DecidableEq

/-- Moves value from one account to another: first the debit, then the credit. -/
def move (source target : Address) (value : Word 256) : Action Refusal Unit := do
  Account.debit source value
  Account.credit target value

/-- The chain id of a transaction must be that of the ledger, if it has one. -/
def checkChainId (config : Config) : Option (Word 64) → Except Refusal Unit
  | none => .ok ()
  | some chainId =>
    if chainId = config.chainId then .ok () else .error (.wrongChainId config.chainId chainId)

/-- The transfer that a transaction asks for, if the accounts allow it: the recipient exists and is
no contract, the sender has the value, the recipient has room for it, and the sender's nonce can
still grow. -/
def check (config : Config) (caller : Address) (tx : Bytes) (store : Store) :
    Except Refusal Transfer := do
  let tx ← (Transaction.decode tx).mapError .badTransaction
  checkChainId config tx.chainId
  match tx.recipient with
  | none => .error .creationUnsupported
  | some target =>
    let targetAccount ← ofFault (Account.load target store)
    if targetAccount.IsContract then .error (.cannotCall target)
    else
      let callerAccount ← ofFault (Account.load caller store)
      if callerAccount.balance.toNat < tx.value.toNat then .error (.insufficientFunds caller)
      else if target ≠ caller ∧ targetAccount.balance.add? tx.value = none then
        .error (.balanceOverflow target)
      else if callerAccount.nonce = Word.max then .error (.nonceOverflow caller)
      else return ⟨caller, target, tx.value⟩

namespace Transfer

/-- The answer to a transaction that went through; its data is the sender's new nonce. -/
def response (t : Transfer) (nonce : Word 64) : Response where
  attributes :=
    [("action", "call"), ("from", toString t.source), ("to", toString t.target),
     ("nonce", toString nonce)]
  events := [(Notice.transactionExecuted t.source t.target t.value nonce).toEvent]
  data := some (Json.digits nonce.toNat)

/-- Moves the value and counts up the sender's nonce. -/
def apply (t : Transfer) : Action Refusal Response := do
  move t.source t.target t.value
  let nonce ← Account.countUp t.source
  return t.response nonce

end Transfer

/-- Runs a transaction on behalf of an account. -/
def relay (config : Config) (caller : Address) (tx : Bytes) : Action Refusal Response := do
  let transfer ← .read (check config caller tx)
  transfer.apply

end Ledger
end RelayLedger
