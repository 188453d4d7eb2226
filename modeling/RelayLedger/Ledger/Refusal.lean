/-
# Why a ledger refuses a message

Each refusal is a cause and names the account, the chain ids or the chunk it is about;
`Refusal.message` is its wording.

Key definitions: `Ledger.Refusal`, `Ledger.Refusal.message`.
-/
import RelayLedger.Fault
import RelayLedger.Transaction

namespace RelayLedger
namespace Ledger

/-- Why a ledger refuses a message. -/
inductive Refusal
  /-- Not for a rule of the ledger. -/
  | ofFault (fault : Fault)
  /-- Coins came with the message. -/
  | notPayable
  | unauthorized
  | insufficientFunds (account : Address)
  | balanceOverflow (account : Address)
  | nonceOverflow (account : Address)
  | badTransaction (fault : Transaction.Fault)
  | wrongChainId (expected got : Word 64)
  | accountExists (account : Address)
  /-- The transaction has no recipient. -/
  | creationUnsupported
  /-- The recipient is a contract. -/
  | cannotCall (account : Address)
  | chunkMissing (hash : TxHash) (index : Word 8)
  deriving DecidableEq

/-- The wording of a refusal. -/
def Refusal.message : Refusal → String
  | .ofFault fault => fault.message
  | .notPayable => "This message does no accept funds"
  | .unauthorized => "Unauthorized"
  | .insufficientFunds account => s!"Account {account} has insufficient funds for the transfer"
  | .balanceOverflow account => s!"Balance of account {account} overflowed"
  | .nonceOverflow account => s!"Nonce of account {account} overflowed"
  | .badTransaction fault => s!"The unsigned transaction is invalid: {fault.message}"
  | .wrongChainId expected got => s!"Transaction chain id {got} does not match {expected}"
  | .accountExists account => s!"Account {account} already exists"
  | .creationUnsupported => "Contract creation transactions are not supported"
  | .cannotCall account => s!"Account {account} holds bytecode and cannot be called"
  | .chunkMissing hash index => s!"Transaction chunk {index} of {hash} is missing"

/-- Carries a fault over. -/
def ofFault {α : Type} (r : Except Fault α) : Except Refusal α := r.mapError .ofFault

end Ledger
end RelayLedger
