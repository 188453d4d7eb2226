/-
# Notices

Whatever a ledger does, it gives notice of: the notices of a ledger tell all that its accounts and
chunks have become. On the chain a notice is an event whose attributes are texts.

Key definitions: `Ledger.Notice`, `Ledger.Notice.toEvent`.
-/
import RelayLedger.Contract

namespace RelayLedger
namespace Ledger

/-- Something that happened on a ledger. -/
inductive Notice
  | accountCreated (address : Address) (isContract : Bool)
  | transactionExecuted (source target : Address) (value : Word 256) (nonce : Word 64)
  | chunkStored (caller : Address) (hash : TxHash) (index : Word 8)
  /-- The first `count` chunks were put together, `size` bytes in all, and are gone. -/
  | chunksAssembled (caller : Address) (hash : TxHash) (count : Word 8) (size : Word 64)
  | balanceAirdropped (address : Address) (amount : Word 256)
  | operatorsUpdated (operators : List ChainAddress)
  deriving DecidableEq

/-- The event that gives notice. -/
def Notice.toEvent : Notice → Event
  | .accountCreated address isContract =>
    ⟨"_account_created", [("address", toString address), ("is_contract", toString isContract)]⟩
  | .transactionExecuted source target value nonce =>
    ⟨"_transaction_executed",
      [("from", toString source), ("to", toString target), ("value", toString value),
       ("nonce", toString nonce)]⟩
  | .chunkStored caller hash index =>
    ⟨"_tx_chunk_stored",
      [("caller", toString caller), ("tx_hash", toString hash), ("chunk_index", toString index)]⟩
  | .chunksAssembled caller hash count size =>
    ⟨"_chunked_transaction_assembled",
      [("caller", toString caller), ("tx_hash", toString hash), ("chunk_count", toString count),
       ("size", toString size)]⟩
  | .balanceAirdropped address amount =>
    ⟨"_balance_airdropped", [("address", toString address), ("amount", toString amount)]⟩
  | .operatorsUpdated operators =>
    ⟨"_operators_updated", [("operators", String.intercalate "," (operators.map (·.text)))]⟩

open Json

/-- The notices by name. -/
def Notice.cases : List (Case Notice) :=
  [.ofFields "account_created"
      (.cons "address" (.fixed .address) <| .cons "is_contract" .bool .empty)
      (fun (address, isContract, _) => .accountCreated address isContract)
      fun
        | .accountCreated address isContract => some (address, isContract, ())
        | _ => none,
   .ofFields "transaction_executed"
      (.cons "from" (.fixed .address) <| .cons "to" (.fixed .address) <|
        .cons "value" (.numeral 256) <| .cons "nonce" (.word 64) .empty)
      (fun (source, target, value, nonce, _) =>
        .transactionExecuted source target value nonce)
      fun
        | .transactionExecuted source target value nonce =>
          some (source, target, value, nonce, ())
        | _ => none,
   .ofFields "tx_chunk_stored"
      (.cons "caller" (.fixed .address) <| .cons "tx_hash" (.fixed .txHash) <|
        .cons "chunk_index" (.word 8) .empty)
      (fun (caller, hash, index, _) => .chunkStored caller hash index)
      fun
        | .chunkStored caller hash index => some (caller, hash, index, ())
        | _ => none,
   .ofFields "chunked_transaction_assembled"
      (.cons "caller" (.fixed .address) <| .cons "tx_hash" (.fixed .txHash) <|
        .cons "chunk_count" (.word 8) <| .cons "size" (.word 64) .empty)
      (fun (caller, hash, count, size, _) => .chunksAssembled caller hash count size)
      fun
        | .chunksAssembled caller hash count size => some (caller, hash, count, size, ())
        | _ => none,
   .ofFields "balance_airdropped"
      (.cons "address" (.fixed .address) <| .cons "amount" (.numeral 256) .empty)
      (fun (address, amount, _) => .balanceAirdropped address amount)
      fun
        | .balanceAirdropped address amount => some (address, amount, ())
        | _ => none,
   .ofFields "operators_updated"
      (.cons "operators" (.list .chainAddress) .empty)
      (fun (operators, _) => .operatorsUpdated operators)
      fun
        | .operatorsUpdated operators => some (operators, ())
        | _ => none]

instance : Wire Notice where
  typeName := "terranova_rs::events::DomainEvent"
  format := .variants Notice.cases

end Ledger
end RelayLedger
