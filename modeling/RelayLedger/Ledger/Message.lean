/-
# Messages to a ledger

`Setup` starts a ledger and `Change` changes its settings when the contract is replaced. `Command`s
are what senders ask for and `Query`s what anyone may ask about; `DryRun` answers the query whether
a transaction would go through.

Key definitions: `Ledger.Setup`, `Ledger.Change`, `Ledger.Command`, `Ledger.Query`,
`Ledger.DryRun`.
-/
import RelayLedger.Contract

namespace RelayLedger
namespace Ledger

/-- Starts a ledger; what is left out has a default. -/
structure Setup where
  operators : List ChainAddress
  tokenMint : Option ChainAddress
  chainId : Option (Word 64)
  deriving DecidableEq

/-- Changes settings when the contract is replaced; what is left out stays. -/
structure Change where
  tokenMint : Option ChainAddress
  chainId : Option (Word 64)
  deriving DecidableEq

/-- What a sender asks a ledger to do. -/
inductive Command
  | createAccount (address : Address) (code : Bytes)
  /-- Runs a transaction on behalf of an account. -/
  | relay (caller : Address) (tx : Bytes)
  /-- Keeps a part of a transaction that is too long for one message. -/
  | storeChunk (caller : Address) (hash : TxHash) (index : Word 8) (data : Bytes)
  /-- Runs the transaction that the first `count` parts make up. -/
  | relayChunks (caller : Address) (hash : TxHash) (count : Word 8)
  /-- Sets the balance of an account. -/
  | airdrop (address : Address) (amount : Word 256)
  | updateOperators (add remove : List ChainAddress)
  deriving DecidableEq

/-- What anyone may ask a ledger. -/
inductive Query
  | config
  | account (address : Address)
  | code (address : Address)
  | chunk (caller : Address) (hash : TxHash) (index : Word 8)
  /-- Whether a transaction would go through. -/
  | dryRun (caller : Address) (tx : Bytes)
  deriving DecidableEq

/-- The answer that a transaction would go through; nothing runs, so the result is empty. -/
structure DryRun where
  result : Bytes
  deriving DecidableEq

open Json

instance : Wire Setup where
  typeName := "terranova_rs::terranova::TerranovaInstantiateMsg"
  format := .record <|
    (Fields.cons "operators" (.list .chainAddress) <|
      .cons "token_mint" (.option .chainAddress) <|
      .cons "chain_id" (.option (.word 64)) .empty).renamed
      (fun (operators, tokenMint, chainId, _) => ⟨operators, tokenMint, chainId⟩)
      (fun m => (m.operators, m.tokenMint, m.chainId, ()))

instance : Wire Change where
  typeName := "terranova_rs::terranova::TerranovaMigrateMsg"
  format := .record <|
    (Fields.cons "token_mint" (.option .chainAddress) <|
      .cons "chain_id" (.option (.word 64)) .empty).renamed
      (fun (tokenMint, chainId, _) => ⟨tokenMint, chainId⟩)
      (fun m => (m.tokenMint, m.chainId, ()))

/-- The commands by name. -/
def Command.cases : List (Case Command) :=
  [.ofFields "create_account"
      (.cons "eth_address" (.fixed .address) <|
        .cons "contract_byte_code" .base64 .empty)
      (fun (address, code, _) => .createAccount address code)
      fun
        | .createAccount address code => some (address, code, ())
        | _ => none,
   .ofFields "call_from_raw_ethereum_tx"
      (.cons "caller_evm_address" (.fixed .address) <|
        .cons "unsigned_tx" .base64 .empty)
      (fun (caller, tx, _) => .relay caller tx)
      fun
        | .relay caller tx => some (caller, tx, ())
        | _ => none,
   .ofFields "store_tx_chunk"
      (.cons "caller_evm_address" (.fixed .address) <|
        .cons "full_tx_hash" (.fixed .txHash) <| .cons "chunk_index" (.word 8) <|
        .cons "chunk_data" .base64 .empty)
      (fun (caller, hash, index, data, _) => .storeChunk caller hash index data)
      fun
        | .storeChunk caller hash index data => some (caller, hash, index, data, ())
        | _ => none,
   .ofFields "execute_chunked_ethereum_tx"
      (.cons "caller_evm_address" (.fixed .address) <|
        .cons "full_tx_hash" (.fixed .txHash) <| .cons "chunk_count" (.word 8) .empty)
      (fun (caller, hash, count, _) => .relayChunks caller hash count)
      fun
        | .relayChunks caller hash count => some (caller, hash, count, ())
        | _ => none,
   .ofFields "airdrop"
      (.cons "eth_address" (.fixed .address) <| .cons "amount" (.numeral 256) .empty)
      (fun (address, amount, _) => .airdrop address amount)
      fun
        | .airdrop address amount => some (address, amount, ())
        | _ => none,
   .ofFields "update_operators"
      (.cons "add" (.list .chainAddress) <|
        .cons "remove" (.list .chainAddress) .empty)
      (fun (add, remove, _) => .updateOperators add remove)
      fun
        | .updateOperators add remove => some (add, remove, ())
        | _ => none]

instance : Wire Command where
  typeName := "terranova_rs::terranova::TerranovaExecuteMsg"
  format := .variants Command.cases

/-- The queries by name. -/
def Query.cases : List (Case Query) :=
  [.ofFields "config"
      .empty
      (fun _ => .config)
      fun
        | .config => some ()
        | _ => none,
   .ofFields "evm_account"
      (.cons "address" (.fixed .address) .empty)
      (fun (address, _) => .account address)
      fun
        | .account address => some (address, ())
        | _ => none,
   .ofFields "contract_code"
      (.cons "address" (.fixed .address) .empty)
      (fun (address, _) => .code address)
      fun
        | .code address => some (address, ())
        | _ => none,
   .ofFields "tx_chunk"
      (.cons "caller_evm_address" (.fixed .address) <|
        .cons "full_tx_hash" (.fixed .txHash) <| .cons "chunk_index" (.word 8) .empty)
      (fun (caller, hash, index, _) => .chunk caller hash index)
      fun
        | .chunk caller hash index => some (caller, hash, index, ())
        | _ => none,
   .ofFields "raw_ethereum_query"
      (.cons "caller_evm_address" (.fixed .address) <|
        .cons "unsigned_tx" .base64 .empty)
      (fun (caller, tx, _) => .dryRun caller tx)
      fun
        | .dryRun caller tx => some (caller, tx, ())
        | _ => none]

instance : Wire Query where
  typeName := "terranova_rs::terranova::TerranovaQueryMsg"
  format := .variants Query.cases

instance : Wire DryRun where
  typeName := "terranova_rs::terranova::RawEthereumQueryResponse"
  format := .record <|
    (Fields.cons "result" .base64 .empty).renamed
      (fun (result, _) => ⟨result⟩) (fun a => (a.result, ()))

end Ledger
end RelayLedger
