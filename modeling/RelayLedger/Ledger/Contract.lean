/-
# The ledger as a contract

`instantiate` sets a ledger up, `change` alters its settings when the contract is replaced,
`execute` does what an authorised sender asks for, and `answer` looks and changes nothing. The
owner alone sets balances and names operators; relaying, storing chunks and creating accounts is
for operators too. No message may bring coins.

Key definitions: `Ledger.instantiate`, `Ledger.change`, `Ledger.execute`, `Ledger.answer`.
-/
import RelayLedger.Ledger.Chunk
import RelayLedger.Ledger.Message
import RelayLedger.Ledger.Transfer

namespace RelayLedger
namespace Ledger

/-- What the ledger says it is. -/
def version : Version := ⟨"crates.io:terranova", "0.1.0"⟩

/-! ### Operators -/

/-- Checks the addresses in order. -/
def validateAll : List ChainAddress → Except Fault (List ChainAddress)
  | [] => .ok []
  | a :: rest => do
    let a ← a.validate.mapError .chainAddress
    let rest ← validateAll rest
    return a :: rest

/-- Appends addresses that are not there yet, checking each in turn. -/
def addOperators (operators : List ChainAddress) :
    List ChainAddress → Except Fault (List ChainAddress)
  | [] => .ok operators
  | a :: rest => do
    let a ← a.validate.mapError .chainAddress
    addOperators (if a ∈ operators then operators else operators ++ [a]) rest

/-- The operators after an update: first the removals, then the additions. -/
def updatedOperators (operators add remove : List ChainAddress) :
    Except Fault (List ChainAddress) :=
  addOperators (operators.filter (· ∉ remove)) add

/-! ### Setting up -/

/-- Sets up a ledger that its sender owns. -/
def instantiate (envelope : Envelope) (setup : Setup) : Action Refusal Response := do
  .write (Version.slot.save version)
  let operators ← .read fun _ => ofFault (validateAll setup.operators)
  let config : Config :=
    { owner := envelope.sender
      operators
      tokenMint := setup.tokenMint.getD defaultTokenMint
      chainId := setup.chainId.getD defaultChainId }
  .write (Config.slot.save config)
  return { attributes :=
    [("action", "instantiate"), ("owner", config.owner.text),
     ("chain_id", toString config.chainId)] }

/-- The settings of the ledger, which must be set up. -/
def settings : Action Refusal Config := .read fun store => ofFault (Config.slot.load store)

/-- Alters the settings that a change names. -/
def change (c : Change) : Action Refusal Response := do
  let config ← settings
  .write (Config.slot.save { config with
    tokenMint := c.tokenMint.getD config.tokenMint
    chainId := c.chainId.getD config.chainId })
  .write (Version.slot.save version)
  return { attributes := [("migrated", "true")] }

/-! ### Commands -/

/-- Who may ask for a command: the owner, and operators for most of them. -/
def Command.Allowed (config : Config) (sender : ChainAddress) : Command → Prop
  | .airdrop .. | .updateOperators .. => sender = config.owner
  | .createAccount .. | .relay .. | .storeChunk .. | .relayChunks .. => config.IsOperator sender

instance (config : Config) (sender : ChainAddress) (command : Command) :
    Decidable (command.Allowed config sender) := by
  cases command <;> simp only [Command.Allowed] <;> infer_instance

/-- Does what a command asks for, whoever asked. -/
def perform (config : Config) : Command → Action Refusal Response
  | .createAccount address code => do
    let account ← Account.create address code
    return {
      attributes := [("action", "create_account"), ("address", toString address)]
      events := [(Notice.accountCreated address (decide account.IsContract)).toEvent] }
  | .relay caller tx => relay config caller tx
  | .storeChunk caller hash index data => do
    .write ((Chunk.slot caller hash index).save data)
    return {
      attributes := [("action", "store_tx_chunk")]
      events := [(Notice.chunkStored caller hash index).toEvent] }
  | .relayChunks caller hash count => do
    let tx ← .read (Chunk.collect caller hash count)
    .write (Chunk.removeAll caller hash count)
    let response ← relay config caller tx
    return response.addEvent
      (Notice.chunksAssembled caller hash count (.truncate tx.length)).toEvent
  | .airdrop address amount => do
    Account.setBalance address amount
    return {
      attributes := [("action", "airdrop")]
      events := [(Notice.balanceAirdropped address amount).toEvent] }
  | .updateOperators add remove => do
    let operators ← .read fun _ => ofFault (updatedOperators config.operators add remove)
    .write (Config.slot.save { config with operators })
    return {
      attributes := [("action", "update_operators")]
      events := [(Notice.operatorsUpdated operators).toEvent] }

/-- Carries out a command if its sender may ask for it and no coins came along. -/
def execute (envelope : Envelope) (command : Command) : Action Refusal Response := do
  if envelope.funds ≠ [] then throw .notPayable
  else
    let config ← settings
    if command.Allowed config envelope.sender then perform config command
    else throw .unauthorized

/-! ### Queries -/

/-- The JSON text of the answer to a query. -/
def answer (query : Query) (store : Store) : Except Fault Bytes :=
  match query with
  | .config => (Config.slot.load store).map Json.encode
  | .account address => (Account.load address store).map fun a => Json.encode a.summary
  | .code address => (Account.load address store).map fun a => Json.encode a.code
  | .chunk caller hash index =>
    ((Chunk.slot caller hash index).load? store).map (Json.Format.option .base64).write
  | .dryRun caller tx => do
    let config ← Config.slot.load store
    match check config caller tx store with
    | .error refusal => .error (.other refusal.message)
    | .ok _ => .ok (Json.encode (⟨[]⟩ : DryRun))

end Ledger
end RelayLedger
