/-
# Commands that are carried out

A command is carried out when no coins came along and its sender may ask for it; what it does then
is known from the accounts that it touches.

Key theorems: `Ledger.run_execute_eq`, `Ledger.run_execute_of_not`, `Ledger.run_airdrop`,
`Ledger.deliver_airdrop`.
-/
import RelayLedger.Proofs.Ledger.Reachable
import RelayLedger.Proofs.Transaction

namespace RelayLedger
namespace Ledger

variable {store : Store} {config : Config}

theorem run_settings (h : Config.slot.load store = .ok config) :
    settings.run store = (.ok config, store) := by
  rw [settings, Action.run_read, h]
  rfl

/-- Coins are looked for first, then it is asked who may. -/
theorem run_execute_eq (h : Config.slot.load store = .ok config) (envelope : Envelope)
    (command : Command) :
    (execute envelope command).run store =
      if envelope.funds ≠ [] then (.error .notPayable, store)
      else if command.Allowed config envelope.sender then (perform config command).run store
      else (.error .unauthorized, store) := by
  rw [execute]
  split
  · rfl
  · rw [Action.run_bind_ok (run_settings h)]
    split <;> rfl

/-- A sender who may ask for a command, and sends no coins, has it carried out. -/
theorem run_execute (h : Config.slot.load store = .ok config) {sender : ChainAddress}
    {command : Command} (hallowed : command.Allowed config sender) :
    (execute ⟨sender, []⟩ command).run store = (perform config command).run store := by
  rw [run_execute_eq h, if_neg (not_not.mpr rfl), if_pos hallowed]

theorem Command.Allowed.isOperator {sender : ChainAddress} {command : Command}
    (h : command.Allowed config sender) : config.IsOperator sender := by
  cases command with
  | airdrop _ _ => exact .inl h
  | updateOperators _ _ => exact .inl h
  | _ => exact h

/-- A sender who sends coins or may not ask for a command is turned away, and nothing is written. -/
theorem run_execute_of_not (h : Config.slot.load store = .ok config) {envelope : Envelope}
    {command : Command}
    (hnot : envelope.funds ≠ [] ∨ ¬ command.Allowed config envelope.sender) :
    (execute envelope command).run store =
      (.error (if envelope.funds ≠ [] then .notPayable else .unauthorized), store) := by
  rw [run_execute_eq h]
  by_cases hfunds : envelope.funds ≠ []
  · rw [if_pos hfunds, if_pos hfunds]
  · rw [if_neg hfunds, if_neg hfunds, if_neg (hnot.resolve_left hfunds)]

/-- An airdrop sets one balance. -/
theorem run_airdrop (h : WellFormed store) (address : Address) (amount : Word 256) :
    (perform config (.airdrop address amount)).run store =
      (.ok {
        attributes := [("action", "airdrop")]
        events := [(Notice.balanceAirdropped address amount).toEvent] },
        ({ accountAt store address with balance := amount } : Account).save store) := by
  rw [perform, Action.run_bind_ok (Account.run_setBalance (h.load address) amount)]
  rfl

/-- The owner may set any balance. -/
theorem deliver_airdrop (h : WellFormed store) (hconfig : Config.slot.load store = .ok config)
    (address : Address) (amount : Word 256) :
    deliver (.command ⟨config.owner, []⟩ (.airdrop address amount)) store =
      (.ok {
        attributes := [("action", "airdrop")]
        events := [(Notice.balanceAirdropped address amount).toEvent] },
        ({ accountAt store address with balance := amount } : Account).save store) := by
  have hallowed : (Command.airdrop address amount).Allowed config config.owner := rfl
  rw [deliver, Action.commit, Message.action, run_execute hconfig hallowed, run_airdrop h]

/-- An operator may store any chunk. -/
theorem deliver_storeChunk (h : Config.slot.load store = .ok config) {sender : ChainAddress}
    (hoperator : config.IsOperator sender) (caller : Address) (hash : TxHash) (index : Word 8)
    (data : Bytes) :
    deliver (.command ⟨sender, []⟩ (.storeChunk caller hash index data)) store =
      (.ok {
        attributes := [("action", "store_tx_chunk")]
        events := [(Notice.chunkStored caller hash index).toEvent] },
        (Chunk.slot caller hash index).save data store) := by
  have hallowed : (Command.storeChunk caller hash index data).Allowed config sender := hoperator
  rw [deliver, Action.commit, Message.action, run_execute h hallowed]
  rfl

/-! ### A sample ledger -/

/-- The owner of a ledger. -/
def sampleOwner : ChainAddress := .ofName "owner"

/-- The settings of a ledger for the chain of the sample transaction. -/
def sampleConfig : Config where
  owner := sampleOwner
  operators := []
  tokenMint := defaultTokenMint
  chainId := Transaction.sample.chainId.getD defaultChainId

theorem isOperator_sampleOwner : sampleConfig.IsOperator sampleOwner := .inl rfl

/-- Somebody whom the owner never lets in. -/
def sampleStranger : ChainAddress := .ofName "stranger"

theorem not_isOperator_sampleStranger : ¬ sampleConfig.IsOperator sampleStranger := by
  decide +kernel

/-- The store of that ledger when it was set up. -/
def sampleSetUp : Store := Config.slot.save sampleConfig (Version.slot.save version ∅)

/-- An account with just as much as the sample transaction moves. -/
def sampleAccount : Account :=
  { Account.vacant Fixed.zero with balance := Transaction.sample.value }

/-- The store after the owner filled that account. -/
def sampleStore : Store := sampleAccount.save sampleSetUp

theorem run_sampleSetUp : ∃ response,
    (instantiate ⟨sampleOwner, []⟩ ⟨[], none, Transaction.sample.chainId⟩).run ∅ =
      (.ok response, sampleSetUp) := ⟨_, rfl⟩

theorem reachable_sampleSetUp : Reachable sampleSetUp := by
  obtain ⟨_, hrun⟩ := run_sampleSetUp
  exact .setUp hrun

theorem load_sampleSetUp : Config.slot.load sampleSetUp = .ok sampleConfig :=
  Slot.load_of_get?_eq_some (Slot.get?_save_self Config.slot sampleConfig _)

theorem load_sampleStore : Config.slot.load sampleStore = .ok sampleConfig := by
  have hget : sampleStore.get? Config.slot.key = sampleSetUp.get? Config.slot.key :=
    Account.get?_save_of_ne (Place.key_ne_account (p := .config) nofun) sampleSetUp
  refine Slot.load_of_get?_eq_some ?_
  rw [hget]
  exact Slot.get?_save_self Config.slot sampleConfig _

/-- The message by which the owner filled the account. -/
def sampleAirdrop : Message :=
  .command ⟨sampleOwner, []⟩ (.airdrop Fixed.zero Transaction.sample.value)

theorem deliver_sampleAirdrop :
    ∃ response, deliver sampleAirdrop sampleSetUp = (.ok response, sampleStore) := by
  have hvacant : accountAt sampleSetUp Fixed.zero = .vacant Fixed.zero :=
    accountAt_of_get?_eq_none (by decide +kernel)
  have hairdrop := deliver_airdrop reachable_sampleSetUp.wellFormed load_sampleSetUp Fixed.zero
    Transaction.sample.value
  rw [hvacant] at hairdrop
  exact ⟨_, hairdrop⟩

theorem reachable_sampleStore : Reachable sampleStore := by
  obtain ⟨_, hdeliver⟩ := deliver_sampleAirdrop
  have hstore : (deliver sampleAirdrop sampleSetUp).2 = sampleStore := by rw [hdeliver]
  exact hstore ▸ .deliver sampleAirdrop reachable_sampleSetUp

end Ledger
end RelayLedger
