/-
# A transaction in chunks that was refused can be sent again

The ledger removes the chunks of a transaction before it looks at its funds. On a chain this does no
harm: what is refused leaves everything as it was, so after the owner has filled the account the
same message finds the same chunks. It goes through then unless the recipient has no room or the
account no next nonce, and it does so only once, since the chunks are gone for good this time.

Key definitions: `Chain.Completed`.
Key theorems: `Chain.completed_of_send`, `Chain.retry_law`.
-/
import RelayLedger.Proofs.Chain.Operation
import RelayLedger.Proofs.Ledger.AccountStep
import RelayLedger.Proofs.Ledger.Funding

namespace RelayLedger
namespace Chain

open Ledger

variable {chain refused done : Chain} {signer : Wallet} {config : Config}
  {caller target : Address} {hash : TxHash} {count : Word 8} {b : Bytes} {tx : Transaction}

/-- A transfer from an account that was filled went through, and does not go through again. -/
structure Completed (chain : Chain) (t : Transfer) (hash : TxHash) (amount : Word 256)
    (done : Chain) : Prop where
  paid : t.PaidOnce amount chain.ledger done.ledger
  /-- As long as no first chunk is stored again, it is missing, whoever asks for however many. -/
  spent : ∀ operations : List Operation,
    (∀ c ∈ (log (ledgerMessages operations) done.ledger).commands, ¬ c.Stores t.source hash 0) →
    ∃ config, Config.slot.load (after operations done).ledger = .ok config ∧
      ∀ (anyone : Wallet) (count : Word 8),
        send anyone (.relayChunks t.source hash count) (after operations done) =
          (.error (.ledger (if config.IsOperator anyone.address then .chunkMissing hash 0
            else .unauthorized)), after operations done)

/-- Once the first chunk is gone, there is nothing to be sent again. -/
theorem spent_of_none (h : done.Reachable)
    (hnone : storedChunk done.ledger caller hash 0 = none) {operations : List Operation}
    (hstores : ∀ c ∈ (log (ledgerMessages operations) done.ledger).commands,
      ¬ c.Stores caller hash 0) :
    ∃ config, Config.slot.load (after operations done).ledger = .ok config ∧
      ∀ (anyone : Wallet) (count : Word 8),
        send anyone (.relayChunks caller hash count) (after operations done) =
          (.error (.ledger (if config.IsOperator anyone.address then .chunkMissing hash 0
            else .unauthorized)), after operations done) := by
  have hwell := (h.after operations).ledger.wellFormed
  have hstill : storedChunk (after operations done).ledger caller hash 0 = none := by
    rw [ledger_after]
    exact storedChunk_run_eq_none h.ledger hnone hstores
  obtain ⟨config, hconfig⟩ := hwell.exists_config
  refine ⟨config, hconfig, fun anyone count => send_eq_error_iff.mpr ⟨_, ?_, rfl, rfl⟩⟩
  exact deliver_relayChunks_of_none hwell hconfig hstill anyone.address count

/-- The owner may fill any account. -/
theorem send_airdrop (h : chain.Reachable) (hconfig : Config.slot.load chain.ledger = .ok config)
    {owner : Wallet} (howner : owner.address = config.owner) (address : Address)
    (amount : Word 256) :
    ∃ receipt, send owner (.airdrop address amount) chain =
      (.ok receipt, { chain with ledger := filled address amount chain.ledger }) := by
  have hairdrop := deliver_airdrop h.ledger.wellFormed hconfig address amount
  rw [← howner] at hairdrop
  exact ⟨_, send_eq_ok_iff.mpr ⟨_, _, hairdrop, rfl, rfl⟩⟩

theorem completed_of_send {amount : Word 256} {receipt : Receipt}
    (h : Chain.Reachable { chain with ledger := filled caller amount chain.ledger })
    (hwell : WellFormed chain.ledger)
    (hcollect : Chunk.collect caller hash count chain.ledger = .ok b)
    (hdecode : Transaction.decode b = .ok tx) (hrecipient : tx.recipient = some target)
    (hsend : send signer (.relayChunks caller hash count)
      { chain with ledger := filled caller amount chain.ledger } = (.ok receipt, done)) :
    Completed chain ⟨caller, target, tx.value⟩ hash amount done := by
  have hdone := h.of_send hsend
  obtain ⟨response, store, hdeliver, -, rfl⟩ := send_eq_ok_iff.mp hsend
  obtain ⟨hsettles, hgone⟩ := settles_relayChunks h.ledger.wellFormed hdeliver
    (collect_filled caller amount hcollect) hdecode hrecipient
  exact ⟨hsettles.paidOnce hwell, fun _ hstores => spent_of_none hdone hgone hstores⟩

/-- After a transaction in chunks was refused for want of funds, nothing has changed; and when the
owner fills the account with at least its value, it can be sent again, once. -/
theorem retry_law (h : chain.Reachable)
    (hrefused : send signer (.relayChunks caller hash count) chain =
      (.error (.ledger (.insufficientFunds caller)), refused)) :
    refused = chain ∧ ∃ config b tx target,
      Config.slot.load chain.ledger = .ok config ∧
      Chunk.collect caller hash count chain.ledger = .ok b ∧
      Transaction.decode b = .ok tx ∧ tx.recipient = some target ∧
      ∀ (owner : Wallet) (amount : Word 256), owner.address = config.owner →
        tx.value.toNat ≤ amount.toNat →
        ∃ receipt fresh, send owner (.airdrop caller amount) refused = (.ok receipt, fresh) ∧
          ∀ again : Wallet, config.IsOperator again.address →
            ((∃ receipt done, send again (.relayChunks caller hash count) fresh =
                (.ok receipt, done)) ↔
              (target = caller ∨
                (accountAt chain.ledger target).balance.toNat + tx.value.toNat < Word.bound 256) ∧
              (accountAt chain.ledger caller).nonce.toNat < Word.bound 64 - 1) ∧
            ∀ receipt done, send again (.relayChunks caller hash count) fresh =
                (.ok receipt, done) →
              Completed chain ⟨caller, target, tx.value⟩ hash amount done := by
  have hwell := h.ledger.wellFormed
  obtain ⟨config, hconfig⟩ := hwell.exists_config
  obtain ⟨refusal, hdeliver, hfailure, rfl⟩ := send_eq_error_iff.mp hrefused
  rw [← Failure.ledger.inj hfailure] at hdeliver
  obtain ⟨b, tx, target, hcollect, hdecode, hunfunded⟩ := unfunded_of_deliver hwell hconfig hdeliver
  refine ⟨rfl, config, b, tx, target, hconfig, hcollect, hdecode, hunfunded.recipient,
    fun owner amount howner henough => ?_⟩
  obtain ⟨receipt, hairdrop⟩ := send_airdrop h hconfig howner caller amount
  refine ⟨receipt, _, hairdrop, fun again hagain => ?_⟩
  have hfresh := h.of_send hairdrop
  constructor
  · have hload : Config.slot.load (filled caller amount refused.ledger) = .ok config :=
      (load_config_save _ _).trans hconfig
    have hsendable := exists_deliver_relayChunks_iff hfresh.ledger.wellFormed hload hagain
      (collect_filled caller amount hcollect) hdecode hunfunded.recipient
    rw [hunfunded.sendable_iff hwell henough] at hsendable
    exact exists_send_iff.trans hsendable
  · intro receipt done hsend
    exact completed_of_send hfresh hwell hcollect hdecode hunfunded.recipient hsend

/-- A transaction for any chain. -/
def sampleLoan : Transaction := { Transaction.sample with chainId := none, encodedLength := 32 }

theorem decode_sampleLoan : Transaction.decode sampleLoan.encode = .ok sampleLoan :=
  Transaction.decode_eq_ok_iff.mpr ⟨rfl, by decide +kernel, by decide +kernel⟩

/-- The chain on which the validator stored that transaction for an account with nothing in it. -/
def sampleStocked : Chain :=
  { setUp with ledger := (Chunk.slot Fixed.zero Fixed.zero 0).save sampleLoan.encode setUp.ledger }

theorem reachable_sampleStocked : sampleStocked.Reachable := by
  have hstore := deliver_storeChunk load_startingConfig isOperator_validator Fixed.zero Fixed.zero 0
    sampleLoan.encode
  obtain ⟨receipt, hsend⟩ : ∃ receipt, send setUp.wallets.validator
      (.storeChunk Fixed.zero Fixed.zero 0 sampleLoan.encode) setUp =
        (.ok receipt, sampleStocked) := ⟨_, send_eq_ok_iff.mpr ⟨_, _, hstore, rfl, rfl⟩⟩
  exact Reachable.setUp.of_send hsend

theorem accountAt_sampleStocked (address : Address) :
    accountAt sampleStocked.ledger address = .vacant address := by
  obtain ⟨_, hrun⟩ := run_setUp
  rw [accountAt_eq_getD, sampleStocked, storedAccount_saveChunk, storedAccount_setUp hrun,
    Option.getD_none]

theorem collect_sampleStocked :
    Chunk.collect Fixed.zero Fixed.zero ⟨1, by decide⟩ sampleStocked.ledger =
      .ok sampleLoan.encode := by
  have hbelow : (⟨1, by decide⟩ : Word 8).below = [0] := by decide
  refine Chunk.collect_eq_ok_iff.mpr ⟨by decide, [sampleLoan.encode], ?_, by simp⟩
  rw [hbelow, sampleStocked, List.map_singleton, storedChunk_saveChunk, if_pos ⟨rfl, rfl, rfl⟩]
  rfl

theorem refused_sampleStocked :
    send setUp.wallets.validator (.relayChunks Fixed.zero Fixed.zero ⟨1, by decide⟩)
      sampleStocked = (.error (.ledger (.insufficientFunds Fixed.zero)), sampleStocked) := by
  have hload : Config.slot.load sampleStocked.ledger = .ok startingConfig :=
    (load_config_saveChunk Fixed.zero Fixed.zero 0 _ _).trans load_startingConfig
  have hunfunded : Unfunded startingConfig sampleStocked.ledger Fixed.zero
      (Transaction.sample.recipient.getD Fixed.zero) sampleLoan := {
    chainId := .inl rfl
    recipient := rfl
    noCode := by rw [accountAt_sampleStocked]; rfl
    short := by rw [accountAt_sampleStocked]; decide }
  refine send_eq_error_iff.mpr ⟨_, ?_, rfl, rfl⟩
  exact hunfunded.deliver_relayChunks reachable_sampleStocked.ledger.wellFormed hload
    isOperator_validator collect_sampleStocked decode_sampleLoan

/-- Once the account is filled, the transaction goes through, and then no more. -/
theorem retry_law_sample : sampleStocked.Reachable ∧ ∃ receipt fresh receipt' done failure,
    send setUp.wallets.validator (.airdrop Fixed.zero sampleLoan.value) sampleStocked =
      (.ok receipt, fresh) ∧
    send setUp.wallets.validator (.relayChunks Fixed.zero Fixed.zero ⟨1, by decide⟩) fresh =
      (.ok receipt', done) ∧
    send setUp.wallets.validator (.relayChunks Fixed.zero Fixed.zero ⟨1, by decide⟩) done =
      (.error failure, done) := by
  obtain ⟨-, config, b, tx, target, hconfig, hcollect, hdecode, hrecipient, hfill⟩ :=
    retry_law reachable_sampleStocked refused_sampleStocked
  have hload : Config.slot.load sampleStocked.ledger = .ok startingConfig :=
    (load_config_saveChunk Fixed.zero Fixed.zero 0 _ _).trans load_startingConfig
  obtain rfl := Except.ok.inj (hconfig.symm.trans hload)
  obtain rfl := Except.ok.inj (hcollect.symm.trans collect_sampleStocked)
  obtain rfl := Except.ok.inj (hdecode.symm.trans decode_sampleLoan)
  obtain ⟨receipt, fresh, hairdrop, hagain⟩ :=
    hfill setUp.wallets.validator sampleLoan.value address_validator (Nat.le_refl _)
  obtain ⟨hiff, hcompleted⟩ := hagain setUp.wallets.validator isOperator_validator
  rw [accountAt_sampleStocked, accountAt_sampleStocked] at hiff
  have hroom : (Account.vacant target).balance.toNat + sampleLoan.value.toNat < Word.bound 256 := by
    simpa [Account.vacant] using sampleLoan.value.isLt
  obtain ⟨receipt', done, hsend⟩ := hiff.mpr ⟨.inr hroom, by decide⟩
  obtain ⟨config, -, hspent⟩ :=
    (hcompleted receipt' done hsend).spent [] (by simp [log, Log.commands])
  have hagain := hspent setUp.wallets.validator ⟨1, by decide⟩
  rw [after_nil] at hagain
  exact ⟨reachable_sampleStocked, receipt, fresh, receipt', done, _, hairdrop, hsend, hagain⟩

end Chain
end RelayLedger
