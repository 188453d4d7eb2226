/-
# What one message does

Whatever a ledger does with a message is one of a few things. `Accepts` lists what a message that
goes through leaves and answers, one case for each command, with the conditions under which it got
there; all that later proofs need of a step is in it, so that they never open an action. A message
that is refused leaves the store as it was, save that a transaction of chunks that were already put
together leaves them removed (`run_action_error`); where failed messages are taken back, nothing is
left of it at all.

Key definitions: `Ledger.Transfer.Leaves`, `Ledger.Relays`, `Ledger.Performs`, `Ledger.Accepts`.
Key theorems: `Ledger.accepts_of_run`, `Ledger.run_action_error`, `Ledger.deliver_cases`.
-/
import RelayLedger.Proofs.Ledger.Contents
import RelayLedger.Proofs.Ledger.DryRun

namespace RelayLedger
namespace Ledger

open RelayLedger.Action

variable {store after : Store} {config : Config}

/-! ### Transactions -/

/-- What a transfer leaves of a store in which its sender has the value and its recipient the room
for it: one account kept anew, or two. -/
inductive Transfer.Leaves (t : Transfer) (store : Store) (nonce : Word 64) : Store → Prop
  /-- An account that sends to itself only counts. -/
  | counted (same : t.target = t.source) :
    Leaves t store nonce
      (({ accountAt store t.source with nonce := nonce } : Account).save store)
  | moved {less more : Word 256} (other : t.target ≠ t.source)
      (paid : (accountAt store t.source).balance.sub? t.value = some less)
      (received : (accountAt store t.target).balance.add? t.value = some more) :
    Leaves t store nonce
      (({ accountAt store t.source with balance := less, nonce := nonce } : Account).save
        (({ accountAt store t.target with balance := more } : Account).save store))

/-- What the relay of a transaction answers and leaves. -/
inductive Relays (config : Config) (caller : Address) (b : Bytes) (store : Store) :
    Response → Store → Prop
  | sent {tx : Transaction} {target : Address} {nonce : Word 64} {after : Store}
      (decoded : Transaction.decode b = .ok tx)
      (sendable : Sendable config store caller target tx)
      (next : nonce.toNat = (accountAt store caller).nonce.toNat + 1)
      (leaves : (Transfer.mk caller target tx.value).Leaves store nonce after) :
    Relays config caller b store ((Transfer.mk caller target tx.value).response nonce) after

theorem relays_of_run (h : WellFormed store) {caller : Address} {b : Bytes} {response : Response}
    (hrun : (relay config caller b).run store = (.ok response, after)) :
    Relays config caller b store response after := by
  obtain ⟨t, hcheck, hrun⟩ := run_relay_eq_ok_iff.mp hrun
  obtain ⟨tx, target, hdecode, hsend, rfl⟩ := (check_eq_ok_iff h).mp hcheck
  obtain ⟨nonce, hnonce⟩ := Word.exists_next hsend.countable
  have hnext := Word.ofNat?_eq_some_iff.mp hnonce
  by_cases hself : target = caller
  · have happly := Transfer.run_apply_self (t := ⟨caller, target, tx.value⟩) hself (h.load caller)
      (h.address_accountAt caller) hsend.funds hnonce
    cases happly.symm.trans hrun
    exact .sent hdecode hsend hnext (.counted hself)
  · obtain ⟨less, hless⟩ := Word.exists_sub? hsend.funds
    obtain ⟨more, hmore⟩ := Word.exists_add? (hsend.room.resolve_left hself)
    have happly := Transfer.run_apply_of_ne (t := ⟨caller, target, tx.value⟩) (Ne.symm hself)
      (h.load caller) (h.address_accountAt caller) (h.load target) (h.address_accountAt target)
      hless hmore hnonce
    cases happly.symm.trans hrun
    exact .sent hdecode hsend hnext (.moved hself hless hmore)

/-- A transaction is refused when it is looked over, or not at all. -/
theorem run_relay_error (h : WellFormed store) {caller : Address} {b : Bytes} {refusal : Refusal}
    (hrun : (relay config caller b).run store = (.error refusal, after)) :
    check config caller b store = .error refusal ∧ after = store := by
  rw [run_relay] at hrun
  cases hcheck : check config caller b store with
  | error e =>
    rw [hcheck] at hrun
    cases hrun
    exact ⟨rfl, rfl⟩
  | ok t =>
    rw [hcheck] at hrun
    obtain ⟨response, hok⟩ := run_apply_of_check h hcheck
    exact nomatch hok.symm.trans (congrArg Prod.fst hrun)

/-! ### Commands -/

/-- What a command answers and leaves, one case for each. -/
inductive Performs (config : Config) (store : Store) : Command → Response → Store → Prop
  | createAccount {address : Address} {code : Bytes}
      (free : storedAccount store address = none) :
    Performs config store (.createAccount address code)
      { attributes := [("action", "create_account"), ("address", toString address)]
        events := [(Notice.accountCreated address (decide (code ≠ []))).toEvent] }
      (({ Account.vacant address with code := code } : Account).save store)
  | relay {caller : Address} {b : Bytes} {response : Response} {after : Store}
      (relayed : Relays config caller b store response after) :
    Performs config store (.relay caller b) response after
  | storeChunk {caller : Address} {hash : TxHash} {index : Word 8} {data : Bytes} :
    Performs config store (.storeChunk caller hash index data)
      { attributes := [("action", "store_tx_chunk")]
        events := [(Notice.chunkStored caller hash index).toEvent] }
      ((Chunk.slot caller hash index).save data store)
  | relayChunks {caller : Address} {hash : TxHash} {count : Word 8} {b : Bytes}
      {response : Response} {after : Store}
      (collected : Chunk.collect caller hash count store = .ok b)
      (relayed : Relays config caller b (Chunk.removeAll caller hash count store) response after) :
    Performs config store (.relayChunks caller hash count)
      (response.addEvent (Notice.chunksAssembled caller hash count (.truncate b.length)).toEvent)
      after
  | airdrop {address : Address} {amount : Word 256} :
    Performs config store (.airdrop address amount)
      { attributes := [("action", "airdrop")]
        events := [(Notice.balanceAirdropped address amount).toEvent] }
      (({ accountAt store address with balance := amount } : Account).save store)
  | updateOperators {add remove operators : List ChainAddress}
      (updated : updatedOperators config.operators add remove = .ok operators) :
    Performs config store (.updateOperators add remove)
      { attributes := [("action", "update_operators")]
        events := [(Notice.operatorsUpdated operators).toEvent] }
      (Config.slot.save { config with operators := operators } store)

/-- An account is created where none is, with the given code and nothing else. -/
theorem run_create (address : Address) (code : Bytes) (store : Store) :
    (Account.create address code).run store =
      if (Account.slot address).isTaken store then (.error (.accountExists address), store)
      else (.ok { Account.vacant address with code := code },
        ({ Account.vacant address with code := code } : Account).save store) := by
  rw [Account.create, run_bind, run_read]
  simp only
  split <;> rfl

theorem storedAccount_of_not_isTaken {address : Address}
    (h : ¬ (Account.slot address).isTaken store = true) : storedAccount store address = none :=
  Slot.kept?_of_get?_eq_none (by simpa [Slot.isTaken, OrderedMap.contains] using h)

/-- One case for each command. -/
theorem performs_of_run (h : WellFormed store) {command : Command} {response : Response}
    (hrun : (perform config command).run store = (.ok response, after)) :
    Performs config store command response after := by
  cases command with
  | createAccount address code =>
    obtain ⟨a, _, hcreate, hrun⟩ := run_bind_eq_ok_iff.mp hrun
    rw [run_create] at hcreate
    split at hcreate
    · cases hcreate
    next hfree =>
      cases hcreate
      cases hrun
      exact .createAccount (storedAccount_of_not_isTaken hfree)
  | relay caller b => exact .relay (relays_of_run h hrun)
  | storeChunk caller hash index data =>
    cases hrun
    exact .storeChunk
  | relayChunks caller hash count =>
    obtain ⟨b, _, hread, hrun⟩ := run_bind_eq_ok_iff.mp hrun
    rw [run_read, Prod.mk.injEq] at hread
    obtain ⟨hcollect, rfl⟩ := hread
    obtain ⟨_, _, hwrite, hrun⟩ := run_bind_eq_ok_iff.mp hrun
    cases hwrite
    obtain ⟨response, _, hrelay, hrun⟩ := run_bind_eq_ok_iff.mp hrun
    cases hrun
    exact .relayChunks hcollect (relays_of_run (h.removeAll caller hash count) hrelay)
  | airdrop address amount =>
    cases (run_airdrop h address amount).symm.trans hrun
    exact .airdrop
  | updateOperators add remove =>
    obtain ⟨operators, _, hread, hrun⟩ := run_bind_eq_ok_iff.mp hrun
    rw [run_read, Prod.mk.injEq, ofFault_eq_ok_iff] at hread
    obtain ⟨hupdated, rfl⟩ := hread
    cases hrun
    exact .updateOperators hupdated

/-- A command that is refused has written nothing, unless chunks were put together before. -/
theorem run_perform_error (h : WellFormed store) {command : Command} {refusal : Refusal}
    (hrun : (perform config command).run store = (.error refusal, after)) :
    after = store ∨ ∃ caller hash count b, command = .relayChunks caller hash count ∧
      Chunk.collect caller hash count store = .ok b ∧
      after = Chunk.removeAll caller hash count store := by
  cases command with
  | createAccount address code =>
    rw [perform, run_bind, run_create] at hrun
    split at hrun
    next hcreate =>
      split at hcreate <;> cases hcreate
      cases hrun
    next hcreate =>
      split at hcreate <;> cases hcreate
      cases hrun
      exact .inl rfl
  | relay caller b => exact .inl (run_relay_error h hrun).2
  | storeChunk caller hash index data => cases hrun
  | relayChunks caller hash count =>
    cases hcollect : Chunk.collect caller hash count store with
    | error e =>
      cases (run_bind_error (by rw [run_read, hcollect])).symm.trans hrun
      exact .inl rfl
    | ok b =>
      have hread : (Action.read (Chunk.collect caller hash count)).run store = (.ok b, store) := by
        rw [run_read, hcollect]
      rw [perform, run_bind_ok hread, run_bind_ok (run_write _ _)] at hrun
      cases hrelay : (relay config caller b).run (Chunk.removeAll caller hash count store) with
      | mk outcome written =>
        cases outcome with
        | ok response => cases (run_bind_ok hrelay).symm.trans hrun
        | error e =>
          cases (run_bind_error hrelay).symm.trans hrun
          obtain ⟨-, rfl⟩ := run_relay_error (h.removeAll caller hash count) hrelay
          exact .inr ⟨caller, hash, count, b, rfl, hcollect, rfl⟩
  | airdrop address amount =>
    cases (run_airdrop h address amount).symm.trans hrun
  | updateOperators add remove =>
    cases hupdated : ofFault (updatedOperators config.operators add remove) with
    | error e =>
      cases (run_bind_error (by rw [run_read, hupdated])).symm.trans hrun
      exact .inl rfl
    | ok operators =>
      cases (run_bind_ok (by rw [run_read, hupdated])).symm.trans hrun

/-! ### Messages -/

/-- What a message that goes through answers and leaves. -/
inductive Accepts (store : Store) : Message → Response → Store → Prop
  | command {envelope : Envelope} {command : Command} {config : Config} {response : Response}
      {after : Store} (unpaid : envelope.funds = [])
      (configured : Config.slot.load store = .ok config)
      (allowed : command.Allowed config envelope.sender)
      (performs : Performs config store command response after) :
    Accepts store (.command envelope command) response after
  | change {c : Change} {config : Config} (configured : Config.slot.load store = .ok config) :
    Accepts store (.change c) { attributes := [("migrated", "true")] }
      (Version.slot.save version (Config.slot.save { config with
        tokenMint := c.tokenMint.getD config.tokenMint
        chainId := c.chainId.getD config.chainId } store))

theorem accepts_of_run (h : WellFormed store) {m : Message} {response : Response}
    (hrun : m.action.run store = (.ok response, after)) : Accepts store m response after := by
  obtain ⟨config, hconfig⟩ := h.exists_config
  cases m with
  | command envelope command =>
    rw [Message.action, run_execute_eq hconfig] at hrun
    split at hrun
    · cases hrun
    next hfunds =>
      split at hrun
      next hallowed =>
        exact .command (not_not.mp hfunds) hconfig hallowed (performs_of_run h hrun)
      · cases hrun
  | change c =>
    rw [Message.action, Ledger.change, run_bind_ok (run_settings hconfig)] at hrun
    cases hrun
    exact .change hconfig

/-- A message that is refused has written nothing, unless chunks were put together before. -/
theorem run_action_error (h : WellFormed store) {m : Message} {refusal : Refusal}
    (hrun : m.action.run store = (.error refusal, after)) :
    after = store ∨ ∃ envelope caller hash count b,
      m = .command envelope (.relayChunks caller hash count) ∧
      Chunk.collect caller hash count store = .ok b ∧
      after = Chunk.removeAll caller hash count store := by
  obtain ⟨config, hconfig⟩ := h.exists_config
  cases m with
  | command envelope command =>
    rw [Message.action, run_execute_eq hconfig] at hrun
    split at hrun
    · cases hrun
      exact .inl rfl
    · split at hrun
      · rcases run_perform_error h hrun with rfl | ⟨caller, hash, count, b, rfl, hcollect, rfl⟩
        · exact .inl rfl
        · exact .inr ⟨envelope, caller, hash, count, b, rfl, hcollect, rfl⟩
      · cases hrun
        exact .inl rfl
  | change c =>
    rw [Message.action, Ledger.change, run_bind_ok (run_settings hconfig)] at hrun
    cases hrun

/-- A message either is refused and taken back, or goes through. -/
theorem deliver_cases (h : WellFormed store) (m : Message) :
    (∃ refusal written, m.action.run store = (.error refusal, written) ∧
        deliver m store = (.error refusal, store)) ∨
      ∃ response after, deliver m store = (.ok response, after) ∧
        Accepts store m response after := by
  rw [deliver, commit]
  cases hrun : m.action.run store with
  | mk outcome after =>
    cases outcome with
    | error refusal => exact .inl ⟨refusal, after, rfl, rfl⟩
    | ok response => exact .inr ⟨response, after, rfl, accepts_of_run h hrun⟩

theorem accepts_of_deliver (h : WellFormed store) {m : Message} {response : Response}
    (hdeliver : deliver m store = (.ok response, after)) : Accepts store m response after := by
  rcases deliver_cases h m with ⟨refusal, _, -, hrefused⟩ | ⟨_, _, hdone, haccepts⟩
  · cases hrefused.symm.trans hdeliver
  · cases hdone.symm.trans hdeliver
    exact haccepts

end Ledger
end RelayLedger
