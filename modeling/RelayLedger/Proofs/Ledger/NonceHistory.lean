/-
# A nonce counts the transactions of its account

Only a transaction that goes through on behalf of an account counts up the account's nonce, in one
piece or in chunks, and it does so once. So the nonce that a ledger tells of an account is the
number of its transactions since the ledger was set up, and since it is a word it never wraps. The
answer to a transaction tells the new number three times: as data, as attribute and in the event.

Key definitions: `Ledger.Log.transactions`, `Ledger.toldNonce`, `Ledger.TellsNonce`,
`Ledger.NonceLaw`.
Key theorems: `Ledger.nonce_run`, `Ledger.tellsNonce_of_performs`, `Ledger.nonce_law`.
-/
import RelayLedger.Proofs.Json.Lawful
import RelayLedger.Proofs.Ledger.AccountStep
import RelayLedger.Proofs.Ledger.History

namespace RelayLedger
namespace Ledger

variable {store after start : Store} {address : Address}

/-! ### Counting -/

/-- How many transactions went through on behalf of an account. -/
def Log.transactions (log : Log) (address : Address) : Nat :=
  log.commands.countP fun c => c.caller = some address

theorem Log.transactions_concat (log : Log) (envelope : Envelope) (c : Command)
    (response : Response) :
    transactions (log ++ [(.command envelope c, .ok response)]) address =
      log.transactions address + if c.caller = some address then 1 else 0 := by
  rw [transactions, commands_concat_command, List.countP_append, List.countP_singleton,
    transactions]
  simp only [decide_eq_true_eq]

theorem nonce_performs (h : WellFormed store) {config : Config} {c : Command} {response : Response}
    (hperforms : Performs config store c response after) (address : Address) :
    (accountAt after address).nonce.toNat =
      (accountAt store address).nonce.toNat + if c.caller = some address then 1 else 0 := by
  rw [accountAt_eq_getD, accountAt_eq_getD]
  exact (makes_of_performs h hperforms address).nonce

theorem accountAt_change (config : Config) (store : Store) (address : Address) :
    accountAt (Version.slot.save version (Config.slot.save config store)) address =
      accountAt store address :=
  accountAt_congr (storedAccount_change config store address)

/-- In any run a nonce grows by the number of the account's transactions. -/
theorem nonce_run (h : Reachable start) (messages : List Message) (address : Address) :
    (accountAt (run messages start).2 address).nonce.toNat =
      (accountAt start address).nonce.toNat + (log messages start).transactions address := by
  refine commands_induction (P := fun commands store => (accountAt store address).nonce.toNat =
    (accountAt start address).nonce.toNat +
      commands.countP fun c => c.caller = some address) h rfl ?_ ?_ messages
  · intro commands store config c response after hreach hperforms hstore
    have hstep := nonce_performs hreach.wellFormed hperforms address
    rw [List.countP_append, List.countP_singleton]
    simp only [decide_eq_true_eq]
    omega
  · intro commands store config hstore
    rw [accountAt_change]
    exact hstore

/-! ### What is told of it -/

/-- The nonce that a ledger tells of an account when it is asked. -/
def toldNonce (address : Address) (store : Store) : Except Fault (Word 64) := do
  let text ← answer (.account address) store
  let summary ← Json.decodeAs AccountSummary text
  return summary.nonce

theorem WellFormed.toldNonce_eq (h : WellFormed store) (address : Address) :
    toldNonce address store = .ok (accountAt store address).nonce := by
  have hanswer : answer (.account address) store =
      .ok (Json.encode (accountAt store address).summary) := by
    rw [answer, h.load]
    rfl
  rw [toldNonce, hanswer, ok_bind, Json.decodeAs_encode]
  rfl

/-- The answer to a transaction tells a nonce in each of its parts; of the events one is about the
transaction. -/
structure TellsNonce (caller : Address) (count : Nat) (response : Response) : Prop where
  inData : response.data = some (Json.digits count)
  inAttribute : response.attributes.lookup "nonce" = some (toString count)
  inEvent : ∃ e, response.events.filter (fun e => e.kind = "_transaction_executed") = [e] ∧
    e.attributes.lookup "from" = some (toString caller) ∧
    e.attributes.lookup "nonce" = some (toString count)

theorem tellsNonce_response (t : Transfer) (nonce : Word 64) :
    TellsNonce t.source nonce.toNat (t.response nonce) where
  inData := rfl
  inAttribute := rfl
  inEvent := ⟨(Notice.transactionExecuted t.source t.target t.value nonce).toEvent, rfl, rfl, rfl⟩

/-- The notice that chunks were put together is another event. -/
theorem TellsNonce.addEvent {count : Nat} {response : Response}
    (h : TellsNonce address count response) (caller : Address) (hash : TxHash) (chunks : Word 8)
    (size : Word 64) :
    TellsNonce address count
      (response.addEvent (Notice.chunksAssembled caller hash chunks size).toEvent) where
  inData := h.inData
  inAttribute := h.inAttribute
  inEvent := by
    obtain ⟨e, hfilter, he⟩ := h.inEvent
    refine ⟨e, ?_, he⟩
    rw [Response.addEvent, List.filter_append, hfilter]
    rfl

theorem tellsNonce_of_relays {config : Config} {b : Bytes} {response : Response}
    (hrelays : Relays config address b store response after) :
    TellsNonce address ((accountAt store address).nonce.toNat + 1) response := by
  cases hrelays with
  | @sent tx target nonce _ _ _ next _ =>
    rw [← next]
    exact tellsNonce_response ⟨address, target, tx.value⟩ nonce

/-- A transaction that goes through answers the nonce that follows the old one. -/
theorem tellsNonce_of_performs {config : Config} {c : Command} {response : Response}
    (hperforms : Performs config store c response after) (hc : c.caller = some address) :
    TellsNonce address ((accountAt store address).nonce.toNat + 1) response := by
  cases hperforms with
  | relay relayed =>
    cases hc
    exact tellsNonce_of_relays relayed
  | @relayChunks caller hash count b _ _ _ relayed =>
    cases hc
    have hsame : accountAt (Chunk.removeAll address hash count store) address =
        accountAt store address :=
      accountAt_congr (storedAccount_removeAll address hash count store address)
    have htells := tellsNonce_of_relays relayed
    rw [hsame] at htells
    exact htells.addEvent address hash count (.truncate b.length)
  | _ => simp [Command.caller] at hc

/-! ### The law -/

/-- What the history of a ledger tells of the nonce of one account. -/
structure NonceLaw (start : Store) (messages : List Message) (address : Address) : Prop where
  told : ∃ nonce, toldNonce address (run messages start).2 = .ok nonce ∧
    nonce.toNat = (log messages start).transactions address
  /-- A transaction that goes through answers the new number, which is the next one. -/
  answered : ∀ sent c response, c.caller = some address →
    (deliver (.command sent c) (run messages start).2).1 = .ok response →
      TellsNonce address ((log (messages ++ [.command sent c]) start).transactions address)
        response ∧
      (log (messages ++ [.command sent c]) start).transactions address =
        (log messages start).transactions address + 1
  /-- Messages that run no transaction on behalf of the account leave its nonce alone. -/
  others : ∀ m, (∀ sent c, m = .command sent c → c.caller ≠ some address) →
    toldNonce address (deliver m (run messages start).2).2 =
      toldNonce address (run messages start).2
  refused : ∀ m refusal, (deliver m (run messages start).2).1 = .error refusal →
    toldNonce address (deliver m (run messages start).2).2 =
      toldNonce address (run messages start).2

/-- A message that runs no transaction on behalf of an account leaves its nonce alone. -/
theorem toldNonce_deliver (h : Reachable store) {m : Message}
    (hother : ∀ sent c, m = .command sent c → c.caller ≠ some address) :
    toldNonce address (deliver m store).2 = toldNonce address store := by
  rw [(Reachable.deliver m h).wellFormed.toldNonce_eq, h.wellFormed.toldNonce_eq,
    Except.ok.injEq]
  rcases storedAccount_deliver h.wellFormed m address with hsame | ⟨sent, c, _, rfl, -, hmakes⟩
  · rw [accountAt_congr hsame]
  · have hnonce := hmakes.nonce
    rw [if_neg (hother sent c rfl), Nat.add_zero, ← accountAt_eq_getD, ← accountAt_eq_getD]
      at hnonce
    exact Word.ext_toNat hnonce

/-- At any time after a ledger was set up, the nonce of an account is the number of its transactions
that went through. -/
theorem nonce_law {envelope : Envelope} {setup : Setup} {response : Response}
    (h : (instantiate envelope setup).run ∅ = (.ok response, start)) (messages : List Message)
    (address : Address) : NonceLaw start messages address := by
  have hstart := Reachable.setUp h
  have hreach := hstart.run messages
  have hvacant : accountAt start address = .vacant address := by
    rw [accountAt_eq_getD, storedAccount_setUp h, Option.getD_none]
  have hcount : (accountAt (run messages start).2 address).nonce.toNat =
      (log messages start).transactions address := by
    have hrun := nonce_run hstart messages address
    rw [hvacant] at hrun
    exact hrun.trans (Nat.zero_add _)
  refine ⟨⟨_, hreach.wellFormed.toldNonce_eq address, hcount⟩, ?_, ?_, ?_⟩
  · intro sent c response hc hok
    have hdeliver : deliver (.command sent c) (run messages start).2 = (.ok response, _) :=
      Prod.ext hok rfl
    have hlog : (log (messages ++ [.command sent c]) start).transactions address =
        (log messages start).transactions address + 1 := by
      rw [log_concat, hok, Log.transactions_concat, if_pos hc]
    rw [hlog, ← hcount]
    refine ⟨?_, rfl⟩
    cases accepts_of_deliver hreach.wellFormed hdeliver with
    | command _ _ _ performs => exact tellsNonce_of_performs performs hc
  · intro m hother
    exact toldNonce_deliver hreach hother
  · intro m refusal hm
    have hsame : (deliver m (run messages start).2).2 = (run messages start).2 :=
      Action.commit_snd_of_error hm
    rw [hsame]

theorem commands_sampleRelay : (log [sampleAirdrop, sampleRelay] sampleSetUp).commands =
    [.airdrop Fixed.zero Transaction.sample.value, .relay Fixed.zero Transaction.sampleBytes] := by
  obtain ⟨_, hairdrop⟩ := deliver_sampleAirdrop
  obtain ⟨_, hrelay⟩ := deliver_sampleRelay reachable_sampleStore.wellFormed load_sampleStore
    fun _ => rfl
  rw [sampleAirdrop, commands_cons hairdrop, sampleRelay, commands_cons hrelay]
  rfl

theorem nonce_law_sample : ∃ response,
    (instantiate ⟨sampleOwner, []⟩ ⟨[], none, Transaction.sample.chainId⟩).run ∅ =
      (.ok response, sampleSetUp) ∧
    ∃ nonce, toldNonce Fixed.zero (run [sampleAirdrop, sampleRelay] sampleSetUp).2 = .ok nonce ∧
      nonce.toNat = 1 := by
  obtain ⟨response, hrun⟩ := run_sampleSetUp
  obtain ⟨nonce, htold, hnonce⟩ := (nonce_law hrun [sampleAirdrop, sampleRelay] Fixed.zero).told
  refine ⟨response, hrun, nonce, htold, ?_⟩
  rw [hnonce, Log.transactions, commands_sampleRelay]
  rfl

end Ledger
end RelayLedger
