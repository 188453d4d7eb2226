/-
# The ledger of a chain

Seen from its ledger, whatever happens on a chain is a sequence of messages: those whose text can be
read as a command, and changes of the contract; what goes to the counter is not noticed. So all
that holds of every run of a ledger holds of the ledger of every chain (`Reachable.ledger`). The
other way round a command that is sent to the ledger as JSON text reaches it as it was meant
(`send_eq`), and a query likewise (`query_ledger`).

Key definitions: `Chain.Operation`, `Chain.after`, `Chain.Reachable`, `Chain.send`.
Key theorems: `Chain.ledger_after`, `Chain.Reachable.ledger`, `Chain.send_eq`, `Chain.query_ledger`.
-/
import RelayLedger.Chain
import RelayLedger.Proofs.Ledger.History
import RelayLedger.Proofs.Ledger.Message
import RelayLedger.Proofs.Ledger.Settings

namespace RelayLedger
namespace Chain

/-! ### What happens on a chain -/

/-- A message to one of the contracts, by anyone, or a change of the ledger. -/
inductive Operation
  | message (contract : Hosted) (envelope : Envelope) (text : Bytes)
  | change (change : Ledger.Change)

namespace Operation

/-- The chain after an operation, whatever its outcome. -/
def apply (chain : Chain) : Operation → Chain
  | .message contract envelope text => (respond contract envelope text chain).2
  | .change c => (migrate c chain).2

/-- What the ledger gets of an operation. -/
def ledgerMessage? : Operation → Option Ledger.Message
  | .message .ledger envelope text =>
    match Json.decodeAs Ledger.Command text with
    | .ok command => some (.command envelope command)
    | .error _ => none
  | .message .counter _ _ => none
  | .change c => some (.change c)

end Operation

/-- The chain after operations, in order. -/
def after (operations : List Operation) (chain : Chain) : Chain :=
  operations.foldl Operation.apply chain

/-- What the ledger gets of operations. -/
def ledgerMessages (operations : List Operation) : List Ledger.Message :=
  operations.filterMap Operation.ledgerMessage?

/-- The chains that come about when any operations follow the set-up. -/
inductive Reachable : Chain → Prop
  | setUp : Reachable setUp
  | apply {chain : Chain} (operation : Operation) : Reachable chain → Reachable (operation.apply chain)

variable {chain : Chain}

theorem respond_ledger {text : Bytes} {command : Ledger.Command}
    (h : Json.decodeAs Ledger.Command text = .ok command) (envelope : Envelope) (chain : Chain) :
    respond .ledger envelope text chain =
      ((Ledger.deliver (.command envelope command) chain.ledger).1.mapError .ledger,
        { chain with ledger := (Ledger.deliver (.command envelope command) chain.ledger).2 }) := by
  simp only [respond, h]

/-- A text that is no command changes nothing. -/
theorem respond_ledger_of_error {text : Bytes} {fault : Fault}
    (h : Json.decodeAs Ledger.Command text = .error fault) (envelope : Envelope) (chain : Chain) :
    respond .ledger envelope text chain = (.error (.fault fault), chain) := by
  simp only [respond, h]

/-- The counter has nothing to do with the ledger. -/
theorem ledger_respond_counter (envelope : Envelope) (text : Bytes) (chain : Chain) :
    (respond .counter envelope text chain).2.ledger = chain.ledger := by
  simp only [respond]
  split <;> rfl

theorem ledger_apply (operation : Operation) (chain : Chain) :
    (operation.apply chain).ledger =
      (Ledger.run operation.ledgerMessage?.toList chain.ledger).2 := by
  cases operation with
  | message contract envelope text =>
    cases contract with
    | counter => exact ledger_respond_counter envelope text chain
    | ledger =>
      rw [Operation.apply, Operation.ledgerMessage?]
      cases hread : Json.decodeAs Ledger.Command text with
      | error fault => rw [respond_ledger_of_error hread]; rfl
      | ok command => rw [respond_ledger hread]; rfl
  | change c => rfl

@[simp] theorem after_nil (chain : Chain) : after [] chain = chain := rfl

@[simp] theorem ledgerMessages_nil : ledgerMessages [] = [] := rfl

theorem ledgerMessages_cons (operation : Operation) (rest : List Operation) :
    ledgerMessages (operation :: rest) =
      operation.ledgerMessage?.toList ++ ledgerMessages rest := by
  rw [ledgerMessages, List.filterMap_cons]
  cases operation.ledgerMessage? <;> rfl

/-- After operations the ledger has run on the messages that it got. -/
theorem ledger_after : ∀ (operations : List Operation) (chain : Chain),
    (after operations chain).ledger = (Ledger.run (ledgerMessages operations) chain.ledger).2
  | [], _ => rfl
  | operation :: rest, chain => by
    have ih := ledger_after rest (operation.apply chain)
    rw [ledger_apply] at ih
    rw [ledgerMessages_cons, Ledger.run_append]
    exact ih

theorem run_setUp : ∃ response,
    (Ledger.instantiate ⟨.ofName "validator", []⟩ ⟨[], none, none⟩).run ∅ =
      (.ok response, setUp.ledger) := ⟨_, rfl⟩

theorem address_validator : setUp.wallets.validator.address = .ofName "validator" := rfl

/-- The settings of the ledger on a chain that was set up. -/
def startingConfig : Ledger.Config where
  owner := .ofName "validator"
  operators := []
  tokenMint := Ledger.defaultTokenMint
  chainId := Ledger.defaultChainId

theorem load_startingConfig : Ledger.Config.slot.load setUp.ledger = .ok startingConfig := by
  obtain ⟨_, hrun⟩ := run_setUp
  rw [Ledger.load_setUp hrun]
  rfl

theorem isOperator_validator : startingConfig.IsOperator setUp.wallets.validator.address :=
  .inl address_validator

namespace Reachable

theorem ledger (h : chain.Reachable) : Ledger.Reachable chain.ledger := by
  induction h with
  | setUp =>
    obtain ⟨_, hrun⟩ := run_setUp
    exact .setUp hrun
  | apply operation _ ih =>
    rw [ledger_apply]
    exact ih.run _

theorem after (h : chain.Reachable) (operations : List Operation) :
    (Chain.after operations chain).Reachable := by
  induction operations generalizing chain with
  | nil => exact h
  | cons operation rest ih => exact ih (.apply operation h)

/-- Whatever is sent to a contract, by whatever name it is called. -/
theorem execute (h : chain.Reachable) (signer : Wallet) (contract : String) (text : Bytes) :
    (Chain.execute signer contract text chain).2.Reachable := by
  unfold Chain.execute
  cases hosted contract with
  | error failure => exact h
  | ok contract => exact .apply (.message contract ⟨signer.address, []⟩ text) h

end Reachable

/-! ### Sending and asking -/

/-- Sends a command to the ledger. -/
def send (signer : Wallet) (command : Ledger.Command) : StateM Chain (Except Failure Receipt) :=
  execute signer "terranova" (Json.encode command)

theorem hosted_ledger : hosted "terranova" = .ok .ledger := by decide

/-- A command that is sent is delivered, and nothing else on the chain changes. -/
theorem send_eq (signer : Wallet) (command : Ledger.Command) (chain : Chain) :
    send signer command chain =
      (((Ledger.deliver (.command ⟨signer.address, []⟩ command) chain.ledger).1.mapError
          Failure.ledger).map (Receipt.ofResponse ⟨"execute", []⟩),
        { chain with
          ledger := (Ledger.deliver (.command ⟨signer.address, []⟩ command) chain.ledger).2 }) := by
  have hrespond := respond_ledger (Json.decodeAs_encode command) ⟨signer.address, []⟩ chain
  rw [send, execute, hosted_ledger]
  show ((respond .ledger ⟨signer.address, []⟩ (Json.encode command) chain).1.map _,
    (respond .ledger ⟨signer.address, []⟩ (Json.encode command) chain).2) = _
  rw [hrespond]

variable {signer : Wallet} {command : Ledger.Command} {next : Chain}

/-- Whatever comes of a command, the chain is still one that operations lead to. -/
theorem Reachable.of_send (h : chain.Reachable) {outcome : Except Failure Receipt}
    (hsend : send signer command chain = (outcome, next)) : next.Reachable := by
  have hnext := h.execute signer "terranova" (Json.encode command)
  rw [send] at hsend
  rwa [hsend] at hnext

/-- A command goes through on the chain if it does on the ledger. -/
theorem send_eq_ok_iff {receipt : Receipt} :
    send signer command chain = (.ok receipt, next) ↔
      ∃ response store,
        Ledger.deliver (.command ⟨signer.address, []⟩ command) chain.ledger =
          (.ok response, store) ∧
        receipt = .ofResponse ⟨"execute", []⟩ response ∧ next = { chain with ledger := store } := by
  rw [send_eq]
  cases Ledger.deliver (.command ⟨signer.address, []⟩ command) chain.ledger with
  | mk outcome store =>
    cases outcome with
    | error refusal => exact ⟨nofun, fun ⟨_, _, e, _⟩ => nomatch e⟩
    | ok response =>
      constructor
      · intro h
        cases h
        exact ⟨response, store, rfl, rfl, rfl⟩
      · rintro ⟨_, _, e, rfl, rfl⟩
        cases e
        rfl

theorem exists_send_iff :
    (∃ receipt next, send signer command chain = (.ok receipt, next)) ↔
      ∃ response, (Ledger.deliver (.command ⟨signer.address, []⟩ command) chain.ledger).1 =
        .ok response := by
  constructor
  · rintro ⟨receipt, next, hsend⟩
    obtain ⟨response, _, hdeliver, -⟩ := send_eq_ok_iff.mp hsend
    exact ⟨response, by rw [hdeliver]⟩
  · rintro ⟨response, hdeliver⟩
    exact ⟨_, _, send_eq_ok_iff.mpr ⟨response, _, Prod.ext hdeliver rfl, rfl, rfl⟩⟩

/-- A command that is refused leaves the whole chain as it was. -/
theorem send_eq_error_iff {failure : Failure} :
    send signer command chain = (.error failure, next) ↔
      ∃ refusal,
        (Ledger.deliver (.command ⟨signer.address, []⟩ command) chain.ledger).1 =
          .error refusal ∧ failure = .ledger refusal ∧ next = chain := by
  rw [send_eq]
  cases hdeliver : Ledger.deliver (.command ⟨signer.address, []⟩ command) chain.ledger with
  | mk outcome store =>
    cases outcome with
    | ok response => exact ⟨nofun, fun ⟨_, e, _⟩ => nomatch e⟩
    | error refusal =>
      have hsame : (Ledger.deliver (.command ⟨signer.address, []⟩ command) chain.ledger).2 =
          chain.ledger := Action.commit_snd_of_error (congrArg Prod.fst hdeliver)
      rw [hdeliver] at hsame
      subst hsame
      constructor
      · intro h
        cases h
        exact ⟨refusal, rfl, rfl, rfl⟩
      · rintro ⟨_, e, rfl, rfl⟩
        cases e
        rfl

/-- A query that is asked is answered by the ledger. -/
theorem query_ledger {α : Type} [Json.Wire α] [Json.Lossless α] {q : Ledger.Query} {a : α}
    (h : Ledger.answer q chain.ledger = .ok (Json.encode a)) :
    query α "terranova" (Json.encode q) chain = (.ok a, chain) := by
  have hanswer : answer .ledger (Json.encode q) chain = .ok (Json.encode a) := by
    rw [answer, Json.decodeAs_encode, ok_bind, h]
  rw [query, ask, hosted_ledger, ok_bind, hanswer]
  show (((Json.decodeAs α (Json.encode a)).mapError .fault : Except Failure α), chain) = _
  rw [Json.decodeAs_encode]
  rfl

end Chain
end RelayLedger
