/-
# Accounts stay, and code is written once

An account that was created is there for good, and its code never changes: no command removes an
account, and the one command that writes code refuses where an account is. So whatever code an
account has it got when it was created, and one that came about by an airdrop or a transfer has
none. Value can be sent to accounts without code only, so that one with code can get it from the
owner alone.

Key definitions: `Ledger.Permanence`.
Key theorems: `Ledger.deliver_createAccount`, `Ledger.deliver_createAccount_of_kept`,
`Ledger.exists_code_run`, `Ledger.exists_creation`, `Ledger.accounts_permanent`.
-/
import RelayLedger.Proofs.Ledger.AccountStep
import RelayLedger.Proofs.Ledger.History
import RelayLedger.Proofs.Ledger.Listing

namespace RelayLedger
namespace Ledger

open RelayLedger.Action

variable {store start : Store} {config : Config} {address : Address} {a : Account}

/-! ### Creating an account -/

/-- Where an account is, none is created, whoever asks for it and with whatever code. -/
theorem deliver_createAccount_of_kept (hconfig : Config.slot.load store = .ok config)
    (hkept : storedAccount store address = some a) (sent : Envelope) (code : Bytes) :
    (deliver (.command sent (.createAccount address code)) store).1 =
      .error (if sent.funds ≠ [] then .notPayable
        else if config.IsOperator sent.sender then .accountExists address
        else .unauthorized) := by
  have htaken : (Account.slot address).isTaken store = true := by
    by_contra hfree
    rw [storedAccount_of_not_isTaken hfree] at hkept
    cases hkept
  have hcreate : (perform config (.createAccount address code)).run store =
      (.error (.accountExists address), store) := by
    have hrun : (Account.create address code).run store =
        (.error (.accountExists address), store) := by
      rw [run_create, if_pos htaken]
    exact run_bind_error hrun
  rw [deliver, commit_fst, Message.action, run_execute_eq hconfig]
  by_cases hfunds : sent.funds ≠ []
  · rw [if_pos hfunds, if_pos hfunds]
  · rw [if_neg hfunds, if_neg hfunds]
    by_cases hoperator : config.IsOperator sent.sender
    · rw [if_pos (by exact hoperator), if_pos hoperator, hcreate]
    · rw [if_neg (by exact hoperator), if_neg hoperator]

/-- Where none is, an operator may create one. -/
theorem deliver_createAccount (h : WellFormed store) (hconfig : Config.slot.load store = .ok config)
    {sender : ChainAddress} (hoperator : config.IsOperator sender)
    (hnone : storedAccount store address = none) (code : Bytes) :
    deliver (.command ⟨sender, []⟩ (.createAccount address code)) store =
      (.ok {
        attributes := [("action", "create_account"), ("address", toString address)]
        events := [(Notice.accountCreated address (decide (code ≠ []))).toEvent] },
        ({ Account.vacant address with code := code } : Account).save store) := by
  have hfree : ¬ (Account.slot address).isTaken store = true := by
    have hget := h.get?_account address
    rw [hnone, Option.map_none] at hget
    simp [Slot.isTaken, OrderedMap.contains, hget]
  have hcreate := run_create address code store
  rw [if_neg hfree] at hcreate
  have hallowed : (Command.createAccount address code).Allowed config sender := hoperator
  rw [deliver, commit, Message.action, run_execute hconfig hallowed, perform, run_bind_ok hcreate]
  rfl

/-- Nobody else may, and no operator where an account is. -/
theorem deliver_createAccount_refused (hconfig : Config.slot.load store = .ok config)
    {sender : ChainAddress}
    (hrefused : config.IsOperator sender → storedAccount store address ≠ none) (code : Bytes) :
    (deliver (.command ⟨sender, []⟩ (.createAccount address code)) store).1 =
      .error (if config.IsOperator sender then .accountExists address else .unauthorized) := by
  by_cases hoperator : config.IsOperator sender
  · obtain ⟨a, hkept⟩ := Option.ne_none_iff_exists'.mp (hrefused hoperator)
    have hexists := deliver_createAccount_of_kept hconfig hkept ⟨sender, []⟩ code
    rwa [if_neg (not_not.mpr rfl)] at hexists
  · have hnot : ¬ (Command.createAccount address code).Allowed config sender := hoperator
    rw [if_neg hoperator, deliver, commit_fst, Message.action,
      run_execute_of_not hconfig (.inr hnot), if_neg (not_not.mpr rfl)]

/-! ### One message -/

/-- An account that comes about otherwise than by being created has no code. -/
theorem code_deliver_of_none (h : WellFormed store) {m : Message}
    (hnone : storedAccount store address = none)
    (hsome : storedAccount (deliver m store).2 address = some a)
    (hother : ∀ sent code, m ≠ .command sent (.createAccount address code)) : a.code = [] := by
  rcases storedAccount_deliver h m address with hsame | ⟨sent, c, _, rfl, -, hmakes⟩
  · cases hsome.symm.trans (hsame.trans hnone)
  · rw [hnone, hsome] at hmakes
    rcases hmakes.first with rfl | ⟨-, hcode⟩
    · exact absurd rfl (hother sent a.code)
    · exact hcode

/-- An account with code gets no value otherwise than by an airdrop. -/
theorem balance_deliver_le (h : WellFormed store) {m : Message}
    (hkept : storedAccount store address = some a) (hcode : a.code ≠ [])
    (hother : ∀ sent amount, m ≠ .command sent (.airdrop address amount)) :
    ∃ b, storedAccount (deliver m store).2 address = some b ∧
      b.balance.toNat ≤ a.balance.toNat := by
  rcases storedAccount_deliver h m address with hsame | ⟨sent, c, _, rfl, -, hmakes⟩
  · exact ⟨a, hsame.trans hkept, Nat.le_refl _⟩
  · rw [hkept] at hmakes
    refine hmakes.balance_le hcode fun amount hc => ?_
    subst hc
    exact hother sent amount rfl

/-! ### Runs -/

/-- An account that is there stays, and so does its code. -/
theorem exists_code_run (h : Reachable store) (hkept : storedAccount store address = some a)
    (later : List Message) :
    ∃ b, storedAccount (run later store).2 address = some b ∧ b.code = a.code := by
  induction later generalizing store a with
  | nil => exact ⟨a, hkept, rfl⟩
  | cons m rest ih =>
    have hnext : ∃ b, storedAccount (deliver m store).2 address = some b ∧ b.code = a.code := by
      rcases storedAccount_deliver h.wellFormed m address with hsame | ⟨_, _, _, -, -, hmakes⟩
      · exact ⟨a, hsame.trans hkept, rfl⟩
      · rw [hkept] at hmakes
        exact hmakes.exists_code
    obtain ⟨b, hb, hcode⟩ := hnext
    obtain ⟨c, hc, hcode'⟩ := ih (.deliver m h) hb
    exact ⟨c, hc, hcode'.trans hcode⟩

/-- An account that was not there and is now was made by one of the messages in between. -/
theorem exists_creation : ∀ {messages : List Message} {store : Store}, Reachable store →
    storedAccount store address = none → storedAccount (run messages store).2 address = some a →
    ∃ before sent c rest response b, messages = before ++ .command sent c :: rest ∧
      storedAccount (run before store).2 address = none ∧
      (deliver (.command sent c) (run before store).2).1 = .ok response ∧
      c.Makes address none (some b) ∧ b.code = a.code
  | [], store, _, hnone, hsome => by
    rw [run, hnone] at hsome
    cases hsome
  | m :: rest, store, h, hnone, hsome => by
    have hsome' : storedAccount (run rest (deliver m store).2).2 address = some a := hsome
    cases hnext : storedAccount (deliver m store).2 address with
    | none =>
      obtain ⟨before, sent, c, after, response, b, rfl, hbefore⟩ :=
        exists_creation (.deliver m h) hnext hsome'
      exact ⟨m :: before, sent, c, after, response, b, rfl, hbefore⟩
    | some b =>
      -- this message made the account, and its code has stayed since
      obtain ⟨a', ha', hcode⟩ := exists_code_run (.deliver m h) hnext rest
      rw [hsome', Option.some.injEq] at ha'
      subst ha'
      rcases storedAccount_deliver h.wellFormed m address with hsame |
        ⟨sent, c, response, rfl, hok, hmakes⟩
      · rw [hnext, hnone] at hsame
        cases hsame
      · rw [hnone, hnext] at hmakes
        exact ⟨[], sent, c, rest, response, b, rfl, hnone, hok, hmakes, hcode.symm⟩

/-! ### The law -/

/-- What holds of the accounts of a ledger after any messages. -/
structure Permanence (start : Store) (messages : List Message) : Prop where
  /-- Whatever is kept among the accounts can be read and has the address of its key. -/
  keyed : ∀ k s rest, (run messages start).2.get? k = some s → Account.member? k = some rest →
    ∃ a, Json.decodeAs Account s = .ok a ∧ a.address.bytes = rest
  lasting : ∀ address a, storedAccount (run messages start).2 address = some a → ∀ later,
    ∃ b, storedAccount (run (messages ++ later) start).2 address = some b ∧ b.code = a.code
  /-- It is not created again, and those who might create it are told so. -/
  unrepeatable : ∀ address a, storedAccount (run messages start).2 address = some a →
    ∀ later, ∃ config, Config.slot.load (run (messages ++ later) start).2 = .ok config ∧
      ∀ sent code,
        (deliver (.command sent (.createAccount address code))
            (run (messages ++ later) start).2).1 =
          .error (if sent.funds ≠ [] then .notPayable
            else if config.IsOperator sent.sender then .accountExists address
            else .unauthorized)
  /-- Code was given when the account was created. -/
  given : ∀ address a, storedAccount (run messages start).2 address = some a → a.code ≠ [] →
    ∃ before sent rest response,
      messages = before ++ .command sent (.createAccount address a.code) :: rest ∧
      storedAccount (run before start).2 address = none ∧
      (deliver (.command sent (.createAccount address a.code)) (run before start).2).1 =
        .ok response
  /-- An account that comes about in any other way never has code. -/
  codeless : ∀ address a m, storedAccount (run messages start).2 address = none →
    storedAccount (run (messages ++ [m]) start).2 address = some a →
    (∀ sent code, m ≠ .command sent (.createAccount address code)) → ∀ later,
      ∃ b, storedAccount (run (messages ++ m :: later) start).2 address = some b ∧ b.code = []
  /-- Only an airdrop gives value to an account with code. -/
  guarded : ∀ address a m, storedAccount (run messages start).2 address = some a → a.code ≠ [] →
    (∀ sent amount, m ≠ .command sent (.airdrop address amount)) →
      ∃ b, storedAccount (run (messages ++ [m]) start).2 address = some b ∧
        b.balance.toNat ≤ a.balance.toNat

/-- The accounts of a ledger are there for good, and their code is as it was when they were
created. -/
theorem accounts_permanent {envelope : Envelope} {setup : Setup} {response : Response}
    (h : (instantiate envelope setup).run ∅ = (.ok response, start)) (messages : List Message) :
    Permanence start messages := by
  have hstart := Reachable.setUp h
  have hreach := hstart.run messages
  have hlasting : ∀ address a, storedAccount (run messages start).2 address = some a → ∀ later,
      ∃ b, storedAccount (run (messages ++ later) start).2 address = some b ∧
        b.code = a.code := by
    intro address a ha later
    rw [run_append]
    exact exists_code_run hreach ha later
  refine ⟨?_, hlasting, ?_, ?_, ?_, ?_⟩
  · intro k s rest hget hmember
    obtain ⟨a, rfl, rfl⟩ := hreach.wellFormed.tidy.exists_account_of_member hget hmember
    exact ⟨a, Json.decodeAs_encode a, rfl⟩
  · intro address a ha later
    obtain ⟨b, hb, -⟩ := hlasting address a ha later
    obtain ⟨config, hconfig⟩ := (hstart.run (messages ++ later)).wellFormed.exists_config
    exact ⟨config, hconfig, deliver_createAccount_of_kept hconfig hb⟩
  · intro address a ha hcode
    obtain ⟨before, sent, c, rest, response, b, hmessages, hfree, hok, hmakes, hsame⟩ :=
      exists_creation hstart (storedAccount_setUp h address) ha
    rcases hmakes.first with hc | ⟨-, hnone⟩
    · rw [hsame] at hc
      subst hc
      exact ⟨before, sent, rest, response, hmessages, hfree, hok⟩
    · exact absurd (hsame.symm.trans hnone) hcode
  · intro address a m hnone hsome hother later
    rw [run_concat] at hsome
    have hcode := code_deliver_of_none hreach.wellFormed hnone hsome hother
    obtain ⟨b, hb, hsame⟩ := exists_code_run (.deliver m hreach) hsome later
    refine ⟨b, ?_, hsame.trans hcode⟩
    rw [run_append]
    exact hb
  · intro address a m ha hcode hother
    rw [run_concat]
    exact balance_deliver_le hreach.wellFormed ha hcode hother

theorem storedAccount_sampleStore :
    storedAccount sampleStore Fixed.zero = some sampleAccount := by
  rw [sampleStore, storedAccount_save, if_pos (by exact rfl)]

/-- The account that the owner filled is there, so that it cannot be created. -/
theorem accounts_permanent_sample : ∃ response,
    (instantiate ⟨sampleOwner, []⟩ ⟨[], none, Transaction.sample.chainId⟩).run ∅ =
      (.ok response, sampleSetUp) ∧
    ∀ code, (deliver (.command ⟨sampleOwner, []⟩ (.createAccount Fixed.zero code))
      (run [sampleAirdrop] sampleSetUp).2).1 = .error (.accountExists Fixed.zero) := by
  obtain ⟨response, hrun⟩ := run_sampleSetUp
  have hlaw := accounts_permanent hrun [sampleAirdrop]
  have hstore : (run [sampleAirdrop] sampleSetUp).2 = sampleStore := by
    obtain ⟨_, hdeliver⟩ := deliver_sampleAirdrop
    rw [run, hdeliver]
    rfl
  have hkept := storedAccount_sampleStore
  rw [← hstore] at hkept
  obtain ⟨config, hconfig, hrefused⟩ := hlaw.unrepeatable Fixed.zero sampleAccount hkept []
  rw [List.append_nil] at hconfig hrefused
  have hsame : config = sampleConfig := by
    rw [hstore] at hconfig
    exact Except.ok.inj (hconfig.symm.trans load_sampleStore)
  subst hsame
  refine ⟨response, hrun, fun code => ?_⟩
  rw [hrefused, if_neg (not_not.mpr rfl), if_pos isOperator_sampleOwner]

/-- A stranger is not told that the account is there: who may ask comes first. -/
theorem createAccount_stranger :
    Reachable sampleStore ∧ storedAccount sampleStore Fixed.zero = some sampleAccount ∧
    (deliver (.command ⟨sampleStranger, []⟩ (.createAccount Fixed.zero [])) sampleStore).1 =
      .error .unauthorized ∧
    (deliver (.command ⟨sampleStranger, []⟩ (.createAccount Fixed.zero [])) sampleStore).1 ≠
      .error (.accountExists Fixed.zero) := by
  have hrefused := deliver_createAccount_of_kept load_sampleStore storedAccount_sampleStore
    ⟨sampleStranger, []⟩ []
  rw [if_neg (not_not.mpr rfl), if_neg not_isOperator_sampleStranger] at hrefused
  refine ⟨reachable_sampleStore, storedAccount_sampleStore, hrefused, ?_⟩
  rw [hrefused]
  simp

end Ledger
end RelayLedger
