/-
# A dry run tells the truth

The query whether a transaction would go through only looks the transaction over; relaying it also
moves the value, with checks of its own after every write. The two agree, since none of those later
checks can fail on what was found good: not even when an account sends to itself and the second
write reads what the first one took away.

Key theorems: `Ledger.run_apply_of_check`, `Ledger.dryRun_agrees`.
-/
import RelayLedger.Proofs.Ledger.Relay

namespace RelayLedger
namespace Ledger

variable {store : Store} {config : Config}

/-- No transfer that was found good is refused on the way. -/
theorem run_apply_of_check (h : WellFormed store) {caller : Address} {b : Bytes} {t : Transfer}
    (hcheck : check config caller b store = .ok t) :
    ∃ response, (t.apply.run store).1 = .ok response := by
  obtain ⟨tx, target, -, hsend, rfl⟩ := (check_eq_ok_iff h).mp hcheck
  obtain ⟨nonce, after, hrun, -⟩ := hsend.run_apply h
  exact ⟨_, congrArg Prod.fst hrun⟩

/-- The outcome of a relay is that of the look at its transaction. -/
theorem run_relay_fst (h : WellFormed store) (config : Config) (caller : Address) (b : Bytes) :
    match check config caller b store with
    | .ok _ => ∃ response, ((relay config caller b).run store).1 = .ok response
    | .error refusal => ((relay config caller b).run store).1 = .error refusal := by
  rw [run_relay]
  cases hcheck : check config caller b store with
  | error refusal => rfl
  | ok t => exact run_apply_of_check h hcheck

/-- What is found good and goes through, goes through when an operator relays it. -/
theorem deliver_relay_of_check (hconfig : Config.slot.load store = .ok config)
    {sender : ChainAddress} (hoperator : config.IsOperator sender) {caller : Address} {b : Bytes}
    {t : Transfer} (hcheck : check config caller b store = .ok t) {response : Response}
    {after : Store} (happly : t.apply.run store = (.ok response, after)) :
    deliver (.command ⟨sender, []⟩ (.relay caller b)) store = (.ok response, after) := by
  have hallowed : (Command.relay caller b).Allowed config sender := hoperator
  have hrelay := run_relay_eq_ok_iff.mpr ⟨t, hcheck, happly⟩
  rw [deliver, Action.commit, Message.action, run_execute hconfig hallowed, perform, hrelay]

/-- A transaction that is sendable goes through when an operator relays it. -/
theorem Sendable.deliver_relay (h : WellFormed store) (hconfig : Config.slot.load store = .ok config)
    {sender : ChainAddress} (hoperator : config.IsOperator sender) {caller target : Address}
    {b : Bytes} {tx : Transaction} (hdecode : Transaction.decode b = .ok tx)
    (hsend : Sendable config store caller target tx) :
    ∃ response after,
      deliver (.command ⟨sender, []⟩ (.relay caller b)) store = (.ok response, after) := by
  obtain ⟨nonce, after, happly, -⟩ := hsend.run_apply h
  have hcheck := (check_eq_ok_iff h).mpr ⟨tx, target, hdecode, hsend, rfl⟩
  exact ⟨_, after, deliver_relay_of_check hconfig hoperator hcheck happly⟩

/-- The message by which the owner of the sample ledger relays the sample transaction. -/
def sampleRelay : Message :=
  .command ⟨sampleOwner, []⟩ (.relay Fixed.zero Transaction.sampleBytes)

/-- The account that pays it: nothing is left to it but its nonce. -/
def samplePayer : Account := { Account.vacant Fixed.zero with nonce := .truncate 1 }

/-- The account that is paid by it. -/
def samplePayee : Account :=
  { Account.vacant (Transaction.sample.recipient.getD Fixed.zero) with
    balance := Transaction.sample.value }

/-- Whatever else is kept, with the accounts of the sample ledger its transaction goes through. -/
theorem deliver_sampleRelay (h : WellFormed store)
    (hconfig : Config.slot.load store = .ok sampleConfig)
    (haccounts : ∀ address, accountAt store address = accountAt sampleStore address) :
    ∃ response, deliver sampleRelay store =
      (.ok response, samplePayer.save (samplePayee.save store)) := by
  have hcheck := (check_eq_ok_iff h).mpr ⟨Transaction.sample, _, Transaction.decode_sampleBytes,
    sendable_sample.congr haccounts, rfl⟩
  have hsource : Account.load Fixed.zero store = .ok sampleAccount := by
    rw [h.load, haccounts, accountAt_sampleStore]
  have htarget : Account.load samplePayee.address store = .ok (.vacant samplePayee.address) := by
    rw [h.load, haccounts]
    exact congrArg Except.ok accountAt_sampleStore_recipient
  have hpaid : sampleAccount.balance.sub? Transaction.sample.value = some 0 := by decide
  have hreceived : (Account.vacant samplePayee.address).balance.add? Transaction.sample.value =
      some Transaction.sample.value := by decide
  have hnonce : Word.ofNat? (sampleAccount.nonce.toNat + 1) = some samplePayer.nonce := by decide
  have happly := Transfer.run_apply_of_ne
    (t := ⟨Fixed.zero, samplePayee.address, Transaction.sample.value⟩) (by decide) hsource rfl
    htarget rfl hpaid hreceived hnonce
  exact ⟨_, deliver_relay_of_check hconfig isOperator_sampleOwner hcheck happly⟩

/-- The answer to a dry run is that of the look at its transaction. -/
theorem answer_dryRun (h : Config.slot.load store = .ok config) (caller : Address) (b : Bytes) :
    answer (.dryRun caller b) store =
      match check config caller b store with
      | .ok _ => .ok (Json.encode (⟨[]⟩ : DryRun))
      | .error refusal => .error (.other refusal.message) := by
  rw [answer, h, ok_bind]
  cases check config caller b store <;> rfl

/-- On a ledger that was set up, a dry run is answered with success exactly if an operator who
relays the same transaction succeeds. If either fails then so does the other, and the dry run says
in words what the relay is refused for. What was looked over is never refused when it is applied. -/
theorem dryRun_agrees (h : Reachable store) :
    ∃ config, Config.slot.load store = .ok config ∧
      ∀ sender : ChainAddress, config.IsOperator sender → ∀ (caller : Address) (b : Bytes),
        ((∃ s, answer (.dryRun caller b) store = .ok s) ↔
          ∃ response, ((execute ⟨sender, []⟩ (.relay caller b)).run store).1 = .ok response) ∧
        (∀ fault, answer (.dryRun caller b) store = .error fault →
          ∃ refusal, ((execute ⟨sender, []⟩ (.relay caller b)).run store).1 = .error refusal ∧
            fault = .other refusal.message) ∧
        (∀ refusal, ((execute ⟨sender, []⟩ (.relay caller b)).run store).1 = .error refusal →
          answer (.dryRun caller b) store = .error (.other refusal.message)) ∧
        ∀ t, check config caller b store = .ok t →
          ∃ response, (t.apply.run store).1 = .ok response := by
  have hwell := h.wellFormed
  obtain ⟨config, hconfig⟩ := hwell.exists_config
  refine ⟨config, hconfig, fun sender hsender caller b => ?_⟩
  have hallowed : Command.Allowed config sender (.relay caller b) := hsender
  have hexecute := run_execute hconfig hallowed
  have hrelay := run_relay_fst hwell config caller b
  rw [hexecute, perform, answer_dryRun hconfig]
  cases hcheck : check config caller b store with
  | error refusal =>
    rw [hcheck] at hrelay
    simp only at hrelay
    rw [hrelay]
    refine ⟨⟨?_, ?_⟩, ?_, ?_, ?_⟩
    · rintro ⟨_, hs⟩
      cases hs
    · rintro ⟨_, hresponse⟩
      cases hresponse
    · intro fault hfault
      cases hfault
      exact ⟨refusal, rfl, rfl⟩
    · intro refusal' hrefusal
      cases hrefusal
      rfl
    · intro t ht
      cases ht
  | ok t =>
    rw [hcheck] at hrelay
    obtain ⟨response, hrelay⟩ := hrelay
    rw [hrelay]
    refine ⟨⟨fun _ => ⟨response, rfl⟩, fun _ => ⟨_, rfl⟩⟩, ?_, ?_, ?_⟩
    · intro fault hfault
      cases hfault
    · intro refusal hrefusal
      cases hrefusal
    · intro t' ht'
      cases ht'
      exact run_apply_of_check hwell hcheck

theorem dryRun_agrees_sample : Reachable sampleStore ∧ ∃ response,
    ((execute ⟨sampleOwner, []⟩ (.relay Fixed.zero Transaction.sampleBytes)).run sampleStore).1 =
      .ok response := by
  obtain ⟨config, hconfig, hagrees⟩ := dryRun_agrees reachable_sampleStore
  have hsame : config = sampleConfig := Except.ok.inj (hconfig.symm.trans load_sampleStore)
  have hcheck := (check_eq_ok_iff reachable_sampleStore.wellFormed).mpr
    ⟨Transaction.sample, _, Transaction.decode_sampleBytes, sendable_sample, rfl⟩
  refine ⟨reachable_sampleStore, (hagrees sampleOwner (.inl ?_) _ _).1.mp ?_⟩
  · rw [hsame]
    rfl
  · rw [answer_dryRun load_sampleStore, hcheck]
    exact ⟨_, rfl⟩

end Ledger
end RelayLedger
