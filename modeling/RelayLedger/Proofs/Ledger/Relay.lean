/-
# What a relayed transaction does

A relayed transaction is looked over once and then moves its value in three writes. `Sendable` is
what `check` asks for, stated on the accounts as they were before, and `Transfer.Effect` is what has
become of the store. On a store that is in order a transaction goes through exactly if it is
sendable, since the writes ask for nothing that was not looked at before.

Key definitions: `Ledger.Sendable`, `Ledger.Transfer.Effect`.
Key theorems: `Ledger.check_eq_ok_iff`, `Ledger.Sendable.run_apply`, `Ledger.relay_exact`.
-/
import RelayLedger.Proofs.Ledger.Command

namespace RelayLedger
namespace Ledger

/-! ### Looking a transaction over -/

/-- What a ledger asks of a transaction that is sent on behalf of an account. -/
structure Sendable (config : Config) (store : Store) (caller target : Address)
    (tx : Transaction) : Prop where
  chainId : tx.chainId = none ∨ tx.chainId = some config.chainId
  recipient : tx.recipient = some target
  noCode : (accountAt store target).code = []
  funds : tx.value.toNat ≤ (accountAt store caller).balance.toNat
  room : target = caller ∨
    (accountAt store target).balance.toNat + tx.value.toNat < Word.bound 256
  countable : (accountAt store caller).nonce.toNat < Word.bound 64 - 1

theorem checkChainId_eq_ok_iff {config : Config} {chainId : Option (Word 64)} {u : Unit} :
    checkChainId config chainId = .ok u ↔ chainId = none ∨ chainId = some config.chainId := by
  cases chainId with
  | none => simp [checkChainId]
  | some id =>
    rw [checkChainId]
    by_cases hid : id = config.chainId
    · simp [hid]
    · simp [hid]

theorem ofFault_eq_ok_iff {α : Type} {x : Except Fault α} {a : α} :
    ofFault x = .ok a ↔ x = .ok a := mapError_eq_ok_iff

variable {config : Config} {store : Store} {caller : Address} {b : Bytes}

/-- A transaction is found good exactly if it can be read and is sendable. -/
theorem check_eq_ok_iff (h : WellFormed store) {t : Transfer} :
    check config caller b store = .ok t ↔
      ∃ tx target, Transaction.decode b = .ok tx ∧ Sendable config store caller target tx ∧
        t = ⟨caller, target, tx.value⟩ := by
  unfold check
  simp only [bind_eq_ok_iff, mapError_eq_ok_iff, checkChainId_eq_ok_iff]
  constructor
  · intro ⟨tx, hdecode, _, hchain, hrest⟩
    split at hrest
    · cases hrest
    next target hrecipient =>
    obtain ⟨targetAccount, htarget, hrest⟩ := bind_eq_ok_iff.mp hrest
    rw [ofFault_eq_ok_iff, h.load, Except.ok.injEq] at htarget
    split at hrest
    · cases hrest
    next hcode =>
    obtain ⟨callerAccount, hcaller, hrest⟩ := bind_eq_ok_iff.mp hrest
    rw [ofFault_eq_ok_iff, h.load, Except.ok.injEq] at hcaller
    split at hrest
    · cases hrest
    next hfunds =>
    split at hrest
    · cases hrest
    next hroom =>
    split at hrest
    · cases hrest
    next hnonce =>
    cases hrest
    subst htarget hcaller
    refine ⟨tx, target, hdecode, ⟨hchain, hrecipient, ?_, by omega, ?_, ?_⟩, rfl⟩
    · exact Decidable.not_not.mp hcode
    · by_cases hself : target = caller
      · exact .inl hself
      · have hsum : ¬ (accountAt store target).balance.add? tx.value = none :=
          fun e => hroom ⟨hself, e⟩
        rw [Word.add?_eq_none_iff] at hsum
        exact .inr (by omega)
    · exact Word.ne_max_iff.mp hnonce
  · intro ⟨tx, target, hdecode, hsend, ht⟩
    refine ⟨tx, hdecode, (), hsend.chainId, ?_⟩
    have hcode : ¬ (accountAt store target).IsContract := not_not.mpr hsend.noCode
    have hroom : ¬ (target ≠ caller ∧ (accountAt store target).balance.add? tx.value = none) := by
      intro ⟨hne, hnone⟩
      rw [Word.add?_eq_none_iff] at hnone
      rcases hsend.room with hself | hlt
      · exact hne hself
      · omega
    have hfunds := hsend.funds
    rw [hsend.recipient]
    simp only [h.load, ofFault, Except.mapError, ok_bind]
    rw [if_neg hcode, if_neg (by omega), if_neg hroom, if_neg (Word.ne_max_iff.mpr hsend.countable),
      ht]
    rfl

/-- Only accounts and settings matter. -/
theorem Sendable.congr {config : Config} {store after : Store} {caller target : Address}
    {tx : Transaction} (h : Sendable config store caller target tx)
    (haccounts : ∀ address, accountAt after address = accountAt store address) :
    Sendable config after caller target tx where
  chainId := h.chainId
  recipient := h.recipient
  noCode := by rw [haccounts]; exact h.noCode
  funds := by rw [haccounts]; exact h.funds
  room := by rw [haccounts]; exact h.room
  countable := by rw [haccounts]; exact h.countable

theorem accountAt_sampleStore : accountAt sampleStore Fixed.zero = sampleAccount :=
  accountAt_of_get? (Account.get?_save sampleAccount sampleSetUp)

theorem accountAt_sampleStore_recipient :
    accountAt sampleStore (Transaction.sample.recipient.getD Fixed.zero) =
      .vacant (Transaction.sample.recipient.getD Fixed.zero) :=
  accountAt_of_get?_eq_none (by decide +kernel)

/-- The sample transaction takes all that the account has, and creates its recipient. -/
theorem sendable_sample : Sendable sampleConfig sampleStore Fixed.zero
    (Transaction.sample.recipient.getD Fixed.zero) Transaction.sample where
  chainId := .inr rfl
  recipient := rfl
  noCode := by rw [accountAt_sampleStore_recipient]; rfl
  funds := by rw [accountAt_sampleStore]; decide
  room := .inr (by rw [accountAt_sampleStore_recipient]; decide)
  countable := by rw [accountAt_sampleStore]; decide

/-! ### Moving the value -/

/-- What a transfer that went through has done to a store. -/
structure Transfer.Effect (t : Transfer) (store after : Store) : Prop where
  /-- Both accounts are kept, whether they were before or not. -/
  sourceKept : after.get? (Account.slot t.source).key = some (Json.encode (accountAt after t.source))
  targetKept : after.get? (Account.slot t.target).key = some (Json.encode (accountAt after t.target))
  sourceAddress : (accountAt after t.source).address = t.source
  targetAddress : (accountAt after t.target).address = t.target
  sourceCode : (accountAt after t.source).code = (accountAt store t.source).code
  targetCode : (accountAt after t.target).code = (accountAt store t.target).code
  sourceNonce : (accountAt after t.source).nonce.toNat = (accountAt store t.source).nonce.toNat + 1
  targetNonce : t.target ≠ t.source →
    (accountAt after t.target).nonce = (accountAt store t.target).nonce
  sourceBalance : t.target ≠ t.source →
    (accountAt after t.source).balance.toNat + t.value.toNat =
      (accountAt store t.source).balance.toNat
  targetBalance : t.target ≠ t.source →
    (accountAt after t.target).balance.toNat =
      (accountAt store t.target).balance.toNat + t.value.toNat
  selfBalance : t.target = t.source →
    (accountAt after t.source).balance = (accountAt store t.source).balance
  /-- Every other key holds the same bytes as before, or nothing as before. -/
  others : ∀ k : Bytes, k ≠ (Account.slot t.source).key → k ≠ (Account.slot t.target).key →
    after.get? k = store.get? k

/-- Settings, version, chunks and the other accounts are what they were. -/
theorem Transfer.Effect.places {t : Transfer} {after : Store} (h : t.Effect store after) (p : Place)
    (hsource : p ≠ .account t.source) (htarget : p ≠ .account t.target) :
    after.get? p.key = store.get? p.key :=
  h.others p.key (Place.key_ne_account hsource) (Place.key_ne_account htarget)

variable {target : Address} {tx : Transaction}

/-- Sent to the sender itself, a transaction only counts. -/
theorem Sendable.run_apply_self (h : WellFormed store)
    (hsend : Sendable config store caller caller tx) {nonce : Word 64}
    (hnonce : Word.ofNat? ((accountAt store caller).nonce.toNat + 1) = some nonce) :
    ∃ after, (Transfer.mk caller caller tx.value).apply.run store =
        (.ok ((Transfer.mk caller caller tx.value).response nonce), after) ∧
      (Transfer.mk caller caller tx.value).Effect store after := by
  let counted : Account := { accountAt store caller with nonce := nonce }
  have haddress : counted.address = caller := h.address_accountAt caller
  have hkept : (counted.save store).get? (Account.slot caller).key =
      some (Json.encode counted) := by
    rw [← haddress, Account.get?_save]
  have hat : accountAt (counted.save store) caller = counted := accountAt_of_get? hkept
  refine ⟨counted.save store, Transfer.run_apply_self rfl (h.load caller)
    (h.address_accountAt caller) hsend.funds hnonce, ?_⟩
  exact {
    sourceKept := by rw [hat, hkept]
    targetKept := by rw [hat, hkept]
    sourceAddress := by rw [hat]; exact haddress
    targetAddress := by rw [hat]; exact haddress
    sourceCode := by rw [hat]
    targetCode := by rw [hat]
    sourceNonce := by rw [hat]; exact Word.ofNat?_eq_some_iff.mp hnonce
    targetNonce := fun hne => absurd rfl hne
    sourceBalance := fun hne => absurd rfl hne
    targetBalance := fun hne => absurd rfl hne
    selfBalance := fun _ => by rw [hat]
    others := fun k hk _ => Account.get?_save_of_ne (by rw [haddress]; exact hk) store }

/-- Sent to another account, it moves the value. -/
theorem Sendable.run_apply_of_ne (h : WellFormed store) (hne : target ≠ caller)
    (hsend : Sendable config store caller target tx) {nonce : Word 64}
    (hnonce : Word.ofNat? ((accountAt store caller).nonce.toNat + 1) = some nonce) :
    ∃ after, (Transfer.mk caller target tx.value).apply.run store =
        (.ok ((Transfer.mk caller target tx.value).response nonce), after) ∧
      (Transfer.mk caller target tx.value).Effect store after := by
  have hcaller := h.address_accountAt caller
  have htarget := h.address_accountAt target
  obtain ⟨less, hless⟩ := Word.exists_sub? hsend.funds
  obtain ⟨more, hmore⟩ := Word.exists_add? (hsend.room.resolve_left hne)
  let source : Account := { accountAt store caller with balance := less, nonce := nonce }
  let recipient : Account := { accountAt store target with balance := more }
  have hsource : source.address = caller := hcaller
  have hrecipient : recipient.address = target := htarget
  have hsourceKept : (source.save (recipient.save store)).get? (Account.slot caller).key =
      some (Json.encode source) := by
    rw [← hsource, Account.get?_save]
  have htargetKept : (source.save (recipient.save store)).get? (Account.slot target).key =
      some (Json.encode recipient) := by
    rw [Account.get?_save_of_ne (by rw [hsource]; exact Account.key_ne_key hne), ← hrecipient,
      Account.get?_save]
  have hsourceAt := accountAt_of_get? hsourceKept
  have htargetAt := accountAt_of_get? htargetKept
  refine ⟨source.save (recipient.save store), Transfer.run_apply_of_ne (Ne.symm hne)
    (h.load caller) hcaller (h.load target) htarget hless hmore hnonce, ?_⟩
  exact {
    sourceKept := by rw [hsourceAt, hsourceKept]
    targetKept := by rw [htargetAt, htargetKept]
    sourceAddress := by rw [hsourceAt]; exact hsource
    targetAddress := by rw [htargetAt]; exact hrecipient
    sourceCode := by rw [hsourceAt]
    targetCode := by rw [htargetAt]
    sourceNonce := by rw [hsourceAt]; exact Word.ofNat?_eq_some_iff.mp hnonce
    targetNonce := fun _ => by rw [htargetAt]
    sourceBalance := fun _ => by rw [hsourceAt]; exact Word.sub?_eq_some_iff.mp hless
    targetBalance := fun _ => by rw [htargetAt]; exact Word.add?_eq_some_iff.mp hmore
    selfBalance := fun e => absurd e hne
    others := fun k hk hk' => by
      rw [Account.get?_save_of_ne (by rw [hsource]; exact hk),
        Account.get?_save_of_ne (by rw [hrecipient]; exact hk')] }

/-- What was found good goes through. -/
theorem Sendable.run_apply (h : WellFormed store)
    (hsend : Sendable config store caller target tx) :
    ∃ nonce after, (Transfer.mk caller target tx.value).apply.run store =
        (.ok ((Transfer.mk caller target tx.value).response nonce), after) ∧
      nonce.toNat = (accountAt store caller).nonce.toNat + 1 ∧
      (Transfer.mk caller target tx.value).Effect store after := by
  obtain ⟨nonce, hnonce⟩ := Word.exists_next hsend.countable
  have hcount := Word.ofNat?_eq_some_iff.mp hnonce
  by_cases hself : target = caller
  · subst hself
    obtain ⟨after, hrun, heffect⟩ := hsend.run_apply_self h hnonce
    exact ⟨nonce, after, hrun, hcount, heffect⟩
  · obtain ⟨after, hrun, heffect⟩ := hsend.run_apply_of_ne h hself hnonce
    exact ⟨nonce, after, hrun, hcount, heffect⟩

/-- Relaying is looking over and then moving. -/
theorem run_relay (config : Config) (caller : Address) (b : Bytes) (store : Store) :
    (relay config caller b).run store =
      match check config caller b store with
      | .ok t => t.apply.run store
      | .error refusal => (.error refusal, store) := by
  rw [relay, Action.run_bind, Action.run_read]
  cases check config caller b store <;> rfl

/-- A relay goes through if its transaction is found good and the transfer goes through. -/
theorem run_relay_eq_ok_iff {response : Response} {after : Store} :
    (relay config caller b).run store = (.ok response, after) ↔
      ∃ t, check config caller b store = .ok t ∧ t.apply.run store = (.ok response, after) := by
  rw [run_relay]
  cases check config caller b store with
  | error refusal => simp
  | ok t => simp

/-- On a ledger that was set up, a raw transaction goes through exactly if it can be read and is
sendable, and then its transfer has taken effect: the entries of the two accounts are new, and
everything else in the store is byte for byte what it was. -/
theorem relay_exact (h : Reachable store) (config : Config) (caller : Address) (b : Bytes) :
    (∀ address : Address, Account.load address store = .ok (accountAt store address) ∧
      (store.get? (Account.slot address).key = none →
        accountAt store address = .vacant address)) ∧
    ((∃ response, ((relay config caller b).run store).1 = .ok response) ↔
      ∃ tx target, Transaction.decode b = .ok tx ∧ Sendable config store caller target tx) ∧
    ∀ response after, (relay config caller b).run store = (.ok response, after) →
      ∃ tx target, Transaction.decode b = .ok tx ∧ Sendable config store caller target tx ∧
        (Transfer.mk caller target tx.value).Effect store after ∧
        ∀ p : Place, p ≠ .account caller → p ≠ .account target →
          after.get? p.key = store.get? p.key := by
  have hwell := h.wellFormed
  refine ⟨fun address => ⟨hwell.load address, accountAt_of_get?_eq_none⟩, ⟨?_, ?_⟩, ?_⟩
  · intro ⟨response, hresponse⟩
    have hrun : (relay config caller b).run store =
        (.ok response, ((relay config caller b).run store).2) := Prod.ext hresponse rfl
    obtain ⟨t, hcheck, -⟩ := run_relay_eq_ok_iff.mp hrun
    obtain ⟨tx, target, hdecode, hsend, -⟩ := (check_eq_ok_iff hwell).mp hcheck
    exact ⟨tx, target, hdecode, hsend⟩
  · intro ⟨tx, target, hdecode, hsend⟩
    obtain ⟨nonce, after, happly, -⟩ := hsend.run_apply hwell
    have hcheck := (check_eq_ok_iff hwell).mpr ⟨tx, target, hdecode, hsend, rfl⟩
    exact ⟨_, congrArg Prod.fst (run_relay_eq_ok_iff.mpr ⟨_, hcheck, happly⟩)⟩
  · intro response after hrun
    obtain ⟨t, hcheck, ht⟩ := run_relay_eq_ok_iff.mp hrun
    obtain ⟨tx, target, hdecode, hsend, rfl⟩ := (check_eq_ok_iff hwell).mp hcheck
    obtain ⟨nonce, after', happly, -, heffect⟩ := hsend.run_apply hwell
    cases happly.symm.trans ht
    exact ⟨tx, target, hdecode, hsend, heffect, heffect.places⟩

theorem relay_exact_sample : Reachable sampleStore ∧
    ∃ response, ((relay sampleConfig Fixed.zero Transaction.sampleBytes).run sampleStore).1 =
      .ok response :=
  ⟨reachable_sampleStore,
    (relay_exact reachable_sampleStore sampleConfig Fixed.zero Transaction.sampleBytes).2.1.mpr
      ⟨Transaction.sample, _, Transaction.decode_sampleBytes, sendable_sample⟩⟩

end Ledger
end RelayLedger
