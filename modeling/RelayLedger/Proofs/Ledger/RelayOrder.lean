/-
# Transactions in another order

Transactions that go through only add up. Afterwards an account has what it had before, what it got
and less what it sent; its nonce has grown by the number of transactions sent from it; and it is
kept if it was or took part in one. None of this depends on the order in which they came
(`Settles.perm`), and it says all of the store there is to say (`Settles.unique`), so two orders in
which everything goes through end in the same store. Where two transactions have no account in
common, not even the outcome depends on which comes first.

Key definitions: `Ledger.Settles`, `Ledger.Relay`, `Ledger.Relay.Apart`, `Ledger.OrderFree`.
Key theorems: `Ledger.settles_run`, `Ledger.Settles.unique`, `Ledger.deliver_relay_congr`,
`Ledger.relay_order`.
-/
import RelayLedger.Proofs.Ledger.History
import RelayLedger.Proofs.Ledger.Settings

namespace RelayLedger
namespace Ledger

variable {store mid after after' : Store} {config : Config} {address : Address}

/-! ### What transfers add up to -/

namespace Transfer

/-- An account takes part in a transfer as its source or its target. -/
def Involves (t : Transfer) (address : Address) : Prop := address = t.source ∨ address = t.target

/-- How much a transfer takes from an account. -/
def paidBy (address : Address) (t : Transfer) : Nat :=
  if address = t.source then t.value.toNat else 0

/-- How much a transfer gives to an account. -/
def gotBy (address : Address) (t : Transfer) : Nat :=
  if address = t.target then t.value.toNat else 0

end Transfer

/-- What transfers that went through have made of a store, whatever their order. -/
structure Settles (transfers : List Transfer) (store after : Store) : Prop where
  /-- An account is there if it was, or if it took part. -/
  kept : ∀ address, storedAccount after address = none ↔
    storedAccount store address = none ∧ ∀ t ∈ transfers, ¬ t.Involves address
  code : ∀ address, (accountAt after address).code = (accountAt store address).code
  nonce : ∀ address, (accountAt after address).nonce.toNat =
    (accountAt store address).nonce.toNat + transfers.countP (fun t => address = t.source)
  balance : ∀ address,
    (accountAt after address).balance.toNat + (transfers.map (Transfer.paidBy address)).sum =
      (accountAt store address).balance.toNat + (transfers.map (Transfer.gotBy address)).sum
  others : ∀ p : Place, (∀ address, p ≠ .account address) → after.get? p.key = store.get? p.key

theorem Account.ext_parts {a b : Account} (haddress : a.address = b.address)
    (hnonce : a.nonce = b.nonce) (hbalance : a.balance = b.balance) (hcode : a.code = b.code) :
    a = b := by
  cases a; cases b; cases haddress; cases hnonce; cases hbalance; cases hcode; rfl

namespace Settles

variable {transfers more : List Transfer}

theorem refl (store : Store) : Settles [] store store where
  kept _ := by simp
  code _ := rfl
  nonce _ := rfl
  balance _ := rfl
  others _ _ := rfl

theorem append (h : Settles transfers store mid) (h' : Settles more mid after) :
    Settles (transfers ++ more) store after where
  kept address := by
    rw [h'.kept, h.kept, and_assoc, List.forall_mem_append]
  code address := (h'.code address).trans (h.code address)
  nonce address := by
    rw [h'.nonce, h.nonce, List.countP_append, Nat.add_assoc]
  balance address := by
    have hfirst := h.balance address
    have hthen := h'.balance address
    rw [List.map_append, List.map_append, List.sum_append, List.sum_append]
    omega
  others p hp := (h'.others p hp).trans (h.others p hp)

/-- The order of the transfers does not matter. -/
theorem perm (h : Settles transfers store after) (hperm : transfers.Perm more) :
    Settles more store after where
  kept address := by
    rw [h.kept]
    exact and_congr_right' (forall_congr' fun t => by rw [hperm.mem_iff])
  code := h.code
  nonce address := by rw [h.nonce, hperm.countP_eq]
  balance address := by
    rw [← (hperm.map (Transfer.paidBy address)).sum_nat, h.balance,
      (hperm.map (Transfer.gotBy address)).sum_nat]
  others := h.others

/-- There is no other store that the transfers could have led to. -/
theorem unique (h : Settles transfers store after) (h' : Settles transfers store after')
    (hafter : WellFormed after) (hafter' : WellFormed after') : after = after' := by
  refine hafter.ext hafter' (fun address => ?_) fun p hp => (h.others p hp).trans (h'.others p hp).symm
  have hat : accountAt after address = accountAt after' address := by
    have hbalance := h.balance address
    have hbalance' := h'.balance address
    refine Account.ext_parts ?_ ?_ ?_ ?_
    · rw [hafter.address_accountAt, hafter'.address_accountAt]
    · exact Word.ext_toNat ((h.nonce address).trans (h'.nonce address).symm)
    · exact Word.ext_toNat (by omega)
    · rw [h.code, h'.code]
  have hnone : storedAccount after address = none ↔ storedAccount after' address = none := by
    rw [h.kept, h'.kept]
  exact storedAccount_eq_of_accountAt hnone hat

end Settles

/-! ### One transfer -/

variable {t : Transfer} {nonce : Word 64}

/-- A transfer from an account to itself that goes through. -/
theorem settles_counted (h : WellFormed store) (hself : t.target = t.source)
    (hnext : nonce.toNat = (accountAt store t.source).nonce.toNat + 1) :
    Settles [t] store
      (({ accountAt store t.source with nonce := nonce } : Account).save store) := by
  have hsource := h.address_accountAt t.source
  refine ⟨fun address => ?_, fun address => ?_, fun address => ?_, fun address => ?_, fun p hp =>
    Account.get?_save_of_ne (Place.key_ne_account (hp _)) store⟩
  · rw [storedAccount_save, hsource]
    by_cases hs : address = t.source <;> simp [Transfer.Involves, hself, hs]
  all_goals rw [accountAt_save, hsource]
  · by_cases hs : address = t.source <;> simp [hs]
  · by_cases hs : address = t.source <;> simp [hs, hnext]
  · by_cases hs : address = t.source <;> simp [Transfer.paidBy, Transfer.gotBy, hself, hs]

/-- A transfer between two accounts that goes through. -/
theorem settles_moved (h : WellFormed store) {less more : Word 256} (hne : t.target ≠ t.source)
    (hpaid : (accountAt store t.source).balance.sub? t.value = some less)
    (hreceived : (accountAt store t.target).balance.add? t.value = some more)
    (hnext : nonce.toNat = (accountAt store t.source).nonce.toNat + 1) :
    Settles [t] store
      (({ accountAt store t.source with balance := less, nonce := nonce } : Account).save
        (({ accountAt store t.target with balance := more } : Account).save store)) := by
  have hsource := h.address_accountAt t.source
  have htarget := h.address_accountAt t.target
  rw [Word.sub?_eq_some_iff] at hpaid
  rw [Word.add?_eq_some_iff] at hreceived
  refine ⟨fun address => ?_, fun address => ?_, fun address => ?_, fun address => ?_, fun p hp =>
    (Account.get?_save_of_ne (Place.key_ne_account (hp _)) _).trans
      (Account.get?_save_of_ne (Place.key_ne_account (hp _)) store)⟩
  -- each time the account is the source, the target or neither
  · rw [storedAccount_save, storedAccount_save, hsource, htarget]
    by_cases hs : address = t.source <;> by_cases ht : address = t.target <;>
      simp [Transfer.Involves, hs, ht, hne]
  all_goals rw [accountAt_save, accountAt_save, hsource, htarget]
  · by_cases hs : address = t.source
    · simp [hs]
    · by_cases ht : address = t.target <;> simp [hs, ht, hne]
  · by_cases hs : address = t.source
    · simp [hs, hnext]
    · by_cases ht : address = t.target <;> simp [hs, ht, hne]
  · by_cases hs : address = t.source
    · simp [Transfer.paidBy, Transfer.gotBy, hs, hne.symm, hpaid]
    · by_cases ht : address = t.target <;>
        simp [Transfer.paidBy, Transfer.gotBy, hs, ht, hne, hreceived]

theorem settles_of_leaves (h : WellFormed store) (hleaves : t.Leaves store nonce after)
    (hnext : nonce.toNat = (accountAt store t.source).nonce.toNat + 1) :
    Settles [t] store after := by
  cases hleaves with
  | counted same => exact settles_counted h same hnext
  | moved other paid received => exact settles_moved h other paid received hnext

/-! ### Relays -/

/-- A transaction to be relayed in one piece. -/
structure Relay where
  envelope : Envelope
  caller : Address
  tx : Bytes

namespace Relay

def message (r : Relay) : Message := .command r.envelope (.relay r.caller r.tx)

/-- What is to be relayed, whoever relays it. -/
def request (r : Relay) : Address × Bytes := (r.caller, r.tx)

/-- The transfer that a transaction asks for, if it can be read and has a recipient. -/
def asked : Address × Bytes → Option Transfer
  | (caller, b) =>
    match Transaction.decode b with
    | .ok tx => tx.recipient.map fun target => ⟨caller, target, tx.value⟩
    | .error _ => none

def transfer? (r : Relay) : Option Transfer := asked r.request

/-- No account takes part in both transfers. -/
def Apart (r r' : Relay) : Prop :=
  ∀ t ∈ r.transfer?, ∀ t' ∈ r'.transfer?, ∀ address, t.Involves address → ¬ t'.Involves address

variable {r : Relay}

theorem mem_transfer? {tx : Transaction} {target : Address}
    (hdecode : Transaction.decode r.tx = .ok tx) (hrecipient : tx.recipient = some target) :
    r.transfer? = some ⟨r.caller, target, tx.value⟩ := by
  rw [transfer?, request, asked, hdecode]
  simp only
  rw [hrecipient, Option.map_some]

/-- Relays of the same transactions in any order, by whomever, ask for the same transfers. -/
theorem filterMap_transfer?_perm {relays relays' : List Relay}
    (h : (relays.map request).Perm (relays'.map request)) :
    (relays.filterMap transfer?).Perm (relays'.filterMap transfer?) := by
  have hasked := h.filterMap asked
  rw [List.filterMap_map, List.filterMap_map] at hasked
  exact hasked

end Relay

/-- Everything goes through. -/
def Succeeds (messages : List Message) (store : Store) : Prop :=
  ∀ outcome ∈ (run messages store).1, ∃ response, outcome = .ok response

/-- A relay that goes through makes the transfer that it asks for. -/
theorem leaves_of_deliver_relay (h : WellFormed store) {r : Relay} {response : Response}
    (hdeliver : deliver r.message store = (.ok response, after)) :
    ∃ t nonce, r.transfer? = some t ∧ t.Leaves store nonce after ∧
      nonce.toNat = (accountAt store t.source).nonce.toNat + 1 ∧ response = t.response nonce := by
  cases accepts_of_deliver h hdeliver with
  | command _ _ _ performs =>
    cases performs with
    | relay relayed =>
      cases relayed with
      | sent decoded sendable next leaves =>
        exact ⟨_, _, Relay.mem_transfer? decoded sendable.recipient, leaves, next, rfl⟩

/-- Relays that all go through have made the transfers that they ask for. -/
theorem settles_run (h : Reachable store) {relays : List Relay}
    (hall : Succeeds (relays.map Relay.message) store) :
    Settles (relays.filterMap Relay.transfer?) store (run (relays.map Relay.message) store).2 := by
  induction relays generalizing store with
  | nil => exact .refl store
  | cons r rest ih =>
    obtain ⟨response, hok⟩ := hall _ List.mem_cons_self
    have hdeliver : deliver r.message store = (.ok response, (deliver r.message store).2) :=
      Prod.ext hok rfl
    obtain ⟨t, nonce, htransfer, hleaves, hnext, -⟩ := leaves_of_deliver_relay h.wellFormed hdeliver
    have hrest := ih (.deliver r.message h) fun outcome hmem => hall outcome (List.mem_cons_of_mem _ hmem)
    rw [List.filterMap_cons_some htransfer]
    exact (settles_of_leaves h.wellFormed hleaves hnext).append hrest

/-! ### Relays that have no account in common -/

/-- An account that takes no part in a transfer is left alone. -/
theorem storedAccount_leaves (h : WellFormed store) (hleaves : t.Leaves store nonce after)
    (hapart : ¬ t.Involves address) :
    storedAccount after address = storedAccount store address := by
  obtain ⟨hsource, htarget⟩ := not_or.mp hapart
  cases hleaves with
  | counted _ => rw [storedAccount_save, h.address_accountAt, if_neg hsource]
  | moved _ _ _ =>
    rw [storedAccount_save, storedAccount_save, h.address_accountAt, h.address_accountAt,
      if_neg hsource, if_neg htarget]

/-- Looking a transaction over is looking at the two accounts. -/
theorem check_congr (h : WellFormed store) (hafter : WellFormed after) {r : Relay}
    (haccounts : ∀ t ∈ r.transfer?, ∀ address, t.Involves address →
      accountAt after address = accountAt store address) :
    check config r.caller r.tx after = check config r.caller r.tx store := by
  unfold check
  cases hdecode : Transaction.decode r.tx with
  | error fault => rfl
  | ok tx =>
    simp only [Except.mapError, ok_bind]
    cases hrecipient : tx.recipient with
    | none => rfl
    | some target =>
      have hmem := Relay.mem_transfer? hdecode hrecipient
      have hcaller := haccounts _ hmem r.caller (.inl rfl)
      have htarget := haccounts _ hmem target (.inr rfl)
      simp only [h.load, hafter.load, hcaller, htarget]

/-- What a relay answers tells of its accounts no more than the sender's nonce. -/
theorem run_relay_congr (h : WellFormed store) (hafter : WellFormed after) {r : Relay}
    (haccounts : ∀ t ∈ r.transfer?, ∀ address, t.Involves address →
      accountAt after address = accountAt store address) :
    ((relay config r.caller r.tx).run after).1 = ((relay config r.caller r.tx).run store).1 := by
  have hsame : check config r.caller r.tx after = check config r.caller r.tx store :=
    check_congr h hafter haccounts
  rw [run_relay, run_relay, hsame]
  cases hcheck : check config r.caller r.tx store with
  | error refusal => rfl
  | ok t =>
    obtain ⟨tx, target, hdecode, hsend, rfl⟩ := (check_eq_ok_iff h).mp hcheck
    obtain ⟨tx', target', hdecode', hsend', e⟩ := (check_eq_ok_iff hafter).mp (hsame.trans hcheck)
    cases hdecode.symm.trans hdecode'
    obtain rfl : target = target' := congrArg Transfer.target e
    obtain ⟨nonce, _, hrun, hnonce, -⟩ := hsend.run_apply h
    obtain ⟨nonce', _, hrun', hnonce', -⟩ := hsend'.run_apply hafter
    rw [haccounts _ (Relay.mem_transfer? hdecode hsend.recipient) r.caller (.inl rfl)] at hnonce'
    have hsameNonce : nonce' = nonce := Word.ext_toNat (hnonce'.trans hnonce.symm)
    simp only [hrun, hrun', hsameNonce]

/-- What becomes of a relay depends on the settings and on its accounts alone. -/
theorem deliver_relay_congr (h : WellFormed store) (hafter : WellFormed after) {r : Relay}
    (hconfig : Config.slot.load after = Config.slot.load store)
    (haccounts : ∀ t ∈ r.transfer?, ∀ address, t.Involves address →
      accountAt after address = accountAt store address) :
    (deliver r.message after).1 = (deliver r.message store).1 := by
  obtain ⟨config, hload⟩ := h.exists_config
  rw [deliver, deliver, Action.commit_fst, Action.commit_fst, Relay.message, Message.action,
    run_execute_eq hload, run_execute_eq (hconfig.trans hload)]
  split
  · rfl
  · split
    · exact run_relay_congr h hafter haccounts
    · rfl

/-- A relay is not affected by one that has no account in common with it. -/
theorem deliver_relay_of_apart (h : Reachable store) {r r' : Relay} (hapart : r.Apart r') :
    (deliver r.message (deliver r'.message store).2).1 = (deliver r.message store).1 := by
  have hafter := (Reachable.deliver r'.message h).wellFormed
  rcases deliver_cases h.wellFormed r'.message with ⟨_, _, -, hrefused⟩ | ⟨_, after, hdone, -⟩
  · rw [hrefused]
  · obtain ⟨t', nonce, htransfer, hleaves, -, -⟩ := leaves_of_deliver_relay h.wellFormed hdone
    rw [hdone] at hafter ⊢
    refine deliver_relay_congr h.wellFormed hafter (load_config_leaves hleaves)
      fun t ht address hinvolved => accountAt_congr ?_
    exact storedAccount_leaves h.wellFormed hleaves (hapart t ht t' htransfer address hinvolved)

/-! ### The law -/

/-- In which order a ledger gets transactions makes no difference where they all go through, and
where they have no account in common none to whether they do. -/
structure OrderFree (store : Store) : Prop where
  settled : ∀ relays relays' : List Relay,
    (relays.map Relay.request).Perm (relays'.map Relay.request) →
    Succeeds (relays.map Relay.message) store → Succeeds (relays'.map Relay.message) store →
      (run (relays.map Relay.message) store).2 = (run (relays'.map Relay.message) store).2
  /-- The outcome is the same if the other goes first. -/
  apart : ∀ r r' : Relay, r.Apart r' →
    (deliver r.message (deliver r'.message store).2).1 = (deliver r.message store).1 ∧
    (deliver r'.message (deliver r.message store).2).1 = (deliver r'.message store).1

theorem Relay.Apart.symm {r r' : Relay} (h : r.Apart r') : r'.Apart r :=
  fun t' ht' t ht address hinvolved' hinvolved => h t ht t' ht' address hinvolved hinvolved'

theorem relay_order (h : Reachable store) : OrderFree store where
  settled _ _ hperm hall hall' :=
    ((settles_run h hall).perm (Relay.filterMap_transfer?_perm hperm)).unique
      (settles_run h hall') (h.run _).wellFormed (h.run _).wellFormed
  apart _ _ hapart := ⟨deliver_relay_of_apart h hapart, deliver_relay_of_apart h hapart.symm⟩

/-- The relay of the sample transaction. -/
def samplePayment : Relay := ⟨⟨sampleOwner, []⟩, Fixed.zero, Transaction.sampleBytes⟩

/-- An address that has nothing to do with the sample transaction. -/
def sampleBystander : Address := ⟨List.replicate 20 1, rfl⟩

/-- A transaction by which an account sends nothing to itself. -/
def sampleTick : Transaction :=
  { Transaction.sample with recipient := some sampleBystander, value := 0, encodedLength := 32 }

theorem decode_sampleTick : Transaction.decode sampleTick.encode = .ok sampleTick :=
  Transaction.decode_eq_ok_iff.mpr ⟨rfl, by decide +kernel, by decide +kernel⟩

theorem sendable_sampleTick :
    Sendable sampleConfig sampleStore sampleBystander sampleBystander sampleTick := by
  have hvacant : accountAt sampleStore sampleBystander = .vacant sampleBystander :=
    accountAt_of_get?_eq_none (by decide +kernel)
  exact {
    chainId := .inr rfl
    recipient := rfl
    noCode := by rw [hvacant]; rfl
    funds := Nat.zero_le _
    room := .inl rfl
    countable := by rw [hvacant]; decide }

/-- The relay of that transaction. -/
def sampleTicking : Relay := ⟨⟨sampleOwner, []⟩, sampleBystander, sampleTick.encode⟩

theorem apart_samples : samplePayment.Apart sampleTicking := by
  have hpayment := Relay.mem_transfer? (r := samplePayment) Transaction.decode_sampleBytes
    sendable_sample.recipient
  have hticking := Relay.mem_transfer? (r := sampleTicking) decode_sampleTick rfl
  intro t ht t' ht'
  cases hpayment.symm.trans ht
  cases hticking.symm.trans ht'
  rintro address (rfl | rfl) (h | h) <;> revert h <;> decide +kernel

theorem succeeds_pair {m m' : Message} (h : ∃ response, (deliver m store).1 = .ok response)
    (h' : ∃ response, (deliver m' (deliver m store).2).1 = .ok response) :
    Succeeds [m, m'] store := by
  have houtcomes : (run [m, m'] store).1 =
      [(deliver m store).1, (deliver m' (deliver m store).2).1] := rfl
  rw [Succeeds, houtcomes, List.forall_mem_cons, List.forall_mem_singleton]
  exact ⟨h, h'⟩

theorem relay_order_sample : Reachable sampleStore ∧
    Succeeds [samplePayment.message, sampleTicking.message] sampleStore ∧
    (run [samplePayment.message, sampleTicking.message] sampleStore).2 =
      (run [sampleTicking.message, samplePayment.message] sampleStore).2 := by
  have hwell := reachable_sampleStore.wellFormed
  have hfree := relay_order reachable_sampleStore
  obtain ⟨hpayment', hticking'⟩ := hfree.apart _ _ apart_samples
  obtain ⟨response, _, hpayment⟩ := sendable_sample.deliver_relay hwell load_sampleStore
    isOperator_sampleOwner Transaction.decode_sampleBytes
  obtain ⟨response', _, hticking⟩ := sendable_sampleTick.deliver_relay hwell load_sampleStore
    isOperator_sampleOwner decode_sampleTick
  have hpaid : (deliver samplePayment.message sampleStore).1 = .ok response :=
    congrArg Prod.fst hpayment
  have hticked : (deliver sampleTicking.message sampleStore).1 = .ok response' :=
    congrArg Prod.fst hticking
  have hfirst : Succeeds [samplePayment.message, sampleTicking.message] sampleStore :=
    succeeds_pair ⟨response, hpaid⟩ ⟨response', hticking'.trans hticked⟩
  have hlast : Succeeds [sampleTicking.message, samplePayment.message] sampleStore :=
    succeeds_pair ⟨response', hticked⟩ ⟨response, hpayment'.trans hpaid⟩
  exact ⟨reachable_sampleStore, hfirst,
    hfree.settled [samplePayment, sampleTicking] [sampleTicking, samplePayment]
      (.swap _ _ _) hfirst hlast⟩

end Ledger
end RelayLedger
