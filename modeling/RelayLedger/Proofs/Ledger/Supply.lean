/-
# Value is neither made nor lost

The supply of a ledger is the sum of the balances of all accounts that its store lists. Keeping an
account anew changes the supply by what its balance changes (`supply_save`), and nothing else that
a ledger writes counts. So a transfer leaves the supply alone, to whomever it goes, and of all
messages only an airdrop changes it, by exactly what it changes one balance.

Key definitions: `Ledger.supply`, `Ledger.SupplyChange`.
Key theorems: `Ledger.supply_save`, `Ledger.supply_leaves`, `Ledger.supply_conserved`.
-/
import RelayLedger.Proofs.Ledger.History
import RelayLedger.Proofs.Ledger.Listing
import RelayLedger.Proofs.OrderedMap

namespace RelayLedger
namespace Ledger

/-- The sum of the balances of all accounts of a store. -/
def supply (store : Store) : Nat :=
  match Account.listing none none false store with
  | .ok accounts => (accounts.map fun (_, a) => a.balance.toNat).sum
  | .error _ => 0

variable {store after : Store}

/-! ### What each entry counts -/

/-- What an entry of a store adds to the supply. -/
def entryBalance (entry : Bytes × Bytes) : Nat :=
  match (Account.member? entry.1).map fun s => Account.readEntry (s, entry.2) with
  | some (.ok (_, a)) => a.balance.toNat
  | _ => 0

theorem entryBalance_account (a : Account) :
    entryBalance ((Account.slot a.address).key, Json.encode a) = a.balance.toNat := by
  simp only [entryBalance, Account.member?_key, Option.map_some, Account.readEntry_encode]

theorem entryBalance_of_ne {p : Place} (h : ∀ address, p ≠ .account address) (s : Bytes) :
    entryBalance (p.key, s) = 0 := by
  simp only [entryBalance, Place.member?_key h, Option.map_none]

theorem entryBalance_chunk (caller : Address) (hash : TxHash) (index : Word 8) (s : Bytes) :
    entryBalance ((Chunk.slot caller hash index).key, s) = 0 :=
  entryBalance_of_ne (p := .chunk caller hash index) nofun s

/-- If all accounts among some entries can be read, they are listed and their balances summed. -/
theorem sum_entryBalance : ∀ {entries : List (Bytes × Bytes)},
    (∀ entry ∈ entries, ∀ s, Account.member? entry.1 = some s →
      ∃ account, Account.readEntry (s, entry.2) = .ok account) →
    ∃ accounts,
      (entries.filterMap fun (key, value) => (Account.member? key).bind fun s =>
        if Account.within none none s then some (s, value) else none).mapM Account.readEntry =
          .ok accounts ∧
      (accounts.map fun (_, a) => a.balance.toNat).sum = (entries.map entryBalance).sum
  | [], _ => ⟨[], rfl, rfl⟩
  | (k, v) :: rest, h => by
    obtain ⟨accounts, hrest, hsum⟩ :=
      sum_entryBalance fun entry hentry => h entry (List.mem_cons_of_mem _ hentry)
    cases hmember : Account.member? k with
    | none =>
      refine ⟨accounts, ?_, ?_⟩
      · rw [List.filterMap_cons_none (by simp [hmember]), hrest]
      · simp [entryBalance, hmember, hsum]
    | some s =>
      obtain ⟨account, haccount⟩ := h (k, v) List.mem_cons_self s hmember
      refine ⟨account :: accounts, ?_, ?_⟩
      · rw [List.filterMap_cons_some (b := (s, v)) (by simp [hmember, Account.within]),
          List.mapM_cons, haccount, ok_bind, hrest, ok_bind, pure_eq_ok]
      · simp [entryBalance, hmember, haccount, hsum]

/-- A tidy store lists its accounts, and its supply counts each of its entries. -/
theorem Tidy.listing (h : Tidy store) :
    ∃ accounts, Account.listing none none false store = .ok accounts ∧
      supply store = (store.toList.map entryBalance).sum := by
  obtain ⟨accounts, hlisting, hsum⟩ : ∃ accounts,
      Account.listing none none false store = .ok accounts ∧
        (accounts.map fun (_, a) => a.balance.toNat).sum = (store.toList.map entryBalance).sum := by
    refine sum_entryBalance fun (k, v) hentry s hmember => ?_
    obtain ⟨a, rfl, rfl⟩ := h.exists_account_of_member (OrderedMap.get?_of_mem hentry) hmember
    exact ⟨_, Account.readEntry_encode a⟩
  exact ⟨accounts, hlisting, by rw [supply, hlisting, ← hsum]⟩

theorem Tidy.supply_eq (h : Tidy store) : supply store = (store.toList.map entryBalance).sum := by
  obtain ⟨_, -, hsupply⟩ := h.listing
  exact hsupply

/-! ### What writes do to the supply -/

/-- An account that is kept anew counts instead of the one that it replaces. -/
theorem supply_save (h : WellFormed store) {a : Account} {address : Address} (balance : Word 256)
    (haddress : a.address = address) (hbalance : a.balance = balance) :
    supply (a.save store) + (accountAt store address).balance.toNat =
      supply store + balance.toNat := by
  subst haddress hbalance
  have hsum := OrderedMap.sum_insert entryBalance store (Account.slot a.address).key
    (Json.encode a)
  have hold : ((store.get? (Account.slot a.address).key).elim 0 fun s =>
      entryBalance ((Account.slot a.address).key, s)) =
        (accountAt store a.address).balance.toNat := by
    cases hget : store.get? (Account.slot a.address).key with
    | none =>
      rw [accountAt_of_get?_eq_none hget]
      rfl
    | some s =>
      obtain ⟨b, hb, rfl⟩ := h.tidy.fits (.account a.address) hget
      rw [accountAt_of_get? hget, Option.elim_some, ← hb, entryBalance_account]
  rw [hold, entryBalance_account] at hsum
  rw [(h.save_account a).tidy.supply_eq, h.tidy.supply_eq]
  exact hsum

/-- What is kept anywhere else does not count. -/
theorem supply_insert (h : Tidy store) {p : Place} (hp : ∀ address, p ≠ .account address)
    {s : Bytes} (hs : p.Fits s) : supply (store.insert p.key s) = supply store := by
  have hsum := OrderedMap.sum_insert entryBalance store p.key s
  have hold : ((store.get? p.key).elim 0 fun s => entryBalance (p.key, s)) = 0 := by
    cases store.get? p.key with
    | none => rfl
    | some t => exact entryBalance_of_ne hp t
  rw [hold, entryBalance_of_ne hp] at hsum
  rw [(h.insert p hs).supply_eq, h.supply_eq]
  exact hsum

theorem supply_saveConfig (h : Tidy store) (config : Config) :
    supply (Config.slot.save config store) = supply store :=
  supply_insert h (p := .config) nofun ⟨config, rfl⟩

theorem supply_saveVersion (h : Tidy store) :
    supply (Version.slot.save version store) = supply store :=
  supply_insert h (p := .version) nofun rfl

theorem supply_removeAll (h : WellFormed store) (caller : Address) (hash : TxHash)
    (count : Word 8) : supply (Chunk.removeAll caller hash count store) = supply store := by
  rw [Chunk.removeAll]
  generalize count.below = indices
  induction indices generalizing store with
  | nil => rfl
  | cons index rest ih =>
    have herase := h.erase_chunk caller hash index
    rw [List.foldl_cons, ih herase, herase.tidy.supply_eq, h.tidy.supply_eq]
    exact OrderedMap.sum_erase entryBalance store (entryBalance_chunk caller hash index)

/-- A transfer takes from one account what it gives to another. -/
theorem supply_leaves (h : WellFormed store) {t : Transfer} {nonce : Word 64}
    (hleaves : t.Leaves store nonce after) : supply after = supply store := by
  have hsource := h.address_accountAt t.source
  have htarget := h.address_accountAt t.target
  cases hleaves with
  | counted same =>
    have hsave := supply_save h (a := { accountAt store t.source with nonce := nonce })
      (accountAt store t.source).balance hsource rfl
    omega
  | @moved less more other paid received =>
    have hpaid := Word.sub?_eq_some_iff.mp paid
    have hreceived := Word.add?_eq_some_iff.mp received
    generalize hrecipient :
      ({ accountAt store t.target with balance := more } : Account) = recipient
    have haddress : recipient.address = t.target := hrecipient ▸ htarget
    have hcredit := supply_save h more haddress (hrecipient ▸ rfl)
    have hdebit := supply_save (h.save_account recipient)
      (a := { accountAt store t.source with balance := less, nonce := nonce }) less hsource rfl
    -- the credit leaves the sender's account as it was, so the debit replaces the old one
    have hstill : accountAt (recipient.save store) t.source = accountAt store t.source := by
      rw [accountAt_save, haddress, if_neg (Ne.symm other)]
    rw [hstill] at hdebit
    omega

theorem supply_relays (h : WellFormed store) {config : Config} {caller : Address} {b : Bytes}
    {response : Response} (hrelays : Relays config caller b store response after) :
    supply after = supply store := by
  cases hrelays with
  | sent _ _ _ leaves => exact supply_leaves h leaves

/-! ### What messages do to the supply -/

/-- By how much a message that goes through changes the supply. -/
def Message.minted (store : Store) : Message → Int
  | .command _ (.airdrop address amount) =>
    amount.toNat - (accountAt store address).balance.toNat
  | _ => 0

theorem Message.minted_eq_zero {m : Message}
    (h : ∀ sent address amount, m ≠ .command sent (.airdrop address amount)) :
    m.minted store = 0 := by
  cases m with
  | command sent command =>
    cases command with
    | airdrop address amount => exact absurd rfl (h sent address amount)
    | _ => rfl
  | change c => rfl

theorem supply_accepts (h : WellFormed store) {m : Message} {response : Response}
    (haccepts : Accepts store m response after) :
    (supply after : Int) = supply store + m.minted store := by
  have unchanged : ∀ {after : Store}, supply after = supply store →
      (supply after : Int) = supply store + 0 := fun e => by rw [e, Int.add_zero]
  cases haccepts with
  | @command envelope command config _ _ _ _ _ performs =>
    cases performs with
    | @createAccount address code free =>
      have hvacant : accountAt store address = .vacant address := by
        rw [accountAt_eq_getD, free, Option.getD_none]
      have hsave : _ + (accountAt store address).balance.toNat = supply store + 0 :=
        supply_save h (a := { Account.vacant address with code := code }) 0 rfl rfl
      rw [hvacant] at hsave
      exact unchanged hsave
    | relay relayed => exact unchanged (supply_relays h relayed)
    | @storeChunk caller hash index data =>
      exact unchanged (supply_insert h.tidy (p := .chunk caller hash index) nofun ⟨data, rfl⟩)
    | @relayChunks caller hash count _ _ _ _ relayed =>
      exact unchanged ((supply_relays (h.removeAll caller hash count) relayed).trans
        (supply_removeAll h caller hash count))
    | @airdrop address amount =>
      have hsave := supply_save h (a := { accountAt store address with balance := amount }) amount
        (h.address_accountAt address) rfl
      rw [Message.minted]
      omega
    | updateOperators _ => exact unchanged (supply_saveConfig h.tidy _)
  | change _ =>
    exact unchanged ((supply_saveVersion (h.save_config _).tidy).trans
      (supply_saveConfig h.tidy _))

/-- A refused message leaves the supply alone, even if what it wrote is not taken back. -/
theorem supply_refused (h : WellFormed store) {m : Message} {refusal : Refusal}
    (hrun : m.action.run store = (.error refusal, after)) : supply after = supply store := by
  rcases run_action_error h hrun with rfl | ⟨_, caller, hash, count, _, -, -, rfl⟩
  · rfl
  · exact supply_removeAll h caller hash count

theorem supply_setUp {envelope : Envelope} {setup : Setup} {response : Response}
    (h : (instantiate envelope setup).run ∅ = (.ok response, store)) : supply store = 0 := by
  obtain ⟨operators, -, -, rfl⟩ := run_instantiate_eq_ok h
  have hversion : Tidy (Version.slot.save version ∅) := Tidy.empty.insert .version rfl
  rw [supply_saveConfig hversion, supply_saveVersion Tidy.empty]
  rfl

/-- What a message to a ledger does to its supply. -/
structure SupplyChange (store : Store) (m : Message) : Prop where
  listed : ∃ accounts, Account.listing none none false store = .ok accounts
  /-- An airdrop sets one balance, and an account that is not kept counts as empty. -/
  airdrop : ∀ {sent address amount response after}, m = .command sent (.airdrop address amount) →
    deliver m store = (.ok response, after) →
      (supply after : Int) = supply store +
        (amount.toNat - (storedAccount store address).elim 0 fun a => a.balance.toNat)
  others : (∀ sent address amount, m ≠ .command sent (.airdrop address amount)) →
    supply (deliver m store).2 = supply store
  refused : ∀ {refusal}, (deliver m store).1 = .error refusal →
    supply (deliver m store).2 = supply store ∧ supply (m.action.run store).2 = supply store

/-- A ledger starts without any value, and in whatever it goes through nothing but an airdrop that
goes through changes its supply. -/
theorem supply_conserved {envelope : Envelope} {setup : Setup} {response : Response}
    {start : Store} (h : (instantiate envelope setup).run ∅ = (.ok response, start)) :
    supply start = 0 ∧ ∀ (messages : List Message) (m : Message),
      SupplyChange (run messages start).2 m := by
  refine ⟨supply_setUp h, fun messages m => ?_⟩
  have hwell := ((Reachable.setUp h).run messages).wellFormed
  generalize (run messages start).2 = store at hwell
  obtain ⟨accounts, hlisted, -⟩ := hwell.tidy.listing
  have hstep := deliver_cases hwell m
  refine ⟨⟨accounts, hlisted⟩, ?_, ?_, ?_⟩
  · rintro sent address amount response after rfl hdeliver
    rcases hstep with ⟨refusal, _, -, hrefused⟩ | ⟨_, _, hdone, haccepts⟩
    · cases hrefused.symm.trans hdeliver
    · cases hdone.symm.trans hdeliver
      rw [supply_accepts hwell haccepts, Message.minted, accountAt_eq_getD]
      cases storedAccount store address <;> rfl
  · intro hother
    rcases hstep with ⟨refusal, _, -, hrefused⟩ | ⟨_, after, hdone, haccepts⟩
    · rw [hrefused]
    · have hsupply := supply_accepts hwell haccepts
      rw [Message.minted_eq_zero hother, Int.add_zero] at hsupply
      rw [hdone]
      exact Int.ofNat_inj.mp hsupply
  · intro refusal hdeliver
    rcases hstep with ⟨_, written, hrun, hrefused⟩ | ⟨_, _, hdone, -⟩
    · rw [hrefused, hrun]
      exact ⟨rfl, supply_refused hwell hrun⟩
    · rw [hdone] at hdeliver
      cases hdeliver

/-- What the owner airdrops is the whole supply, and when it is sent to another account it still
is. -/
theorem supply_conserved_sample : ∃ response relayed,
    (instantiate ⟨sampleOwner, []⟩ ⟨[], none, Transaction.sample.chainId⟩).run ∅ =
      (.ok response, sampleSetUp) ∧
    supply sampleSetUp = 0 ∧ supply sampleStore = Transaction.sample.value.toNat ∧
    deliver sampleRelay sampleStore =
      (.ok relayed, samplePayer.save (samplePayee.save sampleStore)) ∧
    supply (samplePayer.save (samplePayee.save sampleStore)) =
      Transaction.sample.value.toNat := by
  obtain ⟨response, hrun⟩ := run_sampleSetUp
  obtain ⟨hzero, hlaw⟩ := supply_conserved hrun
  obtain ⟨_, hairdrop⟩ := deliver_sampleAirdrop
  obtain ⟨relayed, hrelay⟩ := deliver_sampleRelay reachable_sampleStore.wellFormed
    load_sampleStore fun _ => rfl
  have hnone : storedAccount sampleSetUp Fixed.zero = none :=
    Slot.kept?_of_get?_eq_none (by decide +kernel)
  have hfilled := (hlaw [] sampleAirdrop).airdrop rfl hairdrop
  simp only [run, hzero, hnone, Option.elim_none] at hfilled
  have hsupply : supply sampleStore = Transaction.sample.value.toNat := by omega
  have hother : ∀ sent address amount,
      sampleRelay ≠ .command sent (.airdrop address amount) := by
    intro sent address amount e
    cases (Message.command.inj e).2
  have hmoved := (hlaw [sampleAirdrop] sampleRelay).others hother
  rw [run_cons_snd hairdrop, run, hrelay, hsupply] at hmoved
  exact ⟨response, relayed, hrun, hzero, hsupply, hrelay, hmoved⟩

end Ledger
end RelayLedger
