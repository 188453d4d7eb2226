/-
# Reachable stores are in order

Once a ledger is set up its store is tidy and holds settings and a version, and no message changes
that, whether it goes through or not: all that a message ever does is keep an account under its own
address, keep or drop a chunk, and keep settings. So what a ledger needs can always be read.

Key definitions: `Ledger.WellFormed`, `Ledger.accountAt`.
Key theorems: `Ledger.keeps_perform`, `Ledger.keeps_action`, `Ledger.Reachable.wellFormed`.
-/
import RelayLedger.Proofs.Ledger.Account

namespace RelayLedger
namespace Ledger

open RelayLedger.Action

/-- The store of a ledger that is set up. -/
structure WellFormed (store : Store) : Prop where
  tidy : Tidy store
  config : Config.slot.isTaken store = true
  version : Version.slot.isTaken store = true

namespace WellFormed

variable {store : Store}

theorem insert (h : WellFormed store) (p : Place) {s : Bytes} (hs : p.Fits s) :
    WellFormed (store.insert p.key s) :=
  ⟨h.tidy.insert p hs, Slot.isTaken_insert h.config _ _, Slot.isTaken_insert h.version _ _⟩

theorem save_account (h : WellFormed store) (a : Account) : WellFormed (a.save store) :=
  h.insert (.account a.address) ⟨a, rfl, rfl⟩

theorem save_config (h : WellFormed store) (c : Config) : WellFormed (Config.slot.save c store) :=
  h.insert .config ⟨c, rfl⟩

theorem save_version (h : WellFormed store) :
    WellFormed (Version.slot.save Ledger.version store) :=
  h.insert .version rfl

theorem save_chunk (h : WellFormed store) (caller : Address) (hash : TxHash) (index : Word 8)
    (data : Bytes) : WellFormed ((Chunk.slot caller hash index).save data store) :=
  h.insert (.chunk caller hash index) ⟨data, rfl⟩

theorem erase_chunk (h : WellFormed store) (caller : Address) (hash : TxHash) (index : Word 8) :
    WellFormed ((Chunk.slot caller hash index).erase store) where
  tidy := h.tidy.erase _
  config := Slot.isTaken_erase_of_ne
    (fun e => nomatch Place.key_injective (p := .config) (q := .chunk caller hash index) e) h.config
  version := Slot.isTaken_erase_of_ne
    (fun e => nomatch Place.key_injective (p := .version) (q := .chunk caller hash index) e)
    h.version

theorem removeAll (h : WellFormed store) (caller : Address) (hash : TxHash) (count : Word 8) :
    WellFormed (Chunk.removeAll caller hash count store) := by
  rw [Chunk.removeAll]
  generalize count.below = indices
  induction indices generalizing store with
  | nil => exact h
  | cons index rest ih => exact ih (h.erase_chunk caller hash index)

theorem exists_config (h : WellFormed store) : ∃ c : Config, Config.slot.load store = .ok c :=
  h.tidy.exists_config h.config

end WellFormed

/-! ### Every action keeps the store in order -/

namespace Account

theorem keeps_get (address : Address) : Keeps WellFormed (get address) := .read _

theorem keeps_put (a : Account) : Keeps WellFormed (put a) :=
  .write fun _ h => h.save_account a

theorem keeps_create (address : Address) (code : Bytes) :
    Keeps WellFormed (create address code) := by
  refine .bind (.read _) fun taken => ?_
  split
  · exact .throw _
  · exact .bind (keeps_put _) fun _ => .pure _

theorem keeps_setBalance (address : Address) (balance : Word 256) :
    Keeps WellFormed (setBalance address balance) :=
  .bind (keeps_get address) fun _ => keeps_put _

theorem keeps_debit (address : Address) (value : Word 256) :
    Keeps WellFormed (debit address value) := by
  refine .bind (keeps_get address) fun a => ?_
  split
  · exact .throw _
  · exact keeps_setBalance address _

theorem keeps_credit (address : Address) (value : Word 256) :
    Keeps WellFormed (credit address value) := by
  refine .bind (keeps_get address) fun a => ?_
  split
  · exact .throw _
  · exact keeps_setBalance address _

theorem keeps_countUp (address : Address) : Keeps WellFormed (countUp address) := by
  refine .bind (keeps_get address) fun a => ?_
  split
  · exact .throw _
  · exact .bind (keeps_put _) fun _ => .pure _

end Account

theorem Transfer.keeps_apply (t : Transfer) : Keeps WellFormed t.apply :=
  .bind (.bind (Account.keeps_debit _ _) fun _ => Account.keeps_credit _ _) fun _ =>
    .bind (Account.keeps_countUp _) fun _ => .pure _

theorem keeps_relay (config : Config) (caller : Address) (tx : Bytes) :
    Keeps WellFormed (relay config caller tx) :=
  .bind (.read _) fun t => t.keeps_apply

/-- One case for each command. -/
theorem keeps_perform (config : Config) :
    ∀ command : Command, Keeps WellFormed (perform config command)
  | .createAccount address code => .bind (Account.keeps_create address code) fun _ => .pure _
  | .relay caller tx => keeps_relay config caller tx
  | .storeChunk caller hash index data =>
    .bind (.write fun _ h => h.save_chunk caller hash index data) fun _ => .pure _
  | .relayChunks caller hash count =>
    .bind (.read _) fun tx => .bind (.write fun _ h => h.removeAll caller hash count) fun _ =>
      .bind (keeps_relay config caller tx) fun _ => .pure _
  | .airdrop address amount => .bind (Account.keeps_setBalance address amount) fun _ => .pure _
  | .updateOperators _ _ =>
    .bind (.read _) fun _ => .bind (.write fun _ h => h.save_config _) fun _ => .pure _

theorem keeps_execute (envelope : Envelope) (command : Command) :
    Keeps WellFormed (execute envelope command) := by
  unfold execute
  split
  · exact .throw _
  · refine .bind (.read _) fun config => ?_
    split
    · exact keeps_perform config command
    · exact .throw _

theorem keeps_change (c : Change) : Keeps WellFormed (change c) :=
  .bind (.read _) fun _ => .bind (.write fun _ h => h.save_config _) fun _ =>
    .bind (.write fun _ h => h.save_version) fun _ => .pure _

theorem keeps_action : ∀ m : Message, Keeps WellFormed m.action
  | .command envelope command => keeps_execute envelope command
  | .change c => keeps_change c

/-! ### Setting up -/

/-- A ledger that was set up holds its version and its settings, nothing else is new, and there was
nothing to give notice of. -/
theorem run_instantiate_eq_ok {envelope : Envelope} {setup : Setup} {response : Response}
    {start store : Store}
    (h : (instantiate envelope setup).run start = (.ok response, store)) :
    ∃ operators, validateAll setup.operators = .ok operators ∧ response.events = [] ∧
      store = Config.slot.save
        { owner := envelope.sender
          operators
          tokenMint := setup.tokenMint.getD defaultTokenMint
          chainId := setup.chainId.getD defaultChainId }
        (Version.slot.save version start) := by
  obtain ⟨_, _, hversion, h⟩ := run_bind_eq_ok_iff.mp h
  cases hversion
  obtain ⟨operators, _, hread, h⟩ := run_bind_eq_ok_iff.mp h
  rw [run_read, Prod.mk.injEq, ofFault, mapError_eq_ok_iff] at hread
  obtain ⟨hoperators, rfl⟩ := hread
  obtain ⟨_, _, hconfig, h⟩ := run_bind_eq_ok_iff.mp h
  cases hconfig
  cases h
  exact ⟨operators, hoperators, rfl, rfl⟩

theorem Reachable.wellFormed {store : Store} (h : Reachable store) : WellFormed store := by
  induction h with
  | setUp hrun =>
    obtain ⟨operators, -, -, rfl⟩ := run_instantiate_eq_ok hrun
    have htidy : Tidy (Version.slot.save version ∅) := Tidy.empty.insert .version rfl
    exact ⟨htidy.insert .config ⟨_, rfl⟩, Slot.isTaken_save_self _ _ _,
      Slot.isTaken_insert (Slot.isTaken_save_self _ _ _) _ _⟩
  | deliver m _ ih => exact (keeps_action m).commit ih

/-! ### Accounts as the store has them -/

/-- The account of an address as the store has it. -/
def accountAt (store : Store) (address : Address) : Account :=
  match Account.load address store with
  | .ok a => a
  | .error _ => .vacant address

theorem accountAt_of_load {store : Store} {address : Address} {a : Account}
    (h : Account.load address store = .ok a) : accountAt store address = a := by
  rw [accountAt, h]

theorem accountAt_of_get? {store : Store} {address : Address} {a : Account}
    (h : store.get? (Account.slot address).key = some (Json.encode a)) :
    accountAt store address = a := by
  refine accountAt_of_load ?_
  rw [Account.load, Slot.load?_of_get?_eq_some h]
  rfl

/-- An account that is not kept counts as one with nothing in it. -/
theorem accountAt_of_get?_eq_none {store : Store} {address : Address}
    (h : store.get? (Account.slot address).key = none) :
    accountAt store address = .vacant address := by
  refine accountAt_of_load ?_
  rw [Account.load, Slot.load?_of_get?_eq_none h]
  rfl

theorem WellFormed.load {store : Store} (h : WellFormed store) (address : Address) :
    Account.load address store = .ok (accountAt store address) := by
  obtain ⟨a, -, ha⟩ := h.tidy.exists_account address
  rw [accountAt_of_load ha, ha]

theorem WellFormed.address_accountAt {store : Store} (h : WellFormed store) (address : Address) :
    (accountAt store address).address = address := by
  obtain ⟨a, haddress, ha⟩ := h.tidy.exists_account address
  rw [accountAt_of_load ha, haddress]

end Ledger
end RelayLedger
