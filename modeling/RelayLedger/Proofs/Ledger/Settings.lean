/-
# How settings change

The settings of a ledger change in two ways only: its owner names operators, or the contract is
replaced and names another chain id or token mint. `Message.Sets` says what a message that goes
through leaves of them; whatever else a message writes has nothing to do with settings. So the
owner is always the one who set the ledger up, and nobody comes to be an operator but by the owner.

Key definitions: `Ledger.Message.Sets`.
Key theorems: `Ledger.validateAll_eq_ok_iff`, `Ledger.exists_addOperators_iff`,
`Ledger.mem_updatedOperators`, `Ledger.load_setUp`, `Ledger.sets_of_accepts`.
-/
import RelayLedger.Proofs.ChainAddress
import RelayLedger.Proofs.Ledger.Step

namespace RelayLedger
namespace Ledger

variable {store after : Store} {config : Config}

/-! ### Lists of operators -/

/-- Addresses pass the check as they stand, and only if all of them are valid. -/
theorem validateAll_eq_ok_iff : ∀ {addresses validated : List ChainAddress},
    validateAll addresses = .ok validated ↔
      validated = addresses ∧ ∀ who ∈ addresses, who.Valid
  | [], validated => by simp [validateAll, eq_comm]
  | a :: rest, validated => by
    rw [validateAll, List.forall_mem_cons]
    constructor
    · intro h
      obtain ⟨b, hb, htails⟩ := bind_eq_ok_iff.mp h
      obtain ⟨tail, htail, hcons⟩ := bind_eq_ok_iff.mp htails
      obtain ⟨hsame, ha⟩ := ChainAddress.validate_eq_ok_iff.mp (mapError_eq_ok_iff.mp hb)
      obtain ⟨hrests, hrest⟩ := validateAll_eq_ok_iff.mp htail
      rw [← Except.ok.inj hcons, hsame, hrests]
      exact ⟨rfl, ha, hrest⟩
    · rintro ⟨rfl, ha, hrest⟩
      rw [ha, validateAll_eq_ok_iff.mpr ⟨rfl, hrest⟩]
      rfl

theorem addOperators_cons {a : ChainAddress} (h : a.Valid) (operators rest : List ChainAddress) :
    addOperators operators (a :: rest) =
      addOperators (if a ∈ operators then operators else operators ++ [a]) rest := by
  rw [addOperators, h]
  rfl

theorem addOperators_cons_eq_ok_iff {a : ChainAddress}
    {operators rest updated : List ChainAddress} :
    addOperators operators (a :: rest) = .ok updated ↔ a.Valid ∧
      addOperators (if a ∈ operators then operators else operators ++ [a]) rest =
        .ok updated := by
  constructor
  · intro h
    obtain ⟨b, hb, -⟩ := bind_eq_ok_iff.mp h
    obtain ⟨-, ha⟩ := ChainAddress.validate_eq_ok_iff.mp (mapError_eq_ok_iff.mp hb)
    rw [addOperators_cons ha] at h
    exact ⟨ha, h⟩
  · rintro ⟨ha, h⟩
    rw [addOperators_cons ha]
    exact h

/-- Addresses can be added if all of them are valid, whoever is there. -/
theorem exists_addOperators_iff : ∀ {add operators : List ChainAddress},
    (∃ updated, addOperators operators add = .ok updated) ↔ ∀ who ∈ add, who.Valid
  | [], operators => ⟨nofun, fun _ => ⟨operators, rfl⟩⟩
  | a :: rest, operators => by
    simp only [addOperators_cons_eq_ok_iff, exists_and_left, exists_addOperators_iff,
      List.forall_mem_cons]

/-- The first address that is not valid is what an update is refused for. -/
theorem addOperators_of_not_valid {who : ChainAddress} {fault : ChainAddress.Fault}
    (hwho : who.validate = .error fault) (rest : List ChainAddress) :
    ∀ {front operators : List ChainAddress}, (∀ a ∈ front, a.Valid) →
      addOperators operators (front ++ who :: rest) = .error (.chainAddress fault)
  | [], _, _ => by
    rw [List.nil_append, addOperators, hwho]
    rfl
  | a :: front, operators, hfront => by
    obtain ⟨ha, hfront⟩ := List.forall_mem_cons.mp hfront
    rw [List.cons_append, addOperators_cons ha]
    exact addOperators_of_not_valid hwho rest hfront

theorem mem_addOperators : ∀ {add operators updated : List ChainAddress},
    addOperators operators add = .ok updated → ∀ who,
      (who ∈ updated ↔ who ∈ operators ∨ who ∈ add)
  | [], operators, updated, h, who => by
    have hsame : updated = operators := (Except.ok.inj h).symm
    rw [hsame]
    simp
  | a :: rest, operators, updated, h, who => by
    obtain ⟨-, h⟩ := addOperators_cons_eq_ok_iff.mp h
    rw [mem_addOperators h who, List.mem_cons]
    split
    next hmem =>
      -- an operator that is there is not appended again
      constructor
      · rintro (hold | hnew)
        · exact .inl hold
        · exact .inr (.inr hnew)
      · rintro (hold | rfl | hnew)
        · exact .inl hold
        · exact .inl hmem
        · exact .inr hnew
    · rw [List.mem_append, List.mem_singleton, or_assoc]

/-- After an update the operators are those who were added, and those who were there and were not
removed. -/
theorem mem_updatedOperators {operators add remove updated : List ChainAddress}
    (h : updatedOperators operators add remove = .ok updated) (who : ChainAddress) :
    who ∈ updated ↔ who ∈ add ∨ who ∈ operators ∧ who ∉ remove := by
  have hkept : who ∈ operators.filter (· ∉ remove) ↔ who ∈ operators ∧ who ∉ remove := by
    simp
  rw [mem_addOperators h who, hkept, or_comm]

/-! ### Writes that are not about settings -/

theorem load_saveConfig (config : Config) (store : Store) :
    Config.slot.load (Config.slot.save config store) = .ok config :=
  Slot.load_of_get?_eq_some (Slot.get?_save_self Config.slot config store)

theorem load_config_insert {p : Place} (h : p ≠ .config) (s : Bytes) (store : Store) :
    Config.slot.load (store.insert p.key s) = Config.slot.load store :=
  Slot.load_congr (Place.get?_insert_of_ne (q := .config) h.symm store s)

theorem load_config_save (a : Account) (store : Store) :
    Config.slot.load (a.save store) = Config.slot.load store :=
  load_config_insert (p := .account a.address) nofun _ store

theorem load_config_saveChunk (caller : Address) (hash : TxHash) (index : Word 8) (data : Bytes)
    (store : Store) :
    Config.slot.load ((Chunk.slot caller hash index).save data store) = Config.slot.load store :=
  load_config_insert (p := .chunk caller hash index) nofun _ store

theorem load_config_saveVersion (v : Version) (store : Store) :
    Config.slot.load (Version.slot.save v store) = Config.slot.load store :=
  load_config_insert (p := .version) nofun _ store

theorem load_config_removeAll (caller : Address) (hash : TxHash) (count : Word 8)
    (store : Store) :
    Config.slot.load (Chunk.removeAll caller hash count store) = Config.slot.load store :=
  Slot.load_congr (Chunk.get?_removeAll_place (p := .config) nofun count store)

theorem load_config_leaves {t : Transfer} {nonce : Word 64} (h : t.Leaves store nonce after) :
    Config.slot.load after = Config.slot.load store := by
  cases h with
  | counted _ => exact load_config_save _ store
  | moved _ _ _ => rw [load_config_save, load_config_save]

theorem load_config_relays {caller : Address} {b : Bytes} {response : Response}
    (h : Relays config caller b store response after) :
    Config.slot.load after = Config.slot.load store := by
  cases h with
  | sent _ _ _ leaves => exact load_config_leaves leaves

/-- Only naming operators is about settings. -/
theorem load_config_performs {c : Command} {response : Response}
    (h : Performs config store c response after)
    (hc : ∀ add remove, c ≠ .updateOperators add remove) :
    Config.slot.load after = Config.slot.load store := by
  cases h with
  | createAccount _ => exact load_config_save _ store
  | relay relayed => exact load_config_relays relayed
  | storeChunk => exact load_config_saveChunk _ _ _ _ store
  | relayChunks _ relayed =>
    have hremoved := load_config_relays relayed
    rw [load_config_removeAll] at hremoved
    exact hremoved
  | airdrop => exact load_config_save _ store
  | @updateOperators add remove _ _ => exact absurd rfl (hc add remove)

/-- A ledger is set up if the operators that it is to have are addresses of the chain. -/
theorem run_instantiate {setup : Setup} {operators : List ChainAddress}
    (h : validateAll setup.operators = .ok operators) (envelope : Envelope) (store : Store) :
    ∃ response after, (instantiate envelope setup).run store = (.ok response, after) := by
  have hread : (Action.read fun _ => ofFault (validateAll setup.operators)).run
      (Version.slot.save version store) = (.ok operators, Version.slot.save version store) := by
    rw [Action.run_read, h]
    rfl
  rw [instantiate, Action.run_bind_ok (Action.run_write _ _), Action.run_bind_ok hread]
  exact ⟨_, _, rfl⟩

/-- The settings that a ledger starts with. -/
theorem load_setUp {envelope : Envelope} {setup : Setup} {response : Response}
    (h : (instantiate envelope setup).run ∅ = (.ok response, store)) :
    Config.slot.load store = .ok
      { owner := envelope.sender
        operators := setup.operators
        tokenMint := setup.tokenMint.getD defaultTokenMint
        chainId := setup.chainId.getD defaultChainId } := by
  obtain ⟨operators, hvalid, -, rfl⟩ := run_instantiate_eq_ok h
  rw [load_saveConfig, (validateAll_eq_ok_iff.mp hvalid).1]

/-- The owner may name any operators that are addresses of the chain. -/
theorem deliver_updateOperators (hconfig : Config.slot.load store = .ok config)
    {add remove operators : List ChainAddress}
    (h : updatedOperators config.operators add remove = .ok operators) :
    ∃ response, deliver (.command ⟨config.owner, []⟩ (.updateOperators add remove)) store =
      (.ok response, Config.slot.save { config with operators := operators } store) := by
  have hread : (Action.read fun _ => ofFault (updatedOperators config.operators add remove)).run
      store = (.ok operators, store) := by
    rw [Action.run_read, h]
    rfl
  have hallowed : (Command.updateOperators add remove).Allowed config config.owner := rfl
  rw [deliver, Action.commit, Message.action, run_execute hconfig hallowed, perform,
    Action.run_bind_ok hread]
  exact ⟨_, rfl⟩

/-- When the contract is replaced, the settings are altered as the change says. -/
theorem deliver_change (hconfig : Config.slot.load store = .ok config) (c : Change) :
    deliver (.change c) store = (.ok { attributes := [("migrated", "true")] },
      Version.slot.save version (Config.slot.save { config with
        tokenMint := c.tokenMint.getD config.tokenMint
        chainId := c.chainId.getD config.chainId } store)) := by
  rw [deliver, Action.commit, Message.action, change, Action.run_bind_ok (run_settings hconfig)]
  rfl

theorem validate_sampleOwner : sampleOwner.validate = .ok sampleOwner := by decide +kernel

/-! ### What a message sets -/

/-- The settings after a message that goes through, by those before. -/
inductive Message.Sets (config : Config) : Message → Config → Prop
  | kept {sent : Envelope} {c : Command} (apart : ∀ add remove, c ≠ .updateOperators add remove) :
    Sets config (.command sent c) config
  | named {sent : Envelope} {add remove operators : List ChainAddress}
      (owned : sent.sender = config.owner)
      (updated : updatedOperators config.operators add remove = .ok operators) :
    Sets config (.command sent (.updateOperators add remove))
      { config with operators := operators }
  | changed {c : Change} :
    Sets config (.change c) { config with
      tokenMint := c.tokenMint.getD config.tokenMint
      chainId := c.chainId.getD config.chainId }

theorem sets_of_accepts {m : Message} {response : Response} (h : Accepts store m response after)
    (hconfig : Config.slot.load store = .ok config) :
    ∃ config', Config.slot.load after = .ok config' ∧ m.Sets config config' := by
  cases h with
  | @command sent c config' _ _ _ configured allowed performs =>
    have hsame : config' = config := Except.ok.inj (configured.symm.trans hconfig)
    subst hsame
    by_cases hc : ∃ add remove, c = .updateOperators add remove
    · obtain ⟨add, remove, rfl⟩ := hc
      cases performs with
      | updateOperators updated =>
        exact ⟨_, load_saveConfig _ store, .named allowed updated⟩
    · have hapart : ∀ add remove, c ≠ .updateOperators add remove :=
        fun add remove e => hc ⟨add, remove, e⟩
      exact ⟨config', (load_config_performs performs hapart).trans configured, .kept hapart⟩
  | @change c config' configured =>
    have hsame : config' = config := Except.ok.inj (configured.symm.trans hconfig)
    subst hsame
    exact ⟨_, (load_config_saveVersion _ _).trans (load_saveConfig _ store), .changed⟩

namespace Message.Sets

variable {m : Message} {config' : Config}

theorem owner_eq (h : m.Sets config config') : config'.owner = config.owner := by
  cases h <;> rfl

/-- A new operator was added by the owner. -/
theorem mem_operators (h : m.Sets config config') {who : ChainAddress}
    (hwho : who ∈ config'.operators) :
    who ∈ config.operators ∨ ∃ sent add remove, m = .command sent (.updateOperators add remove) ∧
      sent.sender = config.owner ∧ who ∈ add := by
  cases h with
  | kept _ => exact .inl hwho
  | @named sent add remove _ owned updated =>
    rcases (mem_updatedOperators updated who).mp hwho with hadd | ⟨hold, -⟩
    · exact .inr ⟨sent, add, remove, rfl, owned, hadd⟩
    · exact .inl hold
  | changed => exact .inl hwho

/-- Who is added is an operator afterwards. -/
theorem mem_of_add {sent : Envelope} {add remove : List ChainAddress}
    (h : (Message.command sent (.updateOperators add remove)).Sets config config')
    {who : ChainAddress} (hadd : who ∈ add) : who ∈ config'.operators := by
  cases h with
  | kept apart => exact absurd rfl (apart add remove)
  | named _ updated => exact (mem_updatedOperators updated who).mpr (.inl hadd)

/-- Who is removed, and not added at once, is no operator any more. -/
theorem not_mem_of_remove {sent : Envelope} {add remove : List ChainAddress}
    (h : (Message.command sent (.updateOperators add remove)).Sets config config')
    {who : ChainAddress} (hremove : who ∈ remove) (hadd : who ∉ add) :
    who ∉ config'.operators := by
  cases h with
  | kept apart => exact absurd rfl (apart add remove)
  | named _ updated =>
    intro hmem
    rcases (mem_updatedOperators updated who).mp hmem with hadded | ⟨-, hstayed⟩
    · exact hadd hadded
    · exact hstayed hremove

end Message.Sets
end Ledger
end RelayLedger
