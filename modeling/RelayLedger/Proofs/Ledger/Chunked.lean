/-
# Transactions in chunks

Relaying reads and keeps accounts and nothing else, so it commutes with whatever spares the
accounts, and when a transaction is put together from chunks their removal may as well come
afterwards (`run_relayChunks`). Of uploads those are carried out that may be made
(`commands_uploads`), and in which order they came does not matter, only what each chunk was stored
as last (`storedChunk_uploads`, `collect_uploads`).

Key definitions: `Ledger.Spares`, `Ledger.Upload`, `Ledger.lastStored`, `Ledger.sampleHistory`.
Key theorems: `Ledger.Spares.relay`, `Ledger.run_relayChunks`, `Ledger.deliver_relayChunks`,
`Ledger.storedChunk_uploads`, `Ledger.collect_uploads`, `Ledger.commands_uploads`.
-/
import RelayLedger.Proofs.Ledger.History
import RelayLedger.Proofs.Ledger.Settings

namespace RelayLedger
namespace Ledger

open RelayLedger.Action

variable {store : Store} {config : Config} {caller : Address} {hash : TxHash}

/-! ### Changes that spare the accounts -/

/-- A change of the store that has nothing to do with accounts. -/
structure Spares (g : Store → Store) : Prop where
  load : ∀ address store, Account.load address (g store) = Account.load address store
  save : ∀ (a : Account) store, a.save (g store) = g (a.save store)

theorem Spares.removeAll (caller : Address) (hash : TxHash) (count : Word 8) :
    Spares (Chunk.removeAll caller hash count) where
  load address store := by
    rw [Account.load, Account.load,
      Slot.load?_congr (Chunk.get?_account_removeAll caller hash count store address)]
  save a store := by
    refine OrderedMap.ext_get? fun k => ?_
    rw [Account.save, Account.save, Slot.get?_save]
    split
    next hk => rw [hk, Chunk.get?_account_removeAll, Slot.get?_save_self]
    next hk => rw [Chunk.get?_removeAll, Chunk.get?_removeAll, Slot.get?_save_of_ne hk]

namespace Spares

variable {g : Store → Store} (h : Spares g)

include h

theorem get (address : Address) : Commutes g (Account.get address) :=
  .read fun store => congrArg ofFault (h.load address store)

theorem put (a : Account) : Commutes g (Account.put a) := .write (h.save a)

theorem setBalance (address : Address) (balance : Word 256) :
    Commutes g (Account.setBalance address balance) :=
  .bind (h.get address) fun _ => h.put _

theorem debit (address : Address) (value : Word 256) :
    Commutes g (Account.debit address value) := by
  refine .bind (h.get address) fun a => ?_
  split
  · exact .throw _
  · exact h.setBalance address _

theorem credit (address : Address) (value : Word 256) :
    Commutes g (Account.credit address value) := by
  refine .bind (h.get address) fun a => ?_
  split
  · exact .throw _
  · exact h.setBalance address _

theorem countUp (address : Address) : Commutes g (Account.countUp address) := by
  refine .bind (h.get address) fun a => ?_
  split
  · exact .throw _
  · exact .bind (h.put _) fun _ => .pure _

theorem apply (t : Transfer) : Commutes g t.apply :=
  .bind (.bind (h.debit _ _) fun _ => h.credit _ _) fun _ => .bind (h.countUp _) fun _ => .pure _

theorem check (config : Config) (caller : Address) (b : Bytes) (store : Store) :
    Ledger.check config caller b (g store) = Ledger.check config caller b store := by
  simp only [Ledger.check, h.load]

theorem relay (config : Config) (caller : Address) (b : Bytes) :
    Commutes g (Ledger.relay config caller b) :=
  .bind (.read (h.check config caller b)) fun t => h.apply t

end Spares

/-! ### Putting chunks together -/

/-- The chunks may as well be removed after the transaction. -/
theorem run_relayChunks {count : Word 8} {b : Bytes}
    (h : Chunk.collect caller hash count store = .ok b) :
    (perform config (.relayChunks caller hash count)).run store =
      (((relay config caller b).run store).1.map fun response => response.addEvent
          (Notice.chunksAssembled caller hash count (.truncate b.length)).toEvent,
        Chunk.removeAll caller hash count ((relay config caller b).run store).2) := by
  have hread : (Action.read (Chunk.collect caller hash count)).run store = (.ok b, store) := by
    rw [run_read, h]
  rw [perform, run_bind_ok hread, run_bind_ok (run_write _ _), run_bind,
    (Spares.removeAll caller hash count).relay config caller b store]
  cases (relay config caller b).run store with
  | mk outcome after => cases outcome <;> rfl

/-- With chunks that are there, a transaction goes through or is refused as it would be in one
piece, whichever operators ask for it. -/
theorem deliver_relayChunks (hconfig : Config.slot.load store = .ok config) {x y : ChainAddress}
    (hx : config.IsOperator x) (hy : config.IsOperator y) {count : Word 8} {b : Bytes}
    (h : Chunk.collect caller hash count store = .ok b) :
    deliver (.command ⟨x, []⟩ (.relayChunks caller hash count)) store =
      match deliver (.command ⟨y, []⟩ (.relay caller b)) store with
      | (.ok response, after) =>
        (.ok (response.addEvent
          (Notice.chunksAssembled caller hash count (.truncate b.length)).toEvent),
          Chunk.removeAll caller hash count after)
      | (.error refusal, after) => (.error refusal, after) := by
  have hchunked : (Command.relayChunks caller hash count).Allowed config x := hx
  have hdirect : (Command.relay caller b).Allowed config y := hy
  rw [deliver, deliver, Message.action, Message.action, commit, commit,
    run_execute hconfig hchunked, run_relayChunks h, run_execute hconfig hdirect, perform]
  cases (relay config caller b).run store with
  | mk outcome after => cases outcome <;> rfl

/-! ### Uploads -/

/-- The storing of a chunk. -/
structure Upload where
  envelope : Envelope
  caller : Address
  hash : TxHash
  index : Word 8
  data : Bytes

namespace Upload

def message (u : Upload) : Message :=
  .command u.envelope (.storeChunk u.caller u.hash u.index u.data)

/-- Its sender may store chunks and sends no coins. -/
def Authorised (config : Config) (u : Upload) : Prop :=
  u.envelope.funds = [] ∧ config.IsOperator u.envelope.sender

instance (config : Config) (u : Upload) : Decidable (u.Authorised config) :=
  inferInstanceAs (Decidable (_ ∧ _))

/-- What it asks for. -/
def command (u : Upload) : Command := .storeChunk u.caller u.hash u.index u.data

/-- Whether it is for a slot. -/
def isFor (caller : Address) (hash : TxHash) (index : Word 8) (u : Upload) : Bool :=
  u.caller = caller ∧ u.hash = hash ∧ u.index = index

end Upload

/-- What was stored as last in a slot. -/
def lastStored (uploads : List Upload) (caller : Address) (hash : TxHash) (index : Word 8) :
    Option Bytes :=
  (uploads.reverse.find? (Upload.isFor caller hash index)).map Upload.data

theorem lastStored_concat (uploads : List Upload) (u : Upload) (index : Word 8) :
    lastStored (uploads ++ [u]) caller hash index =
      if u.isFor caller hash index then some u.data else lastStored uploads caller hash index := by
  rw [lastStored, List.reverse_append, List.reverse_singleton, List.singleton_append,
    List.find?_cons]
  cases u.isFor caller hash index <;> rfl

/-- An upload is taken or refused; either way it does nothing else. -/
theorem deliver_upload (h : WellFormed store) (u : Upload) :
    (deliver u.message store).2 = store ∨
      (deliver u.message store).2 = (Chunk.slot u.caller u.hash u.index).save u.data store := by
  rcases deliver_cases h u.message with ⟨_, _, -, hdeliver⟩ | ⟨_, after, hdeliver, haccepts⟩
  · rw [hdeliver]
    exact .inl rfl
  · rw [hdeliver]
    cases haccepts with
    | command _ _ _ performs =>
      cases performs with
      | storeChunk => exact .inr rfl

/-- Whatever does not depend on chunks stays as it was. -/
theorem read_uploads {β : Type} {f : Store → β}
    (hf : ∀ caller hash index data store,
      f ((Chunk.slot caller hash index).save data store) = f store)
    (h : Reachable store) (uploads : List Upload) :
    f (run (uploads.map Upload.message) store).2 = f store := by
  induction uploads using List.reverseRecOn with
  | nil => rfl
  | append_singleton uploads u ih =>
    have hwell := (h.run (uploads.map Upload.message)).wellFormed
    rw [List.map_append, List.map_singleton, run_concat]
    rcases deliver_upload hwell u with e | e
    · rw [e, ih]
    · rw [e, hf, ih]

theorem load_config_uploads (h : Reachable store) (uploads : List Upload) :
    Config.slot.load (run (uploads.map Upload.message) store).2 = Config.slot.load store :=
  read_uploads (f := fun store => Config.slot.load store) load_config_saveChunk h uploads

theorem storedAccount_uploads (h : Reachable store) (uploads : List Upload) (address : Address) :
    storedAccount (run (uploads.map Upload.message) store).2 address =
      storedAccount store address :=
  read_uploads (f := fun store => storedAccount store address)
    (fun _ _ _ _ _ => storedAccount_saveChunk ..) h uploads

/-- An upload that may be made fills its slot, and no upload touches another one. -/
theorem storedChunk_upload (h : WellFormed store) (hconfig : Config.slot.load store = .ok config)
    {u : Upload} (hauthorised : u.caller = caller → u.hash = hash → u.Authorised config)
    (index : Word 8) :
    storedChunk (deliver u.message store).2 caller hash index =
      if u.isFor caller hash index then some u.data else storedChunk store caller hash index := by
  obtain ⟨⟨sender, funds⟩, c, k, i, data⟩ := u
  split
  next hfor =>
    obtain ⟨rfl, rfl, rfl⟩ : c = caller ∧ k = hash ∧ i = index := by
      simpa [Upload.isFor] using hfor
    obtain ⟨rfl, hoperator⟩ := hauthorised rfl rfl
    rw [Upload.message, deliver_storeChunk hconfig hoperator, storedChunk_saveChunk,
      if_pos ⟨rfl, rfl, rfl⟩]
  next hfor =>
    rcases deliver_upload h ⟨⟨sender, funds⟩, c, k, i, data⟩ with e | e
    · rw [e]
    · rw [e, storedChunk_saveChunk, if_neg]
      rintro ⟨rfl, rfl, rfl⟩
      exact hfor (by simp [Upload.isFor])

/-- After uploads a slot holds what was stored in it as last, and otherwise what it held before. -/
theorem storedChunk_uploads (h : Reachable store) (hconfig : Config.slot.load store = .ok config)
    {uploads : List Upload}
    (hauthorised : ∀ u ∈ uploads, u.caller = caller → u.hash = hash → u.Authorised config)
    (index : Word 8) :
    storedChunk (run (uploads.map Upload.message) store).2 caller hash index =
      (lastStored uploads caller hash index).or (storedChunk store caller hash index) := by
  induction uploads using List.reverseRecOn with
  | nil => rfl
  | append_singleton uploads u ih =>
    have hwell := (h.run (uploads.map Upload.message)).wellFormed
    have hload := (load_config_uploads h uploads).trans hconfig
    rw [List.map_append, List.map_singleton, run_concat,
      storedChunk_upload hwell hload (hauthorised u (by simp)), lastStored_concat,
      ih fun v hv => hauthorised v (List.mem_append_left _ hv)]
    split <;> rfl

/-- Chunks that were stored as last can be put together. -/
theorem collect_uploads (h : Reachable store) (hconfig : Config.slot.load store = .ok config)
    {uploads : List Upload}
    (hauthorised : ∀ u ∈ uploads, u.caller = caller → u.hash = hash → u.Authorised config)
    {chunks : List Bytes} {count : Word 8} (hcount : count ≠ 0)
    (hlast : count.below.map (lastStored uploads caller hash) = chunks.map some) :
    Chunk.collect caller hash count (run (uploads.map Upload.message) store).2 =
      .ok chunks.flatten := by
  refine Chunk.collect_eq_ok_iff.mpr ⟨hcount, chunks, ?_, rfl⟩
  rw [← hlast]
  refine List.map_congr_left fun index hindex => ?_
  have hmem : lastStored uploads caller hash index ∈ chunks.map some :=
    hlast ▸ List.mem_map_of_mem hindex
  obtain ⟨data, -, hdata⟩ := List.mem_map.mp hmem
  rw [storedChunk_uploads h hconfig hauthorised, ← hdata, Option.some_or]

/-- Of uploads just those are carried out that may be made. -/
theorem commands_uploads (h : Reachable store) (hconfig : Config.slot.load store = .ok config)
    (uploads : List Upload) :
    (log (uploads.map Upload.message) store).commands =
      (uploads.filter (·.Authorised config)).map Upload.command := by
  induction uploads using List.reverseRecOn with
  | nil => rfl
  | append_singleton uploads u ih =>
    -- the uploads before it have left the settings alone
    have hload := (load_config_uploads h uploads).trans hconfig
    obtain ⟨⟨sender, funds⟩, c, k, i, data⟩ := u
    rw [List.map_append, List.map_singleton, log_concat, List.filter_append, List.map_append, ← ih]
    by_cases hauthorised : (Upload.mk ⟨sender, funds⟩ c k i data).Authorised config
    · obtain ⟨rfl, hoperator⟩ := hauthorised
      rw [Upload.message, deliver_storeChunk hload hoperator, Log.commands_concat_command,
        List.filter_singleton, decide_eq_true ⟨rfl, hoperator⟩]
      rfl
    · have hnot : funds ≠ [] ∨ ¬ (Command.storeChunk c k i data).Allowed config sender :=
        not_and_or.mp hauthorised
      rw [Upload.message, deliver, commit_fst, Message.action, run_execute_of_not hload hnot,
        Log.commands_concat_error, List.filter_singleton, decide_eq_false hauthorised]
      exact (List.append_nil _).symm

/-! ### A sample history -/

/-- Uploads of the sample transaction in three chunks, one of them empty: last things first, with
something else stored before, and with a stranger who stores for another account in between. -/
def sampleUploads : List Upload :=
  [⟨⟨sampleOwner, []⟩, Fixed.zero, Fixed.zero, ⟨2, by decide⟩, Transaction.sampleBytes.drop 9⟩,
   ⟨⟨sampleOwner, []⟩, Fixed.zero, Fixed.zero, ⟨1, by decide⟩, [7]⟩,
   ⟨⟨.ofName "stranger", []⟩, Transaction.sample.recipient.getD Fixed.zero, Fixed.zero, 0, [7]⟩,
   ⟨⟨sampleOwner, []⟩, Fixed.zero, Fixed.zero, ⟨1, by decide⟩, []⟩,
   ⟨⟨sampleOwner, []⟩, Fixed.zero, Fixed.zero, 0, Transaction.sampleBytes.take 9⟩]

theorem authorised_sampleUploads : ∀ u ∈ sampleUploads, u.caller = Fixed.zero →
    u.hash = Fixed.zero → u.Authorised sampleConfig := by
  unfold Upload.Authorised
  decide +kernel

theorem load_sampleUploads : Config.slot.load
    (run (sampleUploads.map Upload.message) sampleStore).2 = .ok sampleConfig :=
  (load_config_uploads reachable_sampleStore sampleUploads).trans load_sampleStore

theorem deliver_sampleRelay_uploads : ∃ response,
    deliver sampleRelay (run (sampleUploads.map Upload.message) sampleStore).2 =
      (.ok response,
        samplePayer.save (samplePayee.save (run (sampleUploads.map Upload.message) sampleStore).2)) :=
  deliver_sampleRelay (reachable_sampleStore.run _).wellFormed load_sampleUploads fun address =>
    accountAt_congr (storedAccount_uploads reachable_sampleStore sampleUploads address)

/-- The sample transaction still goes through in one piece. -/
theorem relay_sampleUploads : ∃ response,
    (deliver (.command ⟨sampleOwner, []⟩ (.relay Fixed.zero Transaction.sampleBytes))
      (run (sampleUploads.map Upload.message) sampleStore).2).1 = .ok response := by
  obtain ⟨response, hdeliver⟩ := deliver_sampleRelay_uploads
  exact ⟨response, congrArg Prod.fst hdeliver⟩

theorem lastStored_sampleUploads :
    (⟨3, by decide⟩ : Word 8).below.map (lastStored sampleUploads Fixed.zero Fixed.zero) =
      [Transaction.sampleBytes.take 9, [], Transaction.sampleBytes.drop 9].map some := by
  decide +kernel

theorem flatten_sampleUploads :
    [Transaction.sampleBytes.take 9, [], Transaction.sampleBytes.drop 9].flatten =
      Transaction.sampleBytes := by
  decide +kernel

theorem collect_sampleUploads : Chunk.collect Fixed.zero Fixed.zero ⟨3, by decide⟩
    (run (sampleUploads.map Upload.message) sampleStore).2 = .ok Transaction.sampleBytes := by
  rw [collect_uploads reachable_sampleStore load_sampleStore authorised_sampleUploads (by decide)
    lastStored_sampleUploads, flatten_sampleUploads]

/-- The message by which the owner has the three chunks put together and relayed. -/
def sampleAssembly : Message :=
  .command ⟨sampleOwner, []⟩ (.relayChunks Fixed.zero Fixed.zero ⟨3, by decide⟩)

/-- What it leaves of the store: both accounts are kept anew, and the chunks are gone. -/
def sampleSettled : Store :=
  Chunk.removeAll Fixed.zero Fixed.zero ⟨3, by decide⟩
    (samplePayer.save (samplePayee.save (run (sampleUploads.map Upload.message) sampleStore).2))

theorem deliver_sampleAssembly : ∃ response,
    deliver sampleAssembly (run (sampleUploads.map Upload.message) sampleStore).2 =
      (.ok response, sampleSettled) := by
  obtain ⟨_, hrelay⟩ := deliver_sampleRelay_uploads
  rw [sampleRelay] at hrelay
  rw [sampleAssembly, deliver_relayChunks load_sampleUploads isOperator_sampleOwner
    isOperator_sampleOwner collect_sampleUploads, hrelay]
  exact ⟨_, rfl⟩

theorem load_sampleSettled : Config.slot.load sampleSettled = .ok sampleConfig := by
  rw [sampleSettled, load_config_removeAll, load_config_save, load_config_save,
    load_sampleUploads]

/-- A message by which the owner of the sample ledger stores a chunk. -/
def sampleChunk : Message :=
  .command ⟨sampleOwner, []⟩ (.storeChunk Fixed.zero Fixed.zero 0 [1])

theorem deliver_sampleChunk : ∃ response, deliver sampleChunk sampleSettled =
    (.ok response, (Chunk.slot Fixed.zero Fixed.zero 0).save [1] sampleSettled) :=
  ⟨_, deliver_storeChunk load_sampleSettled isOperator_sampleOwner ..⟩

/-- An account is filled and its transaction is stored in chunks, one of them over another. -/
def sampleUploading : List Message := sampleAirdrop :: sampleUploads.map Upload.message

/-- Then it is put together and relayed, and a first chunk is stored again. -/
def sampleHistory : List Message := sampleUploading ++ [sampleAssembly, sampleChunk]

theorem run_sampleUploading : (run sampleUploading sampleSetUp).2 =
    (run (sampleUploads.map Upload.message) sampleStore).2 := by
  obtain ⟨_, hairdrop⟩ := deliver_sampleAirdrop
  rw [sampleUploading, run_cons_snd hairdrop]

theorem run_sampleHistory : (run sampleHistory sampleSetUp).2 =
    (Chunk.slot Fixed.zero Fixed.zero 0).save [1] sampleSettled := by
  obtain ⟨_, hassembly⟩ := deliver_sampleAssembly
  obtain ⟨_, hchunk⟩ := deliver_sampleChunk
  rw [sampleHistory, run_append_snd, run_sampleUploading, run_cons_snd hassembly,
    run_cons_snd hchunk, run]

theorem storedAccount_sampleHistory (address : Address) :
    storedAccount (run sampleHistory sampleSetUp).2 address =
      if address = Fixed.zero then some samplePayer
      else if address = samplePayee.address then some samplePayee
      else none := by
  have hnone : storedAccount sampleSetUp address = none := by
    rw [sampleSetUp, storedAccount_saveConfig, storedAccount_saveVersion]
    rfl
  rw [run_sampleHistory, storedAccount_saveChunk, sampleSettled, storedAccount_removeAll,
    storedAccount_save, storedAccount_save, storedAccount_uploads reachable_sampleStore,
    sampleStore, storedAccount_save]
  refine ite_congr rfl (fun _ => rfl) fun hpayer => ite_congr rfl (fun _ => rfl) fun _ => ?_
  exact (if_neg hpayer).trans hnone

/-- The first chunk is there again, and the other two are not. -/
theorem storedChunk_sampleHistory {index : Word 8} (h : index.toNat < 3) :
    storedChunk (run sampleHistory sampleSetUp).2 Fixed.zero Fixed.zero index =
      if index = 0 then some [1] else none := by
  rw [run_sampleHistory, storedChunk_saveChunk]
  by_cases hfirst : index = 0
  · rw [if_pos ⟨rfl, rfl, hfirst⟩, if_pos hfirst]
  · rw [if_neg fun e => hfirst e.2.2, if_neg hfirst, sampleSettled, storedChunk_removeAll,
      if_pos ⟨rfl, rfl, h⟩]

/-- What the stranger asked for is not carried out. -/
theorem commands_sampleUploading : (log sampleUploading sampleSetUp).commands =
    [.airdrop Fixed.zero Transaction.sample.value,
     .storeChunk Fixed.zero Fixed.zero ⟨2, by decide⟩ (Transaction.sampleBytes.drop 9),
     .storeChunk Fixed.zero Fixed.zero ⟨1, by decide⟩ [7],
     .storeChunk Fixed.zero Fixed.zero ⟨1, by decide⟩ [],
     .storeChunk Fixed.zero Fixed.zero 0 (Transaction.sampleBytes.take 9)] := by
  obtain ⟨_, hairdrop⟩ := deliver_sampleAirdrop
  have hstranger : ¬ sampleConfig.IsOperator (.ofName "stranger") := not_isOperator_sampleStranger
  rw [sampleUploading, sampleAirdrop, commands_cons hairdrop,
    commands_uploads reachable_sampleStore load_sampleStore]
  simp [sampleUploads, Upload.Authorised, Upload.command, isOperator_sampleOwner, hstranger]

theorem commands_sampleHistory : (log sampleHistory sampleSetUp).commands =
    (log sampleUploading sampleSetUp).commands ++
      [.relayChunks Fixed.zero Fixed.zero ⟨3, by decide⟩,
       .storeChunk Fixed.zero Fixed.zero 0 [1]] := by
  obtain ⟨_, hassembly⟩ := deliver_sampleAssembly
  obtain ⟨_, hchunk⟩ := deliver_sampleChunk
  rw [sampleHistory, log_append, Log.commands_append, run_sampleUploading, sampleAssembly,
    commands_cons hassembly, sampleChunk, commands_cons hchunk]
  rfl

end Ledger
end RelayLedger
