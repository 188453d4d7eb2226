/-
# Which chunk slots can be emptied again

Chunks are removed when they are put together to a transaction that goes through, and in no other
way. So the owner empties a slot by a transaction that moves nothing: it is stored over all slots
up to that one, whatever they held, and relayed. A number of chunks is a word like an index, and
the slots that it covers end below it. So no number covers the slot of the greatest index, and what
is stored there once is never removed.

Key definitions: `Ledger.IsFree`, `Transaction.idle`, `Ledger.filling`, `Ledger.clearing`,
`Ledger.Clearable`.
Key theorems: `Ledger.not_isFree_run_max`, `Ledger.collect_filling`, `Ledger.isFree_run_clearing`,
`Ledger.slots_clearable`, `Ledger.last_slot_stranded`.
-/
import RelayLedger.Proofs.Ledger.ChunkHistory

namespace RelayLedger

/-! ### A transaction that moves nothing -/

/-- A transaction for any chain that sends nothing to an account. -/
def Transaction.idle (target : Address) : Transaction where
  nonce := 0
  gasPrice := 0
  gasLimit := 0
  recipient := some target
  value := 0
  callData := []
  chainId := none
  encodedLength := 27

/-- An address is never so short that it stands for itself. -/
theorem Rlp.encodeString_address (a : Address) : encodeString a.bytes = 148 :: a.bytes := by
  have hlong : hasShorterForm a.bytes = false := by
    rw [Bool.eq_false_iff]
    intro hshorter
    obtain ⟨b, hbytes, -⟩ := encodeString_of_shorter hshorter
    have hlength := a.length_eq
    rw [hbytes] at hlength
    exact absurd hlength (show 1 ≠ 20 by decide)
  rw [encodeString_of_not_shorter hlong, a.length_eq]
  rfl

namespace Transaction

open Rlp

theorem encode_idle (target : Address) :
    (idle target).encode = 218 :: 128 :: 128 :: 128 :: 148 :: (target.bytes ++ [128, 128]) := by
  have hitems : encodeAll (idle target).toItems =
      128 :: 128 :: 128 :: (encodeString target.bytes ++ [128, 128]) := rfl
  rw [encodeString_address] at hitems
  have hlength : (encodeAll (idle target).toItems).length = 26 := by
    rw [hitems]
    simp [target.length_eq, FixedKind.width]
  rw [encode, Item.encode, hlength, hitems]
  rfl

theorem decode_idle (target : Address) : decode (idle target).encode = .ok (idle target) := by
  have hlength : (idle target).encode.length = 27 := by
    rw [encode_idle]
    simp [target.length_eq, FixedKind.width]
  refine decode_eq_ok_iff.mpr ⟨rfl, hlength.symm, ?_⟩
  rw [hlength]
  decide

end Transaction

namespace Ledger

variable {store : Store} {config : Config} {owner : ChainAddress} {caller target : Address}
  {hash : TxHash} {index count : Word 8} {b : Bytes}

/-- Such a transaction goes through if there is a next nonce and the account has no code. -/
theorem sendable_idle (config : Config)
    (hcountable : (accountAt store caller).nonce.toNat < Word.bound 64 - 1)
    (hplain : (accountAt store target).code = []) :
    Sendable config store caller target (.idle target) where
  chainId := .inl rfl
  recipient := rfl
  noCode := hplain
  funds := Nat.zero_le _
  room := .inr (accountAt store target).balance.isLt
  countable := hcountable

/-! ### The last slot -/

/-- A slot that is told to hold nothing. -/
def IsFree (store : Store) (caller : Address) (hash : TxHash) (index : Word 8) : Prop :=
  answer (.chunk caller hash index) store = .ok ((Json.Format.option .base64).write none)

theorem isFree_iff (h : WellFormed store) :
    IsFree store caller hash index ↔ storedChunk store caller hash index = none :=
  answer_chunk_eq_iff h

/-- The slot of the greatest index is below no number of chunks. -/
theorem Command.not_usesUp_max (c : Command) : ¬ c.UsesUp caller hash Word.max := by
  rintro ⟨count, hcount, -⟩
  have hle : count.toNat ≤ (Word.max : Word 8).toNat := Nat.le_pred_of_lt count.isLt
  exact absurd hcount (Nat.not_lt.mpr hle)

/-- What is in the last slot stays there, whoever sends what. -/
theorem not_isFree_run_max (h : Reachable store)
    (hoccupied : ¬ IsFree store caller hash Word.max) (messages : List Message) :
    ¬ IsFree (run messages store).2 caller hash Word.max := by
  rw [isFree_iff h.wellFormed] at hoccupied
  rw [isFree_iff (h.run messages).wellFormed, storedChunk_run h, foldl_chunkAfter_eq_none_iff]
  rintro ⟨-, hfree | ⟨c, -, husesUp⟩⟩
  · exact hoccupied hfree
  · exact c.not_usesUp_max husesUp

/-! ### All other slots -/

/-- What a slot gets of bytes that are stored over several: the first gets all. -/
def share (b : Bytes) (index : Word 8) : Bytes := if index = 0 then b else []

theorem flatten_map_share (h : count ≠ 0) : (count.below.map (share b)).flatten = b := by
  obtain ⟨rest, hbelow⟩ := Word.exists_below h
  have hnodup := count.nodup_below
  rw [hbelow, List.nodup_cons] at hnodup
  have hrest : (rest.map (share b)).flatten = [] := by
    rw [List.flatten_eq_nil_iff, List.forall_mem_map]
    intro index hmem
    rw [share, if_neg]
    rintro rfl
    exact hnodup.1 hmem
  rw [hbelow, List.map_cons, List.flatten_cons, hrest, List.append_nil, share, if_pos rfl]

/-- The upload of a share. -/
def sharing (owner : ChainAddress) (caller : Address) (hash : TxHash) (b : Bytes)
    (index : Word 8) : Upload :=
  ⟨⟨owner, []⟩, caller, hash, index, share b index⟩

theorem lastStored_map_sharing (indices : List (Word 8)) :
    lastStored (indices.map (sharing owner caller hash b)) caller hash index =
      if index ∈ indices then some (share b index) else none := by
  induction indices using List.reverseRecOn with
  | nil => rfl
  | append_singleton earlier last ih =>
    rw [List.map_append, List.map_singleton, lastStored_concat, ih]
    by_cases hlast : index = last
    · subst hlast
      simp [sharing, Upload.isFor]
    · simp [sharing, Upload.isFor, hlast, Ne.symm hlast]

/-- The uploads that store bytes over the first `count` slots. -/
def filling (owner : ChainAddress) (caller : Address) (hash : TxHash) (count : Word 8)
    (b : Bytes) : List Upload :=
  count.below.map (sharing owner caller hash b)

/-- Bytes that are stored over slots can be put together again, whatever the slots held. -/
theorem collect_filling (h : Reachable store) (hconfig : Config.slot.load store = .ok config)
    (howner : config.IsOperator owner) (hcount : count ≠ 0) :
    Chunk.collect caller hash count
      (run ((filling owner caller hash count b).map Upload.message) store).2 = .ok b := by
  have hauthorised : ∀ u ∈ filling owner caller hash count b,
      u.caller = caller → u.hash = hash → u.Authorised config := by
    intro u hu _ _
    obtain ⟨index, -, rfl⟩ := List.mem_map.mp hu
    exact ⟨rfl, howner⟩
  have hlast : count.below.map (lastStored (filling owner caller hash count b) caller hash) =
      (count.below.map (share b)).map some := by
    rw [List.map_map]
    refine List.map_congr_left fun index hindex => ?_
    rw [filling, lastStored_map_sharing, if_pos hindex]
    rfl
  rw [collect_uploads h hconfig hauthorised hcount hlast, flatten_map_share hcount]

/-- The messages by which an owner empties the first `count` slots. -/
def clearing (owner : ChainAddress) (caller target : Address) (hash : TxHash) (count : Word 8) :
    List Message :=
  (filling owner caller hash count (Transaction.idle target).encode).map Upload.message ++
    [.command ⟨owner, []⟩ (.relayChunks caller hash count)]

theorem exists_of_mem_clearing {m : Message} (h : m ∈ clearing owner caller target hash count) :
    ∃ c, m = .command ⟨owner, []⟩ c := by
  rcases List.mem_append.mp h with hfilling | hlast
  · obtain ⟨u, hu, rfl⟩ := List.mem_map.mp hfilling
    obtain ⟨index, -, rfl⟩ := List.mem_map.mp hu
    exact ⟨_, rfl⟩
  · exact ⟨_, List.mem_singleton.mp hlast⟩

/-- The transaction goes through, and the slots that it was stored in are empty. -/
theorem isFree_run_clearing (h : Reachable store) (hconfig : Config.slot.load store = .ok config)
    (howner : config.IsOperator owner)
    (hcountable : (accountAt store caller).nonce.toNat < Word.bound 64 - 1)
    (hplain : (accountAt store target).code = []) (hindex : index.toNat < count.toNat) :
    IsFree (run (clearing owner caller target hash count) store).2 caller hash index := by
  have hfreed := (h.run (clearing owner caller target hash count)).wellFormed
  rw [isFree_iff hfreed, clearing, run_concat]
  set uploads := filling owner caller hash count (Transaction.idle target).encode
  have hwell := (h.run (uploads.map Upload.message)).wellFormed
  have hload := (load_config_uploads h uploads).trans hconfig
  have hcount : count ≠ 0 := by
    rintro rfl
    exact Nat.not_lt_zero _ hindex
  have hsend := (sendable_idle config hcountable hplain).congr fun address =>
    accountAt_congr (storedAccount_uploads h uploads address)
  obtain ⟨response, after, hdirect⟩ :=
    hsend.deliver_relay hwell hload howner (Transaction.decode_idle target)
  rw [deliver_relayChunks hload howner howner (collect_filling h hconfig howner hcount), hdirect]
  exact (storedChunk_removeAll ..).trans (if_pos ⟨rfl, rfl, hindex⟩)

/-! ### What can become of a stored chunk -/

/-- A slot that is not empty can be emptied by the owner, unless it is the last. -/
structure Clearable (store : Store) (owner : ChainAddress) (caller : Address) (hash : TxHash)
    (index : Word 8) : Prop where
  freed : index ≠ Word.max → ∃ messages : List Message,
    (∀ m ∈ messages, ∃ c, m = .command ⟨owner, []⟩ c) ∧
      IsFree (run messages store).2 caller hash index
  /-- The last slot is not emptied by anybody. -/
  stranded : index = Word.max → ∀ messages, ¬ IsFree (run messages store).2 caller hash index

/-- At any time a stored chunk can be removed, provided that the account it was stored for has a
next nonce and some account has no code, unless it is in the last slot: there it stays. -/
theorem slots_clearable (h : Reachable store) (hconfig : Config.slot.load store = .ok config)
    (hcountable : (accountAt store caller).nonce.toNat < Word.bound 64 - 1)
    (hplain : ∃ target, (accountAt store target).code = [])
    (hoccupied : ¬ IsFree store caller hash index) :
    Clearable store config.owner caller hash index where
  freed hne := by
    obtain ⟨target, hplain⟩ := hplain
    obtain ⟨count, hcount⟩ := Word.exists_next (Word.ne_max_iff.mp hne)
    have hindex : index.toNat < count.toNat := by
      rw [Word.ofNat?_eq_some_iff.mp hcount]
      exact Nat.lt_succ_self _
    exact ⟨clearing config.owner caller target hash count, fun _ => exists_of_mem_clearing,
      isFree_run_clearing h hconfig (.inl rfl) hcountable hplain hindex⟩
  stranded hlast := by
    subst hlast
    exact not_isFree_run_max h hoccupied

/-! ### A sample ledger with one chunk -/

/-- The sample ledger when its owner has stored one chunk. -/
def sampleStored (index : Word 8) : Store :=
  (Chunk.slot Fixed.zero Fixed.zero index).save [1] sampleSetUp

theorem reachable_sampleStored (index : Word 8) : Reachable (sampleStored index) := by
  have hnext := Reachable.deliver
    (.command ⟨sampleOwner, []⟩ (.storeChunk Fixed.zero Fixed.zero index [1])) reachable_sampleSetUp
  rw [deliver_storeChunk load_sampleSetUp isOperator_sampleOwner] at hnext
  exact hnext

theorem load_sampleStored (index : Word 8) :
    Config.slot.load (sampleStored index) = .ok sampleConfig :=
  (load_config_saveChunk ..).trans load_sampleSetUp

theorem accountAt_sampleStored (index : Word 8) :
    accountAt (sampleStored index) Fixed.zero = .vacant Fixed.zero :=
  (accountAt_congr (storedAccount_saveChunk ..)).trans
    (accountAt_of_get?_eq_none (by decide +kernel))

theorem not_isFree_sampleStored (index : Word 8) :
    ¬ IsFree (sampleStored index) Fixed.zero Fixed.zero index := by
  rw [isFree_iff (reachable_sampleStored index).wellFormed, sampleStored, storedChunk_saveChunk,
    if_pos ⟨rfl, rfl, rfl⟩]
  nofun

theorem countable_sampleStored (index : Word 8) :
    (accountAt (sampleStored index) Fixed.zero).nonce.toNat < Word.bound 64 - 1 := by
  rw [accountAt_sampleStored]
  decide

theorem plain_sampleStored (index : Word 8) :
    ∃ target, (accountAt (sampleStored index) target).code = [] :=
  ⟨Fixed.zero, by rw [accountAt_sampleStored]; rfl⟩

/-- The slot before the last can be emptied. -/
theorem slots_clearable_sample :
    ¬ IsFree (sampleStored ⟨254, by decide⟩) Fixed.zero Fixed.zero ⟨254, by decide⟩ ∧
    ∃ messages : List Message, (∀ m ∈ messages, ∃ c, m = .command ⟨sampleOwner, []⟩ c) ∧
      IsFree (run messages (sampleStored ⟨254, by decide⟩)).2 Fixed.zero Fixed.zero
        ⟨254, by decide⟩ :=
  ⟨not_isFree_sampleStored _,
    (slots_clearable (reachable_sampleStored _) (load_sampleStored _) (countable_sampleStored _)
      (plain_sampleStored _) (not_isFree_sampleStored _)).freed (by decide)⟩

/-- A chunk that the owner stored in the last slot, on a ledger where transactions go through, is
there after whatever messages. -/
theorem last_slot_stranded :
    Reachable (sampleStored Word.max) ∧
    (accountAt (sampleStored Word.max) Fixed.zero).nonce.toNat < Word.bound 64 - 1 ∧
    (∃ target, (accountAt (sampleStored Word.max) target).code = []) ∧
    ¬ IsFree (sampleStored Word.max) Fixed.zero Fixed.zero Word.max ∧
    ∀ messages, ¬ IsFree (run messages (sampleStored Word.max)).2 Fixed.zero Fixed.zero Word.max :=
  ⟨reachable_sampleStored _, countable_sampleStored _, plain_sampleStored _,
    not_isFree_sampleStored _,
    not_isFree_run_max (reachable_sampleStored _) (not_isFree_sampleStored _)⟩

end Ledger
end RelayLedger
