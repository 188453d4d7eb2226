/-
# Which chunks a ledger keeps

The commands that a ledger carried out settle what is in each of its chunk slots: a slot holds what
was last stored in it, until the chunks of its transaction are put together far enough to use it
up. So each transaction that is put together uses up a first chunk of its own, and what was stored
once never runs twice.

Key definitions: `Ledger.Command.Stores`, `Ledger.Command.UsesUp`, `Ledger.Command.chunkAfter`,
`Ledger.firstKept`, `Ledger.ChunkLaw`.
Key theorems: `Ledger.storedChunk_run`, `Ledger.foldl_chunkAfter_eq_some_iff`,
`Ledger.firstKept_performs`, `Ledger.countP_assembles_le`, `Ledger.chunk_law`.
-/
import RelayLedger.Proofs.Json.Lawful
import RelayLedger.Proofs.Ledger.Chunked

namespace RelayLedger
namespace Ledger

variable {store after : Store} {caller : Address} {hash : TxHash} {index : Word 8}

/-! ### What a command does to a slot -/

namespace Command

/-- A command that stores a chunk in a slot. -/
def Stores (caller : Address) (hash : TxHash) (index : Word 8) (c : Command) : Prop :=
  ∃ data, c = .storeChunk caller hash index data

/-- A command that puts the chunk of a slot together with others and removes it. -/
def UsesUp (caller : Address) (hash : TxHash) (index : Word 8) (c : Command) : Prop :=
  ∃ count, index.toNat < count.toNat ∧ c = .relayChunks caller hash count

/-- What a slot holds after a command that is carried out, by what it held before. -/
def chunkAfter (caller : Address) (hash : TxHash) (index : Word 8) (kept : Option Bytes) :
    Command → Option Bytes
  | .storeChunk c h i data => if caller = c ∧ hash = h ∧ index = i then some data else kept
  | .relayChunks c h count =>
    if caller = c ∧ hash = h ∧ index.toNat < count.toNat then none else kept
  | _ => kept

theorem chunkAfter_storeChunk (kept : Option Bytes) (data : Bytes) :
    (storeChunk caller hash index data).chunkAfter caller hash index kept = some data :=
  if_pos ⟨rfl, rfl, rfl⟩

theorem not_usesUp_storeChunk (data : Bytes) :
    ¬ (storeChunk caller hash index data).UsesUp caller hash index :=
  fun ⟨_, _, e⟩ => nomatch e

variable {c : Command} {kept : Option Bytes}

theorem chunkAfter_of_usesUp (h : c.UsesUp caller hash index) :
    c.chunkAfter caller hash index kept = none := by
  obtain ⟨count, hcount, rfl⟩ := h
  exact if_pos ⟨rfl, rfl, hcount⟩

/-- Other commands leave the slot alone. -/
theorem chunkAfter_of_not (hstores : ¬ c.Stores caller hash index)
    (husesUp : ¬ c.UsesUp caller hash index) : c.chunkAfter caller hash index kept = kept := by
  cases c with
  | storeChunk c h i data =>
    refine if_neg ?_
    rintro ⟨rfl, rfl, rfl⟩
    exact hstores ⟨data, rfl⟩
  | relayChunks c h count =>
    refine if_neg ?_
    rintro ⟨rfl, rfl, hcount⟩
    exact husesUp ⟨count, hcount, rfl⟩
  | _ => rfl

theorem chunkAfter_eq_some_iff {data : Bytes} :
    c.chunkAfter caller hash index kept = some data ↔
      c = .storeChunk caller hash index data ∨
        (¬ c.Stores caller hash index ∧ ¬ c.UsesUp caller hash index) ∧ kept = some data := by
  by_cases hstores : c.Stores caller hash index
  · obtain ⟨d, rfl⟩ := hstores
    simp [chunkAfter_storeChunk, Stores]
  · have hne : c ≠ .storeChunk caller hash index data := fun e => hstores ⟨data, e⟩
    by_cases husesUp : c.UsesUp caller hash index
    · simp [chunkAfter_of_usesUp husesUp, hne, husesUp]
    · simp [chunkAfter_of_not hstores husesUp, hne, hstores, husesUp]

theorem chunkAfter_eq_none_iff :
    c.chunkAfter caller hash index kept = none ↔
      c.UsesUp caller hash index ∨ ¬ c.Stores caller hash index ∧ kept = none := by
  by_cases hstores : c.Stores caller hash index
  · obtain ⟨data, rfl⟩ := hstores
    simp [chunkAfter_storeChunk, not_usesUp_storeChunk, Stores]
  · by_cases husesUp : c.UsesUp caller hash index
    · simp [chunkAfter_of_usesUp husesUp, husesUp]
    · simp [chunkAfter_of_not hstores husesUp, hstores, husesUp]

end Command

/-- Transfers and the transactions that ask for them touch no chunk. -/
theorem storedChunk_leaves {t : Transfer} {nonce : Word 64}
    (h : t.Leaves store nonce after) :
    storedChunk after caller hash index = storedChunk store caller hash index := by
  cases h with
  | counted _ => exact storedChunk_save ..
  | moved _ _ _ => rw [storedChunk_save, storedChunk_save]

theorem storedChunk_relays {config : Config} {sender : Address} {b : Bytes} {response : Response}
    (h : Relays config sender b store response after) :
    storedChunk after caller hash index = storedChunk store caller hash index := by
  cases h with
  | sent _ _ _ leaves => exact storedChunk_leaves leaves

theorem storedChunk_performs {config : Config} {c : Command} {response : Response}
    (h : Performs config store c response after) :
    storedChunk after caller hash index =
      c.chunkAfter caller hash index (storedChunk store caller hash index) := by
  cases h with
  | createAccount _ => exact storedChunk_save ..
  | relay relayed => exact storedChunk_relays relayed
  | storeChunk => exact storedChunk_saveChunk ..
  | relayChunks _ relayed =>
    rw [storedChunk_relays relayed, storedChunk_removeAll, Command.chunkAfter]
  | airdrop => exact storedChunk_save ..
  | updateOperators _ => exact storedChunk_saveConfig ..

theorem storedChunk_change (config : Config) :
    storedChunk (Version.slot.save version (Config.slot.save config store)) caller hash index =
      storedChunk store caller hash index := by
  rw [storedChunk_saveVersion, storedChunk_saveConfig]

/-! ### What a sequence of commands leaves in a slot -/

/-- A slot holds what was last stored in it, or what it held before, if no later command has stored
anything else in it or used it up. -/
theorem foldl_chunkAfter_eq_some_iff {data : Bytes} : ∀ {commands : List Command}
    {kept : Option Bytes},
    commands.foldl (Command.chunkAfter caller hash index) kept = some data ↔
      (∃ before after, commands = before ++ .storeChunk caller hash index data :: after ∧
        ∀ c ∈ after, ¬ c.Stores caller hash index ∧ ¬ c.UsesUp caller hash index) ∨
      (∀ c ∈ commands, ¬ c.Stores caller hash index ∧ ¬ c.UsesUp caller hash index) ∧
        kept = some data
  | [], kept => by simp
  | c :: rest, kept => by
    rw [List.foldl_cons, foldl_chunkAfter_eq_some_iff, Command.chunkAfter_eq_some_iff,
      List.forall_mem_cons]
    constructor
    · rintro (⟨before, after, rfl, hafter⟩ | ⟨hrest, rfl | ⟨hc, hkept⟩⟩)
      · exact .inl ⟨c :: before, after, rfl, hafter⟩
      · exact .inl ⟨[], rest, rfl, hrest⟩
      · exact .inr ⟨⟨hc, hrest⟩, hkept⟩
    · rintro (⟨before, after, hsplit, hafter⟩ | ⟨⟨hc, hrest⟩, hkept⟩)
      · cases before with
        | nil =>
          cases hsplit
          exact .inr ⟨hafter, .inl rfl⟩
        | cons first before =>
          cases hsplit
          exact .inl ⟨before, after, rfl, hafter⟩
      · exact .inr ⟨hrest, .inr ⟨hc, hkept⟩⟩

/-- A slot is empty if whatever was stored in it has been used up since. -/
theorem foldl_chunkAfter_eq_none_iff : ∀ {commands : List Command} {kept : Option Bytes},
    commands.foldl (Command.chunkAfter caller hash index) kept = none ↔
      (∀ before data after, commands = before ++ .storeChunk caller hash index data :: after →
        ∃ c ∈ after, c.UsesUp caller hash index) ∧
      (kept = none ∨ ∃ c ∈ commands, c.UsesUp caller hash index)
  | [], kept => by simp
  | c :: rest, kept => by
    rw [List.foldl_cons, foldl_chunkAfter_eq_none_iff, Command.chunkAfter_eq_none_iff]
    simp only [List.mem_cons, exists_eq_or_imp]
    constructor
    · rintro ⟨hrest, hlast⟩
      refine ⟨fun before data after hsplit => ?_, by grind⟩
      cases before with
      | nil =>
        cases hsplit
        rcases hlast with (husesUp | ⟨hstores, -⟩) | hlater
        · exact absurd husesUp (Command.not_usesUp_storeChunk data)
        · exact absurd ⟨data, rfl⟩ hstores
        · exact hlater
      | cons first before =>
        cases hsplit
        exact hrest before data after rfl
    · rintro ⟨hall, hlast⟩
      refine ⟨fun before data after hsplit => hall (c :: before) data after (hsplit ▸ rfl), ?_⟩
      have hstores (hnot : ¬ ∃ d ∈ rest, d.UsesUp caller hash index) :
          ¬ c.Stores caller hash index := by
        rintro ⟨data, rfl⟩
        exact hnot (hall [] data rest rfl)
      grind

/-- The commands that a run carried out settle what each slot holds. -/
theorem storedChunk_run {start : Store} (h : Reachable start) (messages : List Message) :
    storedChunk (run messages start).2 caller hash index =
      (log messages start).commands.foldl (Command.chunkAfter caller hash index)
        (storedChunk start caller hash index) := by
  refine commands_induction (P := fun commands store => storedChunk store caller hash index =
    commands.foldl (Command.chunkAfter caller hash index) (storedChunk start caller hash index))
    h rfl ?_ ?_ messages
  · intro commands store config c response after _ hperforms hstore
    rw [storedChunk_performs hperforms, List.foldl_append, hstore, List.foldl_cons, List.foldl_nil]
  · intro commands store config hstore
    rw [storedChunk_change, hstore]

/-! ### Each transaction uses up a first chunk -/

/-- Whether a command puts the chunks of a transaction together. -/
def Command.assembles (caller : Address) (hash : TxHash) : Command → Bool
  | .relayChunks c h _ => caller = c ∧ hash = h
  | _ => false

/-- Whether a command stores the first chunk of a transaction. -/
def Command.storesFirst (caller : Address) (hash : TxHash) : Command → Bool
  | .storeChunk c h i _ => caller = c ∧ hash = h ∧ 0 = i
  | _ => false

/-- How many first chunks of a transaction a store keeps: one or none. -/
def firstKept (caller : Address) (hash : TxHash) (store : Store) : Nat :=
  (storedChunk store caller hash 0).elim 0 fun _ => 1

/-- Putting chunks together uses up a first chunk, and only storing one brings one. -/
theorem firstKept_performs {config : Config} {command : Command} {response : Response}
    (h : Performs config store command response after) :
    (if command.assembles caller hash then 1 else 0) + firstKept caller hash after ≤
      (if command.storesFirst caller hash then 1 else 0) + firstKept caller hash store := by
  rw [firstKept, firstKept, storedChunk_performs h]
  cases h with
  | @storeChunk c k i data =>
    by_cases hfirst : caller = c ∧ hash = k ∧ 0 = i
    · obtain ⟨rfl, rfl, rfl⟩ := hfirst
      rw [Command.chunkAfter_storeChunk]
      simp [Command.assembles, Command.storesFirst]
    · rw [Command.chunkAfter, if_neg hfirst]
      simp [Command.assembles, Command.storesFirst, hfirst]
  | @relayChunks c k count _ _ _ collected _ =>
    by_cases hsame : caller = c ∧ hash = k
    · obtain ⟨rfl, rfl⟩ := hsame
      have hcount : (0 : Word 8).toNat < count.toNat :=
        Nat.pos_of_ne_zero fun e => (Chunk.collect_eq_ok_iff.mp collected).1 (Word.ext_toNat e)
      -- what is put together has a first chunk, and it is gone afterwards
      obtain ⟨data, hdata⟩ := Chunk.exists_of_collect collected hcount
      rw [hdata, Command.chunkAfter_of_usesUp ⟨count, hcount, rfl⟩]
      simp [Command.assembles, Command.storesFirst]
    · have hother : ¬ (caller = c ∧ hash = k ∧ (0 : Word 8).toNat < count.toNat) :=
        fun hslot => hsame ⟨hslot.1, hslot.2.1⟩
      rw [Command.chunkAfter, if_neg hother]
      simp [Command.assembles, Command.storesFirst, hsame]
  | _ => exact Nat.le_refl _

/-- A first chunk that is stored has not been used up yet. -/
theorem countP_assembles_le {start : Store} (h : Reachable start)
    (hempty : firstKept caller hash start = 0) (messages : List Message) :
    (log messages start).commands.countP (Command.assembles caller hash) +
        firstKept caller hash (run messages start).2 ≤
      (log messages start).commands.countP (Command.storesFirst caller hash) := by
  refine commands_induction (P := fun commands store =>
    commands.countP (Command.assembles caller hash) + firstKept caller hash store ≤
      commands.countP (Command.storesFirst caller hash)) h ?_ ?_ ?_ messages
  · rw [hempty]
    exact Nat.le_refl 0
  · intro commands store config c response after _ hperforms hstore
    have hstep : _ + firstKept caller hash after ≤ _ := firstKept_performs hperforms
    rw [List.countP_append, List.countP_append, List.countP_singleton, List.countP_singleton]
    omega
  · intro commands store config hstore
    rw [firstKept, storedChunk_change]
    exact hstore

/-! ### The law -/

/-- What is told of a chunk slot. -/
theorem WellFormed.answer_chunk (h : WellFormed store) (caller : Address) (hash : TxHash)
    (index : Word 8) :
    answer (.chunk caller hash index) store =
      .ok ((Json.Format.option .base64).write (storedChunk store caller hash index)) := by
  rw [answer, h.load?_chunk]
  rfl

theorem answer_chunk_eq_iff (h : WellFormed store) {told : Option Bytes} :
    answer (.chunk caller hash index) store = .ok ((Json.Format.option .base64).write told) ↔
      storedChunk store caller hash index = told := by
  have hquote : ∀ data s, Json.Format.base64.write data ≠ 110 :: s :=
    fun data s e => absurd (List.cons.inj e).1 (by decide)
  have hlawful : (Json.Format.option .base64).Lawful 0 :=
    Json.Format.option_lawful Json.Format.base64_lawful hquote
  rw [h.answer_chunk, Except.ok.injEq]
  exact ⟨hlawful.write_injective, fun e => e ▸ rfl⟩

/-- The transaction whose chunks a command is about. -/
def Command.chunksOf : Command → Option (Address × TxHash)
  | .storeChunk caller hash _ _ | .relayChunks caller hash _ => some (caller, hash)
  | _ => none

/-- What the commands that were carried out tell of the chunks of one transaction in a store. -/
structure ChunkLaw (commands : List Command) (store : Store) (caller : Address) (hash : TxHash) :
    Prop where
  /-- What was last stored is there until it is used up. -/
  present : ∀ index data,
    answer (.chunk caller hash index) store =
        .ok ((Json.Format.option .base64).write (some data)) ↔
      ∃ before after, commands = before ++ .storeChunk caller hash index data :: after ∧
        ∀ c ∈ after, ¬ c.Stores caller hash index ∧ ¬ c.UsesUp caller hash index
  missing : ∀ index,
    answer (.chunk caller hash index) store = .ok ((Json.Format.option .base64).write none) ↔
      ∀ before data after, commands = before ++ .storeChunk caller hash index data :: after →
        ∃ c ∈ after, c.UsesUp caller hash index
  /-- Messages that are not about these chunks leave them alone. -/
  apart : ∀ (m : Message) (index : Word 8),
    (∀ sent command, m = .command sent command → command.chunksOf ≠ some (caller, hash)) →
      answer (.chunk caller hash index) (deliver m store).2 =
        answer (.chunk caller hash index) store
  /-- No chunks are put together twice. -/
  once : commands.countP (Command.assembles caller hash) ≤
    commands.countP (Command.storesFirst caller hash)

theorem chunkAfter_of_chunksOf {c : Command} (h : c.chunksOf ≠ some (caller, hash))
    (kept : Option Bytes) : c.chunkAfter caller hash index kept = kept := by
  refine Command.chunkAfter_of_not ?_ ?_
  · rintro ⟨data, rfl⟩
    exact h rfl
  · rintro ⟨count, -, rfl⟩
    exact h rfl

/-- At any time after a ledger was set up, its chunks are as the commands it carried out tell. -/
theorem chunk_law {envelope : Envelope} {setup : Setup} {response : Response} {start : Store}
    (h : (instantiate envelope setup).run ∅ = (.ok response, start)) (messages : List Message)
    (caller : Address) (hash : TxHash) :
    ChunkLaw (log messages start).commands (run messages start).2 caller hash := by
  have hstart := Reachable.setUp h
  have hwell := (hstart.run messages).wellFormed
  have hempty : ∀ index, storedChunk start caller hash index = none := by
    obtain ⟨operators, -, -, rfl⟩ := run_instantiate_eq_ok h
    intro index
    rw [storedChunk_saveConfig, storedChunk_saveVersion]
    rfl
  refine ⟨fun index data => ?_, fun index => ?_, fun m index hother => ?_, ?_⟩
  · rw [answer_chunk_eq_iff hwell, storedChunk_run hstart, foldl_chunkAfter_eq_some_iff,
      hempty]
    simp
  · rw [answer_chunk_eq_iff hwell, storedChunk_run hstart, foldl_chunkAfter_eq_none_iff,
      hempty]
    simp
  · rcases deliver_cases hwell m with ⟨refusal, _, -, hdeliver⟩ | ⟨_, after, hdeliver, haccepts⟩
    · rw [hdeliver]
    · have hafter := (hstart.run (messages ++ [m])).wellFormed
      rw [run_concat] at hafter
      rw [hafter.answer_chunk, hwell.answer_chunk, hdeliver]
      cases haccepts with
      | command _ _ _ performs =>
        rw [storedChunk_performs performs, chunkAfter_of_chunksOf (hother _ _ rfl)]
      | change _ => rw [storedChunk_change]
  · have hnone : firstKept caller hash start = 0 := by rw [firstKept, hempty, Option.elim_none]
    exact Nat.le_of_add_right_le (countP_assembles_le hstart hnone messages)

/-- In the sample history the second chunk is stored twice, and then all three are used up. A first
chunk that is stored afterwards stays, also when the transaction is relayed in one piece. -/
theorem chunk_law_sample : ∃ response,
    (instantiate ⟨sampleOwner, []⟩ ⟨[], none, Transaction.sample.chainId⟩).run ∅ =
      (.ok response, sampleSetUp) ∧
    answer (.chunk Fixed.zero Fixed.zero ⟨1, by decide⟩) (run sampleUploading sampleSetUp).2 =
      .ok ((Json.Format.option .base64).write (some [])) ∧
    answer (.chunk Fixed.zero Fixed.zero ⟨1, by decide⟩) (run sampleHistory sampleSetUp).2 =
      .ok ((Json.Format.option .base64).write none) ∧
    answer (.chunk Fixed.zero Fixed.zero 0) (run sampleHistory sampleSetUp).2 =
      .ok ((Json.Format.option .base64).write (some [1])) ∧
    answer (.chunk Fixed.zero Fixed.zero 0)
        (deliver sampleRelay (run sampleHistory sampleSetUp).2).2 =
      .ok ((Json.Format.option .base64).write (some [1])) ∧
    (log sampleHistory sampleSetUp).commands.countP (Command.assembles Fixed.zero Fixed.zero) = 1 ∧
    1 ≤ (log sampleHistory sampleSetUp).commands.countP
      (Command.storesFirst Fixed.zero Fixed.zero) := by
  obtain ⟨response, hrun⟩ := run_sampleSetUp
  have huploading := chunk_law hrun sampleUploading Fixed.zero Fixed.zero
  have hlaw := chunk_law hrun sampleHistory Fixed.zero Fixed.zero
  have hstored : (log sampleUploading sampleSetUp).commands.foldl
      (Command.chunkAfter Fixed.zero Fixed.zero ⟨1, by decide⟩) none = some [] := by
    rw [commands_sampleUploading]
    rfl
  have hused : (log sampleHistory sampleSetUp).commands.foldl
      (Command.chunkAfter Fixed.zero Fixed.zero ⟨1, by decide⟩) none = none := by
    rw [commands_sampleHistory, commands_sampleUploading]
    rfl
  have hfirst := (hlaw.present 0 [1]).mpr ⟨_, [], commands_sampleHistory.trans
    (List.append_assoc _ [_] [_]).symm, fun _ hmem => absurd hmem List.not_mem_nil⟩
  have hcount : (log sampleHistory sampleSetUp).commands.countP
      (Command.assembles Fixed.zero Fixed.zero) = 1 := by
    rw [commands_sampleHistory, commands_sampleUploading]
    rfl
  refine ⟨response, hrun, ?_, ?_, hfirst, ?_, hcount, hcount ▸ hlaw.once⟩
  · exact (huploading.present _ []).mpr
      ((foldl_chunkAfter_eq_some_iff.mp hstored).resolve_right fun h => nomatch h.2)
  · exact (hlaw.missing _).mpr (foldl_chunkAfter_eq_none_iff.mp hused).1
  · refine (hlaw.apart sampleRelay 0 ?_).trans hfirst
    intro sent command e
    obtain ⟨-, rfl⟩ := Message.command.inj e
    exact nofun

end Ledger
end RelayLedger
