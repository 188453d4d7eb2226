/-
# What a refusal leaves

A command that is refused has written nothing by then, even where nothing would take it back. For
every command looks before it writes: a transaction is looked over before its value moves, and a
list of operators is checked before it is kept. There is one exception, for chunks are removed when
they were put together, and only then is their transaction looked over (`Gathers`); if it is refused
the chunks are gone, and nothing else is.

Key definitions: `Ledger.Gathers`, `Ledger.RefusalLeaves`.
Key theorems: `Ledger.run_relayChunks_error`, `Ledger.refusal_leaves_store`.
-/
import RelayLedger.Proofs.Ledger.Chunked

namespace RelayLedger
namespace Ledger

open RelayLedger.Action

variable {store after : Store} {config : Config} {sent : Envelope} {c : Command}
  {caller : Address} {hash : TxHash} {count : Word 8} {b : Bytes} {refusal : Refusal}

/-- The command gets as far as to put chunks together: who asks for it may, and all chunks are
there. -/
structure Gathers (config : Config) (store : Store) (sent : Envelope) (c : Command)
    (caller : Address) (hash : TxHash) (count : Word 8) (b : Bytes) : Prop where
  command : c = .relayChunks caller hash count
  unpaid : sent.funds = []
  operator : config.IsOperator sent.sender
  collected : Chunk.collect caller hash count store = .ok b

/-- If a transaction is refused that was put together from chunks, then for what it is refused in
one piece, and its chunks are gone. -/
theorem run_relayChunks_error (h : WellFormed store)
    (hcollect : Chunk.collect caller hash count store = .ok b)
    (hrun : (perform config (.relayChunks caller hash count)).run store =
      (.error refusal, after)) :
    check config caller b store = .error refusal ∧
      after = Chunk.removeAll caller hash count store := by
  rw [run_relayChunks hcollect, Prod.mk.injEq] at hrun
  obtain ⟨houtcome, rfl⟩ := hrun
  cases hrelay : (relay config caller b).run store with
  | mk outcome written =>
    rw [hrelay] at houtcome
    cases outcome with
    | ok response => cases houtcome
    | error e =>
      cases houtcome
      obtain ⟨hcheck, hsame⟩ := run_relay_error h hrelay
      exact ⟨hcheck, congrArg _ hsame⟩

/-- What a command that is refused leaves of the store. -/
structure RefusalLeaves (config : Config) (store : Store) (sent : Envelope) (c : Command)
    (refusal : Refusal) (after : Store) : Prop where
  unchanged : (∀ caller hash count b, ¬ Gathers config store sent c caller hash count b) →
    after = store
  /-- The transaction was refused when it was looked over, and its chunks are gone. -/
  spent : ∀ caller hash count b, Gathers config store sent c caller hash count b →
    check config caller b store = .error refusal ∧
    (∀ index : Word 8, index.toNat < count.toNat →
      after.get? (Chunk.slot caller hash index).key = none) ∧
    ∀ k, (∀ index : Word 8, index.toNat < count.toNat →
      k ≠ (Chunk.slot caller hash index).key) → after.get? k = store.get? k
  accounts : ∀ address,
    after.get? (Account.slot address).key = store.get? (Account.slot address).key
  settings : after.get? Config.slot.key = store.get? Config.slot.key

theorem RefusalLeaves.of_unchanged
    (h : ∀ caller hash count b, ¬ Gathers config store sent c caller hash count b) :
    RefusalLeaves config store sent c refusal store where
  unchanged _ := rfl
  spent caller hash count b hgathers := absurd hgathers (h caller hash count b)
  accounts _ := rfl
  settings := rfl

theorem Gathers.refusalLeaves (hgathers : Gathers config store sent c caller hash count b)
    (hcheck : check config caller b store = .error refusal) :
    RefusalLeaves config store sent c refusal (Chunk.removeAll caller hash count store) where
  unchanged hnone := absurd hgathers (hnone caller hash count b)
  spent caller' hash' count' b' hgathers' := by
    have hcommand := hgathers.command.symm.trans hgathers'.command
    obtain ⟨rfl, rfl, rfl⟩ := Command.relayChunks.inj hcommand
    obtain rfl := Except.ok.inj (hgathers.collected.symm.trans hgathers'.collected)
    exact ⟨hcheck, fun index hindex => Chunk.get?_removeAll_self hindex store,
      fun k hk => Chunk.get?_removeAll_of_ne hk store⟩
  accounts := Chunk.get?_account_removeAll caller hash count store
  settings := Chunk.get?_removeAll_place (p := .config) nofun count store

/-- Whatever is refused, by whomever it was asked for, leaves the store as it was; only chunks that
were already put together are gone. -/
theorem refusal_leaves_store (h : Reachable store) :
    ∃ config, Config.slot.load store = .ok config ∧ ∀ sent c refusal after,
      (execute sent c).run store = (.error refusal, after) →
        RefusalLeaves config store sent c refusal after := by
  have hwell := h.wellFormed
  obtain ⟨config, hconfig⟩ := hwell.exists_config
  refine ⟨config, hconfig, fun sent c refusal after hrun => ?_⟩
  by_cases hnot : sent.funds ≠ [] ∨ ¬ c.Allowed config sent.sender
  · -- turned away, so that it did not get as far as to look at chunks
    cases (run_execute_of_not hconfig hnot).symm.trans hrun
    refine .of_unchanged fun caller hash count b hgathers => ?_
    rcases hnot with hfunds | hallowed
    · exact hfunds hgathers.unpaid
    · rw [hgathers.command] at hallowed
      exact hallowed hgathers.operator
  · obtain ⟨sender, funds⟩ := sent
    obtain ⟨hfunds, hallowed⟩ := not_or.mp hnot
    obtain rfl : funds = [] := not_not.mp hfunds
    rw [run_execute hconfig (not_not.mp hallowed)] at hrun
    -- either all chunks were there and are gone, or the command refused before its first write
    by_cases hgathers : ∃ caller hash count b,
        Gathers config store ⟨sender, []⟩ c caller hash count b
    · obtain ⟨caller, hash, count, b, hgathers⟩ := hgathers
      rw [hgathers.command] at hrun
      obtain ⟨hcheck, rfl⟩ := run_relayChunks_error hwell hgathers.collected hrun
      exact hgathers.refusalLeaves hcheck
    · rcases run_perform_error hwell hrun with rfl | ⟨caller, hash, count, b, rfl, hcollect, -⟩
      · exact .of_unchanged fun caller hash count b hg => hgathers ⟨caller, hash, count, b, hg⟩
      · exact absurd ⟨caller, hash, count, b, rfl, rfl, not_not.mp hallowed, hcollect⟩ hgathers

/-- What the owner of the sample ledger stored is no transaction; it is used up all the same. -/
theorem refusal_leaves_store_sample :
    Reachable ((Chunk.slot Fixed.zero Fixed.zero 0).save [1] sampleSetUp) ∧ ∃ refusal after,
      (execute ⟨sampleOwner, []⟩ (.relayChunks Fixed.zero Fixed.zero ⟨1, by decide⟩)).run
        ((Chunk.slot Fixed.zero Fixed.zero 0).save [1] sampleSetUp) = (.error refusal, after) ∧
      after.get? (Chunk.slot Fixed.zero Fixed.zero 0).key = none := by
  have hreach : Reachable ((Chunk.slot Fixed.zero Fixed.zero 0).save [1] sampleSetUp) := by
    have hnext := Reachable.deliver sampleChunk reachable_sampleSetUp
    rw [sampleChunk, deliver_storeChunk load_sampleSetUp isOperator_sampleOwner] at hnext
    exact hnext
  obtain ⟨config, hconfig, hleaves⟩ := refusal_leaves_store hreach
  have hsame : config = sampleConfig := by
    rw [load_config_saveChunk, load_sampleSetUp] at hconfig
    exact (Except.ok.inj hconfig).symm
  subst hsame
  have hcollect : Chunk.collect Fixed.zero Fixed.zero ⟨1, by decide⟩
      ((Chunk.slot Fixed.zero Fixed.zero 0).save [1] sampleSetUp) = .ok [1] := by
    have hbelow : (⟨1, by decide⟩ : Word 8).below = [0] := by decide
    refine Chunk.collect_eq_ok_iff.mpr ⟨by decide, [[1]], ?_, rfl⟩
    rw [hbelow, List.map_singleton, storedChunk_saveChunk, if_pos ⟨rfl, rfl, rfl⟩]
    rfl
  have hallowed : (Command.relayChunks Fixed.zero Fixed.zero ⟨1, by decide⟩).Allowed sampleConfig
      sampleOwner := isOperator_sampleOwner
  have hrun : ∃ refusal after,
      (execute ⟨sampleOwner, []⟩ (.relayChunks Fixed.zero Fixed.zero ⟨1, by decide⟩)).run
        ((Chunk.slot Fixed.zero Fixed.zero 0).save [1] sampleSetUp) = (.error refusal, after) := by
    rw [run_execute hconfig hallowed, run_relayChunks hcollect]
    exact ⟨_, _, rfl⟩
  obtain ⟨refusal, after, hrun⟩ := hrun
  have hspent := (hleaves _ _ _ _ hrun).spent _ _ _ _ ⟨rfl, rfl, isOperator_sampleOwner, hcollect⟩
  exact ⟨hreach, refusal, after, hrun, hspent.2.1 0 (by decide)⟩

end Ledger
end RelayLedger
