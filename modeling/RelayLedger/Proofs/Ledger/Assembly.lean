/-
# A transaction in one piece or in chunks

A transaction that is put together from chunks does what it would do in one piece: it goes through
or is refused for the same reason, and when it goes through its answer has one more event and its
chunks are gone. In which order they were stored does not matter, nor what was stored before.

Key definitions: `Ledger.SameAsDirect`.
Key theorems: `Ledger.sameAsDirect_of_collect`, `Ledger.chunked_same_as_direct`.
-/
import RelayLedger.Proofs.Ledger.Chunked

namespace RelayLedger
namespace Ledger

variable {store : Store} {config : Config} {caller : Address} {hash : TxHash}

/-- The outcome of a transaction that is put together from chunks, by what it does in one piece. -/
structure SameAsDirect (caller : Address) (hash : TxHash) (count : Word 8) (b : Bytes)
    (direct chunked : Except Refusal Response × Store) : Prop where
  succeeds : (∃ response, chunked.1 = .ok response) ↔ ∃ response, direct.1 = .ok response
  refused : ∀ refusal, chunked.1 = .error refusal ↔ direct.1 = .error refusal
  /-- There is one more event, at the end, and nothing else is new in the answer. -/
  answered : ∀ response, direct.1 = .ok response →
    chunked.1 = .ok { response with
      events := response.events ++
        [⟨"_chunked_transaction_assembled",
          [("caller", toString caller), ("tx_hash", toString hash),
           ("chunk_count", toString count), ("size", toString b.length)]⟩] }
  removed : (∃ response, direct.1 = .ok response) → ∀ index : Word 8,
    index.toNat < count.toNat → chunked.2.get? (Chunk.slot caller hash index).key = none
  untouched : ∀ k, (∀ index : Word 8, index.toNat < count.toNat →
    k ≠ (Chunk.slot caller hash index).key) → chunked.2.get? k = direct.2.get? k

/-- What was relayed is so short that the event can tell its length. -/
theorem length_of_deliver_relay (h : WellFormed store) {envelope : Envelope} {b : Bytes}
    {response : Response} {after : Store}
    (hdeliver : deliver (.command envelope (.relay caller b)) store = (.ok response, after)) :
    b.length < Word.bound 64 := by
  cases accepts_of_deliver h hdeliver with
  | command _ _ _ performs =>
    cases performs with
    | relay relayed =>
      cases relayed with
      | sent decoded _ _ _ => exact (Transaction.decode_eq_ok_iff.mp decoded).2.2

theorem sameAsDirect_of_collect (h : WellFormed store)
    (hconfig : Config.slot.load store = .ok config) {x y : ChainAddress}
    (hx : config.IsOperator x) (hy : config.IsOperator y) {count : Word 8} {b : Bytes}
    (hcollect : Chunk.collect caller hash count store = .ok b) :
    SameAsDirect caller hash count b (deliver (.command ⟨y, []⟩ (.relay caller b)) store)
      (deliver (.command ⟨x, []⟩ (.relayChunks caller hash count)) store) := by
  rw [deliver_relayChunks hconfig hx hy hcollect]
  cases hdirect : deliver (.command ⟨y, []⟩ (.relay caller b)) store with
  | mk outcome after =>
    cases outcome with
    | error refusal =>
      exact {
        succeeds := Iff.rfl
        refused := fun _ => Iff.rfl
        answered := nofun
        removed := fun ⟨_, e⟩ => nomatch e
        untouched := fun _ _ => rfl }
    | ok response =>
      exact {
        succeeds := ⟨fun _ => ⟨_, rfl⟩, fun _ => ⟨_, rfl⟩⟩
        refused := fun _ => ⟨nofun, nofun⟩
        answered := by
          intro _ e
          cases e
          have hsize : (Word.truncate b.length : Word 64).toNat = b.length :=
            Word.toNat_truncate (length_of_deliver_relay h hdirect)
          have htext : toString (Word.truncate b.length : Word 64) = toString b.length :=
            congrArg toString hsize
          simp only [Response.addEvent, Notice.toEvent, htext]
        removed := fun _ _ hindex => Chunk.get?_removeAll_self hindex after
        untouched := fun _ hk => Chunk.get?_removeAll_of_ne hk after }

/-- A transaction whose chunks were stored one by one, in whatever order, with whatever stored
before or in between, does what it would do in one piece, and its chunks are gone when it went
through. What counts is which chunk each slot got as last (`hlast`). -/
theorem chunked_same_as_direct (h : Reachable store)
    (hconfig : Config.slot.load store = .ok config) {uploads : List Upload}
    (hauthorised : ∀ u ∈ uploads, u.caller = caller → u.hash = hash → u.Authorised config)
    {chunks : List Bytes} {count : Word 8} (hchunks : chunks ≠ [])
    (hlast : count.below.map (lastStored uploads caller hash) = chunks.map some)
    {x y : ChainAddress} (hx : config.IsOperator x) (hy : config.IsOperator y) :
    SameAsDirect caller hash count chunks.flatten
      (deliver (.command ⟨y, []⟩ (.relay caller chunks.flatten))
        (run (uploads.map Upload.message) store).2)
      (deliver (.command ⟨x, []⟩ (.relayChunks caller hash count))
        (run (uploads.map Upload.message) store).2) := by
  have hload := (load_config_uploads h uploads).trans hconfig
  have hcount : count ≠ 0 := by
    rintro rfl
    exact hchunks (List.map_eq_nil_iff.mp hlast.symm)
  exact sameAsDirect_of_collect (h.run _).wellFormed hload hx hy
    (collect_uploads h hconfig hauthorised hcount hlast)

theorem chunked_same_as_direct_sample : ∃ response,
    (deliver (.command ⟨sampleOwner, []⟩ (.relayChunks Fixed.zero Fixed.zero ⟨3, by decide⟩))
      (run (sampleUploads.map Upload.message) sampleStore).2).1 = .ok response := by
  have hflatten : [Transaction.sampleBytes.take 9, [], Transaction.sampleBytes.drop 9].flatten =
      Transaction.sampleBytes := by decide +kernel
  have hsame := chunked_same_as_direct reachable_sampleStore load_sampleStore
    authorised_sampleUploads (List.cons_ne_nil _ _) lastStored_sampleUploads isOperator_sampleOwner
    isOperator_sampleOwner
  rw [hflatten] at hsame
  exact hsame.succeeds.mpr relay_sampleUploads

end Ledger
end RelayLedger
