/-
# Chunks of long transactions

A transaction that is too long for one message is stored in chunks, each under the account it is
sent for, the hash of the whole and an index. Putting the first `count` chunks together needs all
of them, and at least one.

Key definitions: `Ledger.Chunk.slot`, `Ledger.Chunk.collect`, `Ledger.Chunk.removeAll`.
-/
import RelayLedger.Contract
import RelayLedger.Ledger.Refusal

namespace RelayLedger
namespace Ledger
namespace Chunk

/-- Where a chunk is kept. -/
def slot (caller : Address) (hash : TxHash) (index : Word 8) : Slot Bytes :=
  ⟨Store.key [utf8 "tx_chunks", caller.bytes, hash.bytes, [UInt8.ofNat index.toNat]]⟩

/-- The chunks of these indices, one after another. -/
def collectFrom (caller : Address) (hash : TxHash) (store : Store) :
    List (Word 8) → Except Refusal Bytes
  | [] => .ok []
  | index :: rest => do
    match ← ofFault ((slot caller hash index).load? store) with
    | none => .error (.chunkMissing hash index)
    | some data =>
      let tail ← collectFrom caller hash store rest
      return data ++ tail

/-- The first `count` chunks, one after another. -/
def collect (caller : Address) (hash : TxHash) (count : Word 8) (store : Store) :
    Except Refusal Bytes :=
  if count = 0 then .error (.chunkMissing hash 0)
  else collectFrom caller hash store count.below

/-- The store without the first `count` chunks. -/
def removeAll (caller : Address) (hash : TxHash) (count : Word 8) (store : Store) : Store :=
  count.below.foldl (fun store index => (slot caller hash index).erase store) store

end Chunk
end Ledger
end RelayLedger
