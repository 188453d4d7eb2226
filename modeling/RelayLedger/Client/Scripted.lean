/-
# A scripted client

Instead of a chain this client has two queues of answers, one for queries and one for messages, and
writes down every call in order. A call is written down before its answer is taken, and an answer
that does not decode is taken all the same. When the queue is empty a query fails and a message
gets the empty reply.

Key definitions: `Client.Call`, `Client.Scripted`.
-/
import RelayLedger.Client.Basic

namespace RelayLedger
namespace Client

/-- One call, with the text of its message. -/
inductive Call
  | query (contract : String) (message : Bytes)
  | execute (signer : Wallet) (contract : String) (message : Bytes)
  deriving DecidableEq

/-- The answers still to be given and the calls so far. -/
structure Scripted where
  queryAnswers : List (Except Fault Bytes) := []
  executeAnswers : List (Except Fault Bytes) := []
  calls : List Call := []

namespace Scripted

/-- Writes a call down. -/
def record (call : Call) (client : Scripted) : Scripted :=
  { client with calls := client.calls ++ [call] }

/-- Writes a query down and takes the next answer to one. -/
def query (α : Type) [Json.Wire α] (contract : String) (message : Bytes) :
    StateM Scripted (Except Fault α) := fun client =>
  let client := client.record (.query contract message)
  match client.queryAnswers with
  | [] => (.error .noAnswer, client)
  | answer :: rest =>
    let read := do Json.decodeAs α (← answer)
    (read, { client with queryAnswers := rest })

/-- Writes a message down and takes the next answer to one. -/
def execute (signer : Wallet) (contract : String) (message : Bytes) :
    StateM Scripted (Except Fault Bytes) := fun client =>
  let client := client.record (.execute signer contract message)
  match client.executeAnswers with
  | [] => (.ok [], client)
  | answer :: rest => (answer, { client with executeAnswers := rest })

instance : Client Scripted Fault Bytes where
  query α _ := query α
  execute := execute

end Scripted
end Client
end RelayLedger
