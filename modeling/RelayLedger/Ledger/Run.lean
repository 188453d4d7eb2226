/-
# Runs of a ledger

After it was set up a ledger gets messages: commands, and changes of the contract. On a chain a
message that fails leaves the store as it was; `deliver` is one message under this rule and `run` a
whole sequence. `Reachable` are the stores that come about in this way.

Key definitions: `Ledger.Message`, `Ledger.deliver`, `Ledger.run`, `Ledger.Reachable`.
-/
import RelayLedger.Ledger.Contract

namespace RelayLedger
namespace Ledger

/-- A message to a ledger that is set up. -/
inductive Message
  | command (envelope : Envelope) (command : Command)
  | change (change : Change)

/-- What a message makes a ledger do. -/
def Message.action : Message → Action Refusal Response
  | .command sent c => execute sent c
  | .change c => Ledger.change c

/-- The outcome of a message and the store after it. -/
def deliver (m : Message) (store : Store) : Except Refusal Response × Store :=
  m.action.commit store

/-- The outcomes of a sequence of messages, in order, and the store after the last. -/
def run : List Message → Store → List (Except Refusal Response) × Store
  | [], store => ([], store)
  | m :: rest, store =>
    let (outcome, store) := deliver m store
    let (outcomes, store) := run rest store
    (outcome :: outcomes, store)

/-- The stores of ledgers that were set up and then got any messages. -/
inductive Reachable : Store → Prop
  | setUp {envelope : Envelope} {setup : Setup} {response : Response} {store : Store} :
    (instantiate envelope setup).run ∅ = (.ok response, store) → Reachable store
  | deliver {store : Store} (m : Message) : Reachable store → Reachable (deliver m store).2

end Ledger
end RelayLedger
