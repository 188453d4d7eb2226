/-
# The counter contract

Anyone may raise the count, coins or not, and only the owner may set it. Where the count cannot
grow, or somebody else wants to set it, the message is refused and nothing changes.

Key definitions: `Counter.instantiate`, `Counter.next`, `Counter.execute`, `Counter.answer`.
-/
import RelayLedger.Counter.Message

namespace RelayLedger
namespace Counter

/-- Why a counter refuses a message. -/
inductive Refusal
  /-- Not for a rule of the counter. -/
  | ofFault (fault : Fault)
  | overflow
  | unauthorized
  deriving DecidableEq

/-- The wording of a refusal. -/
def Refusal.message : Refusal → String
  | .ofFault fault => fault.message
  | .overflow => "Cannot Add with given operands"
  | .unauthorized => "Unauthorized"

/-- What the counter says it is. -/
def version : Version := ⟨"crates.io:counter", "0.1.0"⟩

/-- Where the state is kept. -/
def State.slot : Slot State := ⟨utf8 "state"⟩

/-- Starts a counter that its sender owns. -/
def instantiate (envelope : Envelope) (setup : Setup) : Action Refusal Response := do
  .write (Version.slot.save version)
  .write (State.slot.save ⟨setup.count, envelope.sender⟩)
  return { attributes :=
    [("action", "instantiate"), ("owner", envelope.sender.text),
     ("count", toString setup.count)] }

/-- The count that a command leaves. -/
def next (sender : ChainAddress) (state : State) : Command → Except Refusal Count
  | .increment =>
    match state.count.succ? with
    | some count => .ok count
    | none => .error .overflow
  | .reset count => if sender = state.owner then .ok count else .error .unauthorized

/-- Carries out a command; coins that come along change nothing. -/
def execute (envelope : Envelope) (command : Command) : Action Refusal Response := do
  let state ← .read fun store => (State.slot.load store).mapError .ofFault
  let count ← .read fun _ => next envelope.sender state command
  .write (State.slot.save { state with count })
  return { attributes := [("count", toString count)] }

/-- The JSON text of the answer to a query. -/
def answer (query : Query) (store : Store) : Except Fault Bytes :=
  match query with
  | .count => (State.slot.load store).map fun state => Json.encode (⟨state.count⟩ : Reading)

end Counter
end RelayLedger
