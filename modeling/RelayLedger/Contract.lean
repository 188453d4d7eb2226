/-
# What all contracts share

A message comes in an `Envelope` that names its sender and the coins sent along. A contract answers
with a `Response`: attributes, events and perhaps data. Each contract keeps a `Version` of itself in
its store. Contracts act by `Action`: an action that fails keeps what it had written by then
(`Action.run`), and a chain that lets nothing of it stand uses `Action.commit`.

Key definitions: `Envelope`, `Event`, `Response`, `Version`, `Action`, `Action.run`,
`Action.commit`.
-/
import RelayLedger.Store

namespace RelayLedger

/-- An amount of one kind of coin. -/
structure Coin where
  denomination : String
  amount : Nat
  deriving DecidableEq

/-- Who sends a message, and with which coins. -/
structure Envelope where
  sender : ChainAddress
  funds : List Coin := []

/-- Something that happened, for those who watch the chain. -/
structure Event where
  kind : String
  attributes : List (String × String)
  deriving DecidableEq

/-- The answer of a contract to a message. -/
structure Response where
  attributes : List (String × String) := []
  events : List Event := []
  data : Option Bytes := none
  deriving DecidableEq

/-- The response with one more event at the end. -/
def Response.addEvent (r : Response) (e : Event) : Response := { r with events := r.events ++ [e] }

/-- A step on a store that may fail; what was written before the failure stays written. -/
abbrev Action (ε α : Type) := ExceptT ε (StateM Store) α

namespace Action

variable {ε α : Type}

/-- The outcome on a store, and the store that is left. -/
def run (a : Action ε α) (store : Store) : Except ε α × Store := StateT.run (ExceptT.run a) store

/-- What can be read from the store. -/
def read (f : Store → Except ε α) : Action ε α := fun store => (f store, store)

/-- Changes the store. -/
def write (f : Store → Store) : Action ε Unit := fun store => (.ok (), f store)

/-- Runs an action and keeps what it wrote only if it goes through. -/
def commit (a : Action ε α) (store : Store) : Except ε α × Store :=
  match a.run store with
  | (.ok r, written) => (.ok r, written)
  | (.error e, _) => (.error e, store)

end Action

/-- Which contract, in which version, a store belongs to. -/
structure Version where
  contract : String
  version : String
  deriving DecidableEq

instance : Json.Wire Version where
  typeName := "cw2::ContractVersion"
  format := .record <|
    (Json.Fields.cons "contract" .text <| .cons "version" .text .empty).renamed
      (fun (contract, version, _) => ⟨contract, version⟩)
      (fun v => (v.contract, v.version, ()))

/-- Where the version is kept. -/
def Version.slot : Slot Version := ⟨utf8 "contract_info"⟩

end RelayLedger
