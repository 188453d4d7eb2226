/-
# Messages to a counter, and what it keeps

A count is a whole number with a sign that fits into thirty-two bits and never wraps. A counter has
an owner and a count that anyone may raise by one and only the owner may set.

Key definitions: `Counter.Count`, `Counter.Setup`, `Counter.Command`, `Counter.Query`,
`Counter.State`.
-/
import RelayLedger.Contract

namespace RelayLedger
namespace Counter

/-! ### Counts -/

/-- A whole number with a sign that fits into thirty-two bits. -/
structure Count where
  toInt : Int
  le_toInt : -2147483648 ≤ toInt
  toInt_lt : toInt < 2147483648
  deriving DecidableEq

namespace Count

/-- The count of a number that fits. -/
def ofInt? (i : Int) : Option Count :=
  if h : -2147483648 ≤ i ∧ i < 2147483648 then some ⟨i, h.1, h.2⟩ else none

/-- One more, if that fits. -/
def succ? (c : Count) : Option Count := ofInt? (c.toInt + 1)

instance : ToString Count := ⟨fun c => toString c.toInt⟩

/-- Counts are written as numbers. -/
def format : Json.Format Count where
  write c := utf8 (toString c)
  read _ s := do
    let (i, after) ← Json.readInt s
    match ofInt? i with
    | some c => return (c, after)
    | none => .error .badNumber

end Count

/-! ### Messages and state -/

/-- Starts a counter. -/
structure Setup where
  count : Count
  deriving DecidableEq

/-- What a sender asks a counter to do. -/
inductive Command
  | increment
  | reset (count : Count)
  deriving DecidableEq

/-- What anyone may ask a counter. -/
inductive Query
  | count
  deriving DecidableEq

/-- The answer to what the count is. -/
structure Reading where
  count : Count
  deriving DecidableEq

/-- What a counter keeps. -/
structure State where
  count : Count
  owner : ChainAddress
  deriving DecidableEq

open Json

instance : Wire Setup where
  typeName := "terranova_rs::counter::CounterInstantiateMsg"
  format := .record <|
    (Fields.cons "count" Count.format .empty).renamed
      (fun (count, _) => ⟨count⟩) (fun m => (m.count, ()))

/-- The commands by name. -/
def Command.cases : List (Case Command) :=
  [.ofFields "increment" .empty (fun _ => .increment)
      fun
        | .increment => some ()
        | _ => none,
   .ofFields "reset" (.cons "count" Count.format .empty) (fun (count, _) => .reset count)
      fun
        | .reset count => some (count, ())
        | _ => none]

instance : Wire Command where
  typeName := "terranova_rs::counter::CounterExecuteMsg"
  format := .variants Command.cases

/-- The queries by name. -/
def Query.cases : List (Case Query) :=
  [.ofFields "get_count" .empty (fun _ => .count) fun | .count => some ()]

instance : Wire Query where
  typeName := "terranova_rs::counter::CounterQueryMsg"
  format := .variants Query.cases

instance : Wire Reading where
  typeName := "terranova_rs::counter::GetCountResponse"
  format := .record <|
    (Fields.cons "count" Count.format .empty).renamed
      (fun (count, _) => ⟨count⟩) (fun m => (m.count, ()))

instance : Wire State where
  typeName := "counter::state::State"
  format := .record <|
    (Fields.cons "count" Count.format <| .cons "owner" .chainAddress .empty).renamed
      (fun (count, owner, _) => ⟨count, owner⟩) (fun s => (s.count, s.owner, ()))

end Counter
end RelayLedger
