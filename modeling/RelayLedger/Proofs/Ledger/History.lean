/-
# Histories

What a ledger was sent and what it answered. The `log` of a run pairs each message with its
outcome; the events and the commands of a log are those of the messages that went through. What
holds of a ledger that was just set up, and is kept by every message that goes through, holds of
the log and the store after any run (`run_induction`): all laws about whole runs are proved by it,
those that depend on commands alone by `commands_induction`.

Key definitions: `Ledger.Log`, `Ledger.log`, `Ledger.Log.events`, `Ledger.Log.commands`.
Key theorems: `Ledger.run_induction`, `Ledger.commands_induction`.
-/
import RelayLedger.Proofs.Ledger.Step

namespace RelayLedger
namespace Ledger

/-- Messages with their outcomes, in order. -/
abbrev Log := List (Message × Except Refusal Response)

/-- The messages of a run with their outcomes. -/
def log (messages : List Message) (store : Store) : Log := messages.zip (run messages store).1

namespace Log

/-- The events of the messages that went through. -/
def events (log : Log) : List Event :=
  log.flatMap fun
    | (_, .ok response) => response.events
    | (_, .error _) => []

/-- The commands that were carried out. -/
def commands (log : Log) : List Command :=
  log.filterMap fun
    | (.command _ command, .ok _) => some command
    | _ => none

theorem events_nil : events [] = [] := rfl

theorem commands_append (log more : Log) :
    commands (log ++ more) = log.commands ++ more.commands :=
  List.filterMap_append

theorem events_concat_ok (log : Log) (m : Message) (response : Response) :
    events (log ++ [(m, .ok response)]) = log.events ++ response.events := by
  simp [events]

theorem events_concat_error (log : Log) (m : Message) (refusal : Refusal) :
    events (log ++ [(m, .error refusal)]) = log.events := by
  simp [events]

theorem commands_concat_command (log : Log) (envelope : Envelope) (command : Command)
    (response : Response) :
    commands (log ++ [(.command envelope command, .ok response)]) = log.commands ++ [command] := by
  simp [commands]

theorem commands_concat_change (log : Log) (c : Change) (response : Response) :
    commands (log ++ [(.change c, .ok response)]) = log.commands := by
  simp [commands]

theorem commands_concat_error (log : Log) (m : Message) (refusal : Refusal) :
    commands (log ++ [(m, .error refusal)]) = log.commands := by
  simp [commands]

end Log

/-! ### Runs from behind -/

/-- A run that starts with a message whose outcome is known. -/
theorem run_cons {m : Message} {store next : Store} {outcome : Except Refusal Response}
    (h : deliver m store = (outcome, next)) (rest : List Message) :
    run (m :: rest) store = (outcome :: (run rest next).1, (run rest next).2) := by
  rw [run, h]

theorem run_cons_snd {m : Message} {store next : Store} {outcome : Except Refusal Response}
    (h : deliver m store = (outcome, next)) (rest : List Message) :
    (run (m :: rest) store).2 = (run rest next).2 := by
  rw [run_cons h]

theorem run_append (more : List Message) : ∀ (messages : List Message) (store : Store),
    run (messages ++ more) store =
      ((run messages store).1 ++ (run more (run messages store).2).1,
        (run more (run messages store).2).2)
  | [], _ => rfl
  | first :: rest, store => by
    simp only [List.cons_append, run, run_append more rest]

theorem run_append_snd (more messages : List Message) (store : Store) :
    (run (messages ++ more) store).2 = (run more (run messages store).2).2 := by
  rw [run_append]

theorem run_concat (m : Message) (messages : List Message) (store : Store) :
    run (messages ++ [m]) store =
      ((run messages store).1 ++ [(deliver m (run messages store).2).1],
        (deliver m (run messages store).2).2) :=
  run_append [m] messages store

theorem length_run : ∀ (messages : List Message) (store : Store),
    (run messages store).1.length = messages.length
  | [], _ => rfl
  | m :: rest, store => congrArg (· + 1) (length_run rest (deliver m store).2)

theorem log_append (more messages : List Message) (store : Store) :
    log (messages ++ more) store = log messages store ++ log more (run messages store).2 := by
  rw [log, log, log, run_append, List.zip_append (length_run messages store).symm]

theorem log_concat (m : Message) (messages : List Message) (store : Store) :
    log (messages ++ [m]) store =
      log messages store ++ [(m, (deliver m (run messages store).2).1)] :=
  log_append [m] messages store

/-- A command that goes through is the first that is carried out. -/
theorem commands_cons {envelope : Envelope} {command : Command} {store next : Store}
    {response : Response} (h : deliver (.command envelope command) store = (.ok response, next))
    (rest : List Message) :
    (log (.command envelope command :: rest) store).commands =
      command :: (log rest next).commands := by
  rw [log, run_cons h]
  rfl

/-- A run leads from a store that can be reached to another. -/
theorem Reachable.run {store : Store} (h : Reachable store) (messages : List Message) :
    Reachable (Ledger.run messages store).2 := by
  induction messages generalizing store with
  | nil => exact h
  | cons m rest ih => exact ih (.deliver m h)

/-- What holds at the start and is kept by every message that goes through holds after every run.
A message that is refused only lengthens the log. -/
theorem run_induction {P : Log → Store → Prop} {start : Store} (hstart : Reachable start)
    (init : P [] start)
    (refused : ∀ {log store} (m : Message) (refusal : Refusal), P log store →
      P (log ++ [(m, .error refusal)]) store)
    (accepted : ∀ {log store m response after}, Reachable store →
      Accepts store m response after → P log store → P (log ++ [(m, .ok response)]) after)
    (messages : List Message) : P (log messages start) (run messages start).2 := by
  induction messages using List.reverseRecOn with
  | nil => exact init
  | append_singleton messages m ih =>
    have hreach := hstart.run messages
    rw [log_concat, run_concat]
    rcases deliver_cases hreach.wellFormed m with ⟨refusal, _, -, hdeliver⟩ |
      ⟨response, after, hdeliver, haccepts⟩
    · rw [hdeliver]
      exact refused m refusal ih
    · rw [hdeliver]
      exact accepted hreach haccepts ih

/-- What is kept by every command that is carried out, and does not depend on the settings, holds
of the commands that a run carried out. -/
theorem commands_induction {P : List Command → Store → Prop} {start : Store}
    (hstart : Reachable start) (init : P [] start)
    (performed : ∀ {commands store config c response after}, Reachable store →
      Performs config store c response after → P commands store → P (commands ++ [c]) after)
    (changed : ∀ {commands store} (config : Config), P commands store →
      P commands (Version.slot.save version (Config.slot.save config store)))
    (messages : List Message) : P (log messages start).commands (run messages start).2 := by
  refine run_induction (P := fun log store => P log.commands store) hstart init ?_ ?_ messages
  · intro log store m refusal hlog
    rw [Log.commands_concat_error]
    exact hlog
  · intro log store m response after hreach haccepts hlog
    cases haccepts with
    | command _ _ _ performs =>
      rw [Log.commands_concat_command]
      exact performed hreach performs hlog
    | change _ =>
      rw [Log.commands_concat_change]
      exact changed _ hlog

end Ledger
end RelayLedger
