/-
# What a counter has counted

The count of a counter is what its owner set last, or what it started with, and one more for each
increment that was accepted since. Only two things are refused: one increment too many, and a reset
by somebody else. What is refused leaves the store as it was, so the count never wraps and a counter
that is full still does what its owner asks. The owner never changes.

Key definitions: `Counter.Message`, `Counter.run`, `Counter.Log.lastSet`, `Counter.Log.raisedSince`,
`Counter.Holds`.
Key theorems: `Counter.run_execute`, `Counter.counts_send`, `Counter.counts_run`,
`Counter.count_law`.
-/
import RelayLedger.Counter.Contract
import RelayLedger.Proofs.Action
import RelayLedger.Proofs.Counter.Message
import RelayLedger.Proofs.Slot

namespace RelayLedger
namespace Counter

open RelayLedger.Action

variable {store start : Store} {owner : ChainAddress} {count initial : Count}

/-! ### Counts that fit -/

theorem Count.ofInt?_eq_some_iff {i : Int} {c : Count} : Count.ofInt? i = some c ↔ c.toInt = i := by
  constructor
  · intro h
    unfold Count.ofInt? at h
    split at h
    · cases h
      rfl
    · cases h
  · rintro rfl
    exact c.ofInt?_toInt

theorem Count.succ?_eq_some_iff {c next : Count} : c.succ? = some next ↔ next.toInt = c.toInt + 1 :=
  Count.ofInt?_eq_some_iff

/-- Only the greatest count has no next one. -/
theorem Count.succ?_eq_none_iff {c : Count} : c.succ? = none ↔ c.toInt = 2147483647 := by
  have hlow := c.le_toInt
  have hhigh := c.toInt_lt
  unfold Count.succ? Count.ofInt?
  split
  · simp only [reduceCtorEq, false_iff]
    omega
  · simp only [true_iff]
    omega

/-! ### One message -/

/-- A message to a counter that is set up. -/
structure Message where
  envelope : Envelope
  command : Command

/-- Carries out a message, and nothing is taken back if it is refused. -/
def send (m : Message) : StateM Store (Except Refusal Response) :=
  (execute m.envelope m.command).run

/-- A command leaves the count that it asks for, or the store as it was. -/
theorem run_execute {state : State} (h : State.slot.load store = .ok state) (envelope : Envelope)
    (command : Command) :
    (execute envelope command).run store =
      match next envelope.sender state command with
      | .ok count => (.ok { attributes := [("count", toString count)] },
          State.slot.save { state with count } store)
      | .error refusal => (.error refusal, store) := by
  have hload : (Action.read fun store => (State.slot.load store).mapError Refusal.ofFault).run
      store = (.ok state, store) := by
    rw [run_read, h]
    rfl
  rw [execute, run_bind_ok hload, run_bind, run_read]
  cases next envelope.sender state command <;> rfl

theorem next_increment_eq_error_iff {sender : ChainAddress} {refusal : Refusal} :
    next sender ⟨count, owner⟩ .increment = .error refusal ↔
      refusal = .overflow ∧ count.toInt = 2147483647 := by
  rw [next, ← Count.succ?_eq_none_iff]
  cases count.succ? <;> simp [eq_comm]

theorem next_reset_eq_error_iff {sender : ChainAddress} {c : Count} {refusal : Refusal} :
    next sender ⟨count, owner⟩ (.reset c) = .error refusal ↔
      refusal = .unauthorized ∧ sender ≠ owner := by
  rw [next]
  by_cases hsender : sender = owner
  · simp [hsender]
  · simp [hsender, eq_comm]

/-- A message is refused when there is no next count for it, and then nothing is written. -/
theorem run_execute_eq_error_iff {state : State} (h : State.slot.load store = .ok state)
    {envelope : Envelope} {command : Command} {refusal : Refusal} :
    ((execute envelope command).run store).1 = .error refusal ↔
      next envelope.sender state command = .error refusal := by
  rw [run_execute h]
  cases next envelope.sender state command <;> simp

/-! ### Histories -/

/-- Carries out messages, one after the other. -/
def run (messages : List Message) : StateM Store (List (Except Refusal Response)) :=
  messages.mapM send

/-- Messages with their outcomes, in order. -/
abbrev Log := List (Message × Except Refusal Response)

/-- The messages of a run with their outcomes. -/
def log (messages : List Message) (store : Store) : Log := messages.zip (run messages store).1

/-- The count that a message sets if it is the owner's. -/
def Message.setBy? (owner : ChainAddress) (m : Message) : Option Count :=
  match m.command with
  | .increment => none
  | .reset count => if m.envelope.sender = owner then some count else none

/-- Whether an increment was accepted. -/
def raises : Message × Except Refusal Response → Bool
  | (⟨_, .increment⟩, .ok _) => true
  | _ => false

namespace Log

/-- The count that the owner set last, or the one at the start. -/
def lastSet (owner : ChainAddress) (initial : Count) (log : Log) : Count :=
  (log.reverse.findSome? fun entry => entry.1.setBy? owner).getD initial

/-- How many increments were accepted since the owner set the count, or since the start. -/
def raisedSince (owner : ChainAddress) (log : Log) : Nat :=
  (log.reverse.takeWhile fun entry => (entry.1.setBy? owner).isNone).countP raises

variable {m : Message} {outcome : Except Refusal Response}

theorem lastSet_concat_of_none (h : m.setBy? owner = none) (log : Log) :
    lastSet owner initial (log ++ [(m, outcome)]) = lastSet owner initial log := by
  rw [lastSet, List.reverse_append, List.reverse_singleton, List.singleton_append]
  simp only [List.findSome?_cons, h, lastSet]

theorem lastSet_concat_of_some (h : m.setBy? owner = some count) (log : Log) :
    lastSet owner initial (log ++ [(m, outcome)]) = count := by
  rw [lastSet, List.reverse_append, List.reverse_singleton, List.singleton_append]
  simp only [List.findSome?_cons, h, Option.getD_some]

theorem raisedSince_concat_of_none (h : m.setBy? owner = none) (log : Log) :
    raisedSince owner (log ++ [(m, outcome)]) =
      raisedSince owner log + if raises (m, outcome) then 1 else 0 := by
  rw [raisedSince, List.reverse_append, List.reverse_singleton, List.singleton_append]
  simp only [List.takeWhile_cons, h, Option.isNone_none, if_true, List.countP_cons, raisedSince]

theorem raisedSince_concat_of_some (h : m.setBy? owner = some count) (log : Log) :
    raisedSince owner (log ++ [(m, outcome)]) = 0 := by
  rw [raisedSince, List.reverse_append, List.reverse_singleton, List.singleton_append]
  simp only [List.takeWhile_cons, h, Option.isNone_some, Bool.false_eq_true, if_false,
    List.countP_nil]

end Log

theorem run_concat (m : Message) (messages : List Message) (store : Store) :
    run (messages ++ [m]) store =
      ((run messages store).1 ++ [(send m (run messages store).2).1],
        (send m (run messages store).2).2) := by
  rw [run, List.mapM_append]
  rfl

theorem length_run (messages : List Message) (store : Store) :
    (run messages store).1.length = messages.length := by
  induction messages using List.reverseRecOn with
  | nil => rfl
  | append_singleton earlier m ih =>
    rw [run_concat, List.length_append, ih, List.length_append]
    rfl

theorem log_concat (m : Message) (messages : List Message) (store : Store) :
    log (messages ++ [m]) store =
      log messages store ++ [(m, (send m (run messages store).2).1)] := by
  rw [log, run_concat, List.zip_append (length_run messages store).symm]
  rfl

/-! ### The count -/

/-- A counter has the owner and the count that its log tells. -/
def Counts (owner : ChainAddress) (initial : Count) (log : Log) (store : Store) : Prop :=
  ∃ count : Count, State.slot.load store = .ok ⟨count, owner⟩ ∧
    count.toInt = (log.lastSet owner initial).toInt + log.raisedSince owner

/-- One more message, accepted or not, and the log still tells the count. -/
theorem counts_send {log : Log} (h : Counts owner initial log store) (m : Message) :
    Counts owner initial (log ++ [(m, (send m store).1)]) (send m store).2 := by
  obtain ⟨count, hload, hcount⟩ := h
  obtain ⟨envelope, command⟩ := m
  have hsend := run_execute hload envelope command
  rw [send]
  cases command with
  | increment =>
    have hset : Message.setBy? owner ⟨envelope, .increment⟩ = none := rfl
    rw [next] at hsend
    cases hsucc : count.succ? with
    | none =>
      rw [hsucc] at hsend
      refine ⟨count, by rw [hsend]; exact hload, ?_⟩
      rw [hsend, Log.lastSet_concat_of_none hset, Log.raisedSince_concat_of_none hset, hcount]
      rfl
    | some more =>
      rw [hsucc] at hsend
      refine ⟨more, by rw [hsend]; exact Slot.load_of_get?_eq_some (Slot.get?_save_self ..), ?_⟩
      rw [hsend, Log.lastSet_concat_of_none hset, Log.raisedSince_concat_of_none hset,
        Count.succ?_eq_some_iff.mp hsucc, hcount]
      exact Int.add_assoc ..
  | reset c =>
    rw [next] at hsend
    by_cases hsender : envelope.sender = owner
    · have hset : Message.setBy? owner ⟨envelope, .reset c⟩ = some c := if_pos hsender
      rw [if_pos hsender] at hsend
      refine ⟨c, by rw [hsend]; exact Slot.load_of_get?_eq_some (Slot.get?_save_self ..), ?_⟩
      rw [Log.lastSet_concat_of_some hset, Log.raisedSince_concat_of_some hset]
      exact (Int.add_zero _).symm
    · have hset : Message.setBy? owner ⟨envelope, .reset c⟩ = none := if_neg hsender
      rw [if_neg hsender] at hsend
      refine ⟨count, by rw [hsend]; exact hload, ?_⟩
      rw [hsend, Log.lastSet_concat_of_none hset, Log.raisedSince_concat_of_none hset, hcount]
      rfl

/-- The log of any run tells the count. -/
theorem counts_run (h : Counts owner initial [] start) (messages : List Message) :
    Counts owner initial (log messages start) (run messages start).2 := by
  induction messages using List.reverseRecOn with
  | nil => exact h
  | append_singleton earlier m ih =>
    rw [log_concat, run_concat]
    exact counts_send ih m

/-- What a counter with an owner and a count says and does. -/
structure Holds (owner : ChainAddress) (count : Count) (store : Store) : Prop where
  state : State.slot.load store = .ok ⟨count, owner⟩
  told : answer .count store = .ok (Json.encode (⟨count⟩ : Reading))
  /-- One increment too many is refused, and no other. -/
  increment : ∀ (sent : Envelope) (refusal : Refusal),
    ((execute sent .increment).run store).1 = .error refusal ↔
      refusal = .overflow ∧ count.toInt = 2147483647
  /-- A reset by somebody else is refused, and no other. -/
  reset : ∀ (sent : Envelope) (c : Count) (refusal : Refusal),
    ((execute sent (.reset c)).run store).1 = .error refusal ↔
      refusal = .unauthorized ∧ sent.sender ≠ owner
  /-- What is refused is as if it had not been sent. -/
  refused : ∀ (sent : Envelope) (command : Command) (refusal : Refusal),
    ((execute sent command).run store).1 = .error refusal →
      ((execute sent command).run store).2 = store
  /-- Also a counter that is full can be set. -/
  usable : ∀ (funds : List Coin) (c : Count), ∃ response,
    (execute ⟨owner, funds⟩ (.reset c)).run store =
      (.ok response, State.slot.save ⟨c, owner⟩ store)

theorem holds_of_load (h : State.slot.load store = .ok ⟨count, owner⟩) :
    Holds owner count store where
  state := h
  told := by
    rw [answer, h]
    rfl
  increment sent refusal := by rw [run_execute_eq_error_iff h, next_increment_eq_error_iff]
  reset sent c refusal := by rw [run_execute_eq_error_iff h, next_reset_eq_error_iff]
  refused sent command refusal hrefused := by
    rw [run_execute h, (run_execute_eq_error_iff h).mp hrefused]
  usable funds c := by
    have hrun := run_execute h ⟨owner, funds⟩ (.reset c)
    rw [next, if_pos rfl] at hrun
    exact ⟨_, hrun⟩

/-- Setting up goes through, and the sender owns a counter with the count of the message. -/
theorem run_instantiate (envelope : Envelope) (setup : Setup) (before : Store) :
    ∃ response start, (instantiate envelope setup).run before = (.ok response, start) ∧
      Counts envelope.sender setup.count [] start :=
  ⟨_, _, rfl, setup.count, Slot.load_of_get?_eq_some (Slot.get?_save_self ..),
    (Int.add_zero _).symm⟩

/-- At any time after a counter was set up its sender owns it, and its count is what the owner set
last and one more for each increment accepted since. -/
theorem count_law (envelope : Envelope) (setup : Setup) (before : Store) :
    ∃ response start, (instantiate envelope setup).run before = (.ok response, start) ∧
      ∀ messages : List Message, ∃ count : Count,
        count.toInt = ((log messages start).lastSet envelope.sender setup.count).toInt +
          (log messages start).raisedSince envelope.sender ∧
        Holds envelope.sender count (run messages start).2 := by
  obtain ⟨response, start, hrun, hstart⟩ := run_instantiate envelope setup before
  refine ⟨response, start, hrun, fun messages => ?_⟩
  obtain ⟨count, hload, hcount⟩ := counts_run hstart messages
  exact ⟨count, hcount, holds_of_load hload⟩

end Counter
end RelayLedger
