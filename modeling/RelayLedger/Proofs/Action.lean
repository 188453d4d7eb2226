/-
# Running actions

The outcome of an action and the store it leaves, read off its parts: one equation for each way of
building actions, so that a run is taken apart by rewriting. An action keeps a property of stores
if every run from a store with the property ends in one (`Action.Keeps`), whether it goes through
or fails on the way; and so do actions built from such actions. Likewise an action commutes with a
change of the store if each of its parts does (`Action.Commutes`).

Key definitions: `Action.Keeps`, `Action.Commutes`.
Key theorems: `Action.run_bind`, `Action.Keeps.bind`, `Action.Keeps.commit`, `Action.Commutes.bind`.
-/
import RelayLedger.Contract

namespace RelayLedger
namespace Action

variable {ε α β : Type}

/-! ### Runs -/

@[simp] theorem run_pure (a : α) (store : Store) :
    (pure a : Action ε α).run store = (.ok a, store) := rfl

@[simp] theorem run_throw (e : ε) (store : Store) :
    (throw e : Action ε α).run store = (.error e, store) := rfl

@[simp] theorem run_read (f : Store → Except ε α) (store : Store) :
    (read f).run store = (f store, store) := rfl

@[simp] theorem run_write (f : Store → Store) (store : Store) :
    (write f : Action ε Unit).run store = (.ok (), f store) := rfl

theorem run_bind (a : Action ε α) (f : α → Action ε β) (store : Store) :
    (a >>= f).run store =
      match a.run store with
      | (.ok x, written) => (f x).run written
      | (.error e, written) => (.error e, written) := by
  have hstep : (a >>= f).run store = ExceptT.bindCont f (a.run store).1 (a.run store).2 := rfl
  rw [hstep]
  cases a.run store with
  | mk outcome written => cases outcome <;> rfl

theorem run_bind_ok {a : Action ε α} {f : α → Action ε β} {store written : Store} {x : α}
    (h : a.run store = (.ok x, written)) : (a >>= f).run store = (f x).run written := by
  rw [run_bind, h]

theorem run_bind_error {a : Action ε α} {f : α → Action ε β} {store written : Store} {e : ε}
    (h : a.run store = (.error e, written)) : (a >>= f).run store = (.error e, written) := by
  rw [run_bind, h]

/-- A run of two steps goes through when both do. -/
theorem run_bind_eq_ok_iff {a : Action ε α} {f : α → Action ε β} {store last : Store} {b : β} :
    (a >>= f).run store = (.ok b, last) ↔
      ∃ x written, a.run store = (.ok x, written) ∧ (f x).run written = (.ok b, last) := by
  rw [run_bind]
  cases h : a.run store with
  | mk outcome written =>
    cases outcome with
    | error e => simp
    | ok x =>
      simp only [Prod.mk.injEq, Except.ok.injEq]
      constructor
      · intro hf
        exact ⟨x, written, ⟨rfl, rfl⟩, hf⟩
      · intro ⟨_, _, ⟨hx, hwritten⟩, hf⟩
        rw [hx, hwritten]
        exact hf

/-- What is taken back does not change the outcome. -/
theorem commit_fst (a : Action ε α) (store : Store) : (a.commit store).1 = (a.run store).1 := by
  rw [commit]
  cases a.run store with
  | mk outcome written => cases outcome <;> rfl

/-- Nothing is left of what fails. -/
theorem commit_snd_of_error {a : Action ε α} {store : Store} {e : ε}
    (h : (a.commit store).1 = .error e) : (a.commit store).2 = store := by
  rw [commit] at h ⊢
  cases hrun : a.run store with
  | mk outcome written =>
    rw [hrun] at h
    cases outcome with
    | error e' => rfl
    | ok x => cases h

/-! ### Properties of the store -/

/-- Whatever becomes of the action, it leaves the property as it was. -/
def Keeps (P : Store → Prop) (a : Action ε α) : Prop :=
  ∀ store : Store, P store → P (a.run store).2

namespace Keeps

variable {P : Store → Prop}

theorem pure (a : α) : Keeps P (Pure.pure a : Action ε α) := fun _ h => h

theorem throw (e : ε) : Keeps P (MonadExcept.throw e : Action ε α) := fun _ h => h

theorem read (f : Store → Except ε α) : Keeps P (Action.read f) := fun _ h => h

theorem write {f : Store → Store} (h : ∀ store, P store → P (f store)) :
    Keeps P (Action.write f : Action ε Unit) := h

theorem bind {a : Action ε α} {f : α → Action ε β} (ha : Keeps P a) (hf : ∀ x, Keeps P (f x)) :
    Keeps P (a >>= f) := by
  intro store h
  have hstore := ha store h
  rw [run_bind]
  cases hrun : a.run store with
  | mk outcome written =>
    rw [hrun] at hstore
    cases outcome with
    | error e => exact hstore
    | ok x => exact hf x written hstore

/-- A chain that lets nothing of a failed action stand keeps the property too. -/
theorem commit {a : Action ε α} (ha : Keeps P a) {store : Store} (h : P store) :
    P (a.commit store).2 := by
  have hstore := ha store h
  rw [Action.commit]
  cases hrun : a.run store with
  | mk outcome written =>
    rw [hrun] at hstore
    cases outcome with
    | error e => exact h
    | ok x => exact hstore

end Keeps

/-! ### Changes of the store that make no difference -/

/-- The action does what it would do without a change of the store, and leaves the store that it
would leave with the change made afterwards. -/
def Commutes (g : Store → Store) (a : Action ε α) : Prop :=
  ∀ store : Store, a.run (g store) = ((a.run store).1, g (a.run store).2)

namespace Commutes

variable {g : Store → Store}

theorem pure (a : α) : Commutes g (Pure.pure a : Action ε α) := fun _ => rfl

theorem throw (e : ε) : Commutes g (MonadExcept.throw e : Action ε α) := fun _ => rfl

theorem read {f : Store → Except ε α} (h : ∀ store, f (g store) = f store) :
    Commutes g (Action.read f) := fun store => by
  rw [run_read, run_read, h]

theorem write {f : Store → Store} (h : ∀ store, f (g store) = g (f store)) :
    Commutes g (Action.write f : Action ε Unit) := fun store => by
  rw [run_write, run_write, h]

theorem bind {a : Action ε α} {f : α → Action ε β} (ha : Commutes g a)
    (hf : ∀ x, Commutes g (f x)) : Commutes g (a >>= f) := by
  intro store
  rw [run_bind, run_bind, ha store]
  cases a.run store with
  | mk outcome written =>
    cases outcome with
    | error e => rfl
    | ok x => exact hf x written

end Commutes
end Action
end RelayLedger
