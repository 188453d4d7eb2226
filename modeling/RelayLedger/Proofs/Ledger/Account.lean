/-
# What becomes of accounts

Every step on an account reads it, changes one thing and keeps it again, so its run is known as soon
as the account can be read: either the step refuses and writes nothing, or the store is the old one
with one account kept anew. A transfer is three such steps, of which the last two read what the
steps before them wrote. `Transfer.run_apply_of_ne` and `Transfer.run_apply_self` sum it up as one
write for each account.

Key theorems: `Ledger.Account.load_save_of_ne`, `Ledger.Transfer.run_apply_of_ne`,
`Ledger.Transfer.run_apply_self`.
-/
import RelayLedger.Proofs.Action
import RelayLedger.Proofs.Ledger.Place
import RelayLedger.Proofs.Outcome
import RelayLedger.Proofs.Word

namespace RelayLedger
namespace Ledger

namespace Account

variable {store : Store} {address : Address} {a : Account}

/-! ### Keeping and reading -/

theorem get?_save (a : Account) (store : Store) :
    (a.save store).get? (slot a.address).key = some (Json.encode a) :=
  Slot.get?_save_self (slot a.address) a store

theorem get?_save_of_ne {k : Bytes} (h : k ≠ (slot a.address).key) (store : Store) :
    (a.save store).get? k = store.get? k := Slot.get?_save_of_ne h a store

theorem load_save_self (a : Account) (store : Store) : load a.address (a.save store) = .ok a := by
  rw [load, save, Slot.load?_save]
  rfl

theorem key_ne_key {b : Address} (h : address ≠ b) : (slot address).key ≠ (slot b).key :=
  fun e => h (Place.accountKey_injective e)

theorem load_save_of_ne (h : address ≠ a.address) (store : Store) :
    load address (a.save store) = load address store := by
  rw [load, load, save, Slot.load?_congr (Slot.get?_save_of_ne (key_ne_key h) a store)]

theorem save_save {b : Account} (h : a.address = b.address) (store : Store) :
    a.save (b.save store) = a.save store := by
  rw [save, save, ← h, Slot.save_save, ← save]

theorem save_comm {b : Account} (h : a.address ≠ b.address) (store : Store) :
    a.save (b.save store) = b.save (a.save store) :=
  Slot.save_comm (key_ne_key h) a b store

/-! ### Steps on one account -/

theorem run_get (h : load address store = .ok a) : (get address).run store = (.ok a, store) := by
  rw [get, Action.run_read, h]
  rfl

theorem run_setBalance (h : load address store = .ok a) (balance : Word 256) :
    (setBalance address balance).run store =
      (.ok (), ({ a with balance := balance } : Account).save store) := by
  rw [setBalance, Action.run_bind_ok (run_get h), put, Action.run_write]

theorem run_debit (h : load address store = .ok a) {value balance : Word 256}
    (hb : a.balance.sub? value = some balance) :
    (debit address value).run store =
      (.ok (), ({ a with balance := balance } : Account).save store) := by
  rw [debit, Action.run_bind_ok (run_get h), hb]
  exact run_setBalance h balance

theorem run_credit (h : load address store = .ok a) {value balance : Word 256}
    (hb : a.balance.add? value = some balance) :
    (credit address value).run store =
      (.ok (), ({ a with balance := balance } : Account).save store) := by
  rw [credit, Action.run_bind_ok (run_get h), hb]
  exact run_setBalance h balance

theorem run_countUp (h : load address store = .ok a) {nonce : Word 64}
    (hn : Word.ofNat? (a.nonce.toNat + 1) = some nonce) :
    (countUp address).run store =
      (.ok nonce, ({ a with nonce := nonce } : Account).save store) := by
  rw [countUp, Action.run_bind_ok (run_get h), hn]
  rfl

end Account

/-! ### Transfers -/

namespace Transfer

variable {store : Store} {t : Transfer} {source target : Account} {nonce : Word 64}

/-- A transfer between two accounts leaves the sender with less and the recipient with more. -/
theorem run_apply_of_ne (hne : t.source ≠ t.target)
    (hsource : Account.load t.source store = .ok source) (hs : source.address = t.source)
    (htarget : Account.load t.target store = .ok target) (ht : target.address = t.target)
    {less more : Word 256} (hless : source.balance.sub? t.value = some less)
    (hmore : target.balance.add? t.value = some more)
    (hnonce : Word.ofNat? (source.nonce.toNat + 1) = some nonce) :
    t.apply.run store = (.ok (t.response nonce),
      ({ source with balance := less, nonce := nonce } : Account).save
        (({ target with balance := more } : Account).save store)) := by
  -- the sender after the debit, and the recipient after the credit
  let paid : Account := { source with balance := less }
  let paying : Account := { target with balance := more }
  have hpaid : paid.address = t.source := hs
  have hpaying : paying.address = t.target := ht
  have hdebit : (Account.debit t.source t.value).run store = (.ok (), paid.save store) :=
    Account.run_debit hsource hless
  have hread : Account.load t.target (paid.save store) = .ok target := by
    rw [Account.load_save_of_ne (by rw [hpaid]; exact hne.symm), htarget]
  have hcredit : (Account.credit t.target t.value).run (paid.save store) =
      (.ok (), paying.save (paid.save store)) := Account.run_credit hread hmore
  have hagain : Account.load t.source (paying.save (paid.save store)) = .ok paid := by
    rw [Account.load_save_of_ne (by rw [hpaying]; exact hne), ← hpaid, Account.load_save_self]
  have hmove : (move t.source t.target t.value).run store =
      (.ok (), paying.save (paid.save store)) := by
    rw [move, Action.run_bind_ok hdebit, hcredit]
  have hcomm : paying.save (paid.save store) = paid.save (paying.save store) :=
    Account.save_comm (by rw [hpaid, hpaying]; exact hne.symm) store
  rw [apply, Action.run_bind_ok hmove, Action.run_bind_ok (Account.run_countUp hagain hnonce),
    Action.run_pure, hcomm, Account.save_save (by exact rfl)]

/-- A transfer from an account to itself only counts. -/
theorem run_apply_self (heq : t.target = t.source)
    (hsource : Account.load t.source store = .ok source) (hs : source.address = t.source)
    (hvalue : t.value.toNat ≤ source.balance.toNat)
    (hnonce : Word.ofNat? (source.nonce.toNat + 1) = some nonce) :
    t.apply.run store =
      (.ok (t.response nonce), ({ source with nonce := nonce } : Account).save store) := by
  obtain ⟨less, hless⟩ := Word.exists_sub? hvalue
  let paid : Account := { source with balance := less }
  have hpaid : paid.address = t.source := hs
  have hdebit : (Account.debit t.source t.value).run store = (.ok (), paid.save store) :=
    Account.run_debit hsource hless
  have hread : Account.load t.source (paid.save store) = .ok paid := by
    rw [← hpaid, Account.load_save_self]
  -- the credit reads the account after the debit and so undoes it
  have hback : paid.balance.add? t.value = some source.balance :=
    Word.add?_eq_some_iff.mpr (Word.sub?_eq_some_iff.mp hless).symm
  have hcredit : (Account.credit t.source t.value).run (paid.save store) =
      (.ok (), source.save store) := by
    rw [Account.run_credit hread hback]
    exact congrArg (Prod.mk _) (Account.save_save (a := source) (b := paid) rfl store)
  have hmove : (move t.source t.source t.value).run store = (.ok (), source.save store) := by
    rw [move, Action.run_bind_ok hdebit, hcredit]
  have hagain : Account.load t.source (source.save store) = .ok source := by
    rw [← hs, Account.load_save_self]
  rw [apply, heq, Action.run_bind_ok hmove, Action.run_bind_ok (Account.run_countUp hagain hnonce),
    Action.run_pure, Account.save_save (by exact rfl)]

end Transfer
end Ledger
end RelayLedger
