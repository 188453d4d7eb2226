/-
# Accounts among the entries of a store

The key of an account is the beginning that all accounts share, followed by the bytes of its
address; no other place of a ledger has a key like that. So the accounts are told from the other
entries by their keys alone, and each entry gives back the address that it is kept under.

Key theorems: `Ledger.Account.member?_key`, `Ledger.Place.member?_key`,
`Ledger.Tidy.exists_account_of_member`.
-/
import RelayLedger.Ledger.Listing
import RelayLedger.Proofs.Ledger.Reachable

namespace RelayLedger
namespace Ledger

theorem Account.family_append (address : Address) :
    Account.family ++ address.bytes = (Account.slot address).key := by
  simp [Account.family, Account.slot, Store.key]

theorem Account.member?_key (address : Address) :
    Account.member? (Account.slot address).key = some address.bytes := by
  rw [← Account.family_append, Account.member?, if_pos (by simp), List.drop_left]

/-- No other key looks like that of an account. -/
theorem Place.member?_key {p : Place} (h : ∀ address, p ≠ .account address) :
    Account.member? p.key = none := by
  rw [Account.member?, if_neg]
  intro hmember
  obtain ⟨rest, hrest⟩ := List.isPrefixOf_iff_prefix.mp hmember
  have htag : p.tag = [0, 8, 97, 99] := by
    rw [← Place.take_key, ← hrest, Account.family, utf8_accounts]
    rfl
  cases p with
  | account address => exact h address rfl
  | _ => simp [Place.tag] at htag

theorem Account.readEntry_encode (a : Account) :
    Account.readEntry (a.address.bytes, Json.encode a) = .ok (a.address, a) := by
  simp only [Account.readEntry, Fixed.ofBytes, dif_pos a.address.length_eq, Json.decodeAs_encode]
  rfl

/-- Whatever is kept among the accounts of a tidy store is an account, under its own address. -/
theorem Tidy.exists_account_of_member {store : Store} (h : Tidy store) {k s rest : Bytes}
    (hget : store.get? k = some s) (hmember : Account.member? k = some rest) :
    ∃ a : Account, rest = a.address.bytes ∧ s = Json.encode a := by
  obtain ⟨p, rfl, hfits⟩ := h k s hget
  by_cases hp : ∃ address, p = .account address
  · obtain ⟨address, rfl⟩ := hp
    obtain ⟨a, rfl, rfl⟩ := hfits
    have hbytes : some rest = some a.address.bytes :=
      hmember.symm.trans (Account.member?_key a.address)
    exact ⟨a, Option.some.inj hbytes, rfl⟩
  · have hnone := Place.member?_key fun address e => hp ⟨address, e⟩
    rw [hnone] at hmember
    cases hmember

end Ledger
end RelayLedger
