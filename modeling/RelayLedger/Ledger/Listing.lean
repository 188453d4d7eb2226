/-
# Listing the accounts

All accounts of a store in the order of their addresses, up or down, between a least address and
one to stop before. A key of the family that is no address, or an account that cannot be read, is
met at its place in the order and ends the listing.

Key definitions: `Ledger.Account.listing`.
-/
import RelayLedger.Ledger.Account

namespace RelayLedger
namespace Ledger
namespace Account

/-- What all keys of accounts start with. -/
def family : Bytes := Store.key [utf8 "accounts", []]

/-- The rest of a key after the family's beginning. -/
def member? (key : Bytes) : Option Bytes :=
  if family.isPrefixOf key then some (key.drop family.length) else none

/-- Whether the rest of a key is not before the least address and before the one to stop at. -/
def within (least stop : Option Address) (s : Bytes) : Bool :=
  (least.all fun a => !Bytes.before s a.bytes) && (stop.all fun a => Bytes.before s a.bytes)

/-- Reads one entry: first the address, then the account. -/
def readEntry (entry : Bytes × Bytes) : Except Fault (Address × Account) := do
  let address ← (Fixed.ofBytes .address entry.1).mapError .fixed
  let account ← Json.decodeAs Account entry.2
  return (address, account)

/-- The accounts between two addresses in order. -/
def listing (least stop : Option Address) (descending : Bool) (store : Store) :
    Except Fault (List (Address × Account)) :=
  let entries := store.toList.filterMap fun (key, value) =>
    (member? key).bind fun s => if within least stop s then some (s, value) else none
  (if descending then entries.reverse else entries).mapM readEntry

end Account
end Ledger
end RelayLedger
