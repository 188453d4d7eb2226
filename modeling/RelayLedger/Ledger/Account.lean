/-
# Accounts

An account has a balance and counts the transactions sent from it. One that holds code is a
contract; its code can be looked at but never runs. An address without an account reads as an
account with nothing in it.

Key definitions: `Ledger.Account`, `Ledger.Account.IsContract`, `Ledger.AccountSummary`.
-/
import RelayLedger.Contract

namespace RelayLedger
namespace Ledger

/-- An account of the ledger. -/
structure Account where
  address : Address
  nonce : Word 64
  balance : Word 256
  code : Bytes
  deriving DecidableEq

namespace Account

/-- An account with nothing in it. -/
def vacant (address : Address) : Account := ⟨address, 0, 0, []⟩

/-- An account with code is a contract. -/
def IsContract (a : Account) : Prop := a.code ≠ []

instance (a : Account) : Decidable a.IsContract := inferInstanceAs (Decidable (_ ≠ _))

/-- Where an account is kept. -/
def slot (address : Address) : Slot Account := ⟨Store.key [utf8 "accounts", address.bytes]⟩

end Account

open Json in
instance : Wire Account where
  typeName := "terranova_rs::terranova::EvmAccount"
  format := .record <|
    (Fields.cons "address" (.fixed .address) <| .cons "nonce" (.word 64) <|
      .cons "balance" (.numeral 256) <| .cons "code" .base64 .empty).renamed
      (fun (address, nonce, balance, code, _) => ⟨address, nonce, balance, code⟩)
      (fun a => (a.address, a.nonce, a.balance, a.code, ()))

/-- What is told of an account: not the code, but how long it is. -/
structure AccountSummary where
  address : Address
  nonce : Word 64
  balance : Word 256
  isContract : Bool
  codeSize : Word 64
  deriving DecidableEq

/-- What is told of an account. -/
def Account.summary (a : Account) : AccountSummary :=
  ⟨a.address, a.nonce, a.balance, decide a.IsContract, .truncate a.code.length⟩

open Json in
instance : Wire AccountSummary where
  typeName := "terranova_rs::terranova::EvmAccountResponse"
  format := .record <|
    (Fields.cons "address" (.fixed .address) <| .cons "nonce" (.word 64) <|
      .cons "balance" (.numeral 256) <| .cons "is_contract" .bool <|
      .cons "code_size" (.word 64) .empty).renamed
      (fun (address, nonce, balance, isContract, codeSize, _) =>
        ⟨address, nonce, balance, isContract, codeSize⟩)
      (fun a => (a.address, a.nonce, a.balance, a.isContract, a.codeSize, ()))

end Ledger
end RelayLedger
