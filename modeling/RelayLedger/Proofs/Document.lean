/-
# Everything that is kept or sent is read back

`Document` names the types whose values stand in a store or go over the wire as JSON texts. Whatever
the value, its text is read as that value again, so a text stands for one value of its type at most.

Key definitions: `Document`, `Document.Value`.
Key theorems: `documents_read_back`.
-/
import RelayLedger.Deployment
import RelayLedger.Proofs.Counter.Message
import RelayLedger.Proofs.Ledger.Message
import RelayLedger.Proofs.Ledger.Place

namespace RelayLedger

open Json

/-! ### Of clients and deployers -/

instance (kind : FixedKind) : Lossless (Fixed kind) := ⟨Format.fixed_lawful⟩

theorem Wallet.fields_lawful {levels : Nat} :
    Wallet.fields.Lawful ["name", "address"] levels :=
  Fields.renamed_lawful
    (Fields.cons_lawful Format.text_lawful
      (Fields.cons_lawful Format.chainAddress_lawful Fields.empty_lawful (by simp)) (by decide))
    fun _ => rfl

instance : Lossless Wallet := ⟨Format.record_lawful Wallet.fields_lawful⟩

instance : Lossless Wallets :=
  ⟨Format.record_lawful <| Fields.renamed_lawful
    (Fields.cons_lawful (Format.record_lawful Wallet.fields_lawful)
      (Fields.cons_lawful (Format.map_lawful (Format.record_lawful Wallet.fields_lawful))
        Fields.empty_lawful (by simp)) (by decide))
    fun _ => rfl⟩

instance : Lossless References :=
  ⟨Format.record_lawful <| Fields.renamed_lawful
    (Fields.cons_lawful (Format.map_lawful Format.chainAddress_lawful) Fields.empty_lawful
      (by simp))
    fun _ => rfl⟩

instance : Lossless ContractNames :=
  ⟨Format.record_lawful <| Fields.renamed_lawful
    (Fields.cons_lawful (Format.withDefault_lawful Format.text_lawful _)
      (Fields.cons_lawful (Format.withDefault_lawful Format.text_lawful _) Fields.empty_lawful
        (by simp)) (by decide))
    fun _ => rfl⟩

instance : Lossless Artifact :=
  ⟨Format.record_lawful <| Fields.renamed_lawful
    (Fields.cons_lawful Format.text_lawful
      (Fields.cons_lawful Format.base64_lawful Fields.empty_lawful (by simp)) (by decide))
    fun _ => rfl⟩

/-! ### Documents -/

/-- The types whose values are kept or sent as JSON texts. -/
inductive Document
  | ledgerSetup
  | ledgerChange
  | ledgerCommand
  | ledgerQuery
  | config
  | account
  | accountSummary
  | dryRun
  | notice
  | counterSetup
  | counterCommand
  | counterQuery
  | reading
  | counterState
  | wallet
  | wallets
  | references
  | contractNames
  | artifact
  | version
  | identifier (kind : FixedKind)
  | bytes

namespace Document

/-- The values of a type. -/
def Value : Document → Type
  | .ledgerSetup => Ledger.Setup
  | .ledgerChange => Ledger.Change
  | .ledgerCommand => Ledger.Command
  | .ledgerQuery => Ledger.Query
  | .config => Ledger.Config
  | .account => Ledger.Account
  | .accountSummary => Ledger.AccountSummary
  | .dryRun => Ledger.DryRun
  | .notice => Ledger.Notice
  | .counterSetup => Counter.Setup
  | .counterCommand => Counter.Command
  | .counterQuery => Counter.Query
  | .reading => Counter.Reading
  | .counterState => Counter.State
  | .wallet => Wallet
  | .wallets => Wallets
  | .references => References
  | .contractNames => ContractNames
  | .artifact => Artifact
  | .version => Version
  | .identifier kind => Fixed kind
  | .bytes => Bytes

instance (d : Document) : Wire d.Value :=
  match d with
  | .ledgerSetup => inferInstanceAs (Wire Ledger.Setup)
  | .ledgerChange => inferInstanceAs (Wire Ledger.Change)
  | .ledgerCommand => inferInstanceAs (Wire Ledger.Command)
  | .ledgerQuery => inferInstanceAs (Wire Ledger.Query)
  | .config => inferInstanceAs (Wire Ledger.Config)
  | .account => inferInstanceAs (Wire Ledger.Account)
  | .accountSummary => inferInstanceAs (Wire Ledger.AccountSummary)
  | .dryRun => inferInstanceAs (Wire Ledger.DryRun)
  | .notice => inferInstanceAs (Wire Ledger.Notice)
  | .counterSetup => inferInstanceAs (Wire Counter.Setup)
  | .counterCommand => inferInstanceAs (Wire Counter.Command)
  | .counterQuery => inferInstanceAs (Wire Counter.Query)
  | .reading => inferInstanceAs (Wire Counter.Reading)
  | .counterState => inferInstanceAs (Wire Counter.State)
  | .wallet => inferInstanceAs (Wire Wallet)
  | .wallets => inferInstanceAs (Wire Wallets)
  | .references => inferInstanceAs (Wire References)
  | .contractNames => inferInstanceAs (Wire ContractNames)
  | .artifact => inferInstanceAs (Wire Artifact)
  | .version => inferInstanceAs (Wire Version)
  | .identifier kind => inferInstanceAs (Wire (Fixed kind))
  | .bytes => inferInstanceAs (Wire Bytes)

instance (d : Document) : Lossless d.Value :=
  match d with
  | .ledgerSetup => inferInstanceAs (Lossless Ledger.Setup)
  | .ledgerChange => inferInstanceAs (Lossless Ledger.Change)
  | .ledgerCommand => inferInstanceAs (Lossless Ledger.Command)
  | .ledgerQuery => inferInstanceAs (Lossless Ledger.Query)
  | .config => inferInstanceAs (Lossless Ledger.Config)
  | .account => inferInstanceAs (Lossless Ledger.Account)
  | .accountSummary => inferInstanceAs (Lossless Ledger.AccountSummary)
  | .dryRun => inferInstanceAs (Lossless Ledger.DryRun)
  | .notice => inferInstanceAs (Lossless Ledger.Notice)
  | .counterSetup => inferInstanceAs (Lossless Counter.Setup)
  | .counterCommand => inferInstanceAs (Lossless Counter.Command)
  | .counterQuery => inferInstanceAs (Lossless Counter.Query)
  | .reading => inferInstanceAs (Lossless Counter.Reading)
  | .counterState => inferInstanceAs (Lossless Counter.State)
  | .wallet => inferInstanceAs (Lossless Wallet)
  | .wallets => inferInstanceAs (Lossless Wallets)
  | .references => inferInstanceAs (Lossless References)
  | .contractNames => inferInstanceAs (Lossless ContractNames)
  | .artifact => inferInstanceAs (Lossless Artifact)
  | .version => inferInstanceAs (Lossless Version)
  | .identifier kind => inferInstanceAs (Lossless (Fixed kind))
  | .bytes => inferInstanceAs (Lossless Bytes)

end Document

/-- The text of a value is read as that value, and no other value of its type has the same text. -/
theorem documents_read_back (d : Document) :
    (∀ v : d.Value, decodeAs d.Value (encode v) = .ok v) ∧
      Function.Injective (encode : d.Value → Bytes) :=
  ⟨decodeAs_encode, fun _ _ => encode_injective⟩

end RelayLedger
