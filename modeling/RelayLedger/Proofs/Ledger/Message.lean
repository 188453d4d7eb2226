/-
# Messages are read back

What is sent to a ledger as JSON text, a command or a query, is read as what was written: its
alternatives have different names, and each of them different fields. So is what starts or changes
a ledger, and what a ledger gives notice of.

Key theorems: `Ledger.Command.cases_lawful`, `Ledger.Query.cases_lawful`,
`Ledger.Notice.cases_lawful`.
-/
import RelayLedger.Ledger.Message
import RelayLedger.Ledger.Notice
import RelayLedger.Proofs.Json.Variant

namespace RelayLedger
namespace Ledger

open Json

/-! ### Settings -/

instance : Lossless Setup :=
  ⟨Format.record_lawful <| Fields.renamed_lawful
    (Fields.cons_lawful (Format.list_lawful Format.chainAddress_lawful)
      (Fields.cons_lawful Format.option_chainAddress_lawful
        (Fields.cons_lawful Format.option_word_lawful Fields.empty_lawful (by simp)) (by decide))
      (by decide))
    fun _ => rfl⟩

instance : Lossless Change :=
  ⟨Format.record_lawful <| Fields.renamed_lawful
    (Fields.cons_lawful Format.option_chainAddress_lawful
      (Fields.cons_lawful Format.option_word_lawful Fields.empty_lawful (by simp)) (by decide))
    fun _ => rfl⟩

/-! ### Commands -/

theorem Command.cases_lawful : ∀ c ∈ Command.cases, c.Lawful 125 := by
  simp only [Command.cases, List.forall_mem_cons]
  refine ⟨?createAccount, ?relay, ?storeChunk, ?relayChunks, ?airdrop, ?updateOperators, nofun⟩
  case createAccount =>
    refine Case.ofFields_lawful (Fields.cons_lawful Format.fixed_lawful
      (Fields.cons_lawful Format.base64_lawful Fields.empty_lawful (by simp)) (by decide)) ?_
    rintro (_ | _) p h <;> cases h
    rfl
  case relay =>
    refine Case.ofFields_lawful (Fields.cons_lawful Format.fixed_lawful
      (Fields.cons_lawful Format.base64_lawful Fields.empty_lawful (by simp)) (by decide)) ?_
    rintro (_ | _) p h <;> cases h
    rfl
  case storeChunk =>
    refine Case.ofFields_lawful (Fields.cons_lawful Format.fixed_lawful
      (Fields.cons_lawful Format.fixed_lawful
        (Fields.cons_lawful Format.word_lawful
          (Fields.cons_lawful Format.base64_lawful Fields.empty_lawful (by simp)) (by decide))
        (by decide)) (by decide)) ?_
    rintro (_ | _) p h <;> cases h
    rfl
  case relayChunks =>
    refine Case.ofFields_lawful (Fields.cons_lawful Format.fixed_lawful
      (Fields.cons_lawful Format.fixed_lawful
        (Fields.cons_lawful Format.word_lawful Fields.empty_lawful (by simp)) (by decide))
      (by decide)) ?_
    rintro (_ | _) p h <;> cases h
    rfl
  case airdrop =>
    refine Case.ofFields_lawful (Fields.cons_lawful Format.fixed_lawful
      (Fields.cons_lawful Format.numeral_lawful Fields.empty_lawful (by simp)) (by decide)) ?_
    rintro (_ | _) p h <;> cases h
    rfl
  case updateOperators =>
    have hlist : (Format.list .chainAddress).Lawful 125 :=
      Format.list_lawful Format.chainAddress_lawful
    refine Case.ofFields_lawful (Fields.cons_lawful hlist
      (Fields.cons_lawful hlist Fields.empty_lawful (by simp)) (by decide)) ?_
    rintro (_ | _) p h <;> cases h
    rfl

instance : Lossless Command :=
  ⟨Format.variants_lawful Command.cases_lawful (by decide) fun c => by cases c <;> rfl⟩

/-! ### Queries and answers -/

theorem Query.cases_lawful : ∀ c ∈ Query.cases, c.Lawful 125 := by
  simp only [Query.cases, List.forall_mem_cons]
  refine ⟨?config, ?account, ?code, ?chunk, ?dryRun, nofun⟩
  case config =>
    refine Case.ofFields_lawful Fields.empty_lawful ?_
    rintro (_ | _) p h <;> cases h
    rfl
  case account =>
    refine Case.ofFields_lawful
      (Fields.cons_lawful Format.fixed_lawful Fields.empty_lawful (by simp)) ?_
    rintro (_ | _) p h <;> cases h
    rfl
  case code =>
    refine Case.ofFields_lawful
      (Fields.cons_lawful Format.fixed_lawful Fields.empty_lawful (by simp)) ?_
    rintro (_ | _) p h <;> cases h
    rfl
  case chunk =>
    refine Case.ofFields_lawful (Fields.cons_lawful Format.fixed_lawful
      (Fields.cons_lawful Format.fixed_lawful
        (Fields.cons_lawful Format.word_lawful Fields.empty_lawful (by simp)) (by decide))
      (by decide)) ?_
    rintro (_ | _) p h <;> cases h
    rfl
  case dryRun =>
    refine Case.ofFields_lawful (Fields.cons_lawful Format.fixed_lawful
      (Fields.cons_lawful Format.base64_lawful Fields.empty_lawful (by simp)) (by decide)) ?_
    rintro (_ | _) p h <;> cases h
    rfl

instance : Lossless Query :=
  ⟨Format.variants_lawful Query.cases_lawful (by decide) fun q => by cases q <;> rfl⟩

instance : Lossless DryRun :=
  ⟨Format.record_lawful <| Fields.renamed_lawful
    (Fields.cons_lawful Format.base64_lawful Fields.empty_lawful (by simp)) fun _ => rfl⟩

/-! ### Notices -/

theorem Notice.cases_lawful : ∀ c ∈ Notice.cases, c.Lawful 125 := by
  simp only [Notice.cases, List.forall_mem_cons]
  refine ⟨?accountCreated, ?transactionExecuted, ?chunkStored, ?chunksAssembled,
    ?balanceAirdropped, ?operatorsUpdated, nofun⟩
  case accountCreated =>
    refine Case.ofFields_lawful (Fields.cons_lawful Format.fixed_lawful
      (Fields.cons_lawful Format.bool_lawful Fields.empty_lawful (by simp)) (by decide)) ?_
    rintro (_ | _) p h <;> cases h
    rfl
  case transactionExecuted =>
    refine Case.ofFields_lawful (Fields.cons_lawful Format.fixed_lawful
      (Fields.cons_lawful Format.fixed_lawful
        (Fields.cons_lawful Format.numeral_lawful
          (Fields.cons_lawful Format.word_lawful Fields.empty_lawful (by simp)) (by decide))
        (by decide)) (by decide)) ?_
    rintro (_ | _) p h <;> cases h
    rfl
  case chunkStored =>
    refine Case.ofFields_lawful (Fields.cons_lawful Format.fixed_lawful
      (Fields.cons_lawful Format.fixed_lawful
        (Fields.cons_lawful Format.word_lawful Fields.empty_lawful (by simp)) (by decide))
      (by decide)) ?_
    rintro (_ | _) p h <;> cases h
    rfl
  case chunksAssembled =>
    refine Case.ofFields_lawful (Fields.cons_lawful Format.fixed_lawful
      (Fields.cons_lawful Format.fixed_lawful
        (Fields.cons_lawful Format.word_lawful
          (Fields.cons_lawful Format.word_lawful Fields.empty_lawful (by simp)) (by decide))
        (by decide)) (by decide)) ?_
    rintro (_ | _) p h <;> cases h
    rfl
  case balanceAirdropped =>
    refine Case.ofFields_lawful (Fields.cons_lawful Format.fixed_lawful
      (Fields.cons_lawful Format.numeral_lawful Fields.empty_lawful (by simp)) (by decide)) ?_
    rintro (_ | _) p h <;> cases h
    rfl
  case operatorsUpdated =>
    refine Case.ofFields_lawful (Fields.cons_lawful
      (Format.list_lawful Format.chainAddress_lawful) Fields.empty_lawful (by simp)) ?_
    rintro (_ | _) p h <;> cases h
    rfl

instance : Lossless Notice :=
  ⟨Format.variants_lawful Notice.cases_lawful (by decide) fun n => by cases n <;> rfl⟩

end Ledger
end RelayLedger
