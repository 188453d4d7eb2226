/-
# Messages to a counter are read back

A count is written with a sign only if it is below zero, and what is read back fits into its bits
since the count did. All messages to a counter and what it keeps are made up of counts.

Key theorems: `Counter.Count.format_lawful`, `Counter.Command.cases_lawful`.
-/
import RelayLedger.Counter.Message
import RelayLedger.Proofs.Json.Variant

namespace RelayLedger
namespace Counter

open Json

theorem Count.ofInt?_toInt (c : Count) : Count.ofInt? c.toInt = some c :=
  dif_pos ⟨c.le_toInt, c.toInt_lt⟩

theorem Count.format_lawful {levels : Nat} : Count.format.Lawful levels where
  read_write c _ rest _ hrest := by
    have hread : readInt (utf8 (toString c) ++ rest) = .ok (c.toInt, rest) :=
      readInt_toString c.toInt hrest
    simp only [format, hread, ok_bind, c.ofInt?_toInt]
    rfl
  opens c := toString_int_opens c.toInt

instance : Lossless Setup :=
  ⟨Format.record_lawful <| Fields.renamed_lawful
    (Fields.cons_lawful Count.format_lawful Fields.empty_lawful (by simp)) fun _ => rfl⟩

theorem Command.cases_lawful : ∀ c ∈ Command.cases, c.Lawful 125 := by
  simp only [Command.cases, List.forall_mem_cons]
  refine ⟨?increment, ?reset, nofun⟩
  case increment =>
    refine Case.ofFields_lawful Fields.empty_lawful ?_
    rintro (_ | _) p h <;> cases h
    rfl
  case reset =>
    refine Case.ofFields_lawful
      (Fields.cons_lawful Count.format_lawful Fields.empty_lawful (by simp)) ?_
    rintro (_ | _) p h <;> cases h
    rfl

instance : Lossless Command :=
  ⟨Format.variants_lawful Command.cases_lawful (by decide) fun c => by cases c <;> rfl⟩

theorem Query.cases_lawful : ∀ c ∈ Query.cases, c.Lawful 125 := by
  simp only [Query.cases, List.forall_mem_cons]
  refine ⟨?count, nofun⟩
  case count =>
    refine Case.ofFields_lawful Fields.empty_lawful ?_
    rintro ⟨⟩ p h
    rfl

instance : Lossless Query :=
  ⟨Format.variants_lawful Query.cases_lawful (by decide) fun q => by cases q; rfl⟩

instance : Lossless Reading :=
  ⟨Format.record_lawful <| Fields.renamed_lawful
    (Fields.cons_lawful Count.format_lawful Fields.empty_lawful (by simp)) fun _ => rfl⟩

instance : Lossless State :=
  ⟨Format.record_lawful <| Fields.renamed_lawful
    (Fields.cons_lawful Count.format_lawful
      (Fields.cons_lawful Format.chainAddress_lawful Fields.empty_lawful (by simp)) (by decide))
    fun _ => rfl⟩

end Counter
end RelayLedger
