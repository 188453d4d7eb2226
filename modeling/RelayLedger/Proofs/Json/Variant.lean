/-
# Alternatives are read back

A value with alternatives is written under the name of its own, and the name leads back to it since
no other alternative goes by it. So all that is asked of an alternative is that its fields are read
back and that they tell the value (`Case.Lawful`).

Key definitions: `Json.Case.Lawful`.
Key theorems: `Json.Case.find?_name`, `Json.Format.variants_lawful`.
-/
import RelayLedger.Proofs.Json.Record

namespace RelayLedger
namespace Json

open Format

variable {α β : Type} {levels : Nat}

namespace Case

/-- The fields of an alternative are read back, and a value that has them is the one that they
make. -/
structure Lawful (c : Case α) (levels : Nat) : Prop where
  fields : ∃ names, c.fields.Lawful names levels
  inject_of_project : ∀ a p, c.project a = some p → c.inject p = a

theorem ofFields_lawful {name : String} {names : List String} {fields : Fields β}
    {inject : β → α} {project : α → Option β} (hfields : fields.Lawful names levels)
    (h : ∀ a p, project a = some p → inject p = a) :
    (ofFields name fields inject project).Lawful levels :=
  ⟨⟨names, hfields⟩, h⟩

/-- A name that belongs to one alternative only leads to it. -/
theorem find?_name : ∀ {cases : List (Case α)} {c : Case α}, c ∈ cases →
    (cases.map (·.name)).Nodup → cases.find? (·.name = c.name) = some c
  | first :: rest, c, hmem, hnames => by
    rw [List.map_cons, List.nodup_cons] at hnames
    rcases List.mem_cons.mp hmem with rfl | hrest
    · exact List.find?_cons_of_pos (by simp)
    · have hne : first.name ≠ c.name := fun e =>
        hnames.1 (List.mem_map.mpr ⟨c, hrest, e.symm⟩)
      rw [List.find?_cons_of_neg (by simpa using hne), find?_name hrest hnames.2]

theorem readerOf_name {cases : List (Case α)} {c : Case α} (hmem : c ∈ cases)
    (hnames : (cases.map (·.name)).Nodup) : readerOf cases c.name = .ok c.read := by
  rw [readerOf, find?_name hmem hnames]

/-- What was written as one of the alternatives is read as that one. -/
theorem readAny_write? {cases : List (Case α)} {c : Case α} (hmem : c ∈ cases)
    (hlawful : c.Lawful levels) (hnames : (cases.map (·.name)).Nodup) {a : α} {text : Bytes}
    (hwrite : c.write? a = some text) {room : Nat} (hroom : levels + 2 ≤ room) (rest : Bytes) :
    readAny cases room (text ++ rest) = .ok (a, rest) := by
  obtain ⟨names, hfields⟩ := hlawful.fields
  obtain ⟨room, rfl⟩ : ∃ n, room = n + 1 := ⟨room - 1, by omega⟩
  obtain ⟨p, hproject, rfl⟩ := Option.map_eq_some_iff.mp hwrite
  have hclose : Stops (closeBrace :: rest) :=
    (by decide : Numeral.isDigit closeBrace = false)
  have hread : c.read room (c.fields.write p ++ closeBrace :: rest) = .ok (a, closeBrace :: rest) := by
    have hrecord := (record_lawful hfields).read_write p room (closeBrace :: rest) (by omega) hclose
    have hfieldsRead : c.fields.read room (c.fields.write p ++ closeBrace :: rest) =
        .ok (p, closeBrace :: rest) := hrecord
    rw [read, hfieldsRead, ← hlawful.inject_of_project a p hproject]
    rfl
  have htext : writeObject [(c.name, c.fields.write p)] ++ rest = openBrace ::
      (escape c.name ++ colon :: (c.fields.write p ++ closeBrace :: rest)) := by
    simp [writeObject, commaSeparated, writeEntry]
  rw [htext, readAny, skipBlank_cons (by decide)]
  simp only
  rw [if_pos trivial, readString_escape, ok_bind]
  simp only
  rw [readerOf_name hmem hnames, ok_bind, Fields.readColon_colon, ok_bind, hread, ok_bind]
  simp only
  rw [skipBlank_cons (by decide)]
  simp only
  rw [if_pos trivial]
  rfl

end Case

/-- Alternatives that have different names and each of which is read back. -/
theorem Format.variants_lawful {cases : List (Case α)} (hcases : ∀ c ∈ cases, c.Lawful levels)
    (hnames : (cases.map (·.name)).Nodup)
    (hall : ∀ a, (cases.findSome? (·.write? a)).isSome = true) :
    (variants cases).Lawful (levels + 2) where
  read_write a room rest hroom _ := by
    obtain ⟨text, htext⟩ := Option.isSome_iff_exists.mp (hall a)
    obtain ⟨c, hmem, hwrite⟩ := List.exists_of_findSome?_eq_some htext
    have hread := Case.readAny_write? hmem (hcases c hmem) hnames hwrite hroom rest
    simp only [variants, htext, Option.getD_some, hread]
  opens a := by
    obtain ⟨text, htext⟩ := Option.isSome_iff_exists.mp (hall a)
    obtain ⟨c, -, hwrite⟩ := List.exists_of_findSome?_eq_some htext
    obtain ⟨p, -, rfl⟩ := Option.map_eq_some_iff.mp hwrite
    simp only [variants, htext, Option.getD_some]
    exact ⟨by decide, by decide, by decide⟩

end Json
end RelayLedger
