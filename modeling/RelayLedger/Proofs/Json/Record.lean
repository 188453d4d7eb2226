/-
# Objects are read back

The entries of an object are read in the order in which they were written, each with its own key,
so what matters is where every entry leads (`Passes`). A field leads to the state in which its value
is known and changes nothing for the fields behind it, whose names are others. An entry of a map
leads to the map with that entry put in.

Key definitions: `Json.Passes`, `Json.Fields.Lawful`, `Json.Lossless`.
Key theorems: `Json.Fields.cons_lawful`, `Json.Format.record_lawful`, `Json.Format.map_lawful`,
`Json.decodeAs_encode`.
-/
import RelayLedger.Proofs.Json.Lawful
import RelayLedger.Proofs.OrderedMap

namespace RelayLedger
namespace Json

open Format

variable {α β σ : Type}

/-! ### Entries -/

/-- Reading these entries leads from the first state to the last. -/
inductive Passes (entry : String → σ → Bytes → Except Reason (σ × Bytes)) :
    σ → List (String × Bytes) → σ → Prop
  | nil {s : σ} : Passes entry s [] s
  | cons {s t u : σ} {key : String} {value : Bytes} {l : List (String × Bytes)} :
    (∀ rest : Bytes, Stops rest → entry key s (colon :: (value ++ rest)) = .ok (t, rest)) →
    Passes entry t l u → Passes entry s ((key, value) :: l) u

/-- The entries of an object, written. -/
def entryTexts (l : List (String × Bytes)) : List Bytes :=
  l.map fun (key, value) => writeEntry key value

theorem entryTexts_cons (key : String) (value : Bytes) (l : List (String × Bytes)) :
    entryTexts ((key, value) :: l) = writeEntry key value :: entryTexts l := rfl

variable {entry : String → σ → Bytes → Except Reason (σ × Bytes)}

/-- An entry is read where its key starts; the entries behind it follow. -/
theorem read_entry {s t u : σ} {key : String} {value : Bytes} {l : List (String × Bytes)}
    {rest : Bytes} {fuel : Nat}
    (hentry : ∀ rest : Bytes, Stops rest → entry key s (colon :: (value ++ rest)) = .ok (t, rest))
    (ih : entries entry fuel false t (behind closeBrace (entryTexts l) rest) = .ok (u, rest)) :
    (do
      let (key, s') ← readString (writeEntry key value ++ behind closeBrace (entryTexts l) rest)
      let (state, s') ← entry key s s'
      entries entry fuel false state s') = .ok (u, rest) := by
  have hstops := stops_behind (by decide : Numeral.isDigit closeBrace = false) (entryTexts l) rest
  rw [writeEntry, List.append_assoc, readString_escape, ok_bind]
  simp only
  rw [List.cons_append, hentry _ hstops, ok_bind]
  exact ih

theorem entries_close (s : σ) (fuel : Nat) (first : Bool) (rest : Bytes) :
    entries entry (fuel + 1) first s (closeBrace :: rest) = .ok (s, rest) := by
  rw [entries, skipBlank_cons (by decide)]
  simp only
  rw [if_pos trivial]

/-- A key starts with a quote. -/
theorem exists_writeEntry (key : String) (value : Bytes) :
    ∃ t, writeEntry key value = quoteByte :: t := ⟨_, rfl⟩

/-- The entries after the first are read. -/
theorem entries_behind {s t : σ} {l : List (String × Bytes)} (h : Passes entry s l t)
    (rest : Bytes) : ∀ {fuel : Nat}, (behind closeBrace (entryTexts l) rest).length < fuel →
    entries entry fuel false s (behind closeBrace (entryTexts l) rest) = .ok (t, rest) := by
  induction h with
  | @nil s =>
    intro fuel hfuel
    obtain ⟨fuel, rfl⟩ : ∃ n, fuel = n + 1 := ⟨fuel - 1, by omega⟩
    exact entries_close s fuel false rest
  | @cons s t u key value l hentry _ ih =>
    intro fuel hfuel
    obtain ⟨fuel, rfl⟩ : ∃ n, fuel = n + 1 := ⟨fuel - 1, by omega⟩
    obtain ⟨k, hk⟩ := exists_writeEntry key value
    rw [entryTexts_cons, behind_cons] at hfuel ⊢
    have hlen : (behind closeBrace (entryTexts l) rest).length < fuel := by
      rw [List.length_cons, List.length_append] at hfuel
      omega
    have hstart : keyStart false comma
        (writeEntry key value ++ behind closeBrace (entryTexts l) rest) =
        .ok (writeEntry key value ++ behind closeBrace (entryTexts l) rest) := by
      rw [hk, List.cons_append, keyStart, if_neg Bool.false_ne_true, if_pos rfl,
        skipBlank_cons (by decide)]
      rfl
    rw [entries, skipBlank_cons (by decide)]
    simp only
    rw [if_neg (by decide), hstart]
    exact read_entry hentry (ih hlen)

theorem entries_written {s t : σ} {l : List (String × Bytes)} (h : Passes entry s l t)
    (rest : Bytes) {fuel : Nat}
    (hfuel : (commaSeparated (entryTexts l) ++ closeBrace :: rest).length < fuel) :
    entries entry fuel true s (commaSeparated (entryTexts l) ++ closeBrace :: rest) =
      .ok (t, rest) := by
  obtain ⟨fuel, rfl⟩ : ∃ n, fuel = n + 1 := ⟨fuel - 1, by omega⟩
  cases h with
  | nil => exact entries_close s fuel true rest
  | @cons _ t _ key value l hentry htail =>
    obtain ⟨k, hk⟩ := exists_writeEntry key value
    rw [entryTexts_cons, commaSeparated_cons_append] at hfuel ⊢
    have hlen : (behind closeBrace (entryTexts l) rest).length < fuel := by
      rw [hk, List.length_append, List.length_cons] at hfuel
      omega
    have hread := read_entry hentry (entries_behind htail rest hlen)
    rw [hk, List.cons_append] at hread ⊢
    rw [entries, skipBlank_cons (by decide)]
    simp only
    rw [if_neg (by decide), keyStart, if_pos rfl]
    exact hread

/-- An object is read back from the entries that were written. -/
theorem readObject_writeObject {entry : Nat → String → σ → Bytes → Except Reason (σ × Bytes)}
    {s t : σ} {l : List (String × Bytes)} {room : Nat} (h : Passes (entry room) s l t)
    (rest : Bytes) :
    readObject s entry (room + 1) (writeObject l ++ rest) = .ok (t, rest) := by
  simp only [writeObject, List.cons_append, List.append_assoc, List.nil_append]
  rw [readObject, skipBlank_cons (by decide)]
  simp only
  rw [if_pos trivial]
  exact entries_written h rest (Nat.lt_succ_self _)

/-! ### Fields -/

namespace Fields

variable {levels : Nat}

/-- The fields go by these names, and reading their texts leads to the value. -/
structure Lawful (f : Fields α) (names : List String) (levels : Nat) : Prop where
  keys : ∀ a : α, (f.texts a).map Prod.fst = names
  passes : ∀ (a : α) (room : Nat), levels ≤ room →
    ∃ slots, Passes (f.entry room) f.vacant (f.texts a) slots ∧ f.finish slots = .ok a

theorem empty_lawful : Fields.empty.Lawful [] levels where
  keys _ := rfl
  passes _ _ _ := ⟨(), .nil, rfl⟩

theorem readColon_colon (s : Bytes) : readColon (colon :: s) = .ok s := by
  rw [readColon, skipBlank_cons (by decide)]
  simp only
  rw [if_pos trivial]

/-- Under its own name a field that is not yet known is read. -/
theorem entry_cons_self {name : String} {f : Format α} {rest : Fields β} (hf : f.Lawful levels)
    {room : Nat} (hroom : levels ≤ room) (a : α) (others : rest.Slots) (after : Bytes)
    (hafter : Stops after) :
    (cons name f rest).entry room name (none, others) (colon :: (f.write a ++ after)) =
      .ok ((some a, others), after) := by
  simp only [entry, cons, if_true, Option.isSome_none, Bool.false_eq_true, if_false, ok_bind,
    readColon_colon, hf.read_write a room after hroom hafter]
  rfl

/-- Under another name the fields behind it are asked. -/
theorem entry_cons_of_ne {name key : String} {f : Format α} {rest : Fields β} (h : key ≠ name)
    (room : Nat) (known : Option α) (others : rest.Slots) (s : Bytes) :
    (cons name f rest).entry room key (known, others) s =
      (rest.entry room key others s).map fun (others, after) => ((known, others), after) := by
  simp only [entry, cons, if_neg h]
  cases rest.slot? key others with
  | none =>
    simp only [Option.map_none]
    cases readColon s with
    | error e => rfl
    | ok t =>
      simp only [ok_bind]
      cases skipValue room t <;> rfl
  | some step =>
    cases step with
    | error e => rfl
    | ok read =>
      cases hcolon : readColon s with
      | error e =>
        simp only [Option.map_some, Except.map, ok_bind, error_bind]
      | ok t =>
        simp only [Option.map_some, Except.map, ok_bind]
        cases read room t <;> rfl

theorem passes_cons_of_ne {name : String} {f : Format α} {rest : Fields β} {room : Nat}
    (known : Option α) {others others' : rest.Slots} {l : List (String × Bytes)}
    (h : Passes (rest.entry room) others l others') (hne : name ∉ l.map Prod.fst) :
    Passes ((cons name f rest).entry room) (known, others) l (known, others') := by
  induction h with
  | nil => exact .nil
  | @cons s t u key value l hentry _ ih =>
    rw [List.map_cons, List.mem_cons, not_or] at hne
    refine .cons (t := (known, t)) (fun after hafter => ?_) (ih hne.2)
    rw [entry_cons_of_ne (Ne.symm hne.1), hentry after hafter]
    rfl

theorem cons_lawful {name : String} {names : List String} {f : Format α} {rest : Fields β}
    (hf : f.Lawful levels) (hrest : rest.Lawful names levels) (hname : name ∉ names) :
    (cons name f rest).Lawful (name :: names) levels where
  keys p := by
    rw [cons, List.map_cons, hrest.keys]
  passes p room hroom := by
    obtain ⟨slots, hpasses, hfinish⟩ := hrest.passes p.2 room hroom
    refine ⟨(some p.1, slots), .cons (t := (some p.1, rest.vacant)) (fun after hafter => ?_) ?_, ?_⟩
    · exact entry_cons_self hf hroom p.1 rest.vacant after hafter
    · exact passes_cons_of_ne (some p.1) hpasses (by rw [hrest.keys]; exact hname)
    · show (rest.finish slots >>= fun b => .ok (p.1, b)) = _
      rw [hfinish]
      rfl

theorem entry_renamed (f : Fields α) (make : α → β) (parts : β → α) (room : Nat) (key : String)
    (slots : f.Slots) (s : Bytes) :
    (f.renamed make parts).entry room key slots s = f.entry room key slots s := by
  simp only [entry, renamed]
  cases f.slot? key slots <;> rfl

theorem renamed_lawful {names : List String} {f : Fields α} {make : α → β} {parts : β → α}
    (hf : f.Lawful names levels) (h : ∀ b, make (parts b) = b) :
    (f.renamed make parts).Lawful names levels where
  keys b := hf.keys (parts b)
  passes b room hroom := by
    obtain ⟨slots, hpasses, hfinish⟩ := hf.passes (parts b) room hroom
    have hentry : (f.renamed make parts).entry room = f.entry room := by
      funext key slots s
      exact entry_renamed f make parts room key slots s
    refine ⟨slots, ?_, ?_⟩
    · rw [hentry]
      exact hpasses
    · show (f.finish slots).map make = _
      rw [hfinish, Except.map, h]

end Fields

theorem Format.record_lawful {f : Fields α} {names : List String} {levels : Nat}
    (hf : f.Lawful names levels) : (Format.record f).Lawful (levels + 1) where
  read_write a room rest hroom _ := by
    obtain ⟨room, rfl⟩ : ∃ n, room = n + 1 := ⟨room - 1, by omega⟩
    obtain ⟨slots, hpasses, hfinish⟩ := hf.passes a room (by omega)
    simp only [record, Fields.read, Fields.write, readObject_writeObject hpasses, ok_bind, hfinish]
    rfl
  opens a := ⟨by decide, by decide, by decide⟩

/-! ### Maps -/

/-- Reads one entry of a map and puts it in. -/
def mapEntry (f : Format α) (room : Nat) (key : String) (m : OrderedMap String α) (s : Bytes) :
    Except Reason (OrderedMap String α × Bytes) := do
  let (a, after) ← f.read room (← readColon s)
  return (m.insert key a, after)

/-- Each entry of a map leads to the map with that entry put in. -/
theorem passes_insertAll {f : Format α} {levels room : Nat} (hf : f.Lawful levels)
    (hroom : levels ≤ room) : ∀ (l : List (String × α)) (m : OrderedMap String α),
    Passes (mapEntry f room) m (l.map fun (key, a) => (key, f.write a)) (m.insertAll l)
  | [], _ => .nil
  | (key, a) :: l, m => by
    refine .cons (t := m.insert key a) (fun rest hrest => ?_) (passes_insertAll hf hroom l _)
    rw [mapEntry, Fields.readColon_colon, ok_bind, hf.read_write a room rest hroom hrest]
    rfl

theorem Format.map_lawful {f : Format α} {levels : Nat} (hf : f.Lawful levels) :
    (Format.map f).Lawful (levels + 1) where
  read_write m room rest hroom _ := by
    obtain ⟨room, rfl⟩ : ∃ n, room = n + 1 := ⟨room - 1, by omega⟩
    have hpasses := passes_insertAll hf (by omega : levels ≤ room) m.toList ∅
    rw [OrderedMap.insertAll_toList] at hpasses
    have hread : (Format.map f).read = readObject ∅ (mapEntry f) := rfl
    rw [hread]
    exact readObject_writeObject hpasses rest
  opens _ := ⟨by decide, by decide, by decide⟩

/-! ### Whole texts -/

/-- A type whose values are read back from their texts. -/
class Lossless (α : Type) [Wire α] : Prop where
  lawful : (Wire.format : Format α).Lawful maxNesting

theorem decode_encode [Wire α] [Lossless α] (a : α) : decode α (encode a) = .ok a := by
  have hread := Lossless.lawful.read_write a maxNesting [] (Nat.le_refl _) trivial
  rw [List.append_nil] at hread
  rw [decode, encode, hread]
  rfl

theorem decodeAs_encode [Wire α] [Lossless α] (a : α) : decodeAs α (encode a) = .ok a := by
  rw [decodeAs, decode_encode]
  rfl

theorem encode_injective [Wire α] [Lossless α] {a b : α} (h : encode a = encode b) : a = b := by
  have hdecode := congrArg (decode α) h
  rw [decode_encode, decode_encode] at hdecode
  exact Except.ok.inj hdecode

instance : Lossless Bytes := ⟨Format.base64_lawful⟩

end Json
end RelayLedger
