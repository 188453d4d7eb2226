/-
# What addresses of the chain look like

An address that is accepted is the text that the chain writes for some bytes, so all its characters
are those of the human part, the `1` behind it and the symbols of five-bit numbers. Hence it is not
empty and holds no comma, and addresses that are joined by commas are told apart again:
`cutAtCommas` gives them back (`cutAtCommas_intercalate`).

Key definitions: `ChainAddress.Valid`, `ChainAddress.alphabet`, `cutAtCommas`.
Key theorems: `ChainAddress.validate_eq_ok_iff`, `ChainAddress.Valid.mem_alphabet`,
`cutAtCommas_intercalate`.
-/
import RelayLedger.ChainAddress

namespace RelayLedger

/-! ### The characters of an address -/

theorem Bech32.symbol_mem (n : Nat) : symbol n ∈ alphabet := by
  rw [symbol, List.getD_eq_getElem?_getD]
  cases hget : alphabet[n]? with
  | none => decide
  | some c => exact List.mem_of_getElem? hget

theorem Bech32.toList_encode (human : List Char) (s : Bytes) :
    (encode human s).toList =
      human ++ '1' :: (toFives 0 0 s ++ checksum human (toFives 0 0 s)).map symbol :=
  String.toList_ofList

namespace ChainAddress

/-- The chain accepts the address as it stands. -/
def Valid (a : ChainAddress) : Prop := a.validate = .ok a

instance (a : ChainAddress) : Decidable a.Valid :=
  match h : a.validate with
  | .ok b => decidable_of_iff (b = a) (by rw [Valid, h, Except.ok.injEq])
  | .error _ => isFalse (by rw [Valid, h]; nofun)

variable {a b : ChainAddress}

/-- What is accepted is the address of some bytes, and is not altered. -/
theorem exists_of_validate (h : a.validate = .ok b) : b = a ∧ ∃ s, a = ofBytes s := by
  unfold validate at h
  split at h
  · cases h
  next s _ =>
    split at h
    · cases h
    · split at h
      · cases h
      · split at h
        · cases h
        next hsame => exact ⟨(Except.ok.inj h).symm, s, (Decidable.of_not_not hsame).symm⟩

/-- An address is accepted as it stands or not at all. -/
theorem validate_eq_ok_iff : a.validate = .ok b ↔ b = a ∧ a.Valid := by
  constructor
  · intro h
    obtain ⟨rfl, -⟩ := exists_of_validate h
    exact ⟨rfl, h⟩
  · rintro ⟨rfl, h⟩
    exact h

theorem not_valid_iff : ¬ a.Valid ↔ ∃ fault, a.validate = .error fault := by
  cases h : a.validate with
  | error fault => simp [Valid, h]
  | ok b => simp [(validate_eq_ok_iff.mp h).2]

/-- The characters that addresses are made of. -/
def alphabet : List Char := humanPart ++ '1' :: Bech32.alphabet

theorem toList_ofBytes (s : Bytes) :
    ∃ symbols, (ofBytes s).text.toList = humanPart ++ '1' :: symbols ∧
      ∀ c ∈ symbols, c ∈ Bech32.alphabet := by
  refine ⟨_, Bech32.toList_encode humanPart s, fun c hc => ?_⟩
  obtain ⟨n, -, rfl⟩ := List.mem_map.mp hc
  exact Bech32.symbol_mem n

namespace Valid

theorem mem_alphabet (h : a.Valid) : ∀ c ∈ a.text.toList, c ∈ alphabet := by
  obtain ⟨-, s, rfl⟩ := exists_of_validate h
  obtain ⟨symbols, htext, hsymbols⟩ := toList_ofBytes s
  intro c hc
  rw [htext, List.mem_append, List.mem_cons] at hc
  rw [alphabet, List.mem_append, List.mem_cons]
  exact hc.imp id fun hc => hc.imp id (hsymbols c)

theorem comma_not_mem (h : a.Valid) : ',' ∉ a.text.toList := fun hmem =>
  absurd (h.mem_alphabet ',' hmem) (by decide)

theorem text_ne_empty (h : a.Valid) : a.text ≠ "" := by
  obtain ⟨-, s, rfl⟩ := exists_of_validate h
  obtain ⟨symbols, htext, -⟩ := toList_ofBytes s
  intro hempty
  rw [hempty] at htext
  cases htext

end Valid
end ChainAddress

/-! ### Texts between commas -/

/-- The texts between the commas of a text; the empty text has none. -/
def cutAtCommas (text : String) : List String :=
  if text = "" then [] else (text.split ',').toList.map (·.copy)

theorem intercalate_ne_empty {texts : List String} (hne : texts ≠ [])
    (h : ∀ text ∈ texts, text ≠ "") (separator : String) :
    separator.intercalate texts ≠ "" := by
  cases texts with
  | nil => exact absurd rfl hne
  | cons text rest =>
    have htext := h text List.mem_cons_self
    cases rest with
    | nil =>
      rw [String.intercalate_singleton]
      exact htext
    | cons next rest =>
      rw [String.intercalate_cons_cons, String.append_assoc]
      intro hempty
      exact htext (String.append_eq_empty_iff.mp hempty).1

/-- Texts that are not empty and hold no comma are told apart when commas join them. -/
theorem cutAtCommas_intercalate {texts : List String} (hne : ∀ text ∈ texts, text ≠ "")
    (hcomma : ∀ text ∈ texts, ',' ∉ text.toList) :
    cutAtCommas (String.intercalate "," texts) = texts := by
  by_cases hnil : texts = []
  · rw [hnil]
    rfl
  · have hsplit := String.toList_split_intercalate hcomma
    rw [if_neg hnil] at hsplit
    rw [cutAtCommas, if_neg (intercalate_ne_empty hnil hne _)]
    exact hsplit

end RelayLedger
