/-
# Identifiers and code in hexadecimal

An identifier may have a `0x` or `0X` in front, code a `0x`; at most one mark is dropped before the
digits are read. So all spellings of an identifier are known, the one that is written is one of
them, and it is the only one that reading and writing leaves as it is. Every other text is refused:
for the bytes behind the mark that are not hexadecimal, or else for their number.

Key definitions: `Hex.behindMark`, `Fixed.Refused`, `Fixed.Codec`, `Artifact.Codec`.
Key theorems: `Hex.unmarked_utf8`, `Fixed.parse_eq_ok_iff`, `Fixed.parse_eq_error_iff`,
`Artifact.ofHex_eq_ok_iff`, `hexadecimal_codec`.
-/
import RelayLedger.Deployment
import RelayLedger.Proofs.Spelling

namespace RelayLedger
namespace Hex

/-! ### Marks -/

/-- The characters behind a mark, if one of the marks is in front. -/
def behindMark (marks : List (List Char)) (cs : List Char) : List Char :=
  if cs.take 2 ∈ marks then cs.drop 2 else cs

theorem behindMark_append {marks : List (List Char)} {mark : List Char} (h : mark ∈ marks)
    (hlen : mark.length = 2) (cs : List Char) : behindMark marks (mark ++ cs) = cs := by
  rw [behindMark, List.take_append_of_le_length (Nat.le_of_eq hlen.symm),
    List.take_of_length_le (Nat.le_of_eq hlen), if_pos h, ← hlen, List.drop_left]

theorem behindMark_of_not_mem {marks : List (List Char)} {cs : List Char}
    (h : cs.take 2 ∉ marks) : behindMark marks cs = cs := if_neg h

theorem mark_small {c d : Char} (hc : c.toNat < 128) (hd : d.toNat < 128) :
    [c, d].length = 2 ∧ ∀ e ∈ [c, d], e.toNat < 128 :=
  ⟨rfl, List.forall_mem_cons.mpr ⟨hc, List.forall_mem_singleton.mpr hd⟩⟩

/-- Dropping a mark from the bytes of a text drops it from the characters: the bytes start with the
mark exactly if the characters do. -/
theorem unmarked_utf8 {marks : List (List Char)} {unmarked : Bytes → Bytes}
    (hmarks : ∀ mark ∈ marks, mark.length = 2 ∧ ∀ c ∈ mark, c.toNat < 128)
    (hmarked : ∀ mark ∈ marks, ∀ rest, unmarked (mark.map charByte ++ rest) = rest)
    (hother : ∀ s, (∀ mark ∈ marks, ∀ rest, s ≠ mark.map charByte ++ rest) → unmarked s = s)
    (text : String) :
    unmarked (utf8 text) = utf8 (String.ofList (behindMark marks text.toList)) := by
  obtain ⟨cs, rfl⟩ : ∃ cs, text = String.ofList cs := ⟨text.toList, String.ofList_toList.symm⟩
  rw [String.toList_ofList]
  by_cases h : cs.take 2 ∈ marks
  · have hbytes := (utf8_eq_append_iff (hmarks _ h).2).mpr
      ⟨cs.drop 2, (List.take_append_drop 2 cs).symm, rfl⟩
    rw [hbytes, hmarked _ h, behindMark, if_pos h]
  · rw [behindMark_of_not_mem h]
    refine hother _ fun mark hmark rest hbytes => h ?_
    obtain ⟨hlen, hsmall⟩ := hmarks mark hmark
    obtain ⟨cs', rfl, -⟩ := (utf8_eq_append_iff hsmall).mp hbytes
    rw [List.take_append_of_le_length (Nat.le_of_eq hlen.symm),
      List.take_of_length_le (Nat.le_of_eq hlen)]
    exact hmark

theorem not_isDigit_x : ¬ IsDigit 'x' := by
  rintro ⟨n, hn, h⟩
  have hne : ∀ n < 16, 'x' ≠ digit n ∧ 'x' ≠ upperDigit n := by decide
  rcases h with h | h
  · exact (hne n hn).1 h
  · exact (hne n hn).2 h

end Hex

/-! ### Identifiers -/

namespace Fixed

variable {kind : FixedKind}

/-- The marks that may stand in front of an identifier. -/
def marks : List (List Char) := [['0', 'x'], ['0', 'X']]

/-- The characters of an identifier's text that are to be its digits. -/
def digits (text : String) : List Char := Hex.behindMark marks text.toList

/-- Why a text identifies nothing of a kind: its digits are not hexadecimal, or else they spell too
few or too many bytes. -/
inductive Refused (kind : FixedKind) (text : String) : Fault → Prop
  | notHex {fault : Hex.Fault} : Hex.Refused (utf8 (String.ofList (digits text))) fault →
    Refused kind text (.notHex kind text fault)
  | wrongLength {s : Bytes} : Hex.Spells (digits text) s → s.length ≠ kind.width →
    Refused kind text (.wrongLength kind s.length)

theorem unmarked_utf8 (text : String) :
    unmarked (utf8 text) = utf8 (String.ofList (digits text)) := by
  refine Hex.unmarked_utf8 (fun mark h => ?_) (fun mark h rest => ?_) ?_ text
  · simp only [marks, List.mem_cons, List.not_mem_nil, or_false] at h
    rcases h with rfl | rfl
    · exact Hex.mark_small (by decide) (by decide)
    · exact Hex.mark_small (by decide) (by decide)
  · simp only [marks, List.mem_cons, List.not_mem_nil, or_false] at h
    rcases h with rfl | rfl
    · rfl
    · rfl
  · intro s h
    unfold unmarked
    split
    next a b rest =>
      rw [if_neg]
      rintro ⟨rfl, rfl | rfl⟩
      · exact h ['0', 'x'] (by decide) rest rfl
      · exact h ['0', 'X'] (by decide) rest rfl
    next => rfl

/-- Exactly the texts whose digits spell the bytes of an identifier are read as it. -/
theorem parse_eq_ok_iff {text : String} {a : Fixed kind} :
    parse kind text = .ok a ↔ Hex.Spells (digits text) a.bytes := by
  rw [← Hex.decode_utf8_eq_ok_iff, parse, unmarked_utf8]
  cases hread : Hex.decode (utf8 (String.ofList (digits text))) with
  | error fault => simp
  | ok s =>
    simp only [Except.ok.injEq]
    unfold ofBytes
    constructor
    · intro h
      split at h
      · cases h
        rfl
      · cases h
    · rintro rfl
      rw [dif_pos a.length_eq]

theorem parse_eq_error_iff {text : String} {fault : Fault} :
    parse kind text = .error fault ↔ Refused kind text fault := by
  rw [parse, unmarked_utf8]
  cases hread : Hex.decode (utf8 (String.ofList (digits text))) with
  | error reason =>
    simp only [Except.error.injEq]
    constructor
    · rintro rfl
      exact .notHex (Hex.decode_eq_error_iff.mp hread)
    · rintro (hrefused | ⟨hspells, -⟩)
      · rw [Hex.decode_eq_error_iff.mpr hrefused] at hread
        cases hread
        rfl
      · rw [Hex.decode_utf8_eq_ok_iff.mpr hspells] at hread
        cases hread
  | ok s =>
    simp only
    unfold ofBytes
    constructor
    · intro h
      split at h
      · cases h
      next hwidth =>
        cases h
        exact .wrongLength (Hex.decode_utf8_eq_ok_iff.mp hread) hwidth
    · rintro (hrefused | ⟨hspells, hwidth⟩)
      · rw [Hex.decode_eq_error_iff.mpr hrefused] at hread
        cases hread
      · rw [Hex.decode_utf8_eq_ok_iff.mpr hspells] at hread
        cases hread
        rw [dif_neg hwidth]

/-- Some identifier is read exactly from two digits for each of its bytes. -/
theorem exists_parse_eq_ok_iff {text : String} :
    (∃ a, parse kind text = .ok a) ↔
      (digits text).length = 2 * kind.width ∧ ∀ c ∈ digits text, Hex.IsDigit c := by
  constructor
  · rintro ⟨a, h⟩
    have hspells := parse_eq_ok_iff.mp h
    exact ⟨by rw [hspells.length_eq, a.length_eq], hspells.isDigit⟩
  · rintro ⟨hlen, hdigits⟩
    obtain ⟨s, hs⟩ := Hex.exists_spells_iff.mpr ⟨by omega, hdigits⟩
    have hwidth : s.length = kind.width := by
      have := hs.length_eq
      omega
    exact ⟨⟨s, hwidth⟩, parse_eq_ok_iff.mpr hs⟩

theorem toList_toString (a : Fixed kind) :
    a.toString.toList = '0' :: 'x' :: (Hex.halves a.bytes).map Hex.digit := by
  rw [Fixed.toString, Hex.encode_eq, String.toList_append]
  exact congrArg (['0', 'x'] ++ ·) String.toList_ofList

/-- Reading and writing again changes every text but the one that is written. -/
theorem rewritten_iff {text : String} {a : Fixed kind} :
    (parse kind text = .ok a ∧ (parse kind text).map Fixed.toString = .ok text) ↔
      text = a.toString := by
  constructor
  · rintro ⟨hread, hfixed⟩
    rw [hread] at hfixed
    exact (Except.ok.inj hfixed).symm
  · rintro rfl
    rw [parse_toString]
    exact ⟨rfl, rfl⟩

/-- How identifiers of a kind are read and written. -/
structure Codec (kind : FixedKind) : Prop where
  /-- A text is accepted exactly if two digits for each byte follow the mark, if there is one. -/
  accepted : ∀ text, (∃ a, parse kind text = .ok a) ↔
    (digits text).length = 2 * kind.width ∧ ∀ c ∈ digits text, Hex.IsDigit c
  /-- The identifier is the one whose bytes the digits spell. -/
  read : ∀ text a, parse kind text = .ok a ↔ Hex.Spells (digits text) a.bytes
  /-- Any other text is refused, for the first reason that there is. -/
  refused : ∀ text fault, parse kind text = .error fault ↔ Refused kind text fault
  /-- An identifier is written with a mark and two lower-case digits for each byte. -/
  written : ∀ a : Fixed kind,
    a.toString.toList = '0' :: 'x' :: (Hex.halves a.bytes).map Hex.digit ∧
      ((Hex.halves a.bytes).map Hex.digit).length = 2 * kind.width
  /-- What is written is read back. -/
  restored : ∀ a : Fixed kind, parse kind a.toString = .ok a
  /-- Among the texts of an identifier it is the only one that stays as it is. -/
  canonical : ∀ text (a : Fixed kind),
    (parse kind text = .ok a ∧ (parse kind text).map Fixed.toString = .ok text) ↔
      text = a.toString

theorem codec (kind : FixedKind) : Codec kind where
  accepted _ := exists_parse_eq_ok_iff
  read _ _ := parse_eq_ok_iff
  refused _ _ := parse_eq_error_iff
  written a := ⟨toList_toString a, by rw [List.length_map, Hex.length_halves, a.length_eq]⟩
  restored := parse_toString
  canonical _ _ := rewritten_iff

end Fixed

/-! ### Artifacts -/

namespace Artifact

/-- The characters of an artifact's text that are to be its digits. -/
def digits (text : String) : List Char := Hex.behindMark [['0', 'x']] text.toList

theorem unmarked_utf8 (text : String) :
    unmarked (utf8 text) = utf8 (String.ofList (digits text)) := by
  refine Hex.unmarked_utf8 (fun mark h => ?_) (fun mark h rest => ?_) ?_ text
  · rw [List.mem_singleton.mp h]
    exact Hex.mark_small (by decide) (by decide)
  · rw [List.mem_singleton.mp h]
    rfl
  · intro s h
    unfold unmarked
    split
    next rest => exact absurd rfl (h ['0', 'x'] List.mem_cons_self rest)
    next => rfl

theorem ofHex_eq_ok_iff {name text : String} {artifact : Artifact} :
    ofHex name text = .ok artifact ↔
      artifact.name = name ∧ Hex.Spells (digits text) artifact.code := by
  rw [← Hex.decode_utf8_eq_ok_iff, ofHex, unmarked_utf8]
  cases hread : Hex.decode (utf8 (String.ofList (digits text))) with
  | error fault => simp
  | ok s =>
    obtain ⟨name', code⟩ := artifact
    simp only [Except.ok.injEq, mk.injEq, eq_comm]

theorem ofHex_eq_error_iff {name text : String} {fault : Fault} :
    ofHex name text = .error fault ↔
      ∃ reason, fault = .bytecode reason ∧
        Hex.Refused (utf8 (String.ofList (digits text))) reason := by
  simp only [← Hex.decode_eq_error_iff, ofHex, unmarked_utf8]
  cases hread : Hex.decode (utf8 (String.ofList (digits text))) with
  | error reason =>
    simp only [Except.error.injEq]
    constructor
    · rintro rfl
      exact ⟨reason, rfl, rfl⟩
    · rintro ⟨_, rfl, rfl⟩
      rfl
  | ok s => simp

/-- Some code is read exactly from an even number of digits. -/
theorem exists_ofHex_eq_ok_iff {name text : String} :
    (∃ artifact, ofHex name text = .ok artifact) ↔
      (digits text).length % 2 = 0 ∧ ∀ c ∈ digits text, Hex.IsDigit c := by
  rw [← Hex.exists_spells_iff]
  constructor
  · rintro ⟨artifact, h⟩
    exact ⟨artifact.code, (ofHex_eq_ok_iff.mp h).2⟩
  · rintro ⟨code, h⟩
    exact ⟨⟨name, code⟩, ofHex_eq_ok_iff.mpr ⟨rfl, h⟩⟩

/-- Digits of code are no mark, so they are read alike with a mark in front and without. -/
theorem ofHex_of_spells {cs : List Char} {code : Bytes} (h : Hex.Spells cs code) (name : String) :
    ofHex name (String.ofList cs) = .ok ⟨name, code⟩ ∧
      ofHex name (String.ofList ('0' :: 'x' :: cs)) = .ok ⟨name, code⟩ := by
  have hplain : digits (String.ofList cs) = cs := by
    rw [digits, String.toList_ofList]
    refine Hex.behindMark_of_not_mem fun hmark => Hex.not_isDigit_x (h.isDigit 'x' ?_)
    have hx : 'x' ∈ cs.take 2 := by
      rw [List.mem_singleton.mp hmark]
      decide
    exact List.mem_of_mem_take hx
  have hmarked : digits (String.ofList ('0' :: 'x' :: cs)) = cs := by
    rw [digits, String.toList_ofList]
    exact Hex.behindMark_append List.mem_cons_self rfl cs
  exact ⟨ofHex_eq_ok_iff.mpr ⟨rfl, hplain.symm ▸ h⟩, ofHex_eq_ok_iff.mpr ⟨rfl, hmarked.symm ▸ h⟩⟩

/-- How the code of artifacts is read. -/
structure Codec : Prop where
  /-- A text is accepted exactly if an even number of digits follows the mark, if there is one. -/
  accepted : ∀ name text, (∃ artifact, ofHex name text = .ok artifact) ↔
    (digits text).length % 2 = 0 ∧ ∀ c ∈ digits text, Hex.IsDigit c
  /-- The code is what the digits spell. -/
  read : ∀ name text artifact, ofHex name text = .ok artifact ↔
    artifact.name = name ∧ Hex.Spells (digits text) artifact.code
  /-- Any other text is refused, for the first reason that there is. -/
  refused : ∀ name text fault, ofHex name text = .error fault ↔
    ∃ reason, fault = .bytecode reason ∧ Hex.Refused (utf8 (String.ofList (digits text))) reason
  /-- Code that is written in digits of one case, with or without a mark, is read back. -/
  restored : ∀ name code, ∀ digit ∈ [Hex.digit, Hex.upperDigit],
    ofHex name (String.ofList ((Hex.halves code).map digit)) = .ok ⟨name, code⟩ ∧
      ofHex name (String.ofList ('0' :: 'x' :: (Hex.halves code).map digit)) = .ok ⟨name, code⟩

theorem codec : Codec where
  accepted _ _ := exists_ofHex_eq_ok_iff
  read _ _ _ := ofHex_eq_ok_iff
  refused _ _ _ := ofHex_eq_error_iff
  restored name code digit hdigit := by
    refine ofHex_of_spells (Hex.spells_map (fun n _ => ?_) code) name
    simp only [List.mem_cons, List.not_mem_nil, or_false] at hdigit
    rcases hdigit with rfl | rfl
    · exact .inl rfl
    · exact .inr rfl

end Artifact

/-- **Hexadecimal texts.** Identifiers of either kind and the code of artifacts are read from
exactly the digits that spell them, in either case and behind at most one mark, every other text is
refused for the first reason that there is, and what is written is read back. -/
theorem hexadecimal_codec : (∀ kind, Fixed.Codec kind) ∧ Artifact.Codec :=
  ⟨Fixed.codec, Artifact.codec⟩

end RelayLedger
