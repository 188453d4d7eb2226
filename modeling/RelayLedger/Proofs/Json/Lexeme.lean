/-
# Strings and numbers of a JSON text are read back

A written string is cut out again at its own closing quote, since every quote and backslash in it is
escaped; resolving its escapes gives the text back, byte by byte. A written number ends where it
should only if no digit follows (`Stops`), which is so wherever the writers put one.

Key definitions: `Json.Stops`.
Key theorems: `Json.readString_escape`, `Json.readWord_digits`, `Json.readInt_toString`.
-/
import RelayLedger.Proofs.Outcome
import RelayLedger.Proofs.Spelling

namespace RelayLedger
namespace Json

theorem skipBlank_cons {b : UInt8} (h : isBlank b = false) (s : Bytes) :
    skipBlank (b :: s) = b :: s := by
  rw [skipBlank, List.dropWhile_cons_of_neg (by rw [h]; exact Bool.false_ne_true)]

/-! ### Escapes -/

theorem utf8_upperPair (b : UInt8) :
    utf8 (Hex.upperPair b) =
      [charByte (Hex.upperDigit (b.toNat / 16)), charByte (Hex.upperDigit (b.toNat % 16))] := by
  obtain ⟨hhigh, hlow⟩ := Hex.halves_lt b
  rw [Hex.upperPair, utf8_ofList]
  · rfl
  · intro c hc
    simp only [List.mem_cons, List.not_mem_nil, or_false] at hc
    rcases hc with rfl | rfl
    · exact Hex.toNat_upperDigit_lt _ hhigh
    · exact Hex.toNat_upperDigit_lt _ hlow

/-- A byte stands for itself, or behind a backslash, or is spelled in hexadecimal. -/
theorem escapeByte_cases (b : UInt8) :
    (escapeByte b = [b] ∧ b ≠ quoteByte ∧ b ≠ backslash ∧ ¬ b < 32) ∨
    (∃ e : UInt8, escapeByte b = [backslash, e] ∧ simpleEscape e = some b ∧ ¬ e < 32) ∨
    (b < 32 ∧ escapeByte b = [backslash, 117, 48, 48, charByte (Hex.upperDigit (b.toNat / 16)),
      charByte (Hex.upperDigit (b.toNat % 16))]) := by
  unfold escapeByte
  split
  next h => rcases h with rfl | rfl <;> exact .inr (.inl ⟨_, rfl, by decide, by decide⟩)
  next hquote =>
  split
  next h => exact .inr (.inl ⟨98, rfl, by rw [h]; decide, by decide⟩)
  split
  next h => exact .inr (.inl ⟨116, rfl, by rw [h]; decide, by decide⟩)
  split
  next h => exact .inr (.inl ⟨110, rfl, by rw [h]; decide, by decide⟩)
  split
  next h => exact .inr (.inl ⟨102, rfl, by rw [h]; decide, by decide⟩)
  split
  next h => exact .inr (.inl ⟨114, rfl, by rw [h]; decide, by decide⟩)
  split
  next h => exact .inr (.inr ⟨h, by rw [utf8_upperPair]; rfl⟩)
  next h => exact .inl ⟨rfl, fun e => hquote (.inl e), fun e => hquote (.inr e), h⟩

theorem upperDigit_facts : ∀ n < 16, charByte (Hex.upperDigit n) ≠ quoteByte ∧
    charByte (Hex.upperDigit n) ≠ backslash ∧ ¬ charByte (Hex.upperDigit n) < 32 := by decide

theorem cutString_cons {b : UInt8} (hq : b ≠ quoteByte) (hb : b ≠ backslash) (s : Bytes) :
    cutString (b :: s) = (cutString s).map fun (raw, after) => (b :: raw, after) := by
  rw [cutString.eq_def]
  simp only
  rw [if_neg hq, if_neg hb]

theorem cutString_backslash (e : UInt8) (s : Bytes) :
    cutString (backslash :: e :: s) =
      (cutString s).map fun (raw, after) => (backslash :: e :: raw, after) := by
  rw [cutString.eq_def]
  simp only
  rw [if_neg (by decide), if_pos trivial]

theorem cutString_escapeByte (b : UInt8) (s : Bytes) :
    cutString (escapeByte b ++ s) =
      (cutString s).map fun (raw, after) => (escapeByte b ++ raw, after) := by
  rcases escapeByte_cases b with ⟨h, hq, hb, -⟩ | ⟨e, h, -, -⟩ | ⟨-, h⟩
  · rw [h]
    exact cutString_cons hq hb s
  · rw [h]
    exact cutString_backslash e s
  · obtain ⟨hhigh, hlow⟩ := Hex.halves_lt b
    obtain ⟨hq, hb, -⟩ := upperDigit_facts _ hhigh
    obtain ⟨hq', hb', -⟩ := upperDigit_facts _ hlow
    rw [h]
    simp only [List.cons_append, List.nil_append]
    rw [cutString_backslash, cutString_cons (by decide) (by decide),
      cutString_cons (by decide) (by decide), cutString_cons hq hb, cutString_cons hq' hb']
    cases cutString s <;> rfl

/-- An escaped text ends at the first quote that the writer put behind it. -/
theorem cutString_escaped (after : Bytes) : ∀ s : Bytes,
    cutString (s.flatMap escapeByte ++ quoteByte :: after) = some (s.flatMap escapeByte, after)
  | [] => by
    rw [List.flatMap_nil, List.nil_append, cutString.eq_def]
    simp only
    rw [if_pos trivial]
  | b :: s => by
    rw [List.flatMap_cons, List.append_assoc, cutString_escapeByte, cutString_escaped after s]
    rfl

/-! ### Resolving escapes -/

theorem hexDigit_upperDigit {n : Nat} (h : n < 16) :
    hexDigit (charByte (Hex.upperDigit n)) = .ok n := by
  rw [hexDigit, if_neg (upperDigit_facts n h).2.2, Hex.value?_upperDigit n h]

theorem codePoint_of_lt : ∀ n < 32, codePoint n = [UInt8.ofNat n] := by decide

theorem hexUnit_upperPair (b : UInt8) :
    hexUnit [48, 48, charByte (Hex.upperDigit (b.toNat / 16)),
      charByte (Hex.upperDigit (b.toNat % 16))] = .ok b.toNat := by
  obtain ⟨hhigh, hlow⟩ := Hex.halves_lt b
  have hzero : hexDigit 48 = .ok 0 := rfl
  have hvalue : ((0 * 16 + 0) * 16 + b.toNat / 16) * 16 + b.toNat % 16 = b.toNat := by omega
  simp only [hexUnit, List.mapM_cons, List.mapM_nil, hzero, hexDigit_upperDigit hhigh,
    hexDigit_upperDigit hlow, ok_bind, pure_eq_ok]
  exact congrArg Except.ok hvalue

theorem unescape_escapeByte (b : UInt8) (s : Bytes) :
    unescape none (escapeByte b ++ s) = (unescape none s).map (b :: ·) := by
  rcases escapeByte_cases b with ⟨h, -, hb, h32⟩ | ⟨e, h, he, h32⟩ | ⟨hb, h⟩
  · rw [h, List.singleton_append, unescape.eq_def]
    simp only
    rw [if_neg h32, if_neg hb]
  · rw [h, List.cons_append, List.singleton_append, unescape.eq_def]
    simp only
    rw [if_neg (by decide), if_pos trivial, if_neg h32, he]
  · have hlt : b.toNat < 32 := UInt8.lt_iff_toNat_lt.mp hb
    have hadd : addUnit none b.toNat = .ok (none, [b]) := by
      rw [addUnit, if_pos (.inl (by omega)), codePoint_of_lt _ hlt, UInt8.ofNat_toNat]
    have hu : simpleEscape 117 = none := by decide
    rw [h]
    simp only [List.cons_append, List.nil_append]
    rw [unescape.eq_def]
    simp only
    rw [if_neg (by decide), if_pos trivial, if_neg (by decide), hu]
    simp only
    rw [if_pos trivial, hexUnit_upperPair, ok_bind, hadd, ok_bind]
    rfl

theorem unescape_escaped : ∀ s : Bytes, unescape none (s.flatMap escapeByte) = .ok s
  | [] => rfl
  | b :: s => by
    rw [List.flatMap_cons, unescape_escapeByte, unescape_escaped s]
    rfl

theorem escaped_of_not_contains : ∀ {s : Bytes},
    (s.flatMap escapeByte).contains backslash = false → s.flatMap escapeByte = s
  | [], _ => rfl
  | b :: s, h => by
    simp only [List.flatMap_cons, List.contains_eq_mem, List.mem_append, decide_eq_false_iff_not,
      not_or] at h
    have hs : (s.flatMap escapeByte).contains backslash = false := by
      rw [List.contains_eq_mem]
      exact decide_eq_false h.2
    rcases escapeByte_cases b with ⟨hb, -⟩ | ⟨e, hb, -⟩ | ⟨-, hb⟩
    · rw [List.flatMap_cons, hb, escaped_of_not_contains hs]
      rfl
    · exact absurd (by rw [hb]; exact List.mem_cons_self) h.1
    · exact absurd (by rw [hb]; exact List.mem_cons_self) h.1

theorem resolve_escaped (s : Bytes) : resolve (s.flatMap escapeByte) = .ok s := by
  unfold resolve
  split
  · exact unescape_escaped s
  next h => rw [escaped_of_not_contains (by simpa using h)]

/-- A written string is read back, and what follows it is left. -/
theorem readString_escape (text : String) (rest : Bytes) :
    readString (escape text ++ rest) = .ok (text, rest) := by
  have hcut := cutString_escaped rest (utf8 text)
  rw [escape, List.cons_append, List.cons_append, List.append_assoc, readString,
    skipBlank_cons (by decide)]
  simp only
  rw [if_pos trivial, List.singleton_append, hcut]
  simp only
  rw [resolve_escaped, ok_bind, ofUtf8?_utf8]
  rfl

/-! ### Numbers -/

/-- A number does not go on into these bytes. -/
def Stops : Bytes → Prop
  | [] => True
  | b :: _ => Numeral.isDigit b = false

theorem takeWhile_digits {rest : Bytes} (n : Nat) (h : Stops rest) :
    (digits n ++ rest).takeWhile Numeral.isDigit = digits n ∧
      (digits n ++ rest).dropWhile Numeral.isDigit = rest := by
  have hall := List.all_eq_true.mp (Numeral.all_isDigit_digits n)
  rw [List.takeWhile_append_of_pos hall, List.dropWhile_append_of_pos hall]
  cases rest with
  | nil => simp
  | cons b rest =>
    have hb : Numeral.isDigit b = false := h
    simp [hb]

theorem digits_of_lt {n : Nat} (h : n < 10) : digits n = [charByte n.digitChar] := by
  rw [digits, Nat.toDigits_of_lt_base h]
  rfl

/-- No number but zero is written with a zero in front. -/
theorem head?_digits {n : Nat} (h : 0 < n) : (digits n).head? ≠ some 48 := by
  induction n using Nat.strongRecOn with
  | _ n ih =>
    by_cases hn : n < 10
    · have hdigit : ∀ m < 10, 0 < m → charByte m.digitChar ≠ 48 := by decide
      rw [digits_of_lt hn, List.head?_cons, Ne, Option.some.injEq]
      exact hdigit n hn h
    · have hsplit : digits n = digits (n / 10) ++ [charByte (n % 10).digitChar] := by
        rw [digits, Nat.toDigits_of_base_le (by decide) (by omega), List.map_append]
        rfl
      obtain ⟨b, s, hbs⟩ := List.exists_cons_of_ne_nil (Numeral.digits_ne_nil (n / 10))
      have hhead := ih (n / 10) (by omega) (by omega)
      rw [hsplit, hbs, List.cons_append, List.head?_cons]
      rwa [hbs, List.head?_cons] at hhead

theorem readDigits_digits {rest : Bytes} (n : Nat) (h : Stops rest) :
    readDigits (digits n ++ rest) = .ok (n, rest) := by
  rcases Nat.eq_zero_or_pos n with rfl | hn
  · rfl
  · obtain ⟨htake, hdrop⟩ := takeWhile_digits n h
    have hvalue := Numeral.value_digits n
    have hzero := head?_digits hn
    have hall := Numeral.all_isDigit_digits n
    obtain ⟨b, s, hbs⟩ := List.exists_cons_of_ne_nil (Numeral.digits_ne_nil n)
    rw [hbs, List.cons_append] at htake hdrop
    rw [hbs, List.head?_cons, Ne, Option.some.injEq] at hzero
    rw [hbs, List.all_cons, Bool.and_eq_true] at hall
    rw [hbs, List.cons_append, readDigits, if_neg hzero, if_pos hall.1, htake, hdrop, ← hbs, hvalue]

/-- A written number starts with a digit. -/
theorem exists_digits (n : Nat) : ∃ b s, digits n = b :: s ∧ Numeral.isDigit b = true := by
  have hall := Numeral.all_isDigit_digits n
  obtain ⟨b, s, hbs⟩ := List.exists_cons_of_ne_nil (Numeral.digits_ne_nil n)
  rw [hbs, List.all_cons, Bool.and_eq_true] at hall
  exact ⟨b, s, hbs, hall.1⟩

theorem isDigit_facts {b : UInt8} (h : Numeral.isDigit b = true) :
    isBlank b = false ∧ b ≠ 45 ∧ b ≠ comma ∧ b ≠ closeBracket := by
  have hne : ∀ c : UInt8, Numeral.isDigit c = false → b ≠ c := by
    rintro c hc rfl
    rw [h] at hc
    cases hc
  refine ⟨?_, hne _ (by decide), hne _ (by decide), hne _ (by decide)⟩
  simp [isBlank, hne 32 (by decide), hne 9 (by decide), hne 10 (by decide), hne 13 (by decide)]

/-- A written number is read back if no digit follows it. -/
theorem readWord_digits {bits : Nat} {rest : Bytes} (w : Word bits) (h : Stops rest) :
    readWord bits (digits w.toNat ++ rest) = .ok (w, rest) := by
  have hread := readDigits_digits w.toNat h
  have hw : Word.ofNat? w.toNat = some w := Word.ofNat?_eq_some_iff.mpr rfl
  obtain ⟨b, s, hbs, hb⟩ := exists_digits w.toNat
  obtain ⟨hblank, hminus, -⟩ := isDigit_facts hb
  rw [hbs, List.cons_append] at hread
  rw [hbs, List.cons_append, readWord, skipBlank_cons hblank]
  simp only
  rw [if_neg hminus, hread, ok_bind]
  simp only
  rw [hw]
  rfl

/-- A sign is written in front of a number below zero and nowhere else. -/
theorem utf8_toString_int (i : Int) :
    utf8 (toString i) = if i < 0 then 45 :: digits i.natAbs else digits i.natAbs := by
  cases i with
  | ofNat n =>
    have hn : ¬ Int.ofNat n < 0 := Int.not_lt.mpr (Int.natCast_nonneg n)
    rw [if_neg hn]
    exact Numeral.utf8_toString n
  | negSucc n =>
    have hminus : utf8 "-" = [45] := by decide
    have htext : toString (Int.negSucc n) = "-" ++ toString (n + 1) := rfl
    rw [if_pos (Int.negSucc_lt_zero n), htext, utf8_append, hminus, Numeral.utf8_toString]
    rfl

/-- A written number is read back with its sign if no digit follows it. -/
theorem readInt_toString {rest : Bytes} (i : Int) (h : Stops rest) :
    readInt (utf8 (toString i) ++ rest) = .ok (i, rest) := by
  have hread := readDigits_digits i.natAbs h
  rw [utf8_toString_int]
  by_cases hneg : i < 0
  · have hvalue : -(i.natAbs : Int) = i := by omega
    rw [if_pos hneg, List.cons_append, readInt, skipBlank_cons (by decide)]
    simp only
    rw [if_pos trivial, hread, ok_bind]
    simp only
    rw [hvalue]
    rfl
  · have hvalue : (i.natAbs : Int) = i := by omega
    obtain ⟨b, s, hbs, hb⟩ := exists_digits i.natAbs
    obtain ⟨hblank, hminus, -⟩ := isDigit_facts hb
    rw [hbs, List.cons_append] at hread
    rw [if_neg hneg, hbs, List.cons_append, readInt, skipBlank_cons hblank]
    simp only
    rw [if_neg hminus, hread, ok_bind]
    simp only
    rw [hvalue]
    rfl

end Json
end RelayLedger
