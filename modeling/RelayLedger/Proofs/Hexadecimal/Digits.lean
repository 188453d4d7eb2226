/-
# Hexadecimal digits

Two digits spell a byte, each in either case. `Hex.Spells` says so of the characters of a text and
`Hex.Refused` of its bytes, since a text that is not hexadecimal is refused for its bytes: for an
odd number of them, or for the first one that is no digit. Reading answers exactly these. A small
character is a byte that no other character has, so the bytes that are digits are those of the
characters that are.

Key definitions: `Hex.StandsFor`, `Hex.Spells`, `Hex.Refused`.
Key theorems: `utf8_eq_append_iff`, `Hex.exists_spells_iff`, `Hex.decode_eq_ok_iff`,
`Hex.decode_eq_error_iff`, `Hex.decode_utf8_eq_ok_iff`.
-/
import Mathlib.Data.List.Forall2
import Mathlib.Data.List.Induction
import RelayLedger.Proofs.Outcome
import RelayLedger.Text.Hex

namespace RelayLedger

/-! ### Texts of small characters -/

/-- The byte of a character below 128. -/
def charByte (c : Char) : UInt8 := UInt8.ofNat c.toNat

theorem toNat_charByte {c : Char} (h : c.toNat < 128) : (charByte c).toNat = c.toNat :=
  UInt8.toNat_ofNat_of_lt' (Nat.lt_trans h (by decide))

theorem utf8_append (a b : String) : utf8 (a ++ b) = utf8 a ++ utf8 b := by
  simp [utf8]

theorem utf8_ofList_eq_flatMap (l : List Char) :
    utf8 (String.ofList l) = l.flatMap String.utf8EncodeChar := by
  rw [utf8, String.toUTF8_eq_toByteArray, String.toByteArray_ofList, List.utf8Encode,
    List.toList_data_toByteArray]

theorem utf8EncodeChar_of_lt {c : Char} (h : c.toNat < 128) :
    String.utf8EncodeChar c = [charByte c] := by
  have hsize : c.utf8Size = 1 := by
    rw [Char.utf8Size_eq_one_iff, UInt32.le_iff_toNat_le]
    exact Nat.le_of_lt_succ h
  rw [String.utf8EncodeChar_eq_singleton hsize]
  rfl

theorem utf8_ofList {l : List Char} (h : ∀ c ∈ l, c.toNat < 128) :
    utf8 (String.ofList l) = l.map charByte := by
  rw [utf8_ofList_eq_flatMap]
  induction l with
  | nil => rfl
  | cons c l ih =>
    rw [List.flatMap_cons, utf8EncodeChar_of_lt (h c List.mem_cons_self),
      ih fun d hd => h d (List.mem_cons_of_mem _ hd)]
    rfl

/-- The bytes of a character that is not below 128 are not below 128 either. -/
theorem exists_utf8EncodeChar {c : Char} (h : 128 ≤ c.toNat) :
    ∃ b rest, String.utf8EncodeChar c = b :: rest ∧ 128 ≤ b.toNat := by
  have hval : c.val.toNat = c.toNat := rfl
  unfold String.utf8EncodeChar
  simp only [hval]
  rw [if_neg (by omega)]
  split
  · exact ⟨_, _, rfl, by rw [UInt8.toNat_ofNat']; omega⟩
  · split
    · exact ⟨_, _, rfl, by rw [UInt8.toNat_ofNat']; omega⟩
    · exact ⟨_, _, rfl, by rw [UInt8.toNat_ofNat']; omega⟩

theorem utf8_ofList_cons (c : Char) (cs : List Char) :
    utf8 (String.ofList (c :: cs)) = String.utf8EncodeChar c ++ utf8 (String.ofList cs) := by
  rw [utf8_ofList_eq_flatMap, utf8_ofList_eq_flatMap, List.flatMap_cons]

theorem charByte_inj {c d : Char} (hc : c.toNat < 128) (hd : d.toNat < 128)
    (h : charByte c = charByte d) : c = d := by
  have hcode : c.toNat = d.toNat := by rw [← toNat_charByte hc, ← toNat_charByte hd, h]
  rw [← Char.ofNat_toNat c, hcode, Char.ofNat_toNat]

/-- The bytes of a text start with those of a small character exactly if the text starts with it. -/
theorem utf8_eq_cons_iff {d : Char} (hd : d.toNat < 128) {cs : List Char} {rest : Bytes} :
    utf8 (String.ofList cs) = charByte d :: rest ↔
      ∃ cs', cs = d :: cs' ∧ utf8 (String.ofList cs') = rest := by
  constructor
  · intro h
    cases cs with
    | nil => cases h
    | cons c cs =>
      rw [utf8_ofList_cons] at h
      by_cases hc : c.toNat < 128
      · rw [utf8EncodeChar_of_lt hc, List.singleton_append, List.cons.injEq] at h
        exact ⟨cs, by rw [charByte_inj hc hd h.1], h.2⟩
      · obtain ⟨b, more, hchar, hb⟩ := exists_utf8EncodeChar (Nat.not_lt.mp hc)
        rw [hchar, List.cons_append, List.cons.injEq] at h
        have hsmall := toNat_charByte hd
        rw [← h.1] at hsmall
        omega
  · rintro ⟨cs', rfl, rfl⟩
    rw [utf8_ofList_cons, utf8EncodeChar_of_lt hd, List.singleton_append]

/-- Small characters in front of a text are seen in its bytes. -/
theorem utf8_eq_append_iff : ∀ {mark : List Char}, (∀ c ∈ mark, c.toNat < 128) →
    ∀ {cs : List Char} {rest : Bytes},
    (utf8 (String.ofList cs) = mark.map charByte ++ rest ↔
      ∃ cs', cs = mark ++ cs' ∧ utf8 (String.ofList cs') = rest)
  | [], _, cs, rest => by simp
  | d :: mark, hmark, cs, rest => by
    have hd := hmark d List.mem_cons_self
    have ih := @utf8_eq_append_iff mark fun c hc => hmark c (List.mem_cons_of_mem d hc)
    rw [List.map_cons, List.cons_append, utf8_eq_cons_iff hd]
    constructor
    · rintro ⟨cs', rfl, h⟩
      obtain ⟨cs'', rfl, hrest⟩ := ih.mp h
      exact ⟨cs'', rfl, hrest⟩
    · rintro ⟨cs'', rfl, hrest⟩
      exact ⟨mark ++ cs'', rfl, ih.mpr ⟨cs'', rfl, hrest⟩⟩

namespace Hex

/-! ### Digits -/

/-- A character is the digit of a number, in either case. -/
def StandsFor (c : Char) (n : Nat) : Prop := c = digit n ∨ c = upperDigit n

/-- A hexadecimal digit. -/
def IsDigit (c : Char) : Prop := ∃ n < 16, StandsFor c n

/-- The byte of a hexadecimal digit. -/
def IsDigitByte (b : UInt8) : Prop := ∃ c, IsDigit c ∧ b = charByte c

example : (List.range 16).map digit = "0123456789abcdef".toList ∧
    (List.range 16).map upperDigit = "0123456789ABCDEF".toList := by decide

theorem value?_digit : ∀ n < 16, value? (charByte (digit n)) = some n := by decide

theorem value?_upperDigit : ∀ n < 16, value? (charByte (upperDigit n)) = some n := by decide

theorem toNat_digit_lt : ∀ n < 16, (digit n).toNat < 128 := by decide

theorem toNat_upperDigit_lt : ∀ n < 16, (upperDigit n).toNat < 128 := by decide

theorem toNat_lt_of_standsFor {c : Char} {n : Nat} (hn : n < 16) (h : StandsFor c n) :
    c.toNat < 128 := by
  rcases h with rfl | rfl
  · exact toNat_digit_lt n hn
  · exact toNat_upperDigit_lt n hn

theorem value?_of_standsFor {c : Char} {n : Nat} (hn : n < 16) (h : StandsFor c n) :
    value? (charByte c) = some n := by
  rcases h with rfl | rfl
  · exact value?_digit n hn
  · exact value?_upperDigit n hn

theorem toNat_digit : ∀ n < 16, (digit n).toNat = if n < 10 then 48 + n else 87 + n := by decide

theorem toNat_upperDigit : ∀ n < 16, (upperDigit n).toNat = if n < 10 then 48 + n else 55 + n := by
  decide

/-- A byte that has a value is a digit's. -/
theorem exists_standsFor {b : UInt8} {n : Nat} (h : value? b = some n) :
    n < 16 ∧ ∃ c, StandsFor c n ∧ b = charByte c := by
  have hbyte : ∀ c : Char, c.toNat < 128 → c.toNat = b.toNat → b = charByte c := by
    intro c hc hcode
    rw [← UInt8.toNat_inj, toNat_charByte hc, hcode]
  unfold value? at h
  simp only at h
  split at h
  · cases h
    have hn : b.toNat - 48 < 16 := by omega
    refine ⟨hn, digit (b.toNat - 48), .inl rfl, hbyte _ (toNat_digit_lt _ hn) ?_⟩
    rw [toNat_digit _ hn, if_pos (by omega)]
    omega
  · split at h
    · cases h
      have hn : b.toNat - 87 < 16 := by omega
      refine ⟨hn, digit (b.toNat - 87), .inl rfl, hbyte _ (toNat_digit_lt _ hn) ?_⟩
      rw [toNat_digit _ hn, if_neg (by omega)]
      omega
    · split at h
      · cases h
        have hn : b.toNat - 55 < 16 := by omega
        refine ⟨hn, upperDigit (b.toNat - 55), .inr rfl, hbyte _ (toNat_upperDigit_lt _ hn) ?_⟩
        rw [toNat_upperDigit _ hn, if_neg (by omega)]
        omega
      · cases h

theorem isDigitByte_of_value? {b : UInt8} {n : Nat} (h : value? b = some n) : IsDigitByte b := by
  obtain ⟨hn, c, hc, hb⟩ := exists_standsFor h
  exact ⟨c, ⟨n, hn, hc⟩, hb⟩

theorem exists_value? {b : UInt8} (h : IsDigitByte b) : ∃ n, value? b = some n := by
  obtain ⟨c, ⟨n, hn, hc⟩, rfl⟩ := h
  exact ⟨n, value?_of_standsFor hn hc⟩

theorem not_isDigitByte {b : UInt8} : ¬ IsDigitByte b ↔ value? b = none := by
  constructor
  · intro h
    cases hb : value? b with
    | none => rfl
    | some n => exact absurd (isDigitByte_of_value? hb) h
  · intro h hdigit
    obtain ⟨n, hn⟩ := exists_value? hdigit
    rw [h] at hn
    cases hn

/-! ### What spells bytes -/

/-- The halves of bytes, two for each. -/
def halves (s : Bytes) : List Nat := s.flatMap fun b => [b.toNat / 16, b.toNat % 16]

/-- Characters that are the digits of bytes, each in either case. -/
def Spells (cs : List Char) (s : Bytes) : Prop := List.Forall₂ StandsFor cs (halves s)

theorem halves_lt (b : UInt8) : b.toNat / 16 < 16 ∧ b.toNat % 16 < 16 := by
  have := b.toNat_lt
  omega

theorem ofNat_halves (b : UInt8) : UInt8.ofNat (16 * (b.toNat / 16) + b.toNat % 16) = b := by
  rw [Nat.div_add_mod, UInt8.ofNat_toNat]

theorem halves_cons (b : UInt8) (s : Bytes) :
    halves (b :: s) = b.toNat / 16 :: b.toNat % 16 :: halves s := rfl

theorem length_halves : ∀ s : Bytes, (halves s).length = 2 * s.length
  | [] => rfl
  | b :: s => by
    rw [halves_cons, List.length_cons, List.length_cons, length_halves s, List.length_cons]
    omega

theorem lt_of_mem_halves {s : Bytes} {n : Nat} (h : n ∈ halves s) : n < 16 := by
  obtain ⟨b, -, hb⟩ := List.mem_flatMap.mp h
  obtain ⟨hhigh, hlow⟩ := halves_lt b
  simp only [List.mem_cons, List.not_mem_nil, or_false] at hb
  rcases hb with rfl | rfl
  · exact hhigh
  · exact hlow

theorem spells_cons_iff {c d : Char} {cs : List Char} {b : UInt8} {s : Bytes} :
    Spells (c :: d :: cs) (b :: s) ↔
      StandsFor c (b.toNat / 16) ∧ StandsFor d (b.toNat % 16) ∧ Spells cs s := by
  rw [Spells, halves_cons, List.forall₂_cons, List.forall₂_cons, Spells]

/-- Two digits spell the byte that has their numbers for halves. -/
theorem spells_cons_ofNat {c d : Char} {cs : List Char} {x y : Nat} {s : Bytes} (hx : x < 16)
    (hy : y < 16) (hc : StandsFor c x) (hd : StandsFor d y) (hs : Spells cs s) :
    Spells (c :: d :: cs) (UInt8.ofNat (16 * x + y) :: s) := by
  have hbyte : (UInt8.ofNat (16 * x + y)).toNat = 16 * x + y :=
    UInt8.toNat_ofNat_of_lt' (by show _ < 256; omega)
  have hhigh : (16 * x + y) / 16 = x := by omega
  have hlow : (16 * x + y) % 16 = y := by omega
  rw [spells_cons_iff, hbyte, hhigh, hlow]
  exact ⟨hc, hd, hs⟩

theorem exists_of_spells_cons {cs : List Char} {b : UInt8} {s : Bytes} (h : Spells cs (b :: s)) :
    ∃ c d rest, cs = c :: d :: rest := by
  rw [Spells, halves_cons, List.forall₂_cons_right_iff] at h
  obtain ⟨c, tail, -, htail, rfl⟩ := h
  rw [List.forall₂_cons_right_iff] at htail
  obtain ⟨d, rest, -, -, rfl⟩ := htail
  exact ⟨c, d, rest, rfl⟩

namespace Spells

variable {cs : List Char} {s : Bytes}

theorem length_eq (h : Spells cs s) : cs.length = 2 * s.length := by
  rw [List.Forall₂.length_eq h, length_halves]

theorem isDigit (h : Spells cs s) : ∀ c ∈ cs, IsDigit c := by
  intro c hc
  obtain ⟨i, hi, rfl⟩ := List.mem_iff_getElem.mp hc
  have hlen := List.Forall₂.length_eq h
  exact ⟨(halves s)[i], lt_of_mem_halves (List.getElem_mem _), List.Forall₂.get h hi (hlen ▸ hi)⟩

theorem toNat_lt (h : Spells cs s) : ∀ c ∈ cs, c.toNat < 128 := by
  intro c hc
  obtain ⟨n, hn, hstands⟩ := h.isDigit c hc
  exact toNat_lt_of_standsFor hn hstands

end Spells

/-- Digits of either case spell bytes. -/
theorem spells_map {f : Nat → Char} (hf : ∀ n < 16, StandsFor (f n) n) (s : Bytes) :
    Spells ((halves s).map f) s := by
  rw [Spells, List.forall₂_map_left_iff, List.forall₂_same]
  exact fun n hn => hf n (lt_of_mem_halves hn)

/-- An even number of digits spells bytes, and nothing else does. -/
theorem exists_spells_iff {cs : List Char} :
    (∃ s, Spells cs s) ↔ cs.length % 2 = 0 ∧ ∀ c ∈ cs, IsDigit c := by
  constructor
  · rintro ⟨s, h⟩
    exact ⟨by rw [h.length_eq]; omega, h.isDigit⟩
  · rintro ⟨heven, hdigits⟩
    -- two characters at a time, since that is what a byte takes
    induction cs using List.twoStepInduction with
    | nil => exact ⟨[], .nil⟩
    | singleton c => simp at heven
    | cons_cons c d cs ih _ =>
      obtain ⟨x, hx, hc⟩ := hdigits c List.mem_cons_self
      obtain ⟨y, hy, hd⟩ := hdigits d (List.mem_cons_of_mem c List.mem_cons_self)
      rw [List.length_cons, List.length_cons] at heven
      obtain ⟨s, hs⟩ := ih (by omega)
        fun e he => hdigits e (List.mem_cons_of_mem c (List.mem_cons_of_mem d he))
      exact ⟨_, spells_cons_ofNat hx hy hc hd hs⟩

/-! ### What is not hexadecimal -/

/-- Why bytes are no digits that spell bytes: there is an odd number of them, or else one, the
first such, is no digit. -/
inductive Refused : Bytes → Fault → Prop
  | odd {text : Bytes} : text.length % 2 = 1 → Refused text .oddLength
  | badDigit {front rest : Bytes} {b : UInt8} : (front ++ b :: rest).length % 2 = 0 →
    (∀ c ∈ front, IsDigitByte c) → ¬ IsDigitByte b →
    Refused (front ++ b :: rest) (.badDigit b front.length)

/-- Digits are read from any place on. -/
theorem decodeFrom_of_spells : ∀ {s : Bytes} {cs : List Char} (place : Nat), Spells cs s →
    decodeFrom place (cs.map charByte) = .ok s
  | [], cs, _, h => by
    have hnil : cs = [] := List.length_eq_zero_iff.mp h.length_eq
    rw [hnil]
    rfl
  | b :: s, cs, place, h => by
    obtain ⟨c, d, rest, rfl⟩ := exists_of_spells_cons h
    obtain ⟨hc, hd, hrest⟩ := spells_cons_iff.mp h
    obtain ⟨hhigh, hlow⟩ := halves_lt b
    rw [List.map_cons, List.map_cons, decodeFrom, value?_of_standsFor hhigh hc,
      value?_of_standsFor hlow hd]
    simp only
    rw [decodeFrom_of_spells (place + 2) hrest, ofNat_halves]
    rfl

/-- What is read from a place on is digits. -/
theorem spells_of_decodeFrom : ∀ {text : Bytes} {place : Nat} {s : Bytes},
    decodeFrom place text = .ok s → ∃ cs, Spells cs s ∧ text = cs.map charByte
  | [], _, s, h => by
    cases h
    exact ⟨[], .nil, rfl⟩
  | [_], _, _, h => nomatch h
  | a :: b :: text, place, s, h => by
    rw [decodeFrom] at h
    split at h
    next x y hx hy =>
      obtain ⟨tail, htail, hs⟩ := bind_eq_ok_iff.mp h
      cases hs
      obtain ⟨cs, hcs, rfl⟩ := spells_of_decodeFrom htail
      obtain ⟨hxlt, c, hc, rfl⟩ := exists_standsFor hx
      obtain ⟨hylt, d, hd, rfl⟩ := exists_standsFor hy
      exact ⟨c :: d :: cs, spells_cons_ofNat hxlt hylt hc hd hcs, rfl⟩
    next => cases h
    next => cases h

/-- Reading stops at the first byte that is no digit. -/
theorem decodeFrom_of_not_isDigitByte : ∀ {front rest : Bytes} {b : UInt8} (place : Nat),
    (front ++ b :: rest).length % 2 = 0 → (∀ c ∈ front, IsDigitByte c) → ¬ IsDigitByte b →
    decodeFrom place (front ++ b :: rest) = .error (.badDigit b (place + front.length))
  | [], [], _, _, heven, _, _ => by simp at heven
  | [], _ :: _, b, place, _, _, hb => by
    rw [List.nil_append, decodeFrom, not_isDigitByte.mp hb]
    rfl
  | [a], rest, b, place, _, hfront, hb => by
    obtain ⟨x, hx⟩ := exists_value? (hfront a List.mem_cons_self)
    rw [List.singleton_append, decodeFrom, hx, not_isDigitByte.mp hb]
    rfl
  | a :: c :: front, rest, b, place, heven, hfront, hb => by
    obtain ⟨x, hx⟩ := exists_value? (hfront a List.mem_cons_self)
    obtain ⟨y, hy⟩ := exists_value? (hfront c (List.mem_cons_of_mem a List.mem_cons_self))
    rw [List.cons_append, List.cons_append, List.length_cons, List.length_cons] at heven
    have hlater : decodeFrom (place + 2) (front ++ b :: rest) =
        .error (.badDigit b (place + 2 + front.length)) :=
      decodeFrom_of_not_isDigitByte (place + 2) (by omega)
        (fun d hd => hfront d (List.mem_cons_of_mem a (List.mem_cons_of_mem c hd))) hb
    rw [List.cons_append, List.cons_append, decodeFrom, hx, hy]
    simp only
    rw [hlater, error_bind, List.length_cons, List.length_cons, Nat.add_assoc place 2,
      Nat.add_comm 2]

/-- Reading an even number of bytes stops at none but the first that is no digit. -/
theorem refused_of_decodeFrom : ∀ {text : Bytes} {place : Nat} {fault : Fault},
    text.length % 2 = 0 → decodeFrom place text = .error fault →
    ∃ front b rest, text = front ++ b :: rest ∧ fault = .badDigit b (place + front.length) ∧
      (∀ c ∈ front, IsDigitByte c) ∧ ¬ IsDigitByte b
  | [], _, _, _, h => nomatch h
  | [_], _, _, heven, _ => by simp at heven
  | a :: b :: text, place, fault, heven, h => by
    rw [decodeFrom] at h
    rw [List.length_cons, List.length_cons] at heven
    split at h
    next x y hx hy =>
      rcases bind_eq_error_iff.mp h with h | ⟨_, _, hok⟩
      · obtain ⟨front, c, rest, rfl, rfl, hfront, hc⟩ := refused_of_decodeFrom (by omega) h
        refine ⟨a :: b :: front, c, rest, rfl, ?_, ?_, hc⟩
        · rw [List.length_cons, List.length_cons, Nat.add_assoc place 2, Nat.add_comm 2]
        · exact List.forall_mem_cons.mpr ⟨isDigitByte_of_value? hx,
            List.forall_mem_cons.mpr ⟨isDigitByte_of_value? hy, hfront⟩⟩
      · cases hok
    next x hx hy =>
      cases h
      exact ⟨[a], b, text, rfl, rfl, List.forall_mem_singleton.mpr (isDigitByte_of_value? hx),
        not_isDigitByte.mpr hy⟩
    next hx =>
      cases h
      exact ⟨[], a, b :: text, rfl, rfl, fun c hc => absurd hc List.not_mem_nil,
        not_isDigitByte.mpr hx⟩

/-- What is read is digits, and all digits are read. -/
theorem decode_eq_ok_iff {text s : Bytes} :
    decode text = .ok s ↔ ∃ cs, Spells cs s ∧ text = cs.map charByte := by
  unfold decode
  constructor
  · intro h
    split at h
    · cases h
    · exact spells_of_decodeFrom h
  · rintro ⟨cs, hcs, rfl⟩
    have hlen := hcs.length_eq
    rw [List.length_map, if_neg (by omega)]
    exact decodeFrom_of_spells 0 hcs

/-- What is refused is refused for the first reason there is. -/
theorem decode_eq_error_iff {text : Bytes} {fault : Fault} :
    decode text = .error fault ↔ Refused text fault := by
  unfold decode
  constructor
  · intro h
    split at h
    next hodd =>
      cases h
      exact .odd hodd
    next hodd =>
      have heven : text.length % 2 = 0 := by omega
      obtain ⟨front, b, rest, rfl, rfl, hfront, hb⟩ := refused_of_decodeFrom heven h
      rw [Nat.zero_add]
      exact .badDigit heven hfront hb
  · rintro (hodd | ⟨heven, hfront, hb⟩)
    · rw [if_pos hodd]
    · rw [if_neg (by omega), decodeFrom_of_not_isDigitByte 0 heven hfront hb, Nat.zero_add]

/-- A text is read exactly if its characters are digits. -/
theorem decode_utf8_eq_ok_iff {cs : List Char} {s : Bytes} :
    decode (utf8 (String.ofList cs)) = .ok s ↔ Spells cs s := by
  rw [decode_eq_ok_iff]
  constructor
  · rintro ⟨cs', hcs', h⟩
    rw [← utf8_ofList hcs'.toNat_lt] at h
    rwa [String.ofList_injective (utf8_injective h)]
  · intro h
    exact ⟨cs, h, utf8_ofList h.toNat_lt⟩

theorem encode_eq (s : Bytes) : encode s = String.ofList ((halves s).map digit) := by
  rw [encode, halves, List.map_flatMap]
  rfl

theorem decode_encode (s : Bytes) : decode (utf8 (encode s)) = .ok s := by
  rw [encode_eq, decode_utf8_eq_ok_iff]
  exact spells_map (fun n _ => .inl rfl) s

end Hex
end RelayLedger
