/-
# Spelled values are read back

Bytes are spelled in base64, identifiers in hexadecimal and numbers in decimal. Each reader gives
back what its writer was given: an identifier by the law of hexadecimal digits (`Hex.decode_encode`),
base64 by induction on the bytes, three of them at a time, a number by induction on its digits.

Key theorems: `Fixed.parse_toString`, `Base64.decode_encode`, `Numeral.parse_toString`.
-/
import RelayLedger.Fixed
import RelayLedger.Json.Lexeme
import RelayLedger.Proofs.Hexadecimal.Digits
import RelayLedger.Text.Base64

namespace RelayLedger

/-! ### Identifiers -/

theorem Fixed.parse_toString {kind : FixedKind} (a : Fixed kind) :
    Fixed.parse kind a.toString = .ok a := by
  have hmark : utf8 "0x" = [48, 120] := by decide
  have htext : unmarked (utf8 a.toString) = utf8 (Hex.encode a.bytes) := by
    rw [Fixed.toString, utf8_append, hmark]
    rfl
  rw [Fixed.parse, htext, Hex.decode_encode]
  simp only
  rw [ofBytes, dif_pos a.length_eq]

/-! ### Base64 -/

namespace Base64

theorem value?_symbol : ∀ n < 64, value? (symbol n) = some n := by decide

theorem symbol_ne_pad : ∀ n < 64, symbol n ≠ '=' := by decide

/-- The six-bit numbers of a byte string. -/
def sixes : Bytes → List Nat
  | [] => []
  | [a] => [a.toNat / 4, a.toNat % 4 * 16]
  | [a, b] => [a.toNat / 4, a.toNat % 4 * 16 + b.toNat / 16, b.toNat % 16 * 4]
  | a :: b :: c :: rest =>
    a.toNat / 4 :: (a.toNat % 4 * 16 + b.toNat / 16) :: (b.toNat % 16 * 4 + c.toNat / 64) ::
      c.toNat % 64 :: sixes rest

/-- How many signs are missing to a multiple of four. -/
def padding (s : Bytes) : Nat := (4 - (sixes s).length % 4) % 4

theorem sixes_lt : ∀ (s : Bytes), ∀ n ∈ sixes s, n < 64
  | [], n, h => by simp [sixes] at h
  | [a], n, h => by
    have := a.toNat_lt
    simp only [sixes, List.mem_cons, List.not_mem_nil, or_false] at h
    rcases h with rfl | rfl <;> omega
  | [a, b], n, h => by
    have := a.toNat_lt
    have := b.toNat_lt
    simp only [sixes, List.mem_cons, List.not_mem_nil, or_false] at h
    rcases h with rfl | rfl | rfl <;> omega
  | a :: b :: c :: rest, n, h => by
    have := a.toNat_lt
    have := b.toNat_lt
    have := c.toNat_lt
    simp only [sixes, List.mem_cons] at h
    rcases h with rfl | rfl | rfl | rfl | h
    · omega
    · omega
    · omega
    · omega
    · exact sixes_lt rest n h

theorem encodeChars_eq : ∀ s : Bytes,
    encodeChars s = (sixes s).map symbol ++ List.replicate (padding s) '='
  | [] => rfl
  | [_] => rfl
  | [_, _] => rfl
  | a :: b :: c :: rest => by
    have hpad : padding (a :: b :: c :: rest) = padding rest := by
      simp only [padding, sixes, List.length_cons]
      omega
    rw [encodeChars, encodeChars_eq rest, hpad]
    rfl

theorem join_sixes : ∀ s : Bytes, join (sixes s) = some s
  | [] => rfl
  | [a] => by
    have ha : a.toNat / 4 * 4 + a.toNat % 4 * 16 / 16 = a.toNat := by omega
    rw [sixes, join, if_pos (by omega), ha, UInt8.ofNat_toNat]
  | [a, b] => by
    have := b.toNat_lt
    have ha : a.toNat / 4 * 4 + (a.toNat % 4 * 16 + b.toNat / 16) / 16 = a.toNat := by omega
    have hb : (a.toNat % 4 * 16 + b.toNat / 16) % 16 * 16 + b.toNat % 16 * 4 / 4 = b.toNat := by
      omega
    rw [sixes, join, if_pos (by omega), ha, hb, UInt8.ofNat_toNat, UInt8.ofNat_toNat]
  | a :: b :: c :: rest => by
    have := b.toNat_lt
    have := c.toNat_lt
    have ha : a.toNat / 4 * 4 + (a.toNat % 4 * 16 + b.toNat / 16) / 16 = a.toNat := by omega
    have hb : (a.toNat % 4 * 16 + b.toNat / 16) % 16 * 16 +
        (b.toNat % 16 * 4 + c.toNat / 64) / 4 = b.toNat := by omega
    have hc : (b.toNat % 16 * 4 + c.toNat / 64) % 4 * 64 + c.toNat % 64 = c.toNat := by omega
    rw [sixes, join, join_sixes rest, ha, hb, hc, UInt8.ofNat_toNat, UInt8.ofNat_toNat,
      UInt8.ofNat_toNat]
    rfl

theorem mapM_value?_symbol : ∀ {l : List Nat}, (∀ n ∈ l, n < 64) →
    (l.map symbol).mapM value? = some l
  | [], _ => rfl
  | n :: l, h => by
    rw [List.map_cons, List.mapM_cons, value?_symbol n (h n List.mem_cons_self),
      mapM_value?_symbol fun m hm => h m (List.mem_cons_of_mem _ hm)]
    rfl

theorem decode_encode (s : Bytes) : decode (encode s) = some s := by
  have hsymbols : ∀ c ∈ (sixes s).map symbol, (c != '=') = true := by
    intro c hc
    obtain ⟨n, hn, rfl⟩ := List.mem_map.mp hc
    simpa using symbol_ne_pad n (sixes_lt s n hn)
  have hpads : ∀ c ∈ List.replicate (padding s) '=', (c == '=') = true := by
    intro c hc
    simp [List.eq_of_mem_replicate hc]
  have htake : (encodeChars s).takeWhile (· != '=') = (sixes s).map symbol := by
    rw [encodeChars_eq, List.takeWhile_append_of_pos hsymbols]
    cases padding s <;> simp [List.replicate_succ]
  have hdrop : (encodeChars s).dropWhile (· != '=') = List.replicate (padding s) '=' := by
    rw [encodeChars_eq, List.dropWhile_append_of_pos hsymbols]
    cases padding s <;> simp [List.replicate_succ]
  rw [decode, encode, String.toList_ofList, decodeChars]
  simp only [htake, hdrop]
  rw [if_pos, mapM_value?_symbol (sixes_lt s), Option.bind_some, join_sixes]
  refine ⟨List.all_eq_true.mpr hpads, ?_⟩
  rw [List.length_replicate, List.length_map]
  exact Nat.le_refl _

end Base64

/-! ### Decimal -/

namespace Numeral

theorem toNat_of_isDigit {c : Char} (h : c.isDigit = true) : 48 ≤ c.toNat ∧ c.toNat ≤ 57 := by
  simpa [Char.isDigit, UInt32.le_iff_toNat_le] using h

theorem toNat_lt_of_isDigit {c : Char} (h : c.isDigit = true) : c.toNat < 128 := by
  have := toNat_of_isDigit h
  omega

theorem isDigit_charByte {c : Char} (h : c.isDigit = true) : isDigit (charByte c) = true := by
  simp only [isDigit, Bool.and_eq_true, decide_eq_true_eq, UInt8.le_iff_toNat_le,
    toNat_charByte (toNat_lt_of_isDigit h)]
  exact toNat_of_isDigit h

theorem isDigit_of_mem_toDigits {n : Nat} {c : Char} (h : c ∈ Nat.toDigits 10 n) :
    c.isDigit = true := Nat.isDigit_of_mem_toDigits (by decide) (by decide) h

theorem all_isDigit_digits (n : Nat) : (Json.digits n).all isDigit = true := by
  rw [List.all_eq_true]
  intro b hb
  obtain ⟨c, hc, rfl⟩ := List.mem_map.mp hb
  exact isDigit_charByte (isDigit_of_mem_toDigits hc)

theorem digits_ne_nil (n : Nat) : Json.digits n ≠ [] := by
  rw [Json.digits, Ne, List.map_eq_nil_iff]
  exact Nat.toDigits_ne_nil

theorem utf8_toString (n : Nat) : utf8 (toString n) = Json.digits n := by
  rw [Nat.toString_eq_ofList_toDigits,
    utf8_ofList fun c hc => toNat_lt_of_isDigit (isDigit_of_mem_toDigits hc)]
  rfl

/-- Reading on from a number is reading the characters on from it. -/
theorem foldl_value : ∀ (l : List Char) (n : Nat), (∀ c ∈ l, c.isDigit = true) →
    (l.map charByte).foldl (fun n b => n * 10 + (b.toNat - 48)) n = Nat.ofDigitChars 10 l n
  | [], n, _ => by rw [List.map_nil, List.foldl_nil, Nat.ofDigitChars_nil]
  | c :: l, n, h => by
    rw [List.map_cons, List.foldl_cons,
      toNat_charByte (toNat_lt_of_isDigit (h c List.mem_cons_self)), Nat.mul_comm n,
      foldl_value l _ fun d hd => h d (List.mem_cons_of_mem _ hd), Nat.ofDigitChars_cons]
    rfl

theorem value_digits (n : Nat) : value (Json.digits n) = n := by
  have h := foldl_value (Nat.toDigits 10 n) 0 fun c hc => isDigit_of_mem_toDigits hc
  rw [Nat.ofDigitChars_ten_toDigits] at h
  exact h

theorem unsigned_digits (n : Nat) : unsigned (Json.digits n) = Json.digits n := by
  have hall := all_isDigit_digits n
  cases h : Json.digits n with
  | nil => rfl
  | cons b s =>
    have hb : isDigit b = true := by
      rw [h, List.all_cons, Bool.and_eq_true] at hall
      exact hall.1
    have hne : b ≠ 43 := by
      intro e
      rw [e] at hb
      revert hb
      decide
    rw [unsigned, if_neg hne]

theorem parse_toString {bits : Nat} (w : Word bits) : parse bits (toString w) = .ok w := by
  have htext : utf8 (toString w) = Json.digits w.toNat := utf8_toString w.toNat
  have hne : (Json.digits w.toNat).isEmpty = false := by
    simpa using digits_ne_nil w.toNat
  have hw : Word.ofNat? w.toNat = some w := Word.ofNat?_eq_some_iff.mpr rfl
  simp only [parse, htext, unsigned_digits, hne, all_isDigit_digits, value_digits, hw,
    Bool.false_eq_true, if_false, if_true]

end Numeral
end RelayLedger
