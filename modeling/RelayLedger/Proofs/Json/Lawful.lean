/-
# What is written is read back

A format is lawful if its reader gives back what its writer wrote and leaves what follows, whatever
that is as long as a number does not go on into it. Each way of building formats keeps the law; a
list is read back by going through its elements. `levels` is how deep the brackets of a format nest.

Key definitions: `Json.Opens`, `Json.Format.Lawful`, `Json.Format.behind`.
Key theorems: `Json.Format.spelled_lawful`, `Json.Format.list_lawful`, `Json.Format.option_lawful`,
`Json.Format.Lawful.write_injective`.
-/
import RelayLedger.Fault
import RelayLedger.Proofs.Json.Lexeme

namespace RelayLedger
namespace Json

variable {α β σ : Type}

/-! ### Beginnings -/

/-- A value may begin like this: a reader does not take it for anything around a value. -/
def Opens : Bytes → Prop
  | [] => False
  | b :: _ => isBlank b = false ∧ b ≠ comma ∧ b ≠ closeBracket

theorem exists_of_opens : ∀ {s : Bytes}, Opens s →
    ∃ b t, s = b :: t ∧ isBlank b = false ∧ b ≠ comma ∧ b ≠ closeBracket
  | [], h => h.elim
  | b :: t, h => ⟨b, t, rfl, h⟩

theorem escape_opens (text : String) : Opens (escape text) := by
  rw [escape]
  exact ⟨by decide, by decide, by decide⟩

/-- No text is taken for `null`. -/
theorem escape_ne_null (text : String) (s : Bytes) : escape text ≠ 110 :: s := by
  intro h
  rw [escape, List.cons_append, List.cons.injEq] at h
  exact absurd h.1 (by decide)

/-- No number is taken for `null`. -/
theorem digits_ne_null (n : Nat) (s : Bytes) : digits n ≠ 110 :: s := by
  intro h
  obtain ⟨b, t, hbt, hb⟩ := exists_digits n
  rw [hbt, List.cons.injEq] at h
  rw [h.1] at hb
  exact absurd hb (by decide)

theorem digits_opens (n : Nat) : Opens (digits n) := by
  obtain ⟨b, s, hbs, hb⟩ := exists_digits n
  obtain ⟨hblank, -, hcomma, hbracket⟩ := isDigit_facts hb
  rw [hbs]
  exact ⟨hblank, hcomma, hbracket⟩

theorem toString_int_opens (i : Int) : Opens (utf8 (toString i)) := by
  rw [utf8_toString_int]
  split
  · exact ⟨by decide, by decide, by decide⟩
  · exact digits_opens i.natAbs

/-- The reader of a format gives back what its writer wrote, if so many levels are left. -/
structure Format.Lawful (f : Format α) (levels : Nat) : Prop where
  read_write : ∀ (a : α) (room : Nat) (rest : Bytes), levels ≤ room → Stops rest →
    f.read room (f.write a ++ rest) = .ok (a, rest)
  opens : ∀ a : α, Opens (f.write a)

namespace Format

variable {levels : Nat}

/-! ### Leaves -/

theorem text_lawful : text.Lawful levels where
  read_write t _ rest _ _ := readString_escape t rest
  opens := escape_opens

theorem spelled_lawful {spell : α → String} {parse : String → Except Reason α}
    (h : ∀ a, parse (spell a) = .ok a) : (spelled spell parse).Lawful levels where
  read_write a _ rest _ _ := by
    simp only [spelled, readString_escape, ok_bind, h]
    rfl
  opens a := escape_opens (spell a)

theorem word_lawful {bits : Nat} : (word bits).Lawful levels where
  read_write w _ _ _ hrest := readWord_digits w hrest
  opens w := digits_opens w.toNat

theorem bool_lawful : bool.Lawful levels where
  read_write
    | true, _, rest, _, _ => by
      have htrue : utf8 (toString true) = 116 :: utf8 "rue" := by decide
      have htail : (utf8 "rue").isPrefixOf (utf8 "rue" ++ rest) = true := by simp
      simp only [bool, htrue, List.cons_append, readBool,
        skipBlank_cons (by decide : isBlank 116 = false)]
      rw [if_pos trivial, readWordTail, if_pos htail, List.drop_left]
      rfl
    | false, _, rest, _, _ => by
      have hfalse : utf8 (toString false) = 102 :: utf8 "alse" := by decide
      have htail : (utf8 "alse").isPrefixOf (utf8 "alse" ++ rest) = true := by simp
      simp only [bool, hfalse, List.cons_append, readBool,
        skipBlank_cons (by decide : isBlank 102 = false)]
      rw [if_neg (by decide), if_pos trivial, readWordTail, if_pos htail, List.drop_left]
      rfl
  opens
    | true => ⟨by decide, by decide, by decide⟩
    | false => ⟨by decide, by decide, by decide⟩

theorem numeral_lawful {bits : Nat} : (numeral bits).Lawful levels :=
  spelled_lawful fun w => by
    rw [mapError_eq_ok_iff]
    exact Numeral.parse_toString w

theorem base64_lawful : base64.Lawful levels :=
  spelled_lawful fun s => by rw [Base64.decode_encode, Option.elim_some]

theorem fixed_lawful {kind : FixedKind} : (fixed kind).Lawful levels :=
  spelled_lawful fun a => by
    rw [mapError_eq_ok_iff]
    exact Fixed.parse_toString a

theorem renamed_lawful {f : Format α} {make : α → β} {parts : β → α} (hf : f.Lawful levels)
    (h : ∀ b, make (parts b) = b) : (f.renamed make parts).Lawful levels where
  read_write b room rest hroom hrest := by
    simp only [renamed, hf.read_write (parts b) room rest hroom hrest]
    show Except.ok (make (parts b), rest) = .ok (b, rest)
    rw [h]
  opens b := hf.opens (parts b)

/-- A default is used only where nothing was written. -/
theorem withDefault_lawful {f : Format α} (hf : f.Lawful levels) (a : α) :
    (f.withDefault a).Lawful levels where
  read_write := hf.read_write
  opens := hf.opens

theorem chainAddress_lawful : chainAddress.Lawful levels :=
  renamed_lawful text_lawful fun _ => rfl

/-! ### Lists -/

/-- What is written behind the first part of a list or an object: the other parts, each with a comma
in front, the closing bracket, and what follows it. -/
def behind (close : UInt8) (parts : List Bytes) (rest : Bytes) : Bytes :=
  parts.flatMap (comma :: ·) ++ close :: rest

theorem behind_cons (close : UInt8) (part : Bytes) (parts : List Bytes) (rest : Bytes) :
    behind close (part :: parts) rest = comma :: (part ++ behind close parts rest) := by
  rw [behind, List.flatMap_cons, List.append_assoc, List.cons_append, ← behind]

theorem commaSeparated_cons_append (close : UInt8) (part : Bytes) :
    ∀ (parts : List Bytes) (rest : Bytes),
    commaSeparated (part :: parts) ++ close :: rest = part ++ behind close parts rest
  | [], _ => rfl
  | next :: parts, rest => by
    rw [commaSeparated, List.append_assoc, List.cons_append,
      commaSeparated_cons_append close next parts rest, behind_cons]

/-- A number ends before the rest of a list. -/
theorem stops_behind {close : UInt8} (h : Numeral.isDigit close = false) (parts : List Bytes)
    (rest : Bytes) : Stops (behind close parts rest) := by
  cases parts with
  | nil => exact h
  | cons part parts =>
    rw [behind_cons]
    exact (by decide : Numeral.isDigit comma = false)

/-- An element is read where it starts; the elements behind it follow. -/
theorem read_element {f : Format α} (hf : f.Lawful levels) {room : Nat} (hroom : levels ≤ room)
    (a : α) {l : List α} {rest : Bytes} {fuel : Nat}
    (ih : elements (f.read room) fuel false (behind closeBracket (l.map f.write) rest) =
      .ok (l, rest)) :
    (do
      let (a, s) ← f.read room (f.write a ++ behind closeBracket (l.map f.write) rest)
      let (as, s) ← elements (f.read room) fuel false s
      return (a :: as, s)) = (.ok (a :: l, rest) : Except Reason (List α × Bytes)) := by
  have hstops := stops_behind (by decide : Numeral.isDigit closeBracket = false)
    (l.map f.write) rest
  rw [hf.read_write a room _ hroom hstops, ok_bind]
  simp only
  rw [ih]
  rfl

theorem elements_close (read : Bytes → Except Reason (α × Bytes)) (fuel : Nat) (first : Bool)
    (rest : Bytes) : elements read (fuel + 1) first (closeBracket :: rest) = .ok ([], rest) := by
  rw [elements, skipBlank_cons (by decide)]
  simp only
  rw [if_pos trivial]

/-- The elements after the first are read. The fuel is more than the bytes left, and every element
takes some. -/
theorem elements_behind {f : Format α} (hf : f.Lawful levels) {room : Nat} (hroom : levels ≤ room)
    (rest : Bytes) : ∀ (l : List α) {fuel : Nat},
    (behind closeBracket (l.map f.write) rest).length < fuel →
    elements (f.read room) fuel false (behind closeBracket (l.map f.write) rest) = .ok (l, rest)
  | _, 0, h => absurd h (Nat.not_lt_zero _)
  | [], fuel + 1, _ => elements_close _ fuel false rest
  | a :: l, fuel + 1, h => by
    obtain ⟨b, t, hbt, hblank, -, hbracket⟩ := exists_of_opens (hf.opens a)
    rw [List.map_cons, behind_cons] at h ⊢
    have hlen : (behind closeBracket (l.map f.write) rest).length < fuel := by
      rw [List.length_cons, List.length_append] at h
      omega
    have hstart : elementStart false comma
        (f.write a ++ behind closeBracket (l.map f.write) rest) =
        .ok (false, f.write a ++ behind closeBracket (l.map f.write) rest) := by
      rw [elementStart, if_pos rfl, hbt, List.cons_append, skipBlank_cons hblank]
      simp only
      rw [if_neg hbracket]
    rw [elements, skipBlank_cons (by decide)]
    simp only
    rw [if_neg (by decide), hstart]
    exact read_element hf hroom a (elements_behind hf hroom rest l hlen)

theorem elements_written {f : Format α} (hf : f.Lawful levels) {room : Nat} (hroom : levels ≤ room)
    (rest : Bytes) (l : List α) {fuel : Nat}
    (h : (commaSeparated (l.map f.write) ++ closeBracket :: rest).length < fuel) :
    elements (f.read room) fuel true (commaSeparated (l.map f.write) ++ closeBracket :: rest) =
      .ok (l, rest) := by
  obtain ⟨fuel, rfl⟩ : ∃ n, fuel = n + 1 := ⟨fuel - 1, by omega⟩
  cases l with
  | nil => exact elements_close _ fuel true rest
  | cons a l =>
    obtain ⟨b, t, hbt, hblank, hcomma, hbracket⟩ := exists_of_opens (hf.opens a)
    rw [List.map_cons, commaSeparated_cons_append] at h ⊢
    have hlen : (behind closeBracket (l.map f.write) rest).length < fuel := by
      rw [hbt, List.length_append, List.length_cons] at h
      omega
    have hread := read_element hf hroom a (elements_behind hf hroom rest l hlen)
    rw [hbt, List.cons_append] at hread ⊢
    rw [elements, skipBlank_cons hblank]
    simp only
    rw [if_neg hbracket, elementStart, if_neg hcomma, if_pos rfl]
    exact hread

theorem list_lawful {f : Format α} (hf : f.Lawful levels) : (list f).Lawful (levels + 1) where
  read_write l room rest hroom _ := by
    obtain ⟨room, rfl⟩ : ∃ n, room = n + 1 := ⟨room - 1, by omega⟩
    simp only [list, List.cons_append, List.append_assoc, List.nil_append]
    rw [readList, skipBlank_cons (by decide)]
    simp only
    rw [if_pos trivial]
    exact elements_written hf (by omega) rest l (Nat.lt_succ_self _)
  opens l := ⟨by decide, by decide, by decide⟩

/-! ### Options -/

/-- An option is told from `null` by its first byte. -/
theorem option_lawful {f : Format α} (hf : f.Lawful levels)
    (h : ∀ a s, f.write a ≠ 110 :: s) : (option f).Lawful levels where
  read_write
    | none, room, rest, _, _ => by
      have hnull : utf8 "null" = 110 :: utf8 "ull" := by decide
      have htail : (utf8 "ull").isPrefixOf (utf8 "ull" ++ rest) = true := by simp
      simp only [option, hnull, List.cons_append, skipBlank_cons (by decide : isBlank 110 = false)]
      rw [if_pos trivial, readWordTail, if_pos htail, List.drop_left]
      rfl
    | some a, room, rest, hroom, hrest => by
      obtain ⟨b, s, hwrite, hblank, -, -⟩ := exists_of_opens (hf.opens a)
      have hread := hf.read_write a room rest hroom hrest
      have hb : b ≠ 110 := fun e => h a s (e ▸ hwrite)
      rw [hwrite, List.cons_append] at hread
      simp only [option, hwrite, List.cons_append, skipBlank_cons hblank]
      rw [if_neg hb, hread]
      rfl
  opens
    | none => ⟨by decide, by decide, by decide⟩
    | some a => hf.opens a

theorem option_word_lawful {bits : Nat} : (option (word bits)).Lawful levels :=
  option_lawful word_lawful fun w => digits_ne_null w.toNat

theorem option_chainAddress_lawful : (option chainAddress).Lawful levels :=
  option_lawful chainAddress_lawful fun a => escape_ne_null a.text

/-! ### What was written -/

/-- What is written tells which value it was. -/
theorem Lawful.write_injective {f : Format α} (hf : f.Lawful levels) {a b : α}
    (h : f.write a = f.write b) : a = b := by
  have ha := hf.read_write a levels [] (Nat.le_refl levels) trivial
  rw [h, hf.read_write b levels [] (Nat.le_refl levels) trivial] at ha
  cases ha
  rfl

end Format
end Json
end RelayLedger
