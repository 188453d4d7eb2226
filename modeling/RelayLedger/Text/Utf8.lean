/-
# Texts as bytes

What is stored, sent and signed is bytes; a text is a `String`. `utf8` writes a text in UTF-8 and
`ofUtf8?` reads it back, refusing what is not UTF-8.

Key definitions: `utf8`, `ofUtf8?`.
Key theorems: `ofUtf8?_utf8`, `utf8_injective`.
-/
import RelayLedger.Bytes

namespace RelayLedger

/-- The UTF-8 bytes of a text. -/
def utf8 (text : String) : Bytes := text.toUTF8.data.toList

/-- The text that has these UTF-8 bytes. -/
def ofUtf8? (s : Bytes) : Option String := String.fromUTF8? ⟨s.toArray⟩

@[simp] theorem ofUtf8?_utf8 (text : String) : ofUtf8? (utf8 text) = some text := by
  cases text with
  | ofByteArray s valid =>
    show String.fromUTF8? s = _
    rw [String.fromUTF8?, dif_pos valid, String.fromUTF8]

theorem utf8_injective {a b : String} (h : utf8 a = utf8 b) : a = b := by
  have := congrArg ofUtf8? h
  simpa using this

end RelayLedger
