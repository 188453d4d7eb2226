/-
# Why a JSON text is refused

Reading is one pass from left to right, and the first thing that is wrong is the reason. Reasons are
causes; `Reason.message` is their wording.

Key definitions: `Json.Reason`, `Json.Reason.message`.
-/
import RelayLedger.Fixed
import RelayLedger.Text.Numeral

namespace RelayLedger
namespace Json

/-- Why a JSON text is no value of the type wanted. -/
inductive Reason
  /-- The text ends where a value should start. -/
  | endOfValue
  | endOfString
  | endOfList
  | endOfObject
  | expectedColon
  | expectedListEnd
  | expectedObjectEnd
  /-- One of the words `true`, `false` and `null` is misspelt, or a variant starts wrongly. -/
  | expectedWord
  | expectedValue
  | badEscape
  /-- A byte below 32 in a string that has escapes. -/
  | controlInString
  | badNumber
  | wrongType
  /-- A string is not UTF-8. -/
  | badCodePoint
  | keyNotString
  /-- The first half of a pair, with something else behind it. -/
  | loneSurrogate
  /-- The second half of a pair, with no first half in front of it. -/
  | expectedHighSurrogate
  /-- The first half of a pair where the second half of another is due. -/
  | expectedLowSurrogate
  | trailingText
  | trailingComma
  | tooNested
  | missingField (name : String)
  | repeatedField (name : String)
  | unknownVariant (name : String) (known : List String)
  | fixed (fault : Fixed.Fault)
  | notBase64 (text : String)
  | numeral (text : String) (fault : Numeral.Fault)
  deriving DecidableEq

/-- A name in grave accents. -/
def quoted (name : String) : String := "`" ++ name ++ "`"

/-- Says that one of the known names was expected. -/
def expectedNames : List String → String
  | [a] => s!"expected {quoted a}"
  | [a, b] => s!"expected {quoted a} or {quoted b}"
  | names => "expected one of " ++ String.intercalate ", " (names.map quoted)

/-- The wording of a fault in general. -/
def general (text : String) : String := "Generic error: " ++ text

/-- The wording of a reason. -/
def Reason.message : Reason → String
  | .endOfValue => "EOF while parsing a JSON value."
  | .endOfString => "EOF while parsing a string."
  | .endOfList => "EOF while parsing a list."
  | .endOfObject => "EOF while parsing an object."
  | .expectedColon => "Expected this character to be a `':'`."
  | .expectedListEnd => "Expected this character to be either a `','` ora `']'`."
  | .expectedObjectEnd => "Expected this character to be either a `','` or a `'\x7d'`."
  | .expectedWord => "Expected to parse either a `true`, `false`, or a `null`."
  | .expectedValue => "Expected this character to start a JSON value."
  | .badEscape => "Invalid escape sequence."
  | .controlInString => "Control character found in string."
  | .badNumber => "Invalid number."
  | .wrongType => "Invalid type"
  | .badCodePoint => "Invalid unicode code point."
  | .keyNotString => "Object key is not a string."
  | .loneSurrogate =>
    "Found a lone surrogate, which can exist in JSON but cannot be encoded to UTF-8."
  | .expectedHighSurrogate => "Expected a high surrogate (D800–DBFF)."
  | .expectedLowSurrogate => "Expected a low surrogate (DC00–DFFF)."
  | .trailingText => "JSON has non-whitespace trailing characters after the value."
  | .trailingComma => "JSON has a comma after the last value in an array or map."
  | .tooNested => "JSON is nested too deeply, exceeded the recursion limit."
  | .missingField name => s!"missing field {quoted name}"
  | .repeatedField name => s!"duplicate field {quoted name}"
  | .unknownVariant name known => s!"unknown variant {quoted name}, {expectedNames known}"
  | .fixed fault => general fault.message
  | .notBase64 text => s!"invalid base64: {text}"
  | .numeral text fault => s!"invalid $t '{text}' - {general fault.message}"

end Json
end RelayLedger
