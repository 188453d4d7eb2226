/-
# Byte strings of fixed width

Account addresses have twenty bytes, transaction hashes thirty-two. Both are written as `0x` and
lower-case hexadecimal digits and read from digits of either case, with or without `0x` or `0X` in
front, and are ordered by their bytes.

Key definitions: `Fixed`, `Address`, `TxHash`, `Fixed.ofBytes`, `Fixed.parse`, `Fixed.toString`.
-/
import RelayLedger.Text.Hex

namespace RelayLedger

/-- What a byte string of fixed width identifies. -/
inductive FixedKind
  | address
  | txHash
  deriving DecidableEq

/-- The number of bytes. -/
def FixedKind.width : FixedKind → Nat
  | .address => 20
  | .txHash => 32

/-- What messages call it. -/
def FixedKind.noun : FixedKind → String
  | .address => "EVM address"
  | .txHash => "transaction hash"

/-- A byte string that identifies something of the given kind. -/
structure Fixed (kind : FixedKind) where
  bytes : Bytes
  length_eq : bytes.length = kind.width
  deriving DecidableEq

/-- The address of an account of the ledger. -/
abbrev Address := Fixed .address

/-- The hash of a transaction. -/
abbrev TxHash := Fixed .txHash

namespace Fixed

variable {kind : FixedKind}

theorem ext_bytes {a b : Fixed kind} (h : a.bytes = b.bytes) : a = b := by
  cases a; cases b; cases h; rfl

/-- Why a text or a byte string identifies nothing of a kind. -/
inductive Fault
  /-- The text is not hexadecimal. -/
  | notHex (kind : FixedKind) (text : String) (fault : Hex.Fault)
  /-- The number of bytes is not that of the kind. -/
  | wrongLength (kind : FixedKind) (length : Nat)
  deriving DecidableEq

/-- The wording of a refusal. -/
def Fault.message : Fault → String
  | .notHex kind text fault => s!"Invalid {kind.noun} hex '{text}': {fault.message}"
  | .wrongLength kind length =>
    s!"Invalid {kind.noun} length: expected {kind.width} bytes, got {length}"

/-- The identifier with these bytes. -/
def ofBytes (kind : FixedKind) (s : Bytes) : Except Fault (Fixed kind) :=
  if h : s.length = kind.width then .ok ⟨s, h⟩ else .error (.wrongLength kind s.length)

/-- All bytes zero. -/
def zero : Fixed kind := ⟨List.replicate kind.width 0, List.length_replicate⟩

/-- A text without the `0x` or `0X` that may stand in front of it. -/
def unmarked : Bytes → Bytes
  | a :: b :: rest => if a = 48 ∧ (b = 120 ∨ b = 88) then rest else a :: b :: rest
  | s => s

/-- Reads hexadecimal digits, with or without a mark in front. -/
def parse (kind : FixedKind) (text : String) : Except Fault (Fixed kind) :=
  match Hex.decode (unmarked (utf8 text)) with
  | .error fault => .error (.notHex kind text fault)
  | .ok s => ofBytes kind s

/-- The mark `0x` and two lower-case digits for each byte. -/
protected def toString (a : Fixed kind) : String := "0x" ++ Hex.encode a.bytes

instance : ToString (Fixed kind) := ⟨Fixed.toString⟩

/-- The order of identifiers: by their bytes. -/
def before (a b : Fixed kind) : Bool := Bytes.before a.bytes b.bytes

/-- The identifiers in order. -/
def sort (l : List (Fixed kind)) : List (Fixed kind) := l.mergeSort fun a b => !before b a

end Fixed
end RelayLedger
