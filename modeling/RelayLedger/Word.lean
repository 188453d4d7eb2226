/-
# Unsigned numbers of bounded width

Balances have 256 bits, nonces and chain ids 64, chunk indices 8. None of them ever wraps:
`Word.ofNat?`, `Word.add?` and `Word.sub?` answer `none` when the result does not fit.
`Word.truncate` is for numbers that are known to fit, such as lengths of bytes in memory.

Key definitions: `Word`, `Word.bound`, `Word.ofNat?`, `Word.add?`, `Word.sub?`.
Key theorems: `Word.add?_eq_some_iff`, `Word.sub?_eq_some_iff`.
-/
import RelayLedger.Bytes

namespace RelayLedger

/-- The first number that does not fit into so many bits: a power of two. -/
def Word.bound (bits : Nat) : Nat := Nat.pow 2 bits

/-- A number of at most so many bits. -/
structure Word (bits : Nat) where
  toNat : Nat
  isLt : toNat < Word.bound bits
  deriving DecidableEq

namespace Word

variable {bits : Nat}

theorem bound_pos (bits : Nat) : 0 < bound bits := Nat.pow_pos (by decide)

theorem bound_sixtyFour : bound 64 = 18446744073709551616 := rfl

theorem ext_toNat {a b : Word bits} (h : a.toNat = b.toNat) : a = b := by
  cases a; cases b; cases h; rfl

/-- The word of a number that fits. -/
def ofNat? (n : Nat) : Option (Word bits) := if h : n < bound bits then some ⟨n, h⟩ else none

instance : Zero (Word bits) := ⟨⟨0, bound_pos bits⟩⟩

@[simp] theorem toNat_zero : (0 : Word bits).toNat = 0 := rfl

theorem ofNat?_eq_some_iff {n : Nat} {w : Word bits} : ofNat? n = some w ↔ w.toNat = n := by
  unfold ofNat?
  constructor
  · intro h
    split at h
    · cases h; rfl
    · cases h
  · rintro rfl
    rw [dif_pos w.isLt]

theorem ofNat?_eq_none_iff {n : Nat} : (ofNat? n : Option (Word bits)) = none ↔ bound bits ≤ n := by
  unfold ofNat?; split <;> simp <;> omega

/-- The sum, if it fits. -/
def add? (a b : Word bits) : Option (Word bits) := ofNat? (a.toNat + b.toNat)

/-- The difference, if there is one. -/
def sub? (a b : Word bits) : Option (Word bits) :=
  if b.toNat ≤ a.toNat then ofNat? (a.toNat - b.toNat) else none

theorem add?_eq_some_iff {a b c : Word bits} : a.add? b = some c ↔ c.toNat = a.toNat + b.toNat :=
  ofNat?_eq_some_iff

theorem sub?_eq_some_iff {a b c : Word bits} : a.sub? b = some c ↔ c.toNat + b.toNat = a.toNat := by
  unfold sub?
  split
  · rw [ofNat?_eq_some_iff]; omega
  · simp only [reduceCtorEq, false_iff]; omega

/-- The greatest word. -/
def max : Word bits := ⟨bound bits - 1, Nat.sub_lt (bound_pos bits) Nat.one_pos⟩

/-- The last bits of a number: the number itself if it fits. -/
def truncate (n : Nat) : Word bits := ⟨n % bound bits, Nat.mod_lt _ (bound_pos bits)⟩

theorem toNat_truncate {n : Nat} (h : n < bound bits) : (truncate n : Word bits).toNat = n :=
  Nat.mod_eq_of_lt h

/-- The word that the last bytes of a string spell, as many as make up its bits. -/
def ofBytes (s : Bytes) : Word bits := truncate s.toNat

/-- The words less than this one, in order. -/
def below (count : Word bits) : List (Word bits) := (List.range count.toNat).filterMap ofNat?

/-- The decimal text of a word. -/
protected def toString (a : Word bits) : String := toString a.toNat

instance : ToString (Word bits) := ⟨Word.toString⟩

end Word
end RelayLedger
