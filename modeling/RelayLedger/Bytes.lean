/-
# Byte strings, the numbers they spell and their order

A byte string is a list, so that a proof about one is an induction. Numbers are read and written
most significant byte first: `Bytes.toNat` reads any string, `Bytes.ofNat` writes exactly `width`
bytes, and `Bytes.minimal` writes the shortest string, the one that does not start with a zero.
`Bytes.before` is the order of keys and of fixed-width identifiers: by the first byte that differs,
and a proper beginning comes first.

Key definitions: `Bytes.toNat`, `Bytes.ofNat`, `Bytes.minimal`, `Bytes.before`.
Key theorems: `Bytes.before_irrefl`, `Bytes.before_trans`, `Bytes.eq_of_not_before`.
-/
namespace RelayLedger

/-- A string of bytes. -/
abbrev Bytes := List UInt8

namespace Bytes

/-- The number that a string spells, most significant byte first. -/
def toNat (s : Bytes) : Nat := s.foldl (fun n b => n * 256 + b.toNat) 0

/-- The last `width` bytes of a number. -/
def ofNat : Nat → Nat → Bytes
  | 0, _ => []
  | width + 1, n => ofNat width (n / 256) ++ [UInt8.ofNat n]

theorem length_ofNat : ∀ width n : Nat, (ofNat width n).length = width
  | 0, _ => rfl
  | width + 1, n => by simp [ofNat, length_ofNat width]

/-- How many bytes a number needs; zero needs none. -/
def width (n : Nat) : Nat := if n = 0 then 0 else n.log2 / 8 + 1

/-- The shortest string that spells a number. -/
def minimal (n : Nat) : Bytes := ofNat (width n) n

/-- Whether one string comes strictly before another: the first byte that differs decides, and a
proper beginning of a string comes before it. -/
def before : Bytes → Bytes → Bool
  | _, [] => false
  | [], _ :: _ => true
  | a :: s, b :: t => a < b || (a == b && before s t)

theorem before_irrefl : ∀ s : Bytes, before s s = false
  | [] => rfl
  | a :: s => by simp [before, before_irrefl s, UInt8.lt_irrefl]

theorem before_trans : ∀ {s t u : Bytes}, before s t = true → before t u = true → before s u = true
  | _, [], _, h, _ => by simp [before] at h
  | _, _ :: _, [], _, h => by simp [before] at h
  | [], _ :: _, _ :: _, _, _ => rfl
  | a :: s, b :: t, c :: u, h₁, h₂ => by
    simp only [before, Bool.or_eq_true, decide_eq_true_eq, Bool.and_eq_true, beq_iff_eq] at h₁ h₂ ⊢
    rcases h₁ with h₁ | ⟨rfl, h₁⟩
    · rcases h₂ with h₂ | ⟨rfl, _⟩
      · exact .inl (UInt8.lt_trans h₁ h₂)
      · exact .inl h₁
    · rcases h₂ with h₂ | ⟨rfl, h₂⟩
      · exact .inl h₂
      · exact .inr ⟨rfl, before_trans h₁ h₂⟩

/-- Two strings of which neither comes first are the same. -/
theorem eq_of_not_before : ∀ {s t : Bytes}, before s t = false → before t s = false → s = t
  | [], [], _, _ => rfl
  | [], _ :: _, h, _ => by simp [before] at h
  | _ :: _, [], _, h => by simp [before] at h
  | a :: s, b :: t, h₁, h₂ => by
    simp only [before, Bool.or_eq_false_iff, decide_eq_false_iff_not, UInt8.not_lt,
      Bool.and_eq_false_imp, beq_iff_eq] at h₁ h₂
    have hab : a = b := UInt8.le_antisymm h₂.1 h₁.1
    subst hab
    rw [eq_of_not_before (h₁.2 rfl) (h₂.2 rfl)]

end Bytes
end RelayLedger
