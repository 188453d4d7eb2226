/-
# Integers in items

`Item.word` reads exactly the items that `Item.ofWord` writes: a string spells a number in one way
only, since a zero in front and a string longer than the number's type are refused. The types have
whole numbers of bytes.

Key theorems: `Rlp.Item.word_eq_ok_iff`.
-/
import RelayLedger.Proofs.BigEndian
import RelayLedger.Proofs.Outcome
import RelayLedger.Rlp.Item

namespace RelayLedger

theorem Word.bound_eq_pow {bits : Nat} (h : bits % 8 = 0) :
    Word.bound bits = 256 ^ (bits / 8) := by
  obtain ⟨k, rfl⟩ : ∃ k, bits = 8 * k := ⟨bits / 8, by omega⟩
  have hk : 8 * k / 8 = k := by omega
  show 2 ^ (8 * k) = 256 ^ (8 * k / 8)
  rw [hk, Nat.pow_mul]

namespace Rlp
namespace Item

variable {bits : Nat}

/-- A word fits into its bytes. -/
theorem width_word_le (h : bits % 8 = 0) (w : Word bits) : Bytes.width w.toNat ≤ bits / 8 := by
  rw [Bytes.width_le_iff, ← Word.bound_eq_pow h]
  exact w.isLt

theorem toNat_ofBytes (h : bits % 8 = 0) {s : Bytes} (hs : s.length ≤ bits / 8) :
    (Word.ofBytes s : Word bits).toNat = s.toNat := by
  apply Word.toNat_truncate
  rw [Word.bound_eq_pow h]
  exact lt_of_lt_of_le (Bytes.toNat_lt s) (Nat.pow_le_pow_right (by decide) hs)

/-- An item is read as a number exactly when it is the shortest string of that number. -/
theorem word_eq_ok_iff (h : bits % 8 = 0) {item : Item} {w : Word bits} :
    item.word bits = .ok w ↔ item = ofWord w := by
  unfold word ofWord
  constructor
  · intro hw
    obtain ⟨s, hs, hread⟩ := bind_eq_ok_iff.mp hw
    cases item with
    | list items => cases hs
    | str t =>
      cases hs
      split at hread
      · cases hread
      next hlen =>
        split at hread
        · cases hread
        next hzero =>
          cases hread
          rw [toNat_ofBytes h (by omega), ← Bytes.eq_minimal_iff.mpr ⟨hzero, rfl⟩]
  · rintro rfl
    have hlen : ¬ bits / 8 < (Bytes.minimal w.toNat).length := by
      rw [Bytes.length_minimal]
      exact Nat.not_lt.mpr (width_word_le h w)
    refine bind_eq_ok_iff.mpr ⟨_, rfl, ?_⟩
    rw [if_neg hlen, if_neg (Bytes.head?_minimal _)]
    congr 1
    apply Word.ext_toNat
    rw [toNat_ofBytes h (Nat.not_lt.mp hlen), Bytes.toNat_minimal]

theorem ofWord_zero : ofWord (0 : Word bits) = .str [] := rfl

theorem bytes_eq_ok_iff {item : Item} {s : Bytes} : item.bytes = .ok s ↔ item = .str s := by
  cases item <;> simp [bytes]

theorem items_eq_ok_iff {item : Item} {l : List Item} : item.items = .ok l ↔ item = .list l := by
  cases item <;> simp [items]

end Item
end Rlp
end RelayLedger
