/-
# Numbers and their shortest spelling

`Bytes.toNat` and `Bytes.ofNat` undo each other on strings of a given length, and `Bytes.width` is
the least length that a number fits into. So `Bytes.minimal` is the only spelling of a number that
does not start with a zero byte: this is what makes lengths and integers of the recursive length
format canonical.

Key theorems: `Bytes.toNat_ofNat`, `Bytes.ofNat_toNat`, `Bytes.width_le_iff`,
`Bytes.eq_minimal_iff`.
-/
import Mathlib.Data.List.Induction
import Mathlib.Tactic.Ring
import RelayLedger.Bytes

namespace RelayLedger
namespace Bytes

@[simp] theorem toNat_nil : toNat [] = 0 := rfl

theorem toNat_concat (s : Bytes) (b : UInt8) : toNat (s ++ [b]) = toNat s * 256 + b.toNat := by
  simp [toNat]

/-- What is read already is shifted by the bytes that follow. -/
theorem foldl_eq_add_toNat : ∀ (s : Bytes) (n : Nat),
    s.foldl (fun n b => n * 256 + b.toNat) n = n * 256 ^ s.length + toNat s
  | [], n => by simp
  | b :: s, n => by
    rw [toNat, List.foldl_cons, List.foldl_cons, foldl_eq_add_toNat s, foldl_eq_add_toNat s,
      List.length_cons]
    ring

theorem toNat_cons (b : UInt8) (s : Bytes) :
    toNat (b :: s) = b.toNat * 256 ^ s.length + toNat s := by
  rw [toNat, List.foldl_cons, foldl_eq_add_toNat]
  simp

theorem toNat_lt : ∀ s : Bytes, toNat s < 256 ^ s.length
  | [] => by simp
  | b :: s => by
    have hb : b.toNat + 1 ≤ 256 := b.toNat_lt
    have hs := toNat_lt s
    calc toNat (b :: s) < (b.toNat + 1) * 256 ^ s.length := by rw [toNat_cons, Nat.succ_mul]; omega
      _ ≤ 256 * 256 ^ s.length := Nat.mul_le_mul_right _ hb
      _ = 256 ^ (b :: s).length := by rw [List.length_cons]; ring

theorem toNat_ofNat : ∀ width n : Nat, toNat (ofNat width n) = n % 256 ^ width
  | 0, n => by simp [ofNat, Nat.mod_one]
  | width + 1, n => by
    have hn : n % 256 ^ (width + 1) = n % 256 + 256 * (n / 256 % 256 ^ width) := by
      rw [Nat.pow_succ, Nat.mul_comm, Nat.mod_mul]
    rw [ofNat, toNat_concat, toNat_ofNat width, hn, UInt8.toNat_ofNat']
    omega

theorem ofNat_toNat (s : Bytes) : ofNat s.length (toNat s) = s := by
  induction s using List.reverseRecOn with
  | nil => rfl
  | append_singleton s b ih =>
    have hb : b.toNat < 256 := b.toNat_lt
    have hdiv : (toNat s * 256 + b.toNat) / 256 = toNat s := by omega
    have hlast : UInt8.ofNat (toNat s * 256 + b.toNat) = b := by
      apply UInt8.toNat_inj.mp
      rw [UInt8.toNat_ofNat']
      omega
    rw [toNat_concat, List.length_append, List.length_singleton, ofNat, hdiv, hlast, ih]

/-- Two strings of one length that spell the same number are the same. -/
theorem eq_of_toNat_eq {s t : Bytes} (hl : s.length = t.length) (h : toNat s = toNat t) :
    s = t := by
  rw [← ofNat_toNat s, ← ofNat_toNat t, hl, h]

/-! ### The shortest spelling -/

/-- The width is the least number of bytes that a number fits into. -/
theorem width_le_iff {n w : Nat} : width n ≤ w ↔ n < 256 ^ w := by
  have hpow : (256 : Nat) ^ w = 2 ^ (8 * w) := by rw [Nat.pow_mul]
  unfold width
  by_cases hn : n = 0
  · subst hn
    simp
  · rw [if_neg hn, hpow, ← Nat.log2_lt hn]
    omega

theorem lt_pow_width (n : Nat) : n < 256 ^ width n := width_le_iff.mp (Nat.le_refl _)

@[simp] theorem length_minimal (n : Nat) : (minimal n).length = width n := length_ofNat _ _

@[simp] theorem toNat_minimal (n : Nat) : toNat (minimal n) = n := by
  rw [minimal, toNat_ofNat, Nat.mod_eq_of_lt (lt_pow_width n)]

theorem head?_minimal (n : Nat) : (minimal n).head? ≠ some 0 := by
  intro h
  obtain ⟨s, hs⟩ : ∃ s, minimal n = 0 :: s := by
    cases hm : minimal n with
    | nil => simp [hm] at h
    | cons b s =>
      rw [hm, List.head?_cons, Option.some.injEq] at h
      exact ⟨s, by rw [h]⟩
  have hn : n < 256 ^ s.length := by
    have := toNat_minimal n
    rw [hs, toNat_cons] at this
    have := toNat_lt s
    simp_all
  have hw : width n = s.length + 1 := by rw [← length_minimal, hs, List.length_cons]
  have := width_le_iff.mpr hn
  omega

/-- A string without a zero in front is as short as a spelling of its number can be. -/
theorem width_toNat {s : Bytes} (h : s.head? ≠ some 0) : width (toNat s) = s.length := by
  apply Nat.le_antisymm (width_le_iff.mpr (toNat_lt s))
  cases s with
  | nil => simp
  | cons b s =>
    have hb : b.toNat ≠ 0 := fun e => h (congrArg some (UInt8.toNat_inj.mp e))
    have hlow : 256 ^ s.length ≤ toNat (b :: s) := by
      rw [toNat_cons]
      exact le_trans (Nat.le_mul_of_pos_left _ (Nat.pos_of_ne_zero hb)) (Nat.le_add_right _ _)
    by_contra hlt
    rw [List.length_cons, Nat.not_le, Nat.lt_succ_iff, width_le_iff] at hlt
    omega

/-- A number has one spelling that does not start with a zero byte. -/
theorem eq_minimal_iff {s : Bytes} {n : Nat} :
    s = minimal n ↔ s.head? ≠ some 0 ∧ toNat s = n := by
  constructor
  · rintro rfl
    exact ⟨head?_minimal n, toNat_minimal n⟩
  · rintro ⟨h, rfl⟩
    apply eq_of_toNat_eq
    · rw [length_minimal, width_toNat h]
    · rw [toNat_minimal]

end Bytes
end RelayLedger
