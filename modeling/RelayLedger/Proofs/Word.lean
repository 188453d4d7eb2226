/-
# Sums and differences that fit, and the words below a word

When a word can be taken from another, added to it or counted up. Amounts and nonces are changed
only in these ways, and each way is refused exactly when the result would not fit.

Key theorems: `Word.exists_sub?`, `Word.exists_add?`, `Word.exists_next`, `Word.mem_below`.
-/
import RelayLedger.Word

namespace RelayLedger
namespace Word

variable {bits : Nat} {a b : Word bits}

theorem exists_sub? (h : b.toNat ≤ a.toNat) : ∃ c, a.sub? b = some c := by
  have hlt : a.toNat - b.toNat < bound bits := by
    have := a.isLt
    omega
  exact ⟨⟨a.toNat - b.toNat, hlt⟩, sub?_eq_some_iff.mpr (Nat.sub_add_cancel h)⟩

theorem exists_add? (h : a.toNat + b.toNat < bound bits) : ∃ c, a.add? b = some c :=
  ⟨⟨a.toNat + b.toNat, h⟩, add?_eq_some_iff.mpr rfl⟩

theorem add?_eq_none_iff : a.add? b = none ↔ bound bits ≤ a.toNat + b.toNat := ofNat?_eq_none_iff

theorem ne_max_iff : a ≠ max ↔ a.toNat < bound bits - 1 := by
  have hlt := a.isLt
  constructor
  · intro hne
    have htoNat : a.toNat ≠ bound bits - 1 := fun e => hne (ext_toNat e)
    omega
  · intro hless e
    rw [e] at hless
    exact Nat.lt_irrefl _ hless

theorem exists_next (h : a.toNat < bound bits - 1) :
    ∃ c : Word bits, ofNat? (a.toNat + 1) = some c := by
  have hlt : a.toNat + 1 < bound bits := by omega
  exact ⟨⟨a.toNat + 1, hlt⟩, ofNat?_eq_some_iff.mpr rfl⟩

/-! ### The words below a word -/

theorem map_toNat_below (count : Word bits) : count.below.map toNat = List.range count.toNat := by
  have hall : ∀ l : List Nat, (∀ n ∈ l, n < bound bits) →
      (l.filterMap (fun n => (ofNat? n : Option (Word bits)))).map toNat = l := by
    intro l
    induction l with
    | nil => exact fun _ => rfl
    | cons n rest ih =>
      intro h
      have hn : ofNat? n = some (⟨n, h n List.mem_cons_self⟩ : Word bits) :=
        ofNat?_eq_some_iff.mpr rfl
      rw [List.filterMap_cons_some hn, List.map_cons,
        ih fun m hm => h m (List.mem_cons_of_mem _ hm)]
  exact hall _ fun n hn => Nat.lt_trans (List.mem_range.mp hn) count.isLt

theorem mem_below {count w : Word bits} : w ∈ count.below ↔ w.toNat < count.toNat := by
  rw [← List.mem_range, ← map_toNat_below, List.mem_map]
  constructor
  · intro h
    exact ⟨w, h, rfl⟩
  · rintro ⟨v, hv, e⟩
    exact ext_toNat e ▸ hv

theorem nodup_below (count : Word bits) : count.below.Nodup := by
  have hnodup : (count.below.map toNat).Nodup := by
    rw [map_toNat_below]
    exact List.nodup_range
  exact List.Pairwise.of_map toNat (fun _ _ hne e => hne (congrArg toNat e)) hnodup

/-- The words below a word that is not zero start with zero. -/
theorem exists_below {count : Word bits} (h : count ≠ 0) : ∃ rest, count.below = 0 :: rest := by
  have hpos : 0 < count.toNat := Nat.pos_of_ne_zero fun e => h (ext_toNat e)
  have hrange := map_toNat_below count
  obtain ⟨n, hn⟩ : ∃ n, count.toNat = n + 1 := ⟨count.toNat - 1, by omega⟩
  rw [hn, List.range_succ_eq_map] at hrange
  obtain ⟨first, rest, hbelow, hfirst, -⟩ := List.map_eq_cons_iff.mp hrange
  have hzero : first = 0 := ext_toNat hfirst
  exact ⟨rest, hzero ▸ hbelow⟩

end Word
end RelayLedger
