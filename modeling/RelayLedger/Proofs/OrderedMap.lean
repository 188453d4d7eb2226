/-
# The entries of a map

A map is made up of its entries: putting them into the empty map gives it back. What an insertion or
an erasure does to a sum of weights over the entries: a new value counts instead of the one that it
replaces, and a key without weight can go.

Key definitions: `OrderedMap.insertAll`.
Key theorems: `OrderedMap.get?_of_mem`, `OrderedMap.insertAll_toList`, `OrderedMap.sum_insert`,
`OrderedMap.sum_erase`.
-/
import Mathlib.Tactic.Ring
import RelayLedger.OrderedMap

namespace RelayLedger
namespace OrderedMap

variable {κ ν : Type} [Keyed κ]

theorem find?_of_mem {k : κ} {v : ν} : ∀ {l : List (κ × ν)},
    l.Pairwise (fun a b => Keyed.before a.1 b.1 = true) → (k, v) ∈ l → find? k l = some v
  | (a, w) :: rest, h, hmem => by
    obtain ⟨ha, hrest⟩ := List.pairwise_cons.mp h
    rcases List.mem_cons.mp hmem with e | hmem
    · cases e
      rw [find?, if_pos rfl]
    · have hne : Keyed.bytes k ≠ Keyed.bytes a := by
        intro e
        have hbefore := ha _ hmem
        simp [Keyed.before, e, Bytes.before_irrefl] at hbefore
      rw [find?, if_neg hne, find?_of_mem hrest hmem]

/-- Each entry of a map is the one that its key finds. -/
theorem get?_of_mem {m : OrderedMap κ ν} {k : κ} {v : ν} (h : (k, v) ∈ m.toList) :
    m.get? k = some v :=
  find?_of_mem m.ascending h

/-! ### Insertion of many entries -/

/-- The map with entries put in, one after the other. -/
def insertAll (m : OrderedMap κ ν) (l : List (κ × ν)) : OrderedMap κ ν :=
  l.foldl (fun m p => m.insert p.1 p.2) m

theorem insertAll_cons (m : OrderedMap κ ν) (k : κ) (v : ν) (l : List (κ × ν)) :
    m.insertAll ((k, v) :: l) = (m.insert k v).insertAll l := rfl

/-- Entries in ascending order are all found afterwards, in front of what was there. -/
theorem get?_insertAll : ∀ {l : List (κ × ν)},
    l.Pairwise (fun a b => Keyed.before a.1 b.1 = true) → ∀ (m : OrderedMap κ ν) (k : κ),
    (m.insertAll l).get? k = (find? k l).or (m.get? k)
  | [], _, _, _ => rfl
  | (a, w) :: rest, h, m, k => by
    obtain ⟨ha, hrest⟩ := List.pairwise_cons.mp h
    rw [insertAll_cons, get?_insertAll hrest, get?_insert, find?]
    by_cases hk : Keyed.bytes k = Keyed.bytes a
    · have hnone : find? k rest = none := by
        rw [Keyed.bytes_injective hk]
        exact find?_eq_none_of_before ha
      rw [if_pos hk, if_pos hk, hnone, Option.none_or, Option.some_or]
    · rw [if_neg hk, if_neg hk]

/-- A map is made up of its entries. -/
theorem insertAll_toList (m : OrderedMap κ ν) : (∅ : OrderedMap κ ν).insertAll m.toList = m := by
  refine ext_get? fun k => ?_
  rw [get?_insertAll m.ascending, get?_empty, Option.or_none]
  rfl

/-! ### Sums -/

variable (f : κ × ν → Nat)

theorem sum_place (k : κ) (v : ν) : ∀ {l : List (κ × ν)},
    l.Pairwise (fun a b => Keyed.before a.1 b.1 = true) →
    ((place k v l).map f).sum + (find? k l).elim 0 (fun w => f (k, w)) = (l.map f).sum + f (k, v)
  | [], _ => by simp [place, find?]
  | (a, w) :: rest, h => by
    obtain ⟨ha, hrest⟩ := List.pairwise_cons.mp h
    unfold place
    split
    next hk =>
      -- the new key comes before all others, so nothing is replaced
      have hnone : find? k ((a, w) :: rest) = none :=
        find?_eq_none_of_before fun p hp => by
          rcases List.mem_cons.mp hp with rfl | hp
          · exact hk
          · exact Bytes.before_trans hk (ha p hp)
      rw [hnone]
      simp only [List.map_cons, List.sum_cons, Option.elim_none]
      omega
    next hk =>
      split
      next hk' =>
        have hne : Keyed.bytes k ≠ Keyed.bytes a := fun e => by
          simp [Keyed.before, e, Bytes.before_irrefl] at hk'
        have ih := sum_place k v hrest
        rw [find?, if_neg hne]
        simp only [List.map_cons, List.sum_cons]
        omega
      next hk' =>
        have e : k = a := Keyed.bytes_injective (Bytes.eq_of_not_before
          (by simpa [Keyed.before] using hk) (by simpa [Keyed.before] using hk'))
        subst e
        rw [find?, if_pos rfl]
        simp only [List.map_cons, List.sum_cons, Option.elim_some]
        omega

/-- A value put under a key counts instead of the one that was there. -/
theorem sum_insert (m : OrderedMap κ ν) (k : κ) (v : ν) :
    ((m.insert k v).toList.map f).sum + (m.get? k).elim 0 (fun w => f (k, w)) =
      (m.toList.map f).sum + f (k, v) :=
  sum_place f k v m.ascending

/-- A key without weight can go. -/
theorem sum_erase (m : OrderedMap κ ν) {k : κ} (h : ∀ v, f (k, v) = 0) :
    ((m.erase k).toList.map f).sum = (m.toList.map f).sum := by
  rw [erase]
  simp only
  induction m.toList with
  | nil => rfl
  | cons p rest ih =>
    by_cases hp : Keyed.bytes k = Keyed.bytes p.1
    · have hzero : f p = 0 := by
        rw [← h p.2, Keyed.bytes_injective hp]
      rw [List.filter_cons_of_neg (by simpa using hp), ih, List.map_cons, List.sum_cons, hzero,
        Nat.zero_add]
    · rw [List.filter_cons_of_pos (by simpa using hp), List.map_cons, List.map_cons,
        List.sum_cons, List.sum_cons, ih]

end OrderedMap
end RelayLedger
