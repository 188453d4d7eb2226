/-
# Maps in the order of their keys

A map is a list of keys and values in strictly ascending order of the keys' bytes, so two maps with
the same look-ups are the same map (`OrderedMap.ext_get?`). The store of a contract and the name
tables of a client are such maps.

Key definitions: `OrderedMap`, `OrderedMap.get?`, `OrderedMap.insert`, `OrderedMap.erase`.
Key theorems: `OrderedMap.get?_insert`, `OrderedMap.get?_erase`, `OrderedMap.ext_get?`.
-/
import RelayLedger.Text.Utf8

namespace RelayLedger

/-- Keys that are compared by their bytes. -/
class Keyed (κ : Type) where
  bytes : κ → Bytes
  bytes_injective : ∀ {a b : κ}, bytes a = bytes b → a = b

instance : Keyed Bytes := ⟨id, id⟩

instance : Keyed String := ⟨utf8, utf8_injective⟩

/-- Whether one key comes before another. -/
def Keyed.before {κ : Type} [Keyed κ] (a b : κ) : Bool :=
  Bytes.before (Keyed.bytes a) (Keyed.bytes b)

/-- Keys with their values, keys strictly ascending. -/
structure OrderedMap (κ ν : Type) [Keyed κ] where
  toList : List (κ × ν)
  ascending : toList.Pairwise fun a b => Keyed.before a.1 b.1 = true

namespace OrderedMap

variable {κ ν : Type} [Keyed κ]

instance : EmptyCollection (OrderedMap κ ν) := ⟨⟨[], .nil⟩⟩

instance [DecidableEq κ] [DecidableEq ν] : DecidableEq (OrderedMap κ ν) := fun a b =>
  if h : a.toList = b.toList then
    .isTrue (by cases a; cases b; cases h; rfl)
  else .isFalse fun e => h (e ▸ rfl)

/-! ### Lists of keys and values -/

/-- The value under a key. -/
def find? (k : κ) : List (κ × ν) → Option ν
  | [] => none
  | (a, v) :: rest => if Keyed.bytes k = Keyed.bytes a then some v else find? k rest

/-- Puts a value under a key, at the key's place in the order. -/
def place (k : κ) (v : ν) : List (κ × ν) → List (κ × ν)
  | [] => [(k, v)]
  | (a, w) :: rest =>
    if Keyed.before k a then (k, v) :: (a, w) :: rest
    else if Keyed.before a k then (a, w) :: place k v rest
    else (k, v) :: rest

theorem mem_place {k : κ} {v : ν} {p : κ × ν} :
    ∀ {l : List (κ × ν)}, p ∈ place k v l → p = (k, v) ∨ p ∈ l
  | [], h => .inl (List.mem_singleton.mp h)
  | (a, w) :: rest, h => by
    unfold place at h
    split at h
    · rcases List.mem_cons.mp h with h | h
      · exact .inl h
      · exact .inr h
    · split at h
      · rcases List.mem_cons.mp h with h | h
        · exact .inr (h ▸ List.mem_cons_self)
        · exact (mem_place h).imp id (List.mem_cons_of_mem _)
      · rcases List.mem_cons.mp h with h | h
        · exact .inl h
        · exact .inr (List.mem_cons_of_mem _ h)

theorem ascending_place (k : κ) (v : ν) : ∀ {l : List (κ × ν)},
    l.Pairwise (fun a b => Keyed.before a.1 b.1 = true) →
    (place k v l).Pairwise fun a b => Keyed.before a.1 b.1 = true
  | [], _ => List.pairwise_singleton _ _
  | (a, w) :: rest, h => by
    have ha := (List.pairwise_cons.mp h).1
    have hr := (List.pairwise_cons.mp h).2
    unfold place
    split
    next hk =>
      refine List.pairwise_cons.mpr ⟨fun p hp => ?_, h⟩
      rcases List.mem_cons.mp hp with rfl | hp
      · exact hk
      · exact Bytes.before_trans hk (ha p hp)
    next hk =>
      split
      next hk' =>
        refine List.pairwise_cons.mpr ⟨fun p hp => ?_, ascending_place k v hr⟩
        rcases mem_place hp with rfl | hp
        · exact hk'
        · exact ha p hp
      next hk' =>
        have : Keyed.bytes k = Keyed.bytes a :=
          Bytes.eq_of_not_before (by simpa [Keyed.before] using hk)
            (by simpa [Keyed.before] using hk')
        refine List.pairwise_cons.mpr ⟨fun p hp => ?_, hr⟩
        have := ha p hp
        simp_all [Keyed.before]

/-! ### Maps -/

/-- The value under a key. -/
def get? (m : OrderedMap κ ν) (k : κ) : Option ν := find? k m.toList

/-- Whether there is a value under a key. -/
def contains (m : OrderedMap κ ν) (k : κ) : Bool := (m.get? k).isSome

/-- The map with a value put under a key. -/
def insert (m : OrderedMap κ ν) (k : κ) (v : ν) : OrderedMap κ ν :=
  ⟨place k v m.toList, ascending_place k v m.ascending⟩

/-- The map without a key. -/
def erase (m : OrderedMap κ ν) (k : κ) : OrderedMap κ ν :=
  ⟨m.toList.filter fun p => Keyed.bytes k ≠ Keyed.bytes p.1, m.ascending.filter _⟩

@[simp] theorem get?_empty (k : κ) : (∅ : OrderedMap κ ν).get? k = none := rfl

theorem find?_place (k : κ) (v : ν) (j : κ) : ∀ l : List (κ × ν),
    find? j (place k v l) = if Keyed.bytes j = Keyed.bytes k then some v else find? j l
  | [] => rfl
  | (a, w) :: rest => by
    unfold place
    split
    · rfl
    next hk =>
      split
      next hk' =>
        have hne : Keyed.bytes k ≠ Keyed.bytes a := fun e => by
          simp [Keyed.before, e, Bytes.before_irrefl] at hk'
        simp only [find?, find?_place k v j rest]
        split
        · split
          next h h' => exact absurd (h'.symm.trans h) hne
          · rfl
        · rfl
      next hk' =>
        have e : Keyed.bytes k = Keyed.bytes a :=
          Bytes.eq_of_not_before (by simpa [Keyed.before] using hk)
            (by simpa [Keyed.before] using hk')
        simp only [find?, ← e]
        split <;> rfl

theorem get?_insert (m : OrderedMap κ ν) (k : κ) (v : ν) (j : κ) :
    (m.insert k v).get? j = if Keyed.bytes j = Keyed.bytes k then some v else m.get? j :=
  find?_place k v j m.toList

theorem find?_filter (k j : κ) : ∀ l : List (κ × ν),
    find? j (l.filter fun p => Keyed.bytes k ≠ Keyed.bytes p.1) =
      if Keyed.bytes j = Keyed.bytes k then none else find? j l
  | [] => by simp [find?]
  | (a, w) :: rest => by
    have ih := find?_filter k j rest
    by_cases h : Keyed.bytes k = Keyed.bytes a
    · rw [List.filter_cons_of_neg (by simpa using h), ih, find?, ← h]
      split <;> rfl
    · rw [List.filter_cons_of_pos (by simpa using h), find?, ih, find?]
      split
      next h' => rw [if_neg fun e => h (e.symm.trans h')]
      · rfl

theorem get?_erase (m : OrderedMap κ ν) (k j : κ) :
    (m.erase k).get? j = if Keyed.bytes j = Keyed.bytes k then none else m.get? j :=
  find?_filter k j m.toList

theorem find?_eq_none_of_before {k : κ} : ∀ {l : List (κ × ν)},
    (∀ p ∈ l, Keyed.before k p.1 = true) → find? k l = none
  | [], _ => rfl
  | (a, w) :: rest, h => by
    have ha : Keyed.bytes k ≠ Keyed.bytes a := fun e => by
      have := h _ List.mem_cons_self
      simp [Keyed.before, e, Bytes.before_irrefl] at this
    rw [find?, if_neg ha]
    exact find?_eq_none_of_before fun p hp => h p (List.mem_cons_of_mem _ hp)

theorem eq_of_find?_eq : ∀ {l m : List (κ × ν)},
    l.Pairwise (fun a b => Keyed.before a.1 b.1 = true) →
    m.Pairwise (fun a b => Keyed.before a.1 b.1 = true) →
    (∀ k, find? k l = find? k m) → l = m
  | [], [], _, _, _ => rfl
  | [], (b, w) :: m, _, _, h => by simpa [find?] using h b
  | (a, v) :: l, [], _, _, h => by simpa [find?] using h a
  | (a, v) :: l, (b, w) :: m, hl, hm, h => by
    obtain ⟨hal, hl'⟩ := List.pairwise_cons.mp hl
    obtain ⟨hbm, hm'⟩ := List.pairwise_cons.mp hm
    have clash : ∀ {x y : κ} {u : ν} {r : List (κ × ν)}, Keyed.before x y = true →
        (∀ p ∈ r, Keyed.before y p.1 = true) → find? x ((y, u) :: r) = none := fun hxy hr =>
      find?_eq_none_of_before fun p hp => by
        rcases List.mem_cons.mp hp with rfl | hp
        · exact hxy
        · exact Bytes.before_trans hxy (hr p hp)
    have hab : Keyed.before a b = false := by
      cases e : Keyed.before a b with
      | false => rfl
      | true =>
        have := h a
        rw [clash e hbm] at this
        simp [find?] at this
    have hba : Keyed.before b a = false := by
      cases e : Keyed.before b a with
      | false => rfl
      | true =>
        have := h b
        rw [clash e hal] at this
        simp [find?] at this
    have e : a = b := Keyed.bytes_injective (Bytes.eq_of_not_before hab hba)
    subst e
    have hv : v = w := by simpa [find?] using h a
    subst hv
    have : l = m := eq_of_find?_eq hl' hm' fun k => by
      by_cases hk : Keyed.bytes k = Keyed.bytes a
      · have e := Keyed.bytes_injective hk
        subst e
        rw [find?_eq_none_of_before hal, find?_eq_none_of_before hbm]
      · have := h k
        rwa [find?, if_neg hk, find?, if_neg hk] at this
    rw [this]

/-- Two maps with the same look-ups are the same. -/
theorem ext_get? {m n : OrderedMap κ ν} (h : ∀ k, m.get? k = n.get? k) : m = n := by
  cases m with
  | mk l hl => cases n with
    | mk l' hl' =>
      have : l = l' := eq_of_find?_eq hl hl' h
      subst this; rfl

end OrderedMap
end RelayLedger
