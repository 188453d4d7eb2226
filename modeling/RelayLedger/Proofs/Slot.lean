/-
# Slots of a store

What is kept in a slot is read back, and no other slot notices. Keys of several parts differ if
their parts do (`Store.key_injective`), since every part but the last tells its own length.

Key theorems: `Store.key_injective`, `Slot.get?_save`, `Slot.load?_save`, `Slot.isTaken_insert`.
-/
import RelayLedger.Proofs.BigEndian
import RelayLedger.Proofs.Json.Record
import RelayLedger.Store

namespace RelayLedger

/-! ### Keys of several parts -/

theorem Bytes.ofNat_two_inj {m n : Nat} (hm : m < 65536) (hn : n < 65536)
    (h : Bytes.ofNat 2 m = Bytes.ofNat 2 n) : m = n := by
  have hvalue := congrArg Bytes.toNat h
  rw [Bytes.toNat_ofNat, Bytes.toNat_ofNat] at hvalue
  omega

/-- Two keys of as many parts are the same only if the parts are. -/
theorem Store.key_injective : ∀ {p q : List Bytes}, p.length = q.length →
    (∀ s ∈ p, s.length < 65536) → (∀ s ∈ q, s.length < 65536) → Store.key p = Store.key q → p = q
  | [], [], _, _, _, _ => rfl
  | [a], [b], _, _, _, h => congrArg (fun s => [s]) h
  | a :: a' :: p, b :: b' :: q, hlen, hp, hq, h => by
    rw [Store.key, Store.key, List.append_assoc, List.append_assoc] at h
    obtain ⟨hwidth, hrest⟩ := List.append_inj h (by
      rw [Bytes.length_ofNat, Bytes.length_ofNat])
    have hab := Bytes.ofNat_two_inj (hp a List.mem_cons_self) (hq b List.mem_cons_self) hwidth
    obtain ⟨rfl, htail⟩ := List.append_inj hrest hab
    have ih := Store.key_injective (Nat.succ.inj hlen)
      (fun s hs => hp s (List.mem_cons_of_mem _ hs)) (fun s hs => hq s (List.mem_cons_of_mem _ hs))
      htail
    rw [ih]
  | [], _ :: _, hlen, _, _, _ => by simp at hlen
  | _ :: _, [], hlen, _, _, _ => by simp at hlen
  | [_], _ :: _ :: _, hlen, _, _, _ => by simp at hlen
  | _ :: _ :: _, [_], hlen, _, _, _ => by simp at hlen

/-! ### Keeping and reading -/

namespace Slot

variable {α : Type}

theorem get?_erase (slot : Slot α) (store : Store) (k : Bytes) :
    (slot.erase store).get? k = if k = slot.key then none else store.get? k :=
  OrderedMap.get?_erase store slot.key k

theorem isTaken_insert {slot : Slot α} {store : Store} (h : slot.isTaken store = true)
    (k s : Bytes) : slot.isTaken (store.insert k s) = true := by
  have hget := OrderedMap.get?_insert store k s slot.key
  rw [isTaken, OrderedMap.contains] at h ⊢
  rw [hget]
  split
  · rfl
  · exact h

theorem isTaken_erase_of_ne {β : Type} {slot : Slot α} {slot' : Slot β} {store : Store}
    (hne : slot.key ≠ slot'.key) (h : slot.isTaken store = true) :
    slot.isTaken (slot'.erase store) = true := by
  rw [isTaken, OrderedMap.contains] at h ⊢
  rw [get?_erase, if_neg hne]
  exact h

variable [Json.Wire α]

theorem get?_save (slot : Slot α) (a : α) (store : Store) (k : Bytes) :
    (slot.save a store).get? k = if k = slot.key then some (Json.encode a) else store.get? k :=
  OrderedMap.get?_insert store slot.key (Json.encode a) k

theorem get?_save_self (slot : Slot α) (a : α) (store : Store) :
    (slot.save a store).get? slot.key = some (Json.encode a) := by
  rw [get?_save, if_pos rfl]

theorem isTaken_save_self (slot : Slot α) (a : α) (store : Store) :
    slot.isTaken (slot.save a store) = true := by
  rw [isTaken, OrderedMap.contains, get?_save_self]
  rfl

theorem get?_save_of_ne {slot : Slot α} {k : Bytes} (h : k ≠ slot.key) (a : α) (store : Store) :
    (slot.save a store).get? k = store.get? k := by
  rw [get?_save, if_neg h]

/-- Only the last of two things kept in a slot counts. -/
theorem save_save (slot : Slot α) (a b : α) (store : Store) :
    slot.save a (slot.save b store) = slot.save a store := by
  refine OrderedMap.ext_get? fun k => ?_
  rw [get?_save, get?_save, get?_save]
  split <;> rfl

/-- What is kept in two slots does not depend on which is kept first. -/
theorem save_comm {β : Type} [Json.Wire β] {slot : Slot α} {slot' : Slot β}
    (h : slot.key ≠ slot'.key) (a : α) (b : β) (store : Store) :
    slot.save a (slot'.save b store) = slot'.save b (slot.save a store) := by
  refine OrderedMap.ext_get? fun k => ?_
  rw [get?_save, get?_save, get?_save, get?_save]
  by_cases hk : k = slot.key
  · rw [if_pos hk, if_pos hk, if_neg (hk ▸ h)]
  · rw [if_neg hk, if_neg hk]

theorem load?_of_get?_eq_none {slot : Slot α} {store : Store} (h : store.get? slot.key = none) :
    slot.load? store = .ok none := by
  rw [load?, h]

theorem load?_congr {slot : Slot α} {store store' : Store}
    (h : store.get? slot.key = store'.get? slot.key) : slot.load? store = slot.load? store' := by
  rw [load?, load?, h]

theorem load_congr {slot : Slot α} {store store' : Store}
    (h : store.get? slot.key = store'.get? slot.key) : slot.load store = slot.load store' := by
  rw [load, load, h]

variable [Json.Lossless α]

theorem load?_of_get?_eq_some {slot : Slot α} {store : Store} {a : α}
    (h : store.get? slot.key = some (Json.encode a)) : slot.load? store = .ok (some a) := by
  rw [load?, h]
  simp only
  rw [Json.decodeAs_encode]
  rfl

theorem load_of_get?_eq_some {slot : Slot α} {store : Store} {a : α}
    (h : store.get? slot.key = some (Json.encode a)) : slot.load store = .ok a := by
  rw [load, h]
  exact Json.decodeAs_encode a

theorem load?_save (slot : Slot α) (a : α) (store : Store) :
    slot.load? (slot.save a store) = .ok (some a) :=
  load?_of_get?_eq_some (get?_save_self slot a store)

end Slot
end RelayLedger
