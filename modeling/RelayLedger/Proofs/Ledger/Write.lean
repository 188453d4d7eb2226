/-
# What a write changes

A ledger changes its store in five ways: it keeps an account, a chunk, its settings or its version,
or it removes the first chunks of a transaction. `Write` names them and `Write.leaves` says what
each leaves at a place. No two places share a key (`Place.key_injective`), so a write is noticed at
the places it is about and at no other, whatever else the store holds; and what it keeps is read
back, since every text that is kept can be read.

Key definitions: `Ledger.Place.layout`, `Ledger.Place.slot`, `Ledger.Write`, `Ledger.Write.leaves`.
Key theorems: `Ledger.Place.key_eq_layout`, `Ledger.Write.get?_apply`, `Ledger.Write.load?_apply`,
`Ledger.places_apart`.
-/
import RelayLedger.Proofs.Ledger.Contents

namespace RelayLedger
namespace Ledger

namespace Place

/-! ### Keys -/

/-- How a key is made up. Single items go by their bare name. Families have their name in front,
and the name and every part but the last have their length in front, in two bytes. -/
def layout : Place → Bytes
  | .config => utf8 "config"
  | .version => utf8 "contract_info"
  | .account address => [0, 8] ++ utf8 "accounts" ++ address.bytes
  | .chunk caller hash index =>
    [0, 9] ++ utf8 "tx_chunks" ++ [0, 20] ++ caller.bytes ++ [0, 32] ++ hash.bytes ++
      [UInt8.ofNat index.toNat]

theorem key_eq_layout (p : Place) : p.key = p.layout := by
  cases p with
  | config => rfl
  | version => rfl
  | account address =>
    have hname : Bytes.ofNat 2 (utf8 "accounts").length = [0, 8] := by decide
    simp only [key, layout, Account.slot, Store.key, hname]
  | chunk caller hash index =>
    have hname : Bytes.ofNat 2 (utf8 "tx_chunks").length = [0, 9] := by decide
    have hcaller : Bytes.ofNat 2 caller.bytes.length = [0, 20] := by
      rw [caller.length_eq]
      decide
    have hhash : Bytes.ofNat 2 hash.bytes.length = [0, 32] := by
      rw [hash.length_eq]
      decide
    simp only [key, layout, Chunk.slot, Store.key, hname, hcaller, hhash, List.append_assoc]

/-! ### Slots -/

/-- What is kept at a place is the text of a value of this type. -/
def Value : Place → Type
  | .config => Config
  | .version => Version
  | .account _ => Account
  | .chunk .. => Bytes

instance (p : Place) : Json.Wire p.Value :=
  match p with
  | .config => inferInstanceAs (Json.Wire Config)
  | .version => inferInstanceAs (Json.Wire Version)
  | .account _ => inferInstanceAs (Json.Wire Account)
  | .chunk .. => inferInstanceAs (Json.Wire Bytes)

instance (p : Place) : Json.Lossless p.Value :=
  match p with
  | .config => inferInstanceAs (Json.Lossless Config)
  | .version => inferInstanceAs (Json.Lossless Version)
  | .account _ => inferInstanceAs (Json.Lossless Account)
  | .chunk .. => inferInstanceAs (Json.Lossless Bytes)

/-- The slot through which a place is read. -/
def slot : (p : Place) → Slot p.Value
  | .config => Config.slot
  | .version => Version.slot
  | .account address => Account.slot address
  | .chunk caller hash index => Chunk.slot caller hash index

theorem slot_key (p : Place) : p.slot.key = p.key := by
  cases p <;> rfl

end Place

/-! ### Writes -/

/-- The ways in which a ledger changes its store. -/
inductive Write
  | account (a : Account)
  | chunk (caller : Address) (hash : TxHash) (index : Word 8) (data : Bytes)
  /-- The first `count` chunks go. -/
  | removal (caller : Address) (hash : TxHash) (count : Word 8)
  | config (c : Config)
  | version (v : Version)

namespace Write

/-- The store after a write. -/
def apply : Write → Store → Store
  | .account a => a.save
  | .chunk caller hash index data => (Chunk.slot caller hash index).save data
  | .removal caller hash count => Chunk.removeAll caller hash count
  | .config c => Config.slot.save c
  | .version v => Version.slot.save v

/-- What a write leaves at a place: a value or nothing, if it is about the place at all. -/
def leaves : Write → (p : Place) → Option (Option p.Value)
  | .account a, .account address => if address = a.address then some (some a) else none
  | .chunk caller hash index data, .chunk caller' hash' index' =>
    if caller' = caller ∧ hash' = hash ∧ index' = index then some (some data) else none
  | .removal caller hash count, .chunk caller' hash' index' =>
    if caller' = caller ∧ hash' = hash ∧ index'.toNat < count.toNat then some none else none
  | .config c, .config => some (some c)
  | .version v, .version => some (some v)
  | _, _ => none

/-- A key that belongs to no place the write is about keeps what it holds. -/
theorem get?_apply_of_ne (w : Write) {k : Bytes} (h : ∀ p : Place, p.key = k → w.leaves p = none)
    (store : Store) : (w.apply store).get? k = store.get? k := by
  cases w with
  | account a =>
    refine Account.get?_save_of_ne (fun e => ?_) store
    have hnone := h (.account a.address) e.symm
    rw [leaves, if_pos rfl] at hnone
    cases hnone
  | chunk caller hash index data =>
    refine Slot.get?_save_of_ne (fun e => ?_) data store
    have hnone := h (.chunk caller hash index) e.symm
    rw [leaves, if_pos ⟨rfl, rfl, rfl⟩] at hnone
    cases hnone
  | removal caller hash count =>
    refine Chunk.get?_removeAll_of_ne (fun index hindex e => ?_) store
    have hnone := h (.chunk caller hash index) e.symm
    rw [leaves, if_pos ⟨rfl, rfl, hindex⟩] at hnone
    cases hnone
  | config c =>
    refine Slot.get?_save_of_ne (fun e => ?_) c store
    cases h .config e.symm
  | version v =>
    refine Slot.get?_save_of_ne (fun e => ?_) v store
    cases h .version e.symm

/-- A place the write is about holds afterwards what the write leaves there. -/
theorem get?_apply_of_leaves {w : Write} {p : Place} {kept : Option p.Value}
    (h : w.leaves p = some kept) (store : Store) :
    (w.apply store).get? p.key = kept.map Json.encode := by
  cases w with
  | account a =>
    cases p with
    | account address =>
      rw [leaves] at h
      split at h
      next e =>
        cases h
        subst e
        exact Slot.get?_save_self (Account.slot a.address) a store
      next => cases h
    | _ => cases h
  | chunk caller hash index data =>
    cases p with
    | chunk caller' hash' index' =>
      rw [leaves] at h
      split at h
      next e =>
        cases h
        obtain ⟨rfl, rfl, rfl⟩ := e
        exact Slot.get?_save_self (Chunk.slot caller' hash' index') data store
      next => cases h
    | _ => cases h
  | removal caller hash count =>
    cases p with
    | chunk caller' hash' index' =>
      rw [leaves] at h
      split at h
      next e =>
        cases h
        obtain ⟨rfl, rfl, hindex⟩ := e
        exact Chunk.get?_removeAll_self hindex store
      next => cases h
    | _ => cases h
  | config c =>
    cases p with
    | config =>
      cases h
      exact Slot.get?_save_self Config.slot c store
    | _ => cases h
  | version v =>
    cases p with
    | version =>
      cases h
      exact Slot.get?_save_self Version.slot v store
    | _ => cases h

/-- Each place holds afterwards what the write leaves there, and what it held before if the write
is not about it. -/
theorem get?_apply (w : Write) (store : Store) (p : Place) :
    (w.apply store).get? p.key =
      ((w.leaves p).map (Option.map Json.encode)).getD (store.get? p.key) := by
  cases hleaves : w.leaves p with
  | none =>
    -- Another place has another key, so the key of `p` is not one the write is about.
    refine w.get?_apply_of_ne (fun q hq => ?_) store
    obtain rfl := Place.key_injective hq
    exact hleaves
  | some kept => exact get?_apply_of_leaves hleaves store

/-- What is read at a place afterwards is what the write leaves there, and what was read before if
the write is not about it. -/
theorem load?_apply (w : Write) (store : Store) (p : Place) :
    p.slot.load? (w.apply store) = ((w.leaves p).map .ok).getD (p.slot.load? store) := by
  have hget := w.get?_apply store p
  rw [← p.slot_key] at hget
  cases hleaves : w.leaves p with
  | none =>
    rw [hleaves] at hget
    exact Slot.load?_congr hget
  | some kept =>
    rw [hleaves] at hget
    cases kept with
    | none => exact Slot.load?_of_get?_eq_none hget
    | some a => exact Slot.load?_of_get?_eq_some hget

end Write

/-- No two places of a ledger share a key, and a write is noticed only at the places it is about:
there the value kept is read back, or nothing if it was removed, and at every other place what was
read before. No other key is touched at all. -/
theorem places_apart :
    Function.Injective Place.key ∧ (∀ p : Place, p.key = p.layout) ∧
    ∀ (w : Write) (store : Store),
      (∀ p : Place, p.slot.load? (w.apply store) =
        ((w.leaves p).map .ok).getD (p.slot.load? store)) ∧
      (∀ p : Place, (w.apply store).get? p.key =
        ((w.leaves p).map (Option.map Json.encode)).getD (store.get? p.key)) ∧
      ∀ k : Bytes, (w.apply store).get? k = store.get? k ∨
        ∃ p : Place, p.key = k ∧ (w.leaves p).isSome := by
  refine ⟨fun _ _ => Place.key_injective, Place.key_eq_layout, fun w store =>
    ⟨w.load?_apply store, w.get?_apply store, fun k => ?_⟩⟩
  by_cases h : ∃ p : Place, p.key = k ∧ (w.leaves p).isSome
  · exact .inr h
  · refine .inl (w.get?_apply_of_ne (fun p hp => ?_) store)
    have hnone : ¬ (w.leaves p).isSome := fun hsome => h ⟨p, hp, hsome⟩
    exact Option.not_isSome_iff_eq_none.mp hnone

end Ledger
end RelayLedger
