/-
# What a store holds

The accounts and chunks of a store as look-ups: `storedAccount` is the account that is kept for an
address and `storedChunk` the chunk that is kept in a slot, each `none` if nothing is. Everything
that a ledger writes is one of a few changes of the store, and each changes one look-up at the
places it names and no other.

Key definitions: `Ledger.storedAccount`, `Ledger.storedChunk`.
Key theorems: `Ledger.storedAccount_save`, `Ledger.storedChunk_saveChunk`,
`Ledger.storedChunk_removeAll`, `Ledger.WellFormed.ext`, `Ledger.Chunk.collect_eq_ok_iff`.
-/
import RelayLedger.Proofs.Ledger.Reachable

namespace RelayLedger

namespace Slot

variable {α : Type} [Json.Wire α]

/-- What is kept in a slot, if it is there and can be read. -/
def kept? (slot : Slot α) (store : Store) : Option α :=
  match slot.load? store with
  | .ok kept => kept
  | .error _ => none

theorem kept?_of_load? {slot : Slot α} {store : Store} {kept : Option α}
    (h : slot.load? store = .ok kept) : slot.kept? store = kept := by
  rw [kept?, h]

theorem kept?_eq_some_iff {slot : Slot α} {store : Store} {a : α} :
    slot.kept? store = some a ↔ slot.load? store = .ok (some a) := by
  rw [kept?]
  cases slot.load? store <;> simp

theorem kept?_of_get?_eq_none {slot : Slot α} {store : Store} (h : store.get? slot.key = none) :
    slot.kept? store = none :=
  kept?_of_load? (load?_of_get?_eq_none h)

/-- A slot that holds nothing but the text of a value can be read. -/
theorem load?_eq_kept? [Json.Lossless α] {slot : Slot α} {store : Store}
    (h : ∀ s, store.get? slot.key = some s → ∃ a : α, s = Json.encode a) :
    slot.load? store = .ok (slot.kept? store) := by
  cases hget : store.get? slot.key with
  | none =>
    have hload := load?_of_get?_eq_none hget
    rw [kept?_of_load? hload, hload]
  | some s =>
    obtain ⟨a, rfl⟩ := h s hget
    have hload := load?_of_get?_eq_some hget
    rw [kept?_of_load? hload, hload]

theorem kept?_congr {slot : Slot α} {store store' : Store}
    (h : store.get? slot.key = store'.get? slot.key) : slot.kept? store = slot.kept? store' := by
  rw [kept?, kept?, load?_congr h]

theorem kept?_save_self [Json.Lossless α] (slot : Slot α) (a : α) (store : Store) :
    slot.kept? (slot.save a store) = some a :=
  kept?_of_load? (load?_save slot a store)

end Slot

namespace Ledger

variable {store : Store}

/-! ### Changes at other places -/

namespace Place

/-- A write at one place is not noticed at another. -/
theorem get?_insert_of_ne {p q : Place} (h : q ≠ p) (store : Store) (s : Bytes) :
    (store.insert p.key s).get? q.key = store.get? q.key :=
  (OrderedMap.get?_insert store p.key s q.key).trans (if_neg fun e => h (key_injective e))

end Place

namespace Chunk

/-- Removing chunks removes their keys and no others. -/
theorem get?_removeAll (caller : Address) (hash : TxHash) (count : Word 8) (store : Store)
    (k : Bytes) :
    (removeAll caller hash count store).get? k =
      if k ∈ count.below.map (fun i => (slot caller hash i).key) then none else store.get? k := by
  rw [removeAll]
  generalize count.below = indices
  induction indices generalizing store with
  | nil => rfl
  | cons i rest ih =>
    rw [List.foldl_cons, ih, Slot.get?_erase, List.map_cons]
    by_cases hrest : k ∈ rest.map fun i => (slot caller hash i).key
    · rw [if_pos hrest, if_pos (List.mem_cons_of_mem _ hrest)]
    · simp only [List.mem_cons, hrest, or_false, if_false]

theorem get?_removeAll_self {caller : Address} {hash : TxHash} {count index : Word 8}
    (h : index.toNat < count.toNat) (store : Store) :
    (removeAll caller hash count store).get? (slot caller hash index).key = none :=
  (get?_removeAll ..).trans (if_pos (List.mem_map.mpr ⟨index, Word.mem_below.mpr h, rfl⟩))

theorem get?_removeAll_of_ne {caller : Address} {hash : TxHash} {count : Word 8} {k : Bytes}
    (h : ∀ index : Word 8, index.toNat < count.toNat → k ≠ (slot caller hash index).key)
    (store : Store) : (removeAll caller hash count store).get? k = store.get? k := by
  refine (get?_removeAll ..).trans (if_neg ?_)
  rw [List.mem_map]
  rintro ⟨index, hindex, e⟩
  exact h index (Word.mem_below.mp hindex) e.symm

theorem get?_removeAll_place {caller : Address} {hash : TxHash} {p : Place}
    (h : ∀ index, p ≠ .chunk caller hash index) (count : Word 8) (store : Store) :
    (removeAll caller hash count store).get? p.key = store.get? p.key :=
  get?_removeAll_of_ne (fun index _ e =>
    h index (Place.key_injective (q := .chunk caller hash index) e)) store

theorem get?_account_removeAll (caller : Address) (hash : TxHash) (count : Word 8) (store : Store)
    (address : Address) :
    (removeAll caller hash count store).get? (Account.slot address).key =
      store.get? (Account.slot address).key :=
  get?_removeAll_place (p := .account address) nofun count store

end Chunk

/-! ### Accounts -/

/-- The account that is kept for an address. -/
def storedAccount (store : Store) (address : Address) : Option Account :=
  (Account.slot address).kept? store

theorem WellFormed.load?_account (h : WellFormed store) (address : Address) :
    (Account.slot address).load? store = .ok (storedAccount store address) := by
  refine Slot.load?_eq_kept? fun s hs => ?_
  obtain ⟨a, -, ha⟩ := h.tidy.fits (.account address) hs
  exact ⟨a, ha⟩

/-- An account is kept as its text and nothing else. -/
theorem WellFormed.get?_account (h : WellFormed store) (address : Address) :
    store.get? (Account.slot address).key = (storedAccount store address).map Json.encode := by
  cases hget : store.get? (Account.slot address).key with
  | none =>
    have hnone : storedAccount store address = none := Slot.kept?_of_get?_eq_none hget
    rw [hnone, Option.map_none]
  | some s =>
    obtain ⟨a, -, rfl⟩ := h.tidy.fits (.account address) hget
    have hsome : storedAccount store address = some a :=
      Slot.kept?_of_load? (Slot.load?_of_get?_eq_some hget)
    rw [hsome, Option.map_some]

/-- An address without an account counts as having a vacant one. -/
theorem accountAt_eq_getD (store : Store) (address : Address) :
    accountAt store address = (storedAccount store address).getD (.vacant address) := by
  rw [accountAt, storedAccount, Slot.kept?, Account.load]
  cases (Account.slot address).load? store <;> rfl

theorem storedAccount_congr {after : Store} {address : Address}
    (h : after.get? (Account.slot address).key = store.get? (Account.slot address).key) :
    storedAccount after address = storedAccount store address :=
  Slot.kept?_congr h

theorem accountAt_congr {after : Store} {address : Address}
    (h : storedAccount after address = storedAccount store address) :
    accountAt after address = accountAt store address := by
  rw [accountAt_eq_getD, accountAt_eq_getD, h]

/-- An account is known if it is known whether it is there and what it counts as. -/
theorem storedAccount_eq_of_accountAt {after : Store} {address : Address}
    (hnone : storedAccount after address = none ↔ storedAccount store address = none)
    (hat : accountAt after address = accountAt store address) :
    storedAccount after address = storedAccount store address := by
  rw [accountAt_eq_getD, accountAt_eq_getD] at hat
  cases hkept : storedAccount store address with
  | none => exact hnone.mpr hkept
  | some a =>
    cases hleft : storedAccount after address with
    | none => cases hkept.symm.trans (hnone.mp hleft)
    | some b =>
      rw [hkept, hleft] at hat
      exact congrArg some hat

theorem storedAccount_save (a : Account) (store : Store) (address : Address) :
    storedAccount (a.save store) address =
      if address = a.address then some a else storedAccount store address := by
  by_cases h : address = a.address
  · rw [if_pos h, h]
    exact Slot.kept?_save_self (Account.slot a.address) a store
  · rw [if_neg h]
    exact storedAccount_congr (Account.get?_save_of_ne (Account.key_ne_key h) store)

theorem accountAt_save (a : Account) (store : Store) (address : Address) :
    accountAt (a.save store) address =
      if address = a.address then a else accountAt store address := by
  rw [accountAt_eq_getD, accountAt_eq_getD, storedAccount_save]
  split <;> rfl

theorem storedAccount_insert {p : Place} (h : ∀ address, p ≠ .account address) (s : Bytes)
    (store : Store) (address : Address) :
    storedAccount (store.insert p.key s) address = storedAccount store address :=
  storedAccount_congr (Place.get?_insert_of_ne (q := .account address) (h address).symm store s)

theorem storedAccount_saveChunk (caller : Address) (hash : TxHash) (index : Word 8) (data : Bytes)
    (store : Store) (address : Address) :
    storedAccount ((Chunk.slot caller hash index).save data store) address =
      storedAccount store address :=
  storedAccount_insert (p := .chunk caller hash index) nofun _ store address

theorem storedAccount_saveConfig (config : Config) (store : Store) (address : Address) :
    storedAccount (Config.slot.save config store) address = storedAccount store address :=
  storedAccount_insert (p := .config) nofun _ store address

theorem storedAccount_saveVersion (v : Version) (store : Store) (address : Address) :
    storedAccount (Version.slot.save v store) address = storedAccount store address :=
  storedAccount_insert (p := .version) nofun _ store address

theorem storedAccount_removeAll (caller : Address) (hash : TxHash) (count : Word 8) (store : Store)
    (address : Address) :
    storedAccount (Chunk.removeAll caller hash count store) address =
      storedAccount store address :=
  storedAccount_congr (Chunk.get?_account_removeAll caller hash count store address)

/-! ### Chunks -/

/-- The chunk that is kept in a slot. -/
def storedChunk (store : Store) (caller : Address) (hash : TxHash) (index : Word 8) :
    Option Bytes :=
  (Chunk.slot caller hash index).kept? store

variable {caller : Address} {hash : TxHash} {index : Word 8}

theorem WellFormed.load?_chunk (h : WellFormed store) (caller : Address) (hash : TxHash)
    (index : Word 8) :
    (Chunk.slot caller hash index).load? store = .ok (storedChunk store caller hash index) :=
  Slot.load?_eq_kept? fun _ hs => h.tidy.fits (.chunk caller hash index) hs

theorem storedChunk_congr {after : Store}
    (h : after.get? (Chunk.slot caller hash index).key =
      store.get? (Chunk.slot caller hash index).key) :
    storedChunk after caller hash index = storedChunk store caller hash index :=
  Slot.kept?_congr h

theorem storedChunk_saveChunk (caller' : Address) (hash' : TxHash) (index' : Word 8)
    (data : Bytes) (store : Store) :
    storedChunk ((Chunk.slot caller' hash' index').save data store) caller hash index =
      if caller = caller' ∧ hash = hash' ∧ index = index' then some data
      else storedChunk store caller hash index := by
  split
  next h =>
    obtain ⟨rfl, rfl, rfl⟩ := h
    exact Slot.kept?_save_self (Chunk.slot caller hash index) data store
  next h =>
    exact storedChunk_congr
      (Slot.get?_save_of_ne (fun e => h (Place.chunkKey_injective e)) data store)

theorem storedChunk_removeAll (caller' : Address) (hash' : TxHash) (count : Word 8)
    (store : Store) :
    storedChunk (Chunk.removeAll caller' hash' count store) caller hash index =
      if caller = caller' ∧ hash = hash' ∧ index.toNat < count.toNat then none
      else storedChunk store caller hash index := by
  split
  next h =>
    obtain ⟨rfl, rfl, hindex⟩ := h
    exact Slot.kept?_of_get?_eq_none (Chunk.get?_removeAll_self hindex store)
  next h =>
    refine storedChunk_congr (Chunk.get?_removeAll_of_ne (fun i hi e => ?_) store)
    obtain ⟨rfl, rfl, rfl⟩ := Place.chunkKey_injective e
    exact h ⟨rfl, rfl, hi⟩

theorem storedChunk_insert {p : Place} (h : ∀ caller hash index, p ≠ .chunk caller hash index)
    (s : Bytes) (store : Store) :
    storedChunk (store.insert p.key s) caller hash index = storedChunk store caller hash index :=
  storedChunk_congr
    (Place.get?_insert_of_ne (q := .chunk caller hash index) (h caller hash index).symm store s)

theorem storedChunk_save (a : Account) (store : Store) :
    storedChunk (a.save store) caller hash index = storedChunk store caller hash index :=
  storedChunk_insert (p := .account a.address) nofun _ store

theorem storedChunk_saveConfig (config : Config) (store : Store) :
    storedChunk (Config.slot.save config store) caller hash index =
      storedChunk store caller hash index :=
  storedChunk_insert (p := .config) nofun _ store

theorem storedChunk_saveVersion (v : Version) (store : Store) :
    storedChunk (Version.slot.save v store) caller hash index =
      storedChunk store caller hash index :=
  storedChunk_insert (p := .version) nofun _ store

/-! ### All that is kept -/

/-- A key that is no place of a ledger holds nothing. -/
theorem Tidy.get?_eq_none (h : Tidy store) {k : Bytes} (hk : ¬ ∃ p : Place, p.key = k) :
    store.get? k = none := by
  cases hget : store.get? k with
  | none => rfl
  | some s =>
    obtain ⟨p, hp, -⟩ := h k s hget
    exact absurd ⟨p, hp⟩ hk

/-- The accounts and what is kept at the other places make up the store. -/
theorem WellFormed.ext {after : Store} (h : WellFormed store) (h' : WellFormed after)
    (haccounts : ∀ address, storedAccount store address = storedAccount after address)
    (hothers : ∀ p : Place, (∀ address, p ≠ .account address) →
      store.get? p.key = after.get? p.key) : store = after := by
  refine OrderedMap.ext_get? fun k => ?_
  by_cases hk : ∃ p : Place, p.key = k
  · obtain ⟨p, rfl⟩ := hk
    cases p with
    | account address => rw [Place.key, h.get?_account, h'.get?_account, haccounts]
    | _ => exact hothers _ (by simp)
  · rw [h.tidy.get?_eq_none hk, h'.tidy.get?_eq_none hk]

/-! ### Chunks put together -/

theorem Chunk.collectFrom_cons_eq_ok_iff {rest : List (Word 8)} {b : Bytes} :
    collectFrom caller hash store (index :: rest) = .ok b ↔
      ∃ data tail, storedChunk store caller hash index = some data ∧
        collectFrom caller hash store rest = .ok tail ∧ b = data ++ tail := by
  simp only [collectFrom, bind_eq_ok_iff, ofFault, mapError_eq_ok_iff, storedChunk,
    Slot.kept?_eq_some_iff]
  constructor
  · rintro ⟨_ | data, hload, hrest⟩
    · cases hrest
    · obtain ⟨tail, htail, hb⟩ := bind_eq_ok_iff.mp hrest
      cases hb
      exact ⟨data, tail, hload, htail, rfl⟩
  · rintro ⟨data, tail, hload, htail, rfl⟩
    exact ⟨some data, hload, bind_eq_ok_iff.mpr ⟨tail, htail, rfl⟩⟩

/-- Chunks are put together if each of them is there. -/
theorem Chunk.collectFrom_eq_ok_iff : ∀ {indices : List (Word 8)} {b : Bytes},
    collectFrom caller hash store indices = .ok b ↔
      ∃ chunks : List Bytes,
        indices.map (storedChunk store caller hash) = chunks.map some ∧ b = chunks.flatten
  | [], b => by
    constructor
    · intro h
      cases h
      exact ⟨[], rfl, rfl⟩
    · rintro ⟨chunks, hchunks, rfl⟩
      rw [List.map_eq_nil_iff.mp hchunks.symm]
      rfl
  | index :: rest, b => by
    rw [collectFrom_cons_eq_ok_iff]
    constructor
    · rintro ⟨data, tail, hdata, htail, rfl⟩
      obtain ⟨chunks, hchunks, rfl⟩ := collectFrom_eq_ok_iff.mp htail
      exact ⟨data :: chunks, by rw [List.map_cons, hdata, hchunks, List.map_cons], rfl⟩
    · rintro ⟨_ | ⟨data, chunks⟩, hchunks, rfl⟩
      · cases hchunks
      · rw [List.map_cons, List.map_cons, List.cons.injEq] at hchunks
        exact ⟨data, chunks.flatten, hchunks.1,
          collectFrom_eq_ok_iff.mpr ⟨chunks, hchunks.2, rfl⟩, rfl⟩

theorem Chunk.collect_eq_ok_iff {count : Word 8} {b : Bytes} :
    collect caller hash count store = .ok b ↔ count ≠ 0 ∧
      ∃ chunks : List Bytes,
        count.below.map (storedChunk store caller hash) = chunks.map some ∧
          b = chunks.flatten := by
  rw [collect]
  split
  next h => simp [h]
  next h => rw [collectFrom_eq_ok_iff, and_iff_right h]

/-- Chunks are looked for in order, and the first that is missing is named. -/
theorem Chunk.collectFrom_cons (h : WellFormed store) (rest : List (Word 8)) :
    collectFrom caller hash store (index :: rest) =
      match storedChunk store caller hash index with
      | none => .error (.chunkMissing hash index)
      | some data => (collectFrom caller hash store rest).map (data ++ ·) := by
  rw [collectFrom, h.load?_chunk, ofFault, Except.mapError, ok_bind]
  cases storedChunk store caller hash index with
  | none => rfl
  | some data => cases collectFrom caller hash store rest <;> rfl

theorem Chunk.collectFrom_error (h : WellFormed store) {refusal : Refusal} :
    ∀ {indices : List (Word 8)}, collectFrom caller hash store indices = .error refusal →
      ∃ index, refusal = .chunkMissing hash index
  | index :: rest, hcollect => by
    rw [collectFrom_cons h] at hcollect
    cases hkept : storedChunk store caller hash index with
    | none =>
      rw [hkept] at hcollect
      cases hcollect
      exact ⟨index, rfl⟩
    | some data =>
      rw [hkept] at hcollect
      cases hrest : collectFrom caller hash store rest with
      | error e =>
        rw [hrest] at hcollect
        cases hcollect
        exact collectFrom_error h hrest
      | ok tail =>
        rw [hrest] at hcollect
        cases hcollect

/-- Nothing but a missing chunk keeps chunks from being put together. -/
theorem Chunk.collect_error (h : WellFormed store) {count : Word 8} {refusal : Refusal}
    (hcollect : collect caller hash count store = .error refusal) :
    ∃ index, refusal = .chunkMissing hash index := by
  rw [collect] at hcollect
  split at hcollect
  · cases hcollect
    exact ⟨0, rfl⟩
  · exact collectFrom_error h hcollect

/-- Without a first chunk none are put together, however many are asked for. -/
theorem Chunk.collect_of_none (h : WellFormed store)
    (hnone : storedChunk store caller hash 0 = none) (count : Word 8) :
    collect caller hash count store = .error (.chunkMissing hash 0) := by
  rw [collect]
  split
  · rfl
  next hcount =>
    obtain ⟨rest, hbelow⟩ := Word.exists_below hcount
    rw [hbelow, collectFrom_cons h, hnone]

/-- All chunks that are put together are there. -/
theorem Chunk.exists_of_collect {count : Word 8} {b : Bytes}
    (h : collect caller hash count store = .ok b) (hindex : index.toNat < count.toNat) :
    ∃ data, storedChunk store caller hash index = some data := by
  obtain ⟨-, chunks, hchunks, -⟩ := collect_eq_ok_iff.mp h
  have hmem : storedChunk store caller hash index ∈ chunks.map some :=
    hchunks ▸ List.mem_map_of_mem (Word.mem_below.mpr hindex)
  obtain ⟨data, -, hdata⟩ := List.mem_map.mp hmem
  exact ⟨data, hdata.symm⟩

end Ledger
end RelayLedger
