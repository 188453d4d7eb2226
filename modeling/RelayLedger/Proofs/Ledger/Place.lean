/-
# Where a ledger keeps what

A ledger keeps four kinds of things: its settings, its version, its accounts and the chunks of long
transactions. `Place` names the places and `Place.Fits` says what may be kept at each; an account is
kept under its own address. A tidy store keeps nothing else and nothing that does not fit, so
everything in it can be read. Different places have different keys.

Key definitions: `Ledger.Place`, `Ledger.Place.Fits`, `Ledger.Tidy`.
Key theorems: `Ledger.Place.key_injective`, `Ledger.Tidy.insert`, `Ledger.Tidy.exists_account`.
-/
import RelayLedger.Ledger.Run
import RelayLedger.Proofs.Slot

namespace RelayLedger

open Json in
instance : Lossless Version :=
  ⟨Format.record_lawful <| Fields.renamed_lawful
    (Fields.cons_lawful Format.text_lawful
      (Fields.cons_lawful Format.text_lawful Fields.empty_lawful (by simp)) (by decide))
    fun _ => rfl⟩

namespace Ledger

open Json in
instance : Lossless Account :=
  ⟨Format.record_lawful <| Fields.renamed_lawful
    (Fields.cons_lawful Format.fixed_lawful
      (Fields.cons_lawful Format.word_lawful
        (Fields.cons_lawful Format.numeral_lawful
          (Fields.cons_lawful Format.base64_lawful Fields.empty_lawful (by simp)) (by decide))
        (by decide)) (by decide))
    fun _ => rfl⟩

open Json in
instance : Lossless AccountSummary :=
  ⟨Format.record_lawful <| Fields.renamed_lawful
    (Fields.cons_lawful Format.fixed_lawful
      (Fields.cons_lawful Format.word_lawful
        (Fields.cons_lawful Format.numeral_lawful
          (Fields.cons_lawful Format.bool_lawful
            (Fields.cons_lawful Format.word_lawful Fields.empty_lawful (by simp)) (by decide))
          (by decide)) (by decide)) (by decide))
    fun _ => rfl⟩

open Json in
instance : Lossless Config :=
  ⟨Format.record_lawful <| Fields.renamed_lawful
    (Fields.cons_lawful Format.chainAddress_lawful
      (Fields.cons_lawful (Format.list_lawful Format.chainAddress_lawful)
        (Fields.cons_lawful Format.chainAddress_lawful
          (Fields.cons_lawful Format.word_lawful Fields.empty_lawful (by simp)) (by decide))
        (by decide)) (by decide))
    fun _ => rfl⟩

/-! ### Places -/

/-- What a ledger keeps things as. -/
inductive Place
  | config
  | version
  | account (address : Address)
  | chunk (caller : Address) (hash : TxHash) (index : Word 8)

namespace Place

/-- The key of a place. -/
def key : Place → Bytes
  | .config => Config.slot.key
  | .version => Version.slot.key
  | .account address => (Account.slot address).key
  | .chunk caller hash index => (Chunk.slot caller hash index).key

/-- Whether a text may be kept at a place. -/
def Fits : Place → Bytes → Prop
  | .config, s => ∃ c : Config, s = Json.encode c
  | .version, s => s = Json.encode Ledger.version
  | .account address, s => ∃ a : Account, a.address = address ∧ s = Json.encode a
  | .chunk .., s => ∃ data : Bytes, s = Json.encode data

/-- How the keys of a kind of place start. -/
def tag : Place → Bytes
  | .config => [99, 111, 110, 102]
  | .version => [99, 111, 110, 116]
  | .account _ => [0, 8, 97, 99]
  | .chunk .. => [0, 9, 116, 120]

theorem utf8_accounts : utf8 "accounts" = [97, 99, 99, 111, 117, 110, 116, 115] := by decide

theorem utf8_chunks : utf8 "tx_chunks" = [116, 120, 95, 99, 104, 117, 110, 107, 115] := by decide

theorem take_key : ∀ p : Place, p.key.take 4 = p.tag
  | .config => by decide
  | .version => by decide
  | .account a => by
    rw [key, Account.slot, utf8_accounts]
    rfl
  | .chunk c h i => by
    rw [key, Chunk.slot, utf8_chunks]
    rfl

theorem accountKey_injective {a b : Address}
    (h : (Account.slot a).key = (Account.slot b).key) : a = b := by
  have hshort : ∀ c : Address, ∀ s ∈ [utf8 "accounts", c.bytes], s.length < 65536 := by
    intro c s hs
    simp only [List.mem_cons, List.not_mem_nil, or_false] at hs
    rcases hs with rfl | rfl
    · decide
    · rw [c.length_eq]
      decide
  have hparts : [utf8 "accounts", a.bytes] = [utf8 "accounts", b.bytes] :=
    Store.key_injective rfl (hshort a) (hshort b) h
  rw [List.cons.injEq, List.cons.injEq] at hparts
  exact Fixed.ext_bytes hparts.2.1

theorem chunkKey_injective {c c' : Address} {h h' : TxHash} {i i' : Word 8}
    (e : (Chunk.slot c h i).key = (Chunk.slot c' h' i').key) : c = c' ∧ h = h' ∧ i = i' := by
  have hshort : ∀ (c : Address) (h : TxHash) (b : UInt8),
      ∀ s ∈ [utf8 "tx_chunks", c.bytes, h.bytes, [b]], s.length < 65536 := by
    intro c h b s hs
    simp only [List.mem_cons, List.not_mem_nil, or_false] at hs
    rcases hs with rfl | rfl | rfl | rfl
    · decide
    · rw [c.length_eq]
      decide
    · rw [h.length_eq]
      decide
    · exact (by decide : 1 < 65536)
  have hparts : [utf8 "tx_chunks", c.bytes, h.bytes, [UInt8.ofNat i.toNat]] =
      [utf8 "tx_chunks", c'.bytes, h'.bytes, [UInt8.ofNat i'.toNat]] :=
    Store.key_injective rfl (hshort c h _) (hshort c' h' _) e
  simp only [List.cons.injEq, true_and, and_true] at hparts
  obtain ⟨hc, hh, hi⟩ := hparts
  have hindex := congrArg UInt8.toNat hi
  rw [UInt8.toNat_ofNat_of_lt' i.isLt, UInt8.toNat_ofNat_of_lt' i'.isLt] at hindex
  exact ⟨Fixed.ext_bytes hc, Fixed.ext_bytes hh, Word.ext_toNat hindex⟩

/-- No two places share a key. -/
theorem key_injective {p q : Place} (h : p.key = q.key) : p = q := by
  have htag : p.tag = q.tag := by rw [← take_key, ← take_key, h]
  -- places of two kinds have two tags; the two families tell their own members apart
  cases p <;> cases q <;> first | rfl | (simp [tag] at htag; done) | skip
  · rw [accountKey_injective h]
  · obtain ⟨rfl, rfl, rfl⟩ := chunkKey_injective h
    rfl

theorem key_ne_account {p : Place} {address : Address} (h : p ≠ .account address) :
    p.key ≠ (Account.slot address).key :=
  fun e => h (key_injective (q := .account address) e)

end Place

/-! ### Tidy stores -/

/-- Whatever the store holds is at a place that it fits. -/
def Tidy (store : Store) : Prop :=
  ∀ (k s : Bytes), store.get? k = some s → ∃ p : Place, p.key = k ∧ p.Fits s

namespace Tidy

variable {store : Store}

theorem empty : Tidy ∅ := fun k s h => by
  rw [OrderedMap.get?_empty] at h
  cases h

theorem insert (h : Tidy store) (p : Place) {s : Bytes} (hs : p.Fits s) :
    Tidy (store.insert p.key s) := by
  intro k t ht
  by_cases hk : k = p.key
  · have hself := (OrderedMap.get?_insert store p.key s k).trans (if_pos hk)
    rw [hself, Option.some.injEq] at ht
    exact ⟨p, hk.symm, ht ▸ hs⟩
  · have hother := (OrderedMap.get?_insert store p.key s k).trans (if_neg hk)
    rw [hother] at ht
    exact h k t ht

theorem erase (h : Tidy store) (k : Bytes) : Tidy (OrderedMap.erase store k) := by
  intro j t ht
  by_cases hj : j = k
  · have hself := (OrderedMap.get?_erase store k j).trans (if_pos hj)
    rw [hself] at ht
    cases ht
  · have hother := (OrderedMap.get?_erase store k j).trans (if_neg hj)
    rw [hother] at ht
    exact h j t ht

theorem fits (h : Tidy store) (p : Place) {s : Bytes} (hs : store.get? p.key = some s) :
    p.Fits s := by
  obtain ⟨q, hkey, hfits⟩ := h p.key s hs
  rw [Place.key_injective hkey] at hfits
  exact hfits

/-- Every account of a tidy store can be read, and has the address under which it is kept. -/
theorem exists_account (h : Tidy store) (address : Address) :
    ∃ a : Account, a.address = address ∧ Account.load address store = .ok a := by
  cases hget : store.get? (Account.slot address).key with
  | none =>
    refine ⟨.vacant address, rfl, ?_⟩
    rw [Account.load, Slot.load?_of_get?_eq_none hget]
    rfl
  | some s =>
    obtain ⟨a, ha, rfl⟩ := h.fits (.account address) hget
    refine ⟨a, ha, ?_⟩
    rw [Account.load, Slot.load?_of_get?_eq_some hget]
    rfl

theorem exists_config (h : Tidy store) (hconfig : Config.slot.isTaken store = true) :
    ∃ c : Config, Config.slot.load store = .ok c := by
  obtain ⟨s, hs⟩ := Option.isSome_iff_exists.mp hconfig
  obtain ⟨c, rfl⟩ := h.fits .config hs
  exact ⟨c, Slot.load_of_get?_eq_some hs⟩

end Tidy
end Ledger
end RelayLedger
