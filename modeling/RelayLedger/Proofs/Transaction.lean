/-
# Transactions have one encoding

`Transaction.decode` accepts exactly what `Transaction.encode` writes. Each of its readers is the
inverse of one writer (`recipientOf_eq_ok_iff`, `chainIdOf_eq_ok_iff`, `ofItems_eq_ok_iff`), and the
list around them is canonical by `Rlp.decode_eq_ok_iff`; so no transaction can be spelled in a
second way.

Key theorems: `Transaction.decode_eq_ok_iff`, `Transaction.decode_canonical_encoding`.
-/
import RelayLedger.Proofs.Rlp.Canonical
import RelayLedger.Proofs.Rlp.Integer
import RelayLedger.Transaction

namespace RelayLedger
namespace Transaction

open Rlp

theorem ofRlp_eq_ok_iff {α : Type} {x : Except Rlp.Fault α} {a : α} :
    ofRlp x = .ok a ↔ x = .ok a := by
  cases x <;> simp [ofRlp]

/-- A number in an item is read through the format's faults. -/
theorem ofRlp_word_eq_ok_iff {bits : Nat} (h : bits % 8 = 0) {item : Item} {w : Word bits} :
    ofRlp (item.word bits) = .ok w ↔ item = .ofWord w := by
  rw [ofRlp_eq_ok_iff, Item.word_eq_ok_iff h]

/-! ### The parts of a transaction -/

theorem recipientOf_eq_ok_iff {item : Item} {recipient : Option Address} :
    recipientOf item = .ok recipient ↔ item = recipientItem recipient := by
  unfold recipientOf
  simp only [bind_eq_ok_iff, ofRlp_eq_ok_iff, Item.bytes_eq_ok_iff]
  constructor
  · rintro ⟨s, rfl, h⟩
    split at h
    next hs =>
      cases h
      rw [List.isEmpty_iff.mp hs, recipientItem]
    next hs =>
      by_cases hlen : s.length = FixedKind.address.width
      · rw [Fixed.ofBytes, dif_pos hlen] at h
        cases h
        rfl
      · rw [Fixed.ofBytes, dif_neg hlen] at h
        cases h
  · rintro rfl
    cases recipient with
    | none => exact ⟨[], rfl, rfl⟩
    | some a =>
      have hne : a.bytes.isEmpty = false := by
        rw [List.isEmpty_eq_false_iff_exists_mem]
        exact ⟨_, List.getElem_mem (show 0 < a.bytes.length by rw [a.length_eq]; decide)⟩
      refine ⟨a.bytes, rfl, ?_⟩
      rw [hne, if_neg Bool.false_ne_true, Fixed.ofBytes, dif_pos a.length_eq]
      rfl

theorem chainIdOf_eq_ok_iff {chainId r s : Item} {id : Word 64} :
    chainIdOf chainId r s = .ok id ↔ chainId = .ofWord id ∧ r = .str [] ∧ s = .str [] := by
  unfold chainIdOf
  simp only [bind_eq_ok_iff, ofRlp_word_eq_ok_iff (show 64 % 8 = 0 from rfl)]
  constructor
  · rintro ⟨rword, rfl, h⟩
    split at h
    · cases h
    next hr =>
      obtain ⟨sword, hs, hid⟩ := bind_eq_ok_iff.mp h
      split at hid
      · cases hid
      next hs0 =>
        rw [ofRlp_word_eq_ok_iff rfl] at hs hid
        rw [not_not.mp hr, hs, not_not.mp hs0, Item.ofWord_zero]
        exact ⟨hid, rfl, rfl⟩
  · rintro ⟨rfl, rfl, rfl⟩
    refine ⟨0, rfl, ?_⟩
    rw [if_neg (not_not.mpr rfl)]
    refine bind_eq_ok_iff.mpr ⟨0, (ofRlp_word_eq_ok_iff rfl).mpr rfl, ?_⟩
    rw [if_neg (not_not.mpr rfl)]
    exact (ofRlp_word_eq_ok_iff rfl).mpr rfl

/-- The first six items of a transaction. -/
def coreItems (tx : Transaction) : List Item :=
  [.ofWord tx.nonce, .ofWord tx.gasPrice, .ofWord tx.gasLimit, recipientItem tx.recipient,
    .ofWord tx.value, .str tx.callData]

theorem ofItems_eq_ok_iff {size : Nat} {chainId : Option (Word 64)}
    {nonce gasPrice gasLimit recipient value callData : Item} {tx : Transaction} :
    ofItems size chainId nonce gasPrice gasLimit recipient value callData = .ok tx ↔
      [nonce, gasPrice, gasLimit, recipient, value, callData] = tx.coreItems ∧
        tx.chainId = chainId ∧ tx.encodedLength = size := by
  unfold ofItems coreItems
  simp only [bind_eq_ok_iff, recipientOf_eq_ok_iff, ofRlp_word_eq_ok_iff (show 64 % 8 = 0 from rfl),
    ofRlp_word_eq_ok_iff (show 256 % 8 = 0 from rfl), ofRlp_eq_ok_iff, Item.bytes_eq_ok_iff,
    pure_eq_ok, Except.ok.injEq, List.cons.injEq, and_true]
  constructor
  · rintro ⟨_, rfl, _, rfl, _, rfl, _, rfl, _, rfl, _, rfl, rfl⟩
    exact ⟨⟨rfl, rfl, rfl, rfl, rfl, rfl⟩, rfl, rfl⟩
  · rintro ⟨⟨rfl, rfl, rfl, rfl, rfl, rfl⟩, rfl, rfl⟩
    exact ⟨_, rfl, _, rfl, _, rfl, _, rfl, _, rfl, _, rfl, rfl⟩

/-! ### The whole transaction -/

theorem toItems_of_none {tx : Transaction} (h : tx.chainId = none) : tx.toItems = tx.coreItems := by
  rw [toItems, h, coreItems]

theorem toItems_of_some {tx : Transaction} {chainId : Word 64} (h : tx.chainId = some chainId) :
    tx.toItems = tx.coreItems ++ [.ofWord chainId, .str [], .str []] := by
  rw [toItems, h, coreItems]

/-- A transaction is a list of strings. -/
theorem depth_toItems (tx : Transaction) : (Item.list tx.toItems).depth = 1 := by
  have hrecipient : (recipientItem tx.recipient).depth = 0 := by
    cases tx.recipient <;> exact depth_str _
  cases h : tx.chainId <;>
    simp [toItems, h, Item.ofWord, depth_list, depthAll_cons, depthAll_nil, depth_str, hrecipient]

theorem decode_eq_ok_iff {d : Bytes} {tx : Transaction} :
    decode d = .ok tx ↔
      d = tx.encode ∧ tx.encodedLength = d.length ∧ d.length < Word.bound 64 := by
  unfold decode
  simp only [bind_eq_ok_iff, ofRlp_eq_ok_iff, Item.items_eq_ok_iff, Prod.exists,
    Rlp.decode_eq_ok_iff]
  constructor
  · rintro ⟨item, size, ⟨hd, rfl, hlen, -⟩, items, rfl, h⟩
    have hall : items = tx.toItems ∧ tx.encodedLength = d.length := by
      split at h
      next =>
        obtain ⟨hitems, hid, hsize⟩ := ofItems_eq_ok_iff.mp h
        exact ⟨by rw [toItems_of_none hid, hitems], hsize⟩
      next =>
        obtain ⟨id, hread, hcore⟩ := bind_eq_ok_iff.mp h
        obtain ⟨rfl, rfl, rfl⟩ := chainIdOf_eq_ok_iff.mp hread
        obtain ⟨hitems, hid, hsize⟩ := ofItems_eq_ok_iff.mp hcore
        exact ⟨by rw [toItems_of_some hid, ← hitems]; rfl, hsize⟩
      · cases h
    obtain ⟨rfl, hsize⟩ := hall
    exact ⟨hd, hsize, hd ▸ hlen⟩
  · rintro ⟨rfl, hsize, hlen⟩
    refine ⟨.list tx.toItems, tx.encode.length, ⟨rfl, rfl, hlen, ?_⟩, tx.toItems, rfl, ?_⟩
    · rw [depth_toItems]
      decide
    · have hcore : ofItems tx.encode.length tx.chainId (.ofWord tx.nonce) (.ofWord tx.gasPrice)
          (.ofWord tx.gasLimit) (recipientItem tx.recipient) (.ofWord tx.value)
          (.str tx.callData) = .ok tx := ofItems_eq_ok_iff.mpr ⟨rfl, rfl, hsize⟩
      cases hid : tx.chainId with
      | none =>
        rw [toItems_of_none hid, ← hid]
        exact hcore
      | some id =>
        rw [toItems_of_some hid]
        refine bind_eq_ok_iff.mpr ⟨id, chainIdOf_eq_ok_iff.mpr ⟨rfl, rfl, rfl⟩, ?_⟩
        rw [← hid]
        exact hcore

/-- A transfer of 123456 that names its chain. -/
def sample : Transaction where
  nonce := 0
  gasPrice := ⟨1, by decide⟩
  gasLimit := ⟨21000, by decide⟩
  recipient := some ⟨[0xb3, 0x4e, 0x22, 0x13, 0x75, 0x1c, 0x5d, 0x8e, 0x9a, 0x31, 0x75, 0x5f, 0xca,
    0x6f, 0x1b, 0x4f, 0xa5, 0xbb, 0x6b, 0xe1], rfl⟩
  value := ⟨123456, by decide⟩
  callData := []
  chainId := some ⟨5, by decide⟩
  encodedLength := 35

/-- The bytes of that transfer. -/
def sampleBytes : Bytes :=
  [0xe2, 0x80, 0x01, 0x82, 0x52, 0x08, 0x94, 0xb3, 0x4e, 0x22, 0x13, 0x75, 0x1c, 0x5d, 0x8e, 0x9a,
    0x31, 0x75, 0x5f, 0xca, 0x6f, 0x1b, 0x4f, 0xa5, 0xbb, 0x6b, 0xe1, 0x83, 0x01, 0xe2, 0x40, 0x80,
    0x05, 0x80, 0x80]

theorem decode_sampleBytes : decode sampleBytes = .ok sample :=
  decode_eq_ok_iff.mpr ⟨by decide +kernel, rfl, by decide⟩

/-- A byte string is read as a transaction exactly when it is what the transaction is written as, so
what is read can be written again and no transaction has two spellings. -/
theorem decode_canonical_encoding :
    (∀ (d : Bytes) (tx : Transaction), d.length < Word.bound 64 →
      (decode d = .ok tx ↔ d = tx.encode ∧ tx.encodedLength = d.length)) ∧
    (∀ (d : Bytes) (tx : Transaction), decode d = .ok tx → tx.encode = d) ∧
    (∀ (d₁ d₂ : Bytes) (tx : Transaction), decode d₁ = .ok tx → decode d₂ = .ok tx → d₁ = d₂) := by
  refine ⟨fun d tx hlen => ?_, fun d tx h => (decode_eq_ok_iff.mp h).1.symm, fun d₁ d₂ tx h₁ h₂ => ?_⟩
  · rw [decode_eq_ok_iff]
    constructor
    · rintro ⟨hd, hsize, -⟩
      exact ⟨hd, hsize⟩
    · rintro ⟨hd, hsize⟩
      exact ⟨hd, hsize, hlen⟩
  · rw [(decode_eq_ok_iff.mp h₁).1, (decode_eq_ok_iff.mp h₂).1]

theorem decode_canonical_sample :
    sampleBytes.length < Word.bound 64 ∧ decode sampleBytes = .ok sample ∧
      sample.encode = sampleBytes ∧ ∀ d : Bytes, decode d = .ok sample → d = sampleBytes := by
  have hlen : sampleBytes.length < Word.bound 64 := by decide
  have hencode := (decode_canonical_encoding.1 sampleBytes sample hlen).mp decode_sampleBytes
  exact ⟨hlen, decode_sampleBytes, hencode.1.symm,
    fun d hd => decode_canonical_encoding.2.2 d sampleBytes sample hd decode_sampleBytes⟩

end Transaction
end RelayLedger
