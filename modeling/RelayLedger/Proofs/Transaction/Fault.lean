/-
# Why bytes are no transaction

Of nine items the last two are looked at first, as numbers: the places of a signature must be zero.
A number has at most eight bytes there, and a longer one is a fault of its own. So whether a signed
transaction is told to be signed depends on the length of the first of the two that is not empty.

Key definitions: `Transaction.signature`, `Transaction.nineStrings`.
Key theorems: `Rlp.Item.word_str`, `Transaction.decode_nine`, `Transaction.chainIdOf_signature`,
`Transaction.decode_signature`.
-/
import RelayLedger.Proofs.Transaction

namespace RelayLedger

/-! ### Numbers -/

namespace Rlp
namespace Item

variable {bits : Nat} {s : Bytes}

/-- A string without a zero in front is a number if it is not too long, and that is the only reason
why it may not be. -/
theorem word_str (h : s.head? ≠ some 0) :
    (str s).word bits =
      if bits / 8 < s.length then .error (.integerTooLarge s.length (bits / 8))
      else .ok (Word.ofBytes s) := by
  rw [word, bytes, ok_bind, if_neg h]

/-- Only the empty string is zero. -/
theorem ofBytes_ne_zero (hbits : bits % 8 = 0) (h : s.head? ≠ some 0) (hlen : s.length ≤ bits / 8)
    (hne : s ≠ []) : (Word.ofBytes s : Word bits) ≠ 0 := by
  intro hzero
  have hread : (str s).word bits = .ok 0 := by
    rw [word_str h, if_neg (Nat.not_lt.mpr hlen), hzero]
  rw [word_eq_ok_iff hbits, ofWord_zero] at hread
  cases hread
  exact hne rfl

end Item
end Rlp

namespace Transaction

open Rlp

/-! ### Signatures -/

/-- What is seen of a signature: the first of its parts that is not empty. -/
def signature (r s : Bytes) : Bytes := if r = [] then s else r

variable {r s : Bytes}

/-- A place of a signature that is not empty is a fault. -/
theorem place_fault (h : s.head? ≠ some 0) (hne : s ≠ []) {α : Type} (f : Except Fault α) :
    (do
      let w ← ofRlp ((Item.str s).word 64)
      if w ≠ 0 then .error .signed else f) =
        .error (if s.length ≤ 8 then .signed else .rlp (.integerTooLarge s.length 8)) := by
  rw [Item.word_str h]
  by_cases hlen : s.length ≤ 8
  · have hword : (Word.ofBytes s : Word 64) ≠ 0 := Item.ofBytes_ne_zero rfl h hlen hne
    rw [if_neg (Nat.not_lt.mpr hlen), if_pos hlen, ofRlp, ok_bind, if_pos hword]
  · rw [if_pos (Nat.not_le.mp hlen), if_neg hlen]
    rfl

theorem chainIdOf_signature (hr : r.head? ≠ some 0) (hs : s.head? ≠ some 0)
    (hsigned : r ≠ [] ∨ s ≠ []) (chainId : Item) :
    chainIdOf chainId (.str r) (.str s) =
      .error (if (signature r s).length ≤ 8 then .signed
        else .rlp (.integerTooLarge (signature r s).length 8)) := by
  unfold chainIdOf signature
  -- The second place is looked at only if the first is empty.
  by_cases hempty : r = []
  · have hne : s ≠ [] := hsigned.resolve_left (not_not.mpr hempty)
    rw [if_pos hempty, hempty]
    exact place_fault hs hne _
  · rw [if_neg hempty]
    exact place_fault hr hempty _

/-! ### Nine items -/

/-- Nine items are read once the chain id is. -/
theorem decode_nine {nonce gasPrice gasLimit recipient value callData chainId r s : Item}
    {bytes : Bytes}
    (hbytes : bytes = (Item.list
      [nonce, gasPrice, gasLimit, recipient, value, callData, chainId, r, s]).encode)
    (hlen : bytes.length < Word.bound 64)
    (hdepth : (Item.list
      [nonce, gasPrice, gasLimit, recipient, value, callData, chainId, r, s]).depth ≤ maxDepth) :
    decode bytes = (do
      let chainId ← chainIdOf chainId r s
      ofItems bytes.length (some chainId) nonce gasPrice gasLimit recipient value callData) := by
  rw [decode, Rlp.decode_eq_ok_iff.mpr ⟨hbytes, rfl, hbytes ▸ hlen, hdepth⟩]
  rfl

/-- A list of strings, the last two of which are the places of a signature. -/
def nineStrings (fields : List Bytes) (r s : Bytes) : Item :=
  .list (fields.map .str ++ [.str r, .str s])

theorem depthAll_map_str : ∀ l : List Bytes, depthAll (l.map .str) = 0
  | [] => depthAll_nil
  | s :: l => by rw [List.map_cons, depthAll_cons, depth_str, depthAll_map_str l, Nat.max_zero]

theorem depth_nineStrings (fields : List Bytes) (r s : Bytes) :
    (nineStrings fields r s).depth = 1 := by
  have hmap : fields.map Item.str ++ [.str r, .str s] = (fields ++ [r, s]).map .str := by
    rw [List.map_append]
    rfl
  rw [nineStrings, depth_list, hmap, depthAll_map_str]

/-- A transaction that carries a signature is refused, whatever else stands in it: as signed, unless
the part of the signature that is seen first is too long for a number of eight bytes. -/
theorem decode_signature {fields : List Bytes} (hfields : fields.length = 7)
    (hr : r.head? ≠ some 0) (hs : s.head? ≠ some 0) (hsigned : r ≠ [] ∨ s ≠ [])
    (hlen : (nineStrings fields r s).encode.length < Word.bound 64) :
    decode (nineStrings fields r s).encode =
      .error (if (signature r s).length ≤ 8 then .signed
        else .rlp (.integerTooLarge (signature r s).length 8)) := by
  have hdepth : (nineStrings fields r s).depth ≤ maxDepth := by
    rw [depth_nineStrings]
    decide
  match fields, hfields with
  | [_, _, _, _, _, _, chainId], _ =>
    refine (decode_nine rfl hlen hdepth).trans ?_
    rw [chainIdOf_signature hr hs hsigned, error_bind]

/-- A transfer of 123456 on chain 5, but for its signature. -/
def transferFields : List Bytes :=
  [[], [1], [0x52, 0x08], List.replicate 20 0xb3, [0x01, 0xe2, 0x40], [], [5]]

theorem decode_signature_samples :
    (decode (nineStrings transferFields [1] []).encode = .error .signed ∧
      decode (nineStrings transferFields [] (List.replicate 8 0x7f)).encode = .error .signed) ∧
    decode (nineStrings transferFields (List.replicate 32 0x11) (List.replicate 32 0x22)).encode =
      .error (.rlp (.integerTooLarge 32 8)) :=
  ⟨⟨decode_signature rfl (by decide) (by decide) (by decide) (by decide +kernel),
    decode_signature rfl (by decide) (by decide) (by decide) (by decide +kernel)⟩,
    decode_signature rfl (by decide) (by decide) (by decide) (by decide +kernel)⟩

/-- A transaction that is well formed without a signature, and with one of two numbers of 32 bytes
is not told to be signed. -/
theorem decode_long_signature :
    (∃ tx, decode (nineStrings transferFields [] []).encode = .ok tx) ∧
    ∃ r s : Bytes, r.length = 32 ∧ s.length = 32 ∧ r.head? ≠ some 0 ∧ s.head? ≠ some 0 ∧
      decode (nineStrings transferFields r s).encode ≠ .error .signed := by
  have hread : decode (nineStrings transferFields [] []).encode = .ok
      { nonce := 0, gasPrice := ⟨1, by decide⟩, gasLimit := ⟨21000, by decide⟩
        recipient := some ⟨List.replicate 20 0xb3, rfl⟩, value := ⟨123456, by decide⟩
        callData := [], chainId := some ⟨5, by decide⟩, encodedLength := 35 } := by
    decide +kernel
  refine ⟨⟨_, hread⟩, List.replicate 32 0x11, List.replicate 32 0x22, ?_⟩
  decide +kernel

end Transaction
end RelayLedger
