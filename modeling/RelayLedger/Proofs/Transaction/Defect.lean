/-
# Transactions with one defect

A transaction has six fields, or seven with a chain id, and each of them can be wrong in a few ways
only: it may be a list, a number may be too long or start with a zero, a recipient may have another
length than an address. `Field.Defect` lists them with the fault that tells of each. The fields are
not read in their order, but whichever is read first, a refusal always tells of a defect that is
there (`exists_defectAt_of_decode`), and with a defect anywhere nothing is accepted
(`decode_ne_ok_of_defectAt`). So a transaction with one defect is refused for it, and a transaction
without any is accepted.

Key definitions: `Transaction.Field`, `Transaction.Field.Defect`, `Transaction.Form`,
`Transaction.Form.DefectAt`.
Key theorems: `Transaction.word_eq_error_iff`, `Transaction.recipientOf_eq_error_iff`,
`Transaction.exists_defectAt_of_decode`, `Transaction.decode_defect`.
-/
import RelayLedger.Proofs.Transaction.Fault

namespace RelayLedger
namespace Transaction

open Rlp

/-! ### Fields and what may be wrong with them -/

/-- What an item of a transaction stands for. -/
inductive Field
  /-- A number of at most so many bytes. -/
  | number (limit : Nat)
  | recipient
  | data

/-- What is wrong with the item of a field, and how it is told. -/
inductive Field.Defect : Field → Item → Fault → Prop
  | list {field : Field} {items : List Item} : Defect field (.list items) (.rlp .expectedString)
  | tooLarge {limit : Nat} {s : Bytes} (long : limit < s.length) :
    Defect (.number limit) (.str s) (.rlp (.integerTooLarge s.length limit))
  | leadingZero {limit : Nat} {s : Bytes} (fits : (0 :: s).length ≤ limit) :
    Defect (.number limit) (.str (0 :: s)) (.rlp .leadingZero)
  | recipientLength {s : Bytes} (present : s.length ≠ 0) (other : s.length ≠ 20) :
    Defect .recipient (.str s) (.recipientLength s.length)

/-- Whether a transaction names the chain it is meant for. -/
inductive Form
  | plain
  | onChain

/-- The fields of a transaction but for its chain id. -/
def coreFields : List Field :=
  [.number 8, .number 32, .number 32, .recipient, .number 32, .data]

/-- The fields of a transaction. -/
def Form.fields : Form → List Field
  | .plain => coreFields
  | .onChain => coreFields ++ [.number 8]

/-- What follows the fields: the empty places of a signature where there is a chain id. -/
def Form.unsigned : Form → List Item
  | .plain => []
  | .onChain => [.str [], .str []]

/-- The item at a place has a defect. -/
def Form.DefectAt (form : Form) (items : List Item) (place : Nat) (fault : Fault) : Prop :=
  ∃ field item, (form.fields.zip items)[place]? = some (field, item) ∧ field.Defect item fault

variable {field : Field} {item : Item} {fault fault' : Fault} {form : Form} {items : List Item}
  {place : Nat}

/-- An item has one defect at most. -/
theorem Field.Defect.unique (h : field.Defect item fault) (h' : field.Defect item fault') :
    fault = fault' := by
  cases h with
  | list => cases h'; rfl
  | tooLarge long =>
    cases h' with
    | tooLarge _ => rfl
    | leadingZero fits => omega
  | leadingZero fits =>
    cases h' with
    | tooLarge long => omega
    | leadingZero _ => rfl
  | recipientLength _ _ => cases h'; rfl

theorem Form.DefectAt.unique (h : form.DefectAt items place fault)
    (h' : form.DefectAt items place fault') : fault = fault' := by
  obtain ⟨field, item, hplace, hdefect⟩ := h
  obtain ⟨field', item', hplace', hdefect'⟩ := h'
  cases hplace.symm.trans hplace'
  exact hdefect.unique hdefect'

/-- A defect elsewhere was there before an item was replaced. -/
theorem Form.DefectAt.of_set {other : Nat} {replacement : Item}
    (h : form.DefectAt (items.set other replacement) place fault) (hne : place ≠ other) :
    form.DefectAt items place fault := by
  obtain ⟨field, item, hplace, hdefect⟩ := h
  rw [List.getElem?_zip_eq_some, List.getElem?_set_ne hne.symm, ← List.getElem?_zip_eq_some]
    at hplace
  exact ⟨field, item, hplace, hdefect⟩

/-! ### Fields that are read -/

/-- A number is refused exactly for its defect. -/
theorem word_eq_error_iff {bits : Nat} :
    ofRlp (item.word bits) = .error fault ↔ (Field.number (bits / 8)).Defect item fault := by
  cases item with
  | list items =>
    constructor
    · intro h
      cases h
      exact .list
    · rintro ⟨⟩
      rfl
  | str s =>
    rw [Item.word, Item.bytes, ok_bind]
    by_cases hlong : bits / 8 < s.length
    · rw [if_pos hlong]
      constructor
      · intro h
        cases h
        exact .tooLarge hlong
      · intro h
        rw [h.unique (.tooLarge hlong)]
        rfl
    · rw [if_neg hlong]
      by_cases hzero : s.head? = some 0
      · obtain ⟨rest, rfl⟩ := List.head?_eq_some_iff.mp hzero
        have hdefect := Field.Defect.leadingZero (Nat.not_lt.mp hlong)
        rw [if_pos hzero]
        constructor
        · intro h
          cases h
          exact hdefect
        · intro h
          rw [h.unique hdefect]
          rfl
      · rw [if_neg hzero]
        constructor
        · intro h
          cases h
        · intro h
          cases h with
          | tooLarge long => exact absurd long hlong
          | leadingZero _ => exact absurd rfl hzero

/-- A recipient is refused exactly for its defect. -/
theorem recipientOf_eq_error_iff :
    recipientOf item = .error fault ↔ Field.recipient.Defect item fault := by
  cases item with
  | list items =>
    constructor
    · intro h
      cases h
      exact .list
    · rintro ⟨⟩
      rfl
  | str s =>
    rw [recipientOf, Item.bytes, ofRlp, ok_bind]
    by_cases hempty : s.isEmpty = true
    · have hlen : s.length = 0 := List.length_eq_zero_iff.mpr (List.isEmpty_iff.mp hempty)
      rw [if_pos hempty]
      constructor
      · intro h
        cases h
      · intro h
        cases h with
        | recipientLength present _ => exact absurd hlen present
    · have hpresent : s.length ≠ 0 := fun h =>
        hempty (List.isEmpty_iff.mpr (List.length_eq_zero_iff.mp h))
      rw [if_neg hempty, Fixed.ofBytes]
      by_cases hlen : s.length = FixedKind.address.width
      · rw [dif_pos hlen]
        constructor
        · intro h
          cases h
        · intro h
          cases h with
          | recipientLength _ other => exact absurd hlen other
      · rw [dif_neg hlen]
        constructor
        · intro h
          cases h
          exact .recipientLength hpresent hlen
        · intro h
          rw [h.unique (.recipientLength hpresent hlen)]

theorem bytes_eq_error_iff :
    ofRlp item.bytes = .error fault ↔ Field.data.Defect item fault := by
  cases item with
  | list items =>
    constructor
    · intro h
      cases h
      exact .list
    · rintro ⟨⟩
      rfl
  | str s =>
    constructor
    · intro h
      cases h
    · rintro ⟨⟩

/-! ### Transactions that are read -/

variable {nonce gasPrice gasLimit recipient value callData chainId : Item} {size : Nat}
  {id : Option (Word 64)} {tx : Transaction}

/-- The six fields that every transaction has are refused for a defect that one of them has. -/
theorem exists_defectAt_of_ofItems
    (h : ofItems size id nonce gasPrice gasLimit recipient value callData = .error fault) :
    ∃ place, Form.plain.DefectAt [nonce, gasPrice, gasLimit, recipient, value, callData] place
      fault := by
  unfold ofItems at h
  simp only [bind_eq_error_iff, recipientOf_eq_error_iff, word_eq_error_iff, bytes_eq_error_iff,
    pure_eq_ok, reduceCtorEq, and_false, exists_false, or_false] at h
  rcases h with h | ⟨_, _, h | ⟨_, _, h | ⟨_, _, h | ⟨_, _, h | ⟨_, _, h⟩⟩⟩⟩⟩
  · exact ⟨3, .recipient, recipient, rfl, h⟩
  · exact ⟨0, .number 8, nonce, rfl, h⟩
  · exact ⟨1, .number 32, gasPrice, rfl, h⟩
  · exact ⟨2, .number 32, gasLimit, rfl, h⟩
  · exact ⟨4, .number 32, value, rfl, h⟩
  · exact ⟨5, .data, callData, rfl, h⟩

/-- If one of the six fields has a defect, they are no transaction. -/
theorem ofItems_ne_ok_of_defectAt
    (h : Form.plain.DefectAt [nonce, gasPrice, gasLimit, recipient, value, callData] place fault) :
    ofItems size id nonce gasPrice gasLimit recipient value callData ≠ .ok tx := by
  intro hread
  unfold ofItems at hread
  simp only [bind_eq_ok_iff] at hread
  obtain ⟨_, hrecipient, _, hnonce, _, hgasPrice, _, hgasLimit, _, hvalue, _, hcallData, -⟩ := hread
  obtain ⟨field, item, hplace, hdefect⟩ := h
  match place, hplace with
  | 0, hplace => cases hplace; cases (word_eq_error_iff.mpr hdefect).symm.trans hnonce
  | 1, hplace => cases hplace; cases (word_eq_error_iff.mpr hdefect).symm.trans hgasPrice
  | 2, hplace => cases hplace; cases (word_eq_error_iff.mpr hdefect).symm.trans hgasLimit
  | 3, hplace => cases hplace; cases (recipientOf_eq_error_iff.mpr hdefect).symm.trans hrecipient
  | 4, hplace => cases hplace; cases (word_eq_error_iff.mpr hdefect).symm.trans hvalue
  | 5, hplace => cases hplace; cases (bytes_eq_error_iff.mpr hdefect).symm.trans hcallData
  | _ + 6, hplace => cases hplace

theorem getElem?_zip_onChain (hlt : place < 6) :
    (Form.onChain.fields.zip [nonce, gasPrice, gasLimit, recipient, value, callData,
        chainId])[place]? =
      (Form.plain.fields.zip [nonce, gasPrice, gasLimit, recipient, value, callData])[place]? := by
  have hfront : place <
      (coreFields.zip [nonce, gasPrice, gasLimit, recipient, value, callData]).length := hlt
  exact List.getElem?_append_left hfront

/-- A chain id behind the six fields adds one place. -/
theorem defectAt_onChain_iff :
    Form.onChain.DefectAt [nonce, gasPrice, gasLimit, recipient, value, callData, chainId] place
        fault ↔
      Form.plain.DefectAt [nonce, gasPrice, gasLimit, recipient, value, callData] place fault ∨
        place = 6 ∧ (Field.number 8).Defect chainId fault := by
  constructor
  · rintro ⟨field, item, hplace, hdefect⟩
    by_cases hlt : place < 6
    · exact .inl ⟨field, item, (getElem?_zip_onChain hlt).symm.trans hplace, hdefect⟩
    · match place, hlt, hplace with
      | 6, _, hplace => cases hplace; exact .inr ⟨rfl, hdefect⟩
      | _ + 7, _, hplace => cases hplace
  · rintro (⟨field, item, hplace, hdefect⟩ | ⟨rfl, hdefect⟩)
    · have hlt : place < 6 := (List.getElem?_eq_some_iff.mp hplace).1
      exact ⟨field, item, (getElem?_zip_onChain hlt).trans hplace, hdefect⟩
    · exact ⟨.number 8, chainId, rfl, hdefect⟩

/-- Without a chain id the six fields are all that is read. -/
theorem decode_plain
    (hlen : (Item.list ([nonce, gasPrice, gasLimit, recipient, value, callData] ++
      Form.plain.unsigned)).encode.length < Word.bound 64)
    (hdepth : (Item.list ([nonce, gasPrice, gasLimit, recipient, value, callData] ++
      Form.plain.unsigned)).depth ≤ maxDepth) :
    ∃ size, decode (Item.list ([nonce, gasPrice, gasLimit, recipient, value, callData] ++
        Form.plain.unsigned)).encode =
      ofItems size none nonce gasPrice gasLimit recipient value callData := by
  rw [decode, Rlp.decode_eq_ok_iff.mpr ⟨rfl, rfl, hlen, hdepth⟩]
  exact ⟨_, rfl⟩

/-- Without a signature the chain id is all that is read of the last three items, and it is read
first. -/
theorem decode_onChain
    (hlen : (Item.list ([nonce, gasPrice, gasLimit, recipient, value, callData, chainId] ++
      Form.onChain.unsigned)).encode.length < Word.bound 64)
    (hdepth : (Item.list ([nonce, gasPrice, gasLimit, recipient, value, callData, chainId] ++
      Form.onChain.unsigned)).depth ≤ maxDepth) :
    ∃ size, decode (Item.list ([nonce, gasPrice, gasLimit, recipient, value, callData, chainId] ++
        Form.onChain.unsigned)).encode =
      (do
        let id ← ofRlp (chainId.word 64)
        ofItems size (some id) nonce gasPrice gasLimit recipient value callData) :=
  ⟨_, decode_nine rfl hlen hdepth⟩

/-- A list of any other number of items is refused for their number. -/
theorem decode_itemCount (hlen : (Item.list items).encode.length < Word.bound 64)
    (hdepth : (Item.list items).depth ≤ maxDepth) (hsix : items.length ≠ 6)
    (hnine : items.length ≠ 9) :
    decode (Item.list items).encode = .error (.itemCount items.length) := by
  rw [decode, Rlp.decode_eq_ok_iff.mpr ⟨rfl, rfl, hlen, hdepth⟩, ofRlp, ok_bind]
  simp only
  rw [Item.items, ofRlp, ok_bind]
  split
  · exact absurd rfl hsix
  · exact absurd rfl hnine
  · rfl

/-- A string is no transaction. -/
theorem decode_str {s : Bytes} (hlen : (Item.str s).encode.length < Word.bound 64) :
    decode (Item.str s).encode = .error (.rlp .expectedList) := by
  have hdepth : (Item.str s).depth ≤ maxDepth := by
    rw [depth_str]
    exact Nat.zero_le maxDepth
  rw [decode, Rlp.decode_eq_ok_iff.mpr ⟨rfl, rfl, hlen, hdepth⟩]
  rfl

section Fields

variable (hcount : items.length = form.fields.length)
  (hlen : (Item.list (items ++ form.unsigned)).encode.length < Word.bound 64)
  (hdepth : (Item.list (items ++ form.unsigned)).depth ≤ maxDepth)

include hcount hlen hdepth

/-- A refusal tells of a defect that is there. -/
theorem exists_defectAt_of_decode
    (h : decode (Item.list (items ++ form.unsigned)).encode = .error fault) :
    ∃ place, form.DefectAt items place fault := by
  match form, items, hcount with
  | .plain, [nonce, gasPrice, gasLimit, recipient, value, callData], _ =>
    obtain ⟨_, hread⟩ := decode_plain hlen hdepth
    exact exists_defectAt_of_ofItems (hread.symm.trans h)
  | .onChain, [nonce, gasPrice, gasLimit, recipient, value, callData, chainId], _ =>
    obtain ⟨_, hread⟩ := decode_onChain hlen hdepth
    rw [hread, bind_eq_error_iff, word_eq_error_iff] at h
    rcases h with h | ⟨_, _, h⟩
    · exact ⟨6, defectAt_onChain_iff.mpr (.inr ⟨rfl, h⟩)⟩
    · obtain ⟨place, hplace⟩ := exists_defectAt_of_ofItems h
      exact ⟨place, defectAt_onChain_iff.mpr (.inl hplace)⟩

/-- With a defect anywhere the transaction is refused. -/
theorem decode_ne_ok_of_defectAt (h : form.DefectAt items place fault) :
    decode (Item.list (items ++ form.unsigned)).encode ≠ .ok tx := by
  match form, items, hcount with
  | .plain, [nonce, gasPrice, gasLimit, recipient, value, callData], _ =>
    obtain ⟨_, hread⟩ := decode_plain hlen hdepth
    rw [hread]
    exact ofItems_ne_ok_of_defectAt h
  | .onChain, [nonce, gasPrice, gasLimit, recipient, value, callData, chainId], _ =>
    obtain ⟨_, hread⟩ := decode_onChain hlen hdepth
    rw [hread]
    intro hok
    obtain ⟨_, hchainId, hok⟩ := bind_eq_ok_iff.mp hok
    rcases defectAt_onChain_iff.mp h with hcore | ⟨-, hdefect⟩
    · exact ofItems_ne_ok_of_defectAt hcore hok
    · cases (word_eq_error_iff.mpr hdefect).symm.trans hchainId

/-- A transaction with one defect is refused for it. -/
theorem decode_of_defectAt (h : form.DefectAt items place fault)
    (honly : ∀ other fault', form.DefectAt items other fault' → other = place) :
    decode (Item.list (items ++ form.unsigned)).encode = .error fault := by
  cases hread : decode (Item.list (items ++ form.unsigned)).encode with
  | ok tx => exact absurd hread (decode_ne_ok_of_defectAt hcount hlen hdepth h)
  | error told =>
    obtain ⟨other, hother⟩ := exists_defectAt_of_decode hcount hlen hdepth hread
    obtain rfl := honly other told hother
    rw [hother.unique h]

/-- A transaction is accepted exactly if it has no defect. -/
theorem exists_decode_iff :
    (∃ tx, decode (Item.list (items ++ form.unsigned)).encode = .ok tx) ↔
      ∀ place fault, ¬ form.DefectAt items place fault := by
  constructor
  · rintro ⟨tx, hread⟩ place fault h
    exact decode_ne_ok_of_defectAt hcount hlen hdepth h hread
  · intro hsound
    cases hread : decode (Item.list (items ++ form.unsigned)).encode with
    | ok tx => exact ⟨tx, rfl⟩
    | error fault =>
      obtain ⟨place, h⟩ := exists_defectAt_of_decode hcount hlen hdepth hread
      exact absurd h (hsound place fault)

end Fields

/-- What is no transaction is refused for what is wrong with it: a string for not being a list, a
list for the number of its items, and six fields, or seven with empty places of a signature behind
them, for the one defect that they have. Without a defect they are accepted. -/
theorem decode_defect :
    (∀ s : Bytes, (Item.str s).encode.length < Word.bound 64 →
      decode (Item.str s).encode = .error (.rlp .expectedList)) ∧
    (∀ items : List Item, (Item.list items).encode.length < Word.bound 64 →
      (Item.list items).depth ≤ maxDepth → items.length ≠ 6 → items.length ≠ 9 →
      decode (Item.list items).encode = .error (.itemCount items.length)) ∧
    (∀ (form : Form) (items : List Item), items.length = form.fields.length →
      (Item.list (items ++ form.unsigned)).encode.length < Word.bound 64 →
      (Item.list (items ++ form.unsigned)).depth ≤ maxDepth →
      (∀ place fault, form.DefectAt items place fault →
        (∀ other fault', form.DefectAt items other fault' → other = place) →
        decode (Item.list (items ++ form.unsigned)).encode = .error fault) ∧
      ((∃ tx, decode (Item.list (items ++ form.unsigned)).encode = .ok tx) ↔
        ∀ place fault, ¬ form.DefectAt items place fault)) := by
  refine ⟨fun s hlen => decode_str hlen,
    fun items hlen hdepth hsix hnine => decode_itemCount hlen hdepth hsix hnine,
    fun form items hcount hlen hdepth =>
      ⟨fun place fault h honly => ?_, exists_decode_iff hcount hlen hdepth⟩⟩
  exact decode_of_defectAt hcount hlen hdepth h honly

/-- The fields of a transfer of 123456 on chain 5. -/
def sampleFields : List Item := sample.toItems.take 7

/-- A value may be too long even if it starts with a zero. -/
theorem decode_defect_samples :
    decode (Item.str [5]).encode = .error (.rlp .expectedList) ∧
    decode (Item.list [.str [], .str [], .list []]).encode = .error (.itemCount 3) ∧
    (∃ tx, decode (Item.list (sampleFields ++ Form.onChain.unsigned)).encode = .ok tx) ∧
    decode (Item.list (sampleFields.set 4 (.str (List.replicate 33 0)) ++
      Form.onChain.unsigned)).encode = .error (.rlp (.integerTooLarge 33 32)) := by
  obtain ⟨hstr, hcount, hfields⟩ := decode_defect
  have hread : ∃ tx, decode (Item.list (sampleFields ++ Form.onChain.unsigned)).encode = .ok tx :=
    ⟨sample, decode_eq_ok_iff.mpr ⟨rfl, by decide +kernel, by decide +kernel⟩⟩
  have hsound := (hfields .onChain sampleFields rfl (by decide +kernel) (by decide +kernel)).2.mp
    hread
  have hdefect : Form.onChain.DefectAt (sampleFields.set 4 (.str (List.replicate 33 0))) 4
      (.rlp (.integerTooLarge 33 32)) := ⟨_, _, rfl, .tooLarge (by decide)⟩
  refine ⟨hstr [5] (by decide +kernel),
    hcount [.str [], .str [], .list []] (by decide +kernel) (by decide +kernel) (by decide)
      (by decide), hread,
    (hfields .onChain _ rfl (by decide +kernel) (by decide +kernel)).1 4 _ hdefect
      fun other fault' hother => ?_⟩
  -- all other fields are those of a transaction that is accepted
  by_contra hne
  exact hsound other fault' (hother.of_set hne)

end Transaction
end RelayLedger
