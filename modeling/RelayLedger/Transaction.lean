/-
# Unsigned transactions

A transaction arrives as a list of six items, or of nine when it names the chain it is meant for:
the chain id and two empty places where a signature would stand. `Transaction.decode` reads one and
`Transaction.encode` writes it.

Key definitions: `Transaction`, `Transaction.decode`, `Transaction.encode`, `Transaction.Fault`.
-/
import RelayLedger.Fixed
import RelayLedger.Rlp.Decode

namespace RelayLedger

/-- A transaction that nobody has signed. -/
structure Transaction where
  nonce : Word 64
  gasPrice : Word 256
  gasLimit : Word 256
  /-- Without a recipient the transaction asks for a contract to be created. -/
  recipient : Option Address
  value : Word 256
  callData : Bytes
  chainId : Option (Word 64)
  /-- The number of bytes of its encoding. -/
  encodedLength : Nat
  deriving DecidableEq

namespace Transaction

open Rlp

/-- Why bytes are no transaction. -/
inductive Fault
  | rlp (fault : Rlp.Fault)
  | itemCount (count : Nat)
  | recipientLength (length : Nat)
  /-- The places of the signature are not empty. -/
  | signed
  deriving DecidableEq

/-- The wording of a refusal. -/
def Fault.message : Fault → String
  | .rlp fault => fault.message
  | .itemCount count => s!"RLP list has {count} items, expected 6 or 9"
  | .recipientLength length => s!"RLP address must be empty or 20 bytes, got {length}"
  | .signed => "Unsigned EIP-155 transaction must carry empty r and s"

/-- Carries a fault of the format over. -/
def ofRlp {α : Type} : Except Rlp.Fault α → Except Fault α
  | .ok a => .ok a
  | .error fault => .error (.rlp fault)

/-- The recipient that an item names: none if it is empty. -/
def recipientOf (item : Item) : Except Fault (Option Address) := do
  let s ← ofRlp item.bytes
  if s.isEmpty then return none
  else
    match Fixed.ofBytes .address s with
    | .ok a => return some a
    | .error _ => .error (.recipientLength s.length)

/-- The chain id of the three items that follow the call data, the last two of which must be
zero. -/
def chainIdOf (chainId r s : Item) : Except Fault (Word 64) := do
  let r ← ofRlp (r.word 64)
  if r ≠ 0 then .error .signed
  else
    let s ← ofRlp (s.word 64)
    if s ≠ 0 then .error .signed else ofRlp (chainId.word 64)

/-- The transaction of its first six items, the chain id being read already. -/
def ofItems (size : Nat) (chainId : Option (Word 64))
    (nonce gasPrice gasLimit recipient value callData : Item) : Except Fault Transaction := do
  let recipient ← recipientOf recipient
  return {
    nonce := ← ofRlp (nonce.word 64)
    gasPrice := ← ofRlp (gasPrice.word 256)
    gasLimit := ← ofRlp (gasLimit.word 256)
    recipient
    value := ← ofRlp (value.word 256)
    callData := ← ofRlp callData.bytes
    chainId
    encodedLength := size }

/-- Reads a transaction. Signature and chain id are looked at first, then the recipient, then the
other items in order. -/
def decode (input : Bytes) : Except Fault Transaction := do
  let (item, size) ← ofRlp (Rlp.decode input)
  match ← ofRlp item.items with
  | [nonce, gasPrice, gasLimit, recipient, value, callData] =>
    ofItems size none nonce gasPrice gasLimit recipient value callData
  | [nonce, gasPrice, gasLimit, recipient, value, callData, chainId, r, s] =>
    let chainId ← chainIdOf chainId r s
    ofItems size (some chainId) nonce gasPrice gasLimit recipient value callData
  | items => .error (.itemCount items.length)

/-- The item of a recipient. -/
def recipientItem : Option Address → Item
  | none => .str []
  | some a => .str a.bytes

/-- The items of a transaction. -/
def toItems (tx : Transaction) : List Item :=
  let core := [.ofWord tx.nonce, .ofWord tx.gasPrice, .ofWord tx.gasLimit,
    recipientItem tx.recipient, .ofWord tx.value, .str tx.callData]
  match tx.chainId with
  | none => core
  | some chainId => core ++ [.ofWord chainId, .str [], .str []]

/-- Writes a transaction. -/
def encode (tx : Transaction) : Bytes := (Item.list tx.toItems).encode

end Transaction
end RelayLedger
