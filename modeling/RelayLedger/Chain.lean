/-
# A chain with both contracts

A chain on which a counter and a ledger are set up: the administrator owns the counter, the
validator the ledger. Here a message that fails changes nothing at all, and one that goes through
leaves a `Receipt`. The chain is a client, so a library and a deployer can work on it.

Key definitions: `Chain`, `Chain.setUp`, `Chain.execute`, `Chain.query`, `Chain.migrate`,
`Receipt`.
-/
import RelayLedger.Counter.Contract
import RelayLedger.Deployment
import RelayLedger.Ledger.Run

namespace RelayLedger

/-! ### Receipts -/

/-- What the chain reports of a message that went through. -/
structure Receipt where
  events : List Event
  data : Option Bytes
  deriving DecidableEq

namespace Receipt

/-- A number in groups of seven bits, lowest first, all but the last group marked; `fuel` bounds
the groups. -/
def varint : Nat → Nat → Bytes
  | 0, _ => []
  | fuel + 1, n =>
    if n < 128 then [UInt8.ofNat n]
    else UInt8.ofNat (n % 128 + 128) :: varint fuel (n / 128)

/-- The data of a message as its first field: tag, length, bytes. -/
def wrap (data : Bytes) : Bytes := 0x0a :: varint 10 data.length ++ data

/-- The receipt of a contract's response; `head` says what kind of message it answers. -/
def ofResponse (head : Event) (r : Response) : Receipt where
  events :=
    head :: (if r.attributes = [] then [] else [⟨"wasm", r.attributes⟩]) ++
      r.events.map fun e => { e with kind := "wasm-" ++ e.kind }
  data := r.data.map wrap

end Receipt

/-! ### The chain -/

/-- The stores of the two contracts, and the wallets that are known. -/
structure Chain where
  counter : Store
  ledger : Store
  wallets : Wallets

/-- One of the contracts of the chain. -/
inductive Hosted
  | counter
  | ledger
  deriving DecidableEq

/-- Why the chain does not do what it is asked. -/
inductive Chain.Failure
  | fault (fault : Fault)
  | counter (refusal : Counter.Refusal)
  | ledger (refusal : Ledger.Refusal)
  /-- A contract could not answer a query. -/
  | query (fault : Fault)
  deriving DecidableEq

/-- The wording of a failure. -/
def Chain.Failure.message : Chain.Failure → String
  | .fault f => f.message
  | .counter refusal => refusal.message
  | .ledger refusal => refusal.message
  | .query f => Json.general ("Querier contract error: " ++ f.message)

namespace Chain

/-- Who looks after the contracts. -/
def administrator : ChainAddress := ChainAddress.ofName "admin"

/-- The contract of a name. -/
def hosted (name : String) : Except Failure Hosted :=
  if name = "counter" then .ok .counter
  else if name = "terranova" then .ok .ledger
  else .error (.fault (.noReference name))

/-- The chain as it starts: a counter at zero, a ledger without operators, and two wallets. -/
def setUp : Chain :=
  let validator := ChainAddress.ofName "validator"
  { counter := ((Counter.instantiate ⟨administrator, []⟩ ⟨⟨0, by decide, by decide⟩⟩).run ∅).2
    ledger := ((Ledger.instantiate ⟨validator, []⟩ ⟨[], none, none⟩).run ∅).2
    wallets := Wallets.insert { validator := ⟨"validator", validator⟩ }
      ⟨"alice", ChainAddress.ofName "alice"⟩ }

/-- The response of a contract to a message that is JSON text. -/
def respond (contract : Hosted) (envelope : Envelope) (message : Bytes) :
    StateM Chain (Except Failure Response) := fun chain =>
  match contract with
  | .counter =>
    match Json.decodeAs Counter.Command message with
    | .error fault => (.error (.fault fault), chain)
    | .ok command =>
      let (result, store) := (Counter.execute envelope command).commit chain.counter
      (result.mapError .counter, { chain with counter := store })
  | .ledger =>
    match Json.decodeAs Ledger.Command message with
    | .error fault => (.error (.fault fault), chain)
    | .ok command =>
      let (result, store) := Ledger.deliver (.command envelope command) chain.ledger
      (result.mapError .ledger, { chain with ledger := store })

/-- Sends a signed message to the contract of a name. -/
def execute (signer : Wallet) (contract : String) (message : Bytes) :
    StateM Chain (Except Failure Receipt) := do
  match hosted contract with
  | .error failure => return .error failure
  | .ok contract =>
    let result ← respond contract ⟨signer.address, []⟩ message
    return result.map (Receipt.ofResponse ⟨"execute", []⟩)

/-- The answer of a contract to a query that is JSON text. -/
def answer (contract : Hosted) (message : Bytes) (chain : Chain) : Except Fault Bytes :=
  match contract with
  | .counter => do Counter.answer (← Json.decodeAs Counter.Query message) chain.counter
  | .ledger => do Ledger.answer (← Json.decodeAs Ledger.Query message) chain.ledger

/-- The JSON text of the answer of the contract of a name. -/
def ask (contract : String) (message : Bytes) (chain : Chain) : Except Failure Bytes := do
  let contract ← hosted contract
  (chain.answer contract message).mapError .query

/-- Asks the contract of a name and reads its answer. -/
def query (α : Type) [Json.Wire α] (contract : String) (message : Bytes) :
    StateM Chain (Except Failure α) := fun chain =>
  (do (Json.decodeAs α (← chain.ask contract message)).mapError .fault, chain)

instance : Client Chain Failure Receipt where
  query α _ := query α
  execute := execute

/-- Replaces the contract of the ledger by itself and changes its settings. -/
def migrate (change : Ledger.Change) : StateM Chain (Except Failure Receipt) := fun chain =>
  let (result, store) := Ledger.deliver (.change change) chain.ledger
  ((result.map (Receipt.ofResponse ⟨"migrate", [("code_id", "2")]⟩)).mapError .ledger,
    { chain with ledger := store })

/-- Sets the balance of an account, signed by the validator. -/
def airdrop (address : Address) (amount : Word 256) : StateM Chain (Except Failure Receipt) := do
  execute (← get).wallets.validator "terranova"
    (Json.encode (Ledger.Command.airdrop address amount))

/-- Raises the counter, signed by the validator. -/
def increment : StateM Chain (Except Failure Receipt) := do
  execute (← get).wallets.validator "counter" (Json.encode Counter.Command.increment)

/-- What the ledger tells of an account. -/
def account (address : Address) : StateM Chain (Except Failure Ledger.AccountSummary) :=
  query _ "terranova" (Json.encode (Ledger.Query.account address))

/-- A library over the chain. -/
def library (chain : Chain) : Library Chain := { wallets := chain.wallets, client := chain }

end Chain
end RelayLedger
