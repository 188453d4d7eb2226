/-
# A library over a scripted client

A library passes on what it is asked and adds nothing: each request is one call to the client, with
the configured name of the contract and the text of the message, and what the client says is the
answer. Over a scripted client this can be followed through any mixture of requests. The two queues
do not disturb each other, so the answer to a request depends only on how many of its kind came
before it, and no failure keeps a call from being written down or an answer from being used up.

Key definitions: `Library.Request`, `Library.serveAll`, `Library.Request.call`, `Library.after`,
`Library.PassedOn`.
Key theorems: `Library.serve_eq`, `Library.serveAll_snd`, `Library.requests_passed_on`.
-/
import RelayLedger.Client.Scripted
import RelayLedger.Proofs.Outcome

namespace RelayLedger

/-! ### The texts of messages -/

/-- What a counter is asked for its count with. -/
theorem Counter.encode_count :
    Json.encode Counter.Query.count = utf8 "\x7b\"get_count\":\x7b\x7d\x7d" := by decide +kernel

/-- What a ledger is sent to relay a transaction. -/
theorem Ledger.encode_relay (caller : Address) (tx : Bytes) :
    Json.encode (Ledger.Command.relay caller tx) =
      utf8 "\x7b\"call_from_raw_ethereum_tx\":\x7b\"caller_evm_address\":" ++ Json.encode caller ++
        utf8 ",\"unsigned_tx\":" ++ Json.encode tx ++ utf8 "\x7d\x7d" := by
  have hopen : utf8 "\x7b\"call_from_raw_ethereum_tx\":\x7b\"caller_evm_address\":" =
      Json.openBrace :: Json.escape "call_from_raw_ethereum_tx" ++
        Json.colon :: Json.openBrace :: Json.escape "caller_evm_address" ++ [Json.colon] := by
    decide +kernel
  have hnext : utf8 ",\"unsigned_tx\":" =
      Json.comma :: Json.escape "unsigned_tx" ++ [Json.colon] := by decide +kernel
  have hclose : utf8 "\x7d\x7d" = [Json.closeBrace, Json.closeBrace] := by decide +kernel
  have hobject : Json.encode (Ledger.Command.relay caller tx) =
      Json.Format.writeObject [("call_from_raw_ethereum_tx", Json.Format.writeObject
        [("caller_evm_address", Json.encode caller), ("unsigned_tx", Json.encode tx)])] := rfl
  rw [hobject, hopen, hnext, hclose]
  simp [Json.Format.writeObject, Json.Format.writeEntry, Json.Format.commaSeparated]

/-! ### Scripted answers -/

namespace Client.Scripted

/-- What a query is told by an answer of the queue, or by there being none: a text is read, and a
failure is passed on. -/
def told (α : Type) [Json.Wire α] : Option (Except Fault Bytes) → Except Fault α
  | none => .error .noAnswer
  | some (.error fault) => .error fault
  | some (.ok text) => Json.decodeAs α text

theorem query_eq (α : Type) [Json.Wire α] (contract : String) (message : Bytes)
    (client : Scripted) :
    Client.query α contract message client =
      (told α client.queryAnswers.head?,
        { client with
          queryAnswers := client.queryAnswers.tail
          calls := client.calls ++ [.query contract message] }) := by
  obtain ⟨_ | ⟨_ | _, _⟩, _, _⟩ := client <;> rfl

theorem execute_eq (signer : Wallet) (contract : String) (message : Bytes) (client : Scripted) :
    Client.execute signer contract message client =
      (client.executeAnswers.head?.getD (.ok []),
        { client with
          executeAnswers := client.executeAnswers.tail
          calls := client.calls ++ [.execute signer contract message] }) := by
  obtain ⟨_, _ | ⟨_, _⟩, _⟩ := client <;> rfl

end Client.Scripted

namespace Library

open Client

/-! ### Requests -/

/-- What an application asks of its library. -/
inductive Request
  | count
  | relay (caller : Address) (tx : Bytes) (signer : Option Wallet)

/-- What a request is answered. -/
inductive Answer (ε ρ : Type)
  | count (reading : Except ε Counter.Reading)
  | relay (reply : Except ε ρ)

namespace Request

/-- Whether the count is asked for. -/
def isCount : Request → Bool
  | .count => true
  | .relay .. => false

/-- Whether a transaction is to be relayed. -/
def isRelay : Request → Bool
  | .count => false
  | .relay .. => true

/-- The call that a request is to the client: a transaction without a signer is the validator's. -/
def call (wallets : Wallets) (names : ContractNames) : Request → Call
  | .count => .query names.counter (utf8 "\x7b\"get_count\":\x7b\x7d\x7d")
  | .relay caller tx signer =>
    .execute (signer.getD wallets.validator) names.ledger
      (utf8 "\x7b\"call_from_raw_ethereum_tx\":\x7b\"caller_evm_address\":" ++
        Json.encode caller ++ utf8 ",\"unsigned_tx\":" ++ Json.encode tx ++ utf8 "\x7d\x7d")

end Request

section Serve

variable {σ ε ρ : Type} [Client σ ε ρ]

/-- Does what a request asks for. -/
def serve : Request → StateM (Library σ) (Answer ε ρ)
  | .count => Answer.count <$> count
  | .relay caller tx signer => Answer.relay <$> relay caller tx signer

theorem serve_count (lib : Library σ) :
    serve .count lib =
      (.count (Client.query Counter.Reading lib.names.counter (Json.encode Counter.Query.count)
          lib.client).1,
        { lib with
          client := (Client.query Counter.Reading lib.names.counter
            (Json.encode Counter.Query.count) lib.client).2 }) := rfl

theorem serve_relay (caller : Address) (tx : Bytes) (signer : Option Wallet) (lib : Library σ) :
    serve (.relay caller tx signer) lib =
      (.relay (Client.execute (signer.getD lib.wallets.validator) lib.names.ledger
          (Json.encode (Ledger.Command.relay caller tx)) lib.client).1,
        { lib with
          client := (Client.execute (signer.getD lib.wallets.validator) lib.names.ledger
            (Json.encode (Ledger.Command.relay caller tx)) lib.client).2 }) := rfl

/-- Does what requests ask for, one after the other. -/
def serveAll (requests : List Request) : StateM (Library σ) (List (Answer ε ρ)) :=
  requests.mapM serve

theorem serveAll_cons (request : Request) (later : List Request) (lib : Library σ) :
    serveAll (request :: later) lib =
      ((serve request lib).1 :: (serveAll later (serve request lib).2).1,
        (serveAll later (serve request lib).2).2) := by
  rw [serveAll, List.mapM_cons]
  rfl

theorem serveAll_append (earlier later : List Request) (lib : Library σ) :
    serveAll (earlier ++ later) lib =
      ((serveAll earlier lib).1 ++ (serveAll later (serveAll earlier lib).2).1,
        (serveAll later (serveAll earlier lib).2).2) := by
  rw [serveAll, List.mapM_append]
  rfl

theorem length_serveAll : ∀ (requests : List Request) (lib : Library σ),
    (serveAll requests lib).1.length = requests.length
  | [], _ => rfl
  | request :: later, lib => by
    rw [serveAll_cons, List.length_cons, List.length_cons, length_serveAll later]

/-- The answer to a request in a sequence, by what the requests before it left. -/
theorem getElem?_serveAll (earlier later : List Request) (request : Request) (lib : Library σ) :
    (serveAll (earlier ++ request :: later) lib).1[earlier.length]? =
      some (serve request (serveAll earlier lib).2).1 := by
  rw [serveAll_append, serveAll_cons, ← length_serveAll earlier lib,
    List.getElem?_append_right (Nat.le_refl _), Nat.sub_self, List.getElem?_cons_zero]

end Serve

/-! ### One request -/

/-- A library after requests: of each queue as many answers are gone as there were requests of its
kind, and the calls are written down in order. -/
def after (requests : List Request) (lib : Library Scripted) : Library Scripted :=
  { lib with
    client :=
      { queryAnswers := lib.client.queryAnswers.drop (requests.countP Request.isCount)
        executeAnswers := lib.client.executeAnswers.drop (requests.countP Request.isRelay)
        calls := lib.client.calls ++ requests.map (Request.call lib.wallets lib.names) } }

/-- What a scripted client has the library answer next. -/
def nextAnswer (client : Scripted) : Request → Answer Fault Bytes
  | .count => .count (Scripted.told Counter.Reading client.queryAnswers.head?)
  | .relay .. => .relay (client.executeAnswers.head?.getD (.ok []))

/-- A request takes the answer of its own queue and leaves the other queue alone. -/
theorem serve_eq (request : Request) (lib : Library Scripted) :
    serve request lib = (nextAnswer lib.client request, after [request] lib) := by
  cases request with
  | count =>
    rw [serve_count, Scripted.query_eq, Counter.encode_count, ← List.drop_one]
    rfl
  | relay caller tx signer =>
    rw [serve_relay, Scripted.execute_eq, Ledger.encode_relay, ← List.drop_one]
    rfl

/-! ### Sequences of requests -/

theorem after_nil (lib : Library Scripted) : after [] lib = lib := by
  simp only [after, List.countP_nil, List.drop_zero, List.map_nil, List.append_nil]

theorem after_append (earlier later : List Request) (lib : Library Scripted) :
    after later (after earlier lib) = after (earlier ++ later) lib := by
  simp only [after, List.drop_drop, List.countP_append, List.map_append, List.append_assoc]

theorem serveAll_snd (requests : List Request) (lib : Library Scripted) :
    (serveAll requests lib).2 = after requests lib := by
  induction requests generalizing lib with
  | nil => exact (after_nil lib).symm
  | cons request later ih =>
    rw [serveAll_cons, ih, serve_eq, after_append]
    rfl

/-- The answer to a request in a sequence, by how many of its kind came before it. -/
theorem nextAnswer_after (earlier : List Request) (request : Request) (lib : Library Scripted) :
    nextAnswer (after earlier lib).client request =
      match request with
      | .count => .count (Scripted.told Counter.Reading
          lib.client.queryAnswers[earlier.countP Request.isCount]?)
      | .relay .. => .relay
          (lib.client.executeAnswers[earlier.countP Request.isRelay]?.getD (.ok [])) := by
  cases request <;> simp only [nextAnswer, after, List.head?_drop]

/-- What becomes of requests to a library over a scripted client. -/
structure PassedOn (lib : Library Scripted) (requests : List Request) : Prop where
  /-- Each request is one call, in order, whatever is answered. -/
  calls : (serveAll requests lib).2.client.calls =
    lib.client.calls ++ requests.map (Request.call lib.wallets lib.names)
  answers : (serveAll requests lib).1.length = requests.length
  /-- Each question for the count gets the answer of the queue that is its turn. -/
  counted : ∀ earlier later, requests = earlier ++ .count :: later →
    (serveAll requests lib).1[earlier.length]? =
      some (.count (Scripted.told Counter.Reading
        lib.client.queryAnswers[earlier.countP Request.isCount]?))
  /-- Without an answer in the queue the count is not known. -/
  unanswered : ∀ earlier later, requests = earlier ++ .count :: later →
    lib.client.queryAnswers.length ≤ earlier.countP Request.isCount →
    ∃ fault, (serveAll requests lib).1[earlier.length]? = some (.count (.error fault)) ∧
      fault.message = "Generic error: No mock query response queued"
  /-- Each transaction gets the answer of the queue that is its turn, and the empty one when the
  queue has run out. -/
  relayed : ∀ earlier caller tx signer later,
    requests = earlier ++ .relay caller tx signer :: later →
    (serveAll requests lib).1[earlier.length]? =
      some (.relay (lib.client.executeAnswers[earlier.countP Request.isRelay]?.getD (.ok [])))
  /-- Answers are used up one by one, readable or not, and only by requests of their kind. -/
  queryAnswers : (serveAll requests lib).2.client.queryAnswers =
    lib.client.queryAnswers.drop (requests.countP Request.isCount)
  executeAnswers : (serveAll requests lib).2.client.executeAnswers =
    lib.client.executeAnswers.drop (requests.countP Request.isRelay)
  wallets : (serveAll requests lib).2.wallets = lib.wallets
  references : (serveAll requests lib).2.references = lib.references
  names : (serveAll requests lib).2.names = lib.names

/-- A library over a scripted client passes on what it is asked, in any order. -/
theorem requests_passed_on (lib : Library Scripted) (requests : List Request) :
    PassedOn lib requests := by
  have hcounted : ∀ earlier later, requests = earlier ++ .count :: later →
      (serveAll requests lib).1[earlier.length]? =
        some (.count (Scripted.told Counter.Reading
          lib.client.queryAnswers[earlier.countP Request.isCount]?)) := by
    rintro earlier later rfl
    rw [getElem?_serveAll, serve_eq, serveAll_snd, nextAnswer_after]
  have hleft := serveAll_snd requests lib
  exact {
    calls := hleft ▸ rfl
    answers := length_serveAll requests lib
    counted := hcounted
    unanswered := by
      intro earlier later h hnone
      refine ⟨.noAnswer, ?_, rfl⟩
      rw [hcounted earlier later h, List.getElem?_eq_none hnone, Scripted.told]
    relayed := by
      rintro earlier caller tx signer later rfl
      rw [getElem?_serveAll, serve_eq, serveAll_snd, nextAnswer_after]
    queryAnswers := hleft ▸ rfl
    executeAnswers := hleft ▸ rfl
    wallets := hleft ▸ rfl
    references := hleft ▸ rfl
    names := hleft ▸ rfl }

end Library
end RelayLedger
