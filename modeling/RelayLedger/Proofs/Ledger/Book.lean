/-
# A ledger kept from its events

Someone who sees nothing of a ledger but its events can keep a `Book` of its accounts and of the
chunk slots in use. `Book.post` is one entry, made from the texts of an event alone: the texts are
read back without loss (`Book.post_toEvent`), so an entry does what the notice behind the event
says. Every message that goes through gives notice of all that it does to accounts and chunks;
hence the book that is kept from the beginning is always that of the ledger (`replay_describes`).

Key definitions: `Ledger.Book`, `Ledger.Book.post`, `Ledger.Book.replay`, `Ledger.Book.Describes`.
Key theorems: `Ledger.Book.post_toEvent`, `Ledger.replay_accepts`, `Ledger.replay_describes`.
-/
import RelayLedger.Proofs.Ledger.Chunked

namespace RelayLedger

/-! ### The texts of an event -/

namespace Event

/-- The text of an attribute. -/
def text? (e : Event) (name : String) : Option String := e.attributes.lookup name

/-- The identifier that an attribute spells. -/
def fixed? (kind : FixedKind) (e : Event) (name : String) : Option (Fixed kind) :=
  (e.text? name).bind fun text => (Fixed.parse kind text).toOption

/-- The number that an attribute spells. -/
def word? (bits : Nat) (e : Event) (name : String) : Option (Word bits) :=
  (e.text? name).bind fun text => (Numeral.parse bits text).toOption

/-- The truth value that an attribute spells. -/
def flag? (e : Event) (name : String) : Option Bool :=
  (e.text? name).bind fun text =>
    if text = "true" then some true else if text = "false" then some false else none

theorem parse_toString {kind : FixedKind} (a : Fixed kind) :
    (Fixed.parse kind (toString a)).toOption = some a :=
  congrArg Except.toOption (Fixed.parse_toString a)

theorem word_toString {bits : Nat} (w : Word bits) :
    (Numeral.parse bits (toString w)).toOption = some w :=
  congrArg Except.toOption (Numeral.parse_toString w)

theorem flag_toString (b : Bool) : (if toString b = "true" then some true
    else if toString b = "false" then some false else none) = some b := by
  cases b <;> decide

end Event

namespace Ledger

/-! ### Books -/

/-- What a book says of an account. -/
structure Entry where
  balance : Nat
  nonce : Nat
  isContract : Bool

/-- What the events of a ledger tell of its accounts and of the slots that hold chunks. -/
structure Book where
  accounts : Address → Option Entry
  occupied : Address → TxHash → Word 8 → Bool

namespace Book

/-- A book without entries. -/
def empty : Book := ⟨fun _ => none, fun _ _ _ => false⟩

/-- The entry of an account; one that is missing has nothing in it yet. -/
def entry (book : Book) (address : Address) : Entry :=
  (book.accounts address).getD ⟨0, 0, false⟩

/-- The book with a new entry for an account. -/
def put (book : Book) (address : Address) (entry : Entry) : Book :=
  { book with
    accounts := fun other => if other = address then some entry else book.accounts other }

/-- The book with some slots of one transaction marked. -/
def mark (book : Book) (caller : Address) (hash : TxHash) (slots : Word 8 → Bool)
    (occupied : Bool) : Book :=
  { book with
    occupied := fun c h i =>
      if c = caller ∧ h = hash ∧ slots i = true then occupied else book.occupied c h i }

/-- The book after a transaction: what is taken from one account is then added to the other, if it
was there, and the first has the new nonce. Accounts that are missing are entered. -/
def transfer (book : Book) (source target : Address) (value nonce : Nat) : Option Book :=
  if (book.entry source).balance < value then none
  else
    let paid := book.put source
      { book.entry source with balance := (book.entry source).balance - value }
    let received := paid.put target
      { paid.entry target with balance := (paid.entry target).balance + value }
    some (received.put source { received.entry source with nonce := nonce })

/-- The book after an event, made from its texts alone; none if a text cannot be read. -/
def post (book : Book) (e : Event) : Option Book :=
  if e.kind = "_account_created" then do
    let address ← e.fixed? .address "address"
    let isContract ← e.flag? "is_contract"
    return book.put address ⟨0, 0, isContract⟩
  else if e.kind = "_transaction_executed" then do
    let source ← e.fixed? .address "from"
    let target ← e.fixed? .address "to"
    let value ← e.word? 256 "value"
    let nonce ← e.word? 64 "nonce"
    book.transfer source target value.toNat nonce.toNat
  else if e.kind = "_balance_airdropped" then do
    let address ← e.fixed? .address "address"
    let amount ← e.word? 256 "amount"
    return book.put address { book.entry address with balance := amount.toNat }
  else if e.kind = "_tx_chunk_stored" then do
    let caller ← e.fixed? .address "caller"
    let hash ← e.fixed? .txHash "tx_hash"
    let index ← e.word? 8 "chunk_index"
    return book.mark caller hash (fun i => i = index) true
  else if e.kind = "_chunked_transaction_assembled" then do
    let caller ← e.fixed? .address "caller"
    let hash ← e.fixed? .txHash "tx_hash"
    let count ← e.word? 8 "chunk_count"
    return book.mark caller hash (fun i => i.toNat < count.toNat) false
  else some book

/-- The book after a sequence of events. -/
def replay (book : Book) (events : List Event) : Option Book := events.foldlM post book

/-- The book after something that a ledger gave notice of. -/
def enter (book : Book) : Notice → Option Book
  | .accountCreated address isContract => some (book.put address ⟨0, 0, isContract⟩)
  | .transactionExecuted source target value nonce =>
    book.transfer source target value.toNat nonce.toNat
  | .chunkStored caller hash index => some (book.mark caller hash (fun i => i = index) true)
  | .chunksAssembled caller hash count _ =>
    some (book.mark caller hash (fun i => i.toNat < count.toNat) false)
  | .balanceAirdropped address amount =>
    some (book.put address { book.entry address with balance := amount.toNat })
  | .operatorsUpdated _ => some book

/-- Nothing that matters is lost in the texts. -/
theorem post_toEvent (book : Book) (notice : Notice) :
    book.post notice.toEvent = book.enter notice := by
  cases notice <;>
    simp [post, enter, Notice.toEvent, Event.fixed?, Event.word?, Event.flag?, Event.text?,
      Event.parse_toString, Event.flag_toString, Event.word_toString, List.lookup_cons]

/-! ### Entries -/

theorem entry_put (book : Book) (address : Address) (e : Entry) (other : Address) :
    (book.put address e).entry other = if other = address then e else book.entry other := by
  simp only [entry, put]
  split <;> rfl

theorem entry_put_self (book : Book) (address : Address) (e : Entry) :
    (book.put address e).entry address = e :=
  (entry_put ..).trans (if_pos rfl)

/-- A new entry replaces the old one. -/
theorem put_put (book : Book) (address : Address) (e e' : Entry) :
    (book.put address e).put address e' = book.put address e' := by
  simp only [put, mk.injEq, and_true]
  funext other
  split <;> rfl

theorem put_comm (book : Book) {a b : Address} (h : a ≠ b) (e e' : Entry) :
    (book.put a e).put b e' = (book.put b e').put a e := by
  simp only [put, mk.injEq, and_true]
  funext other
  split
  next hb => rw [if_neg (hb ▸ h.symm)]
  · rfl

variable {book : Book} {source target : Address} {value : Nat}

theorem transfer_self (h : value ≤ (book.entry source).balance) (nonce : Nat) :
    book.transfer source source value nonce =
      some (book.put source { book.entry source with nonce := nonce }) := by
  simp only [transfer, if_neg (Nat.not_lt.mpr h), entry_put_self, put_put, Nat.sub_add_cancel h]

theorem transfer_of_ne (h : value ≤ (book.entry source).balance) (hne : target ≠ source)
    (nonce : Nat) :
    book.transfer source target value nonce =
      some ((book.put target
        { book.entry target with balance := (book.entry target).balance + value }).put source
          { book.entry source with
            balance := (book.entry source).balance - value, nonce := nonce }) := by
  simp only [transfer, if_neg (Nat.not_lt.mpr h), entry_put, if_neg hne, if_neg hne.symm, if_pos,
    put_comm _ hne, put_put]

/-- Marks are kept apart from accounts. -/
theorem transfer_mark (book : Book) (caller : Address) (hash : TxHash) (slots : Word 8 → Bool)
    (occupied : Bool) (source target : Address) (value nonce : Nat) :
    (book.mark caller hash slots occupied).transfer source target value nonce =
      (book.transfer source target value nonce).map
        fun moved => moved.mark caller hash slots occupied := by
  simp only [transfer, apply_ite (Option.map _)]
  rfl

end Book

/-! ### The book of a store -/

/-- What a book says of an account that is kept. -/
def Entry.ofAccount (a : Account) : Entry :=
  ⟨a.balance.toNat, a.nonce.toNat, decide a.IsContract⟩

variable {book : Book} {store after : Store}

/-- A book that has the accounts of a store and the slots in which it keeps chunks. -/
structure Book.Describes (book : Book) (store : Store) : Prop where
  accounts : ∀ address, book.accounts address = (storedAccount store address).map Entry.ofAccount
  occupied : ∀ caller hash index,
    book.occupied caller hash index = (storedChunk store caller hash index).isSome

namespace Book.Describes

theorem entry (h : book.Describes store) (address : Address) :
    book.entry address = .ofAccount (accountAt store address) := by
  rw [Book.entry, h.accounts, accountAt_eq_getD]
  cases storedAccount store address <;> rfl

/-- A change that spares accounts and chunks is none to the book. -/
theorem congr (h : book.Describes store)
    (haccounts : ∀ address, storedAccount after address = storedAccount store address)
    (hchunks : ∀ caller hash index,
      storedChunk after caller hash index = storedChunk store caller hash index) :
    book.Describes after where
  accounts address := by rw [haccounts, h.accounts]
  occupied caller hash index := by rw [hchunks, h.occupied]

theorem saveConfig (h : book.Describes store) (config : Config) :
    book.Describes (Config.slot.save config store) :=
  h.congr (storedAccount_saveConfig config store) fun _ _ _ => storedChunk_saveConfig config store

theorem saveVersion (h : book.Describes store) (v : Version) :
    book.Describes (Version.slot.save v store) :=
  h.congr (storedAccount_saveVersion v store) fun _ _ _ => storedChunk_saveVersion v store

theorem put (h : book.Describes store) {a : Account} {address : Address} {e : Entry}
    (haddress : a.address = address) (he : e = .ofAccount a) :
    (book.put address e).Describes (a.save store) where
  accounts other := by
    subst haddress he
    rw [storedAccount_save]
    simp only [Book.put]
    split
    · rfl
    · exact h.accounts other
  occupied caller hash index := by
    rw [storedChunk_save]
    exact h.occupied caller hash index

theorem mark_stored (h : book.Describes store) (caller : Address) (hash : TxHash)
    (index : Word 8) (data : Bytes) :
    (book.mark caller hash (fun i => i = index) true).Describes
      ((Chunk.slot caller hash index).save data store) where
  accounts address := by
    rw [storedAccount_saveChunk]
    exact h.accounts address
  occupied c k i := by
    rw [storedChunk_saveChunk]
    simp only [mark, decide_eq_true_eq]
    split
    · rfl
    · exact h.occupied c k i

theorem mark_removed (h : book.Describes store) (caller : Address) (hash : TxHash)
    (count : Word 8) :
    (book.mark caller hash (fun i => i.toNat < count.toNat) false).Describes
      (Chunk.removeAll caller hash count store) where
  accounts address := by
    rw [storedAccount_removeAll]
    exact h.accounts address
  occupied c k i := by
    rw [storedChunk_removeAll]
    simp only [mark, decide_eq_true_eq]
    split
    · rfl
    · exact h.occupied c k i

end Book.Describes

/-! ### The book follows -/

/-- The entry of a transfer says what the transfer does. -/
theorem Book.Describes.transfer (h : WellFormed store) (hbook : book.Describes store)
    {t : Transfer} {nonce : Word 64}
    (hfunds : t.value.toNat ≤ (accountAt store t.source).balance.toNat)
    (hleaves : t.Leaves store nonce after) :
    ∃ book', book.transfer t.source t.target t.value.toNat nonce.toNat = some book' ∧
      book'.Describes after := by
  have hsource := hbook.entry t.source
  have hbalance : t.value.toNat ≤ (book.entry t.source).balance := by rw [hsource]; exact hfunds
  cases hleaves with
  | counted same =>
    rw [same]
    refine ⟨_, transfer_self hbalance nonce.toNat, hbook.put (h.address_accountAt t.source) ?_⟩
    rw [hsource]
    rfl
  | @moved less more other paid received =>
    have hpaid := Word.sub?_eq_some_iff.mp paid
    have hreceived := Word.add?_eq_some_iff.mp received
    have htarget := hbook.entry t.target
    have hcredit := hbook.put (a := { accountAt store t.target with balance := more })
      (e := { book.entry t.target with
        balance := (book.entry t.target).balance + t.value.toNat })
      (h.address_accountAt t.target) (by rw [htarget, Entry.ofAccount, ← hreceived]; rfl)
    refine ⟨_, transfer_of_ne hbalance other nonce.toNat,
      hcredit.put (h.address_accountAt t.source) ?_⟩
    rw [hsource, Entry.ofAccount, ← hpaid, Nat.add_sub_cancel]
    rfl

theorem replay_cons (book : Book) (notice : Notice) (events : List Event) :
    book.replay (notice.toEvent :: events) =
      (book.enter notice).bind fun entered => entered.replay events := by
  rw [Book.replay, List.foldlM_cons, Book.post_toEvent]
  rfl

theorem replay_notice (book : Book) (notice : Notice) :
    book.replay [notice.toEvent] = book.enter notice :=
  (replay_cons book notice []).trans (Option.bind_fun_some _)

theorem replay_relays (h : WellFormed store) (hbook : book.Describes store) {config : Config}
    {caller : Address} {b : Bytes} {response : Response}
    (hrelays : Relays config caller b store response after) :
    ∃ book', book.replay response.events = some book' ∧ book'.Describes after := by
  cases hrelays with
  | sent _ sendable _ leaves =>
    rw [Transfer.response, replay_notice]
    exact hbook.transfer h sendable.funds leaves

/-- The events of a message that goes through tell all that it does to accounts and chunks. -/
theorem replay_accepts (h : WellFormed store) (hbook : book.Describes store) {m : Message}
    {response : Response} (haccepts : Accepts store m response after) :
    ∃ book', book.replay response.events = some book' ∧ book'.Describes after := by
  cases haccepts with
  | command _ _ _ performs =>
    cases performs with
    | createAccount _ =>
      rw [replay_notice]
      exact ⟨_, rfl, hbook.put rfl rfl⟩
    | relay relayed => exact replay_relays h hbook relayed
    | storeChunk =>
      rw [replay_notice]
      exact ⟨_, rfl, hbook.mark_stored ..⟩
    | @relayChunks caller hash count _ _ _ _ relayed =>
      -- the chunks are removed first, but the notice of it comes last
      cases relayed with
      | sent _ sendable _ leaves =>
        obtain ⟨book', htransfer, hafter⟩ := (hbook.mark_removed caller hash count).transfer
          (h.removeAll caller hash count) sendable.funds leaves
        rw [Book.transfer_mark, Option.map_eq_some_iff] at htransfer
        obtain ⟨moved, hmoved, rfl⟩ := htransfer
        refine ⟨_, ?_, hafter⟩
        rw [Response.addEvent, Transfer.response, List.singleton_append, replay_cons, Book.enter,
          hmoved, Option.bind_some, replay_notice, Book.enter]
    | @airdrop address amount =>
      rw [replay_notice]
      exact ⟨_, rfl, hbook.put (h.address_accountAt address) (by rw [hbook.entry]; rfl)⟩
    | updateOperators _ =>
      rw [replay_notice]
      exact ⟨_, rfl, hbook.saveConfig _⟩
  | change _ => exact ⟨_, rfl, (hbook.saveConfig _).saveVersion _⟩

/-! ### Whole runs -/

theorem describes_setUp {envelope : Envelope} {setup : Setup} {response : Response}
    (h : (instantiate envelope setup).run ∅ = (.ok response, store)) :
    ∃ book, Book.empty.replay response.events = some book ∧ book.Describes store := by
  obtain ⟨operators, -, hevents, rfl⟩ := run_instantiate_eq_ok h
  have hempty : Book.empty.Describes ∅ := ⟨fun _ => rfl, fun _ _ _ => rfl⟩
  rw [hevents]
  exact ⟨_, rfl, (hempty.saveVersion _).saveConfig _⟩

theorem replay_append (book : Book) (events more : List Event) :
    book.replay (events ++ more) = (book.replay events).bind fun b => b.replay more :=
  List.foldlM_append

/-- The book that is kept from the events since a ledger was set up has the accounts of the ledger,
with their balances, their nonces and whether they hold code, and the slots that hold chunks. -/
theorem replay_describes {envelope : Envelope} {setup : Setup} {response : Response}
    {start : Store} (h : (instantiate envelope setup).run ∅ = (.ok response, start))
    (messages : List Message) :
    ∃ book, Book.empty.replay (response.events ++ (log messages start).events) = some book ∧
      (∀ address, ∃ kept,
        (Account.slot address).load? (run messages start).2 = .ok kept ∧
        book.accounts address = kept.map Entry.ofAccount) ∧
      ∀ caller hash index, ∃ kept,
        (Chunk.slot caller hash index).load? (run messages start).2 = .ok kept ∧
        book.occupied caller hash index = kept.isSome := by
  have hstart := Reachable.setUp h
  obtain ⟨book, hreplay, hbook⟩ : ∃ book,
      Book.empty.replay (response.events ++ (log messages start).events) = some book ∧
        book.Describes (run messages start).2 := by
    refine run_induction (P := fun log store => ∃ book,
      Book.empty.replay (response.events ++ log.events) = some book ∧ book.Describes store)
      hstart ?_ ?_ ?_ messages
    · rw [Log.events_nil, List.append_nil]
      exact describes_setUp h
    · intro log store m refusal hlog
      rw [Log.events_concat_error]
      exact hlog
    · rintro log store m response' after hreach haccepts ⟨book, hreplay, hbook⟩
      obtain ⟨book', hreplay', hbook'⟩ := replay_accepts hreach.wellFormed hbook haccepts
      refine ⟨book', ?_, hbook'⟩
      rw [Log.events_concat_ok, ← List.append_assoc, replay_append, hreplay, Option.bind_some,
        hreplay']
  have hwell := (hstart.run messages).wellFormed
  exact ⟨book, hreplay,
    fun address => ⟨_, hwell.load?_account address, hbook.accounts address⟩,
    fun caller hash index => ⟨_, hwell.load?_chunk caller hash index, hbook.occupied ..⟩⟩

/-- From the events of the sample history alone it is known that the value moved, that the chunks
of its transaction were used up, and that a first chunk was stored again. -/
theorem replay_describes_sample : ∃ response book,
    (instantiate ⟨sampleOwner, []⟩ ⟨[], none, Transaction.sample.chainId⟩).run ∅ =
      (.ok response, sampleSetUp) ∧
    Book.empty.replay (response.events ++ (log sampleHistory sampleSetUp).events) = some book ∧
    book.accounts Fixed.zero = some ⟨0, 1, false⟩ ∧
    book.accounts samplePayee.address = some ⟨Transaction.sample.value.toNat, 0, false⟩ ∧
    book.occupied Fixed.zero Fixed.zero 0 = true ∧
    book.occupied Fixed.zero Fixed.zero ⟨1, by decide⟩ = false ∧
    book.occupied Fixed.zero Fixed.zero ⟨2, by decide⟩ = false := by
  obtain ⟨response, hrun⟩ := run_sampleSetUp
  obtain ⟨book, hreplay, haccounts, hoccupied⟩ := replay_describes hrun sampleHistory
  have haccount : ∀ address, book.accounts address =
      (storedAccount (run sampleHistory sampleSetUp).2 address).map .ofAccount := by
    intro address
    obtain ⟨kept, hkept, he⟩ := haccounts address
    rw [he, storedAccount, Slot.kept?_of_load? hkept]
  have hslot : ∀ index : Word 8, index.toNat < 3 →
      book.occupied Fixed.zero Fixed.zero index = decide (index = 0) := by
    intro index hindex
    obtain ⟨kept, hkept, he⟩ := hoccupied Fixed.zero Fixed.zero index
    have hchunk := storedChunk_sampleHistory hindex
    rw [storedChunk, Slot.kept?_of_load? hkept] at hchunk
    rw [he, hchunk]
    split <;> simp [*]
  refine ⟨response, book, hrun, hreplay, ?_, ?_, hslot _ (by decide), hslot _ (by decide),
    hslot _ (by decide)⟩
  · rw [haccount, storedAccount_sampleHistory]
    rfl
  · rw [haccount, storedAccount_sampleHistory]
    rfl

end Ledger
end RelayLedger
