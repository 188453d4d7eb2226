/-
# Transactions that lack funds

A transaction that is refused for want of funds has passed all that is looked at before: it can be
read, is meant for this ledger, and has a recipient without code (`unfunded_of_check`). So once its
account is filled it lacks nothing but perhaps room at the recipient and a next nonce
(`Unfunded.sendable_iff`). One that was put together from chunks can be sent again only while they
are there: when it has gone through the first is gone, and whoever asks for it then is told so
(`deliver_relayChunks_of_none`).

Key definitions: `Ledger.Unfunded`, `Ledger.filled`, `Ledger.Transfer.PaidOnce`.
Key theorems: `Ledger.unfunded_of_deliver`, `Ledger.Unfunded.sendable_iff`,
`Ledger.settles_relayChunks`, `Ledger.storedChunk_run_eq_none`, `Ledger.deliver_relayChunks_of_none`.
-/
import RelayLedger.Proofs.Ledger.Atomicity
import RelayLedger.Proofs.Ledger.ChunkHistory
import RelayLedger.Proofs.Ledger.RelayOrder

namespace RelayLedger
namespace Ledger

open RelayLedger.Action

variable {store after : Store} {config : Config} {caller target : Address} {tx : Transaction}
  {b : Bytes} {hash : TxHash} {count : Word 8}

/-! ### What is left to be asked -/

/-- A transaction that an account has too little for, and in which there is nothing else to be
refused before its funds are looked at. -/
structure Unfunded (config : Config) (store : Store) (caller target : Address)
    (tx : Transaction) : Prop where
  chainId : tx.chainId = none ∨ tx.chainId = some config.chainId
  recipient : tx.recipient = some target
  noCode : (accountAt store target).code = []
  short : (accountAt store caller).balance.toNat < tx.value.toNat

theorem checkChainId_ne_insufficientFunds {chainId : Option (Word 64)} {who : Address} :
    checkChainId config chainId ≠ .error (.insufficientFunds who) := by
  unfold checkChainId
  split
  · simp
  · split <;> simp

theorem unfunded_of_check (h : WellFormed store) {who : Address}
    (hcheck : check config caller b store = .error (.insufficientFunds who)) :
    ∃ tx target, Transaction.decode b = .ok tx ∧ Unfunded config store caller target tx := by
  unfold check at hcheck
  rcases bind_eq_error_iff.mp hcheck with hbad | ⟨tx, hdecode, hcheck⟩
  · obtain ⟨_, -, e⟩ := mapError_eq_error_iff.mp hbad
    cases e
  rcases bind_eq_error_iff.mp hcheck with hchain | ⟨_, hchain, hcheck⟩
  · exact absurd hchain checkChainId_ne_insufficientFunds
  cases hrecipient : tx.recipient with
  | none =>
    rw [hrecipient] at hcheck
    cases hcheck
  | some target =>
    simp only [hrecipient, h.load, ofFault, Except.mapError, ok_bind] at hcheck
    by_cases hcode : (accountAt store target).IsContract
    · rw [if_pos hcode] at hcheck
      cases hcheck
    · rw [if_neg hcode] at hcheck
      by_cases hshort : (accountAt store caller).balance.toNat < tx.value.toNat
      · exact ⟨tx, target, mapError_eq_ok_iff.mp hdecode, checkChainId_eq_ok_iff.mp hchain,
          hrecipient, not_not.mp hcode, hshort⟩
      · -- what is refused later on is refused for something else
        rw [if_neg hshort] at hcheck
        split at hcheck
        · cases hcheck
        · split at hcheck <;> cases hcheck

/-- Such a transaction is refused for want of funds. -/
theorem Unfunded.check (h : WellFormed store) (hunfunded : Unfunded config store caller target tx)
    (hdecode : Transaction.decode b = .ok tx) :
    Ledger.check config caller b store = .error (.insufficientFunds caller) := by
  have hchain : checkChainId config tx.chainId = .ok () :=
    checkChainId_eq_ok_iff.mpr hunfunded.chainId
  have hcode : ¬ (accountAt store target).IsContract := not_not.mpr hunfunded.noCode
  simp only [Ledger.check, hdecode, Except.mapError, ok_bind, hchain, hunfunded.recipient, h.load,
    ofFault]
  rw [if_neg hcode, if_pos hunfunded.short]

/-! ### Filling an account -/

/-- The store after the balance of an account was set. -/
def filled (address : Address) (amount : Word 256) (store : Store) : Store :=
  ({ accountAt store address with balance := amount } : Account).save store

theorem accountAt_filled (h : WellFormed store) (address : Address) (amount : Word 256)
    (other : Address) :
    accountAt (filled address amount store) other =
      if other = address then { accountAt store address with balance := amount }
      else accountAt store other := by
  rw [filled, accountAt_save, h.address_accountAt]

theorem collect_filled (address : Address) (amount : Word 256)
    (h : Chunk.collect caller hash count store = .ok b) :
    Chunk.collect caller hash count (filled address amount store) = .ok b := by
  have hsame : storedChunk (filled address amount store) caller hash =
      storedChunk store caller hash := funext fun index => storedChunk_save _ store
  rw [Chunk.collect_eq_ok_iff] at h ⊢
  rw [hsame]
  exact h

/-- When its account is filled, a transaction lacks no more than room and a next nonce. -/
theorem Unfunded.sendable_iff (h : WellFormed store) (hunfunded : Unfunded config store caller target tx)
    {amount : Word 256} (henough : tx.value.toNat ≤ amount.toNat) :
    Sendable config (filled caller amount store) caller target tx ↔
      (target = caller ∨
        (accountAt store target).balance.toNat + tx.value.toNat < Word.bound 256) ∧
      (accountAt store caller).nonce.toNat < Word.bound 64 - 1 := by
  have hcaller : accountAt (filled caller amount store) caller =
      { accountAt store caller with balance := amount } := by
    rw [accountAt_filled h, if_pos rfl]
  have htarget (hne : target ≠ caller) :
      accountAt (filled caller amount store) target = accountAt store target := by
    rw [accountAt_filled h, if_neg hne]
  have hcode : (accountAt (filled caller amount store) target).code = [] := by
    by_cases hself : target = caller
    · rw [hself, hcaller, ← hself]
      exact hunfunded.noCode
    · rw [htarget hself]
      exact hunfunded.noCode
  constructor
  · intro hsend
    have hroom := hsend.room
    have hcountable := hsend.countable
    rw [hcaller] at hcountable
    refine ⟨?_, hcountable⟩
    by_cases hself : target = caller
    · exact .inl hself
    · rw [htarget hself] at hroom
      exact hroom
  · rintro ⟨hroom, hcountable⟩
    refine ⟨hunfunded.chainId, hunfunded.recipient, hcode, ?_, ?_, ?_⟩
    · rw [hcaller]
      exact henough
    · by_cases hself : target = caller
      · exact .inl hself
      · rw [htarget hself]
        exact hroom
    · rw [hcaller]
      exact hcountable

/-! ### Transactions in chunks -/

/-- If a transaction in chunks is refused for want of funds, all else was in order. -/
theorem unfunded_of_deliver (h : WellFormed store) (hconfig : Config.slot.load store = .ok config)
    {sender : ChainAddress} {who : Address}
    (hrefused : (deliver (.command ⟨sender, []⟩ (.relayChunks caller hash count)) store).1 =
      .error (.insufficientFunds who)) :
    ∃ b tx target, Chunk.collect caller hash count store = .ok b ∧
      Transaction.decode b = .ok tx ∧ Unfunded config store caller target tx := by
  rw [deliver, commit_fst, Message.action, run_execute_eq hconfig, if_neg (not_not.mpr rfl)]
    at hrefused
  split at hrefused
  · cases hcollect : Chunk.collect caller hash count store with
    | error refusal =>
      obtain ⟨index, rfl⟩ := Chunk.collect_error h hcollect
      rw [perform, run_bind_error (by rw [run_read, hcollect])] at hrefused
      cases hrefused
    | ok b =>
      obtain ⟨hcheck, -⟩ := run_relayChunks_error h hcollect (Prod.ext hrefused rfl)
      obtain ⟨tx, target, hdecode, hunfunded⟩ := unfunded_of_check h hcheck
      exact ⟨b, tx, target, rfl, hdecode, hunfunded⟩
  · cases hrefused

theorem Unfunded.deliver_relayChunks (h : WellFormed store)
    (hconfig : Config.slot.load store = .ok config) {sender : ChainAddress}
    (hoperator : config.IsOperator sender) (hunfunded : Unfunded config store caller target tx)
    (hcollect : Chunk.collect caller hash count store = .ok b)
    (hdecode : Transaction.decode b = .ok tx) :
    (deliver (.command ⟨sender, []⟩ (.relayChunks caller hash count)) store).1 =
      .error (.insufficientFunds caller) := by
  have hrelay : (relay config caller b).run store = (.error (.insufficientFunds caller), store) := by
    rw [run_relay, hunfunded.check h hdecode]
  have hallowed : (Command.relayChunks caller hash count).Allowed config sender := hoperator
  rw [deliver, commit_fst, Message.action, run_execute hconfig hallowed, run_relayChunks hcollect,
    hrelay]
  rfl

/-- With its chunks there, a transaction goes through exactly if it is sendable. -/
theorem exists_deliver_relayChunks_iff (h : WellFormed store)
    (hconfig : Config.slot.load store = .ok config) {sender : ChainAddress}
    (hoperator : config.IsOperator sender) (hcollect : Chunk.collect caller hash count store = .ok b)
    (hdecode : Transaction.decode b = .ok tx) (hrecipient : tx.recipient = some target) :
    (∃ response, (deliver (.command ⟨sender, []⟩ (.relayChunks caller hash count)) store).1 =
      .ok response) ↔ Sendable config store caller target tx := by
  have hdirect := deliver_relayChunks hconfig hoperator hoperator hcollect
  rw [hdirect]
  constructor
  · rintro ⟨response, hok⟩
    cases hrelay : deliver (.command ⟨sender, []⟩ (.relay caller b)) store with
    | mk outcome after =>
      rw [hrelay] at hok
      cases outcome with
      | error refusal => cases hok
      | ok response' =>
        cases accepts_of_deliver h hrelay with
        | command _ configured _ performs =>
          cases performs with
          | relay relayed =>
            cases relayed with
            | sent decoded sendable _ _ =>
              cases configured.symm.trans hconfig
              cases decoded.symm.trans hdecode
              cases sendable.recipient.symm.trans hrecipient
              exact sendable
  · intro hsend
    obtain ⟨response, after, hrelay⟩ := hsend.deliver_relay h hconfig hoperator hdecode
    rw [hrelay]
    exact ⟨_, rfl⟩

/-- A transaction in chunks that goes through makes its transfer, and its first chunk is gone. -/
theorem settles_relayChunks (h : WellFormed store) {sender : ChainAddress} {response : Response}
    (hdeliver : deliver (.command ⟨sender, []⟩ (.relayChunks caller hash count)) store =
      (.ok response, after))
    (hcollect : Chunk.collect caller hash count store = .ok b)
    (hdecode : Transaction.decode b = .ok tx) (hrecipient : tx.recipient = some target) :
    Settles [⟨caller, target, tx.value⟩] (Chunk.removeAll caller hash count store) after ∧
      storedChunk after caller hash 0 = none := by
  have hcount : count ≠ 0 := (Chunk.collect_eq_ok_iff.mp hcollect).1
  have hpos : (0 : Word 8).toNat < count.toNat :=
    Nat.pos_of_ne_zero fun e => hcount (Word.ext_toNat e)
  cases accepts_of_deliver h hdeliver with
  | command _ _ _ performs =>
    have hgone : storedChunk after caller hash 0 = none := by
      rw [storedChunk_performs performs, Command.chunkAfter_of_usesUp ⟨count, hpos, rfl⟩]
    cases performs with
    | relayChunks collected relayed =>
      cases collected.symm.trans hcollect
      cases relayed with
      | sent decoded sendable next leaves =>
        cases decoded.symm.trans hdecode
        cases sendable.recipient.symm.trans hrecipient
        exact ⟨settles_of_leaves (h.removeAll caller hash count) leaves next, hgone⟩

/-- The two accounts of a transfer that went through once, after its source was filled. -/
structure Transfer.PaidOnce (t : Transfer) (amount : Word 256) (store after : Store) : Prop where
  nonce : (accountAt after t.source).nonce.toNat = (accountAt store t.source).nonce.toNat + 1
  sent : t.target ≠ t.source →
    (accountAt after t.source).balance.toNat + t.value.toNat = amount.toNat
  received : t.target ≠ t.source → (accountAt after t.target).balance.toNat =
    (accountAt store t.target).balance.toNat + t.value.toNat
  kept : t.target = t.source → (accountAt after t.source).balance = amount

theorem Settles.paidOnce {t : Transfer} {amount : Word 256} (h : WellFormed store)
    (hsettles : Settles [t] (Chunk.removeAll caller hash count (filled t.source amount store)) after) :
    t.PaidOnce amount store after := by
  have hbefore (address : Address) :
      accountAt (Chunk.removeAll caller hash count (filled t.source amount store)) address =
        if address = t.source then { accountAt store t.source with balance := amount }
        else accountAt store address := by
    rw [accountAt_congr (storedAccount_removeAll caller hash count _ address), accountAt_filled h]
  have hsource := hsettles.balance t.source
  have htarget := hsettles.balance t.target
  have hnonce := hsettles.nonce t.source
  rw [hbefore, if_pos rfl] at hsource hnonce
  rw [hbefore] at htarget
  simp only [List.map_cons, List.map_nil, List.sum_cons, List.sum_nil, Transfer.paidBy,
    Transfer.gotBy, if_true, Nat.add_zero] at hsource htarget
  refine ⟨?_, fun hne => ?_, fun hne => ?_, fun hself => ?_⟩
  · simpa using hnonce
  · rw [if_neg hne.symm] at hsource
    exact hsource
  · rw [if_neg hne, if_neg hne] at htarget
    exact htarget
  · rw [hself, if_pos rfl] at hsource
    exact Word.ext_toNat (Nat.add_right_cancel hsource)

/-! ### Nothing to be sent again -/

/-- A slot stays empty as long as nothing is stored in it. -/
theorem storedChunk_run_eq_none (h : Reachable store) {messages : List Message} {index : Word 8}
    (hnone : storedChunk store caller hash index = none)
    (hstores : ∀ c ∈ (log messages store).commands, ¬ c.Stores caller hash index) :
    storedChunk (run messages store).2 caller hash index = none := by
  rw [storedChunk_run h, foldl_chunkAfter_eq_none_iff]
  refine ⟨fun before data after hsplit => ?_, .inl hnone⟩
  exact absurd ⟨data, rfl⟩ (hstores (.storeChunk caller hash index data) (by simp [hsplit]))

/-- Without a first chunk there is no transaction, however many chunks are asked for. -/
theorem deliver_relayChunks_of_none (h : WellFormed store)
    (hconfig : Config.slot.load store = .ok config)
    (hnone : storedChunk store caller hash 0 = none) (sender : ChainAddress) (count : Word 8) :
    (deliver (.command ⟨sender, []⟩ (.relayChunks caller hash count)) store).1 =
      .error (if config.IsOperator sender then .chunkMissing hash 0 else .unauthorized) := by
  have hperform : (perform config (.relayChunks caller hash count)).run store =
      (.error (.chunkMissing hash 0), store) :=
    run_bind_error (by rw [run_read, Chunk.collect_of_none h hnone count])
  rw [deliver, commit_fst, Message.action, run_execute_eq hconfig, if_neg (not_not.mpr rfl)]
  by_cases hoperator : config.IsOperator sender
  · rw [if_pos hoperator, if_pos (by exact hoperator), hperform]
  · rw [if_neg hoperator, if_neg (by exact hoperator)]

end Ledger
end RelayLedger
