/-
# What a command makes of one account

Seen from one account, a command that is carried out does one of five things: it creates the
account, sets its balance, sends from it, sends to it, or has nothing to do with it. `Makes` says
so, with what is new in the account; the histories of nonces, of code and of existence are all read
off it, account by account, and never look at the store again.

An account that is not kept counts as a vacant one: `kept.getD (.vacant address)`.

Key definitions: `Ledger.Command.caller`, `Ledger.Command.account`, `Ledger.Command.Makes`.
Key theorems: `Ledger.makes_of_performs`, `Ledger.storedAccount_deliver`,
`Ledger.Command.Makes.nonce`, `Ledger.Command.Makes.exists_code`, `Ledger.Command.Makes.first`,
`Ledger.Command.Makes.balance_le`.
-/
import RelayLedger.Proofs.Ledger.Step

namespace RelayLedger
namespace Ledger

variable {store after : Store} {address : Address}

namespace Command

/-- The account on whose behalf a command runs a transaction. -/
def caller : Command → Option Address
  | .relay caller _ | .relayChunks caller _ _ => some caller
  | _ => none

/-- The account that a command is about: the caller of its transaction, or the one that it creates
or fills. -/
def account : Command → Option Address
  | .createAccount address _ | .airdrop address _ => some address
  | c => c.caller

theorem account_of_caller {c : Command} (h : c.caller = some address) :
    c.account = some address := by
  cases c with
  | relay caller b => exact h
  | relayChunks caller hash count => exact h
  | _ => simp [caller] at h

/-- What a command that is carried out makes of the account of an address, by what was kept there
before. -/
inductive Makes (address : Address) (kept : Option Account) : Command → Option Account → Prop
  | created {code : Bytes} (free : kept = none) :
    Makes address kept (.createAccount address code)
      (some { Account.vacant address with code := code })
  | filled {amount : Word 256} :
    Makes address kept (.airdrop address amount)
      (some { kept.getD (.vacant address) with balance := amount })
  | sent {c : Command} {nonce : Word 64} {balance : Word 256} (own : c.caller = some address)
      (next : nonce.toNat = (kept.getD (.vacant address)).nonce.toNat + 1)
      (spent : balance.toNat ≤ (kept.getD (.vacant address)).balance.toNat) :
    Makes address kept c
      (some { kept.getD (.vacant address) with balance := balance, nonce := nonce })
  | received {c : Command} {source : Address} {balance : Word 256} (called : c.caller = some source)
      (other : source ≠ address) (noCode : (kept.getD (.vacant address)).code = []) :
    Makes address kept c (some { kept.getD (.vacant address) with balance := balance })
  | spared {c : Command} (apart : c.account ≠ some address) : Makes address kept c kept

end Command

/-! ### Every command makes one of these -/

/-- The sender of a transfer and its recipient are kept anew, and no other account is. -/
theorem makes_of_leaves (h : WellFormed store) {t : Transfer} {nonce : Word 64}
    (hleaves : t.Leaves store nonce after)
    (hnext : nonce.toNat = (accountAt store t.source).nonce.toNat + 1)
    (hnoCode : (accountAt store t.target).code = []) {c : Command}
    (hc : c.caller = some t.source) (address : Address) :
    c.Makes address (storedAccount store address) (storedAccount after address) := by
  have hsource := h.address_accountAt t.source
  have htarget := h.address_accountAt t.target
  have hspared (hne : address ≠ t.source) : c.account ≠ some address := by
    rw [Command.account_of_caller hc]
    exact fun e => hne (Option.some.inj e).symm
  rw [accountAt_eq_getD] at hnext hnoCode
  cases hleaves with
  | counted same =>
    rw [storedAccount_save, hsource]
    by_cases hself : address = t.source
    · subst hself
      rw [if_pos rfl, accountAt_eq_getD]
      exact .sent hc hnext (Nat.le_refl _)
    · rw [if_neg hself]
      exact .spared (hspared hself)
  | @moved less more other paid received =>
    have hpaid := Word.sub?_eq_some_iff.mp paid
    rw [storedAccount_save, storedAccount_save, hsource, htarget]
    by_cases hself : address = t.source
    · subst hself
      have hless : less.toNat ≤ (accountAt store t.source).balance.toNat := by omega
      rw [accountAt_eq_getD] at hless
      rw [if_pos rfl, accountAt_eq_getD]
      exact .sent hc hnext hless
    · rw [if_neg hself]
      by_cases hto : address = t.target
      · subst hto
        rw [if_pos rfl, accountAt_eq_getD]
        exact .received hc (Ne.symm hself) hnoCode
      · rw [if_neg hto]
        exact .spared (hspared hself)

theorem makes_of_relays (h : WellFormed store) {config : Config} {caller : Address} {b : Bytes}
    {response : Response} (hrelays : Relays config caller b store response after) {c : Command}
    (hc : c.caller = some caller) (address : Address) :
    c.Makes address (storedAccount store address) (storedAccount after address) := by
  cases hrelays with
  | sent _ sendable next leaves => exact makes_of_leaves h leaves next sendable.noCode hc address

theorem makes_of_performs (h : WellFormed store) {config : Config} {c : Command}
    {response : Response} (hperforms : Performs config store c response after)
    (address : Address) :
    c.Makes address (storedAccount store address) (storedAccount after address) := by
  cases hperforms with
  | @createAccount created code free =>
    rw [storedAccount_save]
    by_cases hself : address = created
    · subst hself
      rw [if_pos (by exact rfl)]
      exact .created free
    · rw [if_neg (by exact hself)]
      exact .spared fun e => hself (Option.some.inj e).symm
  | relay relayed => exact makes_of_relays h relayed rfl address
  | storeChunk =>
    rw [storedAccount_saveChunk]
    exact .spared nofun
  | @relayChunks caller hash count _ _ _ _ relayed =>
    have hmakes := makes_of_relays (h.removeAll caller hash count) relayed
      (c := .relayChunks caller hash count) rfl address
    rw [storedAccount_removeAll] at hmakes
    exact hmakes
  | @airdrop filled amount =>
    rw [storedAccount_save, h.address_accountAt]
    by_cases hself : address = filled
    · subst hself
      rw [if_pos rfl, accountAt_eq_getD]
      exact .filled
    · rw [if_neg hself]
      exact .spared fun e => hself (Option.some.inj e).symm
  | updateOperators _ =>
    rw [storedAccount_saveConfig]
    exact .spared nofun

/-- A change of the settings makes nothing of any account. -/
theorem storedAccount_change (config : Config) (store : Store) (address : Address) :
    storedAccount (Version.slot.save version (Config.slot.save config store)) address =
      storedAccount store address := by
  rw [storedAccount_saveVersion, storedAccount_saveConfig]

/-- A message leaves an account as it was, unless it is a command that is carried out. -/
theorem storedAccount_deliver (h : WellFormed store) (m : Message) (address : Address) :
    storedAccount (deliver m store).2 address = storedAccount store address ∨
      ∃ sent c response, m = .command sent c ∧ (deliver m store).1 = .ok response ∧
        c.Makes address (storedAccount store address) (storedAccount (deliver m store).2 address) := by
  rcases deliver_cases h m with ⟨_, _, -, hdeliver⟩ | ⟨response, after, hdeliver, haccepts⟩
  · rw [hdeliver]
    exact .inl rfl
  · rw [hdeliver]
    cases haccepts with
    | @command sent c _ _ _ _ _ _ performs =>
      exact .inr ⟨sent, c, response, rfl, rfl, makes_of_performs h performs address⟩
    | change _ => exact .inl (storedAccount_change _ store address)

/-- A ledger starts without accounts. -/
theorem storedAccount_setUp {envelope : Envelope} {setup : Setup} {response : Response}
    (h : (instantiate envelope setup).run ∅ = (.ok response, store)) (address : Address) :
    storedAccount store address = none := by
  obtain ⟨operators, -, -, rfl⟩ := run_instantiate_eq_ok h
  rw [storedAccount_saveConfig, storedAccount_saveVersion]
  rfl

/-! ### What follows for nonce, code and balance -/

namespace Command
namespace Makes

variable {kept left : Option Account} {c : Command}

/-- The nonce counts up with each transaction of the account, and with nothing else. -/
theorem nonce (h : c.Makes address kept left) :
    (left.getD (.vacant address)).nonce.toNat =
      (kept.getD (.vacant address)).nonce.toNat + if c.caller = some address then 1 else 0 := by
  cases h with
  | created free =>
    subst free
    rfl
  | filled => rfl
  | sent own next _ => rw [if_pos own, Option.getD_some, next]
  | received called other _ =>
    have hother : c.caller ≠ some address := by
      rw [called]
      exact fun e => other (Option.some.inj e)
    rw [if_neg hother]
    rfl
  | spared apart =>
    rw [if_neg fun own => apart (account_of_caller own)]
    rfl

/-- An account stays, and so does its code. -/
theorem exists_code {a : Account} (h : c.Makes address (some a) left) :
    ∃ b, left = some b ∧ b.code = a.code := by
  cases h with
  | created free => cases free
  | filled => exact ⟨_, rfl, rfl⟩
  | sent _ _ _ => exact ⟨_, rfl, rfl⟩
  | received _ _ _ => exact ⟨_, rfl, rfl⟩
  | spared _ => exact ⟨a, rfl, rfl⟩

/-- An account that was not there before is created with its code, or has none. -/
theorem first {a : Account} (h : c.Makes address none (some a)) :
    c = .createAccount address a.code ∨ (∀ code, c ≠ .createAccount address code) ∧ a.code = [] := by
  cases h with
  | created _ => exact .inl rfl
  | filled => exact .inr ⟨nofun, rfl⟩
  | sent own _ _ =>
    refine .inr ⟨?_, rfl⟩
    rintro code rfl
    cases own
  | received called _ _ =>
    refine .inr ⟨?_, rfl⟩
    rintro code rfl
    cases called

/-- Nothing but an airdrop gives value to an account that holds code. -/
theorem balance_le {a : Account} (h : c.Makes address (some a) left) (hcode : a.code ≠ [])
    (hc : ∀ amount, c ≠ .airdrop address amount) :
    ∃ b, left = some b ∧ b.balance.toNat ≤ a.balance.toNat := by
  cases h with
  | created free => cases free
  | @filled amount => exact absurd rfl (hc amount)
  | sent _ _ spent => exact ⟨_, rfl, spent⟩
  | received _ _ noCode => exact absurd noCode hcode
  | spared _ => exact ⟨a, rfl, Nat.le_refl _⟩

end Makes
end Command
end Ledger
end RelayLedger
