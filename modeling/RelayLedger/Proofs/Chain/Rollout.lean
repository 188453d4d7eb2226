/-
# The first deployment on a chain

The first deployment of an application creates two accounts, one after the other, at addresses that
the deployer gets from its nonce. Both are created if who signs is an operator and the addresses are
free and differ; nothing else on the chain changes then, and the same deployment is not possible
again. A deployment that stops has created nothing, or the first account alone, and the deployer
knows which: its nonce and its record tell what is on the chain.

Key definitions: `Chain.place`, `Deployer.upcoming`, `Deployer.advance`, `Chain.Shows`,
`Chain.Begun`, `Chain.RolledOut`.
Key theorems: `Chain.deploy_accepted`, `Chain.deploy_refused`, `Chain.rollout_cases`,
`Chain.rollout_law`.
-/
import RelayLedger.Proofs.Chain.Operation
import RelayLedger.Proofs.Ledger.AccountHistory

namespace RelayLedger

namespace Chain

open Ledger

variable {chain : Chain} {config : Config} {address other : Address} {code : Bytes}

/-! ### One account -/

/-- The chain with a new account that has nothing but code. -/
def place (address : Address) (code : Bytes) (chain : Chain) : Chain :=
  { chain with
    ledger := ({ Account.vacant address with code := code } : Account).save chain.ledger }

theorem storedAccount_place : storedAccount (chain.place address code).ledger other =
    if other = address then some { Account.vacant address with code := code }
    else storedAccount chain.ledger other :=
  storedAccount_save _ _ other

theorem storedAccount_place_eq_none_iff :
    storedAccount (chain.place address code).ledger other = none ↔
      other ≠ address ∧ storedAccount chain.ledger other = none := by
  rw [storedAccount_place]
  by_cases hsame : other = address <;> simp [hsame]

/-- After two accounts were put on a chain, an address is free if it was so and is neither's. -/
theorem storedAccount_place_place_eq_none_iff {first second : Address} {code code' : Bytes} :
    storedAccount ((chain.place first code).place second code').ledger other = none ↔
      other ∉ [first, second] ∧ storedAccount chain.ledger other = none := by
  rw [storedAccount_place_eq_none_iff, storedAccount_place_eq_none_iff, ← and_assoc,
    List.mem_cons, List.mem_singleton, not_or, and_comm (b := other ≠ first)]

theorem get?_place {k : Bytes} (h : k ≠ (Account.slot address).key) :
    (chain.place address code).ledger.get? k = chain.ledger.get? k :=
  Account.get?_save_of_ne h chain.ledger

theorem load_config_place :
    Config.slot.load (chain.place address code).ledger = Config.slot.load chain.ledger :=
  load_config_save _ _

/-- An operator may create an account where none is. -/
theorem send_createAccount (h : chain.Reachable)
    (hconfig : Config.slot.load chain.ledger = .ok config) {signer : Wallet}
    (hoperator : config.IsOperator signer.address)
    (hfree : storedAccount chain.ledger address = none) (code : Bytes) :
    ∃ receipt, send signer (.createAccount address code) chain =
      (.ok receipt, chain.place address code) :=
  ⟨_, send_eq_ok_iff.mpr
    ⟨_, _, deliver_createAccount h.ledger.wellFormed hconfig hoperator hfree code, rfl, rfl⟩⟩

/-- What the chain tells of an account that has nothing but code. -/
structure Shows (chain : Chain) (address : Address) (code : Bytes) : Prop where
  toldCode : query Bytes "terranova" (Json.encode (Query.code address)) chain = (.ok code, chain)
  toldAccount : account address chain =
    (.ok ⟨address, 0, 0, decide (code ≠ []), .truncate code.length⟩, chain)

theorem shows_of_storedAccount (h : chain.Reachable)
    (hkept : storedAccount chain.ledger address =
      some { Account.vacant address with code := code }) : chain.Shows address code := by
  have hload := h.ledger.wellFormed.load address
  rw [accountAt_eq_getD, hkept, Option.getD_some] at hload
  have hcode : Ledger.answer (.code address) chain.ledger = .ok (Json.encode code) := by
    rw [Ledger.answer, hload]
    rfl
  have haccount : Ledger.answer (.account address) chain.ledger = .ok (Json.encode
      (⟨address, 0, 0, decide (code ≠ []), .truncate code.length⟩ : AccountSummary)) := by
    rw [Ledger.answer, hload]
    rfl
  exact ⟨query_ledger hcode, query_ledger haccount⟩

end Chain

/-! ### One artifact -/

namespace Deployer

/-- The address of what will be deployed after so many more artifacts. -/
def upcoming {σ : Type} (d : Deployer σ) (count : Nat) : Address :=
  deploymentAddress d.origin (.truncate (d.nonce.toNat + count))

/-- The deployer after an artifact was put on the chain. -/
def advance (artifact : Artifact) (d : Deployer Chain) : Deployer Chain :=
  { d with
    client := d.client.place (d.upcoming 0) artifact.code
    nonce := .truncate (d.nonce.toNat + 1)
    deployed := d.deployed ++ [(artifact.name, d.upcoming 0)] }

theorem upcoming_zero {σ : Type} (d : Deployer σ) :
    d.upcoming 0 = deploymentAddress d.origin d.nonce := by
  have hnonce : (Word.truncate d.nonce.toNat : Word 64) = d.nonce :=
    Word.ext_toNat (Word.toNat_truncate d.nonce.isLt)
  rw [upcoming, Nat.add_zero, hnonce]

variable {d : Deployer Chain} {artifact : Artifact}

theorem toNat_nonce_advance (hroom : d.nonce.toNat + 1 < Word.bound 64) :
    (d.advance artifact).nonce.toNat = d.nonce.toNat + 1 := Word.toNat_truncate hroom

theorem upcoming_advance (hroom : d.nonce.toNat + 1 < Word.bound 64) (count : Nat) :
    (d.advance artifact).upcoming count = d.upcoming (count + 1) := by
  rw [upcoming, toNat_nonce_advance hroom, upcoming, Nat.add_assoc, Nat.add_comm 1]
  rfl

theorem client_advance_advance (hroom : d.nonce.toNat + 1 < Word.bound 64) (first second : Artifact) :
    ((d.advance first).advance second).client =
      (d.client.place (d.upcoming 0) first.code).place (d.upcoming 1) second.code := by
  have hsecond : (d.advance first).upcoming 0 = d.upcoming 1 := upcoming_advance hroom 0
  rw [← hsecond]
  rfl

end Deployer

namespace Chain

open Ledger Deployer

variable {d : Deployer Chain} {config : Config}

/-- An artifact is put on the chain if who signs is an operator and the address is free. -/
theorem deploy_accepted (h : d.client.Reachable) (hcontract : d.contract = "terranova")
    (hconfig : Config.slot.load d.client.ledger = .ok config)
    (hoperator : config.IsOperator d.signer.address)
    (hfree : storedAccount d.client.ledger (d.upcoming 0) = none)
    (hroom : d.nonce.toNat + 1 < Word.bound 64) (artifact : Artifact) :
    deploy artifact d = (.ok (d.upcoming 0), d.advance artifact) := by
  obtain ⟨receipt, hsend⟩ := send_createAccount h hconfig hoperator hfree artifact.code
  have hexecute : Client.execute d.signer d.contract
      (Json.encode (Command.createAccount (d.upcoming 0) artifact.code)) d.client =
      (.ok receipt, d.client.place (d.upcoming 0) artifact.code) := by
    rw [hcontract]
    exact hsend
  have hnext : Word.ofNat? (d.nonce.toNat + 1) = some (Word.truncate (d.nonce.toNat + 1) : Word 64) :=
    Word.ofNat?_eq_some_iff.mpr (Word.toNat_truncate hroom)
  rw [deploy, ← d.upcoming_zero]
  simp only [hexecute, hnext]
  rfl

/-- In all other cases it is refused, and neither the chain nor the deployer changes. -/
theorem deploy_refused (hcontract : d.contract = "terranova")
    (hconfig : Config.slot.load d.client.ledger = .ok config)
    (hrefused : config.IsOperator d.signer.address →
      storedAccount d.client.ledger (d.upcoming 0) ≠ none) (artifact : Artifact) :
    deploy artifact d =
      (.error (.client (.ledger (if config.IsOperator d.signer.address
        then .accountExists (d.upcoming 0) else .unauthorized))), d) := by
  have hdeliver := deliver_createAccount_refused hconfig hrefused artifact.code
  have hexecute : Client.execute d.signer d.contract
      (Json.encode (Command.createAccount (d.upcoming 0) artifact.code)) d.client =
      (.error (.ledger (if config.IsOperator d.signer.address
        then .accountExists (d.upcoming 0) else .unauthorized)), d.client) := by
    rw [hcontract]
    exact send_eq_error_iff.mpr ⟨_, hdeliver, rfl, rfl⟩
  rw [deploy, ← d.upcoming_zero]
  simp only [hexecute]

theorem reachable_advance (h : d.client.Reachable)
    (hconfig : Config.slot.load d.client.ledger = .ok config)
    (hoperator : config.IsOperator d.signer.address)
    (hfree : storedAccount d.client.ledger (d.upcoming 0) = none) (artifact : Artifact) :
    (d.advance artifact).client.Reachable := by
  obtain ⟨receipt, hsend⟩ := send_createAccount h hconfig hoperator hfree artifact.code
  exact h.of_send hsend

/-- A deployment that got as far as its first artifact: chain and deployer agree on it. -/
structure Begun (artifact : Artifact) (d left : Deployer Chain) : Prop where
  free : storedAccount d.client.ledger (d.upcoming 0) = none
  client : left.client = d.client.place (d.upcoming 0) artifact.code
  nonce : left.nonce.toNat = d.nonce.toNat + 1
  deployed : left.deployed = d.deployed ++ [(artifact.name, d.upcoming 0)]

end Chain

/-! ### Both artifacts -/

namespace Rollout

open Deployer

variable {σ ε ρ : Type} [Client σ ε ρ] {r : Rollout} {d left : Deployer σ}

theorem run_of_error {stop : Stop ε} (h : deploy r.storage d = (.error stop, left)) :
    r.run d = (.error stop, left) := by
  unfold run
  simp only [bind, StateT.bind, h]
  rfl

theorem run_of_ok {address : Address} (h : deploy r.storage d = (.ok address, left)) :
    r.run d =
      ((deploy r.migrations left).1.map ([address, ·]), (deploy r.migrations left).2) := by
  unfold run
  simp only [bind, StateT.bind, h]
  obtain ⟨outcome, last⟩ := deploy r.migrations left
  cases outcome <;> rfl

end Rollout

namespace Chain

open Ledger Deployer

variable {d : Deployer Chain} {config : Config}

/-- Nothing is deployed by who may not, or where the first address is taken. -/
theorem rollout_refused (hcontract : d.contract = "terranova")
    (hconfig : Config.slot.load d.client.ledger = .ok config)
    (hrefused : config.IsOperator d.signer.address →
      storedAccount d.client.ledger (d.upcoming 0) ≠ none) (r : Rollout) :
    r.run d =
      (.error (.client (.ledger (if config.IsOperator d.signer.address
        then .accountExists (d.upcoming 0) else .unauthorized))), d) :=
  Rollout.run_of_error (deploy_refused hcontract hconfig hrefused r.storage)

section Accepted

variable (h : d.client.Reachable) (hcontract : d.contract = "terranova")
  (hconfig : Config.slot.load d.client.ledger = .ok config)
  (hoperator : config.IsOperator d.signer.address)
  (hfree : storedAccount d.client.ledger (d.upcoming 0) = none)
  (hroom : d.nonce.toNat + 2 < Word.bound 64)

include h hcontract hconfig hoperator hfree hroom

/-- It stops after the first artifact where the second address is taken, be it by the first. -/
theorem rollout_halted (r : Rollout)
    (htaken : storedAccount (d.advance r.storage).client.ledger (d.upcoming 1) ≠ none) :
    r.run d =
      (.error (.client (.ledger (.accountExists (d.upcoming 1)))), d.advance r.storage) := by
  have hnext : d.nonce.toNat + 1 < Word.bound 64 := by omega
  have hsecond := deploy_refused (d := d.advance r.storage) hcontract
    (load_config_place.trans hconfig) (fun _ => by rwa [upcoming_advance hnext]) r.migrations
  rw [if_pos (by exact hoperator), upcoming_advance hnext] at hsecond
  rw [Rollout.run_of_ok (deploy_accepted h hcontract hconfig hoperator hfree hnext r.storage),
    hsecond]
  rfl

/-- It goes through where both addresses are free and differ. -/
theorem rollout_completed (r : Rollout)
    (hstill : storedAccount (d.advance r.storage).client.ledger (d.upcoming 1) = none) :
    r.run d =
      (.ok [d.upcoming 0, d.upcoming 1], (d.advance r.storage).advance r.migrations) := by
  have hnext : d.nonce.toNat + 1 < Word.bound 64 := by omega
  have hlast : (d.advance r.storage).nonce.toNat + 1 < Word.bound 64 := by
    rw [toNat_nonce_advance hnext]
    omega
  have hsecond := deploy_accepted (d := d.advance r.storage)
    (reachable_advance h hconfig hoperator hfree r.storage) hcontract
    (load_config_place.trans hconfig) hoperator (by rwa [upcoming_advance hnext]) hlast
    r.migrations
  rw [upcoming_advance hnext] at hsecond
  rw [Rollout.run_of_ok (deploy_accepted h hcontract hconfig hoperator hfree hnext r.storage),
    hsecond]
  rfl

end Accepted

/-- A deployment is refused, stops half way or goes through, and which of these depends on who signs
and on the two addresses. -/
theorem rollout_cases (h : d.client.Reachable) (hcontract : d.contract = "terranova")
    (hconfig : Config.slot.load d.client.ledger = .ok config)
    (hroom : d.nonce.toNat + 2 < Word.bound 64) (r : Rollout) :
    (¬ (config.IsOperator d.signer.address ∧
        storedAccount d.client.ledger (d.upcoming 0) = none) ∧
      ∃ stop, r.run d = (.error stop, d)) ∨
    config.IsOperator d.signer.address ∧ storedAccount d.client.ledger (d.upcoming 0) = none ∧
      (¬ (d.upcoming 1 ≠ d.upcoming 0 ∧ storedAccount d.client.ledger (d.upcoming 1) = none) ∧
          (∃ stop, r.run d = (.error stop, d.advance r.storage)) ∨
        d.upcoming 1 ≠ d.upcoming 0 ∧ storedAccount d.client.ledger (d.upcoming 1) = none ∧
          r.run d =
            (.ok [d.upcoming 0, d.upcoming 1], (d.advance r.storage).advance r.migrations)) := by
  by_cases hfirst : config.IsOperator d.signer.address ∧
      storedAccount d.client.ledger (d.upcoming 0) = none
  · refine .inr ⟨hfirst.1, hfirst.2, ?_⟩
    by_cases hsecond : d.upcoming 1 ≠ d.upcoming 0 ∧
        storedAccount d.client.ledger (d.upcoming 1) = none
    · exact .inr ⟨hsecond.1, hsecond.2, rollout_completed h hcontract hconfig hfirst.1 hfirst.2
        hroom r (storedAccount_place_eq_none_iff.mpr hsecond)⟩
    · exact .inl ⟨hsecond, _, rollout_halted h hcontract hconfig hfirst.1 hfirst.2 hroom r
        (fun hfree => hsecond (storedAccount_place_eq_none_iff.mp hfree))⟩
  · exact .inl ⟨hfirst, _, rollout_refused hcontract hconfig (fun ho hfree => hfirst ⟨ho, hfree⟩) r⟩

theorem exists_rollout_iff (h : d.client.Reachable) (hcontract : d.contract = "terranova")
    (hconfig : Config.slot.load d.client.ledger = .ok config)
    (hroom : d.nonce.toNat + 2 < Word.bound 64) (r : Rollout) :
    (∃ addresses done, r.run d = (.ok addresses, done)) ↔
      config.IsOperator d.signer.address ∧ storedAccount d.client.ledger (d.upcoming 0) = none ∧
        storedAccount d.client.ledger (d.upcoming 1) = none ∧ d.upcoming 0 ≠ d.upcoming 1 := by
  rcases rollout_cases h hcontract hconfig hroom r with ⟨hnot, stop, hrun⟩ |
    ⟨hoperator, hfree, ⟨hnot, stop, hrun⟩ | ⟨hdiffer, hnext, hrun⟩⟩
  · rw [hrun]
    exact ⟨nofun, fun ⟨ho, hf, _⟩ => absurd ⟨ho, hf⟩ hnot⟩
  · rw [hrun]
    exact ⟨nofun, fun ⟨_, _, hn, hd⟩ => absurd ⟨hd.symm, hn⟩ hnot⟩
  · exact ⟨fun _ => ⟨hoperator, hfree, hnext, hdiffer.symm⟩, fun _ => ⟨_, _, hrun⟩⟩

/-- What a deployment that went through leaves: the chain has two more accounts, the deployer knows
them, and nobody deploys anything there again. -/
structure RolledOut (config : Config) (r : Rollout) (d done : Deployer Chain) : Prop where
  storage : done.client.Shows (d.upcoming 0) r.storage.code
  migrations : done.client.Shows (d.upcoming 1) r.migrations.code
  elsewhere : ∀ k, k ≠ (Account.slot (d.upcoming 0)).key → k ≠ (Account.slot (d.upcoming 1)).key →
    done.client.ledger.get? k = d.client.ledger.get? k
  counter : done.client.counter = d.client.counter
  wallets : done.client.wallets = d.client.wallets
  nonce : done.nonce.toNat = d.nonce.toNat + 2
  deployed : done.deployed = d.deployed ++
    [(r.storage.name, d.upcoming 0), (r.migrations.name, d.upcoming 1)]
  /-- Whatever happens in between, who starts at one of the addresses gets nowhere. -/
  once : ∀ (operations : List Operation) (again : Deployer Chain),
    again.client = after operations done.client → again.contract = "terranova" →
    again.upcoming 0 ∈ [d.upcoming 0, d.upcoming 1] →
    ∃ config, Config.slot.load again.client.ledger = .ok config ∧ ∀ r' : Rollout,
      r'.run again =
        (.error (.client (.ledger (if config.IsOperator again.signer.address
          then .accountExists (again.upcoming 0) else .unauthorized))), again)
  /-- Who starts elsewhere gets as far as before. -/
  resumed : ∀ again : Deployer Chain,
    again.client = done.client → again.contract = "terranova" →
    again.nonce.toNat + 2 < Word.bound 64 → ∀ r' : Rollout,
      ((∃ addresses last, r'.run again = (.ok addresses, last)) ↔
        config.IsOperator again.signer.address ∧
          (∀ address ∈ [again.upcoming 0, again.upcoming 1],
            address ∉ [d.upcoming 0, d.upcoming 1] ∧
              storedAccount d.client.ledger address = none) ∧
          again.upcoming 0 ≠ again.upcoming 1)

/-- Where an account is, no deployment starts any more. -/
theorem rollout_refused_after {chain : Chain} (h : chain.Reachable)
    {operations : List Operation} (hcontract : d.contract = "terranova")
    (hclient : d.client = after operations chain)
    (hkept : storedAccount chain.ledger (d.upcoming 0) ≠ none) :
    ∃ config, Config.slot.load d.client.ledger = .ok config ∧ ∀ r : Rollout,
      r.run d =
        (.error (.client (.ledger (if config.IsOperator d.signer.address
          then .accountExists (d.upcoming 0) else .unauthorized))), d) := by
  have hreach := h.after operations
  rw [← hclient] at hreach
  obtain ⟨config, hconfig⟩ := hreach.ledger.wellFormed.exists_config
  obtain ⟨a, hkept⟩ := Option.ne_none_iff_exists'.mp hkept
  obtain ⟨b, hstill, -⟩ := exists_code_run h.ledger hkept (ledgerMessages operations)
  rw [← ledger_after, ← hclient] at hstill
  refine ⟨config, hconfig, rollout_refused hcontract hconfig fun _ => ?_⟩
  rw [hstill]
  exact Option.some_ne_none b

/-- After both artifacts a deployment gets as far as before from any two other addresses. -/
theorem exists_rollout_iff_of_place {again : Deployer Chain} {chain : Chain}
    {first second : Address} {code code' : Bytes} (h : again.client.Reachable)
    (hclient : again.client = (chain.place first code).place second code')
    (hcontract : again.contract = "terranova") (hconfig : Config.slot.load chain.ledger = .ok config)
    (hroom : again.nonce.toNat + 2 < Word.bound 64) (r : Rollout) :
    (∃ addresses last, r.run again = (.ok addresses, last)) ↔
      config.IsOperator again.signer.address ∧
        (∀ address ∈ [again.upcoming 0, again.upcoming 1],
          address ∉ [first, second] ∧ storedAccount chain.ledger address = none) ∧
        again.upcoming 0 ≠ again.upcoming 1 := by
  have hload : Config.slot.load again.client.ledger = .ok config := by
    rw [hclient, load_config_place, load_config_place, hconfig]
  rw [exists_rollout_iff h hcontract hload hroom r, hclient,
    storedAccount_place_place_eq_none_iff, storedAccount_place_place_eq_none_iff,
    List.forall_mem_cons, List.forall_mem_singleton]
  simp only [and_assoc]

theorem rolledOut_advance (h : d.client.Reachable)
    (hconfig : Config.slot.load d.client.ledger = .ok config)
    (hoperator : config.IsOperator d.signer.address)
    (hfree : storedAccount d.client.ledger (d.upcoming 0) = none)
    (hdiffer : d.upcoming 1 ≠ d.upcoming 0)
    (hlast : storedAccount d.client.ledger (d.upcoming 1) = none)
    (hroom : d.nonce.toNat + 2 < Word.bound 64) (r : Rollout) :
    RolledOut config r d ((d.advance r.storage).advance r.migrations) := by
  have hnext : d.nonce.toNat + 1 < Word.bound 64 := by omega
  have hnonce : (d.advance r.storage).nonce.toNat = d.nonce.toNat + 1 := toNat_nonce_advance hnext
  have hsecond : (d.advance r.storage).upcoming 0 = d.upcoming 1 := upcoming_advance hnext 0
  have hstill : storedAccount (d.advance r.storage).client.ledger (d.upcoming 1) = none :=
    storedAccount_place_eq_none_iff.mpr ⟨hdiffer, hlast⟩
  have hreach : ((d.advance r.storage).advance r.migrations).client.Reachable :=
    reachable_advance (reachable_advance h hconfig hoperator hfree r.storage)
      (load_config_place.trans hconfig) hoperator (by rwa [hsecond]) r.migrations
  have hclient := client_advance_advance hnext r.storage r.migrations
  refine {
    storage := shows_of_storedAccount hreach ?_
    migrations := shows_of_storedAccount hreach ?_
    elsewhere := fun k hk hk' => by rw [hclient, get?_place hk', get?_place hk]
    counter := rfl
    wallets := rfl
    nonce := ?_
    deployed := ?_
    once := fun operations again hagain hcontract hmem =>
      rollout_refused_after hreach hcontract hagain fun hnone => ?_
    resumed := fun again hagain hcontract hroom r' =>
      exists_rollout_iff_of_place (hagain ▸ hreach) (hagain.trans hclient) hcontract hconfig
        hroom r' }
  · rw [hclient, storedAccount_place, if_neg hdiffer.symm, storedAccount_place, if_pos rfl]
  · rw [hclient, storedAccount_place, if_pos rfl]
  · rw [toNat_nonce_advance (by omega), hnonce]
  · rw [← hsecond]
    exact List.append_assoc ..
  · rw [hclient, storedAccount_place_place_eq_none_iff] at hnone
    exact hnone.1 hmem

/-- The first deployment goes through if an operator signs it and its two addresses are free and
differ, and then it is done for good. If it stops, nothing has changed, or there is the first
account and the deployer knows it. -/
theorem rollout_law (h : d.client.Reachable) (hcontract : d.contract = "terranova")
    (hroom : d.nonce.toNat + 2 < Word.bound 64) (r : Rollout) :
    ∃ config, Config.slot.load d.client.ledger = .ok config ∧
      ((∃ addresses done, r.run d = (.ok addresses, done)) ↔
        config.IsOperator d.signer.address ∧
          storedAccount d.client.ledger (d.upcoming 0) = none ∧
          storedAccount d.client.ledger (d.upcoming 1) = none ∧ d.upcoming 0 ≠ d.upcoming 1) ∧
      (∀ addresses done, r.run d = (.ok addresses, done) →
        addresses = [d.upcoming 0, d.upcoming 1] ∧ RolledOut config r d done) ∧
      ∀ stop left, r.run d = (.error stop, left) → left = d ∨ Begun r.storage d left := by
  obtain ⟨config, hconfig⟩ := h.ledger.wellFormed.exists_config
  refine ⟨config, hconfig, exists_rollout_iff h hcontract hconfig hroom r, ?_⟩
  rcases rollout_cases h hcontract hconfig hroom r with ⟨-, stop, hrun⟩ |
    ⟨hoperator, hfree, ⟨-, stop, hrun⟩ | ⟨hdiffer, hnext, hrun⟩⟩
  · rw [hrun]
    refine ⟨nofun, fun _ _ hleft => ?_⟩
    cases hleft
    exact .inl rfl
  · rw [hrun]
    refine ⟨nofun, fun _ _ hleft => ?_⟩
    cases hleft
    exact .inr ⟨hfree, rfl, toNat_nonce_advance (by omega), rfl⟩
  · rw [hrun]
    refine ⟨fun _ _ hdone => ?_, fun _ _ hleft => nomatch congrArg Prod.fst hleft⟩
    cases hdone
    exact ⟨rfl, rolledOut_advance h hconfig hoperator hfree hdiffer hnext hroom r⟩

/-- A deployer on the chain as it was set up. -/
def sampleDeployer : Deployer Chain where
  client := setUp
  signer := setUp.wallets.validator
  contract := "terranova"
  origin := Fixed.zero

/-- One artifact with code and one without. -/
def sampleRollout : Rollout := ⟨⟨"Storage", [96, 128]⟩, ⟨"Migrations", []⟩⟩

/-- The validator deploys both and cannot do so again from the same nonce. -/
theorem rollout_law_sample : sampleDeployer.client.Reachable ∧ ∃ done failure,
    sampleRollout.run sampleDeployer =
      (.ok [sampleDeployer.upcoming 0, sampleDeployer.upcoming 1], done) ∧
    done.client.Shows (sampleDeployer.upcoming 0) [96, 128] ∧
    done.client.Shows (sampleDeployer.upcoming 1) [] ∧
    sampleRollout.run { sampleDeployer with client := done.client } =
      (.error failure, { sampleDeployer with client := done.client }) := by
  obtain ⟨config, hconfig, hiff, hout, -⟩ :=
    rollout_law (d := sampleDeployer) .setUp rfl (by decide) sampleRollout
  obtain rfl := Except.ok.inj (hconfig.symm.trans load_startingConfig)
  obtain ⟨_, hrun⟩ := run_setUp
  obtain ⟨addresses, done, hdone⟩ := hiff.mpr ⟨isOperator_validator, storedAccount_setUp hrun _,
    storedAccount_setUp hrun _, by decide +kernel⟩
  obtain ⟨rfl, hrolled⟩ := hout addresses done hdone
  obtain ⟨config, -, hagain⟩ := hrolled.once [] { sampleDeployer with client := done.client }
    rfl rfl List.mem_cons_self
  exact ⟨.setUp, done, _, hdone, hrolled.storage, hrolled.migrations, hagain sampleRollout⟩

end Chain
end RelayLedger
