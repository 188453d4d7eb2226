/-
# Who may do what

A sender who is neither the owner nor an operator is turned away before anything is written. So one
whom the owner never lets in might as well not be there: without their messages the ledger ends up
the same and answers everybody else the same (`run_filter`). Who was an operator and was removed is
such a stranger from then on.

Key definitions: `Ledger.ShutsOut`, `Ledger.StemsFrom`, `Ledger.Authority`, `Ledger.NoTrace`.
Key theorems: `Ledger.shutsOut_of_not_isOperator`, `Ledger.stemsFrom_run`, `Ledger.run_filter`,
`Ledger.authority_law`.
-/
import RelayLedger.Proofs.Ledger.History
import RelayLedger.Proofs.Ledger.Settings

namespace RelayLedger
namespace Ledger

open RelayLedger.Action

variable {store start : Store} {config : Config} {who : ChainAddress}

/-! ### Being turned away -/

/-- Whatever the sender asks for is refused, and nothing is written. -/
def ShutsOut (who : ChainAddress) (store : Store) : Prop :=
  ∀ funds c, (execute ⟨who, funds⟩ c).run store =
    (.error (if funds ≠ [] then .notPayable else .unauthorized), store)

theorem shutsOut_of_not_isOperator (hconfig : Config.slot.load store = .ok config)
    (hwho : ¬ config.IsOperator who) : ShutsOut who store := fun _ _ =>
  run_execute_of_not hconfig (.inr fun hallowed => hwho hallowed.isOperator)

/-- Whoever is not turned away may ask for the command. -/
theorem allowed_of_run (hconfig : Config.slot.load store = .ok config) {sent : Envelope}
    {c : Command} {response : Response}
    (hrun : ((execute sent c).run store).1 = .ok response) : c.Allowed config sent.sender := by
  by_contra hnot
  rw [run_execute_of_not hconfig (.inr hnot)] at hrun
  cases hrun

/-! ### Who comes to be an operator -/

/-- The owner added somebody to the operators. -/
def Log.Adds (owner who : ChainAddress) (log : Log) : Prop :=
  ∃ sent add remove response, (.command sent (.updateOperators add remove), .ok response) ∈ log ∧
    sent.sender = owner ∧ who ∈ add

theorem Log.Adds.concat {owner : ChainAddress} {log : Log} (h : log.Adds owner who)
    (entry : Message × Except Refusal Response) : Adds owner who (log ++ [entry]) := by
  obtain ⟨sent, add, remove, response, hmem, hadd⟩ := h
  exact ⟨sent, add, remove, response, List.mem_append_left _ hmem, hadd⟩

/-- The settings have the owner that they had before the log, and who is an operator was one or was
added by the owner. -/
def StemsFrom (config : Config) (log : Log) (store : Store) : Prop :=
  ∃ config', Config.slot.load store = .ok config' ∧ config'.owner = config.owner ∧
    ∀ who ∈ config'.operators, who ∈ config.operators ∨ log.Adds config.owner who

theorem stemsFrom_run (h : Reachable start) (hconfig : Config.slot.load start = .ok config)
    (messages : List Message) : StemsFrom config (log messages start) (run messages start).2 := by
  refine run_induction (P := StemsFrom config) h ?_ ?_ ?_ messages
  · exact ⟨config, hconfig, rfl, fun _ => .inl⟩
  · rintro log store m refusal ⟨config', hload, howner, hmem⟩
    exact ⟨config', hload, howner, fun who hwho => (hmem who hwho).imp id fun hadds =>
      hadds.concat _⟩
  · rintro log store m response after - haccepts ⟨config', hload, howner, hmem⟩
    obtain ⟨config'', hload', hsets⟩ := sets_of_accepts haccepts hload
    refine ⟨config'', hload', hsets.owner_eq.trans howner, fun who hwho => ?_⟩
    -- who is new was added by this very message, which the log now ends with
    rcases hsets.mem_operators hwho with hold | ⟨sent, add, remove, rfl, howned, hadd⟩
    · exact (hmem who hold).imp id fun hadds => hadds.concat _
    · exact .inr ⟨sent, add, remove, response, by simp, howned.trans howner, hadd⟩

/-- Who is neither owner nor operator stays out as long as the owner does not add them. -/
theorem shutsOut_run (h : Reachable start) (hconfig : Config.slot.load start = .ok config)
    (hwho : ¬ config.IsOperator who) {messages : List Message}
    (hadds : ¬ (log messages start).Adds config.owner who) :
    ShutsOut who (run messages start).2 := by
  obtain ⟨config', hload, howner, hmem⟩ := stemsFrom_run h hconfig messages
  refine shutsOut_of_not_isOperator hload ?_
  rintro (hisOwner | hlisted)
  · exact hwho (.inl (hisOwner.trans howner))
  · rcases hmem who hlisted with hold | hadded
    · exact hwho (.inr hold)
    · exact hadds hadded

/-- What was not asked for was not done. -/
theorem not_adds_of_messages {owner : ChainAddress} {messages : List Message}
    (h : ∀ funds add remove,
      .command ⟨owner, funds⟩ (.updateOperators add remove) ∈ messages → who ∉ add)
    (store : Store) : ¬ (log messages store).Adds owner who := by
  rintro ⟨⟨sender, funds⟩, add, remove, response, hmem, rfl, hadd⟩
  exact h funds add remove (List.of_mem_zip hmem).1 hadd

/-! ### Runs without a sender -/

/-- Whether a message is a command of this sender. -/
def Message.isFrom (who : ChainAddress) : Message → Bool
  | .command sent _ => sent.sender = who
  | .change _ => false

theorem deliver_of_shutsOut (h : ShutsOut who store) {m : Message} (hm : m.isFrom who = true) :
    (deliver m store).2 = store := by
  cases m with
  | command sent c =>
    obtain ⟨sender, funds⟩ := sent
    have hsender : sender = who := of_decide_eq_true hm
    subst hsender
    rw [deliver, commit, Message.action, h funds c]
  | change c => cases hm

/-- Leaving out the messages of a sender who is shut out all the time makes no difference. -/
theorem run_filter {messages : List Message}
    (h : ∀ before rest, messages = before ++ rest → ShutsOut who (run before start).2) :
    (run (messages.filter (!·.isFrom who)) start).2 = (run messages start).2 ∧
      log (messages.filter (!·.isFrom who)) start =
        (log messages start).filter (!·.1.isFrom who) := by
  induction messages using List.reverseRecOn with
  | nil => exact ⟨rfl, rfl⟩
  | append_singleton messages m ih =>
    obtain ⟨hstore, hlog⟩ := ih fun before rest e =>
      h before (rest ++ [m]) (by rw [e, List.append_assoc])
    have hshut := h messages [m] rfl
    rw [List.filter_append, run_concat, log_concat, List.filter_append, ← hlog]
    -- the last message is refused, or it meets the same store with and without those before it
    by_cases hm : m.isFrom who = true
    · have hnone : [m].filter (!·.isFrom who) = [] := by simp [hm]
      rw [hnone, List.append_nil, hstore, deliver_of_shutsOut hshut hm]
      simp [hm]
    · have hkept : [m].filter (!·.isFrom who) = [m] := by simp [hm]
      rw [hkept, run_concat, log_concat, hstore]
      simp [hm]

/-! ### The law -/

/-- What a ledger with these settings does for whom. -/
structure Authority (config : Config) (store : Store) : Prop where
  /-- No coins are taken. -/
  unpaid : ∀ sent c, sent.funds ≠ [] → (execute sent c).run store = (.error .notPayable, store)
  airdrop : ∀ sent address amount response,
    ((execute sent (.airdrop address amount)).run store).1 = .ok response →
      sent.sender = config.owner
  updateOperators : ∀ sent add remove response,
    ((execute sent (.updateOperators add remove)).run store).1 = .ok response →
      sent.sender = config.owner
  entrusted : ∀ sent c response, ((execute sent c).run store).1 = .ok response →
    sent.sender = config.owner ∨ sent.sender ∈ config.operators
  /-- Who was removed is turned away until the owner adds them again. -/
  removed : ∀ sent add remove response after,
    deliver (.command sent (.updateOperators add remove)) store = (.ok response, after) →
      ∀ who ∈ remove, who ∉ add → who ≠ config.owner →
        ∀ later, ¬ (log later after).Adds config.owner who → ShutsOut who (run later after).2
  added : ∀ sent add remove response after,
    deliver (.command sent (.updateOperators add remove)) store = (.ok response, after) →
      ∀ who ∈ add, ∃ config', Config.slot.load after = .ok config' ∧ config'.IsOperator who

/-- A sender who is turned away all the time leaves nothing behind. -/
structure NoTrace (start : Store) (messages : List Message) (who : ChainAddress) : Prop where
  shutOut : ∀ before rest, messages = before ++ rest → ShutsOut who (run before start).2
  store : (run (messages.filter (!·.isFrom who)) start).2 = (run messages start).2
  outcomes : log (messages.filter (!·.isFrom who)) start =
    (log messages start).filter (!·.1.isFrom who)

theorem authority_of_load (h : Reachable store) (hconfig : Config.slot.load store = .ok config) :
    Authority config store where
  unpaid sent c hfunds := by
    rw [run_execute_of_not hconfig (.inl hfunds), if_pos hfunds]
  airdrop sent address amount response hrun := allowed_of_run hconfig hrun
  updateOperators sent add remove response hrun := allowed_of_run hconfig hrun
  entrusted sent c response hrun := (allowed_of_run hconfig hrun).isOperator
  removed sent add remove response after hdeliver who hremove hadd howner later hadds := by
    have hafter : Reachable after := by
      have hreach := Reachable.deliver (.command sent (.updateOperators add remove)) h
      rw [hdeliver] at hreach
      exact hreach
    obtain ⟨config', hload, hsets⟩ :=
      sets_of_accepts (accepts_of_deliver h.wellFormed hdeliver) hconfig
    have hwho : ¬ config'.IsOperator who := by
      rintro (hisOwner | hmem)
      · exact howner (hisOwner.trans hsets.owner_eq)
      · exact hsets.not_mem_of_remove hremove hadd hmem
    rw [← hsets.owner_eq] at hadds
    exact shutsOut_run hafter hload hwho hadds
  added sent add remove response after hdeliver who hadd := by
    obtain ⟨config', hload, hsets⟩ :=
      sets_of_accepts (accepts_of_deliver h.wellFormed hdeliver) hconfig
    exact ⟨config', hload, .inr (hsets.mem_of_add hadd)⟩

/-- At any time after a ledger was set up, who is let in is up to the one who set it up; somebody
who was not named at the start and whom the owner never adds leaves no trace. -/
theorem authority_law {envelope : Envelope} {setup : Setup} {response : Response}
    (h : (instantiate envelope setup).run ∅ = (.ok response, start)) (messages : List Message) :
    (∃ config, Config.slot.load (run messages start).2 = .ok config ∧
      config.owner = envelope.sender ∧ Authority config (run messages start).2) ∧
    ∀ who, who ≠ envelope.sender → who ∉ setup.operators →
      (∀ funds add remove,
        .command ⟨envelope.sender, funds⟩ (.updateOperators add remove) ∈ messages → who ∉ add) →
      NoTrace start messages who := by
  have hstart := Reachable.setUp h
  have hconfig := load_setUp h
  refine ⟨?_, fun who howner hlisted hadd => ?_⟩
  · obtain ⟨config, hload, hsame, -⟩ := stemsFrom_run hstart hconfig messages
    exact ⟨config, hload, hsame, authority_of_load (hstart.run messages) hload⟩
  · have hshut : ∀ before rest, messages = before ++ rest →
        ShutsOut who (run before start).2 := by
      rintro before rest rfl
      have hnever : ¬ (log before start).Adds envelope.sender who :=
        not_adds_of_messages (fun funds add remove hmem =>
          hadd funds add remove (List.mem_append_left rest hmem)) start
      refine shutsOut_run hstart hconfig ?_ hnever
      rintro (hisOwner | hmem)
      · exact howner hisOwner
      · exact hlisted hmem
    obtain ⟨hstore, houtcomes⟩ := run_filter hshut
    exact ⟨hshut, hstore, houtcomes⟩

/-- A message by which a stranger tries to store a chunk on the sample ledger. -/
def sampleIntrusion : Message :=
  .command ⟨sampleStranger, []⟩ (.storeChunk Fixed.zero Fixed.zero 0 [1])

theorem authority_law_sample : ∃ response,
    (instantiate ⟨sampleOwner, []⟩ ⟨[], none, Transaction.sample.chainId⟩).run ∅ =
      (.ok response, sampleSetUp) ∧
    (run [sampleIntrusion, sampleAirdrop] sampleSetUp).2 =
      (run [sampleAirdrop] sampleSetUp).2 := by
  obtain ⟨response, hrun⟩ := run_sampleSetUp
  have hstranger : sampleStranger ≠ sampleOwner :=
    fun e => not_isOperator_sampleStranger (.inl e)
  have hnever : ∀ funds add remove, .command ⟨sampleOwner, funds⟩ (.updateOperators add remove) ∈
      [sampleIntrusion, sampleAirdrop] → sampleStranger ∉ add := by
    intro funds add remove hmem
    simp [sampleIntrusion, sampleAirdrop] at hmem
  have htrace := (authority_law hrun [sampleIntrusion, sampleAirdrop]).2 sampleStranger
    hstranger List.not_mem_nil hnever
  have hfilter : [sampleIntrusion, sampleAirdrop].filter (!·.isFrom sampleStranger) =
      [sampleAirdrop] := by
    simp [sampleIntrusion, sampleAirdrop, Message.isFrom, hstranger.symm]
  have hstore := htrace.store
  rw [hfilter] at hstore
  exact ⟨response, hrun, hstore.symm⟩

/-- An owner who was an operator besides is let in even when removed from the operators. -/
theorem removed_owner_allowed : ∃ response start,
    (instantiate ⟨sampleOwner, []⟩ ⟨[sampleOwner], none, Transaction.sample.chainId⟩).run ∅ =
      (.ok response, start) ∧
    ∃ updated after,
      deliver (.command ⟨sampleOwner, []⟩ (.updateOperators [] [sampleOwner])) start =
        (.ok updated, after) ∧
      ∃ stored, ((execute ⟨sampleOwner, []⟩ (.storeChunk Fixed.zero Fixed.zero 0 [1])).run after).1 =
        .ok stored := by
  have hvalid : validateAll (Setup.mk [sampleOwner] none Transaction.sample.chainId).operators =
      .ok [sampleOwner] := by
    rw [validateAll, validate_sampleOwner]
    rfl
  obtain ⟨response, start, hrun⟩ := run_instantiate hvalid ⟨sampleOwner, []⟩ ∅
  have hconfig : Config.slot.load start =
      .ok { sampleConfig with operators := [sampleOwner] } := by
    rw [load_setUp hrun]
    rfl
  have hupdated : updatedOperators [sampleOwner] [] [sampleOwner] = .ok [] := by
    simp [updatedOperators, addOperators]
  have hdeliver : ∃ updated,
      deliver (.command ⟨sampleOwner, []⟩ (.updateOperators [] [sampleOwner])) start =
        (.ok updated, Config.slot.save sampleConfig start) :=
    deliver_updateOperators hconfig hupdated
  obtain ⟨updated, hdeliver⟩ := hdeliver
  refine ⟨response, start, hrun, updated, _, hdeliver, ?_⟩
  have hallowed : (Command.storeChunk Fixed.zero Fixed.zero 0 [1]).Allowed sampleConfig
      sampleOwner := .inl rfl
  rw [run_execute (load_saveConfig sampleConfig start) hallowed]
  exact ⟨_, rfl⟩

end Ledger
end RelayLedger
