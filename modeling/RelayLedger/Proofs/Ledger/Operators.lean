/-
# Operators are addresses of the chain

Texts from outside come to be operators where a ledger is set up and where its owner adds them, and
both times each of them is checked; so at any time all operators are valid addresses
(`Reachable.valid_operators`). The notice of an update joins their texts by commas, and since a
valid address is not empty and holds no comma, it tells who they are, in order. A text that is no
address is refused among those to be added, and makes no difference among those to be removed,
because nobody there is called so.

Key definitions: `Ledger.OperatorsLaw`.
Key theorems: `Ledger.Reachable.valid_operators`, `Ledger.cutAtCommas_operators`,
`Ledger.updatedOperators_filter_valid`, `Ledger.operators_law`.
-/
import RelayLedger.Proofs.Ledger.Settings

namespace RelayLedger
namespace Ledger

variable {store after : Store} {config config' : Config} {sent : Envelope}
  {operators add remove : List ChainAddress}

/-! ### Operators are valid -/

theorem valid_of_updatedOperators {updated : List ChainAddress}
    (hvalid : ∀ who ∈ operators, who.Valid)
    (h : updatedOperators operators add remove = .ok updated) : ∀ who ∈ updated, who.Valid := by
  intro who hwho
  rcases (mem_updatedOperators h who).mp hwho with hadd | ⟨hold, -⟩
  · exact exists_addOperators_iff.mp ⟨updated, h⟩ who hadd
  · exact hvalid who hold

/-- One case for each way in which a message sets the settings. -/
theorem Message.Sets.valid_operators {m : Message} (h : m.Sets config config')
    (hvalid : ∀ who ∈ config.operators, who.Valid) : ∀ who ∈ config'.operators, who.Valid := by
  cases h with
  | kept _ => exact hvalid
  | named _ updated => exact valid_of_updatedOperators hvalid updated
  | changed => exact hvalid

/-- By induction on the messages so far: those who are named at the start are checked, and each
message leaves only such as were operators or have been checked. -/
theorem Reachable.valid_operators (h : Reachable store) :
    ∀ {config : Config}, Config.slot.load store = .ok config →
      ∀ who ∈ config.operators, who.Valid := by
  induction h with
  | setUp hrun =>
    intro config hload
    obtain ⟨operators, hchecked, -, -⟩ := run_instantiate_eq_ok hrun
    rw [load_setUp hrun] at hload
    rw [← Except.ok.inj hload]
    exact (validateAll_eq_ok_iff.mp hchecked).2
  | @deliver store m hstore ih =>
    intro config' hload'
    obtain ⟨config, hload⟩ := hstore.wellFormed.exists_config
    rcases deliver_cases hstore.wellFormed m with ⟨_, _, -, hrefused⟩ |
      ⟨response, after, hdone, haccepts⟩
    · rw [hrefused] at hload'
      exact ih hload'
    · rw [hdone] at hload'
      obtain ⟨config'', hload'', hsets⟩ := sets_of_accepts haccepts hload
      rw [hload''] at hload'
      rw [← Except.ok.inj hload']
      exact hsets.valid_operators (ih hload)

/-! ### The notice of an update -/

/-- Valid addresses are read back from their texts between commas. -/
theorem cutAtCommas_operators (hvalid : ∀ who ∈ operators, who.Valid) :
    (cutAtCommas (String.intercalate "," (operators.map (·.text)))).map ChainAddress.mk =
      operators := by
  have htexts : ∀ text ∈ operators.map (·.text), text ≠ "" ∧ ',' ∉ text.toList := by
    intro text htext
    obtain ⟨who, hwho, rfl⟩ := List.mem_map.mp htext
    exact ⟨(hvalid who hwho).text_ne_empty, (hvalid who hwho).comma_not_mem⟩
  rw [cutAtCommas_intercalate (fun text h => (htexts text h).1) fun text h => (htexts text h).2,
    List.map_map]
  exact List.map_id operators

/-- An update that goes through gives notice of the operators that it leaves. -/
theorem events_of_updateOperators {response : Response}
    (h : Accepts store (.command sent (.updateOperators add remove)) response after)
    (hload : Config.slot.load store = .ok config) :
    ∃ operators, updatedOperators config.operators add remove = .ok operators ∧
      Config.slot.load after = .ok { config with operators } ∧
      response.events = [(Notice.operatorsUpdated operators).toEvent] := by
  cases h with
  | @command _ _ config' _ _ _ configured _ performs =>
    obtain rfl : config' = config := Except.ok.inj (configured.symm.trans hload)
    cases performs with
    | updateOperators updated => exact ⟨_, updated, load_saveConfig _ store, rfl⟩

/-! ### Texts that are no addresses -/

/-- To remove what is no address is to remove nothing. -/
theorem updatedOperators_filter_valid (hvalid : ∀ who ∈ operators, who.Valid) :
    updatedOperators operators add (remove.filter (·.Valid)) =
      updatedOperators operators add remove := by
  have hfilter : operators.filter (· ∉ remove.filter (·.Valid)) =
      operators.filter (· ∉ remove) := by
    refine List.filter_congr fun who hwho => ?_
    simp [hvalid who hwho]
  rw [updatedOperators, hfilter, updatedOperators]

theorem perform_updateOperators_congr {remove' : List ChainAddress}
    (h : updatedOperators config.operators add remove =
      updatedOperators config.operators add remove') :
    perform config (.updateOperators add remove) =
      perform config (.updateOperators add remove') := by
  rw [perform, perform, h]

theorem run_updateOperators_error {fault : Fault}
    (h : updatedOperators config.operators add remove = .error fault) (store : Store) :
    (perform config (.updateOperators add remove)).run store =
      (.error (.ofFault fault), store) := by
  rw [perform, Action.run_bind_error (by rw [Action.run_read, h]; rfl)]

/-- An update that is to add what is no address is refused, whoever asks for it, and nothing is
written. -/
theorem run_updateOperators_of_not_valid (hload : Config.slot.load store = .ok config)
    (h : ∃ who ∈ add, ¬ who.Valid) :
    ∃ refusal, (execute sent (.updateOperators add remove)).run store =
      (.error refusal, store) := by
  rw [run_execute_eq hload]
  split
  · exact ⟨_, rfl⟩
  · split
    · cases hupdated : updatedOperators config.operators add remove with
      | error fault => exact ⟨_, run_updateOperators_error hupdated store⟩
      | ok updated =>
        obtain ⟨who, hwho, hnot⟩ := h
        exact absurd (exists_addOperators_iff.mp ⟨updated, hupdated⟩ who hwho) hnot
    · exact ⟨_, rfl⟩

/-! ### The law -/

/-- What holds of the operators of a ledger with these settings. -/
structure OperatorsLaw (config : Config) (store : Store) : Prop where
  valid : ∀ who ∈ config.operators, who.Valid
  /-- The notice of an update tells the operators that are kept from then on, in order. -/
  told : ∀ sent add remove response after,
    deliver (.command sent (.updateOperators add remove)) store = (.ok response, after) →
      ∃ operators text, Config.slot.load after = .ok { config with operators } ∧
        response.events = [⟨"_operators_updated", [("operators", text)]⟩] ∧
        (cutAtCommas text).map ChainAddress.mk = operators
  /-- What is no address cannot be added, and nothing else is done either. -/
  refused : ∀ sent add remove, (∃ who ∈ add, ¬ who.Valid) →
    ∃ refusal, (execute sent (.updateOperators add remove)).run store = (.error refusal, store)
  /-- The owner is told about the first that is no address. -/
  named : ∀ front who rest remove fault, (∀ a ∈ front, a.Valid) → who.validate = .error fault →
    (execute ⟨config.owner, []⟩ (.updateOperators (front ++ who :: rest) remove)).run store =
      (.error (.ofFault (.chainAddress fault)), store)
  /-- Whatever is to be removed, the owner may add any addresses. -/
  accepted : ∀ add remove, (∀ who ∈ add, who.Valid) → ∃ response after,
    deliver (.command ⟨config.owner, []⟩ (.updateOperators add remove)) store =
      (.ok response, after)
  /-- What is no address may be removed, and might as well be left out. -/
  harmless : ∀ sent add remove,
    deliver (.command sent (.updateOperators add (remove.filter (·.Valid)))) store =
      deliver (.command sent (.updateOperators add remove)) store

theorem operatorsLaw_of_load (h : Reachable store) (hload : Config.slot.load store = .ok config) :
    OperatorsLaw config store where
  valid := h.valid_operators hload
  told sent add remove response after hdeliver := by
    obtain ⟨operators, hupdated, hload', hevents⟩ :=
      events_of_updateOperators (accepts_of_deliver h.wellFormed hdeliver) hload
    have hvalid := valid_of_updatedOperators (h.valid_operators hload) hupdated
    exact ⟨operators, _, hload', hevents, cutAtCommas_operators hvalid⟩
  refused sent add remove hinvalid := run_updateOperators_of_not_valid hload hinvalid
  named front who rest remove fault hfront hwho := by
    have hallowed : (Command.updateOperators (front ++ who :: rest) remove).Allowed config
        config.owner := rfl
    rw [run_execute hload hallowed]
    exact run_updateOperators_error (addOperators_of_not_valid hwho rest hfront) store
  accepted add remove hadd := by
    obtain ⟨operators, hupdated⟩ : ∃ operators,
        updatedOperators config.operators add remove = .ok operators :=
      exists_addOperators_iff.mpr hadd
    obtain ⟨response, hdeliver⟩ := deliver_updateOperators hload hupdated
    exact ⟨response, _, hdeliver⟩
  harmless sent add remove := by
    have hupdated : updatedOperators config.operators add (remove.filter (·.Valid)) =
        updatedOperators config.operators add remove :=
      updatedOperators_filter_valid (h.valid_operators hload)
    rw [deliver, deliver, Action.commit, Action.commit, Message.action, Message.action,
      run_execute_eq hload, run_execute_eq hload, perform_updateOperators_congr hupdated]
    rfl

/-- **Operators.** At any time the operators of a ledger are valid addresses; so the notice of an
update tells exactly who they are, and texts that are no addresses are neither added nor of any
account when they are to be removed. -/
theorem operators_law (h : Reachable store) :
    ∃ config, Config.slot.load store = .ok config ∧ OperatorsLaw config store := by
  obtain ⟨config, hload⟩ := h.wellFormed.exists_config
  exact ⟨config, hload, operatorsLaw_of_load h hload⟩

theorem valid_sampleStranger : sampleStranger.Valid := by
  rw [ChainAddress.Valid]
  decide +kernel

/-- Two operators of whom the notice tells, and a text with a comma that is nobody's address. -/
theorem operators_law_sample : ∃ response text,
    deliver (.command ⟨sampleOwner, []⟩
        (.updateOperators [sampleOwner, sampleStranger] [⟨"a,b"⟩])) sampleSetUp =
      (.ok response,
        Config.slot.save { sampleConfig with operators := [sampleOwner, sampleStranger] }
          sampleSetUp) ∧
    response.events = [⟨"_operators_updated", [("operators", text)]⟩] ∧
    (cutAtCommas text).map ChainAddress.mk = [sampleOwner, sampleStranger] ∧
    ∃ refusal, (execute ⟨sampleOwner, []⟩ (.updateOperators [sampleOwner, ⟨"a,b"⟩] [])).run
      sampleSetUp = (.error refusal, sampleSetUp) := by
  have hstranger : sampleStranger ∉ [sampleOwner] := fun hmem =>
    not_isOperator_sampleStranger (.inl (List.mem_singleton.mp hmem))
  have hupdated : updatedOperators sampleConfig.operators [sampleOwner, sampleStranger]
      [⟨"a,b"⟩] = .ok [sampleOwner, sampleStranger] := by
    have hnobody : sampleConfig.operators = [] := rfl
    rw [hnobody, updatedOperators, List.filter_nil, addOperators_cons validate_sampleOwner,
      if_neg List.not_mem_nil, List.nil_append, addOperators_cons valid_sampleStranger,
      if_neg hstranger]
    rfl
  obtain ⟨response, hdeliver⟩ := deliver_updateOperators load_sampleSetUp hupdated
  obtain ⟨config, hload, hlaw⟩ := operators_law reachable_sampleSetUp
  obtain rfl : config = sampleConfig := Except.ok.inj (hload.symm.trans load_sampleSetUp)
  obtain ⟨operators, text, hload', hevents, htext⟩ := hlaw.told _ _ _ _ _ hdeliver
  rw [load_saveConfig] at hload'
  have hoperators := congrArg Config.operators (Except.ok.inj hload')
  refine ⟨response, text, hdeliver, hevents, htext.trans hoperators.symm,
    hlaw.refused _ _ _ ⟨⟨"a,b"⟩, by simp, ?_⟩⟩
  exact ChainAddress.not_valid_iff.mpr ⟨.notBech32, by decide +kernel⟩

end Ledger
end RelayLedger
