/-
# The history of a ledger's settings

The settings of a ledger are those that it was set up with, as far as no later message that went
through named others: the owner never changes, the chain id and the token mint are those that were
named last, and the operators come from the first list by all its updates in order. An update drops
those to be removed and then appends, each once, those who are new (`updatedOperators_eq`); made
twice it gives the same operators, though perhaps in another order.

Key definitions: `Ledger.operatorsAfter`, `Ledger.Log.changes`, `Ledger.Log.settings`,
`Ledger.SettingsLaw`.
Key theorems: `Ledger.updatedOperators_eq`, `Ledger.operatorsAfter_again`, `Ledger.load_run`,
`Ledger.settings_law`.
-/
import RelayLedger.Proofs.Ledger.History
import RelayLedger.Proofs.Ledger.Settings

namespace RelayLedger
namespace Ledger

variable {store start after : Store} {config : Config} {who : ChainAddress}
  {operators add remove : List ChainAddress}

/-! ### Lists of operators -/

/-- Those to be added who are not there yet, each once and in the order in which they come first. -/
def newcomers (operators add : List ChainAddress) : List ChainAddress :=
  (add.filter (· ∉ operators)).eraseDups

/-- The operators after an update: those not removed, in their order, and then the newcomers. -/
def operatorsAfter (operators add remove : List ChainAddress) : List ChainAddress :=
  operators.filter (· ∉ remove) ++ newcomers (operators.filter (· ∉ remove)) add

theorem mem_newcomers : who ∈ newcomers operators add ↔ who ∈ add ∧ who ∉ operators := by
  simp [newcomers]

theorem nodup_eraseDups {α : Type} [BEq α] [LawfulBEq α] : ∀ l : List α, l.eraseDups.Nodup
  | [] => .nil
  | a :: rest => by
    have hfewer : (rest.filter fun b => !b == a).length ≤ rest.length :=
      List.length_filter_le _ _
    rw [List.eraseDups_cons, List.nodup_cons]
    exact ⟨by simp, nodup_eraseDups _⟩
termination_by l => l.length

theorem nodup_newcomers (operators add : List ChainAddress) : (newcomers operators add).Nodup :=
  nodup_eraseDups _

theorem newcomers_cons_of_mem (h : who ∈ operators) :
    newcomers operators (who :: add) = newcomers operators add := by
  rw [newcomers, List.filter_cons_of_neg (by simpa using h), ← newcomers]

theorem newcomers_cons_of_not_mem (h : who ∉ operators) :
    newcomers operators (who :: add) = who :: newcomers (operators ++ [who]) add := by
  have hfilter : (add.filter (· ∉ operators)).filter (fun b => !b == who) =
      add.filter (· ∉ operators ++ [who]) := by
    rw [List.filter_filter]
    refine List.filter_congr fun b _ => ?_
    simp [Bool.beq_eq_decide_eq, Bool.and_comm]
  rw [newcomers, List.filter_cons_of_pos (by simpa using h), List.eraseDups_cons, hfilter,
    ← newcomers]

theorem addOperators_eq : ∀ {add operators updated : List ChainAddress},
    addOperators operators add = .ok updated → updated = operators ++ newcomers operators add
  | [], operators, updated, h => by
    rw [← Except.ok.inj h]
    exact (List.append_nil operators).symm
  | a :: rest, operators, updated, h => by
    obtain ⟨-, h⟩ := addOperators_cons_eq_ok_iff.mp h
    have ih := addOperators_eq h
    by_cases hmem : a ∈ operators
    · rw [if_pos hmem] at ih
      rw [ih, newcomers_cons_of_mem hmem]
    · rw [if_neg hmem, List.append_assoc, List.singleton_append] at ih
      rw [ih, newcomers_cons_of_not_mem hmem]

/-- An update that is accepted gives just these operators. -/
theorem updatedOperators_eq {updated : List ChainAddress}
    (h : updatedOperators operators add remove = .ok updated) :
    updated = operatorsAfter operators add remove := addOperators_eq h

/-- Whether an update is accepted does not depend on who is an operator. -/
theorem exists_addOperators {updated : List ChainAddress}
    (h : addOperators operators add = .ok updated) (others : List ChainAddress) :
    ∃ updated', addOperators others add = .ok updated' :=
  exists_addOperators_iff.mpr (exists_addOperators_iff.mp ⟨updated, h⟩)

theorem mem_operatorsAfter :
    who ∈ operatorsAfter operators add remove ↔ who ∈ add ∨ who ∈ operators ∧ who ∉ remove := by
  have hkept : who ∈ operators.filter (· ∉ remove) ↔ who ∈ operators ∧ who ∉ remove := by
    simp
  rw [operatorsAfter, List.mem_append, mem_newcomers, hkept]
  by_cases hstays : who ∈ operators ∧ who ∉ remove
  · simp [hstays]
  · simp [hstays]

theorem nodup_append_newcomers (h : operators.Nodup) :
    (operators ++ newcomers operators add).Nodup := by
  refine List.nodup_append.mpr ⟨h, nodup_newcomers operators add, ?_⟩
  rintro a ha b hb rfl
  exact (mem_newcomers.mp hb).2 ha

theorem nodup_operatorsAfter (h : operators.Nodup) :
    (operatorsAfter operators add remove).Nodup :=
  nodup_append_newcomers (h.filter _)

/-- An update that is made again only changes the order: who was removed and added at once goes to
the end. -/
theorem operatorsAfter_again (operators add remove : List ChainAddress) :
    (operatorsAfter (operatorsAfter operators add remove) add remove).Perm
      (operatorsAfter operators add remove) := by
  generalize hkept : operators.filter (· ∉ remove) = kept
  have hfilter : kept.filter (· ∉ remove) = kept := by
    rw [← hkept, List.filter_filter]
    simp
  -- the first update appends `fresh`; of these the second one first drops some
  generalize hfresh : newcomers kept add = fresh
  have hfirst : operatorsAfter operators add remove = kept ++ fresh := by
    rw [operatorsAfter, hkept, hfresh]
  have hsecond : operatorsAfter (kept ++ fresh) add remove =
      kept ++ (fresh.filter (· ∉ remove) ++
        newcomers (kept ++ fresh.filter (· ∉ remove)) add) := by
    rw [operatorsAfter, List.filter_append, hfilter, List.append_assoc]
  rw [hfirst, hsecond]
  refine List.Perm.append_left kept ?_
  have hnodup : fresh.Nodup := hfresh ▸ nodup_newcomers kept add
  have hnodup' : (fresh.filter (· ∉ remove) ++
      newcomers (kept ++ fresh.filter (· ∉ remove)) add).Nodup := by
    refine List.nodup_append.mpr ⟨hnodup.filter _, nodup_newcomers _ _, ?_⟩
    rintro a ha b hb rfl
    exact (mem_newcomers.mp hb).2 (List.mem_append_right _ ha)
  refine (List.perm_ext_iff_of_nodup hnodup' hnodup).mpr fun who => ?_
  rw [List.mem_append, mem_newcomers, ← hfresh]
  constructor
  · rintro (hstays | ⟨hadd, hnew⟩)
    · exact (List.mem_filter.mp hstays).1
    · exact mem_newcomers.mpr ⟨hadd, fun hmem => hnew (List.mem_append_left _ hmem)⟩
  · intro hmem
    obtain ⟨hadd, hnew⟩ := mem_newcomers.mp hmem
    by_cases hstays : who ∈ (newcomers kept add).filter (· ∉ remove)
    · exact .inl hstays
    · refine .inr ⟨hadd, fun happ => ?_⟩
      exact (List.mem_append.mp happ).elim hnew hstays

/-! ### What a log tells of the settings -/

/-- The operators that a command that is carried out leaves. -/
def Command.operatorsAfter (operators : List ChainAddress) : Command → List ChainAddress
  | .updateOperators add remove => Ledger.operatorsAfter operators add remove
  | _ => operators

theorem Command.operatorsAfter_of_apart {c : Command}
    (h : ∀ add remove, c ≠ .updateOperators add remove) : c.operatorsAfter operators = operators := by
  cases c with
  | updateOperators add remove => exact absurd rfl (h add remove)
  | _ => rfl

namespace Log

/-- The changes of the contract that went through. -/
def changes (log : Log) : List Change :=
  log.filterMap fun
    | (.change c, .ok _) => some c
    | _ => none

theorem changes_concat_command (log : Log) (envelope : Envelope) (command : Command)
    (response : Response) :
    changes (log ++ [(.command envelope command, .ok response)]) = log.changes := by
  simp [changes]

theorem changes_concat_change (log : Log) (c : Change) (response : Response) :
    changes (log ++ [(.change c, .ok response)]) = log.changes ++ [c] := by
  simp [changes]

theorem changes_concat_error (log : Log) (m : Message) (refusal : Refusal) :
    changes (log ++ [(m, .error refusal)]) = log.changes := by
  simp [changes]

/-- The settings of a ledger by how it was set up and what has gone through since. -/
def settings (owner : ChainAddress) (setup : Setup) (log : Log) : Config where
  owner := owner
  operators := log.commands.foldl Command.operatorsAfter setup.operators
  tokenMint := (log.changes.filterMap Change.tokenMint).getLast?.getD
    (setup.tokenMint.getD defaultTokenMint)
  chainId := (log.changes.filterMap Change.chainId).getLast?.getD
    (setup.chainId.getD defaultChainId)

variable {owner : ChainAddress} {setup : Setup} {log : Log}

theorem settings_concat_error (m : Message) (refusal : Refusal) :
    settings owner setup (log ++ [(m, .error refusal)]) = log.settings owner setup := by
  rw [settings, commands_concat_error, changes_concat_error, ← settings]

theorem settings_concat_command (envelope : Envelope) (command : Command) (response : Response) :
    settings owner setup (log ++ [(.command envelope command, .ok response)]) =
      { log.settings owner setup with
        operators := command.operatorsAfter (log.settings owner setup).operators } := by
  rw [settings, commands_concat_command, changes_concat_command, List.foldl_append]
  rfl

/-- What is named last counts, if anything is. -/
theorem getLast?_concat_getD {α : Type} (f : Change → Option α) (changes : List Change) (c : Change)
    (a : α) :
    ((changes ++ [c]).filterMap f).getLast?.getD a =
      (f c).getD ((changes.filterMap f).getLast?.getD a) := by
  rw [List.filterMap_append, List.filterMap_cons, List.filterMap_nil]
  cases f c <;> simp

theorem settings_concat_change (c : Change) (response : Response) :
    settings owner setup (log ++ [(.change c, .ok response)]) =
      { log.settings owner setup with
        tokenMint := c.tokenMint.getD (log.settings owner setup).tokenMint
        chainId := c.chainId.getD (log.settings owner setup).chainId } := by
  rw [settings, commands_concat_change, changes_concat_change, getLast?_concat_getD,
    getLast?_concat_getD]
  rfl

end Log

/-- A message that goes through sets what the log tells of it. -/
theorem Message.Sets.settings_concat {m : Message} {config' : Config} {owner : ChainAddress}
    {setup : Setup} {log : Log} (h : m.Sets (log.settings owner setup) config')
    (response : Response) :
    config' = Log.settings owner setup (log ++ [(m, .ok response)]) := by
  cases h with
  | kept apart => rw [Log.settings_concat_command, Command.operatorsAfter_of_apart apart]
  | named _ updated =>
    rw [Log.settings_concat_command, updatedOperators_eq updated]
    rfl
  | changed => rw [Log.settings_concat_change]

/-- The messages that went through settle the settings. -/
theorem load_run {envelope : Envelope} {setup : Setup} {response : Response}
    (h : (instantiate envelope setup).run ∅ = (.ok response, start)) (messages : List Message) :
    Config.slot.load (run messages start).2 =
      .ok ((log messages start).settings envelope.sender setup) := by
  refine run_induction (P := fun log store =>
    Config.slot.load store = .ok (log.settings envelope.sender setup))
    (.setUp h) (load_setUp h) ?_ ?_ messages
  · intro log store m refusal hload
    rw [Log.settings_concat_error]
    exact hload
  · intro log store m response after _ haccepts hload
    obtain ⟨config', hload', hsets⟩ := sets_of_accepts haccepts hload
    rw [hload', hsets.settings_concat response]

/-! ### The law -/

/-- The settings are kept as their text. -/
theorem WellFormed.get?_config (h : WellFormed store) (hload : Config.slot.load store = .ok config) :
    store.get? Config.slot.key = some (Json.encode config) := by
  obtain ⟨s, hs⟩ := Option.isSome_iff_exists.mp h.config
  obtain ⟨config', rfl⟩ := h.tidy.fits .config hs
  have hsame : config' = config :=
    Except.ok.inj ((Slot.load_of_get?_eq_some hs).symm.trans hload)
  rw [← hsame]
  exact hs

/-- What an update that went through has made of the settings. -/
structure OperatorsUpdate (config : Config) (add remove : List ChainAddress) (sent : Envelope)
    (after : Store) : Prop where
  settings : Config.slot.load after =
    .ok { config with operators := operatorsAfter config.operators add remove }
  members : ∀ who, who ∈ operatorsAfter config.operators add remove ↔
    who ∈ add ∨ who ∈ config.operators ∧ who ∉ remove
  nodup : config.operators.Nodup → (operatorsAfter config.operators add remove).Nodup
  /-- Made again, the update goes through again and only changes the order. -/
  again : ∃ response last operators,
    deliver (.command sent (.updateOperators add remove)) after = (.ok response, last) ∧
    Config.slot.load last = .ok { config with operators := operators } ∧
    operators.Perm (operatorsAfter config.operators add remove)

theorem operatorsUpdate_of_deliver (h : WellFormed store)
    (hload : Config.slot.load store = .ok config) {sent : Envelope} {response : Response}
    (hdeliver : deliver (.command sent (.updateOperators add remove)) store =
      (.ok response, after)) : OperatorsUpdate config add remove sent after := by
  obtain ⟨sender, funds⟩ := sent
  cases accepts_of_deliver h hdeliver with
  | @command _ _ config' _ _ unpaid configured allowed performs =>
    cases performs with
    | updateOperators updated =>
      obtain rfl : config' = config := Except.ok.inj (configured.symm.trans hload)
      obtain rfl : funds = [] := unpaid
      obtain rfl : sender = config'.owner := allowed
      obtain ⟨operators', hagain⟩ :
          ∃ operators', updatedOperators (operatorsAfter config'.operators add remove) add remove =
            .ok operators' := exists_addOperators updated _
      rw [updatedOperators_eq updated]
      obtain ⟨response', hdeliver'⟩ := deliver_updateOperators
        (load_saveConfig { config' with
          operators := operatorsAfter config'.operators add remove } store) hagain
      refine ⟨load_saveConfig _ store, fun who => mem_operatorsAfter, nodup_operatorsAfter,
        response', _, operators', hdeliver', load_saveConfig _ _, ?_⟩
      rw [updatedOperators_eq hagain]
      exact operatorsAfter_again config'.operators add remove

/-- What the history of a ledger tells of its settings. -/
structure SettingsLaw (config : Config) (store : Store) : Prop where
  settings : Config.slot.load store = .ok config
  told : answer .config store = .ok (Json.encode config)
  updated : ∀ sent add remove response after,
    deliver (.command sent (.updateOperators add remove)) store = (.ok response, after) →
      OperatorsUpdate config add remove sent after
  /-- All other commands leave the settings byte for byte as they were. -/
  apart : ∀ sent c, (∀ add remove, c ≠ .updateOperators add remove) →
    (deliver (.command sent c) store).2.get? Config.slot.key = store.get? Config.slot.key

theorem settingsLaw_of_load (h : Reachable store) (hload : Config.slot.load store = .ok config) :
    SettingsLaw config store where
  settings := hload
  told := by
    rw [answer, hload]
    rfl
  updated _ _ _ _ _ hdeliver := operatorsUpdate_of_deliver h.wellFormed hload hdeliver
  apart sent c hc := by
    rcases deliver_cases h.wellFormed (.command sent c) with ⟨_, _, -, hdeliver⟩ |
      ⟨_, after, hdeliver, haccepts⟩
    · rw [hdeliver]
    · have hafter := (Reachable.deliver (.command sent c) h).wellFormed
      rw [hdeliver] at hafter ⊢
      cases haccepts with
      | command _ configured _ performs =>
        have hload' := (load_config_performs performs hc).trans configured
        rw [hafter.get?_config hload', h.wellFormed.get?_config configured]

/-- At any time after a ledger was set up, its settings are those that its log tells. -/
theorem settings_law {envelope : Envelope} {setup : Setup} {response : Response}
    (h : (instantiate envelope setup).run ∅ = (.ok response, start)) (messages : List Message) :
    SettingsLaw ((log messages start).settings envelope.sender setup) (run messages start).2 :=
  settingsLaw_of_load ((Reachable.setUp h).run messages) (load_run h messages)

/-- The owner of the sample ledger removes and adds themselves at once, and then the contract is
replaced and names another chain id. -/
def sampleChanges : List Message :=
  [.command ⟨sampleOwner, []⟩ (.updateOperators [sampleOwner] [sampleOwner]),
   .change ⟨none, some 0⟩]

theorem settings_sampleChanges :
    (log sampleChanges sampleSetUp).settings sampleOwner ⟨[], none, Transaction.sample.chainId⟩ =
      { sampleConfig with operators := [sampleOwner], chainId := 0 } := by
  have hvalid : sampleOwner.validate.mapError Fault.chainAddress = .ok sampleOwner :=
    mapError_eq_ok_iff.mpr validate_sampleOwner
  have hupdated : updatedOperators [] [sampleOwner] [sampleOwner] = .ok [sampleOwner] := by
    rw [updatedOperators, List.filter_nil, addOperators, hvalid]
    rfl
  obtain ⟨response, hupdate⟩ : ∃ response,
      deliver (.command ⟨sampleOwner, []⟩ (.updateOperators [sampleOwner] [sampleOwner]))
        sampleSetUp = (.ok response,
          Config.slot.save { sampleConfig with operators := [sampleOwner] } sampleSetUp) :=
    deliver_updateOperators load_sampleSetUp hupdated
  have hchange := deliver_change
    (load_saveConfig { sampleConfig with operators := [sampleOwner] } sampleSetUp) ⟨none, some 0⟩
  have houtcomes : (run sampleChanges sampleSetUp).1 =
      [.ok response, .ok { attributes := [("migrated", "true")] }] := by
    rw [sampleChanges, run_cons hupdate, run_cons hchange, run]
  rw [log, houtcomes]
  simp [sampleChanges, Log.settings, Log.commands, Log.changes, Command.operatorsAfter, Ledger.operatorsAfter,
    newcomers, List.eraseDups_cons, sampleConfig]

theorem settings_law_sample : ∃ response,
    (instantiate ⟨sampleOwner, []⟩ ⟨[], none, Transaction.sample.chainId⟩).run ∅ =
      (.ok response, sampleSetUp) ∧
    Config.slot.load (run sampleChanges sampleSetUp).2 =
      .ok { sampleConfig with operators := [sampleOwner], chainId := 0 } := by
  obtain ⟨response, hrun⟩ := run_sampleSetUp
  have hload := (settings_law hrun sampleChanges).settings
  rw [settings_sampleChanges] at hload
  exact ⟨response, hrun, hload⟩

end Ledger
end RelayLedger
