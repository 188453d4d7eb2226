/-
# What a deployer asks of its client

A deployer turns each artifact into one message to its client and goes on to the next address only
if the client accepted it. To tell what was asked and replied, the client is watched: a `Watched`
client does what the client in it does and writes it down, and a deployer notices no difference.
What a deployer has deployed so far does not matter for what it does next, so another one with the
same nonce can take over at any point.

Key definitions: `Client.Watched`, `Deployer.deployAll`, `Deployer.Step`, `Deployer.Lost`,
`Deployer.Tracks`, `Deployer.Followed`.
Key theorems: `Deployer.deploy_cases`, `Deployer.tracks_deployAll`, `Deployer.deployAll_unwatched`,
`Deployer.deployAll_behind`, `Deployer.deployment_followed`.
-/
import RelayLedger.Client.Scripted
import RelayLedger.Proofs.Chain.Rollout

namespace RelayLedger

variable {σ ε ρ : Type}

/-! ### Watched clients -/

namespace Client

/-- A client, all calls that were made to it, and its replies to messages. -/
structure Watched (σ ε ρ : Type) where
  client : σ
  calls : List Call := []
  replies : List (Except ε ρ) := []

namespace Watched

/-- After one more message, the client that it left and its reply. -/
def heard (call : Call) (reply : Except ε ρ) (client : σ) (w : Watched σ ε ρ) : Watched σ ε ρ :=
  ⟨client, w.calls ++ [call], w.replies ++ [reply]⟩

instance [Client σ ε ρ] : Client (Watched σ ε ρ) ε ρ where
  query α _ contract message := fun w =>
    let (answer, client) := Client.query α contract message w.client
    (answer, { w with client, calls := w.calls ++ [.query contract message] })
  execute signer contract message := fun w =>
    let (reply, client) := Client.execute signer contract message w.client
    (reply, w.heard (.execute signer contract message) reply client)

theorem execute_eq [Client σ ε ρ] (signer : Wallet) (contract : String) (message : Bytes)
    (w : Watched σ ε ρ) :
    Client.execute signer contract message w =
      ((Client.execute signer contract message w.client).1,
        w.heard (.execute signer contract message)
          (Client.execute signer contract message w.client).1
          (Client.execute signer contract message w.client).2) := rfl

/-- The number of messages that were accepted. -/
def accepted (w : Watched σ ε ρ) : Nat := w.replies.countP Except.isOk

theorem accepted_heard (call : Call) (reply : Except ε ρ) (client : σ) (w : Watched σ ε ρ) :
    (w.heard call reply client).accepted = w.accepted + if reply.isOk then 1 else 0 := by
  rw [accepted, heard, List.countP_append, List.countP_singleton, accepted]

end Watched
end Client

namespace Deployer

/-- The deployer with its client watched from now on. -/
def watched [Client σ ε ρ] (d : Deployer σ) : Deployer (Client.Watched σ ε ρ) :=
  { d with client := ⟨d.client, [], []⟩ }

/-- The deployer as it is without anybody watching. -/
def unwatched (d : Deployer (Client.Watched σ ε ρ)) : Deployer σ :=
  { d with client := d.client.client }

/-- The deployer with artifacts that were deployed before all others. -/
def behind (earlier : List (String × Address)) (d : Deployer σ) : Deployer σ :=
  { d with deployed := earlier ++ d.deployed }

/-- The deployer as it starts again over a client, at a nonce. -/
def resume (client : σ) (nonce : Word 64) (d : Deployer σ) : Deployer σ :=
  { d with client, nonce, deployed := [] }

/-! ### Replies -/

/-- The message that asks for the account of an artifact. -/
def request (artifact : Artifact) (d : Deployer σ) : Bytes :=
  Json.encode (Ledger.Command.createAccount (deploymentAddress d.origin d.nonce) artifact.code)

/-- What a deployer makes of the reply to that message. -/
def conclude (artifact : Artifact) (reply : Except ε ρ) (d : Deployer σ) :
    Except (Stop ε) Address × Deployer σ :=
  match reply with
  | .error failure => (.error (.client failure), d)
  | .ok _ =>
    match Word.ofNat? (d.nonce.toNat + 1) with
    | none => (.error .outOfNonces, d)
    | some nonce =>
      (.ok (deploymentAddress d.origin d.nonce),
        { d with
          nonce
          deployed := d.deployed ++ [(artifact.name, deploymentAddress d.origin d.nonce)] })

theorem conclude_unwatched (artifact : Artifact) (reply : Except ε ρ)
    (d : Deployer (Client.Watched σ ε ρ)) :
    conclude artifact reply d.unwatched =
      ((conclude artifact reply d).1, (conclude artifact reply d).2.unwatched) := by
  cases reply with
  | error failure => rfl
  | ok reply =>
    simp only [conclude, unwatched]
    cases (Word.ofNat? (d.nonce.toNat + 1) : Option (Word 64)) <;> rfl

theorem conclude_behind (artifact : Artifact) (reply : Except ε ρ)
    (earlier : List (String × Address)) (d : Deployer σ) :
    conclude artifact reply (d.behind earlier) =
      ((conclude artifact reply d).1, (conclude artifact reply d).2.behind earlier) := by
  cases reply with
  | error failure => rfl
  | ok reply =>
    simp only [conclude, behind, List.append_assoc]
    cases (Word.ofNat? (d.nonce.toNat + 1) : Option (Word 64)) <;> rfl

/-- No reply changes the client. -/
theorem client_conclude (artifact : Artifact) (reply : Except ε ρ) (d : Deployer σ) :
    (conclude artifact reply d).2.client = d.client := by
  cases reply with
  | error failure => rfl
  | ok reply =>
    simp only [conclude]
    cases (Word.ofNat? (d.nonce.toNat + 1) : Option (Word 64)) <;> rfl

/-! ### What was deployed -/

/-- The artifacts that became accounts. -/
def succeeded (artifacts : List Artifact) (outcomes : List (Except (Stop ε) Address)) :
    List Artifact :=
  ((artifacts.zip outcomes).filter (·.2.isOk)).map Prod.fst

section Succeeded

variable {artifacts : List Artifact} {outcomes : List (Except (Stop ε) Address)}

theorem succeeded_concat_error (h : outcomes.length = artifacts.length) (artifact : Artifact)
    (stop : Stop ε) :
    succeeded (artifacts ++ [artifact]) (outcomes ++ [.error stop]) =
      succeeded artifacts outcomes := by
  rw [succeeded, List.zip_append h.symm, List.filter_append, List.map_append, succeeded]
  exact List.append_nil _

theorem succeeded_concat_ok (h : outcomes.length = artifacts.length) (artifact : Artifact)
    (address : Address) :
    succeeded (artifacts ++ [artifact]) (outcomes ++ [.ok address]) =
      succeeded artifacts outcomes ++ [artifact] := by
  rw [succeeded, List.zip_append h.symm, List.filter_append, List.map_append, succeeded]
  rfl

end Succeeded

/-- Nonce and record of a deployer that had deployed nothing before these artifacts: as many as the
client accepted, in order, each at the address of its own nonce. -/
structure Tracks (d : Deployer σ) (artifacts : List Artifact)
    (outcomes : List (Except (Stop ε) Address)) (left : Deployer (Client.Watched σ ε ρ)) :
    Prop where
  signer : left.signer = d.signer
  contract : left.contract = d.contract
  origin : left.origin = d.origin
  nonce : left.nonce.toNat = d.nonce.toNat + left.deployed.length
  accepted : left.client.accepted = left.deployed.length
  deployed : left.deployed =
    (succeeded artifacts outcomes).mapIdx fun k artifact => (artifact.name, d.upcoming k)

/-- The next address is that of as many more artifacts as were deployed. -/
theorem Tracks.upcoming {d : Deployer σ} {artifacts : List Artifact}
    {outcomes : List (Except (Stop ε) Address)} {left : Deployer (Client.Watched σ ε ρ)}
    (h : Tracks d artifacts outcomes left) :
    deploymentAddress left.origin left.nonce = d.upcoming left.deployed.length := by
  rw [← left.upcoming_zero, Deployer.upcoming, Deployer.upcoming, h.origin, h.nonce, Nat.add_zero]

section Calls

variable [Client σ ε ρ]

/-! ### One artifact -/

theorem deploy_eq_conclude (artifact : Artifact) (d : Deployer σ) :
    deploy artifact d =
      conclude artifact (Client.execute d.signer d.contract (d.request artifact) d.client).1
        { d with client := (Client.execute d.signer d.contract (d.request artifact) d.client).2 } :=
  rfl

theorem deploy_unwatched (artifact : Artifact) (d : Deployer (Client.Watched σ ε ρ)) :
    deploy artifact d.unwatched = ((deploy artifact d).1, (deploy artifact d).2.unwatched) := by
  rw [deploy_eq_conclude artifact d, ← conclude_unwatched]
  rfl

theorem deploy_behind (artifact : Artifact) (earlier : List (String × Address))
    (d : Deployer σ) :
    deploy artifact (d.behind earlier) =
      ((deploy artifact d).1, (deploy artifact d).2.behind earlier) := by
  rw [deploy_eq_conclude artifact d, ← conclude_behind]
  rfl

/-- What an artifact is to a deployer whose client is watched: one message, and what the client
replied to it. A refusal leaves nonce and record as they are. -/
inductive Step (artifact : Artifact) (d : Deployer (Client.Watched σ ε ρ)) :
    Except (Stop ε) Address → Deployer (Client.Watched σ ε ρ) → Prop
  | refused (failure : ε) (client : σ) :
    Client.execute d.signer d.contract (d.request artifact) d.client.client =
      (.error failure, client) →
    Step artifact d (.error (.client failure))
      { d with
        client := d.client.heard (.execute d.signer d.contract (d.request artifact))
          (.error failure) client }
  | accepted (reply : ρ) (client : σ) (nonce : Word 64) :
    Client.execute d.signer d.contract (d.request artifact) d.client.client =
      (.ok reply, client) →
    nonce.toNat = d.nonce.toNat + 1 →
    Step artifact d (.ok (deploymentAddress d.origin d.nonce))
      { d with
        client := d.client.heard (.execute d.signer d.contract (d.request artifact))
          (.ok reply) client
        nonce
        deployed := d.deployed ++ [(artifact.name, deploymentAddress d.origin d.nonce)] }

theorem client_deploy (artifact : Artifact) (d : Deployer σ) :
    (deploy artifact d).2.client =
      (Client.execute d.signer d.contract (d.request artifact) d.client).2 := by
  rw [deploy_eq_conclude, client_conclude]

/-- What an artifact is to a deployer that has come to its last nonce, if the client accepts it: the
account is there, but nonce and record stay as they are. -/
inductive Lost (artifact : Artifact) (d : Deployer (Client.Watched σ ε ρ)) :
    Except (Stop ε) Address → Deployer (Client.Watched σ ε ρ) → Prop
  | unrecorded (reply : ρ) (client : σ) :
    Client.execute d.signer d.contract (d.request artifact) d.client.client =
      (.ok reply, client) →
    d.nonce.toNat + 1 = Word.bound 64 →
    Lost artifact d (.error .outOfNonces)
      { d with
        client := d.client.heard (.execute d.signer d.contract (d.request artifact))
          (.ok reply) client }

theorem Lost.last {artifact : Artifact} {d after : Deployer (Client.Watched σ ε ρ)}
    {outcome : Except (Stop ε) Address} (h : Lost artifact d outcome after) :
    d.nonce.toNat + 1 = Word.bound 64 := by
  cases h with
  | unrecorded _ _ _ hlast => exact hlast

theorem Lost.accepted {artifact : Artifact} {d after : Deployer (Client.Watched σ ε ρ)}
    {outcome : Except (Stop ε) Address} (h : Lost artifact d outcome after) :
    after.client.accepted = d.client.accepted + 1 := by
  cases h with
  | unrecorded _ _ _ _ => exact Client.Watched.accepted_heard ..

/-- Each artifact is a step, unless it is lost. -/
theorem deploy_cases (artifact : Artifact) (d : Deployer (Client.Watched σ ε ρ)) :
    Step artifact d (deploy artifact d).1 (deploy artifact d).2 ∨
      Lost artifact d (deploy artifact d).1 (deploy artifact d).2 := by
  rw [deploy_eq_conclude, Client.Watched.execute_eq]
  rcases hexecute : Client.execute d.signer d.contract (d.request artifact) d.client.client with
    ⟨failure | reply, client⟩
  · exact .inl (.refused failure client hexecute)
  · simp only [conclude]
    cases hnonce : (Word.ofNat? (d.nonce.toNat + 1) : Option (Word 64)) with
    | none =>
      have hlast : d.nonce.toNat + 1 = Word.bound 64 :=
        Nat.le_antisymm d.nonce.isLt (Word.ofNat?_eq_none_iff.mp hnonce)
      exact .inr (.unrecorded reply client hexecute hlast)
    | some nonce =>
      exact .inl (.accepted reply client nonce hexecute (Word.ofNat?_eq_some_iff.mp hnonce))

/-- An artifact that is no step is accepted, and there is no next nonce. -/
theorem deploy_step (artifact : Artifact) (d : Deployer (Client.Watched σ ε ρ)) :
    Step artifact d (deploy artifact d).1 (deploy artifact d).2 ∨
      (deploy artifact d).2.client.accepted = d.client.accepted + 1 ∧
        Word.bound 64 ≤ d.nonce.toNat + 1 :=
  (deploy_cases artifact d).imp_right fun hlost =>
    ⟨hlost.accepted, Nat.le_of_eq hlost.last.symm⟩

/-- Replies that were accepted stay so. -/
theorem accepted_deploy_le (artifact : Artifact) (d : Deployer (Client.Watched σ ε ρ)) :
    d.client.accepted ≤ (deploy artifact d).2.client.accepted := by
  rw [client_deploy, Client.Watched.execute_eq, Client.Watched.accepted_heard]
  exact Nat.le_add_right ..

/-! ### Sequences of artifacts -/

/-- Deploys artifacts one after the other, whatever becomes of each. -/
def deployAll (artifacts : List Artifact) :
    StateM (Deployer σ) (List (Except (Stop ε) Address)) :=
  artifacts.mapM deploy

theorem deployAll_nil (d : Deployer σ) : deployAll [] d = ([], d) := rfl

theorem deployAll_cons (artifact : Artifact) (later : List Artifact) (d : Deployer σ) :
    deployAll (artifact :: later) d =
      ((deploy artifact d).1 :: (deployAll later (deploy artifact d).2).1,
        (deployAll later (deploy artifact d).2).2) := by
  rw [deployAll, List.mapM_cons]
  rfl

theorem deployAll_append (earlier later : List Artifact) (d : Deployer σ) :
    deployAll (earlier ++ later) d =
      ((deployAll earlier d).1 ++ (deployAll later (deployAll earlier d).2).1,
        (deployAll later (deployAll earlier d).2).2) := by
  rw [deployAll, List.mapM_append]
  rfl

theorem deployAll_concat (earlier : List Artifact) (artifact : Artifact) (d : Deployer σ) :
    deployAll (earlier ++ [artifact]) d =
      ((deployAll earlier d).1 ++ [(deploy artifact (deployAll earlier d).2).1],
        (deploy artifact (deployAll earlier d).2).2) := by
  rw [deployAll_append, deployAll_cons, deployAll_nil]

theorem length_deployAll : ∀ (artifacts : List Artifact) (d : Deployer σ),
    (deployAll artifacts d).1.length = artifacts.length
  | [], _ => rfl
  | artifact :: later, d => by
    rw [deployAll_cons, List.length_cons, List.length_cons, length_deployAll later]

/-- Watching changes nothing. -/
theorem deployAll_unwatched : ∀ (artifacts : List Artifact)
    (d : Deployer (Client.Watched σ ε ρ)),
    deployAll artifacts d.unwatched =
      ((deployAll artifacts d).1, (deployAll artifacts d).2.unwatched)
  | [], _ => rfl
  | artifact :: later, d => by
    rw [deployAll_cons, deployAll_cons, deploy_unwatched, deployAll_unwatched later]

/-- What was deployed before makes no difference. -/
theorem deployAll_behind (earlier : List (String × Address)) :
    ∀ (artifacts : List Artifact) (d : Deployer σ),
    deployAll artifacts (d.behind earlier) =
      ((deployAll artifacts d).1, (deployAll artifacts d).2.behind earlier)
  | [], _ => rfl
  | artifact :: later, d => by
    rw [deployAll_cons, deployAll_cons, deploy_behind, deployAll_behind earlier later]

theorem accepted_deployAll_le : ∀ (artifacts : List Artifact)
    (d : Deployer (Client.Watched σ ε ρ)),
    d.client.accepted ≤ (deployAll artifacts d).2.client.accepted
  | [], _ => Nat.le_refl _
  | artifact :: later, d => by
    rw [deployAll_cons]
    exact (accepted_deploy_le artifact d).trans (accepted_deployAll_le later _)

/-! ### Nonce and record -/

section Tracks

variable {d : Deployer σ} {artifacts : List Artifact} {artifact : Artifact}
  {outcomes : List (Except (Stop ε) Address)} {outcome : Except (Stop ε) Address}
  {left after : Deployer (Client.Watched σ ε ρ)}

theorem Tracks.step (h : Tracks d artifacts outcomes left)
    (hlength : outcomes.length = artifacts.length) (hstep : Step artifact left outcome after) :
    Tracks d (artifacts ++ [artifact]) (outcomes ++ [outcome]) after := by
  cases hstep with
  | refused failure client hexecute =>
    refine ⟨h.signer, h.contract, h.origin, h.nonce, ?_, ?_⟩
    · exact (Client.Watched.accepted_heard ..).trans h.accepted
    · rw [succeeded_concat_error hlength]
      exact h.deployed
  | accepted reply client nonce hexecute hnonce =>
    have hcount : (succeeded artifacts outcomes).length = left.deployed.length := by
      rw [h.deployed, List.length_mapIdx]
    refine ⟨h.signer, h.contract, h.origin, ?_, ?_, ?_⟩
    · show nonce.toNat = d.nonce.toNat + (left.deployed ++ [_]).length
      rw [List.length_append, List.length_singleton, hnonce, h.nonce, Nat.add_assoc]
    · show Client.Watched.accepted _ = (left.deployed ++ [_]).length
      rw [List.length_append, List.length_singleton, Client.Watched.accepted_heard, h.accepted]
      rfl
    · show left.deployed ++ [_] = _
      rw [succeeded_concat_ok hlength, List.mapIdx_concat, ← h.deployed, hcount, h.upcoming]

/-- While there are nonces, each artifact is a step. -/
theorem Tracks.deploy_step (h : Tracks d artifacts outcomes left) (artifact : Artifact)
    (hroom : d.nonce.toNat + (deploy artifact left).2.client.accepted < Word.bound 64) :
    Step artifact left (deploy artifact left).1 (deploy artifact left).2 := by
  refine (Deployer.deploy_step artifact left).resolve_right fun ⟨hone, hfull⟩ => ?_
  have hnonce := h.nonce
  have haccepted := h.accepted
  rw [hone] at hroom
  omega

/-- Nonce and record tell what the client accepted, as long as there are nonces for it. -/
theorem tracks_deployAll (hfresh : d.deployed = []) (artifacts : List Artifact)
    (hroom : d.nonce.toNat + (deployAll artifacts d.watched).2.client.accepted < Word.bound 64) :
    Tracks d artifacts (deployAll artifacts d.watched).1 (deployAll artifacts d.watched).2 := by
  -- From the end, since the nonce at the last step is what all steps before it left.
  induction artifacts using List.reverseRecOn with
  | nil =>
    have hnone : d.watched.deployed.length = 0 := congrArg List.length hfresh
    refine ⟨rfl, rfl, rfl, ?_, hnone.symm, hfresh⟩
    rw [deployAll_nil, hnone]
    rfl
  | append_singleton earlier artifact ih =>
    rw [deployAll_concat] at hroom ⊢
    have hle := accepted_deploy_le artifact (deployAll earlier d.watched).2
    have hbefore := ih (Nat.lt_of_le_of_lt (Nat.add_le_add_left hle _) hroom)
    exact hbefore.step (length_deployAll earlier _) (hbefore.deploy_step artifact hroom)

end Tracks

/-! ### Whole runs -/

/-- What becomes of artifacts that a deployer puts one after the other to a client, whatever the
client replies. -/
structure Followed (d : Deployer σ) (artifacts : List Artifact) : Prop where
  /-- Nobody but who watches knows of it. -/
  unwatched : deployAll artifacts d =
    ((deployAll artifacts d.watched).1, (deployAll artifacts d.watched).2.unwatched)
  /-- Each artifact is one message. -/
  steps : ∀ earlier artifact later, artifacts = earlier ++ artifact :: later →
    ∃ outcome, (deployAll artifacts d.watched).1[earlier.length]? = some outcome ∧
      Step artifact (deployAll earlier d.watched).2 outcome
        (deployAll (earlier ++ [artifact]) d.watched).2
  /-- Nonce and record are right at every point. -/
  tracks : ∀ earlier later, artifacts = earlier ++ later →
    Tracks d earlier (deployAll earlier d.watched).1 (deployAll earlier d.watched).2
  /-- At every point another deployer can take over at the nonce of this one: it makes the calls
  and gets the outcomes that this one would. -/
  resumed : ∀ earlier later, artifacts = earlier ++ later →
    ∀ outcomes before, deployAll earlier d.watched = (outcomes, before) →
    ∀ others last,
      deployAll later (d.watched.resume before.client before.nonce) = (others, last) →
      (deployAll artifacts d.watched).1 = outcomes ++ others ∧
        (deployAll artifacts d.watched).2 = last.behind before.deployed

variable {d : Deployer σ} {artifacts : List Artifact}

/-- A deployer that takes over differs only in what was deployed before. -/
theorem Tracks.eq_behind_resume {earlier : List Artifact}
    {outcomes : List (Except (Stop ε) Address)} {before : Deployer (Client.Watched σ ε ρ)}
    (h : Tracks d earlier outcomes before) :
    before = (d.watched.resume before.client before.nonce).behind before.deployed := by
  obtain ⟨client, signer, contract, origin, nonce, deployed⟩ := before
  obtain ⟨rfl, rfl, rfl, -⟩ := h
  simp only [behind, resume, watched, List.append_nil]

/-- A sequence of artifacts is followed message by message as long as there are nonces for what the
client accepts. -/
theorem deployment_followed (hfresh : d.deployed = [])
    (hroom : d.nonce.toNat + (deployAll artifacts d.watched).2.client.accepted < Word.bound 64) :
    Followed d artifacts := by
  -- The client has accepted no more at an earlier point than at the end.
  have hearly : ∀ earlier later, artifacts = earlier ++ later →
      d.nonce.toNat + (deployAll earlier d.watched).2.client.accepted < Word.bound 64 := by
    rintro earlier later rfl
    have hle := accepted_deployAll_le later (deployAll earlier d.watched).2
    rw [deployAll_append] at hroom
    exact Nat.lt_of_le_of_lt (Nat.add_le_add_left hle _) hroom
  have htracks : ∀ earlier later, artifacts = earlier ++ later →
      Tracks d earlier (deployAll earlier d.watched).1 (deployAll earlier d.watched).2 :=
    fun earlier later h => tracks_deployAll hfresh earlier (hearly earlier later h)
  refine ⟨deployAll_unwatched artifacts d.watched, ?_, htracks, ?_⟩
  · intro earlier artifact later h
    have hnext := hearly (earlier ++ [artifact]) later (by rw [h, List.append_cons])
    refine ⟨(deploy artifact (deployAll earlier d.watched).2).1, ?_, ?_⟩
    · have hlength : earlier.length = (deployAll earlier d.watched).1.length :=
        (length_deployAll earlier d.watched).symm
      rw [h, deployAll_append, deployAll_cons, hlength]
      show ((deployAll earlier d.watched).1 ++ _ :: _)[_]? = _
      rw [List.getElem?_append_right (Nat.le_refl _), Nat.sub_self, List.getElem?_cons_zero]
    · rw [deployAll_concat] at hnext ⊢
      exact (htracks earlier _ h).deploy_step artifact hnext
  · intro earlier later h outcomes before hearlier others last hlater
    have hbefore : Tracks d earlier outcomes before := by
      have htracked := htracks earlier later h
      rwa [hearlier] at htracked
    have hrest : deployAll later before = (others, last.behind before.deployed) :=
      calc deployAll later before
        _ = deployAll later
            ((d.watched.resume before.client before.nonce).behind before.deployed) :=
          congrArg (deployAll later) hbefore.eq_behind_resume
        _ = (others, last.behind before.deployed) := by rw [deployAll_behind, hlater]
    rw [h, deployAll_append, hearlier, hrest]
    exact ⟨rfl, rfl⟩

end Calls

/-- A deployer in the middle of its nonces, whose client is out of reach for the second message. -/
def faltering : Deployer Client.Scripted where
  client := { executeAnswers := [.ok [], .error (.other "out of reach"), .ok []] }
  signer := ⟨"validator", ⟨"validator"⟩⟩
  contract := "terranova"
  origin := Fixed.zero
  nonce := .truncate 5

/-- One artifact, another, and the other again. -/
def attempts : List Artifact :=
  [⟨"Storage", [96, 128]⟩, ⟨"Migrations", [96, 64]⟩, ⟨"Migrations", [96, 64]⟩]

/-- The second attempt fails and the third gets the address that was meant for it. -/
theorem deployment_followed_faltering :
    faltering.deployed = [] ∧
    faltering.nonce.toNat + (deployAll attempts faltering.watched).2.client.accepted <
      Word.bound 64 ∧
    (deployAll attempts faltering).1 =
      [.ok (faltering.upcoming 0), .error (.client (.other "out of reach")),
        .ok (faltering.upcoming 1)] ∧
    (deployAll attempts faltering).2.deployed =
      [("Storage", faltering.upcoming 0), ("Migrations", faltering.upcoming 1)] := by
  have hroom : faltering.nonce.toNat + (deployAll attempts faltering.watched).2.client.accepted <
      Word.bound 64 := by decide +kernel
  have hfollowed : Followed faltering attempts := deployment_followed rfl hroom
  have hdeployed := (hfollowed.tracks attempts [] rfl).deployed
  refine ⟨rfl, hroom, rfl, ?_⟩
  rw [hfollowed.unwatched]
  exact hdeployed

end Deployer
end RelayLedger
