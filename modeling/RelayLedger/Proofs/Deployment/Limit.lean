/-
# Where the nonces of a deployer end

The greatest nonce is the last, and a deployer that has come to it deploys no more: it still sends
its message, the client still accepts it and the account is there, but no next nonce can be
computed and nothing is recorded. So a deployer records as many of the accepted artifacts as it had
nonces left, and all that the client accepts beyond them are lost.

Key definitions: `Deployer.isLost`, `Deployer.Tally`, `Deployer.Accounted`.
Key theorems: `Deployer.Tally.deploy`, `Deployer.tally_deployAll`,
`Deployer.deployments_accounted`, `Deployer.last_deployment_lost`.
-/
import RelayLedger.Proofs.Deployment

namespace RelayLedger
namespace Deployer

variable {σ ε ρ : Type}

/-- Whether the client accepted an artifact that could not be recorded. -/
def isLost : Except (Stop ε) Address → Bool
  | .error .outOfNonces => true
  | _ => false

theorem countP_isLost_concat (outcomes : List (Except (Stop ε) Address))
    (outcome : Except (Stop ε) Address) :
    (outcomes ++ [outcome]).countP isLost =
      outcomes.countP isLost + if isLost outcome then 1 else 0 := by
  rw [List.countP_append, List.countP_singleton]

/-- What a deployer has to show for artifacts that it put to its client: what was recorded and what
was lost make up what the client accepted, and nothing is lost before the last nonce. -/
structure Tally (d : Deployer σ) (artifacts : List Artifact)
    (outcomes : List (Except (Stop ε) Address)) (left : Deployer (Client.Watched σ ε ρ)) :
    Prop where
  origin : left.origin = d.origin
  nonce : left.nonce.toNat = d.nonce.toNat + (succeeded artifacts outcomes).length
  deployed : left.deployed = d.deployed ++
    (succeeded artifacts outcomes).mapIdx fun k artifact => (artifact.name, d.upcoming k)
  accepted : left.client.accepted =
    (succeeded artifacts outcomes).length + outcomes.countP isLost
  last : 0 < outcomes.countP isLost → left.nonce.toNat + 1 = Word.bound 64

namespace Tally

variable {d : Deployer σ} {artifacts : List Artifact} {artifact : Artifact}
  {outcomes : List (Except (Stop ε) Address)} {outcome : Except (Stop ε) Address}
  {left after : Deployer (Client.Watched σ ε ρ)}

/-- The artifacts that were lost are those for which there was no nonce. -/
theorem countP_isLost (h : Tally d artifacts outcomes left) :
    outcomes.countP isLost =
      d.nonce.toNat + left.client.accepted - (Word.bound 64 - 1) := by
  have hnonce := h.nonce
  have haccepted := h.accepted
  have hlast := h.last
  have hlt := left.nonce.isLt
  omega

/-- The address of the next artifact is that of as many more as were recorded. -/
theorem upcoming (h : Tally d artifacts outcomes left) :
    deploymentAddress left.origin left.nonce =
      d.upcoming (succeeded artifacts outcomes).length := by
  rw [← left.upcoming_zero, Deployer.upcoming, Deployer.upcoming, h.origin, h.nonce, Nat.add_zero]

variable [Client σ ε ρ]

/-- A refusal adds nothing and an accepted artifact adds an entry. -/
theorem step (h : Tally d artifacts outcomes left) (hlength : outcomes.length = artifacts.length)
    (hstep : Step artifact left outcome after) :
    Tally d (artifacts ++ [artifact]) (outcomes ++ [outcome]) after := by
  cases hstep with
  | refused failure client hexecute =>
    have hlost : (outcomes ++ [Except.error (Stop.client failure)]).countP isLost =
        outcomes.countP isLost := countP_isLost_concat ..
    refine ⟨h.origin, ?_, ?_, ?_, ?_⟩
    · rw [succeeded_concat_error hlength]
      exact h.nonce
    · rw [succeeded_concat_error hlength]
      exact h.deployed
    · rw [succeeded_concat_error hlength, hlost]
      exact (Client.Watched.accepted_heard ..).trans h.accepted
    · rw [hlost]
      exact h.last
  | accepted reply client nonce hexecute hnonce =>
    have hlost : (outcomes ++ [Except.ok (deploymentAddress left.origin left.nonce)]).countP
        isLost = outcomes.countP isLost := countP_isLost_concat ..
    have hlength' : (succeeded artifacts outcomes ++ [artifact]).length =
        (succeeded artifacts outcomes).length + 1 := List.length_append
    refine ⟨h.origin, ?_, ?_, ?_, ?_⟩
    · rw [succeeded_concat_ok hlength, hlength', ← Nat.add_assoc, ← h.nonce]
      exact hnonce
    · rw [succeeded_concat_ok hlength, List.mapIdx_concat, ← List.append_assoc, ← h.deployed,
        ← h.upcoming]
    · have haccepted := h.accepted
      rw [succeeded_concat_ok hlength, hlost, hlength', Nat.add_right_comm, ← haccepted]
      exact Client.Watched.accepted_heard ..
    · -- There was a next nonce, so nothing was lost so far.
      rw [hlost]
      intro hpos
      have hlast := h.last hpos
      have hlt := nonce.isLt
      omega

/-- An artifact that is lost adds nothing but to what was lost. -/
theorem lost (h : Tally d artifacts outcomes left) (hlength : outcomes.length = artifacts.length)
    (hlost : Lost artifact left outcome after) :
    Tally d (artifacts ++ [artifact]) (outcomes ++ [outcome]) after := by
  have haccepted := hlost.accepted
  cases hlost with
  | unrecorded reply client hexecute hlast =>
    have hcount : (outcomes ++ [Except.error Stop.outOfNonces]).countP isLost =
        outcomes.countP isLost + 1 := countP_isLost_concat ..
    refine ⟨h.origin, ?_, ?_, ?_, fun _ => hlast⟩
    · rw [succeeded_concat_error hlength]
      exact h.nonce
    · rw [succeeded_concat_error hlength]
      exact h.deployed
    · rw [succeeded_concat_error hlength, hcount, haccepted, h.accepted, Nat.add_assoc]

/-- One case for each of what may become of an artifact. -/
theorem deploy (h : Tally d artifacts outcomes left) (hlength : outcomes.length = artifacts.length)
    (artifact : Artifact) :
    Tally d (artifacts ++ [artifact]) (outcomes ++ [(Deployer.deploy artifact left).1])
      (Deployer.deploy artifact left).2 :=
  (deploy_cases artifact left).elim (h.step hlength) (h.lost hlength)

end Tally

variable [Client σ ε ρ]

theorem tally_deployAll (d : Deployer σ) (artifacts : List Artifact) :
    Tally d artifacts (deployAll artifacts d.watched).1 (deployAll artifacts d.watched).2 := by
  induction artifacts using List.reverseRecOn with
  | nil => exact ⟨rfl, rfl, (List.append_nil _).symm, rfl, fun h => absurd h (Nat.lt_irrefl 0)⟩
  | append_singleton earlier artifact ih =>
    rw [deployAll_concat]
    exact ih.deploy (length_deployAll earlier _) artifact

/-- What becomes of the artifacts that a deployer puts one after the other to a client, wherever its
nonces start. -/
structure Accounted (d : Deployer σ) (artifacts : List Artifact) : Prop where
  /-- Nobody but who watches knows of it. -/
  unwatched : deployAll artifacts d =
    ((deployAll artifacts d.watched).1, (deployAll artifacts d.watched).2.unwatched)
  /-- Each artifact is one message. It is recorded if the client accepts it, and lost if the
  deployer has come to its last nonce. -/
  steps : ∀ earlier artifact later, artifacts = earlier ++ artifact :: later →
    ∃ outcome after,
      deployAll artifacts d.watched =
        ((deployAll earlier d.watched).1 ++ outcome :: (deployAll later after).1,
          (deployAll later after).2) ∧
      (Step artifact (deployAll earlier d.watched).2 outcome after ∨
        Lost artifact (deployAll earlier d.watched).2 outcome after)
  /-- The record has the artifacts that the deployer reports as deployed, and no others. -/
  deployed : (deployAll artifacts d.watched).2.deployed = d.deployed ++
    (succeeded artifacts (deployAll artifacts d.watched).1).mapIdx fun k artifact =>
      (artifact.name, d.upcoming k)
  /-- All others that the client accepted are lost: as many as there were no nonces for. -/
  accepted : (deployAll artifacts d.watched).2.client.accepted =
    (succeeded artifacts (deployAll artifacts d.watched).1).length +
      (deployAll artifacts d.watched).1.countP isLost
  lost : (deployAll artifacts d.watched).1.countP isLost =
    d.nonce.toNat + (deployAll artifacts d.watched).2.client.accepted - (Word.bound 64 - 1)
  /-- Nothing is lost exactly if the nonces suffice. -/
  lossless : (∀ outcome ∈ (deployAll artifacts d.watched).1, isLost outcome = false) ↔
    d.nonce.toNat + (deployAll artifacts d.watched).2.client.accepted < Word.bound 64

/-- Whatever the nonce to start with and whatever the client replies, a deployer records what the
client accepts until it has come to its last nonce, and nothing from then on. -/
theorem deployments_accounted (d : Deployer σ) (artifacts : List Artifact) :
    Accounted d artifacts := by
  have htally := tally_deployAll d artifacts
  have hlost := htally.countP_isLost
  refine ⟨deployAll_unwatched artifacts d.watched, ?_, htally.deployed, htally.accepted, hlost, ?_⟩
  · intro earlier artifact later h
    refine ⟨_, _, ?_, deploy_cases artifact (deployAll earlier d.watched).2⟩
    rw [h, deployAll_append, deployAll_cons]
  · have hnone : (deployAll artifacts d.watched).1.countP isLost = 0 ↔
        ∀ outcome ∈ (deployAll artifacts d.watched).1, isLost outcome = false := by
      rw [List.countP_eq_zero]
      simp only [Bool.not_eq_true]
    have hpos := Word.bound_pos 64
    rw [← hnone, hlost]
    omega

/-- A deployer at its last nonce, over a client that accepts what it is asked. -/
def exhausted : Deployer Client.Scripted where
  client := { executeAnswers := [.ok []] }
  signer := ⟨"validator", ⟨"validator"⟩⟩
  contract := "terranova"
  origin := Fixed.zero
  nonce := Word.max

/-- The client accepts the artifact, and the deployer neither tells the address nor has it. -/
theorem last_deployment_lost :
    (Client.execute exhausted.signer exhausted.contract
      (exhausted.request ⟨"Storage", [96, 128]⟩) exhausted.client).1 = .ok [] ∧
    (deploy ⟨"Storage", [96, 128]⟩ exhausted).1 = .error .outOfNonces ∧
    (deploy ⟨"Storage", [96, 128]⟩ exhausted).2.deployed = [] :=
  ⟨rfl, rfl, rfl⟩

end Deployer
end RelayLedger
