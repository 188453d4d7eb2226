/-
# Deployment

A deployer puts artifacts on a ledger: each becomes an account whose address is cut from the digest
of the deployer's own address and its nonce, and the nonce goes up by one with each artifact that
was accepted. What the client refuses leaves nonce and record as they were. The first deployment of
an application puts two artifacts on the ledger, one after the other.

Key definitions: `Artifact`, `deploymentAddress`, `Deployer`, `Deployer.deploy`, `Rollout.run`.
-/
import RelayLedger.Client.Basic

namespace RelayLedger

/-! ### Artifacts -/

/-- Code to be deployed, and its name. -/
structure Artifact where
  name : String
  code : Bytes
  deriving DecidableEq

open Json in
instance : Wire Artifact where
  typeName := "terranova_rs::migrations::Artifact"
  format := .record <|
    (Fields.cons "contract_name" .text <| .cons "bytecode" .base64 .empty).renamed
      (fun (name, code, _) => ⟨name, code⟩) (fun a => (a.name, a.code, ()))

/-- A text without the `0x` that may stand in front of it. -/
def Artifact.unmarked : Bytes → Bytes
  | 48 :: 120 :: rest => rest
  | s => s

/-- The artifact of hexadecimal code, with or without `0x` in front. -/
def Artifact.ofHex (name text : String) : Except Fault Artifact :=
  match Hex.decode (unmarked (utf8 text)) with
  | .ok code => .ok ⟨name, code⟩
  | .error fault => .error (.bytecode fault)

/-! ### Addresses -/

/-- The address of what a deployer deploys at a nonce: the last twenty bytes of the digest of its
own address and the nonce. -/
def deploymentAddress (origin : Address) (nonce : Word 64) : Address :=
  ⟨(Sha256.digest (origin.bytes ++ Bytes.ofNat 8 nonce.toNat)).drop 12, by
    rw [List.length_drop, Sha256.length_digest]; rfl⟩

/-! ### Deployers -/

/-- A deployer over a client whose state is of type `σ`. -/
structure Deployer (σ : Type) where
  client : σ
  signer : Wallet
  contract : String
  origin : Address
  nonce : Word 64 := 0
  /-- What was deployed and where, first things first. -/
  deployed : List (String × Address) := []

/-- Why a deployment stops. -/
inductive Deployer.Stop (ε : Type)
  /-- The client refused it. -/
  | client (failure : ε)
  /-- The ledger has the account, but there is no next nonce. -/
  | outOfNonces
  deriving DecidableEq

namespace Deployer

variable {σ ε ρ : Type} [Client σ ε ρ]

/-- Asks the ledger for an account with the artifact's code at the address of the current nonce. -/
def deploy (artifact : Artifact) : StateM (Deployer σ) (Except (Stop ε) Address) := fun d =>
  let address := deploymentAddress d.origin d.nonce
  let message := Json.encode (Ledger.Command.createAccount address artifact.code)
  let (reply, client) := Client.execute d.signer d.contract message d.client
  let d := { d with client }
  match reply with
  | .error failure => (.error (.client failure), d)
  | .ok _ =>
    match Word.ofNat? (d.nonce.toNat + 1) with
    | none => (.error .outOfNonces, d)
    | some nonce =>
      (.ok address, { d with nonce, deployed := d.deployed ++ [(artifact.name, address)] })

end Deployer

/-- The artifacts that an application starts with. -/
structure Rollout where
  storage : Artifact
  migrations : Artifact
  deriving DecidableEq

/-- Deploys the artifacts in order and stops at the first that fails. -/
def Rollout.run {σ ε ρ : Type} [Client σ ε ρ] (r : Rollout) :
    StateM (Deployer σ) (Except (Deployer.Stop ε) (List Address)) := do
  match ← Deployer.deploy r.storage with
  | .error stop => return .error stop
  | .ok storage =>
    match ← Deployer.deploy r.migrations with
    | .error stop => return .error stop
    | .ok migrations => return .ok [storage, migrations]

end RelayLedger
