/-
# The settings of a ledger

The owner runs the ledger; operators, of which the owner is always one, relay transactions. The
chain id is the one that transactions must name if they name any.

Key definitions: `Ledger.Config`, `Ledger.Config.IsOperator`.
-/
import RelayLedger.Contract

namespace RelayLedger
namespace Ledger

/-- The settings of a ledger. -/
structure Config where
  owner : ChainAddress
  operators : List ChainAddress
  tokenMint : ChainAddress
  chainId : Word 64
  deriving DecidableEq

/-- The chain id of a ledger that is set up without one. -/
def defaultChainId : Word 64 := ⟨789789789, by decide⟩

/-- The token mint of a ledger that is set up without one. -/
def defaultTokenMint : ChainAddress := ⟨"NOVA_token_mint"⟩

namespace Config

/-- The owner and the members of the list may relay. -/
def IsOperator (c : Config) (who : ChainAddress) : Prop := who = c.owner ∨ who ∈ c.operators

instance (c : Config) (who : ChainAddress) : Decidable (c.IsOperator who) :=
  inferInstanceAs (Decidable (_ ∨ _))

/-- Where the settings are kept. -/
def slot : Slot Config := ⟨utf8 "config"⟩

end Config

open Json in
instance : Wire Config where
  typeName := "terranova_rs::terranova::TerranovaConfig"
  format := .record <|
    (Fields.cons "owner" .chainAddress <| .cons "operators" (.list .chainAddress) <|
      .cons "token_mint" .chainAddress <| .cons "chain_id" (.word 64) .empty).renamed
      (fun (owner, operators, tokenMint, chainId, _) => ⟨owner, operators, tokenMint, chainId⟩)
      (fun c => (c.owner, c.operators, c.tokenMint, c.chainId, ()))

end Ledger
end RelayLedger
