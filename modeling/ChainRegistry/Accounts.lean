import ChainRegistry.Document.Scalar
import ChainRegistry.Category

/-!
# The treasury and the accounts of governance

The treasury address is reserved before the chain goes live and is compared character by character:
no case is folded, no blank trimmed, no checksum decoded.  The binding is always given in full.
Governance has accounts of its own, which are found by their keys.
-/

namespace ChainRegistry

structure Treasury where
  address : String
  isLive : Bool
  deriving DecidableEq, Repr

namespace Treasury

def reference : Treasury where
  address := "ALN18sd2ujv24ual9c9pshtxys6j8knh6xaek9z83t"
  isLive := false

def isAddress (treasury : Treasury) (address : String) : Bool :=
  address == treasury.address

def fields : List (Field Treasury) :=
  [.of "address" .text (·.address) fun r v => { r with address := v },
    .of "is_live" .flag (·.isLive) fun r v => { r with isLive := v }]

def codec : Codec Treasury := .whole fields reference

end Treasury

/-- Why funds are sent to the treasury. -/
inductive TreasuryPurpose where
  | governanceVote
  | protocolFee
  | treasuryRefill
  deriving DecidableEq, Repr

instance : Category TreasuryPurpose where
  noun := "treasury routing purpose"
  all := [.governanceVote, .protocolFee, .treasuryRefill]
  key
    | .governanceVote => "governance_vote"
    | .protocolFee => "protocol_fee"
    | .treasuryRefill => "treasury_refill"
  mem_all a := by cases a <;> decide
  nodup_keys := by decide

/-- Accounts reserved for governance until the chain assigns their final addresses. -/
inductive GovernanceAccount where
  | council
  | policyRegistry
  | migragraphRouter
  deriving DecidableEq, Repr

instance : Category GovernanceAccount where
  noun := "governance address"
  all := [.council, .policyRegistry, .migragraphRouter]
  key
    | .council => "COUNCIL"
    | .policyRegistry => "POLICY_REGISTRY"
    | .migragraphRouter => "MIGRAGRAPH_ROUTER"
  mem_all a := by cases a <;> decide
  nodup_keys := by decide

def GovernanceAccount.address : GovernanceAccount → String
  | .council => "aln1governance000000000000000000000000000"
  | .policyRegistry => "aln1policy000000000000000000000000000"
  | .migragraphRouter => "aln1migrationgov00000000000000000000"

def GovernanceAccount.addressOf? (key : String) : Option String :=
  (Category.ofKey? key).map GovernanceAccount.address

end ChainRegistry
