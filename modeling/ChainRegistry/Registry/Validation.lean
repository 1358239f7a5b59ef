import ChainRegistry.Registry.Basic

/-!
# Validation

A registry is valid if counts that must not vanish do not, bounds are in order, fractions lie above
zero and at most at one, bursts reach their baselines and jurisdictions are listed once each and at
least one.  The checks run in a fixed order, and the first violation is reported with the values
that show it.
-/

namespace ChainRegistry

inductive Fraction where
  | quorum
  | threshold
  deriving DecidableEq, Repr

def Fraction.name : Fraction → String
  | .quorum => "quorum"
  | .threshold => "threshold"

def PassingRule.fraction (rule : PassingRule) : Fraction → Binary64
  | .quorum => rule.quorum
  | .threshold => rule.threshold

inductive Violation where
  | gasDisordered (limits : GasBounds)
  | gasPriceOutside (price : GasTariff)
  | periodsDisordered (periods : VotingPeriods)
  | improperFraction (kind : ProposalKind) (fraction : Fraction) (value : Binary64)
  | burstTooLow (subsystem : Subsystem) (target : Throughput)
  | vanishing (field : String)
  | amountsDisordered (bounds : AmountBounds)
  | noJurisdiction
  | repeatedJurisdiction (tag : String)
  deriving DecidableEq, Repr

namespace Violation

private def decimal (n : UInt64) : String :=
  toString n.toNat

def message : Violation → String
  | gasDisordered limits =>
    "Gas limits out of order: min " ++ decimal limits.min ++ ", max " ++ decimal limits.max
      ++ ", block_limit " ++ decimal limits.block
  | gasPriceOutside price =>
    "Gas price default " ++ decimal price.usual ++ " outside [" ++ decimal price.lowest ++ ", "
      ++ decimal price.highest ++ "]"
  | periodsDisordered periods =>
    "Voting periods out of order: min " ++ decimal periods.shortest ++ ", default "
      ++ decimal periods.usual ++ ", max " ++ decimal periods.longest ++ " (blocks)"
  | improperFraction kind fraction value =>
    Category.key kind ++ " " ++ fraction.name ++ " "
      ++ String.ofList (FloatForm.plain.write value) ++ " is outside (0, 1]"
  | burstTooLow subsystem target =>
    "TPS target for " ++ Category.key subsystem ++ ": burst " ++ decimal target.burst
      ++ " is below baseline " ++ decimal target.baseline
  | vanishing field => field ++ " must be greater than zero"
  | amountsDisordered bounds =>
    "Safety limits out of order: min_amount " ++ decimal bounds.least ++ ", max_transfer "
      ++ decimal bounds.transfer ++ ", max_delegation " ++ decimal bounds.delegation
      ++ ", max_uint64 " ++ decimal bounds.representable
  | noJurisdiction => "Jurisdiction set is empty"
  | repeatedJurisdiction tag => "Jurisdiction tag '" ++ tag ++ "' appears more than once"

end Violation

def Binary64.isProperFraction (x : Binary64) : Bool :=
  decide (zero < x) && decide (x ≤ ofNat 1)

def Service.fieldName : Service → String
  | .httpApi => "ports.http_api"
  | .webSocket => "ports.websocket"
  | .explorer => "ports.explorer"
  | .metrics => "ports.metrics"

def AccessTier.fieldName : AccessTier → String
  | .publicApi => "rate_limits.public_api"
  | .authenticatedApi => "rate_limits.authenticated_api"
  | .agentApi => "rate_limits.agent_api"
  | .websocketSubscriptions => "rate_limits.websocket_subscriptions"

namespace Registry

/-- The violation, if a requirement fails. -/
def demand (holds : Bool) (violation : Violation) : Option Violation :=
  if holds then none else some violation

def positive (value : Nat) (field : String) : Option Violation :=
  demand (decide (0 < value)) (.vanishing field)

def fractionFindings (r : Registry) (kind : ProposalKind) : List (Option Violation) :=
  [Fraction.quorum, .threshold].map fun fraction =>
    let value := (r.passing.rule kind).fraction fraction
    demand value.isProperFraction (.improperFraction kind fraction value)

def throughputFinding (r : Registry) (subsystem : Subsystem) : Option Violation :=
  let target := r.throughput.target subsystem
  demand (decide (target.baseline ≤ target.burst)) (.burstTooLow subsystem target)

def findings (r : Registry) : List (Option Violation) :=
  [positive r.blocks.timeMs.toNat "network.block_time_ms",
    positive r.blocks.maxTransactions.toNat "network.max_transactions_per_block",
    positive r.blocks.gasLimits.min.toNat "network.gas_limits.min",
    demand r.blocks.gasLimits.inOrder (.gasDisordered r.blocks.gasLimits),
    demand (r.blocks.gasPrice.admits r.blocks.gasPrice.usual)
      (.gasPriceOutside r.blocks.gasPrice),
    positive r.voting.shortest.toNat "governance.min_voting",
    demand r.voting.inOrder (.periodsDisordered r.voting)]
  ++ (Category.all : List ProposalKind).flatMap r.fractionFindings
  ++ (Category.all : List Subsystem).map r.throughputFinding
  ++ [positive r.chat.contextId.toNat "chat_limits.max_chat_context_id_length",
    positive r.chat.transcriptHash.toNat "chat_limits.max_transcript_hash_length",
    positive r.chat.tags.toNat "chat_limits.max_jurisdiction_tags",
    demand (!r.jurisdictions.tags.isEmpty) .noJurisdiction,
    r.jurisdictions.repeated?.map .repeatedJurisdiction,
    demand r.amounts.inOrder (.amountsDisordered r.amounts),
    positive r.auditRetentionMs.toNat "audit_retention_ms"]
  ++ (Category.all : List Service).map (fun service =>
    positive (r.endpoints.number service).toNat service.fieldName)
  ++ (Category.all : List AccessTier).map (fun tier =>
    positive (r.quotas.quota tier).toNat tier.fieldName)

def violation? (r : Registry) : Option Violation :=
  r.findings.findSome? id

end Registry

end ChainRegistry
