import ChainRegistry.Accounts
import ChainRegistry.Amounts
import ChainRegistry.Blocks
import ChainRegistry.Chat
import ChainRegistry.Endpoints
import ChainRegistry.Throughput
import ChainRegistry.Voting

/-!
# The registry of protocol constants

A registry holds every value that services of the chain have to agree on.  The reference registry is
the one they agree on unless told otherwise.
-/

namespace ChainRegistry

structure Registry where
  auditRetentionMs : UInt64
  treasury : Treasury
  blocks : BlockRules
  voting : VotingPeriods
  passing : PassingRules
  chat : ChatLimits
  jurisdictions : Jurisdictions
  throughput : ThroughputTargets
  amounts : AmountBounds
  policies : PinnedPolicies
  endpoints : Endpoints
  quotas : Quotas
  deriving DecidableEq, Repr

namespace Registry

/-- Audit records are kept for seven years. -/
def reference : Registry where
  auditRetentionMs := 220752000000
  treasury := .reference
  blocks := .reference
  voting := .reference
  passing := .reference
  chat := .reference
  jurisdictions := .reference
  throughput := .reference
  amounts := .reference
  policies := .reference
  endpoints := .reference
  quotas := .reference

/-- Equality of values, in which a fraction that is no number differs from itself. -/
def sameValue (a b : Registry) : Bool :=
  decide ({ a with passing := b.passing } = b) && a.passing.sameValue b.passing

def chatViolation? (r : Registry) (kind? : Option TransactionKind) (record : ChatRecord) :
    Option AdmissionError :=
  record.violation? r.chat r.jurisdictions kind?

end Registry

end ChainRegistry
