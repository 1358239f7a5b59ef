import ChainRegistry.Document.Scalar
import ChainRegistry.Category

/-!
# Voting

A proposal is open for a number of blocks and passes by two fractions.  The quorum is the share of
the eligible voting power that has to take part, the threshold the share of the participants that
has to approve.  Shares are rounded to doubles before they are compared, as the fractions were when
they were written down.

The rules for all kinds of proposal are read field by field over the reference rules of the same
kind, so a document may set one fraction and leave the other.
-/

namespace ChainRegistry

/-! ## Periods -/

/-- Lengths of a vote, in blocks. -/
structure VotingPeriods where
  shortest : UInt64
  usual : UInt64
  longest : UInt64
  deriving DecidableEq, Repr

namespace VotingPeriods

def reference : VotingPeriods where
  shortest := 1000
  usual := 17280
  longest := 100000

def inOrder (periods : VotingPeriods) : Bool :=
  decide (periods.shortest ≤ periods.usual) && decide (periods.usual ≤ periods.longest)

/-- The length nearest to a requested one that is allowed.  Where the bounds are out of order the
shortest length is the only one. -/
def nearest (periods : VotingPeriods) (blocks : UInt64) : UInt64 :=
  if blocks < periods.shortest then periods.shortest
  else min blocks (max periods.longest periods.shortest)

def fields : List (Field VotingPeriods) :=
  [.of "min_voting" .word64 (·.shortest) fun r v => { r with shortest := v },
    .of "default_voting" .word64 (·.usual) fun r v => { r with usual := v },
    .of "max_voting" .word64 (·.longest) fun r v => { r with longest := v }]

def codec : Codec VotingPeriods := .record fields reference

end VotingPeriods

/-! ## Passing rules -/

/-- Voting power that could vote, did vote, and voted yes. -/
structure Tally where
  eligible : UInt64
  participating : UInt64
  approving : UInt64
  deriving DecidableEq, Repr

namespace Tally

/-- A tally counts if somebody voted and no part is larger than its whole. -/
def isConsistent (tally : Tally) : Bool :=
  decide (0 < tally.participating) && decide (tally.participating ≤ tally.eligible)
    && decide (tally.approving ≤ tally.participating)

def share (part whole : UInt64) : Binary64 :=
  Binary64.ofNat part.toNat / Binary64.ofNat whole.toNat

def turnout (tally : Tally) : Binary64 := share tally.participating tally.eligible

def approval (tally : Tally) : Binary64 := share tally.approving tally.participating

end Tally

structure PassingRule where
  quorum : Binary64
  threshold : Binary64
  deriving DecidableEq, Repr

namespace PassingRule

def passes (rule : PassingRule) (tally : Tally) : Bool :=
  tally.isConsistent && decide (rule.quorum ≤ tally.turnout)
    && decide (rule.threshold ≤ tally.approval)

def fields : List (Field PassingRule) :=
  [.of "quorum" .fraction (·.quorum) fun r v => { r with quorum := v },
    .of "threshold" .fraction (·.threshold) fun r v => { r with threshold := v }]

/-- A rule that stands alone is given in full. -/
def codec : Codec PassingRule := .whole fields ⟨.zero, .zero⟩

/-- A rule given as changes to another one: a fraction that is missing or null keeps its value. -/
def changes (base : PassingRule) : Codec PassingRule :=
  .record (fields.map Field.nullable) base

def sameValue (a b : PassingRule) : Bool :=
  a.quorum.sameValue b.quorum && a.threshold.sameValue b.threshold

end PassingRule

inductive ProposalKind where
  | parameterChange
  | treasurySpend
  | contractUpgrade
  deriving DecidableEq, Repr

instance : Category ProposalKind where
  noun := "proposal kind"
  all := [.parameterChange, .treasurySpend, .contractUpgrade]
  key
    | .parameterChange => "PARAMETER_CHANGE"
    | .treasurySpend => "TREASURY_SPEND"
    | .contractUpgrade => "CONTRACT_UPGRADE"
  mem_all a := by cases a <;> decide
  nodup_keys := by decide

structure PassingRules where
  parameterChange : PassingRule
  treasurySpend : PassingRule
  contractUpgrade : PassingRule
  deriving DecidableEq, Repr

namespace PassingRules

/-- The reference fractions are tenths and hundredths, each the double nearest to it. -/
def reference : PassingRules where
  parameterChange := ⟨.ofDecimal false ⟨4, -1⟩, .ofDecimal false ⟨66, -2⟩⟩
  treasurySpend := ⟨.ofDecimal false ⟨5, -1⟩, .ofDecimal false ⟨75, -2⟩⟩
  contractUpgrade := ⟨.ofDecimal false ⟨6, -1⟩, .ofDecimal false ⟨8, -1⟩⟩

def rule (rules : PassingRules) : ProposalKind → PassingRule
  | .parameterChange => rules.parameterChange
  | .treasurySpend => rules.treasurySpend
  | .contractUpgrade => rules.contractUpgrade

def setRule (rules : PassingRules) (kind : ProposalKind) (rule : PassingRule) : PassingRules :=
  match kind with
  | .parameterChange => { rules with parameterChange := rule }
  | .treasurySpend => { rules with treasurySpend := rule }
  | .contractUpgrade => { rules with contractUpgrade := rule }

def fields : List (Field PassingRules) :=
  [.of "parameter_change" reference.parameterChange.changes (·.parameterChange)
      fun r v => { r with parameterChange := v },
    .of "treasury_spend" reference.treasurySpend.changes (·.treasurySpend)
      fun r v => { r with treasurySpend := v },
    .of "contract_upgrade" reference.contractUpgrade.changes (·.contractUpgrade)
      fun r v => { r with contractUpgrade := v }]

def codec : Codec PassingRules := .record fields reference

def sameValue (a b : PassingRules) : Bool :=
  a.parameterChange.sameValue b.parameterChange && a.treasurySpend.sameValue b.treasurySpend
    && a.contractUpgrade.sameValue b.contractUpgrade

end PassingRules

end ChainRegistry
