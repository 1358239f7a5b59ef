import ChainRegistry.Document.Json.Reader
import ChainRegistry.Document.Json.Writer
import ChainRegistry.Document.Toml.Reader
import ChainRegistry.Document.Toml.Writer
import ChainRegistry.Registry.Basic

/-!
# Registries as documents

A registry is written with all its sections.  It is read over the reference registry, and the
treasury and the bounds on amounts are never read: whatever a document says about them is passed
over, and in a list of sections they have no place.

TOML cannot hold integers beyond sixty-three bits, so a registry may have no TOML text.  JSON cannot
hold fractions without digits; they are written as nulls.
-/

namespace ChainRegistry

inductive Format where
  | json
  | toml
  deriving DecidableEq, Repr

namespace Registry

def auditField : Field Registry :=
  .of "audit_retention_ms" .word64 (·.auditRetentionMs) fun r v => { r with auditRetentionMs := v }

def treasuryField : Field Registry :=
  .of "treasury" Treasury.codec (·.treasury) fun r v => { r with treasury := v }

def blocksField : Field Registry :=
  .of "network" BlockRules.codec (·.blocks) fun r v => { r with blocks := v }

def votingField : Field Registry :=
  .of "governance" VotingPeriods.codec (·.voting) fun r v => { r with voting := v }

def passingField : Field Registry :=
  .of "proposals" PassingRules.codec (·.passing) fun r v => { r with passing := v }

def chatField : Field Registry :=
  .of "chat_limits" ChatLimits.codec (·.chat) fun r v => { r with chat := v }

def jurisdictionsField : Field Registry :=
  .of "jurisdictions" Jurisdictions.codec (·.jurisdictions) fun r v => { r with jurisdictions := v }

def throughputField : Field Registry :=
  .of "tps_targets" ThroughputTargets.codec (·.throughput) fun r v => { r with throughput := v }

def amountsField : Field Registry :=
  .of "safety" AmountBounds.codec (·.amounts) fun r v => { r with amounts := v }

def policiesField : Field Registry :=
  .of "policy_versions" PinnedPolicies.codec (·.policies) fun r v => { r with policies := v }

def endpointsField : Field Registry :=
  .of "ports" Endpoints.codec (·.endpoints) fun r v => { r with endpoints := v }

def quotasField : Field Registry :=
  .of "rate_limits" Quotas.codec (·.quotas) fun r v => { r with quotas := v }

def sections : List (Field Registry) :=
  [auditField, treasuryField, blocksField, votingField, passingField, chatField,
    jurisdictionsField, throughputField, amountsField, policiesField, endpointsField, quotasField]

def openSections : List (Field Registry) :=
  [auditField, blocksField, votingField, passingField, chatField, jurisdictionsField,
    throughputField, policiesField, endpointsField, quotasField]

/-- The names of the sections that no source can change. -/
def sealedSections : List String :=
  [treasuryField.name, amountsField.name]

def codec : Codec Registry where
  write := Record.write sections
  read? := Record.readOver? openSections reference

def section? (name : String) : Option (Field Registry) :=
  sections.find? fun field => field.name == name

def print? (r : Registry) : Format → Option String
  | .json => some (Json.print .spread (codec.write r))
  | .toml => Toml.print? (codec.write r)

def parse? (text : String) : Format → Option Registry
  | .json => (Json.parse? text).bind (codec.read? .json)
  | .toml => (Toml.parse? text).bind (codec.read? .toml)

end Registry

end ChainRegistry
