import ChainRegistry.Proofs.Shapes
import ChainRegistry.Registry.Form

/-!
# The forms of a registry

The registry, its sections and the records in them are read alike from trees that say the same.
Each of them is a record of values or of further records, so this is put together from the fields.
-/

namespace ChainRegistry

open Members (record_carries record_carries_ofValues whole_carries_ofValues)

namespace Treasury

def shape : Shape := (Members.ofValues fields).shape

@[simp] theorem codec_carries : codec.Carries shape :=
  whole_carries_ofValues (by simp [fields]) reference

end Treasury

namespace GasBounds

def shape : Shape := (Members.ofValues fields).shape

@[simp] theorem codec_carries : codec.Carries shape :=
  record_carries_ofValues (by simp [fields]) reference

end GasBounds

namespace GasTariff

def shape : Shape := (Members.ofValues fields).shape

@[simp] theorem codec_carries : codec.Carries shape :=
  record_carries_ofValues (by simp [fields]) reference

end GasTariff

namespace BlockRules

def members : Members BlockRules :=
  fields.zip [.leaf, .leaf, GasBounds.shape, GasTariff.shape]

def shape : Shape := members.shape

@[simp] theorem codec_carries : codec.Carries shape := by
  have hcarry : members.Carry := by
    simp [Members.Carry, members, fields]
  exact record_carries hcarry reference

end BlockRules

namespace VotingPeriods

def shape : Shape := (Members.ofValues fields).shape

@[simp] theorem codec_carries : codec.Carries shape :=
  record_carries_ofValues (by simp [fields]) reference

end VotingPeriods

namespace PassingRule

def shape : Shape := (Members.ofValues fields).shape

theorem codec_carries : codec.Carries shape :=
  whole_carries_ofValues (by simp [fields]) _

@[simp] theorem changes_carries (base : PassingRule) : base.changes.Carries shape :=
  record_carries_ofValues (by simp [fields]) base

end PassingRule

namespace PassingRules

def members : Members PassingRules :=
  fields.zip [PassingRule.shape, PassingRule.shape, PassingRule.shape]

def shape : Shape := members.shape

@[simp] theorem codec_carries : codec.Carries shape := by
  have hcarry : members.Carry := by
    simp [Members.Carry, members, fields]
  exact record_carries hcarry reference

end PassingRules

namespace ChatLimits

def shape : Shape := (Members.ofValues fields).shape

@[simp] theorem codec_carries : codec.Carries shape :=
  record_carries_ofValues (by simp [fields]) reference

end ChatLimits

@[simp] theorem Jurisdictions.codec_carries : codec.Carries .leaf := by
  intro origin target node other hagrees v hread
  obtain ⟨tags, htags, rfl⟩ := Option.map_eq_some_iff.mp hread
  exact Option.map_eq_some_iff.mpr ⟨tags, Codec.texts_carries hagrees tags htags, rfl⟩

namespace PinnedPolicies

def shape : Shape := (Members.ofValues fields).shape

@[simp] theorem codec_carries : codec.Carries shape :=
  record_carries_ofValues (by simp [fields]) reference

end PinnedPolicies

namespace Throughput

def shape : Shape := (Members.ofValues fields).shape

theorem codec_carries : codec.Carries shape :=
  whole_carries_ofValues (by simp [fields]) _

@[simp] theorem changes_carries (base : Throughput) : base.changes.Carries shape :=
  record_carries_ofValues (by simp [fields]) base

end Throughput

namespace ThroughputTargets

def members : Members ThroughputTargets :=
  fields.zip (List.replicate 6 Throughput.shape)

def shape : Shape := members.shape

@[simp] theorem codec_carries : codec.Carries shape := by
  have hcarry : members.Carry := by
    simp [Members.Carry, members, fields]
  exact record_carries hcarry reference

end ThroughputTargets

namespace AmountBounds

def shape : Shape := (Members.ofValues fields).shape

@[simp] theorem codec_carries : codec.Carries shape :=
  whole_carries_ofValues (by simp [fields]) reference

end AmountBounds

namespace Endpoints

def shape : Shape := (Members.ofValues fields).shape

@[simp] theorem codec_carries : codec.Carries shape :=
  record_carries_ofValues (by simp [fields]) reference

end Endpoints

namespace Quotas

def shape : Shape := (Members.ofValues fields).shape

@[simp] theorem codec_carries : codec.Carries shape :=
  record_carries_ofValues (by simp [fields]) reference

end Quotas

namespace Registry

def members : Members Registry :=
  openSections.zip [.leaf, BlockRules.shape, VotingPeriods.shape, PassingRules.shape,
    ChatLimits.shape, .leaf, ThroughputTargets.shape, PinnedPolicies.shape, Endpoints.shape,
    Quotas.shape]

def shape : Shape := members.shape

theorem codec_carries : codec.Carries shape := by
  have hcarry : members.Carry := by
    simp [Members.Carry, members, openSections, auditField, blocksField, votingField, passingField,
    chatField, jurisdictionsField, throughputField, policiesField, endpointsField, quotasField]
  exact record_carries hcarry reference

end Registry

/-- A type that is read from documents, with the shape of the records in it. -/
structure Form where
  {Value : Type}
  codec : Codec Value
  shape : Shape
  carries : codec.Carries shape

/-- The registry, its sections and the records in them. -/
def Registry.forms : List Form :=
  [⟨Registry.codec, Registry.shape, Registry.codec_carries⟩,
    ⟨Treasury.codec, Treasury.shape, Treasury.codec_carries⟩,
    ⟨BlockRules.codec, BlockRules.shape, BlockRules.codec_carries⟩,
    ⟨GasBounds.codec, GasBounds.shape, GasBounds.codec_carries⟩,
    ⟨GasTariff.codec, GasTariff.shape, GasTariff.codec_carries⟩,
    ⟨VotingPeriods.codec, VotingPeriods.shape, VotingPeriods.codec_carries⟩,
    ⟨PassingRules.codec, PassingRules.shape, PassingRules.codec_carries⟩,
    ⟨PassingRule.codec, PassingRule.shape, PassingRule.codec_carries⟩,
    ⟨ChatLimits.codec, ChatLimits.shape, ChatLimits.codec_carries⟩,
    ⟨Jurisdictions.codec, .leaf, Jurisdictions.codec_carries⟩,
    ⟨ThroughputTargets.codec, ThroughputTargets.shape, ThroughputTargets.codec_carries⟩,
    ⟨Throughput.codec, Throughput.shape, Throughput.codec_carries⟩,
    ⟨AmountBounds.codec, AmountBounds.shape, AmountBounds.codec_carries⟩,
    ⟨PinnedPolicies.codec, PinnedPolicies.shape, PinnedPolicies.codec_carries⟩,
    ⟨Endpoints.codec, Endpoints.shape, Endpoints.codec_carries⟩,
    ⟨Quotas.codec, Quotas.shape, Quotas.codec_carries⟩]

end ChainRegistry
