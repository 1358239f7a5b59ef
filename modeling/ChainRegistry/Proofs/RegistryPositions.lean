import ChainRegistry.Proofs.Positions
import ChainRegistry.Proofs.RegistryForms

/-!
# The registry by position

Every record type of the registry can be written by position.  A list of at most as many items as
there are fields is read as the table that names them, and the fields behind its end are those of
the value that the reading starts from; a type that is given in full is not read from a list that
ends early.  A longer list is refused by JSON and cut off elsewhere.  Records inside of records
follow the same rule, so that it does not matter which of them are lists and which are tables.

The treasury and the bounds on amounts are records like the others, but they have no place in a list
of sections.
-/

namespace ChainRegistry

/-! ## Changes to rules and targets -/

namespace PassingRules

def changeFields (rules : PassingRules) : List (Field PassingRules) :=
  [.of "parameter_change" rules.parameterChange.changes (·.parameterChange)
      fun r v => { r with parameterChange := v },
    .of "treasury_spend" rules.treasurySpend.changes (·.treasurySpend)
      fun r v => { r with treasurySpend := v },
    .of "contract_upgrade" rules.contractUpgrade.changes (·.contractUpgrade)
      fun r v => { r with contractUpgrade := v }]

/-- Rules given as changes to others.  What the changes are is told by what they make of every set
of rules. -/
def changes (rules : PassingRules) : Codec PassingRules :=
  .record rules.changeFields rules

theorem changes_reference : reference.changes = codec := rfl

end PassingRules

namespace ThroughputTargets

def changeFields (targets : ThroughputTargets) : List (Field ThroughputTargets) :=
  [.of "chat_router" targets.chatRouter.changes (·.chatRouter)
      fun r v => { r with chatRouter := v },
    .of "wallet" targets.wallet.changes (·.wallet) fun r v => { r with wallet := v },
    .of "governance" targets.governance.changes (·.governance)
      fun r v => { r with governance := v },
    .of "agent" targets.agent.changes (·.agent) fun r v => { r with agent := v },
    .of "migration" targets.migration.changes (·.migration)
      fun r v => { r with migration := v },
    .of "total_network" targets.totalNetwork.changes (·.totalNetwork)
      fun r v => { r with totalNetwork := v }]

/-- Targets given as changes to others. -/
def changes (targets : ThroughputTargets) : Codec ThroughputTargets :=
  .record targets.changeFields targets

theorem changes_reference : reference.changes = codec := rfl

end ThroughputTargets

/-! ## Types that are read by position -/

/-- A record type with its fields in order and the value that a reading starts from. -/
structure Positional where
  {Value : Type}
  codec : Codec Value
  members : Members Value
  start : Value
  isStrict : Bool
  reads : codec.read? = if isStrict then Record.readWhole? members.fields start
    else Record.readOver? members.fields start
  readsNamed : members.ReadNamed
  nodup : (members.fields.map Field.name).Nodup
  apart : Record.Apart members.fields

namespace Positional

def fields (form : Positional) : List (Field form.Value) :=
  form.members.fields

def names (form : Positional) : List String :=
  form.fields.map Field.name

/-- The type of which every field holds a value. -/
def ofValues {ρ : Type} (codec : Codec ρ) (fields : List (Field ρ)) (start : ρ) (isStrict : Bool)
    (hreads : codec.read? = if isStrict then Record.readWhole? fields start
      else Record.readOver? fields start)
    (hnodup : (fields.map Field.name).Nodup) (hapart : Record.Apart fields) : Positional where
  codec := codec
  members := .ofValues fields
  start := start
  isStrict := isStrict
  reads := by rw [Members.fields_ofValues, hreads]
  readsNamed := List.forall_mem_map.mpr fun field _ => field.readsNamed_leaf
  nodup := by rwa [Members.fields_ofValues]
  apart := by rwa [Members.fields_ofValues]

/-- What reading by position means. -/
structure IsFaithful (form : Positional) : Prop where
  names : ∀ origin items, items.length ≤ form.fields.length →
    form.codec.read? origin (.list items) =
      form.codec.read? origin (.table (form.names.zip items))
  nested : ∀ origin node other,
    form.members.shape.named origin node = form.members.shape.named origin other →
      form.codec.read? origin node = form.codec.read? origin other
  tail : ∀ origin items value, form.codec.read? origin (.list items) = some value →
    ∀ field ∈ form.fields.drop items.length, field.write value = field.write form.start
  strict : form.isStrict = true → ∀ origin items, items.length < form.fields.length →
    form.codec.read? origin (.list items) = none
  surplus : ∀ origin items, form.fields.length < items.length →
    form.codec.read? origin (.list items) =
      if origin = .json then none
      else form.codec.read? origin (.list (items.take form.fields.length))

theorem codec_readsNamed (form : Positional) : form.codec.ReadsNamed form.members.shape := by
  intro origin node
  rw [form.reads]
  split
  · exact Members.whole_readsNamed form.readsNamed form.nodup form.start origin node
  · exact Members.record_readsNamed form.readsNamed form.nodup form.start origin node

/-- The same type with all its fields taken for values. -/
def flat (form : Positional) : Positional :=
  ofValues form.codec form.fields form.start form.isStrict form.reads form.nodup form.apart

theorem readItems?_of_read? {form : Positional} {origin : Origin} {items : List Node}
    {value : form.Value} (hread : form.codec.read? origin (.list items) = some value) :
    Record.readItems? origin items form.fields form.start = some value := by
  rw [form.reads] at hread
  split at hread
  · exact (Option.ite_none_right_eq_some.mp hread).2
  · exact hread

theorem read?_of_surplus (form : Positional) (origin : Origin) {items : List Node}
    (hlong : form.fields.length < items.length) :
    form.codec.read? origin (.list items) =
      if origin = .json then none
      else form.codec.read? origin (.list (items.take form.fields.length)) := by
  have hall : ∀ items : List Node, form.fields.length ≤ items.length →
      form.codec.read? origin (.list items) =
        Record.readItems? origin items form.fields form.start := by
    intro items hitems
    rw [form.reads]
    split
    · exact if_pos (decide_eq_true hitems)
    · rfl
  rw [hall items (Nat.le_of_lt hlong)]
  split
  next horigin =>
    rw [horigin]
    exact Record.readItems?_json_of_long hlong
  next horigin =>
    have htake : form.fields.length ≤ (items.take form.fields.length).length := by
      simp [Nat.le_of_lt hlong]
    rw [hall _ htake, Record.readItems?_take horigin]

theorem isFaithful (form : Positional) : form.IsFaithful where
  names origin items hfits := by
    have hlength : items.length ≤ (Members.ofValues form.fields).shapes.length := by
      rwa [Members.length_shapes, Members.ofValues, List.length_map]
    have hnamed : form.flat.members.shape.named origin (.list items) =
        .table (form.names.zip items) :=
      (Shape.named_list fun _ => hlength).trans
        (congrArg Node.table (Members.namedItems_ofValues form.fields items))
    have hread := form.flat.codec_readsNamed origin (.list items)
    rw [hnamed] at hread
    exact hread.symm
  nested origin node other hsame := by
    rw [← form.codec_readsNamed origin node, hsame, form.codec_readsNamed origin other]
  tail origin items value hread :=
    Record.readItems?_apart form.apart (readItems?_of_read? hread)
  strict hstrict origin items hshort := by
    have hmentions : Record.mentionsAll form.fields (.list items) ≠ true := by
      simpa [Record.mentionsAll] using hshort
    rw [form.reads, if_pos hstrict]
    exact if_neg hmentions
  surplus origin items hlong := form.read?_of_surplus origin hlong

end Positional

/-! ## The types of the registry -/

namespace Treasury

def positional : Positional :=
  .ofValues codec fields reference true rfl (by decide) (by simp [Record.Apart, fields])

end Treasury

namespace GasBounds

def positional : Positional :=
  .ofValues codec fields reference false rfl (by decide) (by simp [Record.Apart, fields])

@[simp] theorem codec_readsNamed : codec.ReadsNamed shape :=
  positional.codec_readsNamed

end GasBounds

namespace GasTariff

def positional : Positional :=
  .ofValues codec fields reference false rfl (by decide) (by simp [Record.Apart, fields])

@[simp] theorem codec_readsNamed : codec.ReadsNamed shape :=
  positional.codec_readsNamed

end GasTariff

namespace BlockRules

def positional : Positional where
  codec := codec
  members := members
  start := reference
  isStrict := false
  reads := rfl
  readsNamed := by simp [Members.ReadNamed, members, fields]
  nodup := by decide
  apart := by simp [Record.Apart, Members.fields, members, fields]

@[simp] theorem codec_readsNamed : codec.ReadsNamed shape :=
  positional.codec_readsNamed

end BlockRules

namespace VotingPeriods

def positional : Positional :=
  .ofValues codec fields reference false rfl (by decide) (by simp [Record.Apart, fields])

@[simp] theorem codec_readsNamed : codec.ReadsNamed shape :=
  positional.codec_readsNamed

end VotingPeriods

namespace PassingRule

def positional : Positional :=
  .ofValues codec fields ⟨.zero, .zero⟩ true rfl (by decide) (by simp [Record.Apart, fields])

def changesPositional (base : PassingRule) : Positional :=
  .ofValues base.changes (fields.map Field.nullable) base false rfl (by decide)
    (by simp [Record.Apart, fields])

@[simp] theorem changes_readsNamed (base : PassingRule) : base.changes.ReadsNamed shape :=
  base.changesPositional.codec_readsNamed

end PassingRule

namespace PassingRules

def changeMembers (rules : PassingRules) : Members PassingRules :=
  rules.changeFields.zip [PassingRule.shape, PassingRule.shape, PassingRule.shape]

def changesPositional (rules : PassingRules) : Positional where
  codec := rules.changes
  members := rules.changeMembers
  start := rules
  isStrict := false
  reads := rfl
  readsNamed := by simp [Members.ReadNamed, changeMembers, changeFields]
  nodup := by simp [Members.fields, changeMembers, changeFields, Field.of]
  apart := by simp [Record.Apart, Members.fields, changeMembers, changeFields]

@[simp] theorem codec_readsNamed : codec.ReadsNamed shape :=
  reference.changesPositional.codec_readsNamed

end PassingRules

namespace ChatLimits

def positional : Positional :=
  .ofValues codec fields reference false rfl (by decide) (by simp [Record.Apart, fields])

@[simp] theorem codec_readsNamed : codec.ReadsNamed shape :=
  positional.codec_readsNamed

end ChatLimits

namespace ChatRecord

def positional : Positional :=
  .ofValues codec fields ⟨none, none, []⟩ false rfl (by decide) (by simp [Record.Apart, fields])

end ChatRecord

namespace PinnedPolicies

def positional : Positional :=
  .ofValues codec fields reference false rfl (by decide) (by simp [Record.Apart, fields])

@[simp] theorem codec_readsNamed : codec.ReadsNamed shape :=
  positional.codec_readsNamed

end PinnedPolicies

namespace Throughput

def positional : Positional :=
  .ofValues codec fields ⟨0, 0⟩ true rfl (by decide) (by simp [Record.Apart, fields])

def changesPositional (base : Throughput) : Positional :=
  .ofValues base.changes (fields.map Field.nullable) base false rfl (by decide)
    (by simp [Record.Apart, fields])

@[simp] theorem changes_readsNamed (base : Throughput) : base.changes.ReadsNamed shape :=
  base.changesPositional.codec_readsNamed

end Throughput

namespace ThroughputTargets

def changeMembers (targets : ThroughputTargets) : Members ThroughputTargets :=
  targets.changeFields.zip (List.replicate 6 Throughput.shape)

def changesPositional (targets : ThroughputTargets) : Positional where
  codec := targets.changes
  members := targets.changeMembers
  start := targets
  isStrict := false
  reads := rfl
  readsNamed := by simp [Members.ReadNamed, changeMembers, changeFields]
  nodup := by simp [Members.fields, changeMembers, changeFields, Field.of]
  apart := by simp [Record.Apart, Members.fields, changeMembers, changeFields]

@[simp] theorem codec_readsNamed : codec.ReadsNamed shape :=
  reference.changesPositional.codec_readsNamed

end ThroughputTargets

namespace AmountBounds

def positional : Positional :=
  .ofValues codec fields reference true rfl (by decide) (by simp [Record.Apart, fields])

end AmountBounds

namespace Endpoints

def positional : Positional :=
  .ofValues codec fields reference false rfl (by decide) (by simp [Record.Apart, fields])

@[simp] theorem codec_readsNamed : codec.ReadsNamed shape :=
  positional.codec_readsNamed

end Endpoints

namespace Quotas

def positional : Positional :=
  .ofValues codec fields reference false rfl (by decide) (by simp [Record.Apart, fields])

@[simp] theorem codec_readsNamed : codec.ReadsNamed shape :=
  positional.codec_readsNamed

end Quotas

namespace Registry

def positional : Positional where
  codec := codec
  members := members
  start := reference
  isStrict := false
  reads := rfl
  readsNamed := by
    simp [Members.ReadNamed, members, openSections, auditField, blocksField, votingField,
      passingField, chatField, jurisdictionsField, throughputField, policiesField, endpointsField,
      quotasField]
  nodup := by decide
  apart := by
    simp [Record.Apart, Members.fields, members, openSections, auditField, blocksField, votingField,
      passingField, chatField, jurisdictionsField, throughputField, policiesField, endpointsField,
      quotasField]

/-- The registry, its sections and the records in them, the changes to rules and targets, and the
metadata of chats. -/
def positionals (rules : PassingRules) (rule : PassingRule) (targets : ThroughputTargets)
    (target : Throughput) : List Positional :=
  [Registry.positional, Treasury.positional, BlockRules.positional, GasBounds.positional,
    GasTariff.positional, VotingPeriods.positional, PassingRules.reference.changesPositional,
    rules.changesPositional, PassingRule.positional, rule.changesPositional, ChatLimits.positional,
    ThroughputTargets.reference.changesPositional, targets.changesPositional,
    Throughput.positional, target.changesPositional, AmountBounds.positional,
    PinnedPolicies.positional, Endpoints.positional, Quotas.positional, ChatRecord.positional]

/-- Every record type is read by position as it is by name, at every depth. -/
theorem positionals_faithful (rules : PassingRules) (rule : PassingRule)
    (targets : ThroughputTargets) (target : Throughput) :
    ∀ form ∈ positionals rules rule targets target, form.IsFaithful :=
  fun form _ => form.isFaithful

/-- A section by position and by name, with the other form in either place inside of it. -/
theorem positionals_faithful_blocks :
    BlockRules.codec.read? .json (.list [.int 5000, .int 200, .list [.int 1, .int 2],
        .table [("default", .int 7), ("minimum", .int 3)]]) =
      BlockRules.codec.read? .json (.table [("block_time_ms", .int 5000),
        ("max_transactions_per_block", .int 200),
        ("gas_limits", .table [("min", .int 1), ("max", .int 2)]),
        ("gas_price", .list [.int 7, .int 3])]) := by
  have hfaithful : BlockRules.positional.IsFaithful :=
    positionals_faithful .reference PassingRules.reference.treasurySpend .reference
      ThroughputTargets.reference.wallet BlockRules.positional (by simp [positionals])
  exact hfaithful.nested .json _ _ rfl

end Registry

end ChainRegistry
