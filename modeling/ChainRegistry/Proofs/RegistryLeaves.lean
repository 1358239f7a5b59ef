import ChainRegistry.Proofs.SectionLeaves
import ChainRegistry.Registry.Form

/-!
# Leaves of the registry

The leaves of the registry are those of its open sections.  They tell everything about a registry
but its sealed part, which no document reaches.  A tree in the form of objects is therefore read as
follows: a leaf that the tree gives gets the value that the node there denotes, every other leaf and
the sealed part get their reference values, and the reading fails exactly if a node that is given to
a leaf denotes nothing.
-/

namespace ChainRegistry

namespace Registry

def leafGroups : List (List (Leaf Registry)) :=
  [[.word64].map (Leaf.under "audit_retention_ms" auditRetentionMs),
    BlockRules.leaves.map (Leaf.under "network" blocks),
    VotingPeriods.leaves.map (Leaf.under "governance" voting),
    PassingRules.leaves.map (Leaf.under "proposals" passing),
    ChatLimits.leaves.map (Leaf.under "chat_limits" chat),
    Jurisdictions.leaves.map (Leaf.under "jurisdictions" jurisdictions),
    ThroughputTargets.leaves.map (Leaf.under "tps_targets" throughput),
    PinnedPolicies.leaves.map (Leaf.under "policy_versions" policies),
    Endpoints.leaves.map (Leaf.under "ports" endpoints),
    Quotas.leaves.map (Leaf.under "rate_limits" quotas)]

/-- The leaves outside the sealed sections. -/
def leaves : List (Leaf Registry) := leafGroups.flatten

theorem parts_sound : ∀ part ∈ Part.zip openSections leafGroups, part.Sound reference := by
  simp only [Part.zip, openSections, leafGroups, List.zipWith, List.forall_mem_cons]
  exact ⟨Part.sound_of (Codec.word64_scheme _) fun _ _ => rfl,
    Part.sound_of BlockRules.scheme fun _ _ => rfl,
    Part.sound_of VotingPeriods.scheme fun _ _ => rfl,
    Part.sound_of PassingRules.scheme fun _ _ => rfl,
    Part.sound_of ChatLimits.scheme fun _ _ => rfl,
    Part.sound_of Jurisdictions.scheme fun _ _ => rfl,
    Part.sound_of ThroughputTargets.scheme fun _ _ => rfl,
    Part.sound_of PinnedPolicies.scheme fun _ _ => rfl,
    Part.sound_of Endpoints.scheme fun _ _ => rfl,
    Part.sound_of Quotas.scheme fun _ _ => rfl, by simp⟩

theorem mem_leaves_of_part {part : Part Registry} (hpart : part ∈ Part.zip openSections leafGroups)
    {leaf : Leaf Registry} (hleaf : leaf ∈ part.leaves) : leaf ∈ leaves :=
  List.mem_flatMap.mpr ⟨part, hpart, hleaf⟩

theorem parts_spare : (Part.zip openSections leafGroups).Pairwise fun part other =>
    part.Spares other ∧ other.Spares part := by
  simp only [Part.zip, openSections, leafGroups, List.zipWith, List.pairwise_cons,
    List.forall_mem_cons, List.not_mem_nil, false_implies, implies_true, List.Pairwise.nil,
    and_true]
  and_intros
  all_goals exact Part.of_spares_of fun _ _ => rfl

theorem codec_follows : codec.Follows leaves reference := by
  intro origin tree hform
  exact Record.readOver?_decided (fun part hpart => (parts_sound part hpart).lawful) parts_spare
    (by decide) hform

theorem codec_heeds : codec.Heeds leaves := by
  intro origin tree r hread
  exact Record.readOver?_heeds (fun part hpart => (parts_sound part hpart).lawful.named)
    (fun part hpart => (parts_sound part hpart).heeds) parts_spare hread

theorem openField_or_sealed {field : Field Registry} (hfield : field ∈ sections) :
    (∃ part ∈ Part.zip openSections leafGroups, part.field = field) ∨
      field = treasuryField ∨ field = amountsField := by
  have hfields : openSections = (Part.zip openSections leafGroups).map Part.field := rfl
  have hcases : field ∈ openSections ∨ field = treasuryField ∨ field = amountsField := by
    simp only [sections, openSections, List.mem_cons, List.not_mem_nil, or_false] at hfield ⊢
    grind
  rw [hfields] at hcases
  exact hcases.imp_left List.mem_map.mp

theorem sealed_scalars (r : Registry) :
    (∀ field ∈ Treasury.fields, (field.write r.treasury).isScalar = true) ∧
      ∀ field ∈ AmountBounds.fields, (field.write r.amounts).isScalar = true := by
  simp only [Treasury.fields, AmountBounds.fields, List.forall_mem_cons]
  and_intros
  all_goals first | rfl | simp

theorem codec_shows : codec.Shows leaves := by
  refine Record.write_shows (by decide) (by decide) ?_ ?_ fun part hpart =>
    (parts_sound part hpart).shows
  · intro field hfield r
    rcases openField_or_sealed hfield with ⟨part, hpart, rfl⟩ | rfl | rfl
    · exact (parts_sound part hpart).shows.tidy r
    · exact Record.write_tidy (by decide) (by decide) fun field hfield =>
        .of_isScalar ((sealed_scalars r).1 field hfield)
    · exact Record.write_tidy (by decide) (by decide) fun field hfield =>
        .of_isScalar ((sealed_scalars r).2 field hfield)
  · intro part hpart
    have hopen : part.field ∈ openSections := List.mem_map_of_mem hpart
    simp only [openSections, sections, List.mem_cons, List.not_mem_nil, or_false] at hopen ⊢
    grind

/-- A number stands for a word of one of three sizes. -/
theorem size_of_mem_leaves {leaf : Leaf Registry} (hleaf : leaf ∈ leaves) {size : Nat}
    (hkind : leaf.kind = .number size) :
    size = UInt64.size ∨ size = UInt32.size ∨ size = UInt16.size := by
  have hkinds : ∀ leaf ∈ leaves, leaf.kind ∈ [.number UInt64.size, .number UInt32.size,
      .number UInt16.size, .fraction, .text, .texts] := by
    decide
  simpa [hkind] using hkinds leaf hleaf

theorem size_le_of_mem_leaves {leaf : Leaf Registry} (hleaf : leaf ∈ leaves) (size : Nat)
    (hkind : leaf.kind = .number size) : size ≤ UInt64.size := by
  rcases size_of_mem_leaves hleaf hkind with rfl | rfl | rfl <;> decide

theorem get_of_sealed {leaf : Leaf Registry} (hleaf : leaf ∈ leaves) (r : Registry)
    (treasury : Treasury) (amounts : AmountBounds) :
    leaf.get { r with treasury := treasury, amounts := amounts } = leaf.get r := by
  obtain ⟨group, hgroup, hmem⟩ := List.mem_flatten.mp hleaf
  simp only [leafGroups, List.mem_cons, List.not_mem_nil, or_false] at hgroup
  rcases hgroup with rfl | rfl | rfl | rfl | rfl | rfl | rfl | rfl | rfl | rfl
  all_goals
    obtain ⟨inner, -, rfl⟩ := List.mem_map.mp hmem
    rfl

theorem eq_of_leaves {r s : Registry} (hsame : ∀ leaf ∈ leaves, leaf.get r = leaf.get s)
    (hsealed : r.sealedPart = s.sealedPart) : r = s := by
  have hgroups : ∀ group ∈ leafGroups, ∀ leaf ∈ group, leaf.get r = leaf.get s :=
    fun group hgroup leaf hleaf =>
      hsame leaf (List.mem_flatten.mpr ⟨group, hgroup, hleaf⟩)
  simp only [leafGroups, List.forall_mem_cons] at hgroups
  obtain ⟨haudit, hblocks, hvoting, hpassing, hchat, hjurisdictions, hthroughput, hpolicies,
    hendpoints, hquotas, -⟩ := hgroups
  have haudit := (Codec.word64_scheme 0).eq_of_under haudit
  have hblocks := BlockRules.scheme.eq_of_under hblocks
  have hvoting := VotingPeriods.scheme.eq_of_under hvoting
  have hpassing := PassingRules.scheme.eq_of_under hpassing
  have hchat := ChatLimits.scheme.eq_of_under hchat
  have hjurisdictions := Jurisdictions.scheme.eq_of_under hjurisdictions
  have hthroughput := ThroughputTargets.scheme.eq_of_under hthroughput
  have hpolicies := PinnedPolicies.scheme.eq_of_under hpolicies
  have hendpoints := Endpoints.scheme.eq_of_under hendpoints
  have hquotas := Quotas.scheme.eq_of_under hquotas
  obtain ⟨htreasury, hamounts⟩ := Prod.mk.inj hsealed
  cases r
  cases s
  simp_all

/-- Two results are the same if the trees say the same about all leaves and both results have the
sealed part of the reference. -/
theorem eq_of_decided {origin : Origin} {tree other : Node} {result result' : Option Registry}
    (hdecided : DecidedByLeaves leaves reference origin tree result)
    (hdecided' : DecidedByLeaves leaves reference origin other result')
    (hsame : ∀ leaf ∈ leaves,
      leaf.outcome? reference origin other = leaf.outcome? reference origin tree)
    (hsealed : ∀ r ∈ result, r.sealedPart = reference.sealedPart)
    (hsealed' : ∀ r ∈ result', r.sealedPart = reference.sealedPart) : result' = result := by
  cases result with
  | none =>
      obtain ⟨leaf, hleaf, houtcome⟩ := hdecided
      cases result' with
      | none => rfl
      | some s =>
          have hsome := hdecided' leaf hleaf
          rw [hsame leaf hleaf, houtcome] at hsome
          contradiction
  | some r =>
      cases result' with
      | none =>
          obtain ⟨leaf, hleaf, houtcome⟩ := hdecided'
          rw [hsame leaf hleaf, hdecided leaf hleaf] at houtcome
          contradiction
      | some s =>
          have hleaves : ∀ leaf ∈ leaves, leaf.get s = leaf.get r := by
            intro leaf hleaf
            have hvalue := hdecided' leaf hleaf
            rw [hsame leaf hleaf, hdecided leaf hleaf] at hvalue
            exact (Option.some.inj hvalue).symm
          exact congrArg some (eq_of_leaves hleaves ((hsealed' s rfl).trans (hsealed r rfl).symm))

theorem read?_eq_some_of_outcomes {origin : Origin} {tree : Node} {r : Registry}
    (hform : InObjectForm leaves tree)
    (houtcomes : ∀ leaf ∈ leaves, leaf.outcome? reference origin tree = some (leaf.get r))
    (hsealed : r.sealedPart = reference.sealedPart) : codec.read? origin tree = some r := by
  have hdecided : DecidedByLeaves leaves reference origin tree (some r) := houtcomes
  apply eq_of_decided hdecided (codec_follows origin tree hform) fun _ _ => rfl
  · rintro s ⟨rfl⟩
    exact hsealed
  · exact fun _ hread => sealedPart_of_read? hread

end Registry

end ChainRegistry
