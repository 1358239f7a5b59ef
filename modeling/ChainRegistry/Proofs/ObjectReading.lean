import ChainRegistry.Proofs.NodeValues
import ChainRegistry.Proofs.RegistryLeaves
import Mathlib.Data.List.Infix

/-!
# Reading objects

A document in the form of objects says something about some of the leaves, and nothing else in it
counts.  Every leaf is settled by itself: a node that denotes a value sets it, a null sets none if
nulls are allowed, and any other node spoils the whole reading.  So a part of a document is never
applied without the rest, and a number that does not fit its leaf is never cut down to it.
-/

namespace ChainRegistry

/-! ## What a tree says -/

namespace Leaf

variable {ρ : Type} {leaf : Leaf ρ} {tree : Node}

theorem given?_eq_some_iff {node : Node} :
    leaf.given? tree = some node ↔
      tree.at? leaf.path = some node ∧ (leaf.nullable → node ≠ .null) := by
  rw [given?, Option.filter_eq_some_iff]
  apply and_congr_right
  intro _
  cases node <;> simp [Node.isNull]

theorem outcome?_eq_none_iff {origin : Origin} (horigin : origin ≠ .settings) {reference : ρ} :
    leaf.outcome? reference origin tree = none ↔
      ∃ node, tree.at? leaf.path = some node ∧ (leaf.nullable → node ≠ .null) ∧
        ∀ value, ¬ leaf.kind.Denotes node value := by
  have hdenotes (node : Node) : leaf.kind.read? origin node = none ↔
      ∀ value, ¬ leaf.kind.Denotes node value := by
    simp only [Option.eq_none_iff_forall_ne_some, ne_eq, LeafKind.read?_eq_some_iff horigin]
  unfold outcome?
  cases hgiven : leaf.given? tree with
  | none =>
      simp only [reduceCtorEq, false_iff, not_exists]
      rintro node ⟨hat, hnull, -⟩
      have hsome := given?_eq_some_iff.mpr ⟨hat, hnull⟩
      rw [hgiven] at hsome
      contradiction
  | some node =>
      obtain ⟨hat, hnull⟩ := given?_eq_some_iff.mp hgiven
      simp only [hdenotes]
      constructor
      · exact fun hvalue => ⟨node, hat, hnull, hvalue⟩
      · rintro ⟨other, hother, -, hvalue⟩
        obtain rfl := Option.some.inj (hat.symm.trans hother)
        exact hvalue

theorem denotes_of_outcome? {origin : Origin} (horigin : origin ≠ .settings) {reference : ρ}
    {node : Node} {value : LeafValue} (hat : tree.at? leaf.path = some node)
    (hnull : node ≠ .null) (houtcome : leaf.outcome? reference origin tree = some value) :
    leaf.kind.Denotes node value := by
  have hgiven := given?_eq_some_iff.mpr ⟨hat, fun _ => hnull⟩
  rw [outcome?, hgiven] at houtcome
  exact (LeafKind.read?_eq_some_iff horigin).mp houtcome

theorem eq_reference_of_outcome? {origin : Origin} (horigin : origin ≠ .settings) {reference : ρ}
    {value : LeafValue} (hat : tree.at? leaf.path = none ∨ tree.at? leaf.path = some .null)
    (houtcome : leaf.outcome? reference origin tree = some value) :
    value = leaf.get reference := by
  cases hgiven : leaf.given? tree with
  | none =>
      rw [outcome?, hgiven] at houtcome
      exact (Option.some.inj houtcome).symm
  | some node =>
      obtain ⟨hnode, -⟩ := given?_eq_some_iff.mp hgiven
      rw [outcome?, hgiven] at houtcome
      rcases hat with hnone | hnull
      · rw [hnode] at hnone
        contradiction
      · obtain rfl := Option.some.inj (hnode.symm.trans hnull)
        have hdenotes := (LeafKind.read?_eq_some_iff horigin).mp houtcome
        exact absurd hdenotes LeafKind.not_denotes_null

theorem outcome?_congr {other : Node} (hat : other.at? leaf.path = tree.at? leaf.path)
    (reference : ρ) (origin : Origin) :
    leaf.outcome? reference origin other = leaf.outcome? reference origin tree := by
  simp only [outcome?, given?, hat]

end Leaf

instance : DecidablePred Node.IsObject
  | .table entries => inferInstanceAs (Decidable (entries.map Prod.fst).Nodup)
  | .null | .bool _ | .int _ | .float _ | .text _ | .date _ | .list _ | .illegible =>
    isFalse fun h => h

instance {ρ : Type} (leaves : List (Leaf ρ)) (tree : Node) : Decidable (InObjectForm leaves tree) :=
  decidable_of_iff
    (∀ leaf ∈ leaves, ∀ path ∈ leaf.path.inits, path ≠ leaf.path →
      ∀ node ∈ tree.at? path, node.IsObject)
    (by simp only [InObjectForm, List.mem_inits, Option.mem_def])

namespace Registry

example : (leaves.filter Leaf.nullable).length = 18 ∧ leaves.length = 46 := by decide

theorem read?_congr {origin : Origin} {tree other : Node} (hform : InObjectForm leaves tree)
    (hform' : InObjectForm leaves other)
    (hat : ∀ leaf ∈ leaves, other.at? leaf.path = tree.at? leaf.path) :
    codec.read? origin other = codec.read? origin tree := by
  apply eq_of_decided (codec_follows origin tree hform) (codec_follows origin other hform')
  · exact fun leaf hleaf => Leaf.outcome?_congr (hat leaf hleaf) reference origin
  · exact fun _ hread => sealedPart_of_read? hread
  · exact fun _ hread => sealedPart_of_read? hread

/-- Reading a document in the form of objects: every leaf has the value that the document gives it
or else its reference value, the reading fails exactly if some leaf is given what denotes no value
for it, and nothing but the nodes of the leaves counts. -/
theorem read_document_by_leaves (tree : Node) (hform : InObjectForm leaves tree) :
    (∀ r, codec.read? .json tree = some r →
      r.treasury = .reference ∧ r.amounts = .reference ∧
      ∀ leaf ∈ leaves,
        (∀ node, tree.at? leaf.path = some node → node ≠ .null →
          leaf.kind.Denotes node (leaf.get r)) ∧
        (tree.at? leaf.path = none ∨ tree.at? leaf.path = some .null →
          leaf.get r = leaf.get reference)) ∧
    (codec.read? .json tree = none ↔
      ∃ leaf ∈ leaves, ∃ node, tree.at? leaf.path = some node ∧
        (leaf.nullable → node ≠ .null) ∧ ∀ value, ¬ leaf.kind.Denotes node value) ∧
    ∀ other, InObjectForm leaves other →
      (∀ leaf ∈ leaves, other.at? leaf.path = tree.at? leaf.path) →
        codec.read? .json other = codec.read? .json tree := by
  have hjson : Origin.json ≠ .settings := by decide
  have hdecided := codec_follows .json tree hform
  refine ⟨?_, ?_, ?_⟩
  · intro r hread
    rw [hread] at hdecided
    refine ⟨treasury_of_read? hread, amounts_of_read? hread, ?_⟩
    intro leaf hleaf
    exact ⟨fun node hat hnull => Leaf.denotes_of_outcome? hjson hat hnull (hdecided leaf hleaf),
      fun hat => Leaf.eq_reference_of_outcome? hjson hat (hdecided leaf hleaf)⟩
  · constructor
    · intro hread
      rw [hread] at hdecided
      obtain ⟨leaf, hleaf, houtcome⟩ := hdecided
      exact ⟨leaf, hleaf, (Leaf.outcome?_eq_none_iff hjson).mp houtcome⟩
    · rintro ⟨leaf, hleaf, hwrong⟩
      cases hread : codec.read? .json tree with
      | none => rfl
      | some r =>
          rw [hread] at hdecided
          have houtcome : leaf.outcome? reference .json tree = none :=
            (Leaf.outcome?_eq_none_iff hjson).mpr hwrong
          rw [hdecided leaf hleaf] at houtcome
          contradiction
  · intro other hform' hat
    exact read?_congr hform hform' hat

/-- A document that sets two leaves, one of them by a whole number for a fraction, and that says
nothing about another by a null. -/
def sparseDocument : Node :=
  .table [("comment", .list []), ("treasury", .bool true),
    ("proposals", .table [("treasury_spend", .table [("threshold", .null), ("quorum", .int 1)])]),
    ("tps_targets", .table [("agent", .table [("burst", .int 90000), ("unit", .text "1/s")])])]

theorem sparseDocument_by_leaves :
    InObjectForm leaves sparseDocument ∧
    ∃ r, codec.read? .json sparseDocument = some r ∧
      r.treasury = .reference ∧
      r.passing.treasurySpend = ⟨.ofNat 1, PassingRules.reference.treasurySpend.threshold⟩ ∧
      ∀ leaf ∈ leaves, sparseDocument.at? leaf.path = none → leaf.get r = leaf.get reference := by
  have hform : InObjectForm leaves sparseDocument := by decide +kernel
  let r : Registry := { reference with
    passing := { PassingRules.reference with
      treasurySpend := ⟨.ofNat 1, PassingRules.reference.treasurySpend.threshold⟩ }
    throughput := { ThroughputTargets.reference with agent := ⟨8000, 90000⟩ } }
  have hread : codec.read? .json sparseDocument = some r := by decide +kernel
  obtain ⟨htreasury, -, hleaves⟩ := (read_document_by_leaves sparseDocument hform).1 r hread
  exact ⟨hform, r, hread, htreasury, rfl,
    fun leaf hleaf hnone => (hleaves leaf hleaf).2 (.inl hnone)⟩

end Registry

end ChainRegistry
