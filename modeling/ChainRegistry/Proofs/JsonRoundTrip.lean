import ChainRegistry.Proofs.Json.Documents
import ChainRegistry.Proofs.NodeValues
import ChainRegistry.Proofs.RegistryLeaves

/-!
# Registries read back from JSON

Every registry has a JSON text, and numbers and texts of all kinds come back from it.  Two things do
not: the sealed sections, which are never read, and fractions that are no numbers or infinite,
which are written as nulls and come back as the reference fractions of their places.  The reader
multiplies and divides doubles and may miss a finite fraction by the last place.  Where it meets all
fractions of a registry, the registry comes back whole.
-/

namespace ChainRegistry

/-! ## Fractions without digits -/

/-- A finite number, or else its reference. -/
def Binary64.finiteOr (reference x : Binary64) : Binary64 :=
  if x.isFinite then x else reference

def PassingRule.finiteOr (reference rule : PassingRule) : PassingRule where
  quorum := reference.quorum.finiteOr rule.quorum
  threshold := reference.threshold.finiteOr rule.threshold

def PassingRules.finiteOr (reference rules : PassingRules) : PassingRules where
  parameterChange := reference.parameterChange.finiteOr rules.parameterChange
  treasurySpend := reference.treasurySpend.finiteOr rules.treasurySpend
  contractUpgrade := reference.contractUpgrade.finiteOr rules.contractUpgrade

def LeafValue.finiteOr (reference : LeafValue) : LeafValue → LeafValue
  | .fraction x => if x.isFinite then .fraction x else reference
  | value => value

/-- The quorums and thresholds of all kinds of proposals. -/
def PassingRules.fractions (rules : PassingRules) : List Binary64 :=
  [rules.parameterChange, rules.treasurySpend, rules.contractUpgrade].flatMap fun rule =>
    [rule.quorum, rule.threshold]

namespace Json

/-- The reader meets a double if the shortest decimal written for it is read as that double. -/
def Meets (x : Binary64) : Prop :=
  parse? (String.ofList (floatForm.write x)) = some (.float x)

instance : DecidablePred Meets := fun x =>
  match h : parse? (String.ofList (floatForm.write x)) with
  | some (.float y) => decidable_of_iff (y = x) (by simp [Meets, h])
  | some .null | some (.bool _) | some (.int _) | some (.text _) | some (.date _)
  | some (.list _) | some (.table _) | some .illegible | none =>
    isFalse (by simp [Meets, h])

/-- An eleventh is missed. -/
example : ¬Meets (.ofQuotient false 1 11) := by decide +kernel

theorem floatBack_of_meets {x : Binary64} (hx : Meets x) : floatBack x = .float x := by
  rw [floatBack, hx, Option.getD_some]

theorem floatBack_of_not_finite {x : Binary64} (hx : x.isFinite = false) : floatBack x = .null := by
  have hnull : floatForm.write x = "null".toList := by
    cases x with
    | nan => rfl
    | signed negative m =>
        have hinfinite : m.val = infinityPattern := by
          simp only [Binary64.isFinite, decide_eq_false_iff_not] at hx
          omega
        simp [FloatForm.write, hinfinite, floatForm]
  rw [floatBack, hnull, spells_null.parse?, Option.getD_some]

/-! ## Paths -/

theorem at?_readBack {path : List String} {tree node : Node} (hat : tree.at? path = some node) :
    (readBack tree).at? path = some (readBack node) := by
  induction path generalizing tree with
  | nil => simpa [Node.at?] using congrArg (Option.map readBack) hat
  | cons key path ih =>
      cases tree with
      | table entries =>
          simp only [Node.at?, Option.bind_eq_some_iff] at hat
          obtain ⟨inner, hfind, hinner⟩ := hat
          simp [readBack, readBackEntries_eq_map, Node.at?, Node.find?_map, hfind, ih hinner]
      | _ => cases hat

theorem isObject_readBack {node : Node} (hnode : node.IsObject) : (readBack node).IsObject := by
  cases node with
  | table entries =>
      simpa [readBack, readBackEntries_eq_map, Node.IsObject, Function.comp_def] using hnode
  | _ => exact hnode.elim

theorem readBack_node {kind : LeafKind} {value : LeafValue} (htyped : kind.Denotes value.node value)
    (hsize : ∀ size, kind = .number size → size ≤ UInt64.size)
    (hmeets : ∀ x, value = .fraction x → Meets x) : readBack value.node = value.node := by
  cases value with
  | number n =>
      cases htyped with
      | @number size _ hlt =>
          have hn : (n : Int) < UInt64.size := by
            exact_mod_cast Nat.lt_of_lt_of_le hlt (hsize size rfl)
          have hlow : -(Numeral.signedSize : Int) ≤ n := by omega
          simp only [LeafValue.node, readBack, integerBack_eq hlow hn]
  | fraction x => simp only [LeafValue.node, readBack, floatBack_of_meets (hmeets x rfl)]
  | text s => simp only [LeafValue.node, readBack]
  | texts ss =>
      have htexts : (ss.map Node.text).map readBack = ss.map .text := by
        simp [Function.comp_def, readBack]
      simp only [LeafValue.node, readBack, readBackItems_eq_map, htexts]

end Json

/-! ## Leaves of the registry -/

namespace Registry

/-- A leaf belongs to the passing rules, or it holds no fraction and does not depend on them. -/
theorem passing_or_of_mem_leaves {leaf : Leaf Registry} (hleaf : leaf ∈ leaves) :
    (∃ inner ∈ PassingRules.leaves, leaf = inner.under "proposals" passing) ∨
      (leaf.kind ≠ .fraction ∧ ∀ r treasury passing amounts,
        leaf.get { r with treasury := treasury, passing := passing, amounts := amounts } =
          leaf.get r) := by
  obtain ⟨group, hgroup, hmem⟩ := List.mem_flatten.mp hleaf
  simp only [leafGroups, List.mem_cons, List.not_mem_nil, or_false] at hgroup
  rcases hgroup with rfl | rfl | rfl | rfl | rfl | rfl | rfl | rfl | rfl | rfl
  case inr.inr.inr.inl =>
    obtain ⟨inner, hinner, rfl⟩ := List.mem_map.mp hmem
    exact .inl ⟨inner, hinner, rfl⟩
  all_goals
    obtain ⟨inner, hinner, rfl⟩ := List.mem_map.mp hmem
    refine .inr ⟨?_, fun _ _ _ _ => rfl⟩
    clear hleaf hmem
    revert inner
    decide

theorem get_finiteOr {leaf : Leaf PassingRules} (hleaf : leaf ∈ PassingRules.leaves)
    (reference rules : PassingRules) :
    leaf.get (reference.finiteOr rules) = (leaf.get reference).finiteOr (leaf.get rules) := by
  have hfraction (reference x : Binary64) : LeafValue.fraction (reference.finiteOr x) =
      (LeafValue.fraction reference).finiteOr (.fraction x) := by
    simp only [Binary64.finiteOr, LeafValue.finiteOr]
    split <;> rfl
  revert leaf
  simp only [PassingRules.leaves, PassingRules.leafGroups, PassingRule.leaves,
    PassingRule.leafGroups]
  simp [Leaf.under, Leaf.orNull, Leaf.fraction, PassingRules.finiteOr, PassingRule.finiteOr,
    hfraction]

theorem mem_fractions {leaf : Leaf PassingRules} (hleaf : leaf ∈ PassingRules.leaves)
    {rules : PassingRules} {x : Binary64} (hx : leaf.get rules = .fraction x) :
    x ∈ rules.fractions := by
  revert leaf
  simp only [PassingRules.leaves, PassingRules.leafGroups, PassingRule.leaves,
    PassingRule.leafGroups]
  simp [Leaf.under, Leaf.orNull, Leaf.fraction, PassingRules.fractions]
  grind

theorem fraction_of_mem_leaves {leaf : Leaf Registry} (hleaf : leaf ∈ leaves) {r : Registry}
    {x : Binary64} (hvalue : leaf.get r = .fraction x) : x ∈ r.passing.fractions := by
  rcases passing_or_of_mem_leaves hleaf with ⟨inner, hinner, rfl⟩ | ⟨hkind, -⟩
  · exact mem_fractions hinner hvalue
  · have htyped := codec_shows.typed r leaf hleaf
    rw [hvalue] at htyped
    exact absurd (LeafKind.eq_fraction htyped) hkind

theorem get_of_json {leaf : Leaf Registry} (hleaf : leaf ∈ leaves) (r : Registry) :
    leaf.get { r with
      treasury := .reference
      amounts := .reference
      passing := PassingRules.reference.finiteOr r.passing } =
      (leaf.get reference).finiteOr (leaf.get r) := by
  rcases passing_or_of_mem_leaves hleaf with ⟨inner, hinner, rfl⟩ | ⟨hkind, hkeeps⟩
  · exact get_finiteOr hinner PassingRules.reference r.passing
  · rw [hkeeps]
    have htyped := codec_shows.typed r leaf hleaf
    cases hvalue : leaf.get r with
    | fraction x =>
        rw [hvalue] at htyped
        exact absurd (LeafKind.eq_fraction htyped) hkind
    | _ => rfl

theorem nullable_of_fraction : ∀ leaf ∈ leaves, leaf.kind = .fraction → leaf.nullable = true := by
  decide

theorem outcome?_readBack {leaf : Leaf Registry} (hleaf : leaf ∈ leaves) {r : Registry}
    (hmeets : ∀ x ∈ r.passing.fractions, x.isFinite = true → Json.Meets x) :
    leaf.outcome? reference .json (Json.readBack (codec.write r)) =
      some ((leaf.get reference).finiteOr (leaf.get r)) := by
  have htyped := codec_shows.typed r leaf hleaf
  have hat := Json.at?_readBack (codec_shows.shown r leaf hleaf)
  by_cases hinfinite : ∃ x, leaf.get r = .fraction x ∧ x.isFinite = false
  · obtain ⟨x, hvalue, hx⟩ := hinfinite
    rw [hvalue] at htyped hat ⊢
    have hnullable := nullable_of_fraction leaf hleaf (LeafKind.eq_fraction htyped)
    simp only [LeafValue.node, Json.readBack, Json.floatBack_of_not_finite hx] at hat
    rw [Leaf.outcome?_of_null hnullable hat]
    simp [LeafValue.finiteOr, hx]
  · have hfinite : ∀ x, leaf.get r = .fraction x → x.isFinite = true := by
      intro x hvalue
      simpa using fun hx => hinfinite ⟨x, hvalue, hx⟩
    have hsame : Json.readBack (leaf.get r).node = (leaf.get r).node :=
      Json.readBack_node htyped (size_le_of_mem_leaves hleaf) fun x hvalue =>
        hmeets x (fraction_of_mem_leaves hleaf hvalue) (hfinite x hvalue)
    have hvalue : (leaf.get reference).finiteOr (leaf.get r) = leaf.get r := by
      cases hcase : leaf.get r with
      | fraction x => simp [LeafValue.finiteOr, hfinite x hcase]
      | _ => rfl
    rw [hsame] at hat
    rw [Leaf.outcome?_of_not_null hat (LeafValue.isNull_node _), hvalue]
    exact (LeafKind.read?_eq_some_iff (by decide)).mpr htyped

/-- Every registry has a JSON text.  If the reader meets the finite fractions of the registry, the
text is read as the registry itself, except for its sealed sections, which are the reference ones,
and for its other fractions, each of which is the reference one of its kind of proposal. -/
theorem json_round_trip (r : Registry) :
    ∃ text, r.print? .json = some text ∧
      ((∀ x ∈ r.passing.fractions, x.isFinite = true → Json.Meets x) →
        parse? text .json = some { r with
          treasury := .reference
          amounts := .reference
          passing := PassingRules.reference.finiteOr r.passing }) := by
  refine ⟨Json.print .spread (codec.write r), rfl, ?_⟩
  intro hmeets
  have hshown : ∀ leaf ∈ leaves, ((codec.write r).at? leaf.path).isSome := by
    intro leaf hleaf
    simp [codec_shows.shown r leaf hleaf]
  have hform : InObjectForm leaves (Json.readBack (codec.write r)) :=
    (codec_shows.form r).change hshown (fun _ => Json.isObject_readBack)
      fun _ _ => Json.at?_readBack
  have hread : codec.read? .json (Json.readBack (codec.write r)) = some { r with
      treasury := .reference
      amounts := .reference
      passing := PassingRules.reference.finiteOr r.passing } := by
    refine read?_eq_some_of_outcomes hform ?_ rfl
    intro leaf hleaf
    rw [outcome?_readBack hleaf hmeets, get_of_json hleaf]
  rw [parse?, Json.parse?_print, Option.bind_some, hread]

/-- A registry with fractions of all sorts, and with characters in its texts that JSON escapes. -/
def unusualRegistry : Registry :=
  { reference with
    auditRetentionMs := 18446744073709551615
    passing := {
      parameterChange := ⟨.nan, .ofDecimal false ⟨1, -1⟩⟩
      treasurySpend := ⟨.infinity true, .ofDecimal true ⟨5, -324⟩⟩
      contractUpgrade := ⟨.ofDecimal false ⟨123456789, 12⟩, .infinity false⟩ }
    jurisdictions := ⟨["", "\"quoted\\", "tab\tand\nline", "\u0001\u001f", "Øresund 𝄞"]⟩
    policies := { PinnedPolicies.reference with gdpr := "\x08\x0c\r/\u007f" } }

theorem unusualRegistry_json_round_trip :
    ∃ text, unusualRegistry.print? .json = some text ∧
      parse? text .json = some { unusualRegistry with
        treasury := .reference
        amounts := .reference
        passing := PassingRules.reference.finiteOr unusualRegistry.passing } := by
  obtain ⟨text, hprint, hread⟩ := json_round_trip unusualRegistry
  have hmeets : ∀ x ∈ unusualRegistry.passing.fractions, x.isFinite = true → Json.Meets x := by
    decide +kernel
  exact ⟨text, hprint, hread hmeets⟩

end Registry

end ChainRegistry
