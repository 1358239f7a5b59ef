import ChainRegistry.Proofs.NodeValues
import ChainRegistry.Proofs.RegistryLeaves
import ChainRegistry.Proofs.Toml.Tables

/-!
# Registries read back from TOML

TOML holds signed numbers, so a registry has a TOML text exactly if none of its numbers of
sixty-four bits lies beyond them.  The bounds on amounts are written as numerals and do not count.
A text that is written is read as the registry, except for the sealed sections, which are never
read.  Fractions come back whatever they are: the reader rounds correctly, and infinities and what
is no number have words of their own.
-/

namespace ChainRegistry

/-! ## Values with a text -/

theorem Toml.isSome_valueText?_node (value : LeafValue) :
    (valueText? value.node).isSome ↔ ∀ n, value = .number n → n < Numeral.signedSize := by
  cases value with
  | number n =>
      have hsigned : Numeral.isSigned64 n = true ↔ n < Numeral.signedSize := by
        simp only [Numeral.isSigned64, Bool.and_eq_true, decide_eq_true_eq]
        omega
      simp only [LeafValue.node, valueText?, scalarText?, LeafValue.number.injEq, forall_eq']
      rw [← hsigned]
      split <;> simp_all
  | fraction x => simp [LeafValue.node, valueText?, scalarText?]
  | text s => simp [LeafValue.node, valueText?, scalarText?]
  | texts ss =>
      have htexts : ((ss.map Node.text).mapM scalarText?).isSome := by
        rw [isSome_mapM, List.forall_mem_map]
        simp [scalarText?]
      simpa [LeafValue.node, valueText?] using htexts

theorem Toml.isTable_node (value : LeafValue) : isTable value.node = false := by
  cases value <;> rfl

namespace Registry

/-- The numbers of sixty-four bits outside the sealed sections. -/
def words (r : Registry) : List UInt64 :=
  [r.auditRetentionMs, r.blocks.timeMs, r.blocks.gasLimits.min, r.blocks.gasLimits.max,
      r.blocks.gasLimits.block, r.blocks.gasPrice.usual, r.blocks.gasPrice.lowest,
      r.blocks.gasPrice.highest, r.voting.shortest, r.voting.usual, r.voting.longest,
      r.chat.contextId, r.chat.transcriptHash, r.chat.tags] ++
    [r.throughput.chatRouter, r.throughput.wallet, r.throughput.governance, r.throughput.agent,
      r.throughput.migration, r.throughput.totalNetwork].flatMap fun target =>
        [target.baseline, target.burst]

theorem get_wordLeaves (r : Registry) :
    (leaves.filter fun leaf => leaf.kind = .number UInt64.size).map (fun leaf => leaf.get r) =
      r.words.map fun n => .number n.toNat :=
  rfl

theorem mem_words_iff (r : Registry) (n : UInt64) :
    n ∈ r.words ↔
      ∃ leaf ∈ leaves, leaf.kind = .number UInt64.size ∧ leaf.get r = .number n.toNat := by
  have hmem : n ∈ r.words ↔ LeafValue.number n.toNat ∈ r.words.map fun n => .number n.toNat := by
    simp [UInt64.toNat_inj]
  rw [hmem, ← get_wordLeaves]
  simp [and_assoc]

theorem numbers_fit_iff (r : Registry) :
    (∀ leaf ∈ leaves, ∀ n, leaf.get r = .number n → n < Numeral.signedSize) ↔
      ∀ n ∈ r.words, n.toNat < Numeral.signedSize := by
  constructor
  · intro hfit n hn
    obtain ⟨leaf, hleaf, -, hvalue⟩ := (mem_words_iff r n).mp hn
    exact hfit leaf hleaf n.toNat hvalue
  · intro hwords leaf hleaf n hvalue
    have htyped := codec_shows.typed r leaf hleaf
    rw [hvalue] at htyped
    cases hkind : leaf.kind with
    | number size =>
        rw [hkind] at htyped
        cases htyped with
        | number hlt =>
            rcases size_of_mem_leaves hleaf hkind with rfl | rfl | rfl
            · have hvalue' : leaf.get r = .number (UInt64.ofNat n).toNat := by
                rw [hvalue, UInt64.toNat_ofNat_of_lt' hlt]
              have hword := hwords _ ((mem_words_iff r _).mpr ⟨leaf, hleaf, hkind, hvalue'⟩)
              rwa [UInt64.toNat_ofNat_of_lt' hlt] at hword
            · exact Nat.lt_trans hlt (by decide)
            · exact Nat.lt_trans hlt (by decide)
    | _ =>
        rw [hkind] at htyped
        cases htyped

/-! ## What is written -/

theorem sealed_texts (r : Registry) :
    (∀ field ∈ Treasury.fields, (Toml.valueText? (field.write r.treasury)).isSome) ∧
      ∀ field ∈ AmountBounds.fields, (Toml.valueText? (field.write r.amounts)).isSome := by
  simp only [Treasury.fields, AmountBounds.fields, List.forall_mem_cons]
  and_intros
  all_goals first | rfl | simp

theorem flat_write {ρ : Type} {fields : List (Field ρ)} {r : ρ}
    (hscalar : ∀ field ∈ fields, (field.write r).isScalar = true)
    (htext : ∀ field ∈ fields, (Toml.valueText? (field.write r)).isSome) :
    (Record.write fields r).depth ≤ 1 ∧
      ∀ value ∈ (Record.write fields r).values, (Toml.valueText? value).isSome := by
  constructor
  · apply Record.depth_write_le.mpr
    intro field hfield
    exact Nat.le_of_eq (Node.depth_of_isScalar (hscalar field hfield))
  · intro value hvalue
    obtain ⟨field, hfield, hvalue⟩ := Record.mem_values_write.mp hvalue
    rw [Node.values_of_isScalar (hscalar field hfield), List.mem_singleton] at hvalue
    rw [hvalue]
    exact htext field hfield

theorem depth_write_le (r : Registry) : (codec.write r).depth ≤ Toml.deepest := by
  have hpaths : ∀ leaf ∈ leaves, leaf.path.length ≤ 3 := by
    decide
  have hsealed := sealed_scalars r
  have htexts := sealed_texts r
  have hdepth : (codec.write r).depth ≤ 2 + 1 := by
    apply Record.depth_write_le.mpr
    intro field hfield
    rcases openField_or_sealed hfield with ⟨part, hpart, rfl⟩ | rfl | rfl
    · apply (parts_sound part hpart).spans.depth_le r 2
      intro leaf hleaf
      exact hpaths leaf (mem_leaves_of_part hpart hleaf)
    · exact Nat.le_succ_of_le (flat_write hsealed.1 htexts.1).1
    · exact Nat.le_succ_of_le (flat_write hsealed.2 htexts.2).1
  exact Nat.le_trans hdepth (by decide)

theorem isSome_print?_toml (r : Registry) :
    (r.print? .toml).isSome ↔
      ∀ leaf ∈ leaves, ∀ n, leaf.get r = .number n → n < Numeral.signedSize := by
  have hsealed := sealed_scalars r
  have htexts := sealed_texts r
  have hprint : (r.print? .toml).isSome ↔
      ∀ value ∈ (codec.write r).values, (Toml.valueText? value).isSome :=
    Toml.isSome_print? _
  rw [hprint]
  constructor
  · intro hvalues leaf hleaf
    refine (Toml.isSome_valueText?_node (leaf.get r)).mp (hvalues _ ?_)
    exact Node.mem_values_of_at? (codec_shows.shown r leaf hleaf) (LeafValue.values_node _)
  · intro hfit value hvalue
    obtain ⟨field, hfield, hvalue⟩ := Record.mem_values_write.mp hvalue
    rcases openField_or_sealed hfield with ⟨part, hpart, rfl⟩ | rfl | rfl
    · obtain ⟨leaf, hleaf, rfl⟩ := (parts_sound part hpart).spans.complete r value hvalue
      refine (Toml.isSome_valueText?_node (leaf.get r)).mpr ?_
      exact hfit leaf (mem_leaves_of_part hpart hleaf)
    · exact (flat_write hsealed.1 htexts.1).2 value hvalue
    · exact (flat_write hsealed.2 htexts.2).2 value hvalue

theorem isSome_print?_toml_iff_words (r : Registry) :
    (r.print? .toml).isSome ↔ ∀ n ∈ r.words, n ≤ 9223372036854775807 := by
  rw [isSome_print?_toml, numbers_fit_iff]
  apply forall₂_congr
  intro n _
  rw [UInt64.le_iff_toNat_le]
  exact Nat.lt_succ_iff

/-! ## What is read -/

theorem at?_arrange_leaf {leaf : Leaf Registry} (hleaf : leaf ∈ leaves) (r : Registry) :
    (Toml.arrange (codec.write r)).at? leaf.path = some (leaf.get r).node := by
  have hat := Toml.at?_arrange (codec_shows.tidy r) (codec_shows.shown r leaf hleaf)
  rwa [Toml.arrange_of_not_table (Toml.isTable_node _)] at hat

theorem inObjectForm_arrange (r : Registry) :
    InObjectForm leaves (Toml.arrange (codec.write r)) := by
  have hshown : ∀ leaf ∈ leaves, ((codec.write r).at? leaf.path).isSome := by
    intro leaf hleaf
    simp [codec_shows.shown r leaf hleaf]
  exact (codec_shows.form r).change hshown (fun _ => Toml.isObject_arrange)
    fun _ _ => Toml.at?_arrange (codec_shows.tidy r)

theorem read?_arrange (r : Registry) :
    codec.read? .toml (Toml.arrange (codec.write r)) =
      some { r with treasury := .reference, amounts := .reference } := by
  refine read?_eq_some_of_outcomes (inObjectForm_arrange r) ?_ rfl
  intro leaf hleaf
  rw [Leaf.outcome?_of_not_null (at?_arrange_leaf hleaf r) (LeafValue.isNull_node _),
    get_of_sealed hleaf r .reference .reference]
  exact (LeafKind.read?_eq_some_iff (by decide)).mpr (codec_shows.typed r leaf hleaf)

/-- A registry has a TOML text exactly if its numbers of sixty-four bits outside the sealed sections
are at most the largest signed one.  The text is read as the registry, with the reference treasury
and the reference bounds on amounts. -/
theorem toml_round_trip (r : Registry) :
    ((r.print? .toml).isSome ↔ ∀ n ∈ r.words, n ≤ 9223372036854775807) ∧
      ∀ text, r.print? .toml = some text →
        parse? text .toml = some { r with treasury := .reference, amounts := .reference } := by
  refine ⟨isSome_print?_toml_iff_words r, ?_⟩
  intro text hprint
  have hread := Toml.parse?_print? (codec_shows.tidy r) (depth_write_le r) hprint
  rw [parse?, hread, Option.bind_some, read?_arrange]

/-- A registry at the edge of what TOML holds, with fractions and texts of all sorts. -/
def edgeRegistry : Registry :=
  { reference with
    auditRetentionMs := 9223372036854775807
    treasury := ⟨"a \"live\" one", true⟩
    passing := {
      parameterChange := ⟨.nan, .infinity true⟩
      treasurySpend := ⟨.infinity false, .ofDecimal true ⟨5, -324⟩⟩
      contractUpgrade := ⟨.ofQuotient false 1 11, .signed true ⟨0, Nat.zero_lt_succ _⟩⟩ }
    jurisdictions := ⟨["", "'quoted'\\", "tab\tand\nline", "\u0001\u007f", "Øresund 𝄞"]⟩
    amounts := ⟨18446744073709551615, 18446744073709551615, 0, 0⟩ }

theorem edgeRegistry_toml_round_trip :
    (∃ text, edgeRegistry.print? .toml = some text ∧ parse? text .toml =
        some { edgeRegistry with treasury := .reference, amounts := .reference }) ∧
      { edgeRegistry with auditRetentionMs := 9223372036854775808 }.print? .toml = none := by
  constructor
  · obtain ⟨hsome, hread⟩ := toml_round_trip edgeRegistry
    have hwords : edgeRegistry.words.all (· ≤ 9223372036854775807) = true := by decide
    obtain ⟨text, hprint⟩ := Option.isSome_iff_exists.mp (hsome.mpr (by simpa using hwords))
    exact ⟨text, hprint, hread text hprint⟩
  · obtain ⟨hsome, -⟩ :=
      toml_round_trip { edgeRegistry with auditRetentionMs := 9223372036854775808 }
    exact Option.not_isSome_iff_eq_none.mp (mt hsome.mp (by simp [words]))

end Registry

end ChainRegistry
