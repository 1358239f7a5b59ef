import ChainRegistry.Proofs.Binary64.Values
import ChainRegistry.Registry.Validation

/-!
# Valid registries

Validation is a list of findings, and a registry is valid if none of them is a violation.  Every
finding is turned into the condition that it checks, over the values of the registry themselves: a
fraction is a number above zero and at most one, a list of jurisdictions is not empty and names
nothing twice.  What is left of the order of the checks and of the tables that they go through is
nothing.
-/

namespace ChainRegistry

namespace Registry

/-- The bounds that a valid registry keeps. -/
structure KeepsBounds (r : Registry) : Prop where
  blockTime : r.blocks.timeMs ≠ 0
  transactions : r.blocks.maxTransactions ≠ 0
  leastGas : r.blocks.gasLimits.min ≠ 0
  gasLimits : r.blocks.gasLimits.min ≤ r.blocks.gasLimits.max ∧
    r.blocks.gasLimits.max ≤ r.blocks.gasLimits.block
  gasPrice : r.blocks.gasPrice.lowest ≤ r.blocks.gasPrice.usual ∧
    r.blocks.gasPrice.usual ≤ r.blocks.gasPrice.highest
  shortestVote : r.voting.shortest ≠ 0
  votingPeriods : r.voting.shortest ≤ r.voting.usual ∧ r.voting.usual ≤ r.voting.longest
  fractions : ∀ rule ∈ [r.passing.parameterChange, r.passing.treasurySpend,
    r.passing.contractUpgrade], rule.quorum.IsShare ∧ rule.threshold.IsShare
  bursts : ∀ target ∈ [r.throughput.chatRouter, r.throughput.wallet, r.throughput.governance,
    r.throughput.agent, r.throughput.migration, r.throughput.totalNetwork],
    target.baseline ≤ target.burst
  chatLimits : r.chat.contextId ≠ 0 ∧ r.chat.transcriptHash ≠ 0 ∧ r.chat.tags ≠ 0
  jurisdictions : r.jurisdictions.tags ≠ [] ∧ r.jurisdictions.tags.Nodup
  amounts : r.amounts.least ≤ r.amounts.transfer ∧ r.amounts.transfer ≤ r.amounts.delegation ∧
    r.amounts.delegation ≤ r.amounts.representable
  retention : r.auditRetentionMs ≠ 0
  endpoints : r.endpoints.httpApi ≠ 0 ∧ r.endpoints.webSocket ≠ 0 ∧ r.endpoints.explorer ≠ 0 ∧
    r.endpoints.metrics ≠ 0
  quotas : r.quotas.publicApi ≠ 0 ∧ r.quotas.authenticatedApi ≠ 0 ∧ r.quotas.agentApi ≠ 0 ∧
    r.quotas.websocketSubscriptions ≠ 0

end Registry

/-! ## Repeated jurisdictions -/

theorem Jurisdictions.repeated?_go_eq_none_iff (seen tags : List String) :
    repeated?.go seen tags = none ↔ tags.Nodup ∧ ∀ tag ∈ tags, tag ∉ seen := by
  induction tags generalizing seen with
  | nil => simp [repeated?.go]
  | cons tag tags ih =>
      have hstep : repeated?.go seen (tag :: tags) = none ↔
          tag ∉ seen ∧ repeated?.go (tag :: seen) tags = none := by
        by_cases hmem : tag ∈ seen <;> simp [repeated?.go, hmem]
      rw [hstep, ih, List.nodup_cons, List.forall_mem_cons]
      simp only [List.mem_cons, not_or]
      constructor
      · rintro ⟨hnew, hnodup, hrest⟩
        exact ⟨⟨fun hmem => (hrest tag hmem).1 rfl, hnodup⟩, hnew, fun t ht => (hrest t ht).2⟩
      · rintro ⟨⟨hfresh, hnodup⟩, hnew, hrest⟩
        refine ⟨hnew, hnodup, fun t ht => ⟨?_, hrest t ht⟩⟩
        rintro rfl
        exact hfresh ht

theorem Jurisdictions.repeated?_eq_none_iff (jurisdictions : Jurisdictions) :
    jurisdictions.repeated? = none ↔ jurisdictions.tags.Nodup := by
  simp [repeated?, repeated?_go_eq_none_iff]

/-! ## Single findings -/

theorem Binary64.isProperFraction_iff (x : Binary64) : x.isProperFraction = true ↔ x.IsShare := by
  rw [isShare_iff, isProperFraction, Bool.and_eq_true, decide_eq_true_eq, decide_eq_true_eq]

namespace Registry

theorem demand_eq_none_iff {holds : Bool} {violation : Violation} :
    demand holds violation = none ↔ holds = true := by
  simp [demand]

theorem positive_eq_none_iff {value : Nat} {field : String} :
    positive value field = none ↔ value ≠ 0 := by
  simp [positive, demand_eq_none_iff, Nat.pos_iff_ne_zero]

theorem positive_word16_iff {value : UInt16} {field : String} :
    positive value.toNat field = none ↔ value ≠ 0 :=
  positive_eq_none_iff.trans (not_congr (UInt16.toNat_inj (b := 0)))

theorem positive_word32_iff {value : UInt32} {field : String} :
    positive value.toNat field = none ↔ value ≠ 0 :=
  positive_eq_none_iff.trans (not_congr (UInt32.toNat_inj (b := 0)))

theorem positive_word64_iff {value : UInt64} {field : String} :
    positive value.toNat field = none ↔ value ≠ 0 :=
  positive_eq_none_iff.trans (not_congr (UInt64.toNat_inj (b := 0)))

theorem fractionFindings_eq_none_iff (r : Registry) (kind : ProposalKind) :
    (∀ finding ∈ r.fractionFindings kind, finding = none) ↔
      (r.passing.rule kind).quorum.IsShare ∧ (r.passing.rule kind).threshold.IsShare := by
  simp [fractionFindings, demand_eq_none_iff, Binary64.isProperFraction_iff, PassingRule.fraction]

theorem throughputFinding_eq_none_iff (r : Registry) (subsystem : Subsystem) :
    r.throughputFinding subsystem = none ↔
      (r.throughput.target subsystem).baseline ≤ (r.throughput.target subsystem).burst := by
  simp [throughputFinding, demand_eq_none_iff]

theorem violation?_eq_none_iff (r : Registry) :
    r.violation? = none ↔ ∀ finding ∈ r.findings, finding = none :=
  List.findSome?_eq_none_iff

/-! ## All findings -/

theorem gasBounds_inOrder_iff (limits : GasBounds) :
    limits.inOrder = true ↔ limits.min ≤ limits.max ∧ limits.max ≤ limits.block := by
  simp [GasBounds.inOrder]

theorem gasTariff_admits_iff (price : GasTariff) (offer : UInt64) :
    price.admits offer = true ↔ price.lowest ≤ offer ∧ offer ≤ price.highest := by
  simp [GasTariff.admits]

theorem votingPeriods_inOrder_iff (periods : VotingPeriods) :
    periods.inOrder = true ↔
      periods.shortest ≤ periods.usual ∧ periods.usual ≤ periods.longest := by
  simp [VotingPeriods.inOrder]

theorem amountBounds_inOrder_iff (bounds : AmountBounds) :
    bounds.inOrder = true ↔ bounds.least ≤ bounds.transfer ∧
      bounds.transfer ≤ bounds.delegation ∧ bounds.delegation ≤ bounds.representable := by
  simp [AmountBounds.inOrder, and_assoc]

theorem findings_eq_none_iff (r : Registry) :
    (∀ finding ∈ r.findings, finding = none) ↔ r.KeepsBounds := by
  simp only [findings, List.forall_mem_append, List.forall_mem_cons, List.forall_mem_map,
    List.forall_mem_flatMap, Category.all, positive_word16_iff, positive_word32_iff,
    positive_word64_iff, demand_eq_none_iff, fractionFindings_eq_none_iff,
    throughputFinding_eq_none_iff, gasBounds_inOrder_iff, gasTariff_admits_iff,
    votingPeriods_inOrder_iff, amountBounds_inOrder_iff, Bool.not_eq_true',
    List.isEmpty_eq_false_iff, Option.map_eq_none_iff, Jurisdictions.repeated?_eq_none_iff]
  constructor
  · rintro ⟨⟨⟨⟨⟨⟨hblock, htransactions, hgas, hgases, hprice, hvote, hvotes, -⟩, hfractions⟩,
      hbursts⟩, hcontext, htranscript, htags, hsome, hnodup, hamounts, hretention, -⟩,
      hhttp, hsocket, hexplorer, hmetrics, -⟩, hpublic, hauthenticated, hagent, hsubscriptions, -⟩
    exact {
      blockTime := hblock
      transactions := htransactions
      leastGas := hgas
      gasLimits := hgases
      gasPrice := hprice
      shortestVote := hvote
      votingPeriods := hvotes
      fractions := by simpa [PassingRules.rule] using hfractions
      bursts := by simpa [ThroughputTargets.target] using hbursts
      chatLimits := ⟨hcontext, htranscript, htags⟩
      jurisdictions := ⟨hsome, hnodup⟩
      amounts := hamounts
      retention := hretention
      endpoints := ⟨hhttp, hsocket, hexplorer, hmetrics⟩
      quotas := ⟨hpublic, hauthenticated, hagent, hsubscriptions⟩ }
  · intro h
    have hnone : ∀ finding ∈ ([] : List (Option Violation)), finding = none := by simp
    obtain ⟨hcontext, htranscript, htags⟩ := h.chatLimits
    obtain ⟨hhttp, hsocket, hexplorer, hmetrics⟩ := h.endpoints
    obtain ⟨hpublic, hauthenticated, hagent, hsubscriptions⟩ := h.quotas
    refine ⟨⟨⟨⟨⟨⟨h.blockTime, h.transactions, h.leastGas, h.gasLimits, h.gasPrice,
      h.shortestVote, h.votingPeriods, hnone⟩, ?_⟩, ?_⟩, hcontext, htranscript, htags,
      h.jurisdictions.1, h.jurisdictions.2, h.amounts, h.retention, hnone⟩,
      hhttp, hsocket, hexplorer, hmetrics, by simp⟩,
      hpublic, hauthenticated, hagent, hsubscriptions, by simp⟩
    · simpa [PassingRules.rule] using h.fractions
    · simpa [ThroughputTargets.target] using h.bursts

theorem keepsBounds_of_valid {r : Registry} (hvalid : r.violation? = none) : r.KeepsBounds :=
  (findings_eq_none_iff r).mp ((violation?_eq_none_iff r).mp hvalid)

/-- A registry has no violation exactly if it keeps all bounds. -/
theorem violation?_eq_none_iff_keepsBounds (r : Registry) :
    r.violation? = none ↔ r.KeepsBounds := by
  rw [violation?_eq_none_iff]
  exact findings_eq_none_iff r

end Registry

end ChainRegistry
