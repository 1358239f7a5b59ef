import ChainRegistry.Proofs.RegistryLeaves
import ChainRegistry.Proofs.Validity

/-!
# First violations

Validation answers with one violation, although many may be there at once.  The checks are listed
here one by one, each with the condition on the values of the registry and with what is reported if
it fails.  The answer is what the first check that fails reports, and every check before it holds.

What is reported is true of the registry.  A count that vanishes is named by the place where it
stands in a document, a fraction and a burst by the member and the field, and the values that show
that bounds are out of order are those of the registry.
-/

namespace ChainRegistry

/-- A condition, and what is reported where it fails. -/
structure Check where
  holds : Prop
  violation : Violation

namespace Check

/-- The first check that fails reports this. -/
def FirstFailing (checks : List Check) (violation : Violation) : Prop :=
  ∃ before check after, checks = before ++ check :: after ∧ check.violation = violation ∧
    ¬ check.holds ∧ ∀ earlier ∈ before, earlier.holds

/-- The outcome of some checks: nothing if all of them hold, else what the first failure reports. -/
def Outcome (checks : List Check) : Option Violation → Prop
  | none => ∀ check ∈ checks, check.holds
  | some violation => FirstFailing checks violation

theorem not_firstFailing_nil (violation : Violation) : ¬ FirstFailing [] violation := by
  rintro ⟨before, check, after, hsplit, -⟩
  simp at hsplit

theorem firstFailing_cons {check : Check} {checks : List Check} {violation : Violation} :
    FirstFailing (check :: checks) violation ↔
      (¬ check.holds ∧ check.violation = violation) ∨
        (check.holds ∧ FirstFailing checks violation) := by
  constructor
  · rintro ⟨before, failing, after, hsplit, hviolation, hfails, hbefore⟩
    cases before with
    | nil =>
        obtain ⟨rfl, -⟩ := List.cons.inj hsplit
        exact .inl ⟨hfails, hviolation⟩
    | cons first before =>
        obtain ⟨rfl, hrest⟩ := List.cons.inj hsplit
        obtain ⟨hfirst, hbefore⟩ := List.forall_mem_cons.mp hbefore
        exact .inr ⟨hfirst, before, failing, after, hrest, hviolation, hfails, hbefore⟩
  · rintro (⟨hfails, hviolation⟩ | ⟨hholds, before, failing, after, rfl, hviolation, hfails, hbefore⟩)
    · exact ⟨[], check, checks, rfl, hviolation, hfails, by simp⟩
    · exact ⟨check :: before, failing, after, rfl, hviolation, hfails,
        List.forall_mem_cons.mpr ⟨hholds, hbefore⟩⟩

theorem firstFailing_append {checks others : List Check} {violation : Violation} :
    FirstFailing (checks ++ others) violation ↔
      FirstFailing checks violation ∨
        ((∀ check ∈ checks, check.holds) ∧ FirstFailing others violation) := by
  induction checks with
  | nil => simp [not_firstFailing_nil]
  | cons check checks ih =>
      rw [List.cons_append, firstFailing_cons, firstFailing_cons, ih, List.forall_mem_cons]
      tauto

/-- Checks have one outcome. -/
theorem not_firstFailing_of_forall {checks : List Check} {violation : Violation}
    (hall : ∀ check ∈ checks, check.holds) : ¬ FirstFailing checks violation := by
  rintro ⟨before, check, after, rfl, -, hfails, -⟩
  exact hfails (hall check (by simp))

theorem firstFailing_unique {checks : List Check} {violation other : Violation}
    (h : FirstFailing checks violation) (h' : FirstFailing checks other) : violation = other := by
  induction checks with
  | nil => exact absurd h (not_firstFailing_nil violation)
  | cons check checks ih =>
      rw [firstFailing_cons] at h h'
      rcases h with ⟨hfails, rfl⟩ | ⟨hholds, hrest⟩
      · rcases h' with ⟨-, rfl⟩ | ⟨hholds, -⟩
        · rfl
        · exact absurd hholds hfails
      · rcases h' with ⟨hfails, -⟩ | ⟨-, hrest'⟩
        · exact absurd hholds hfails
        · exact ih hrest hrest'

theorem Outcome.eq_some_iff {checks : List Check} {finding : Option Violation}
    (h : Outcome checks finding) (violation : Violation) :
    finding = some violation ↔ FirstFailing checks violation := by
  cases finding with
  | none => simp [not_firstFailing_of_forall h]
  | some found =>
      rw [Option.some.injEq]
      constructor
      · rintro rfl
        exact h
      · exact firstFailing_unique h

/-! ## Checks and findings -/

theorem outcome_demand {condition : Prop} {holds : Bool} (hholds : holds = true ↔ condition)
    (violation : Violation) :
    Outcome [⟨condition, violation⟩] (Registry.demand holds violation) := by
  cases holds with
  | true => simpa [Registry.demand, Outcome] using hholds
  | false =>
      have hfails : ¬ condition := by simpa using hholds
      exact ⟨[], ⟨condition, violation⟩, [], rfl, rfl, hfails, by simp⟩

theorem outcome_append {checks others : List Check} {finding other : Option Violation}
    (h : Outcome checks finding) (h' : Outcome others other) :
    Outcome (checks ++ others) (finding.or other) := by
  cases finding with
  | some violation => exact firstFailing_append.mpr (.inl h)
  | none =>
      rw [Option.none_or]
      cases other with
      | some violation => exact firstFailing_append.mpr (.inr ⟨h, h'⟩)
      | none => exact List.forall_mem_append.mpr ⟨h, h'⟩

/-- Findings are the outcomes of checks, group by group. -/
inductive Found : List Check → List (Option Violation) → Prop where
  | nil : Found [] []
  | group {checks others : List Check} {finding : Option Violation}
    {findings : List (Option Violation)} (houtcome : Outcome checks finding)
    (hrest : Found others findings) : Found (checks ++ others) (finding :: findings)

theorem Found.demand {condition : Prop} {holds : Bool} {violation : Violation}
    {others : List Check} {findings : List (Option Violation)} (hrest : Found others findings)
    (hholds : holds = true ↔ condition) :
    Found (⟨condition, violation⟩ :: others) (Registry.demand holds violation :: findings) :=
  .group (outcome_demand hholds violation) hrest

theorem Found.outcome {checks : List Check} {findings : List (Option Violation)}
    (h : Found checks findings) : Outcome checks (findings.findSome? id) := by
  induction h with
  | nil => simp [Outcome]
  | @group checks others finding findings houtcome _ ih =>
      have hfirst : (finding :: findings).findSome? id = finding.or (findings.findSome? id) := by
        cases finding <;> rfl
      rw [hfirst]
      exact outcome_append houtcome ih

end Check

/-! ## Repeated jurisdictions -/

namespace Jurisdictions

theorem repeated?_go_eq_some_iff {seen tags : List String} {tag : String} :
    repeated?.go seen tags = some tag ↔
      ∃ before after, tags = before ++ tag :: after ∧ (tag ∈ seen ∨ tag ∈ before) ∧
        before.Nodup ∧ ∀ other ∈ before, other ∉ seen := by
  induction tags generalizing seen with
  | nil => simp [repeated?.go]
  | cons first tags ih =>
      by_cases hseen : first ∈ seen
      · have hstep : repeated?.go seen (first :: tags) = some first := by
          simp [repeated?.go, hseen]
        rw [hstep, Option.some.injEq]
        constructor
        · rintro rfl
          exact ⟨[], tags, rfl, .inl hseen, List.nodup_nil, by simp⟩
        · rintro ⟨before, after, hsplit, -, -, hbefore⟩
          cases before with
          | nil => exact (List.cons.inj hsplit).1
          | cons other before =>
              obtain ⟨rfl, -⟩ := List.cons.inj hsplit
              exact absurd hseen (hbefore first List.mem_cons_self)
      · have hstep : repeated?.go seen (first :: tags) = repeated?.go (first :: seen) tags := by
          simp [repeated?.go, hseen]
        rw [hstep, ih]
        constructor
        · rintro ⟨before, after, rfl, hmem, hnodup, hfresh⟩
          have hfirst : first ∉ before :=
            fun hfirst => hfresh first hfirst List.mem_cons_self
          refine ⟨first :: before, after, rfl, ?_, List.nodup_cons.mpr ⟨hfirst, hnodup⟩, ?_⟩
          · simpa [or_assoc, or_left_comm] using hmem
          · exact List.forall_mem_cons.mpr
              ⟨hseen, fun other hother h => hfresh other hother (List.mem_cons_of_mem _ h)⟩
        · rintro ⟨before, after, hsplit, hmem, hnodup, hfresh⟩
          cases before with
          | nil =>
              obtain ⟨rfl, -⟩ := List.cons.inj hsplit
              simp [hseen] at hmem
          | cons other before =>
              obtain ⟨rfl, rfl⟩ := List.cons.inj hsplit
              obtain ⟨hfirst, hnodup⟩ := List.nodup_cons.mp hnodup
              obtain ⟨-, hfresh⟩ := List.forall_mem_cons.mp hfresh
              refine ⟨before, after, rfl, ?_, hnodup, fun other hother h => ?_⟩
              · simpa [or_assoc, or_left_comm] using hmem
              · rcases List.mem_cons.mp h with rfl | h
                · exact hfirst hother
                · exact hfresh other hother h

/-- The tag that is found is the first one that stands in the list before. -/
theorem repeated?_eq_some_iff {jurisdictions : Jurisdictions} {tag : String} :
    jurisdictions.repeated? = some tag ↔
      ∃ before after, jurisdictions.tags = before ++ tag :: after ∧ tag ∈ before ∧
        before.Nodup := by
  simp [repeated?, repeated?_go_eq_some_iff]

/-- Every tag is checked against those before it. -/
def entryChecks (earlier : List String) : List String → List Check
  | [] => []
  | tag :: tags =>
    ⟨tag ∉ earlier, .repeatedJurisdiction tag⟩ :: entryChecks (earlier ++ [tag]) tags

theorem outcome_entryChecks {seen earlier tags : List String}
    (hseen : ∀ tag, tag ∈ seen ↔ tag ∈ earlier) :
    Check.Outcome (entryChecks earlier tags)
      ((repeated?.go seen tags).map .repeatedJurisdiction) := by
  induction tags generalizing seen earlier with
  | nil => simp [repeated?.go, entryChecks, Check.Outcome]
  | cons tag tags ih =>
      by_cases hmem : tag ∈ seen
      · have hfails : ¬ tag ∉ earlier := not_not.mpr ((hseen tag).mp hmem)
        have hstep : repeated?.go seen (tag :: tags) = some tag := by simp [repeated?.go, hmem]
        rw [hstep]
        exact Check.firstFailing_cons.mpr (.inl ⟨hfails, rfl⟩)
      · have hholds : tag ∉ earlier := fun h => hmem ((hseen tag).mpr h)
        have hstep : repeated?.go seen (tag :: tags) = repeated?.go (tag :: seen) tags := by
          simp [repeated?.go, hmem]
        have hrest : Check.Outcome (entryChecks (earlier ++ [tag]) tags)
            ((repeated?.go (tag :: seen) tags).map .repeatedJurisdiction) :=
          ih fun other => by simp [hseen, or_comm]
        rw [hstep]
        cases hfound : repeated?.go (tag :: seen) tags with
        | none =>
            rw [hfound] at hrest
            exact List.forall_mem_cons.mpr ⟨hholds, hrest⟩
        | some other =>
            rw [hfound] at hrest
            exact Check.firstFailing_cons.mpr (.inr ⟨hholds, hrest⟩)

end Jurisdictions

/-! ## The checks of a registry -/

namespace Registry

/-- All checks, in their order. -/
def checks (r : Registry) : List Check :=
  [⟨r.blocks.timeMs ≠ 0, .vanishing "network.block_time_ms"⟩,
    ⟨r.blocks.maxTransactions ≠ 0, .vanishing "network.max_transactions_per_block"⟩,
    ⟨r.blocks.gasLimits.min ≠ 0, .vanishing "network.gas_limits.min"⟩,
    ⟨r.blocks.gasLimits.min ≤ r.blocks.gasLimits.max ∧
      r.blocks.gasLimits.max ≤ r.blocks.gasLimits.block, .gasDisordered r.blocks.gasLimits⟩,
    ⟨r.blocks.gasPrice.lowest ≤ r.blocks.gasPrice.usual ∧
      r.blocks.gasPrice.usual ≤ r.blocks.gasPrice.highest, .gasPriceOutside r.blocks.gasPrice⟩,
    ⟨r.voting.shortest ≠ 0, .vanishing "governance.min_voting"⟩,
    ⟨r.voting.shortest ≤ r.voting.usual ∧ r.voting.usual ≤ r.voting.longest,
      .periodsDisordered r.voting⟩,
    ⟨r.passing.parameterChange.quorum.IsShare,
      .improperFraction .parameterChange .quorum r.passing.parameterChange.quorum⟩,
    ⟨r.passing.parameterChange.threshold.IsShare,
      .improperFraction .parameterChange .threshold r.passing.parameterChange.threshold⟩,
    ⟨r.passing.treasurySpend.quorum.IsShare,
      .improperFraction .treasurySpend .quorum r.passing.treasurySpend.quorum⟩,
    ⟨r.passing.treasurySpend.threshold.IsShare,
      .improperFraction .treasurySpend .threshold r.passing.treasurySpend.threshold⟩,
    ⟨r.passing.contractUpgrade.quorum.IsShare,
      .improperFraction .contractUpgrade .quorum r.passing.contractUpgrade.quorum⟩,
    ⟨r.passing.contractUpgrade.threshold.IsShare,
      .improperFraction .contractUpgrade .threshold r.passing.contractUpgrade.threshold⟩,
    ⟨r.throughput.chatRouter.baseline ≤ r.throughput.chatRouter.burst,
      .burstTooLow .chatRouter r.throughput.chatRouter⟩,
    ⟨r.throughput.wallet.baseline ≤ r.throughput.wallet.burst,
      .burstTooLow .wallet r.throughput.wallet⟩,
    ⟨r.throughput.governance.baseline ≤ r.throughput.governance.burst,
      .burstTooLow .governance r.throughput.governance⟩,
    ⟨r.throughput.agent.baseline ≤ r.throughput.agent.burst,
      .burstTooLow .agent r.throughput.agent⟩,
    ⟨r.throughput.migration.baseline ≤ r.throughput.migration.burst,
      .burstTooLow .migration r.throughput.migration⟩,
    ⟨r.throughput.totalNetwork.baseline ≤ r.throughput.totalNetwork.burst,
      .burstTooLow .totalNetwork r.throughput.totalNetwork⟩,
    ⟨r.chat.contextId ≠ 0, .vanishing "chat_limits.max_chat_context_id_length"⟩,
    ⟨r.chat.transcriptHash ≠ 0, .vanishing "chat_limits.max_transcript_hash_length"⟩,
    ⟨r.chat.tags ≠ 0, .vanishing "chat_limits.max_jurisdiction_tags"⟩,
    ⟨r.jurisdictions.tags ≠ [], .noJurisdiction⟩]
  ++ (Jurisdictions.entryChecks [] r.jurisdictions.tags
  ++ [⟨r.amounts.least ≤ r.amounts.transfer ∧ r.amounts.transfer ≤ r.amounts.delegation ∧
      r.amounts.delegation ≤ r.amounts.representable, .amountsDisordered r.amounts⟩,
    ⟨r.auditRetentionMs ≠ 0, .vanishing "audit_retention_ms"⟩,
    ⟨r.endpoints.httpApi ≠ 0, .vanishing "ports.http_api"⟩,
    ⟨r.endpoints.webSocket ≠ 0, .vanishing "ports.websocket"⟩,
    ⟨r.endpoints.explorer ≠ 0, .vanishing "ports.explorer"⟩,
    ⟨r.endpoints.metrics ≠ 0, .vanishing "ports.metrics"⟩,
    ⟨r.quotas.publicApi ≠ 0, .vanishing "rate_limits.public_api"⟩,
    ⟨r.quotas.authenticatedApi ≠ 0, .vanishing "rate_limits.authenticated_api"⟩,
    ⟨r.quotas.agentApi ≠ 0, .vanishing "rate_limits.agent_api"⟩,
    ⟨r.quotas.websocketSubscriptions ≠ 0, .vanishing "rate_limits.websocket_subscriptions"⟩])

theorem found_positive {condition : Prop} {value : Nat} {field : String} {others : List Check}
    {findings : List (Option Violation)} (hrest : Check.Found others findings)
    (hvalue : value = 0 ↔ ¬ condition) :
    Check.Found (⟨condition, .vanishing field⟩ :: others) (positive value field :: findings) := by
  refine hrest.demand ?_
  rw [decide_eq_true_eq, Nat.pos_iff_ne_zero, ne_eq, hvalue, not_not]

theorem found_findings (r : Registry) : Check.Found r.checks r.findings := by
  have hword16 : ∀ word : UInt16, word.toNat = 0 ↔ ¬ word ≠ 0 := by
    simp [← UInt16.toNat_inj]
  have hword32 : ∀ word : UInt32, word.toNat = 0 ↔ ¬ word ≠ 0 := by
    simp [← UInt32.toNat_inj]
  have hword64 : ∀ word : UInt64, word.toNat = 0 ↔ ¬ word ≠ 0 := by
    simp [← UInt64.toNat_inj]
  have hshare := Binary64.isProperFraction_iff
  have hburst : ∀ target : Throughput,
      decide (target.baseline ≤ target.burst) = true ↔ target.baseline ≤ target.burst :=
    fun _ => decide_eq_true_iff
  have hlisted : (!r.jurisdictions.tags.isEmpty) = true ↔ r.jurisdictions.tags ≠ [] := by
    simp
  have hrepeated : Check.Outcome (Jurisdictions.entryChecks [] r.jurisdictions.tags)
      (r.jurisdictions.repeated?.map .repeatedJurisdiction) :=
    Jurisdictions.outcome_entryChecks fun _ => Iff.rfl
  -- network
  refine found_positive ?_ (hword64 _)
  refine found_positive ?_ (hword32 _)
  refine found_positive ?_ (hword64 _)
  refine .demand ?_ (gasBounds_inOrder_iff _)
  refine .demand ?_ (gasTariff_admits_iff _ _)
  -- governance
  refine found_positive ?_ (hword64 _)
  refine .demand ?_ (votingPeriods_inOrder_iff _)
  -- two fractions for each of three kinds
  refine .demand (.demand ?_ (hshare _)) (hshare _)
  refine .demand (.demand ?_ (hshare _)) (hshare _)
  refine .demand (.demand ?_ (hshare _)) (hshare _)
  -- six subsystems
  refine .demand (.demand (.demand ?_ (hburst _)) (hburst _)) (hburst _)
  refine .demand (.demand (.demand ?_ (hburst _)) (hburst _)) (hburst _)
  -- chat
  refine found_positive ?_ (hword64 _)
  refine found_positive ?_ (hword64 _)
  refine found_positive ?_ (hword64 _)
  -- jurisdictions
  refine .demand ?_ hlisted
  change Check.Found (Jurisdictions.entryChecks [] r.jurisdictions.tags ++ _) _
  refine .group hrepeated ?_
  -- amounts and retention
  refine .demand ?_ (amountBounds_inOrder_iff _)
  refine found_positive ?_ (hword64 _)
  -- four services and four tiers
  refine found_positive (found_positive ?_ (hword16 _)) (hword16 _)
  refine found_positive (found_positive ?_ (hword16 _)) (hword16 _)
  refine found_positive (found_positive ?_ (hword32 _)) (hword32 _)
  exact found_positive (found_positive .nil (hword32 _)) (hword32 _)

/-- The answer of validation is what the first check that fails reports. -/
theorem violation?_eq_some_iff (r : Registry) (violation : Violation) :
    r.violation? = some violation ↔ Check.FirstFailing r.checks violation :=
  (found_findings r).outcome.eq_some_iff violation

/-! ## What is reported is true -/

/-- The value that stands at a path of a document for the registry. -/
def held? (r : Registry) (path : List String) : Option LeafValue :=
  (leaves.find? fun leaf => leaf.path == path).map fun leaf => leaf.get r

theorem held?_fraction (r : Registry) (kind : ProposalKind) (fraction : Fraction) :
    r.held? ["proposals", Text.fold (Category.key kind), fraction.name] =
      some (.fraction ((r.passing.rule kind).fraction fraction)) := by
  cases kind <;> cases fraction <;> rfl

theorem held?_throughput (r : Registry) (subsystem : Subsystem) :
    r.held? ["tps_targets", Text.fold (Category.key subsystem), "baseline"] =
        some (.number (r.throughput.target subsystem).baseline.toNat) ∧
      r.held? ["tps_targets", Text.fold (Category.key subsystem), "burst"] =
        some (.number (r.throughput.target subsystem).burst.toNat) := by
  cases subsystem <;> exact ⟨rfl, rfl⟩

end Registry

/-- What a violation says, as a condition on the values of the registry. -/
def Violation.Describes (r : Registry) : Violation → Prop
  | gasDisordered limits =>
    limits = r.blocks.gasLimits ∧ ¬ (limits.min ≤ limits.max ∧ limits.max ≤ limits.block)
  | gasPriceOutside price =>
    price = r.blocks.gasPrice ∧ ¬ (price.lowest ≤ price.usual ∧ price.usual ≤ price.highest)
  | periodsDisordered periods =>
    periods = r.voting ∧ ¬ (periods.shortest ≤ periods.usual ∧ periods.usual ≤ periods.longest)
  | improperFraction kind fraction value =>
    r.held? ["proposals", Text.fold (Category.key kind), fraction.name] = some (.fraction value) ∧
      ¬ value.IsShare
  | burstTooLow subsystem target =>
    r.held? ["tps_targets", Text.fold (Category.key subsystem), "baseline"] =
        some (.number target.baseline.toNat) ∧
      r.held? ["tps_targets", Text.fold (Category.key subsystem), "burst"] =
        some (.number target.burst.toNat) ∧
      target.burst < target.baseline
  | vanishing field =>
    ∃ path, ".".intercalate path = field ∧ r.held? path = some (.number 0)
  | amountsDisordered bounds =>
    bounds = r.amounts ∧ ¬ (bounds.least ≤ bounds.transfer ∧
      bounds.transfer ≤ bounds.delegation ∧ bounds.delegation ≤ bounds.representable)
  | noJurisdiction => r.jurisdictions.tags = []
  | repeatedJurisdiction tag =>
    ∃ before after, r.jurisdictions.tags = before ++ tag :: after ∧ tag ∈ before ∧ before.Nodup

namespace Registry

theorem describes_of_demand {r : Registry} {condition : Prop} {holds : Bool}
    {violation : Violation} (hholds : holds = true ↔ condition)
    (hdescribes : ¬ condition → violation.Describes r) :
    ∀ found, demand holds violation = some found → found.Describes r := by
  intro found hfound
  cases holds with
  | true => simp [demand] at hfound
  | false =>
      have hsame : violation = found := by simpa [demand] using hfound
      exact hsame ▸ hdescribes (by simpa using hholds)

theorem describes_of_positive {r : Registry} {value : Nat} {field : String} (path : List String)
    (hfield : ".".intercalate path = field) (hheld : r.held? path = some (.number value)) :
    ∀ found, positive value field = some found → found.Describes r := by
  refine describes_of_demand decide_eq_true_iff fun hfails => ⟨path, hfield, ?_⟩
  rw [hheld, Nat.eq_zero_of_not_pos hfails]

theorem describes_of_fractionFindings (r : Registry) (kind : ProposalKind) :
    ∀ finding ∈ r.fractionFindings kind, ∀ found, finding = some found → found.Describes r := by
  rintro _ hfinding
  obtain ⟨fraction, -, rfl⟩ := List.mem_map.mp hfinding
  exact describes_of_demand (Binary64.isProperFraction_iff _)
    fun hfails => ⟨held?_fraction r kind fraction, hfails⟩

theorem describes_of_throughputFinding (r : Registry) (subsystem : Subsystem) :
    ∀ found, r.throughputFinding subsystem = some found → found.Describes r := by
  obtain ⟨hbaseline, hburst⟩ := held?_throughput r subsystem
  exact describes_of_demand decide_eq_true_iff
    fun hfails => ⟨hbaseline, hburst, UInt64.not_le.mp hfails⟩

/-- Whatever is found, first or not, is true of the registry. -/
theorem describes_of_findings (r : Registry) :
    ∀ finding ∈ r.findings, ∀ found, finding = some found → found.Describes r := by
  have htags : (!r.jurisdictions.tags.isEmpty) = true ↔ r.jurisdictions.tags ≠ [] := by
    simp
  have hrepeated : ∀ found : Violation,
      r.jurisdictions.repeated?.map .repeatedJurisdiction = some found → found.Describes r := by
    intro found hfound
    obtain ⟨tag, htag, rfl⟩ := Option.map_eq_some_iff.mp hfound
    exact Jurisdictions.repeated?_eq_some_iff.mp htag
  have hnone : ∀ finding ∈ ([] : List (Option Violation)), ∀ found, finding = some found →
      found.Describes r := by
    simp
  simp only [findings, List.forall_mem_append, List.forall_mem_cons, List.forall_mem_flatMap,
    List.forall_mem_map]
  refine ⟨⟨⟨⟨⟨⟨?_, ?_, ?_, ?_, ?_, ?_, ?_, hnone⟩, ?_⟩, ?_⟩, ?_, ?_, ?_, ?_, hrepeated, ?_, ?_,
    hnone⟩, ?_⟩, ?_⟩
  · exact describes_of_positive ["network", "block_time_ms"] rfl rfl
  · exact describes_of_positive ["network", "max_transactions_per_block"] rfl rfl
  · exact describes_of_positive ["network", "gas_limits", "min"] rfl rfl
  · exact describes_of_demand (gasBounds_inOrder_iff _) fun hfails => ⟨rfl, hfails⟩
  · exact describes_of_demand (gasTariff_admits_iff _ _) fun hfails => ⟨rfl, hfails⟩
  · exact describes_of_positive ["governance", "min_voting"] rfl rfl
  · exact describes_of_demand (votingPeriods_inOrder_iff _) fun hfails => ⟨rfl, hfails⟩
  · exact fun kind _ => describes_of_fractionFindings r kind
  · exact fun subsystem _ => describes_of_throughputFinding r subsystem
  · exact describes_of_positive ["chat_limits", "max_chat_context_id_length"] rfl rfl
  · exact describes_of_positive ["chat_limits", "max_transcript_hash_length"] rfl rfl
  · exact describes_of_positive ["chat_limits", "max_jurisdiction_tags"] rfl rfl
  · exact describes_of_demand htags not_not.mp
  · exact describes_of_demand (amountBounds_inOrder_iff _) fun hfails => ⟨rfl, hfails⟩
  · exact describes_of_positive ["audit_retention_ms"] rfl rfl
  · intro service _
    refine describes_of_positive ["ports", Text.fold (Category.key service)] ?_ ?_
    all_goals cases service <;> rfl
  · intro tier _
    refine describes_of_positive ["rate_limits", Text.fold (Category.key tier)] ?_ ?_
    all_goals cases tier <;> rfl

/-- The violation that is reported is true of the registry, and it is the first one: it is what the
first check that fails reports, and all checks before that one hold. -/
theorem violation?_describes_firstFailing (r : Registry) (violation : Violation)
    (hviolation : r.violation? = some violation) :
    violation.Describes r ∧ Check.FirstFailing r.checks violation := by
  obtain ⟨finding, hmem, hfinding⟩ := List.exists_of_findSome?_eq_some hviolation
  have hfinding : finding = some violation := hfinding
  exact ⟨describes_of_findings r finding hmem violation hfinding,
    (r.violation?_eq_some_iff violation).mp hviolation⟩

/-- A registry with a burst that is too low, a tag that is listed twice and no retention.  Only the
burst is reported. -/
def faulty : Registry :=
  { reference with
    throughput := { ThroughputTargets.reference with wallet := ⟨15000, 14999⟩ }
    jurisdictions := ⟨["US", "EU", "US"]⟩
    auditRetentionMs := 0 }

theorem violation?_describes_firstFailing_faulty :
    faulty.violation? = some (.burstTooLow .wallet ⟨15000, 14999⟩) ∧
      (Violation.burstTooLow .wallet ⟨15000, 14999⟩).Describes faulty ∧
      Check.FirstFailing faulty.checks (.burstTooLow .wallet ⟨15000, 14999⟩) := by
  have hviolation : faulty.violation? = some (.burstTooLow .wallet ⟨15000, 14999⟩) := by
    decide +kernel
  exact ⟨hviolation, violation?_describes_firstFailing faulty _ hviolation⟩

end Registry

end ChainRegistry
