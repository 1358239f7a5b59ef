import ChainRegistry.Proofs.Schemes
import ChainRegistry.Registry.Basic

/-!
# Leaves of the sections

Each section of the registry is described by its leaves, one group of them for each field, and the
description is checked against the codec of the section.  A name that is misspelt, a field that
writes into its neighbour or a reference value that belongs to another field would fail the check.
-/

namespace ChainRegistry

/-! ## Blocks and voting periods -/

namespace GasBounds

def leafGroups : List (List (Leaf GasBounds)) :=
  [[.word64].map (Leaf.under "min" min),
    [.word64].map (Leaf.under "max" max),
    [.word64].map (Leaf.under "block_limit" block)]

def leaves : List (Leaf GasBounds) := leafGroups.flatten

theorem scheme : codec.Scheme reference leaves := by
  apply Codec.scheme_record rfl rfl (by decide) (by decide) (by decide)
  · simp only [Part.zip, fields, leafGroups, List.zipWith, List.forall_mem_cons]
    exact ⟨Part.sound_of (Codec.word64_scheme _) fun _ _ => rfl,
      Part.sound_of (Codec.word64_scheme _) fun _ _ => rfl,
      Part.sound_of (Codec.word64_scheme _) fun _ _ => rfl, by simp⟩
  · simp only [Part.zip, fields, leafGroups, List.zipWith, List.pairwise_cons, List.forall_mem_cons,
      List.not_mem_nil, false_implies, implies_true, List.Pairwise.nil, and_true]
    and_intros
    all_goals exact Part.of_spares_of fun _ _ => rfl
  · intro r s hsame
    simp only [leafGroups, List.forall_mem_cons] at hsame
    obtain ⟨hmin, hmax, hblock, -⟩ := hsame
    have hmin := (Codec.word64_scheme 0).eq_of_under hmin
    have hmax := (Codec.word64_scheme 0).eq_of_under hmax
    have hblock := (Codec.word64_scheme 0).eq_of_under hblock
    cases r
    cases s
    simp_all

end GasBounds

namespace GasTariff

def leafGroups : List (List (Leaf GasTariff)) :=
  [[.word64].map (Leaf.under "default" usual),
    [.word64].map (Leaf.under "minimum" lowest),
    [.word64].map (Leaf.under "maximum" highest)]

def leaves : List (Leaf GasTariff) := leafGroups.flatten

theorem scheme : codec.Scheme reference leaves := by
  apply Codec.scheme_record rfl rfl (by decide) (by decide) (by decide)
  · simp only [Part.zip, fields, leafGroups, List.zipWith, List.forall_mem_cons]
    exact ⟨Part.sound_of (Codec.word64_scheme _) fun _ _ => rfl,
      Part.sound_of (Codec.word64_scheme _) fun _ _ => rfl,
      Part.sound_of (Codec.word64_scheme _) fun _ _ => rfl, by simp⟩
  · simp only [Part.zip, fields, leafGroups, List.zipWith, List.pairwise_cons, List.forall_mem_cons,
      List.not_mem_nil, false_implies, implies_true, List.Pairwise.nil, and_true]
    and_intros
    all_goals exact Part.of_spares_of fun _ _ => rfl
  · intro r s hsame
    simp only [leafGroups, List.forall_mem_cons] at hsame
    obtain ⟨husual, hlowest, hhighest, -⟩ := hsame
    have husual := (Codec.word64_scheme 0).eq_of_under husual
    have hlowest := (Codec.word64_scheme 0).eq_of_under hlowest
    have hhighest := (Codec.word64_scheme 0).eq_of_under hhighest
    cases r
    cases s
    simp_all

end GasTariff

namespace BlockRules

def leafGroups : List (List (Leaf BlockRules)) :=
  [[.word64].map (Leaf.under "block_time_ms" timeMs),
    [.word32].map (Leaf.under "max_transactions_per_block" maxTransactions),
    GasBounds.leaves.map (Leaf.under "gas_limits" gasLimits),
    GasTariff.leaves.map (Leaf.under "gas_price" gasPrice)]

def leaves : List (Leaf BlockRules) := leafGroups.flatten

theorem scheme : codec.Scheme reference leaves := by
  apply Codec.scheme_record rfl rfl (by decide) (by decide) (by decide)
  · simp only [Part.zip, fields, leafGroups, List.zipWith, List.forall_mem_cons]
    exact ⟨Part.sound_of (Codec.word64_scheme _) fun _ _ => rfl,
      Part.sound_of (Codec.word32_scheme _) fun _ _ => rfl,
      Part.sound_of GasBounds.scheme fun _ _ => rfl,
      Part.sound_of GasTariff.scheme fun _ _ => rfl, by simp⟩
  · simp only [Part.zip, fields, leafGroups, List.zipWith, List.pairwise_cons, List.forall_mem_cons,
      List.not_mem_nil, false_implies, implies_true, List.Pairwise.nil, and_true]
    and_intros
    all_goals exact Part.of_spares_of fun _ _ => rfl
  · intro r s hsame
    simp only [leafGroups, List.forall_mem_cons] at hsame
    obtain ⟨htimeMs, hmaxTransactions, hgasLimits, hgasPrice, -⟩ := hsame
    have htimeMs := (Codec.word64_scheme 0).eq_of_under htimeMs
    have hmaxTransactions := (Codec.word32_scheme 0).eq_of_under hmaxTransactions
    have hgasLimits := GasBounds.scheme.eq_of_under hgasLimits
    have hgasPrice := GasTariff.scheme.eq_of_under hgasPrice
    cases r
    cases s
    simp_all

end BlockRules

namespace VotingPeriods

def leafGroups : List (List (Leaf VotingPeriods)) :=
  [[.word64].map (Leaf.under "min_voting" shortest),
    [.word64].map (Leaf.under "default_voting" usual),
    [.word64].map (Leaf.under "max_voting" longest)]

def leaves : List (Leaf VotingPeriods) := leafGroups.flatten

theorem scheme : codec.Scheme reference leaves := by
  apply Codec.scheme_record rfl rfl (by decide) (by decide) (by decide)
  · simp only [Part.zip, fields, leafGroups, List.zipWith, List.forall_mem_cons]
    exact ⟨Part.sound_of (Codec.word64_scheme _) fun _ _ => rfl,
      Part.sound_of (Codec.word64_scheme _) fun _ _ => rfl,
      Part.sound_of (Codec.word64_scheme _) fun _ _ => rfl, by simp⟩
  · simp only [Part.zip, fields, leafGroups, List.zipWith, List.pairwise_cons, List.forall_mem_cons,
      List.not_mem_nil, false_implies, implies_true, List.Pairwise.nil, and_true]
    and_intros
    all_goals exact Part.of_spares_of fun _ _ => rfl
  · intro r s hsame
    simp only [leafGroups, List.forall_mem_cons] at hsame
    obtain ⟨hshortest, husual, hlongest, -⟩ := hsame
    have hshortest := (Codec.word64_scheme 0).eq_of_under hshortest
    have husual := (Codec.word64_scheme 0).eq_of_under husual
    have hlongest := (Codec.word64_scheme 0).eq_of_under hlongest
    cases r
    cases s
    simp_all

end VotingPeriods

/-! ## Rules and targets, which are read as changes to a base -/

namespace PassingRule

def leafGroups : List (List (Leaf PassingRule)) :=
  [([.fraction].map (Leaf.under "quorum" quorum)).map Leaf.orNull,
    ([.fraction].map (Leaf.under "threshold" threshold)).map Leaf.orNull]

def leaves : List (Leaf PassingRule) := leafGroups.flatten

theorem scheme (base : PassingRule) : (changes base).Scheme base leaves := by
  have hparts : Part.zip (fields.map Field.nullable) leafGroups =
      [(Part.of "quorum" .fraction quorum (fun r v => { r with quorum := v })
          [.fraction]).nullable,
        (Part.of "threshold" .fraction threshold (fun r v => { r with threshold := v })
          [.fraction]).nullable] :=
    rfl
  apply Codec.scheme_record rfl rfl (by decide) (by decide) (by decide)
  · simp only [hparts, List.forall_mem_cons]
    exact ⟨Part.sound_nullable rfl (Codec.fraction_scheme _) fun _ _ => rfl,
      Part.sound_nullable rfl (Codec.fraction_scheme _) fun _ _ => rfl, by simp⟩
  · rw [hparts, List.pairwise_pair]
    exact ⟨Part.nullable_spares_nullable fun _ _ => rfl,
      Part.nullable_spares_nullable fun _ _ => rfl⟩
  · intro r s hsame
    simp only [leafGroups, List.forall_mem_cons] at hsame
    obtain ⟨hquorum, hthreshold, -⟩ := hsame
    have hquorum := (Codec.fraction_scheme .zero).eq_of_orNull hquorum
    have hthreshold := (Codec.fraction_scheme .zero).eq_of_orNull hthreshold
    cases r
    cases s
    simp_all

end PassingRule

namespace PassingRules

def leafGroups : List (List (Leaf PassingRules)) :=
  [PassingRule.leaves.map (Leaf.under "parameter_change" parameterChange),
    PassingRule.leaves.map (Leaf.under "treasury_spend" treasurySpend),
    PassingRule.leaves.map (Leaf.under "contract_upgrade" contractUpgrade)]

def leaves : List (Leaf PassingRules) := leafGroups.flatten

theorem scheme : codec.Scheme reference leaves := by
  apply Codec.scheme_record rfl rfl (by decide) (by decide) (by decide)
  · simp only [Part.zip, fields, leafGroups, List.zipWith, List.forall_mem_cons]
    exact ⟨Part.sound_of (PassingRule.scheme _) fun _ _ => rfl,
      Part.sound_of (PassingRule.scheme _) fun _ _ => rfl,
      Part.sound_of (PassingRule.scheme _) fun _ _ => rfl, by simp⟩
  · simp only [Part.zip, fields, leafGroups, List.zipWith, List.pairwise_cons, List.forall_mem_cons,
      List.not_mem_nil, false_implies, implies_true, List.Pairwise.nil, and_true]
    and_intros
    all_goals exact Part.of_spares_of fun _ _ => rfl
  · intro r s hsame
    simp only [leafGroups, List.forall_mem_cons] at hsame
    obtain ⟨hparameterChange, htreasurySpend, hcontractUpgrade, -⟩ := hsame
    have hparameterChange := (PassingRule.scheme ⟨.zero, .zero⟩).eq_of_under hparameterChange
    have htreasurySpend := (PassingRule.scheme ⟨.zero, .zero⟩).eq_of_under htreasurySpend
    have hcontractUpgrade := (PassingRule.scheme ⟨.zero, .zero⟩).eq_of_under hcontractUpgrade
    cases r
    cases s
    simp_all

end PassingRules

namespace Throughput

def leafGroups : List (List (Leaf Throughput)) :=
  [([.word64].map (Leaf.under "baseline" baseline)).map Leaf.orNull,
    ([.word64].map (Leaf.under "burst" burst)).map Leaf.orNull]

def leaves : List (Leaf Throughput) := leafGroups.flatten

theorem scheme (base : Throughput) : (changes base).Scheme base leaves := by
  have hparts : Part.zip (fields.map Field.nullable) leafGroups =
      [(Part.of "baseline" .word64 baseline (fun r v => { r with baseline := v })
          [.word64]).nullable,
        (Part.of "burst" .word64 burst (fun r v => { r with burst := v }) [.word64]).nullable] :=
    rfl
  apply Codec.scheme_record rfl rfl (by decide) (by decide) (by decide)
  · simp only [hparts, List.forall_mem_cons]
    exact ⟨Part.sound_nullable rfl (Codec.word64_scheme _) fun _ _ => rfl,
      Part.sound_nullable rfl (Codec.word64_scheme _) fun _ _ => rfl, by simp⟩
  · rw [hparts, List.pairwise_pair]
    exact ⟨Part.nullable_spares_nullable fun _ _ => rfl,
      Part.nullable_spares_nullable fun _ _ => rfl⟩
  · intro r s hsame
    simp only [leafGroups, List.forall_mem_cons] at hsame
    obtain ⟨hbaseline, hburst, -⟩ := hsame
    have hbaseline := (Codec.word64_scheme 0).eq_of_orNull hbaseline
    have hburst := (Codec.word64_scheme 0).eq_of_orNull hburst
    cases r
    cases s
    simp_all

end Throughput

namespace ThroughputTargets

def leafGroups : List (List (Leaf ThroughputTargets)) :=
  [Throughput.leaves.map (Leaf.under "chat_router" chatRouter),
    Throughput.leaves.map (Leaf.under "wallet" wallet),
    Throughput.leaves.map (Leaf.under "governance" governance),
    Throughput.leaves.map (Leaf.under "agent" agent),
    Throughput.leaves.map (Leaf.under "migration" migration),
    Throughput.leaves.map (Leaf.under "total_network" totalNetwork)]

def leaves : List (Leaf ThroughputTargets) := leafGroups.flatten

theorem scheme : codec.Scheme reference leaves := by
  apply Codec.scheme_record rfl rfl (by decide) (by decide) (by decide)
  · simp only [Part.zip, fields, leafGroups, List.zipWith, List.forall_mem_cons]
    exact ⟨Part.sound_of (Throughput.scheme _) fun _ _ => rfl,
      Part.sound_of (Throughput.scheme _) fun _ _ => rfl,
      Part.sound_of (Throughput.scheme _) fun _ _ => rfl,
      Part.sound_of (Throughput.scheme _) fun _ _ => rfl,
      Part.sound_of (Throughput.scheme _) fun _ _ => rfl,
      Part.sound_of (Throughput.scheme _) fun _ _ => rfl, by simp⟩
  · simp only [Part.zip, fields, leafGroups, List.zipWith, List.pairwise_cons, List.forall_mem_cons,
      List.not_mem_nil, false_implies, implies_true, List.Pairwise.nil, and_true]
    and_intros
    all_goals exact Part.of_spares_of fun _ _ => rfl
  · intro r s hsame
    simp only [leafGroups, List.forall_mem_cons] at hsame
    obtain ⟨hchatRouter, hwallet, hgovernance, hagent, hmigration, htotalNetwork, -⟩ := hsame
    have hchatRouter := (Throughput.scheme ⟨0, 0⟩).eq_of_under hchatRouter
    have hwallet := (Throughput.scheme ⟨0, 0⟩).eq_of_under hwallet
    have hgovernance := (Throughput.scheme ⟨0, 0⟩).eq_of_under hgovernance
    have hagent := (Throughput.scheme ⟨0, 0⟩).eq_of_under hagent
    have hmigration := (Throughput.scheme ⟨0, 0⟩).eq_of_under hmigration
    have htotalNetwork := (Throughput.scheme ⟨0, 0⟩).eq_of_under htotalNetwork
    cases r
    cases s
    simp_all

end ThroughputTargets

/-! ## Limits, lists, policies and endpoints -/

namespace ChatLimits

def leafGroups : List (List (Leaf ChatLimits)) :=
  [[.word64].map (Leaf.under "max_chat_context_id_length" contextId),
    [.word64].map (Leaf.under "max_transcript_hash_length" transcriptHash),
    [.word64].map (Leaf.under "max_jurisdiction_tags" tags)]

def leaves : List (Leaf ChatLimits) := leafGroups.flatten

theorem scheme : codec.Scheme reference leaves := by
  apply Codec.scheme_record rfl rfl (by decide) (by decide) (by decide)
  · simp only [Part.zip, fields, leafGroups, List.zipWith, List.forall_mem_cons]
    exact ⟨Part.sound_of (Codec.word64_scheme _) fun _ _ => rfl,
      Part.sound_of (Codec.word64_scheme _) fun _ _ => rfl,
      Part.sound_of (Codec.word64_scheme _) fun _ _ => rfl, by simp⟩
  · simp only [Part.zip, fields, leafGroups, List.zipWith, List.pairwise_cons, List.forall_mem_cons,
      List.not_mem_nil, false_implies, implies_true, List.Pairwise.nil, and_true]
    and_intros
    all_goals exact Part.of_spares_of fun _ _ => rfl
  · intro r s hsame
    simp only [leafGroups, List.forall_mem_cons] at hsame
    obtain ⟨hcontextId, htranscriptHash, htags, -⟩ := hsame
    have hcontextId := (Codec.word64_scheme 0).eq_of_under hcontextId
    have htranscriptHash := (Codec.word64_scheme 0).eq_of_under htranscriptHash
    have htags := (Codec.word64_scheme 0).eq_of_under htags
    cases r
    cases s
    simp_all

end ChatLimits

namespace Jurisdictions

def leaves : List (Leaf Jurisdictions) := [⟨[], .texts, false, fun r => .texts r.tags⟩]

theorem scheme : codec.Scheme reference leaves := by
  refine Codec.scheme_scalar reference rfl rfl ?_ (fun _ => rfl) (fun r => .texts r.tags) ?_
  · intro origin node
    simp [codec, Codec.texts, LeafKind.read?, Function.comp_def]
  · intro r s hsame
    obtain rfl : r = s := by
      cases r
      cases s
      simpa using hsame
    rfl

end Jurisdictions

namespace PinnedPolicies

def leafGroups : List (List (Leaf PinnedPolicies)) :=
  [[.text].map (Leaf.under "jfmip" jfmip),
    [.text].map (Leaf.under "gdpr" gdpr),
    [.text].map (Leaf.under "mica" mica),
    [.text].map (Leaf.under "fatf" fatf)]

def leaves : List (Leaf PinnedPolicies) := leafGroups.flatten

theorem scheme : codec.Scheme reference leaves := by
  apply Codec.scheme_record rfl rfl (by decide) (by decide) (by decide)
  · simp only [Part.zip, fields, leafGroups, List.zipWith, List.forall_mem_cons]
    exact ⟨Part.sound_of (Codec.text_scheme _) fun _ _ => rfl,
      Part.sound_of (Codec.text_scheme _) fun _ _ => rfl,
      Part.sound_of (Codec.text_scheme _) fun _ _ => rfl,
      Part.sound_of (Codec.text_scheme _) fun _ _ => rfl, by simp⟩
  · simp only [Part.zip, fields, leafGroups, List.zipWith, List.pairwise_cons, List.forall_mem_cons,
      List.not_mem_nil, false_implies, implies_true, List.Pairwise.nil, and_true]
    and_intros
    all_goals exact Part.of_spares_of fun _ _ => rfl
  · intro r s hsame
    simp only [leafGroups, List.forall_mem_cons] at hsame
    obtain ⟨hjfmip, hgdpr, hmica, hfatf, -⟩ := hsame
    have hjfmip := (Codec.text_scheme "").eq_of_under hjfmip
    have hgdpr := (Codec.text_scheme "").eq_of_under hgdpr
    have hmica := (Codec.text_scheme "").eq_of_under hmica
    have hfatf := (Codec.text_scheme "").eq_of_under hfatf
    cases r
    cases s
    simp_all

end PinnedPolicies

namespace Endpoints

def leafGroups : List (List (Leaf Endpoints)) :=
  [[.word16].map (Leaf.under "http_api" httpApi),
    [.word16].map (Leaf.under "websocket" webSocket),
    [.word16].map (Leaf.under "explorer" explorer),
    [.word16].map (Leaf.under "metrics" metrics)]

def leaves : List (Leaf Endpoints) := leafGroups.flatten

theorem scheme : codec.Scheme reference leaves := by
  apply Codec.scheme_record rfl rfl (by decide) (by decide) (by decide)
  · simp only [Part.zip, fields, leafGroups, List.zipWith, List.forall_mem_cons]
    exact ⟨Part.sound_of (Codec.word16_scheme _) fun _ _ => rfl,
      Part.sound_of (Codec.word16_scheme _) fun _ _ => rfl,
      Part.sound_of (Codec.word16_scheme _) fun _ _ => rfl,
      Part.sound_of (Codec.word16_scheme _) fun _ _ => rfl, by simp⟩
  · simp only [Part.zip, fields, leafGroups, List.zipWith, List.pairwise_cons, List.forall_mem_cons,
      List.not_mem_nil, false_implies, implies_true, List.Pairwise.nil, and_true]
    and_intros
    all_goals exact Part.of_spares_of fun _ _ => rfl
  · intro r s hsame
    simp only [leafGroups, List.forall_mem_cons] at hsame
    obtain ⟨hhttpApi, hwebSocket, hexplorer, hmetrics, -⟩ := hsame
    have hhttpApi := (Codec.word16_scheme 0).eq_of_under hhttpApi
    have hwebSocket := (Codec.word16_scheme 0).eq_of_under hwebSocket
    have hexplorer := (Codec.word16_scheme 0).eq_of_under hexplorer
    have hmetrics := (Codec.word16_scheme 0).eq_of_under hmetrics
    cases r
    cases s
    simp_all

end Endpoints

namespace Quotas

def leafGroups : List (List (Leaf Quotas)) :=
  [[.word32].map (Leaf.under "public_api" publicApi),
    [.word32].map (Leaf.under "authenticated_api" authenticatedApi),
    [.word32].map (Leaf.under "agent_api" agentApi),
    [.word32].map (Leaf.under "websocket_subscriptions" websocketSubscriptions)]

def leaves : List (Leaf Quotas) := leafGroups.flatten

theorem scheme : codec.Scheme reference leaves := by
  apply Codec.scheme_record rfl rfl (by decide) (by decide) (by decide)
  · simp only [Part.zip, fields, leafGroups, List.zipWith, List.forall_mem_cons]
    exact ⟨Part.sound_of (Codec.word32_scheme _) fun _ _ => rfl,
      Part.sound_of (Codec.word32_scheme _) fun _ _ => rfl,
      Part.sound_of (Codec.word32_scheme _) fun _ _ => rfl,
      Part.sound_of (Codec.word32_scheme _) fun _ _ => rfl, by simp⟩
  · simp only [Part.zip, fields, leafGroups, List.zipWith, List.pairwise_cons, List.forall_mem_cons,
      List.not_mem_nil, false_implies, implies_true, List.Pairwise.nil, and_true]
    and_intros
    all_goals exact Part.of_spares_of fun _ _ => rfl
  · intro r s hsame
    simp only [leafGroups, List.forall_mem_cons] at hsame
    obtain ⟨hpublicApi, hauthenticatedApi, hagentApi, hwebsocketSubscriptions, -⟩ := hsame
    have hpublicApi := (Codec.word32_scheme 0).eq_of_under hpublicApi
    have hauthenticatedApi := (Codec.word32_scheme 0).eq_of_under hauthenticatedApi
    have hagentApi := (Codec.word32_scheme 0).eq_of_under hagentApi
    have hwebsocketSubscriptions := (Codec.word32_scheme 0).eq_of_under hwebsocketSubscriptions
    cases r
    cases s
    simp_all

end Quotas

end ChainRegistry
