import ChainRegistry.Proofs.Voting.Shares

/-!
# Votes that are added to a tally

More people vote, and all of them approve.  The quorum is never missed by that.  The approval rises
as a quotient, but the two counts are kept to fifty-three bits one by one, so as a double it may
fall once the participants need more bits.  It falls by `5 / 2^53` at most, and not at all as long
as there are no more than `2^53 + 1` participants or the vote is unanimous.
-/

namespace ChainRegistry

open Binary64

/-! ## Quotients of leading bits -/

section LeadingBits

variable {approving participating : Nat} (votes : Nat)

theorem add_cross_le (happroving : approving ≤ participating) :
    approving * (participating + votes) ≤ (approving + votes) * participating := by
  rw [Nat.mul_add, Nat.add_mul, Nat.mul_comm votes]
  exact Nat.add_le_add_left (Nat.mul_le_mul_right _ happroving) _

/-- While the larger count has at most fifty-three bits, or one bit more that is dropped, the
quotient of the leading bits rises. -/
theorem leadingBits_cross_le (happroving : approving ≤ participating)
    (hfew : participating + votes ≤ 2 ^ 53 + 1 ∨ approving = participating) :
    leadingBits approving * leadingBits (participating + votes) ≤
      leadingBits (approving + votes) * leadingBits participating := by
  by_cases hall : approving = participating
  · rw [hall, Nat.mul_comm]
  · have hsmall : participating + votes ≤ 2 ^ 53 + 1 := hfew.resolve_right hall
    rcases Nat.eq_zero_or_pos votes with rfl | hvotes
    · exact Nat.le_refl _
    · have hwhole : leadingBits (participating + votes) ≤ participating + votes := by
        rcases Nat.eq_or_lt_of_le hsmall with hedge | hbelow
        · rw [hedge]
          decide
        · rw [leadingBits_of_le (Nat.le_of_lt_succ hbelow)]
      rw [leadingBits_of_le (n := approving) (by omega),
        leadingBits_of_le (n := participating) (by omega),
        leadingBits_of_le (n := approving + votes) (by omega)]
      exact (Nat.mul_le_mul_left _ hwhole).trans (add_cross_le votes happroving)

/-- In any case the quotient of the leading bits keeps all but four parts in `2^53` of itself. -/
theorem leadingBits_cross_error (happroving : approving ≤ participating) :
    (2 ^ 53 - 4) * (leadingBits approving * leadingBits (participating + votes)) ≤
      2 ^ 53 * (leadingBits (approving + votes) * leadingBits participating) := by
  have hup := Nat.mul_le_mul (leadingBits_error approving).1
    (leadingBits_error (participating + votes)).1
  have hdown := Nat.mul_le_mul (leadingBits_error (approving + votes)).2
    (leadingBits_error participating).2
  have hcross := add_cross_le votes happroving
  rw [Nat.mul_mul_mul_comm, Nat.mul_mul_mul_comm (2 ^ 53 + 1)] at hup
  rw [Nat.mul_mul_mul_comm, Nat.mul_mul_mul_comm (2 ^ 53)] at hdown
  omega

end LeadingBits

namespace Tally

/-- The tally after more people have voted who all approve. -/
def addApproving (tally : Tally) (votes : UInt64) : Tally where
  eligible := tally.eligible
  participating := tally.participating + votes
  approving := tally.approving + votes

section Room

variable {tally : Tally} {votes : UInt64}
  (hroom : tally.participating.toNat + votes.toNat ≤ tally.eligible.toNat)
  (hconsistent : tally.isConsistent = true)

include hroom hconsistent

theorem toNat_addApproving :
    (tally.addApproving votes).participating.toNat =
        tally.participating.toNat + votes.toNat ∧
      (tally.addApproving votes).approving.toNat = tally.approving.toNat + votes.toNat := by
  have hword := tally.eligible.toNat_lt
  obtain ⟨-, -, happroving⟩ := tally.isConsistent_iff.mp hconsistent
  rw [addApproving, UInt64.toNat_add, UInt64.toNat_add, Nat.mod_eq_of_lt (by omega),
    Nat.mod_eq_of_lt (by omega)]
  exact ⟨rfl, rfl⟩

theorem isConsistent_addApproving : (tally.addApproving votes).isConsistent = true := by
  obtain ⟨hvotes, -, happroving⟩ := tally.isConsistent_iff.mp hconsistent
  obtain ⟨hparticipating', happroving'⟩ := toNat_addApproving hroom hconsistent
  rw [isConsistent_iff, hparticipating', happroving']
  exact ⟨by omega, hroom, by omega⟩

/-- The turnout does not fall. -/
theorem turnout_le_addApproving : tally.turnout ≤ (tally.addApproving votes).turnout := by
  obtain ⟨hvotes, -, -⟩ := tally.isConsistent_iff.mp hconsistent
  obtain ⟨hparticipating', -⟩ := toNat_addApproving hroom hconsistent
  have heligible : 0 < tally.eligible.toNat := by omega
  refine share_le_share heligible heligible (Nat.mul_le_mul_right _ (leadingBits_le ?_))
  rw [hparticipating']
  exact Nat.le_add_right _ _

theorem approval_le_addApproving
    (hfew : tally.participating.toNat + votes.toNat ≤ 2 ^ 53 + 1 ∨
      tally.approving = tally.participating) :
    tally.approval ≤ (tally.addApproving votes).approval := by
  obtain ⟨hvotes, -, happroving⟩ := tally.isConsistent_iff.mp hconsistent
  obtain ⟨hparticipating', happroving'⟩ := toNat_addApproving hroom hconsistent
  refine share_le_share hvotes (by omega) ?_
  rw [hparticipating', happroving']
  exact leadingBits_cross_le _ happroving (hfew.imp_right (congrArg UInt64.toNat))

/-- The approval falls by a few units in the last place at most. -/
theorem approval_addApproving_error :
    ∃ before after, tally.approval.value? = some before ∧
      (tally.addApproving votes).approval.value? = some after ∧ before ≤ after + 5 / 2 ^ 53 := by
  obtain ⟨hvotes, -, happroving⟩ := tally.isConsistent_iff.mp hconsistent
  obtain ⟨hvotes', -, hle'⟩ := (isConsistent_iff _).mp (isConsistent_addApproving hroom hconsistent)
  obtain ⟨hparticipating', happroving'⟩ := toNat_addApproving hroom hconsistent
  obtain ⟨before, hbefore, herror⟩ := exists_value_share hvotes happroving
  obtain ⟨after, hafter, herror'⟩ := exists_value_share hvotes' hle'
  refine ⟨before, after, hbefore, hafter, ?_⟩
  have hcross := leadingBits_cross_error votes.toNat happroving
  rw [← hparticipating', ← happroving'] at hcross
  have hone : (leadingBits tally.approving.toNat / leadingBits tally.participating.toNat : ℚ) ≤ 1 :=
    div_le_one_of_le₀ (Nat.cast_le.mpr (leadingBits_le happroving)) (Nat.cast_nonneg _)
  have hwhole : (0 : ℚ) < leadingBits tally.participating.toNat :=
    Nat.cast_pos.mpr (leadingBits_pos hvotes)
  have hwhole' : (0 : ℚ) < leadingBits (tally.addApproving votes).participating.toNat :=
    Nat.cast_pos.mpr (leadingBits_pos hvotes')
  have hquotients : (2 ^ 53 - 4) *
      (leadingBits tally.approving.toNat / leadingBits tally.participating.toNat : ℚ) ≤
        2 ^ 53 * (leadingBits (tally.addApproving votes).approving.toNat /
          leadingBits (tally.addApproving votes).participating.toNat) := by
    have hscale : (2 ^ 53 - 4 : ℚ) = (2 ^ 53 - 4 : Nat) := by norm_num
    rw [← mul_div_assoc, ← mul_div_assoc, div_le_div_iff₀ hwhole hwhole', mul_assoc, mul_assoc,
      hscale]
    exact_mod_cast hcross
  rw [abs_le] at herror herror'
  linarith

end Room

end Tally

/-- Where a tally passes and more people approve, the quorum is still met, and the tally still
passes as long as there are no more than `2^53 + 1` participants or all have approved.  In any case
the approval falls by `5 / 2^53` at most. -/
theorem PassingRule.passes_addApproving (rule : PassingRule) (tally : Tally) (votes : UInt64)
    (hroom : tally.participating.toNat + votes.toNat ≤ tally.eligible.toNat)
    (hpasses : rule.passes tally = true) :
    rule.quorum ≤ (tally.addApproving votes).turnout ∧
      (tally.participating.toNat + votes.toNat ≤ 2 ^ 53 + 1 ∨
        tally.approving = tally.participating →
          rule.passes (tally.addApproving votes) = true) ∧
      ∃ before after, tally.approval.value? = some before ∧
        (tally.addApproving votes).approval.value? = some after ∧
        before ≤ after + 5 / 2 ^ 53 := by
  obtain ⟨hconsistent, hquorum, hthreshold⟩ := (rule.passes_iff tally).mp hpasses
  have hturnout := Binary64.le_trans hquorum (Tally.turnout_le_addApproving hroom hconsistent)
  refine ⟨hturnout, fun hfew => ?_, Tally.approval_addApproving_error hroom hconsistent⟩
  exact (rule.passes_iff _).mpr ⟨Tally.isConsistent_addApproving hroom hconsistent, hturnout,
    Binary64.le_trans hthreshold (Tally.approval_le_addApproving hroom hconsistent hfew)⟩

/-- The last vote that fits, with three quarters of the participants before it. -/
theorem PassingRule.passes_addApproving_last :
    UInt64.toNat 9007199254740992 + UInt64.toNat 1 ≤ UInt64.toNat 9007199254740993 ∧
      PassingRules.reference.treasurySpend.passes
        ⟨9007199254740993, 9007199254740992, 6755399441055744⟩ = true ∧
      PassingRules.reference.treasurySpend.passes
        (Tally.addApproving ⟨9007199254740993, 9007199254740992, 6755399441055744⟩ 1) = true := by
  have hpasses : PassingRules.reference.treasurySpend.passes
      ⟨9007199254740993, 9007199254740992, 6755399441055744⟩ = true := by
    decide +kernel
  refine ⟨by decide, hpasses, ?_⟩
  exact (passes_addApproving _ _ 1 (by decide) hpasses).2.1 (.inl (by decide))

/-- One more vote in favour sinks the spending that passed before it, although three quarters of the
participants approve before and after it.  Where unanimity is asked for, a vote is lost in the same
way as soon as there is one participant more than the bound allows. -/
theorem approving_vote_sinks_spending :
    (PassingRules.reference.treasurySpend.passes
          ⟨18014398509481979, 18014398509481978, 13510798882111484⟩ = true ∧
        UInt64.toNat 18014398509481978 + UInt64.toNat 1 ≤ UInt64.toNat 18014398509481979 ∧
        PassingRules.reference.treasurySpend.passes
          (Tally.addApproving ⟨18014398509481979, 18014398509481978, 13510798882111484⟩ 1) = false ∧
        3 * 18014398509481978 ≤ 4 * 13510798882111484 ∧
        3 * (18014398509481978 + 1) ≤ 4 * (13510798882111484 + 1)) ∧
      PassingRule.passes { PassingRules.reference.treasurySpend with threshold := ofNat 1 }
          ⟨9007199254740994, 9007199254740993, 9007199254740992⟩ = true ∧
        UInt64.toNat 9007199254740993 + UInt64.toNat 1 ≤ 2 ^ 53 + 2 ∧
        PassingRule.passes { PassingRules.reference.treasurySpend with threshold := ofNat 1 }
            (Tally.addApproving ⟨9007199254740994, 9007199254740993, 9007199254740992⟩ 1) =
          false := by
  decide +kernel

end ChainRegistry
