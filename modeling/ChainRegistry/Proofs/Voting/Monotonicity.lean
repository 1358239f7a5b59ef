import ChainRegistry.Proofs.Voting.Shares

/-!
# What keeps a proposal passed

With the participants fixed, the turnout rises when fewer people are eligible and the approval rises
when more of the participants approve: the counts keep their order when they are kept to fifty-three
bits, and so do quotients when they are rounded.  Hence a tally that passes still passes after such
a change, and also under a rule that asks for less.  The fractions of a rule may be any doubles: one
that is no number is never reached, and infinities are compared like other numbers.
-/

namespace ChainRegistry

open Binary64

namespace Tally

section Counts

variable {tally : Tally} {eligible approving : UInt64}

theorem isConsistent_of_counts (hconsistent : tally.isConsistent = true)
    (hparticipating : tally.participating ≤ eligible)
    (happroving : approving ≤ tally.participating) :
    Tally.isConsistent ⟨eligible, tally.participating, approving⟩ = true := by
  obtain ⟨hvotes, -, -⟩ := tally.isConsistent_iff.mp hconsistent
  exact (isConsistent_iff _).mpr ⟨hvotes, UInt64.le_iff_toNat_le.mp hparticipating,
    UInt64.le_iff_toNat_le.mp happroving⟩

/-- With fewer people eligible the turnout does not fall. -/
theorem turnout_le_of_eligible_le (hconsistent : tally.isConsistent = true)
    (hparticipating : tally.participating ≤ eligible) (hfewer : eligible ≤ tally.eligible) :
    tally.turnout ≤ Tally.turnout ⟨eligible, tally.participating, approving⟩ := by
  obtain ⟨hvotes, hwhole, -⟩ := tally.isConsistent_iff.mp hconsistent
  have heligible : 0 < eligible.toNat :=
    Nat.lt_of_lt_of_le hvotes (UInt64.le_iff_toNat_le.mp hparticipating)
  refine share_le_share (Nat.lt_of_lt_of_le hvotes hwhole) heligible ?_
  exact Nat.mul_le_mul_left _ (leadingBits_le (UInt64.le_iff_toNat_le.mp hfewer))

/-- With more votes in favour the approval does not fall. -/
theorem approval_le_of_approving_le (hconsistent : tally.isConsistent = true)
    (hmore : tally.approving ≤ approving) :
    tally.approval ≤ Tally.approval ⟨eligible, tally.participating, approving⟩ := by
  obtain ⟨hvotes, -, -⟩ := tally.isConsistent_iff.mp hconsistent
  refine share_le_share hvotes hvotes ?_
  exact Nat.mul_le_mul_right _ (leadingBits_le (UInt64.le_iff_toNat_le.mp hmore))

end Counts

end Tally

/-- A fraction that is reached is still reached if it is lowered or left as it is, and the share
rises. -/
theorem Binary64.reached_of_le {fraction lower share larger : Binary64}
    (hreached : fraction ≤ share) (hlower : lower = fraction ∨ lower ≤ fraction)
    (hlarger : share ≤ larger) : lower ≤ larger := by
  refine Binary64.le_trans ?_ hlarger
  rcases hlower with rfl | hlower
  · exact hreached
  · exact Binary64.le_trans hlower hreached

/-- A tally that passes still passes when more of the participants approve, when fewer people are
eligible, and when the fractions of the rule are lowered, each of these or all at once. -/
theorem PassingRule.passes_of_looser {rule other : PassingRule} {tally : Tally}
    {eligible approving : UInt64} (hpasses : rule.passes tally = true)
    (hmore : tally.approving ≤ approving) (happroving : approving ≤ tally.participating)
    (hparticipating : tally.participating ≤ eligible) (hfewer : eligible ≤ tally.eligible)
    (hquorum : other.quorum = rule.quorum ∨ other.quorum ≤ rule.quorum)
    (hthreshold : other.threshold = rule.threshold ∨ other.threshold ≤ rule.threshold) :
    other.passes ⟨eligible, tally.participating, approving⟩ = true := by
  obtain ⟨hconsistent, hturnout, happroval⟩ := (rule.passes_iff tally).mp hpasses
  refine (other.passes_iff _).mpr ⟨?_, ?_, ?_⟩
  · exact Tally.isConsistent_of_counts hconsistent hparticipating happroving
  · exact reached_of_le hturnout hquorum
      (Tally.turnout_le_of_eligible_le hconsistent hparticipating hfewer)
  · exact reached_of_le happroval hthreshold (Tally.approval_le_of_approving_le hconsistent hmore)

/-- A spending of the treasury that just passes with the most people eligible, and the same vote
with one person fewer, one more approving and a quorum below all numbers. -/
theorem PassingRule.passes_of_looser_spending :
    let rule := PassingRules.reference.treasurySpend
    let other : PassingRule := ⟨infinity true, rule.threshold⟩
    rule.passes ⟨18446744073709551615, 9223372036854775808, 6917529027641081856⟩ = true ∧
      other.passes ⟨18446744073709551614, 9223372036854775808, 6917529027641081857⟩ = true := by
  intro rule other
  let tally : Tally := ⟨18446744073709551615, 9223372036854775808, 6917529027641081856⟩
  have hpasses : rule.passes tally = true := by
    decide +kernel
  have hquorum : other.quorum ≤ rule.quorum := by
    decide +kernel
  exact ⟨hpasses, @passes_of_looser rule other tally 18446744073709551614 6917529027641081857
    hpasses (by decide) (by decide) (by decide) (by decide) (.inr hquorum) (.inl rfl)⟩

end ChainRegistry
