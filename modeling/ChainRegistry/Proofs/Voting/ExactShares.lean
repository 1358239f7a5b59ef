import ChainRegistry.Proofs.Voting.Shares

/-!
# Where rounding decides a vote and where it does not

A fraction with a small denominator is told apart from every other share of few voters: the two
quotients differ by more than rounding moves both of them together.  So a rule whose fractions are
the doubles nearest to `q/d` and `t/d` decides as the whole numbers do, as long as the denominator
times the number of the eligible stays below `2^53`.

With more voters rounding decides some votes.  Half of the eligible are reached exactly if twice the
leading bits of the participants reach those of the eligible.  Three quarters are reached a little
below: at a share that is short of them by `2^-54`.
-/

namespace ChainRegistry

open Binary64

/-! ## Fractions with small denominators -/

/-- Different quotients whose denominators are small are more than `2^-53` apart. -/
theorem quotient_gap {part whole numerator denominator : Nat} (hwhole : 0 < whole)
    (hdenominator : 0 < denominator) (hbound : denominator * whole < 2 ^ 53)
    (hlt : numerator * whole < part * denominator) :
    (numerator / denominator + 1 / 2 ^ 53 : ℚ) < part / whole := by
  have hwhole' : (0 : ℚ) < whole := Nat.cast_pos.mpr hwhole
  have hdenominator' : (0 : ℚ) < denominator := Nat.cast_pos.mpr hdenominator
  have hscale : (0 : ℚ) < 2 ^ 53 := by norm_num
  rw [div_add_div _ _ hdenominator'.ne' hscale.ne',
    div_lt_div_iff₀ (mul_pos hdenominator' hscale) hwhole']
  have hproduct : (numerator * 2 ^ 53 + denominator * 1) * whole <
      part * (denominator * 2 ^ 53) := by
    calc (numerator * 2 ^ 53 + denominator * 1) * whole
        = numerator * whole * 2 ^ 53 + denominator * whole := by ring
      _ < (numerator * whole + 1) * 2 ^ 53 := by omega
      _ ≤ part * denominator * 2 ^ 53 := Nat.mul_le_mul_right _ hlt
      _ = part * (denominator * 2 ^ 53) := Nat.mul_assoc _ _ _
  exact_mod_cast hproduct

/-- A share of few voters reaches a double nearest to a fraction exactly if it reaches the
fraction. -/
theorem nearest_le_ofQuotient_iff {x : Binary64} {numerator denominator part whole : Nat}
    (hx : x.IsNearest (numerator / denominator)) (hdenominator : 0 < denominator)
    (hnumerator : numerator ≤ denominator) (hwhole : 0 < whole) (hpart : part ≤ whole)
    (hbound : denominator * whole < 2 ^ 53) :
    x ≤ ofQuotient false part whole ↔ numerator * whole ≤ part * denominator := by
  obtain ⟨value, hvalue, hdistance⟩ := hx.exists_value hdenominator hnumerator
  have hshare := value?_ofQuotient hwhole hpart
  have herror := abs_size_sub_le hwhole hpart
  rw [abs_le] at hdistance herror
  constructor
  · intro hle
    rw [le_iff_of_value? hvalue hshare] at hle
    by_contra hless
    have hgap := quotient_gap hdenominator hwhole (Nat.mul_comm _ _ ▸ hbound) (Nat.not_le.mp hless)
    linarith
  · intro hle
    rcases Nat.eq_or_lt_of_le hle with hsame | hlt
    · have hpattern : nearestPattern numerator denominator = nearestPattern part whole :=
        Nat.le_antisymm (nearestPattern_mono hdenominator hwhole hsame.le)
          (nearestPattern_mono hwhole hdenominator hsame.ge)
      have hsmall : denominator < 2 ^ 53 :=
        Nat.lt_of_le_of_lt (Nat.le_mul_of_pos_right _ hwhole) hbound
      have hnearest := hx.le_ofQuotient hdenominator hnumerator hsmall
      simpa only [ofQuotient, hpattern] using hnearest
    · rw [le_iff_of_value? hvalue hshare]
      have hgap := quotient_gap hwhole hdenominator hbound hlt
      linarith

/-- A rule whose fractions are nearest to `q/d` and `t/d` decides a tally of few voters as the whole
numbers do. -/
theorem PassingRule.passes_iff_of_nearest (rule : PassingRule) (tally : Tally)
    {denominator quorum threshold : Nat} (hdenominator : 1 ≤ denominator)
    (hquorum : quorum ≤ denominator) (hthreshold : threshold ≤ denominator)
    (hnearestQuorum : rule.quorum.IsNearest (quorum / denominator))
    (hnearestThreshold : rule.threshold.IsNearest (threshold / denominator))
    (hbound : denominator * tally.eligible.toNat < 2 ^ 53) :
    rule.passes tally = true ↔
      1 ≤ tally.participating.toNat ∧ tally.participating.toNat ≤ tally.eligible.toNat ∧
      tally.approving.toNat ≤ tally.participating.toNat ∧
      quorum * tally.eligible.toNat ≤ tally.participating.toNat * denominator ∧
      threshold * tally.participating.toNat ≤ tally.approving.toNat * denominator := by
  rw [passes_iff, Tally.isConsistent_iff, and_assoc, and_assoc]
  refine and_congr_right fun hvotes => and_congr_right fun hturnout =>
    and_congr_right fun happroval => ?_
  have heligible : 0 < tally.eligible.toNat := Nat.lt_of_lt_of_le hvotes hturnout
  have hfew : tally.eligible.toNat ≤ 2 ^ 53 :=
    (Nat.le_mul_of_pos_left _ hdenominator).trans hbound.le
  have hboundVotes : denominator * tally.participating.toNat < 2 ^ 53 :=
    Nat.lt_of_le_of_lt (Nat.mul_le_mul_left _ hturnout) hbound
  rw [Tally.turnout, Tally.approval, Tally.share_of_small heligible hturnout hfew,
    Tally.share_of_small hvotes happroval (hturnout.trans hfew),
    nearest_le_ofQuotient_iff hnearestQuorum hdenominator hquorum heligible hturnout hbound,
    nearest_le_ofQuotient_iff hnearestThreshold hdenominator hthreshold hvotes happroval
      hboundVotes]

/-- The reference rule for changes of parameters, at two fifths of the eligible and exactly at
sixty-six hundredths of the participants. -/
theorem PassingRule.passes_iff_of_nearest_parameterChange :
    PassingRules.reference.parameterChange.quorum.IsNearest ((40 : Nat) / (100 : Nat)) ∧
      PassingRules.reference.parameterChange.threshold.IsNearest ((66 : Nat) / (100 : Nat)) ∧
      100 * (UInt64.toNat 90071992547375) < 2 ^ 53 ∧
      PassingRules.reference.parameterChange.passes
        ⟨90071992547375, 36028797018950, 23779006032507⟩ = true := by
  have hquorum : PassingRules.reference.parameterChange.quorum = ofQuotient false 40 100 := by
    decide +kernel
  have hthreshold : PassingRules.reference.parameterChange.threshold = ofQuotient false 66 100 := by
    decide +kernel
  have hnearestQuorum : PassingRules.reference.parameterChange.quorum.IsNearest
      ((40 : Nat) / (100 : Nat)) :=
    hquorum ▸ ofQuotient_isNearest (by decide) (by decide +kernel)
  have hnearestThreshold : PassingRules.reference.parameterChange.threshold.IsNearest
      ((66 : Nat) / (100 : Nat)) :=
    hthreshold ▸ ofQuotient_isNearest (by decide) (by decide +kernel)
  have hbound : 100 * (UInt64.toNat 90071992547375) < 2 ^ 53 := by decide
  refine ⟨hnearestQuorum, hnearestThreshold, hbound, ?_⟩
  exact (passes_iff_of_nearest _ ⟨90071992547375, 36028797018950, 23779006032507⟩ (by decide)
    (by decide) (by decide) hnearestQuorum hnearestThreshold hbound).mpr (by decide)

/-! ## Half and three quarters -/

/-- Rounding passes an odd pattern from the midpoint on. -/
theorem lt_nearestPattern_iff_of_odd {pattern numerator denominator midpoint : Nat}
    (shift rest : Nat) (hpos : 0 < denominator) (hfinite : pattern < infinityPattern)
    (hodd : pattern % 2 = 1) (hmidpoint : units pattern + units (pattern + 1) = midpoint * 2 ^ shift)
    (hscale : 1074 = shift + rest) :
    pattern < nearestPattern numerator denominator ↔
      midpoint * denominator ≤ 2 * 2 ^ rest * numerator := by
  have hleft : midpoint * 2 ^ shift * denominator = 2 ^ shift * (midpoint * denominator) := by ring
  have hright : 2 * (numerator * (2 ^ shift * 2 ^ rest)) =
      2 ^ shift * (2 * 2 ^ rest * numerator) := by ring
  rw [lt_nearestPattern_iff hpos hfinite, hodd, Nat.lt_succ_iff, hmidpoint,
    unitsInOne_eq_mul hscale, hleft, hright]
  exact Nat.mul_le_mul_left_iff (Nat.two_pow_pos shift)

namespace PassingRules

theorem spendingQuorum_le_iff {part whole : Nat} (hpos : 0 < whole) :
    reference.treasurySpend.quorum ≤ ofQuotient false part whole ↔
      (2 ^ 54 - 1) * whole ≤ 2 ^ 55 * part := by
  have hquorum : reference.treasurySpend.quorum =
      signed false ⟨0x3FDFFFFFFFFFFFFF + 1, by decide⟩ := by
    decide +kernel
  rw [hquorum, ofQuotient, positive_le_positive_iff]
  exact lt_nearestPattern_iff_of_odd 1020 54 hpos (by decide) (by decide) (by decide +kernel) rfl

theorem spendingThreshold_le_iff {part whole : Nat} (hpos : 0 < whole) :
    reference.treasurySpend.threshold ≤ ofQuotient false part whole ↔
      (3 * 2 ^ 52 - 1) * whole ≤ 2 ^ 54 * part := by
  have hthreshold : reference.treasurySpend.threshold =
      signed false ⟨0x3FE7FFFFFFFFFFFF + 1, by decide⟩ := by
    decide +kernel
  rw [hthreshold, ofQuotient, positive_le_positive_iff]
  exact lt_nearestPattern_iff_of_odd 1021 53 hpos (by decide) (by decide) (by decide +kernel) rfl

/-- Twice a number that is kept is kept, so rounding the quotient does not move it over one half. -/
theorem half_reached_iff {part whole : Nat} (hpart : part < 2 ^ 127) (hwhole : whole < 2 ^ 128) :
    (2 ^ 54 - 1) * leadingBits whole ≤ 2 ^ 55 * leadingBits part ↔
      leadingBits whole ≤ 2 * leadingBits part := by
  constructor
  · intro hreached
    by_contra hless
    have hgap := leadingBits_gap (m := 2 * part) (by omega) hwhole
      (leadingBits_two_mul part ▸ Nat.not_le.mp hless)
    rw [leadingBits_two_mul] at hgap
    omega
  · omega

/-- Up to `2^53` participants a quarter of a vote may be missing at most. -/
theorem threeQuarters_reached_iff {part whole : Nat} (hwhole : whole ≤ 2 ^ 53) :
    (3 * 2 ^ 52 - 1) * whole ≤ 2 ^ 54 * part ↔
      3 * whole ≤ 4 * part ∨ 2 ^ 52 < whole ∧ 3 * whole = 4 * part + 1 := by
  constructor
  · intro hreached
    rcases Nat.lt_or_ge (4 * part) (3 * whole) with hmissing | hfull
    · obtain ⟨more, hmore⟩ := Nat.exists_eq_add_of_lt hmissing
      have hquarters : 2 ^ 52 * (more + 1) ≤ whole := by omega
      obtain rfl | rfl : more = 0 ∨ more = 1 := by omega
      · exact .inr (by omega)
      · omega
    · exact .inl hfull
  · omega

/-- Spending passes by the leading bits of the counts.  With at most `2^53` eligible this is as the
counts say, except that one quarter of a vote may be missing where there are more than `2^52`
participants. -/
theorem treasurySpend_passes_iff (tally : Tally) :
    (reference.treasurySpend.passes tally = true ↔
      1 ≤ tally.participating.toNat ∧ tally.participating.toNat ≤ tally.eligible.toNat ∧
      tally.approving.toNat ≤ tally.participating.toNat ∧
      leadingBits tally.eligible.toNat ≤ 2 * leadingBits tally.participating.toNat ∧
      (3 * 2 ^ 52 - 1) * leadingBits tally.participating.toNat ≤
        2 ^ 54 * leadingBits tally.approving.toNat) ∧
    (tally.eligible.toNat ≤ 2 ^ 53 →
      (reference.treasurySpend.passes tally = true ↔
        1 ≤ tally.participating.toNat ∧ tally.participating.toNat ≤ tally.eligible.toNat ∧
        tally.approving.toNat ≤ tally.participating.toNat ∧
        tally.eligible.toNat ≤ 2 * tally.participating.toNat ∧
        (3 * tally.participating.toNat ≤ 4 * tally.approving.toNat ∨
          2 ^ 52 < tally.participating.toNat ∧
            3 * tally.participating.toNat = 4 * tally.approving.toNat + 1))) := by
  have hpasses : reference.treasurySpend.passes tally = true ↔
      1 ≤ tally.participating.toNat ∧ tally.participating.toNat ≤ tally.eligible.toNat ∧
      tally.approving.toNat ≤ tally.participating.toNat ∧
      leadingBits tally.eligible.toNat ≤ 2 * leadingBits tally.participating.toNat ∧
      (3 * 2 ^ 52 - 1) * leadingBits tally.participating.toNat ≤
        2 ^ 54 * leadingBits tally.approving.toNat := by
    rw [PassingRule.passes_iff, Tally.isConsistent_iff, and_assoc, and_assoc]
    refine and_congr_right fun hvotes => and_congr_right fun hturnout =>
      and_congr_right fun _ => ?_
    have heligible : 0 < tally.eligible.toNat := Nat.lt_of_lt_of_le hvotes hturnout
    rw [Tally.turnout, Tally.approval, Tally.share_eq heligible, Tally.share_eq hvotes,
      spendingQuorum_le_iff (leadingBits_pos heligible),
      spendingThreshold_le_iff (leadingBits_pos hvotes),
      half_reached_iff (Nat.lt_trans tally.participating.toNat_lt (by decide))
        (Tally.toNat_lt_two_pow _)]
  refine ⟨hpasses, fun hfew => hpasses.trans ?_⟩
  refine and_congr_right fun _ => and_congr_right fun hturnout =>
    and_congr_right fun happroval => ?_
  rw [leadingBits_of_le hfew, leadingBits_of_le (hturnout.trans hfew),
    leadingBits_of_le (happroval.trans (hturnout.trans hfew)),
    threeQuarters_reached_iff (hturnout.trans hfew)]

/-- All of `2^53` eligible take part, and all but a quarter approve. -/
theorem treasurySpend_passes_iff_full :
    (UInt64.toNat 9007199254740992) ≤ 2 ^ 53 ∧
      reference.treasurySpend.passes
        ⟨9007199254740992, 9007199254740992, 6755399441055744⟩ = true :=
  ⟨by decide, ((treasurySpend_passes_iff _).2 (by decide)).mpr (by decide)⟩

/-- Rounding decides: spending passes without three quarters of the participants, it passes without
half of the eligible, and it is refused with more than both. -/
theorem rounding_decides_spending :
    (reference.treasurySpend.passes ⟨4503599627370499, 4503599627370499, 3377699720527874⟩ = true ∧
      ¬ 3 * 4503599627370499 ≤ 4 * 3377699720527874) ∧
    (reference.treasurySpend.passes ⟨9007199254740993, 4503599627370496, 4503599627370496⟩ = true ∧
      ¬ 9007199254740993 ≤ 2 * 4503599627370496) ∧
    (reference.treasurySpend.passes
        ⟨21190344054875894, 21190344054875894, 15892758041156921⟩ = false ∧
      21190344054875894 ≤ 2 * 21190344054875894 ∧
      3 * 21190344054875894 ≤ 4 * 15892758041156921) := by
  decide +kernel

end PassingRules

end ChainRegistry
