import ChainRegistry.Proofs.Validity
import ChainRegistry.Proofs.Voting.Shares

/-!
# Passing under valid rules

Validation asks only that the fractions of a rule are numbers above zero and at most one.  That is
what a vote needs from both sides.  A share of nothing is zero and misses every such fraction, so
nothing passes without a vote in favour.  A share of everything is one, because a count divided by
itself is one however it was rounded, and so reaches every such fraction: what all who are eligible
approve passes.
-/

namespace ChainRegistry

open Binary64

namespace Tally

/-- The share of the whole is one, whatever is lost beyond its leading bits. -/
theorem share_self {whole : UInt64} (hpos : 0 < whole.toNat) : share whole whole = ofNat 1 := by
  have hone := nearestPattern_mul_right 1 1 (leadingBits_pos hpos)
  rw [Nat.one_mul] at hone
  simp only [share_eq hpos, ofNat, ofQuotient, hone]

/-- The share of nothing is zero. -/
theorem value?_share_zero {whole : UInt64} (hpos : 0 < whole.toNat) :
    (share 0 whole).value? = some 0 := by
  have hpart : leadingBits (UInt64.toNat 0) = 0 := leadingBits_of_le (by decide)
  have hpattern : nearestPattern 0 (leadingBits whole.toNat) = 0 := by
    simp [nearestPattern, roundHalfEven]
  rw [share_eq hpos, hpart, value?_ofQuotient (leadingBits_pos hpos) (Nat.zero_le _), hpattern,
    size_zero]

end Tally

namespace Binary64.IsShare

variable {fraction : Binary64}

theorem le_share_self (hfraction : fraction.IsShare) {whole : UInt64} (hpos : 0 < whole.toNat) :
    fraction ≤ Tally.share whole whole := by
  rw [Tally.share_self hpos]
  exact ((isShare_iff fraction).mp hfraction).2

theorem not_le_share_zero (hfraction : fraction.IsShare) {whole : UInt64}
    (hpos : 0 < whole.toNat) : ¬ fraction ≤ Tally.share 0 whole := by
  obtain ⟨value, hvalue, hpositive, -⟩ := hfraction
  rw [le_iff_of_value? hvalue (Tally.value?_share_zero hpos)]
  exact not_le.mpr hpositive

end Binary64.IsShare

namespace PassingRule

variable {rule : PassingRule}

/-- Nothing passes without a vote in favour. -/
theorem approving_pos_of_passes (hthreshold : rule.threshold.IsShare) {tally : Tally}
    (hpasses : rule.passes tally = true) : 1 ≤ tally.approving.toNat := by
  obtain ⟨hconsistent, -, happroval⟩ := (rule.passes_iff tally).mp hpasses
  obtain ⟨hvotes, -, -⟩ := tally.isConsistent_iff.mp hconsistent
  refine Nat.one_le_iff_ne_zero.mpr fun hnone => ?_
  have hzero : tally.approving = 0 := UInt64.toNat_inj.mp hnone
  rw [Tally.approval, hzero] at happroval
  exact hthreshold.not_le_share_zero hvotes happroval

/-- What all who are eligible approve passes. -/
theorem passes_unanimous (hquorum : rule.quorum.IsShare) (hthreshold : rule.threshold.IsShare)
    {count : UInt64} (hpos : 0 < count.toNat) : rule.passes ⟨count, count, count⟩ = true := by
  refine (rule.passes_iff _).mpr ⟨?_, hquorum.le_share_self hpos, hthreshold.le_share_self hpos⟩
  exact (Tally.isConsistent_iff _).mpr ⟨hpos, Nat.le_refl _, Nat.le_refl _⟩

end PassingRule

namespace Registry

theorem KeepsBounds.rule_isShare {r : Registry} (hbounds : r.KeepsBounds) (kind : ProposalKind) :
    (r.passing.rule kind).quorum.IsShare ∧ (r.passing.rule kind).threshold.IsShare := by
  apply hbounds.fractions
  cases kind <;> simp [PassingRules.rule]

/-- Under a valid registry every tally that passes is consistent and has a vote in favour, and a
vote in which all who are eligible approve passes, for every kind of proposal. -/
theorem passes_of_valid {r : Registry} (hvalid : r.violation? = none) (kind : ProposalKind) :
    (∀ tally, (r.passing.rule kind).passes tally = true →
      1 ≤ tally.approving.toNat ∧ tally.approving.toNat ≤ tally.participating.toNat ∧
        tally.participating.toNat ≤ tally.eligible.toNat) ∧
      ∀ count : UInt64, 1 ≤ count.toNat →
        (r.passing.rule kind).passes ⟨count, count, count⟩ = true := by
  obtain ⟨hquorum, hthreshold⟩ := (keepsBounds_of_valid hvalid).rule_isShare kind
  constructor
  · intro tally hpasses
    obtain ⟨hconsistent, -, -⟩ := (PassingRule.passes_iff _ tally).mp hpasses
    obtain ⟨-, hwhole, hpart⟩ := tally.isConsistent_iff.mp hconsistent
    exact ⟨PassingRule.approving_pos_of_passes hthreshold hpasses, hpart, hwhole⟩
  · exact fun count hpos => PassingRule.passes_unanimous hquorum hthreshold hpos

/-- A registry in which the smallest double is enough for parameters and nothing but one for
spending. -/
def extremeRules : Registry :=
  { reference with
    passing := { PassingRules.reference with
      parameterChange := ⟨.ofQuotient false 1 unitsInOne, .ofQuotient false 1 unitsInOne⟩
      treasurySpend := ⟨.ofNat 1, .ofNat 1⟩ } }

/-- One vote among all that can be counted passes, none does not, and unanimity passes although the
count is rounded. -/
theorem passes_of_valid_extremeRules :
    extremeRules.violation? = none ∧
      (extremeRules.passing.rule .parameterChange).passes
        ⟨18446744073709551615, 18446744073709551615, 1⟩ = true ∧
      1 ≤ UInt64.toNat 1 ∧
      (extremeRules.passing.rule .parameterChange).passes
        ⟨18446744073709551615, 18446744073709551615, 0⟩ = false ∧
      (extremeRules.passing.rule .treasurySpend).passes
        ⟨9007199254740993, 9007199254740993, 9007199254740993⟩ = true := by
  have hvalid : extremeRules.violation? = none := by
    decide +kernel
  have hpasses : (extremeRules.passing.rule .parameterChange).passes
      ⟨18446744073709551615, 18446744073709551615, 1⟩ = true := by
    decide +kernel
  obtain ⟨hbounds, -⟩ := passes_of_valid hvalid .parameterChange
  obtain ⟨-, hunanimous⟩ := passes_of_valid hvalid .treasurySpend
  refine ⟨hvalid, hpasses, (hbounds _ hpasses).1, ?_, hunanimous 9007199254740993 (by decide)⟩
  refine Bool.eq_false_iff.mpr fun hnone => ?_
  exact absurd (hbounds _ hnone).1 (by decide)

end Registry

end ChainRegistry
