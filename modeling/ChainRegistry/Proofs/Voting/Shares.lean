import ChainRegistry.Proofs.Binary64.LeadingBits
import ChainRegistry.Voting

/-!
# Shares of voting power

A share is a quotient of two counts, each kept to its fifty-three leading bits before they are
divided.  It lies between zero and one, rounding moves it by at most `2^-54`, and a larger quotient
never gives a smaller share.  A rule passes a tally that is consistent and whose shares reach its
fractions.
-/

namespace ChainRegistry

open Binary64

namespace Tally

theorem isConsistent_iff (tally : Tally) :
    tally.isConsistent = true ↔ 1 ≤ tally.participating.toNat ∧
      tally.participating.toNat ≤ tally.eligible.toNat ∧
      tally.approving.toNat ≤ tally.participating.toNat := by
  simp only [isConsistent, Bool.and_eq_true, decide_eq_true_eq, UInt64.lt_iff_toNat_lt,
    UInt64.le_iff_toNat_le, and_assoc]
  exact Iff.rfl

theorem toNat_lt_two_pow (word : UInt64) : word.toNat < 2 ^ 128 :=
  Nat.lt_trans word.toNat_lt (by decide)

variable {part whole part' whole' : UInt64}

theorem share_eq (hpos : 0 < whole.toNat) :
    share part whole = ofQuotient false (leadingBits part.toNat) (leadingBits whole.toNat) :=
  ofNat_div_ofNat (toNat_lt_two_pow part) (toNat_lt_two_pow whole) hpos

theorem leadingBits_le (hpart : part.toNat ≤ whole.toNat) :
    leadingBits part.toNat ≤ leadingBits whole.toNat :=
  leadingBits_mono hpart (toNat_lt_two_pow whole)

/-- Where the counts have at most fifty-three bits, a share is their quotient rounded once. -/
theorem share_of_small (hpos : 0 < whole.toNat) (hpart : part.toNat ≤ whole.toNat)
    (hsmall : whole.toNat ≤ 2 ^ 53) :
    share part whole = ofQuotient false part.toNat whole.toNat := by
  rw [share_eq hpos, leadingBits_of_le hsmall, leadingBits_of_le (hpart.trans hsmall)]

theorem share_le_share (hpos : 0 < whole.toNat) (hpos' : 0 < whole'.toNat)
    (hle : leadingBits part.toNat * leadingBits whole'.toNat ≤
      leadingBits part'.toNat * leadingBits whole.toNat) :
    share part whole ≤ share part' whole' := by
  rw [share_eq hpos, share_eq hpos']
  exact positive_le_positive_iff.mpr
    (nearestPattern_mono (leadingBits_pos hpos) (leadingBits_pos hpos') hle)

/-- A share of a part is a number next to the quotient of the leading bits. -/
theorem exists_value_share (hpos : 0 < whole.toNat) (hpart : part.toNat ≤ whole.toNat) :
    ∃ value, (share part whole).value? = some value ∧
      |value - leadingBits part.toNat / leadingBits whole.toNat| ≤ 1 / 2 ^ 54 := by
  have hone := nearestPattern_le_one (leadingBits_pos hpos) (leadingBits_le hpart)
  rw [share_eq hpos]
  exact ⟨_, value?_of_finite (Nat.lt_of_le_of_lt hone (by decide)),
    abs_size_sub_le (leadingBits_pos hpos) (leadingBits_le hpart)⟩

end Tally

theorem PassingRule.passes_iff (rule : PassingRule) (tally : Tally) :
    rule.passes tally = true ↔ tally.isConsistent = true ∧
      rule.quorum ≤ tally.turnout ∧ rule.threshold ≤ tally.approval := by
  simp only [passes, Bool.and_eq_true, decide_eq_true_eq, and_assoc]

end ChainRegistry
