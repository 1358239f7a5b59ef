import ChainRegistry.Proofs.Binary64.LeadingBits
import ChainRegistry.Proofs.Validity

/-!
# Headroom over the baseline

The headroom of a target is a quotient of two whole numbers of sixty-four bits, each kept to its
leading bits first.  Where there is a baseline the divisor keeps a bit, and the quotient is at most
`2^64`, far below the largest double: the headroom is always a number, the one nearest to the
quotient.  Rounding keeps the order, so a burst of at least the baseline gives at least one, however
both were rounded.  A valid registry has such bursts throughout.
-/

namespace ChainRegistry

open Binary64

namespace Throughput

variable {target : Throughput}

theorem headroom_of_noBaseline (hnone : target.baseline = 0) : target.headroom = .zero :=
  if_pos hnone

theorem baseline_pos (hbaseline : target.baseline ≠ 0) : 0 < target.baseline.toNat :=
  UInt64.lt_iff_toNat_lt.mp (UInt64.pos_iff_ne_zero.mpr hbaseline)

theorem headroom_eq (hbaseline : target.baseline ≠ 0) :
    target.headroom = ofQuotient false (leadingBits target.burst.toNat)
      (leadingBits target.baseline.toNat) := by
  have hburst : target.burst.toNat < 2 ^ 128 := Nat.lt_trans target.burst.toNat_lt (by decide)
  have hwhole : target.baseline.toNat < 2 ^ 128 :=
    Nat.lt_trans target.baseline.toNat_lt (by decide)
  rw [headroom, if_neg hbaseline]
  exact ofNat_div_ofNat hburst hwhole (baseline_pos hbaseline)

/-- No headroom is rounded to infinity, since none is above `2^64`. -/
theorem headroom_lt_infinity (hbaseline : target.baseline ≠ 0) :
    nearestPattern (leadingBits target.burst.toNat) (leadingBits target.baseline.toNat) <
      infinityPattern := by
  have hburst : leadingBits target.burst.toNat ≤ 2 ^ 64 :=
    calc leadingBits target.burst.toNat
        ≤ leadingBits (2 ^ 64) := leadingBits_mono target.burst.toNat_lt.le (by decide)
      _ = 2 ^ 64 := by decide
  have hdivisor := leadingBits_pos (baseline_pos hbaseline)
  have hmost : nearestPattern (2 ^ 64) 1 < infinityPattern := by
    decide +kernel
  refine Nat.lt_of_le_of_lt (nearestPattern_mono hdivisor Nat.one_pos ?_) hmost
  rw [Nat.mul_one]
  exact hburst.trans (Nat.le_mul_of_pos_right _ hdivisor)

/-- The headroom is the double nearest to the quotient of the leading bits. -/
theorem headroom_isNearest (hbaseline : target.baseline ≠ 0) :
    target.headroom.IsNearest
      (leadingBits target.burst.toNat / leadingBits target.baseline.toNat) := by
  rw [headroom_eq hbaseline]
  exact ofQuotient_isNearest (leadingBits_pos (baseline_pos hbaseline))
    (headroom_lt_infinity hbaseline)

theorem exists_value_headroom (target : Throughput) :
    ∃ ratio, target.headroom.value? = some ratio ∧ 0 ≤ ratio := by
  by_cases hbaseline : target.baseline = 0
  · rw [headroom_of_noBaseline hbaseline]
    exact ⟨size 0, value?_of_finite (by decide), size_nonneg 0⟩
  · rw [headroom_eq hbaseline]
    exact ⟨size _, value?_of_finite (headroom_lt_infinity hbaseline), size_nonneg _⟩

/-- A burst of at least the baseline reaches it at least once. -/
theorem one_le_headroom (hbaseline : target.baseline ≠ 0)
    (hburst : target.baseline ≤ target.burst) : ofNat 1 ≤ target.headroom := by
  have hle : leadingBits target.baseline.toNat ≤ leadingBits target.burst.toNat :=
    leadingBits_mono (UInt64.le_iff_toNat_le.mp hburst)
      (Nat.lt_trans target.burst.toNat_lt (by decide))
  rw [headroom_eq hbaseline]
  refine positive_le_positive_iff.mpr
    (nearestPattern_mono Nat.one_pos (leadingBits_pos (baseline_pos hbaseline)) ?_)
  rwa [Nat.one_mul, Nat.mul_one]

end Throughput

namespace Registry

theorem KeepsBounds.baseline_le_burst {r : Registry} (hbounds : r.KeepsBounds)
    (subsystem : Subsystem) :
    (r.throughput.target subsystem).baseline ≤ (r.throughput.target subsystem).burst := by
  apply hbounds.bursts
  cases subsystem <;> simp [ThroughputTargets.target]

/-- Every headroom is a number that is not negative, the one nearest to the quotient where there is
a baseline.  In a valid registry it is zero for subsystems without a baseline and at least one for
all others. -/
theorem headroom_of_valid :
    (∀ target : Throughput,
        (∃ ratio, target.headroom.value? = some ratio ∧ 0 ≤ ratio) ∧
          (target.baseline ≠ 0 → target.headroom.IsNearest
            (leadingBits target.burst.toNat / leadingBits target.baseline.toNat))) ∧
      ∀ r : Registry, r.violation? = none → ∀ subsystem,
        ((r.throughput.target subsystem).baseline = 0 →
          (r.throughput.target subsystem).headroom = .zero) ∧
        ((r.throughput.target subsystem).baseline ≠ 0 →
          ofNat 1 ≤ (r.throughput.target subsystem).headroom) := by
  refine ⟨fun target => ⟨?_, ?_⟩, fun r hvalid subsystem => ⟨?_, ?_⟩⟩
  · exact target.exists_value_headroom
  · exact Throughput.headroom_isNearest
  · exact Throughput.headroom_of_noBaseline
  · intro hbaseline
    have hburst := (keepsBounds_of_valid hvalid).baseline_le_burst subsystem
    exact Throughput.one_le_headroom hbaseline hburst

/-- A valid registry with a subsystem that only bursts, one that never does, and one whose two rates
are the same double. -/
def unevenRegistry : Registry :=
  { reference with
    throughput := { ThroughputTargets.reference with
      agent := ⟨0, 18446744073709551615⟩
      wallet := ⟨18446744073709551615, 18446744073709551615⟩
      migration := ⟨9007199254740992, 9007199254740993⟩ } }

theorem headroom_of_valid_unevenRegistry :
    unevenRegistry.violation? = none ∧
      unevenRegistry.throughput.agent.headroom = .zero ∧
      ofNat 1 ≤ unevenRegistry.throughput.wallet.headroom ∧
      ofNat 1 ≤ unevenRegistry.throughput.migration.headroom ∧
      ∃ ratio, (Throughput.mk 1 18446744073709551615).headroom.value? = some ratio ∧ 0 ≤ ratio := by
  have hvalid : unevenRegistry.violation? = none := by
    decide +kernel
  obtain ⟨hnumber, hratios⟩ := headroom_of_valid
  have hrates := hratios unevenRegistry hvalid
  exact ⟨hvalid, (hrates .agent).1 rfl, (hrates .wallet).2 (by decide),
    (hrates .migration).2 (by decide), (hnumber ⟨1, 18446744073709551615⟩).1⟩

end Registry

end ChainRegistry
