import ChainRegistry.Binary64.Decimal

/-!
# Exact values under rounding

Rounding looks at a quotient only, not at the numbers that write it, and leaves a value alone that
is a double already.  Hence the digits of a finite double, whether the shortest that were found or
all of them, stand for that double again.
-/

namespace ChainRegistry.Binary64

/-! ## Rounding -/

theorem roundHalfEven_mul_right (numerator denominator : Nat) {factor : Nat}
    (hfactor : 0 < factor) :
    roundHalfEven (numerator * factor) (denominator * factor) =
      roundHalfEven numerator denominator := by
  have hwhole : numerator * factor / (denominator * factor) = numerator / denominator :=
    Nat.mul_div_mul_right numerator denominator hfactor
  have hrest : numerator * factor % (denominator * factor) =
      numerator % denominator * factor :=
    Nat.mul_mod_mul_right factor numerator denominator
  have htwice : 2 * (numerator % denominator * factor) = 2 * (numerator % denominator) * factor :=
    (Nat.mul_assoc 2 _ factor).symm
  simp only [roundHalfEven, hwhole, hrest, htwice, Nat.mul_lt_mul_right hfactor]

theorem nearestPattern_mul_right (numerator denominator : Nat) {factor : Nat}
    (hfactor : 0 < factor) :
    nearestPattern (numerator * factor) (denominator * factor) =
      nearestPattern numerator denominator := by
  have hquotient : numerator * factor * unitsInOne / (denominator * factor) =
      numerator * unitsInOne / denominator := by
    rw [Nat.mul_right_comm, Nat.mul_div_mul_right _ _ hfactor]
  have hround (shift : Nat) :
      roundHalfEven (numerator * factor * unitsInOne) (denominator * factor * Nat.pow 2 shift) =
        roundHalfEven (numerator * unitsInOne) (denominator * Nat.pow 2 shift) := by
    rw [Nat.mul_right_comm, Nat.mul_right_comm denominator, roundHalfEven_mul_right _ _ hfactor]
  simp only [nearestPattern, hquotient, hround]

theorem roundHalfEven_mul_self (whole : Nat) {denominator : Nat} (hpos : 0 < denominator) :
    roundHalfEven (whole * denominator) denominator = whole := by
  simp [roundHalfEven, Nat.mul_div_cancel _ hpos, hpos]

/-! ## Values of patterns -/

theorem scale_pos (shift : Nat) : 0 < Nat.pow 2 shift :=
  Nat.two_pow_pos shift

theorem unitsInOne_pos : 0 < unitsInOne := by
  decide +kernel

theorem units_of_lt {pattern : Nat} (hpattern : pattern < 2 * binade) : units pattern = pattern :=
  if_pos hpattern

theorem units_of_le {pattern : Nat} (hpattern : 2 * binade ≤ pattern) :
    units pattern = (pattern % binade + binade) * Nat.pow 2 (pattern / binade - 1) :=
  if_neg (Nat.not_lt.mpr hpattern)

/-- Above the smallest patterns the leading bit of a value stands fifty-two places above the number
of its binade. -/
theorem log2_units {pattern : Nat} (hpattern : 2 * binade ≤ pattern) :
    (units pattern).log2 = pattern / binade - 1 + 52 := by
  have hmod : pattern % binade < binade := Nat.mod_lt _ (by decide)
  have hlow : binade * Nat.pow 2 (pattern / binade - 1) ≤ units pattern := by
    rw [units_of_le hpattern]
    exact Nat.mul_le_mul_right _ (Nat.le_add_left _ _)
  have hhigh : units pattern < 2 * binade * Nat.pow 2 (pattern / binade - 1) := by
    rw [units_of_le hpattern]
    exact Nat.mul_lt_mul_of_pos_right (by omega) (scale_pos _)
  have hne : units pattern ≠ 0 :=
    Nat.ne_of_gt (Nat.lt_of_lt_of_le (Nat.mul_pos (by decide) (scale_pos _)) hlow)
  have hpower (shift : Nat) : binade * Nat.pow 2 shift = 2 ^ (shift + 52) := by
    rw [Nat.mul_comm]
    exact (Nat.pow_add 2 shift 52).symm
  rw [Nat.log2_eq_iff hne]
  constructor
  · rw [← hpower]
    exact hlow
  · rw [Nat.pow_succ, ← hpower, Nat.mul_comm, ← Nat.mul_assoc]
    exact hhigh

theorem binade_of_lt {pattern : Nat} (hpattern : pattern < 2 * binade) :
    pattern / binade - 1 = 0 := by
  have hquotient : pattern / binade < 2 :=
    Nat.div_lt_of_lt_mul (Nat.mul_comm 2 binade ▸ hpattern)
  omega

theorem binade_add_rest {pattern : Nat} (hpattern : 2 * binade ≤ pattern) :
    (pattern / binade - 1) * binade + (pattern % binade + binade) = pattern := by
  have hbinades : 0 < pattern / binade := Nat.div_pos (by omega) (by decide)
  have hstep : (pattern / binade - 1) * binade + binade = pattern / binade * binade := by
    rw [← Nat.succ_mul, Nat.succ_eq_add_one, Nat.sub_add_cancel hbinades]
  rw [Nat.add_comm (pattern % binade), ← Nat.add_assoc, hstep]
  exact Nat.div_add_mod' pattern binade

theorem shift_units (pattern : Nat) : (units pattern).log2 - 52 = pattern / binade - 1 := by
  rcases Nat.lt_or_ge pattern (2 * binade) with hsmall | hlarge
  · rw [units_of_lt hsmall, binade_of_lt hsmall]
    by_cases hzero : pattern = 0
    · simp [hzero]
    · have hlog : pattern.log2 < 53 := (Nat.log2_lt hzero).mpr hsmall
      omega
  · rw [log2_units hlarge, Nat.add_sub_cancel]

/-- The pattern of a value is its binade followed by its leading bits. -/
theorem shift_add_leading (pattern : Nat) {unit : Nat} (hunit : 0 < unit) :
    (pattern / binade - 1) * binade +
      roundHalfEven (units pattern * unit) (unit * Nat.pow 2 (pattern / binade - 1)) =
      pattern := by
  rcases Nat.lt_or_ge pattern (2 * binade) with hsmall | hlarge
  · have hone : Nat.pow 2 0 = 1 := rfl
    rw [units_of_lt hsmall, binade_of_lt hsmall, hone, Nat.mul_one,
      roundHalfEven_mul_self pattern hunit,
      Nat.zero_mul, Nat.zero_add]
  · have hround : roundHalfEven (units pattern * unit)
        (unit * Nat.pow 2 (pattern / binade - 1)) = pattern % binade + binade := by
      rw [units_of_le hlarge, Nat.mul_assoc, Nat.mul_comm unit]
      exact roundHalfEven_mul_self _ (Nat.mul_pos (scale_pos _) hunit)
    rw [hround, binade_add_rest hlarge]

/-- Rounding a finite double gives it back. -/
theorem nearestPattern_units {pattern : Nat} (hfinite : pattern < infinityPattern) :
    nearestPattern (units pattern) unitsInOne = pattern := by
  have hvalue : units pattern * unitsInOne / unitsInOne = units pattern :=
    Nat.mul_div_cancel _ unitsInOne_pos
  rw [nearestPattern, hvalue, shift_units, shift_add_leading pattern unitsInOne_pos]
  exact Nat.min_eq_left (Nat.le_of_lt hfinite)

/-! ## Decimals -/

theorem pattern_zero (exponent : Int) : (Decimal.mk 0 exponent).pattern = 0 := by
  simp [Decimal.pattern]

theorem pattern_ofNat {digits exponent : Nat} (hdigits : digits ≠ 0) (hexponent : exponent ≤ 400) :
    (Decimal.mk digits (.ofNat exponent)).pattern =
      nearestPattern (digits * Nat.pow 10 exponent) 1 := by
  have hlow : ¬(400 : Int) < .ofNat exponent := by simp; omega
  have hhigh : ¬(Int.ofNat exponent + (digits.log2 / 3 + 1 : Nat) < -400) := by simp; omega
  rw [Decimal.pattern, if_neg hdigits, if_neg hlow, if_neg hhigh]

theorem pattern_negSucc {digits exponent : Nat} (hdigits : digits ≠ 0)
    (hexponent : exponent ≤ digits.log2 / 3 + 400) :
    (Decimal.mk digits (.negSucc exponent)).pattern =
      nearestPattern digits (Nat.pow 10 (exponent + 1)) := by
  have hlow : ¬(400 : Int) < .negSucc exponent := by omega
  have hhigh : ¬(Int.negSucc exponent + (digits.log2 / 3 + 1 : Nat) < -400) := by omega
  rw [Decimal.pattern, if_neg hdigits, if_neg hlow, if_neg hhigh]

/-- A power of two in the denominator is the same power of five in the digits. -/
theorem pattern_five {n power : Nat} (hn : n ≠ 0) (hpos : 0 < power) (hpower : power ≤ 1200) :
    (Decimal.mk (n * Nat.pow 5 power) (-(power : Int))).pattern =
      nearestPattern n (Nat.pow 2 power) := by
  have hfive : 0 < Nat.pow 5 power := Nat.pow_pos (by decide)
  have hne : n * Nat.pow 5 power ≠ 0 := Nat.mul_ne_zero hn (Nat.ne_of_gt hfive)
  have hlog : 2 * power ≤ (n * Nat.pow 5 power).log2 := by
    rw [Nat.le_log2 hne, Nat.pow_mul]
    calc (2 ^ 2) ^ power ≤ 5 ^ power := Nat.pow_le_pow_left (by decide) power
      _ ≤ n * 5 ^ power := Nat.le_mul_of_pos_left _ (Nat.pos_of_ne_zero hn)
  have hten : Nat.pow 10 power = Nat.pow 2 power * Nat.pow 5 power := Nat.mul_pow 2 5 power
  obtain ⟨exponent, rfl⟩ : ∃ exponent, power = exponent + 1 := ⟨power - 1, by omega⟩
  have hnegative : (-((exponent + 1 : Nat) : Int)) = .negSucc exponent := rfl
  rw [hnegative, pattern_negSucc hne (by omega), hten]
  exact nearestPattern_mul_right n _ hfive

theorem units_pos {pattern : Nat} (hpos : 0 < pattern) : 0 < units pattern := by
  rcases Nat.lt_or_ge pattern (2 * binade) with hsmall | hlarge
  · rw [units_of_lt hsmall]
    exact hpos
  · rw [units_of_le hlarge]
    exact Nat.mul_pos (Nat.add_pos_right _ (by decide)) (scale_pos _)

theorem pattern_exactDecimal {pattern : Nat} (hpos : 0 < pattern)
    (hfinite : pattern < infinityPattern) : (exactDecimal pattern).pattern = pattern := by
  have hunits : units pattern ≠ 0 := Nat.ne_of_gt (units_pos hpos)
  exact (pattern_five hunits (by decide) (by decide)).trans (nearestPattern_units hfinite)

/-- The shortest decimal of a finite double stands for that double. -/
theorem pattern_shortest (tie : Tie) {pattern : Nat} (hfinite : pattern < infinityPattern) :
    (shortest tie pattern).pattern = pattern := by
  unfold shortest
  split
  next hzero => rw [hzero, pattern_zero]
  next hne =>
    cases hsearch : (List.range 17).findSome? fun n => closestOfLength? tie pattern (n + 1) with
    | none => exact pattern_exactDecimal (Nat.pos_of_ne_zero hne) hfinite
    | some d =>
        obtain ⟨n, -, hclosest⟩ := List.exists_of_findSome?_eq_some hsearch
        exact pattern_of_closestOfLength? hclosest

theorem pattern_append_zeros {digits exponent : Nat}
    (hfinite : (Decimal.mk digits exponent).pattern < infinityPattern) :
    (Decimal.mk (digits * Nat.pow 10 (exponent + 1)) (-1)).pattern =
      (Decimal.mk digits exponent).pattern := by
  by_cases hzero : digits = 0
  · rw [hzero, Nat.zero_mul, pattern_zero, pattern_zero]
  · have hexponent : exponent ≤ 400 := by
      apply Nat.le_of_not_lt
      intro hlarge
      have hhigh : (400 : Int) < exponent := by omega
      have hinfinite : (Decimal.mk digits exponent).pattern = infinityPattern := by
        rw [Decimal.pattern, if_neg hzero, if_pos hhigh]
      exact Nat.ne_of_lt hfinite hinfinite
    have hne : digits * Nat.pow 10 (exponent + 1) ≠ 0 :=
      Nat.mul_ne_zero hzero (Nat.ne_of_gt (Nat.pow_pos (by decide)))
    calc (Decimal.mk (digits * Nat.pow 10 (exponent + 1)) (-1)).pattern
        = nearestPattern (digits * Nat.pow 10 exponent * 10) (1 * 10) := by
          rw [Nat.mul_assoc]
          exact pattern_negSucc hne (Nat.zero_le _)
      _ = nearestPattern (digits * Nat.pow 10 exponent) 1 :=
          nearestPattern_mul_right _ _ (by decide)
      _ = (Decimal.mk digits exponent).pattern := (pattern_ofNat hzero hexponent).symm

end ChainRegistry.Binary64
