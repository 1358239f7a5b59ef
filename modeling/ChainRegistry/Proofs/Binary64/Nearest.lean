import ChainRegistry.Proofs.Binary64.Words
import Mathlib.Tactic.Ring

/-!
# Rounding to the nearest double

Where a quotient is rounded to is decided by the midpoints between neighbouring doubles: rounding
goes beyond a pattern exactly if the quotient lies beyond the midpoint between this pattern and the
next, or on it where the pattern is odd.  All else about rounding follows from this one fact.  It
keeps the order of quotients, and no finite double is nearer to the quotient than the one that it is
rounded to.  Between zero and one the neighbours are at most `2^-53` apart, so the error is at most
half of that, and a midpoint there has a denominator that is a multiple of `2^53`.
-/

namespace ChainRegistry.Binary64

/-! ## Midpoints -/

theorem lt_roundHalfEven_iff {whole numerator denominator : Nat} (hpos : 0 < denominator) :
    whole < roundHalfEven numerator denominator ↔
      (2 * whole + 1) * denominator < 2 * numerator + whole % 2 := by
  have hsplit : numerator / denominator * denominator + numerator % denominator = numerator :=
    Nat.div_add_mod' numerator denominator
  have hrest : numerator % denominator < denominator := Nat.mod_lt _ hpos
  rw [roundHalfEven, Nat.add_mul, Nat.mul_assoc, Nat.one_mul]
  rcases Nat.lt_trichotomy whole (numerator / denominator) with hbelow | rfl | habove
  · have hstep : (whole + 1) * denominator ≤ numerator / denominator * denominator :=
      Nat.mul_le_mul_right _ hbelow
    rw [Nat.add_mul, Nat.one_mul] at hstep
    refine iff_of_true ?_ (by omega)
    split_ifs <;> omega
  · split_ifs <;> omega
  · have hstep : (numerator / denominator + 1) * denominator ≤ whole * denominator :=
      Nat.mul_le_mul_right _ habove
    rw [Nat.add_mul, Nat.one_mul] at hstep
    refine iff_of_false ?_ (by omega)
    split_ifs <;> omega

/-- The midpoint after leading bits at their scale. -/
theorem units_midpoint (shift leading : Nat) (hlow : shift = 0 ∨ binade ≤ leading)
    (hhigh : leading < 2 * binade) :
    units (shift * binade + leading) + units (shift * binade + leading + 1) =
      (2 * leading + 1) * 2 ^ shift := by
  have hscale : (shift * binade + leading) / binade - 1 = shift := by
    unfold binade at *
    omega
  have hunits : units (shift * binade + leading) = leading * 2 ^ shift := by
    rcases hlow with rfl | hlow
    · rw [Nat.zero_mul, Nat.zero_add, Nat.pow_zero, Nat.mul_one]
      exact units_of_lt hhigh
    · exact units_scaled shift hlow hhigh.le
  rw [units_succ, hscale, hunits, ← Nat.add_assoc, ← Nat.two_mul, ← Nat.mul_assoc, ← Nat.succ_mul]

theorem units_le_of_le_first {shift pattern : Nat} (hpattern : pattern ≤ shift * binade + binade) :
    units pattern ≤ binade * 2 ^ shift := by
  rw [← units_scaled shift (Nat.le_refl _) (by decide)]
  exact units_strictMono.monotone hpattern

theorem le_units_of_last_le {shift pattern : Nat}
    (hpattern : shift * binade + 2 * binade ≤ pattern) :
    2 * binade * 2 ^ shift ≤ units pattern := by
  rw [← units_scaled shift (by decide) (Nat.le_refl _)]
  exact units_strictMono.monotone hpattern

/-- A value has at most fifty-three bits at the scale of its pattern. -/
theorem exists_leading (pattern : Nat) :
    ∃ leading < 2 * binade, units pattern = leading * 2 ^ (pattern / binade - 1) := by
  rcases Nat.lt_or_ge pattern (2 * binade) with hsmall | hlarge
  · refine ⟨pattern, hsmall, ?_⟩
    rw [binade_of_lt hsmall, units_of_lt hsmall, Nat.pow_zero, Nat.mul_one]
  · have hrest : pattern % binade < binade := Nat.mod_lt _ (by decide)
    exact ⟨_, by omega, units_of_le hlarge⟩

/-- The scale of a quotient places it among the patterns of one binade. -/
theorem scale_bounds {numerator denominator : Nat} (hpos : 0 < denominator) {shift : Nat}
    (hshift : shift = (numerator / denominator).log2 - 52) :
    (shift ≠ 0 → binade * (denominator * 2 ^ shift) ≤ numerator) ∧
      numerator < 2 * binade * (denominator * 2 ^ shift) := by
  have hpower (exponent : Nat) : denominator * 2 ^ (shift + exponent) =
      2 ^ exponent * (denominator * 2 ^ shift) := by
    rw [Nat.pow_add, ← Nat.mul_assoc, Nat.mul_comm]
  constructor
  · intro hne
    have hquotient : numerator / denominator ≠ 0 := by
      intro hzero
      rw [hzero, Nat.log2_zero] at hshift
      exact hne hshift
    have hbits : (numerator / denominator).log2 = shift + 52 := by omega
    have hlow : 2 ^ (shift + 52) ≤ numerator / denominator :=
      hbits ▸ Nat.log2_self_le hquotient
    rw [Nat.le_div_iff_mul_le hpos, Nat.mul_comm, hpower] at hlow
    exact hlow
  · have hbits : (numerator / denominator).log2 + 1 ≤ shift + 53 := by omega
    have hhigh : numerator / denominator < 2 ^ (shift + 53) :=
      Nat.lt_of_lt_of_le Nat.lt_log2_self (Nat.pow_le_pow_right (by decide) hbits)
    rw [Nat.div_lt_iff_lt_mul hpos, Nat.mul_comm, hpower] at hhigh
    exact hhigh

/-- Rounding passes a pattern exactly if the quotient lies beyond the midpoint to the next pattern,
or on that midpoint where the pattern is odd. -/
theorem lt_nearestPattern_iff {pattern numerator denominator : Nat} (hpos : 0 < denominator)
    (hfinite : pattern < infinityPattern) :
    pattern < nearestPattern numerator denominator ↔
      (units pattern + units (pattern + 1)) * denominator <
        2 * (numerator * unitsInOne) + pattern % 2 := by
  rw [nearestPattern, Nat.lt_min, and_iff_left hfinite]
  generalize hshift : (numerator * unitsInOne / denominator).log2 - 52 = shift
  obtain ⟨hlow, hhigh⟩ := scale_bounds hpos hshift.symm
  generalize numerator * unitsInOne = numerator at hlow hhigh ⊢
  have hscale : 0 < denominator * 2 ^ shift := Nat.mul_pos hpos (Nat.two_pow_pos _)
  have hmost : roundHalfEven numerator (denominator * 2 ^ shift) ≤ 2 * binade :=
    roundHalfEven_le hhigh
  have hnext : units pattern < units (pattern + 1) := units_lt_units_succ pattern
  rw [Nat.pow_eq]
  rcases Nat.lt_or_ge pattern (shift * binade + 2 * binade) with hbelow | habove
  · by_cases hearlier : shift ≠ 0 ∧ pattern < shift * binade + binade
    · -- the pattern lies in an earlier binade, and so does the midpoint
      obtain ⟨hne, hearlier⟩ := hearlier
      have hleast : binade ≤ roundHalfEven numerator (denominator * 2 ^ shift) :=
        le_roundHalfEven hscale (hlow hne)
      have hunits : units (pattern + 1) ≤ binade * 2 ^ shift := units_le_of_le_first hearlier
      refine iff_of_true (by omega) ?_
      calc (units pattern + units (pattern + 1)) * denominator
          < 2 * (binade * 2 ^ shift) * denominator :=
            Nat.mul_lt_mul_of_pos_right (by omega) hpos
        _ = 2 * (binade * (denominator * 2 ^ shift)) := by ring
        _ ≤ 2 * numerator := Nat.mul_le_mul_left 2 (hlow hne)
        _ ≤ 2 * numerator + pattern % 2 := Nat.le_add_right _ _
    · -- the pattern lies in the binade of the quotient, at the same scale
      have hplace : shift = 0 ∨ shift * binade + binade ≤ pattern := by omega
      obtain ⟨leading, rfl⟩ : ∃ leading, pattern = shift * binade + leading := by
        refine ⟨pattern - shift * binade, ?_⟩
        rcases hplace with rfl | hplace <;> omega
      have hparity : (shift * binade + leading) % 2 = leading % 2 := by
        unfold binade
        omega
      rw [units_midpoint shift leading (by omega) (by omega), hparity, Nat.mul_assoc,
        Nat.mul_comm (2 ^ shift), ← lt_roundHalfEven_iff hscale]
      exact Nat.add_lt_add_iff_left
  · -- the pattern lies in a later binade
    have hunits : 2 * binade * 2 ^ shift ≤ units pattern := le_units_of_last_le habove
    refine iff_of_false (by omega) (Nat.not_lt.mpr ?_)
    calc 2 * numerator + pattern % 2
        ≤ 2 * (2 * binade * (denominator * 2 ^ shift)) := by omega
      _ = 2 * (2 * binade * 2 ^ shift) * denominator := by ring
      _ ≤ (units pattern + units (pattern + 1)) * denominator :=
          Nat.mul_le_mul_right _ (by omega)

/-! ## Order -/

protected theorem le_trans {x y z : Binary64} (hxy : x ≤ y) (hyz : y ≤ z) : x ≤ z := by
  cases x with
  | nan => exact nomatch hxy
  | signed s m =>
      cases y with
      | nan => exact nomatch hxy
      | signed t k =>
          cases z with
          | nan => exact nomatch hyz
          | signed u l =>
              exact decide_eq_true ((of_decide_eq_true hxy).trans (of_decide_eq_true hyz))

/-- A larger quotient is rounded to a pattern that is at least as large. -/
theorem nearestPattern_mono {numerator denominator numerator' denominator' : Nat}
    (hpos : 0 < denominator) (hpos' : 0 < denominator')
    (hle : numerator * denominator' ≤ numerator' * denominator) :
    nearestPattern numerator denominator ≤ nearestPattern numerator' denominator' := by
  apply Nat.le_of_not_lt
  intro hlt
  have hfinite : nearestPattern numerator' denominator' < infinityPattern :=
    Nat.lt_of_lt_of_le hlt (Nat.min_le_right _ _)
  refine Nat.lt_irrefl _ ((lt_nearestPattern_iff hpos' hfinite).mpr ?_)
  have hbeyond := (lt_nearestPattern_iff hpos hfinite).mp hlt
  generalize nearestPattern numerator' denominator' = pattern at hbeyond ⊢
  generalize units pattern + units (pattern + 1) = twice at hbeyond ⊢
  have hscaled : numerator * unitsInOne * denominator' ≤ numerator' * unitsInOne * denominator := by
    rw [Nat.mul_right_comm, Nat.mul_right_comm numerator']
    exact Nat.mul_le_mul_right _ hle
  have hswap : twice * denominator * denominator' = twice * denominator' * denominator :=
    Nat.mul_right_comm _ _ _
  rcases Nat.mod_two_eq_zero_or_one pattern with heven | hodd
  · rw [heven, Nat.add_zero] at hbeyond ⊢
    have hproduct := Nat.mul_lt_mul_of_pos_right hbeyond hpos'
    rw [Nat.mul_assoc 2] at hproduct
    apply Nat.lt_of_mul_lt_mul_right (a := denominator)
    rw [Nat.mul_assoc 2]
    omega
  · rw [hodd, Nat.lt_succ_iff] at hbeyond ⊢
    have hproduct := Nat.mul_le_mul_right denominator' hbeyond
    rw [Nat.mul_assoc 2] at hproduct
    refine Nat.le_of_mul_le_mul_right ?_ hpos
    rw [Nat.mul_assoc 2]
    omega

theorem nearestPattern_one : nearestPattern 1 1 = onePattern := by
  decide +kernel

theorem nearestPattern_le_one {numerator denominator : Nat} (hpos : 0 < denominator)
    (hle : numerator ≤ denominator) : nearestPattern numerator denominator ≤ onePattern := by
  rw [← nearestPattern_one]
  exact nearestPattern_mono hpos Nat.one_pos (by omega)

/-- The patterns below and above the one that a quotient is rounded to are no nearer. -/
theorem nearestPattern_bounds {numerator denominator : Nat} (hpos : 0 < denominator)
    (hfinite : nearestPattern numerator denominator < infinityPattern) :
    (∀ lower < nearestPattern numerator denominator,
        (units lower + units (nearestPattern numerator denominator)) * denominator ≤
          2 * (numerator * unitsInOne)) ∧
      ∀ upper, nearestPattern numerator denominator < upper →
        2 * (numerator * unitsInOne) ≤
          (units (nearestPattern numerator denominator) + units upper) * denominator := by
  generalize hpattern : nearestPattern numerator denominator = pattern at hfinite ⊢
  constructor
  · intro lower hlower
    obtain ⟨below, rfl⟩ : ∃ below, pattern = below + 1 := ⟨pattern - 1, by omega⟩
    have hbeyond : below < nearestPattern numerator denominator := by omega
    have hmidpoint := (lt_nearestPattern_iff hpos (by omega)).mp hbeyond
    have hunits : units lower ≤ units below := units_strictMono.monotone (Nat.le_of_lt_succ hlower)
    calc (units lower + units (below + 1)) * denominator
        ≤ (units below + units (below + 1)) * denominator :=
          Nat.mul_le_mul_right _ (Nat.add_le_add_right hunits _)
      _ ≤ 2 * (numerator * unitsInOne) := by omega
  · intro upper hupper
    have hwithin : ¬ pattern < nearestPattern numerator denominator := by omega
    rw [lt_nearestPattern_iff hpos hfinite] at hwithin
    have hunits : units (pattern + 1) ≤ units upper := units_strictMono.monotone hupper
    calc 2 * (numerator * unitsInOne)
        ≤ (units pattern + units (pattern + 1)) * denominator := by omega
      _ ≤ (units pattern + units upper) * denominator :=
          Nat.mul_le_mul_right _ (Nat.add_le_add_left hunits _)

/-! ## Distance -/

theorem unitsInOne_eq_mul {shift rest : Nat} (hsum : 1074 = shift + rest) :
    unitsInOne = 2 ^ shift * 2 ^ rest := by
  have hscaled : 2 ^ shift * unitsInOne = 2 ^ shift * (2 ^ shift * 2 ^ rest) := by
    rw [← two_pow_units, hsum, Nat.pow_add, Nat.pow_add]
  exact Nat.eq_of_mul_eq_mul_left (Nat.two_pow_pos shift) hscaled

/-- Of two numbers the upper one is the nearer one from the midpoint on. -/
theorem abs_upper_sub_le_iff {lower upper number : ℚ} (hlt : lower < upper) :
    |upper - number| ≤ |lower - number| ↔ lower + upper ≤ 2 * number := by
  have hproduct : (lower - number) ^ 2 - (upper - number) ^ 2 =
      (upper - lower) * (2 * number - (lower + upper)) := by ring
  rw [← sq_le_sq, ← sub_nonneg, hproduct, mul_nonneg_iff_of_pos_left (sub_pos.mpr hlt), sub_nonneg]

theorem abs_lower_sub_le_iff {lower upper number : ℚ} (hlt : lower < upper) :
    |lower - number| ≤ |upper - number| ↔ 2 * number ≤ lower + upper := by
  have hproduct : (upper - number) ^ 2 - (lower - number) ^ 2 =
      (upper - lower) * (lower + upper - 2 * number) := by ring
  rw [← sq_le_sq, ← sub_nonneg, hproduct, mul_nonneg_iff_of_pos_left (sub_pos.mpr hlt), sub_nonneg]

/-- No finite double is nearer to a number. -/
def IsNearest (x : Binary64) (number : ℚ) : Prop :=
  ∃ value, x.value? = some value ∧
    ∀ y other, value? y = some other → |value - number| ≤ |other - number|

section Quotients

variable {numerator denominator : Nat}

theorem two_mul_units_le (hpos : 0 < denominator) (twice : Nat) :
    twice * denominator ≤ 2 * (numerator * unitsInOne) ↔
      (twice : ℚ) / unitsInOne ≤ 2 * (numerator / denominator) := by
  have hdenominator : (0 : ℚ) < denominator := Nat.cast_pos.mpr hpos
  rw [← mul_div_assoc, div_le_div_iff₀ unitsInOne_cast_pos hdenominator, mul_assoc]
  exact_mod_cast Iff.rfl

theorem le_two_mul_units (hpos : 0 < denominator) (twice : Nat) :
    2 * (numerator * unitsInOne) ≤ twice * denominator ↔
      2 * (numerator / denominator) ≤ (twice : ℚ) / unitsInOne := by
  have hdenominator : (0 : ℚ) < denominator := Nat.cast_pos.mpr hpos
  rw [← mul_div_assoc, div_le_div_iff₀ hdenominator unitsInOne_cast_pos, mul_assoc]
  exact_mod_cast Iff.rfl

/-- The numbers below and above the one that a quotient is rounded to are no nearer. -/
theorem size_bounds (hpos : 0 < denominator)
    (hfinite : nearestPattern numerator denominator < infinityPattern) :
    (∀ lower < nearestPattern numerator denominator,
        size lower + size (nearestPattern numerator denominator) ≤
          2 * (numerator / denominator)) ∧
      ∀ upper, nearestPattern numerator denominator < upper →
        2 * (numerator / denominator : ℚ) ≤
          size (nearestPattern numerator denominator) + size upper := by
  obtain ⟨hbelow, habove⟩ := nearestPattern_bounds hpos hfinite
  have hsum (lower upper : Nat) :
      size lower + size upper = (units lower + units upper : Nat) / unitsInOne := by
    rw [size, size, ← add_div, Nat.cast_add]
  constructor
  · intro lower hlower
    rw [hsum, ← two_mul_units_le hpos]
    exact hbelow lower hlower
  · intro upper hupper
    rw [hsum, ← le_two_mul_units hpos]
    exact habove upper hupper

/-- A quotient is rounded to a double that no finite double is nearer than. -/
theorem ofQuotient_isNearest (hpos : 0 < denominator)
    (hfinite : nearestPattern numerator denominator < infinityPattern) :
    (ofQuotient false numerator denominator).IsNearest (numerator / denominator) := by
  obtain ⟨hbelow, habove⟩ := size_bounds hpos hfinite
  refine ⟨size (nearestPattern numerator denominator), value?_of_finite hfinite, ?_⟩
  intro y other hother
  obtain ⟨negative, m, -, -, rfl⟩ := value?_eq_some_iff.mp hother
  have hnumber : (0 : ℚ) ≤ numerator / denominator :=
    div_nonneg (Nat.cast_nonneg _) (Nat.cast_nonneg _)
  generalize nearestPattern numerator denominator = pattern at *
  generalize (numerator / denominator : ℚ) = number at *
  cases negative with
  | true =>
      -- a number below zero is no nearer than zero is
      rw [if_pos rfl]
      have htwice : size pattern ≤ 2 * number := by
        rcases Nat.eq_zero_or_pos pattern with rfl | hnonzero
        · rw [size_zero]
          linarith
        · have hzero := hbelow 0 hnonzero
          rwa [size_zero, zero_add] at hzero
      have hm : 0 ≤ size m.val := size_nonneg _
      have hpattern : 0 ≤ size pattern := size_nonneg _
      have hle : -size m.val ≤ size pattern := by linarith
      rcases hle.eq_or_lt with hsame | hlt
      · rw [hsame]
      · exact (abs_upper_sub_le_iff hlt).mpr (by linarith)
  | false =>
      rw [if_neg Bool.false_ne_true]
      rcases Nat.lt_trichotomy m.val pattern with hlower | rfl | hupper
      · exact (abs_upper_sub_le_iff (size_strictMono hlower)).mpr (hbelow _ hlower)
      · exact le_refl _
      · exact (abs_lower_sub_le_iff (size_strictMono hupper)).mpr (habove _ hupper)

/-! ## Between zero and one -/

/-- Neighbours up to one are at most `2^-53` apart. -/
theorem size_succ_le {pattern : Nat} (hpattern : pattern < onePattern) :
    size (pattern + 1) ≤ size pattern + 1 / 2 ^ 53 := by
  have hbinade : pattern / binade - 1 + 53 ≤ 1074 := by
    unfold onePattern at hpattern
    unfold binade
    omega
  obtain ⟨rest, hrest⟩ := Nat.exists_eq_add_of_le hbinade
  have hgap : 2 ^ (pattern / binade - 1) * 2 ^ 53 ≤ unitsInOne := by
    rw [unitsInOne_eq_mul hrest, ← Nat.pow_add]
    exact Nat.le_mul_of_pos_right _ (Nat.two_pow_pos rest)
  have hcast : (2 ^ (pattern / binade - 1) * 2 ^ 53 : ℚ) ≤ unitsInOne := by
    exact_mod_cast hgap
  rw [size, size, units_succ, Nat.cast_add, add_div, Nat.cast_pow, Nat.cast_ofNat]
  apply add_le_add_right
  rw [div_le_div_iff₀ unitsInOne_cast_pos (by norm_num), one_mul]
  exact hcast

/-- The error of rounding a quotient between zero and one. -/
theorem abs_size_sub_le (hpos : 0 < denominator) (hle : numerator ≤ denominator) :
    |size (nearestPattern numerator denominator) - numerator / denominator| ≤ 1 / 2 ^ 54 := by
  have hone : nearestPattern numerator denominator ≤ onePattern := nearestPattern_le_one hpos hle
  have hfinite : nearestPattern numerator denominator < infinityPattern :=
    Nat.lt_of_le_of_lt hone (by decide)
  obtain ⟨hbelow, habove⟩ := size_bounds hpos hfinite
  have hnumber : (0 : ℚ) ≤ numerator / denominator :=
    div_nonneg (Nat.cast_nonneg _) (Nat.cast_nonneg _)
  have hmost : (numerator / denominator : ℚ) ≤ 1 :=
    div_le_one_of_le₀ (Nat.cast_le.mpr hle) (Nat.cast_nonneg _)
  generalize nearestPattern numerator denominator = pattern at *
  generalize (numerator / denominator : ℚ) = number at *
  rw [abs_le]
  constructor
  · rcases Nat.eq_or_lt_of_le hone with rfl | hless
    · rw [size_onePattern]
      linarith
    · have hsum := habove (pattern + 1) (Nat.lt_succ_self _)
      have hgap := size_succ_le hless
      linarith
  · cases pattern with
    | zero =>
        rw [size_zero]
        linarith
    | succ lower =>
        have hsum := hbelow lower (Nat.lt_succ_self _)
        have hgap := size_succ_le (Nat.lt_of_succ_le hone)
        linarith

/-- A quotient that lies on a midpoint next to a number up to one needs a large denominator. -/
theorem dvd_of_midpoint {pattern : Nat} (hpattern : pattern ≤ onePattern)
    (hmidpoint : (units pattern + units (pattern + 1)) * denominator =
      2 * (numerator * unitsInOne)) : 2 ^ 53 ∣ denominator := by
  obtain ⟨leading, -, hleading⟩ := exists_leading pattern
  have hbinade : pattern / binade - 1 + 52 ≤ 1074 := by
    unfold onePattern at hpattern
    unfold binade
    omega
  rw [units_succ, hleading] at hmidpoint
  generalize pattern / binade - 1 = shift at hbinade hmidpoint
  obtain ⟨rest, hrest⟩ := Nat.exists_eq_add_of_le hbinade
  have hproduct : 2 ^ shift * ((2 * leading + 1) * denominator) =
      2 ^ shift * (2 ^ 53 * (2 ^ rest * numerator)) := by
    calc 2 ^ shift * ((2 * leading + 1) * denominator)
        = (leading * 2 ^ shift + (leading * 2 ^ shift + 2 ^ shift)) * denominator := by ring
      _ = 2 * (numerator * (2 ^ (shift + 52) * 2 ^ rest)) := by
          rw [hmidpoint, unitsInOne_eq_mul hrest]
      _ = 2 ^ shift * (2 ^ 53 * (2 ^ rest * numerator)) := by ring
  have hodd : Nat.Coprime 2 (2 * leading + 1) := by
    rw [Nat.Coprime, Nat.gcd_mul_left_add_right, Nat.gcd_one_right]
  refine (Nat.Coprime.pow_left 53 hodd).dvd_of_dvd_mul_left ?_
  exact ⟨_, Nat.eq_of_mul_eq_mul_left (Nat.two_pow_pos shift) hproduct⟩

/-- A quotient between zero and one and the double that it is rounded to. -/
theorem value?_ofQuotient (hpos : 0 < denominator) (hle : numerator ≤ denominator) :
    (ofQuotient false numerator denominator).value? =
      some (size (nearestPattern numerator denominator)) :=
  value?_of_finite (Nat.lt_of_le_of_lt (nearestPattern_le_one hpos hle) (by decide))

theorem IsNearest.exists_value {x : Binary64} (hx : x.IsNearest (numerator / denominator))
    (hpos : 0 < denominator) (hle : numerator ≤ denominator) :
    ∃ value, x.value? = some value ∧ |value - numerator / denominator| ≤ 1 / 2 ^ 54 := by
  obtain ⟨value, hvalue, hnearest⟩ := hx
  exact ⟨value, hvalue,
    (hnearest _ _ (value?_ofQuotient hpos hle)).trans (abs_size_sub_le hpos hle)⟩

/-- A quotient with a small denominator is no midpoint, so no double that is nearest to it lies
above the one that it is rounded to. -/
theorem IsNearest.le_ofQuotient {x : Binary64} (hx : x.IsNearest (numerator / denominator))
    (hpos : 0 < denominator) (hle : numerator ≤ denominator) (hsmall : denominator < 2 ^ 53) :
    x ≤ ofQuotient false numerator denominator := by
  obtain ⟨value, hvalue, hnearest⟩ := hx
  have hrounded := value?_ofQuotient hpos hle
  have hdistance := hnearest _ _ hrounded
  have hone := nearestPattern_le_one hpos hle
  have hfinite := Nat.lt_of_le_of_lt hone (by decide : onePattern < infinityPattern)
  obtain ⟨-, habove⟩ := nearestPattern_bounds hpos hfinite
  rw [le_iff_of_value? hvalue hrounded]
  generalize nearestPattern numerator denominator = pattern at *
  by_contra hlarger
  obtain ⟨negative, m, -, -, rfl⟩ := value?_eq_some_iff.mp hvalue
  have hpattern : 0 ≤ size pattern := size_nonneg _
  have hm : 0 ≤ size m.val := size_nonneg _
  cases negative with
  | true => exact hlarger (by simp only [if_true]; linarith)
  | false =>
      simp only [Bool.false_eq_true, if_false, not_le] at hlarger hdistance
      have hupper : pattern < m.val := size_strictMono.lt_iff_lt.mp hlarger
      have hsum : size pattern + size m.val ≤ 2 * (numerator / denominator) :=
        (abs_upper_sub_le_iff hlarger).mp hdistance
      -- both doubles are equally near, so the quotient is the midpoint to the next pattern
      have hmidpoint : (units pattern + units (pattern + 1)) * denominator ≤
          2 * (numerator * unitsInOne) := by
        rw [two_mul_units_le hpos, Nat.cast_add, add_div]
        exact (add_le_add_right (size_strictMono.monotone hupper) _).trans hsum
      have hdvd := dvd_of_midpoint hone
        (Nat.le_antisymm hmidpoint (habove (pattern + 1) (Nat.lt_succ_self _)))
      exact absurd (Nat.le_of_dvd hpos hdvd) (Nat.not_le.mpr hsmall)

end Quotients

end ChainRegistry.Binary64
