import ChainRegistry.Proofs.Binary64.Nearest

/-!
# Whole numbers kept to fifty-three bits

The double nearest to a whole number stands for a whole number again, the one that keeps the
fifty-three leading bits.  Up to `2^53` nothing is lost.  Beyond that the number changes by a part
in `2^53` of itself at most, the order is kept, though not strictly, and different numbers that are
kept lie apart by at least a part in `2^53` of the larger one.  The quotient of two whole numbers is
rounded after they are.
-/

namespace ChainRegistry.Binary64

theorem roundHalfEven_error (numerator : Nat) {denominator : Nat} (hpos : 0 < denominator) :
    2 * (roundHalfEven numerator denominator * denominator) ≤ 2 * numerator + denominator ∧
      2 * numerator ≤ 2 * (roundHalfEven numerator denominator * denominator) + denominator := by
  generalize hwhole : roundHalfEven numerator denominator = whole
  constructor
  · cases whole with
    | zero => omega
    | succ below =>
        have hbeyond : below < roundHalfEven numerator denominator := by omega
        rw [lt_roundHalfEven_iff hpos, Nat.add_mul, Nat.mul_assoc] at hbeyond
        rw [Nat.add_mul]
        omega
  · have hwithin : ¬ whole < roundHalfEven numerator denominator := by omega
    rw [lt_roundHalfEven_iff hpos, Nat.add_mul, Nat.mul_assoc] at hwithin
    omega

/-- Different values are apart by a part in `2^53` of the larger one. -/
theorem units_gap {lower upper : Nat} (hlt : lower < upper) :
    2 ^ 53 * units lower + units upper ≤ 2 ^ 53 * units upper := by
  obtain ⟨below, rfl⟩ : ∃ below, upper = below + 1 := ⟨upper - 1, by omega⟩
  have hlower : units lower ≤ units below := units_strictMono.monotone (Nat.le_of_lt_succ hlt)
  obtain ⟨leading, hleading, hunits⟩ := exists_leading below
  have hscale : (leading + 1) * 2 ^ (below / binade - 1) ≤ 2 ^ 53 * 2 ^ (below / binade - 1) :=
    Nat.mul_le_mul_right _ hleading
  rw [Nat.add_mul, Nat.one_mul, ← hunits] at hscale
  rw [units_succ]
  omega

/-- The whole number that the double nearest to a whole number stands for. -/
def leadingBits (n : Nat) : Nat :=
  roundHalfEven n (2 ^ (n.log2 - 52)) * 2 ^ (n.log2 - 52)

theorem leadingBits_of_lt {n : Nat} (hsmall : n < 2 ^ 53) : leadingBits n = n := by
  have hshift : n.log2 - 52 = 0 := by
    by_cases hzero : n = 0
    · rw [hzero, Nat.log2_zero]
    · have hlog : n.log2 < 53 := (Nat.log2_lt hzero).mpr hsmall
      omega
  have hwhole : roundHalfEven (n * 1) 1 = n := roundHalfEven_mul_self n Nat.one_pos
  rw [leadingBits, hshift, Nat.pow_zero, Nat.mul_one]
  rwa [Nat.mul_one] at hwhole

theorem leadingBits_of_le {n : Nat} (hsmall : n ≤ 2 ^ 53) : leadingBits n = n := by
  rcases Nat.eq_or_lt_of_le hsmall with rfl | hlt
  · decide
  · exact leadingBits_of_lt hlt

theorem shift_of_le {n : Nat} (hlarge : 2 ^ 53 ≤ n) :
    2 ^ (n.log2 - 52 + 52) ≤ n ∧ n < 2 ^ (n.log2 - 52 + 53) := by
  have hne : n ≠ 0 := by omega
  have hlog : 53 ≤ n.log2 := (Nat.le_log2 hne).mpr hlarge
  have hlow : n.log2 - 52 + 52 = n.log2 := by omega
  have hhigh : n.log2 - 52 + 53 = n.log2 + 1 := by omega
  rw [hlow, hhigh]
  exact ⟨Nat.log2_self_le hne, Nat.lt_log2_self⟩

/-- The nearest double to a whole number of at most fifty-three bits is that number. -/
theorem exists_units_of_lt {n : Nat} (hpos : 0 < n) (hsmall : n < 2 ^ 53) :
    ∃ pattern < infinityPattern, units pattern = n * unitsInOne := by
  have hne : n ≠ 0 := Nat.ne_of_gt hpos
  have hlog : n.log2 < 53 := (Nat.log2_lt hne).mpr hsmall
  obtain ⟨rest, hrest⟩ := Nat.exists_eq_add_of_le (Nat.le_of_lt_succ hlog)
  have hlow : binade ≤ n * 2 ^ rest := by
    have hbits : binade = 2 ^ n.log2 * 2 ^ rest := by
      rw [← Nat.pow_add, ← hrest]
    rw [hbits]
    exact Nat.mul_le_mul_right _ (Nat.log2_self_le hne)
  have hhigh : n * 2 ^ rest < 2 * binade := by
    have hbits : 2 * binade = 2 ^ (n.log2 + 1) * 2 ^ rest := by
      rw [← Nat.pow_add, Nat.add_right_comm, ← hrest]
      rfl
    rw [hbits]
    exact Nat.mul_lt_mul_of_pos_right Nat.lt_log2_self (Nat.two_pow_pos rest)
  have hscale : 1074 = rest + (1022 + n.log2) := by omega
  refine ⟨(1022 + n.log2) * binade + n * 2 ^ rest, ?_, ?_⟩
  · unfold binade at *
    unfold infinityPattern
    omega
  · rw [units_scaled _ hlow hhigh.le, Nat.mul_assoc, ← unitsInOne_eq_mul hscale]

/-- A whole number of at most a hundred and twenty-eight bits is not rounded to infinity, and its
double stands for the leading bits. -/
theorem units_nearestPattern_whole {n : Nat} (hn : n < 2 ^ 128) :
    nearestPattern n 1 < infinityPattern ∧
      units (nearestPattern n 1) = leadingBits n * unitsInOne := by
  rcases Nat.lt_or_ge n (2 ^ 53) with hsmall | hlarge
  · rw [leadingBits_of_lt hsmall]
    rcases Nat.eq_zero_or_pos n with rfl | hpos
    · decide +kernel
    · obtain ⟨pattern, hfinite, hunits⟩ := exists_units_of_lt hpos hsmall
      have hpattern : nearestPattern n 1 = pattern := by
        rw [← nearestPattern_mul_right n 1 unitsInOne_pos, ← hunits, Nat.one_mul,
          nearestPattern_units hfinite]
      rw [hpattern]
      exact ⟨hfinite, hunits⟩
  · obtain ⟨hlow, hhigh⟩ := shift_of_le hlarge
    have hshift : n.log2 - 52 + 52 < 128 :=
      (Nat.pow_lt_pow_iff_right (by decide)).mp (Nat.lt_of_le_of_lt hlow hn)
    have hleast : binade ≤ roundHalfEven n (2 ^ (n.log2 - 52)) := by
      apply le_roundHalfEven (Nat.two_pow_pos _)
      rwa [Nat.pow_add, Nat.mul_comm] at hlow
    have hmost : roundHalfEven n (2 ^ (n.log2 - 52)) ≤ 2 * binade := by
      apply roundHalfEven_le
      rwa [Nat.pow_add, Nat.mul_comm] at hhigh
    have hpattern := nearestPattern_scaled hlow hhigh
    have hunits := units_scaled (n.log2 - 52 + 1074) hleast hmost
    rw [leadingBits]
    generalize n.log2 - 52 = shift at *
    have hbelow : (shift + 1074) * binade + roundHalfEven n (2 ^ shift) < infinityPattern := by
      unfold binade at *
      unfold infinityPattern
      omega
    rw [hpattern, Nat.min_eq_left hbelow.le, hunits, two_pow_units, ← Nat.mul_assoc]
    exact ⟨hbelow, rfl⟩

/-! ## Laws of the leading bits -/

theorem leadingBits_mono {m n : Nat} (hle : m ≤ n) (hn : n < 2 ^ 128) :
    leadingBits m ≤ leadingBits n := by
  refine Nat.le_of_mul_le_mul_right ?_ unitsInOne_pos
  rw [← (units_nearestPattern_whole (Nat.lt_of_le_of_lt hle hn)).2,
    ← (units_nearestPattern_whole hn).2]
  exact units_strictMono.monotone (nearestPattern_mono Nat.one_pos Nat.one_pos (by omega))

theorem leadingBits_gap {m n : Nat} (hm : m < 2 ^ 128) (hn : n < 2 ^ 128)
    (hlt : leadingBits m < leadingBits n) :
    2 ^ 53 * leadingBits m + leadingBits n ≤ 2 ^ 53 * leadingBits n := by
  have hpattern : nearestPattern m 1 < nearestPattern n 1 := by
    rw [← units_strictMono.lt_iff_lt, (units_nearestPattern_whole hm).2,
      (units_nearestPattern_whole hn).2]
    exact Nat.mul_lt_mul_of_pos_right hlt unitsInOne_pos
  have hgap := units_gap hpattern
  rw [(units_nearestPattern_whole hm).2, (units_nearestPattern_whole hn).2, ← Nat.mul_assoc,
    ← Nat.mul_assoc, ← Nat.add_mul] at hgap
  exact Nat.le_of_mul_le_mul_right hgap unitsInOne_pos

/-- What is lost beyond the leading bits is a part in `2^53` at most. -/
theorem leadingBits_error (n : Nat) :
    2 ^ 53 * leadingBits n ≤ (2 ^ 53 + 1) * n ∧ (2 ^ 53 - 1) * n ≤ 2 ^ 53 * leadingBits n := by
  rcases Nat.lt_or_ge n (2 ^ 53) with hsmall | hlarge
  · rw [leadingBits_of_lt hsmall]
    omega
  · obtain ⟨hlow, -⟩ := shift_of_le hlarge
    obtain ⟨habove, hbelow⟩ := roundHalfEven_error n (Nat.two_pow_pos (n.log2 - 52))
    rw [Nat.pow_add] at hlow
    rw [leadingBits]
    omega

theorem leadingBits_pos {n : Nat} (hpos : 0 < n) : 0 < leadingBits n := by
  have := (leadingBits_error n).2
  omega

theorem leadingBits_two_mul (n : Nat) : leadingBits (2 * n) = 2 * leadingBits n := by
  rcases Nat.lt_or_ge n (2 ^ 52) with hsmall | hlarge
  · rw [leadingBits_of_lt (by omega), leadingBits_of_lt (by omega)]
  · have hshift : (2 * n).log2 - 52 = n.log2 - 52 + 1 := by
      have hlog : 52 ≤ n.log2 := (Nat.le_log2 (by omega)).mpr hlarge
      rw [Nat.log2_two_mul (by omega)]
      omega
    rw [leadingBits, leadingBits, hshift, Nat.pow_succ, Nat.mul_comm 2 n,
      roundHalfEven_mul_right _ _ Nat.two_pos, ← Nat.mul_assoc, Nat.mul_comm]

/-- The quotient of two whole numbers is the rounded quotient of their leading bits. -/
theorem ofNat_div_ofNat {part whole : Nat} (hpart : part < 2 ^ 128) (hwhole : whole < 2 ^ 128)
    (hpos : 0 < whole) :
    ofNat part / ofNat whole = ofQuotient false (leadingBits part) (leadingBits whole) := by
  obtain ⟨hpartFinite, hpartUnits⟩ := units_nearestPattern_whole hpart
  obtain ⟨hwholeFinite, hwholeUnits⟩ := units_nearestPattern_whole hwhole
  have hnonzero : nearestPattern whole 1 ≠ 0 := by
    intro hzero
    have hunits : units 0 = 0 := units_of_lt (by decide)
    rw [hzero, hunits] at hwholeUnits
    exact Nat.ne_of_lt (Nat.mul_pos (leadingBits_pos hpos) unitsInOne_pos) hwholeUnits
  have hquotient : ofNat part / ofNat whole =
      ofQuotient false (units (nearestPattern part 1)) (units (nearestPattern whole 1)) := by
    change div (ofQuotient false part 1) (ofQuotient false whole 1) = _
    simp only [ofQuotient, div, hpartFinite.ne, hwholeFinite.ne, hnonzero, if_false,
      bne_self_eq_false]
  rw [hquotient, hpartUnits, hwholeUnits]
  simp only [ofQuotient, nearestPattern_mul_right _ _ unitsInOne_pos]

end ChainRegistry.Binary64
