import ChainRegistry.Proofs.Binary64.Values

/-!
# Whole numbers that pass through a double

A double keeps the fifty-three leading bits of a whole number.  From the scale of the leading bit on
the number is rounded to a multiple of a power of two, and a number that is held within sixty-four
bits afterwards is at most their largest.  In the upper half of the sixty-four bits the power is
2048, so only multiples of it come back, and the largest number besides.
-/

namespace ChainRegistry.Binary64

/-! ## Rounding to a multiple -/

theorem le_roundHalfEven {whole numerator denominator : Nat} (hpos : 0 < denominator)
    (h : whole * denominator ≤ numerator) : whole ≤ roundHalfEven numerator denominator := by
  have hwhole : whole ≤ numerator / denominator := (Nat.le_div_iff_mul_le hpos).mpr h
  have hle : numerator / denominator ≤ roundHalfEven numerator denominator := by
    simp only [roundHalfEven]
    split_ifs <;> omega
  exact hwhole.trans hle

theorem roundHalfEven_le {whole numerator denominator : Nat}
    (h : numerator < whole * denominator) : roundHalfEven numerator denominator ≤ whole := by
  have hwhole : numerator / denominator < whole := Nat.div_lt_of_lt_mul (Nat.mul_comm _ _ ▸ h)
  have hle : roundHalfEven numerator denominator ≤ numerator / denominator + 1 := by
    simp only [roundHalfEven]
    split_ifs <;> omega
  exact hle.trans hwhole

/-- The value of leading bits at a scale, where a carry into the next binade is allowed. -/
theorem units_scaled (shift : Nat) {leading : Nat} (hlow : binade ≤ leading)
    (hhigh : leading ≤ 2 * binade) :
    units (shift * binade + leading) = leading * 2 ^ shift := by
  by_cases hsmall : shift * binade + leading < 2 * binade
  · have hshift : shift = 0 := by
      rcases Nat.eq_zero_or_pos shift with hzero | hpos
      · exact hzero
      · have hle : 1 * binade ≤ shift * binade := Nat.mul_le_mul_right _ hpos
        omega
    rw [units_of_lt hsmall, hshift, Nat.pow_zero]
    omega
  · rw [units_of_le (Nat.le_of_not_lt hsmall)]
    by_cases hcarry : leading = 2 * binade
    · have hrest : (shift * binade + leading) % binade = 0 := by
        rw [hcarry, ← Nat.add_mul, Nat.mul_mod_left]
      have hbinade : (shift * binade + leading) / binade - 1 = shift + 1 := by
        rw [hcarry, ← Nat.add_mul, Nat.mul_div_cancel _ (by decide)]
        omega
      have hscale : Nat.pow 2 (shift + 1) = 2 * 2 ^ shift := Nat.pow_succ'
      rw [hrest, hbinade, hscale, hcarry, Nat.zero_add, ← Nat.mul_assoc, Nat.mul_comm binade 2]
    · obtain ⟨rest, rfl⟩ := Nat.exists_eq_add_of_le hlow
      have hsum : shift * binade + (binade + rest) = rest + binade * (shift + 1) := by
        rw [Nat.mul_add, Nat.mul_comm shift]
        omega
      have hsmall : rest < binade := by omega
      have hrest : (rest + binade * (shift + 1)) % binade = rest := by
        rw [Nat.add_mul_mod_self_left, Nat.mod_eq_of_lt hsmall]
      have hbinade : (rest + binade * (shift + 1)) / binade - 1 = shift := by
        rw [Nat.add_mul_div_left _ _ (by decide), Nat.div_eq_of_lt hsmall]
        omega
      rw [hsum, hrest, hbinade, Nat.add_comm rest, Nat.pow_eq]

theorem two_pow_units (exponent : Nat) : 2 ^ (exponent + 1074) = 2 ^ exponent * unitsInOne := by
  induction exponent with
  | zero => decide +kernel
  | succ exponent ih =>
      rw [Nat.add_right_comm, Nat.pow_succ, ih, Nat.pow_succ, Nat.mul_right_comm]

/-- The double nearest to a whole number of more than fifty-two bits. -/
theorem nearestPattern_scaled {n shift : Nat} (hlow : 2 ^ (shift + 52) ≤ n)
    (hhigh : n < 2 ^ (shift + 53)) :
    nearestPattern n 1 =
      min ((shift + 1074) * binade + roundHalfEven n (2 ^ shift)) infinityPattern := by
  have hlog : (n * unitsInOne).log2 = shift + 52 + 1074 := by
    have hne : n * unitsInOne ≠ 0 := by
      have hn : 0 < n := Nat.lt_of_lt_of_le (Nat.two_pow_pos _) hlow
      exact Nat.mul_ne_zero (Nat.ne_of_gt hn) (Nat.ne_of_gt unitsInOne_pos)
    rw [Nat.log2_eq_iff hne]
    constructor
    · rw [two_pow_units]
      exact Nat.mul_le_mul_right _ hlow
    · have hsum : shift + 52 + 1074 + 1 = shift + 53 + 1074 :=
        Nat.add_right_comm (shift + 52) 1074 1
      rw [hsum, two_pow_units]
      exact Nat.mul_lt_mul_of_pos_right hhigh unitsInOne_pos
  have hscale : 1 * Nat.pow 2 (shift + 1074) = 2 ^ shift * unitsInOne := by
    rw [Nat.one_mul]
    exact two_pow_units shift
  have hshift : shift + 52 + 1074 - 52 = shift + 1074 := by
    rw [Nat.add_right_comm, Nat.add_sub_cancel]
  rw [nearestPattern, Nat.div_one, hlog, hshift, hscale, roundHalfEven_mul_right _ _ unitsInOne_pos]

/-- A double that is a whole number is held as it is, up to the largest number. -/
theorem toNatSaturating_whole {pattern whole : Nat} (hpattern : pattern < infinityPattern + 1)
    (hfinite : pattern < infinityPattern) (hunits : units pattern = whole * unitsInOne)
    (largest : Nat) :
    (signed false ⟨pattern, hpattern⟩).toNatSaturating largest = min whole largest := by
  have hhalf : (2 * units pattern + unitsInOne) / (2 * unitsInOne) = whole := by
    have hsum : 2 * units pattern + unitsInOne = (2 * whole + 1) * unitsInOne := by
      rw [hunits, Nat.add_mul, Nat.one_mul, Nat.mul_assoc]
    rw [hsum, Nat.mul_div_mul_right _ _ unitsInOne_pos]
    omega
  rw [toNatSaturating, if_neg (Nat.ne_of_lt hfinite), hhalf]

theorem toNatSaturating_large {pattern largest : Nat} (hpattern : pattern < infinityPattern + 1)
    (hlarge : largest * unitsInOne ≤ units pattern) :
    (signed false ⟨pattern, hpattern⟩).toNatSaturating largest = largest := by
  rw [toNatSaturating]
  split
  next => rfl
  next =>
    apply Nat.min_eq_right
    rw [Nat.le_div_iff_mul_le (Nat.mul_pos (by decide) unitsInOne_pos), Nat.mul_left_comm]
    exact (Nat.mul_le_mul_left 2 hlarge).trans (Nat.le_add_right _ _)

/-! ## Sixty-four bits -/

/-- The number that a whole number comes back as if it has to fit into sixty-four signed bits, or
else becomes a double that is held within sixty-four bits. -/
def heldWord (n : Nat) : Nat :=
  if n < 2 ^ 63 then n else min (roundHalfEven n 2048 * 2048) (2 ^ 64 - 1)

/-- Beyond the words all patterns are at least that of the first number there. -/
theorem le_nearestPattern_of_large {n : Nat} (hlarge : 2 ^ 64 ≤ n) :
    (11 + 1074) * binade + 2 * binade ≤ nearestPattern n 1 := by
  have hne : n ≠ 0 := by omega
  have hlog : 64 ≤ n.log2 := (Nat.le_log2 hne).mpr hlarge
  obtain ⟨shift, hshift⟩ := Nat.exists_eq_add_of_le hlog
  have hlow : 2 ^ (12 + shift + 52) ≤ n := by
    have hbits : 12 + shift + 52 = n.log2 := by omega
    rw [hbits]
    exact Nat.log2_self_le hne
  have hhigh : n < 2 ^ (12 + shift + 53) := by
    have hbits : 12 + shift + 53 = n.log2 + 1 := by omega
    rw [hbits]
    exact Nat.lt_log2_self
  have hleast : binade ≤ roundHalfEven n (2 ^ (12 + shift)) := by
    apply le_roundHalfEven (Nat.two_pow_pos _)
    rwa [Nat.pow_add, Nat.mul_comm] at hlow
  rw [nearestPattern_scaled hlow hhigh]
  apply Nat.le_min_of_le_of_le
  · have hscale : (12 + 1074) * binade ≤ (12 + shift + 1074) * binade :=
      Nat.mul_le_mul_right _ (by omega)
    unfold binade at *
    omega
  · decide

theorem toNatSaturating_ofNat {n : Nat} (hlow : 2 ^ 63 ≤ n) :
    (ofNat n).toNatSaturating (2 ^ 64 - 1) = heldWord n := by
  rw [heldWord, if_neg (Nat.not_lt.mpr hlow)]
  by_cases hhigh : n < 2 ^ 64
  · have hleast : binade ≤ roundHalfEven n 2048 := le_roundHalfEven (by decide) hlow
    have hmost : roundHalfEven n 2048 ≤ 2 * binade := roundHalfEven_le hhigh
    have hbelow : (11 + 1074) * binade + roundHalfEven n 2048 < infinityPattern := by
      have hbinades : (11 + 1074) * binade + 2 * binade < infinityPattern := by decide
      omega
    have hpattern : nearestPattern n 1 = (11 + 1074) * binade + roundHalfEven n 2048 :=
      (@nearestPattern_scaled n 11 hlow hhigh).trans (Nat.min_eq_left hbelow.le)
    have hscale : 2 ^ 11 = 2048 := rfl
    have hunits : units (nearestPattern n 1) = roundHalfEven n 2048 * 2048 * unitsInOne := by
      rw [hpattern, units_scaled _ hleast hmost, two_pow_units, ← Nat.mul_assoc, hscale]
    exact toNatSaturating_whole _ (hpattern ▸ hbelow) hunits _
  · have hlarge : 2 ^ 64 ≤ n := Nat.le_of_not_lt hhigh
    have hheld : min (roundHalfEven n 2048 * 2048) (2 ^ 64 - 1) = 2 ^ 64 - 1 := by
      have hleast : 2 ^ 53 ≤ roundHalfEven n 2048 := le_roundHalfEven (by decide) hlarge
      apply Nat.min_eq_right
      omega
    have hfirst : units ((11 + 1074) * binade + 2 * binade) = 2 ^ 64 * unitsInOne := by
      have hbits : 2 * binade * 2 ^ 11 = 2 ^ 64 := rfl
      rw [units_scaled _ (by decide) (Nat.le_refl _), two_pow_units, ← Nat.mul_assoc, hbits]
    rw [hheld]
    apply toNatSaturating_large
    calc (2 ^ 64 - 1) * unitsInOne ≤ 2 ^ 64 * unitsInOne :=
          Nat.mul_le_mul_right _ (Nat.sub_le _ _)
      _ = units ((11 + 1074) * binade + 2 * binade) := hfirst.symm
      _ ≤ units (nearestPattern n 1) :=
          units_strictMono.monotone (le_nearestPattern_of_large hlarge)

theorem heldWord_lt (n : Nat) : heldWord n < UInt64.size := by
  have hsize : UInt64.size = 2 ^ 64 := rfl
  rw [heldWord, hsize]
  split <;> omega

theorem heldWord_ne_zero {n : Nat} (hn : n ≠ 0) : heldWord n ≠ 0 := by
  rw [heldWord]
  split
  next => exact hn
  next hlarge =>
    have hleast : 2 ^ 52 ≤ roundHalfEven n 2048 :=
      le_roundHalfEven (by decide) (Nat.le_of_not_lt hlarge)
    omega

/-- The numbers that are held as they are. -/
theorem heldWord_eq_self_iff (n : Nat) :
    heldWord n = n ↔ n < 2 ^ 63 ∨ n < 2 ^ 64 ∧ 2048 ∣ n ∨ n = 2 ^ 64 - 1 := by
  have hround : roundHalfEven n 2048 * 2048 = n ↔ 2048 ∣ n := by
    constructor
    · intro h
      exact ⟨_, (Nat.mul_comm _ _ ▸ h).symm⟩
    · rintro ⟨whole, rfl⟩
      rw [Nat.mul_comm 2048, roundHalfEven_mul_self _ (by decide)]
  by_cases hlast : n = 2 ^ 64 - 1
  · subst hlast
    decide
  · unfold heldWord
    split <;> omega

end ChainRegistry.Binary64
