import ChainRegistry.Proofs.Binary64.Exact
import Mathlib.Algebra.Order.Field.Basic
import Mathlib.Algebra.Order.Ring.Rat
import Mathlib.Data.Rat.Cast.Order
import Mathlib.Order.Monotone.Basic
import Mathlib.Tactic.Linarith

/-!
# The numbers that doubles stand for

A finite double is a fraction: its units over the units in one, with its sign.  Patterns and values
grow together, because the next pattern either has one more leading bit at the same scale or begins
the next binade, where the scale doubles.  Comparing patterns is therefore comparing numbers.
-/

namespace ChainRegistry.Binary64

/-- The number that a double stands for, if it is finite. -/
def value? : Binary64 → Option ℚ
  | nan => none
  | signed negative m =>
    if m.val = infinityPattern then none
    else
      let size : ℚ := units m.val / unitsInOne
      some (if negative then -size else size)

/-- Where the next pattern is the first one of a binade, and where it is not. -/
theorem succ_binade (pattern : Nat) :
    ((pattern + 1) % binade = pattern % binade + 1 ∧
        (pattern + 1) / binade = pattern / binade) ∨
      (pattern % binade + 1 = binade ∧ (pattern + 1) % binade = 0 ∧
        (pattern + 1) / binade = pattern / binade + 1) := by
  unfold binade
  omega

/-- The next value is one unit of the scale away. -/
theorem units_succ (pattern : Nat) :
    units (pattern + 1) = units pattern + 2 ^ (pattern / binade - 1) := by
  rcases Nat.lt_or_ge pattern (2 * binade) with hsmall | hlarge
  · rw [binade_of_lt hsmall, units_of_lt hsmall, Nat.pow_zero]
    rcases Nat.lt_or_ge (pattern + 1) (2 * binade) with hbelow | hedge
    · exact units_of_lt hbelow
    · have hnext : pattern + 1 = 2 * binade := Nat.le_antisymm hsmall hedge
      have hvalue : units (2 * binade) = 2 * binade := by decide +kernel
      rw [hnext, hvalue]
  · rw [units_of_le hlarge, units_of_le (Nat.le_succ_of_le hlarge), Nat.pow_eq, Nat.pow_eq,
      ← Nat.succ_mul]
    rcases succ_binade pattern with ⟨hrest, hbinade⟩ | ⟨hlast, hrest, hbinade⟩
    · rw [hrest, hbinade, Nat.add_right_comm]
    · have hbinades : 0 < pattern / binade := Nat.div_pos (by omega) (by decide)
      have hscale : pattern / binade + 1 - 1 = pattern / binade - 1 + 1 := by omega
      have hleading : (pattern % binade + binade).succ = binade * 2 := by omega
      rw [hrest, hbinade, hscale, Nat.zero_add, Nat.pow_succ', ← Nat.mul_assoc, hleading]

theorem units_lt_units_succ (pattern : Nat) : units pattern < units (pattern + 1) := by
  rw [units_succ]
  exact Nat.lt_add_of_pos_right (Nat.two_pow_pos _)

theorem units_strictMono : StrictMono units :=
  strictMono_nat_of_lt_succ units_lt_units_succ

/-! ## Order -/

theorem zero_lt_signed_iff {negative : Bool} {m : Fin (infinityPattern + 1)} :
    zero < signed negative m ↔ negative = false ∧ 0 < m.val := by
  change lt zero (signed negative m) = true ↔ _
  cases negative <;> simp [lt, place, zero]

theorem positive_le_positive_iff {m k : Fin (infinityPattern + 1)} :
    signed false m ≤ signed false k ↔ m.val ≤ k.val := by
  change le (signed false m) (signed false k) = true ↔ _
  simp [le, place]

/-! ## Numbers -/

/-- The number that a finite pattern stands for. -/
def size (pattern : Nat) : ℚ := units pattern / unitsInOne

theorem unitsInOne_cast_pos : (0 : ℚ) < unitsInOne :=
  Nat.cast_pos.mpr unitsInOne_pos

theorem size_strictMono : StrictMono size := fun _ _ hlt =>
  div_lt_div_of_pos_right (Nat.cast_lt.mpr (units_strictMono hlt)) unitsInOne_cast_pos

theorem size_nonneg (pattern : Nat) : 0 ≤ size pattern :=
  div_nonneg (Nat.cast_nonneg _) (Nat.cast_nonneg _)

theorem size_zero : size 0 = 0 := by
  have hzero : units 0 = 0 := units_of_lt (by decide)
  rw [size, hzero, Nat.cast_zero, zero_div]

theorem value?_of_finite {negative : Bool} {m : Fin (infinityPattern + 1)}
    (hfinite : m.val < infinityPattern) :
    (signed negative m).value? = some (if negative then -size m.val else size m.val) :=
  if_neg hfinite.ne

theorem value?_eq_some_iff {x : Binary64} {value : ℚ} :
    x.value? = some value ↔ ∃ negative m, x = signed negative m ∧ m.val < infinityPattern ∧
      value = if negative then -size m.val else size m.val := by
  constructor
  · intro hvalue
    cases x with
    | nan => exact absurd hvalue (by simp [value?])
    | signed negative m =>
        have hfinite : m.val < infinityPattern := by
          apply Nat.lt_of_le_of_ne (Nat.lt_succ_iff.mp m.isLt)
          intro hinfinite
          have hnone : (signed negative m).value? = none := if_pos hinfinite
          rw [hnone] at hvalue
          contradiction
        rw [value?_of_finite hfinite, Option.some.injEq] at hvalue
        exact ⟨negative, m, rfl, hfinite, hvalue.symm⟩
  · rintro ⟨negative, m, rfl, hfinite, rfl⟩
    exact value?_of_finite hfinite

/-- A finite double is at most another one exactly if its number is. -/
theorem le_iff_of_value? {x y : Binary64} {a b : ℚ} (hx : x.value? = some a)
    (hy : y.value? = some b) : x ≤ y ↔ a ≤ b := by
  obtain ⟨s, m, rfl, -, rfl⟩ := value?_eq_some_iff.mp hx
  obtain ⟨t, k, rfl, -, rfl⟩ := value?_eq_some_iff.mp hy
  have hplace : signed s m ≤ signed t k ↔
      (if s then -(m.val : Int) else m.val) ≤ if t then -(k.val : Int) else k.val :=
    decide_eq_true_iff
  have hm : 0 ≤ size m.val := size_nonneg _
  have hk : 0 ≤ size k.val := size_nonneg _
  have hmzero : size m.val ≤ 0 ↔ m.val ≤ 0 := size_zero ▸ size_strictMono.le_iff_le
  have hkzero : size k.val ≤ 0 ↔ k.val ≤ 0 := size_zero ▸ size_strictMono.le_iff_le
  have hmk : size m.val ≤ size k.val ↔ m.val ≤ k.val := size_strictMono.le_iff_le
  have hkm : size k.val ≤ size m.val ↔ k.val ≤ m.val := size_strictMono.le_iff_le
  rw [hplace]
  cases s <;> cases t <;> simp only [Bool.false_eq_true, if_false, if_true]
  · rw [hmk, Nat.cast_le]
  · constructor
    · intro hle
      have hmval : size m.val ≤ 0 := hmzero.mpr (by omega)
      have hkval : size k.val ≤ 0 := hkzero.mpr (by omega)
      linarith
    · intro hle
      have hmval : m.val ≤ 0 := hmzero.mp (by linarith)
      have hkval : k.val ≤ 0 := hkzero.mp (by linarith)
      omega
  · exact iff_of_true (by omega) (by linarith)
  · rw [neg_le_neg_iff, neg_le_neg_iff, hkm, Nat.cast_le]

/-! ## Shares -/

/-- A share is a number above zero and at most one. -/
def IsShare (x : Binary64) : Prop :=
  ∃ share, x.value? = some share ∧ 0 < share ∧ share ≤ 1

def onePattern : Nat := 0x3FF0000000000000

theorem ofNat_one : ofNat 1 = signed false ⟨onePattern, by decide⟩ := by
  decide +kernel

theorem units_onePattern : units onePattern = unitsInOne := by
  decide +kernel

theorem size_onePattern : size onePattern = 1 := by
  rw [size, units_onePattern]
  exact div_self unitsInOne_cast_pos.ne'

theorem size_pos_iff (pattern : Nat) : 0 < size pattern ↔ 0 < pattern :=
  size_zero ▸ size_strictMono.lt_iff_lt

theorem size_le_one_iff (pattern : Nat) : size pattern ≤ 1 ↔ pattern ≤ onePattern :=
  size_onePattern ▸ size_strictMono.le_iff_le

theorem isShare_of_value? {x : Binary64} {value : ℚ} (hvalue : x.value? = some value) :
    x.IsShare ↔ 0 < value ∧ value ≤ 1 := by
  constructor
  · rintro ⟨share, hshare, hbounds⟩
    obtain rfl := Option.some.inj (hvalue.symm.trans hshare)
    exact hbounds
  · exact fun hbounds => ⟨value, hvalue, hbounds⟩

theorem not_isShare_of_value?_none {x : Binary64} (hvalue : x.value? = none) : ¬ x.IsShare := by
  rintro ⟨share, hshare, -⟩
  rw [hvalue] at hshare
  contradiction

/-- Comparing a double with zero and one tells whether it stands for a share; what is no number and
the infinities fail. -/
theorem isShare_iff (x : Binary64) : x.IsShare ↔ zero < x ∧ x ≤ ofNat 1 := by
  rw [ofNat_one]
  cases x with
  | nan => exact iff_of_false (not_isShare_of_value?_none rfl) fun h => nomatch h.1
  | signed negative m =>
      rw [zero_lt_signed_iff]
      by_cases hinfinite : m.val = infinityPattern
      · have hvalue : (signed negative m).value? = none := if_pos hinfinite
        refine iff_of_false (not_isShare_of_value?_none hvalue) ?_
        rintro ⟨⟨rfl, -⟩, hone⟩
        rw [positive_le_positive_iff, hinfinite] at hone
        exact absurd hone (by decide)
      · have hfinite : m.val < infinityPattern :=
          Nat.lt_of_le_of_ne (Nat.lt_succ_iff.mp m.isLt) hinfinite
        rw [isShare_of_value? (value?_of_finite hfinite)]
        cases negative with
        | true =>
            refine iff_of_false ?_ ?_
            · rintro ⟨hpos, -⟩
              exact absurd hpos (not_lt.mpr (neg_nonpos.mpr (size_nonneg _)))
            · rintro ⟨⟨hsign, -⟩, -⟩
              contradiction
        | false =>
            rw [positive_le_positive_iff, if_neg Bool.false_ne_true, size_pos_iff,
              size_le_one_iff, and_iff_right rfl]

end ChainRegistry.Binary64
