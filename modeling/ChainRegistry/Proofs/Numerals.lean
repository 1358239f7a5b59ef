import ChainRegistry.Binary64.Reading
import ChainRegistry.Binary64.Writing
import ChainRegistry.Proofs.Binary64.Exact

/-!
# Spellings of numbers

Numbers are written as runs of digits without a leading zero.  A reader that takes as many digits as
there are finds the end of such a run where a character that is no digit follows, or nothing.  A
decimal in positional notation is such a run, a point and a second run, and the two runs stand for
the same double as the decimal.
-/

namespace ChainRegistry

namespace Numeral

/-! ## Runs of digits -/

/-- No digit follows. -/
def NoDigit (rest : List Char) : Prop :=
  ∀ c ∈ rest.head?, c.isDigit = false

theorem noDigit_cons {c : Char} (hc : c.isDigit = false) (rest : List Char) :
    NoDigit (c :: rest) := by
  intro d hd
  obtain rfl : c = d := by simpa using hd
  exact hc

theorem takeWhile_digits {digits rest : List Char} (hdigits : ∀ c ∈ digits, c.isDigit = true)
    (hrest : NoDigit rest) : (digits ++ rest).takeWhile Char.isDigit = digits := by
  rw [List.takeWhile_append_of_pos hdigits]
  cases rest with
  | nil => simp
  | cons c rest => simp [hrest c (by simp)]

theorem dropWhile_digits {digits rest : List Char} (hdigits : ∀ c ∈ digits, c.isDigit = true)
    (hrest : NoDigit rest) : (digits ++ rest).dropWhile Char.isDigit = rest := by
  rw [List.dropWhile_append_of_pos hdigits]
  cases rest with
  | nil => rfl
  | cons c rest => simp [hrest c (by simp)]

theorem natOfDigits?_eq_some_iff {digits : List Char} {n : Nat} :
    natOfDigits? digits = some n ↔
      (digits ≠ [] ∧ ∀ c ∈ digits, c.isDigit = true) ∧ Nat.ofDigitChars 10 digits 0 = n := by
  simp [natOfDigits?]

/-- The digits of a whole number: at least one, and no zero in front of another digit. -/
structure IsWhole (whole : List Char) : Prop where
  ne_nil : whole ≠ []
  digits : ∀ c ∈ whole, c.isDigit = true
  plain : whole.head? = some '0' → whole = ['0']

theorem isWhole_singleton {c : Char} (hc : c.isDigit = true) : IsWhole [c] where
  ne_nil := by simp
  digits := by simpa using hc
  plain := by simp

theorem IsWhole.head {whole : List Char} (hwhole : IsWhole whole) (rest : List Char) :
    ∃ c ∈ (whole ++ rest).head?, c.isDigit = true := by
  cases whole with
  | nil => exact absurd rfl hwhole.ne_nil
  | cons c whole => exact ⟨c, rfl, hwhole.digits c List.mem_cons_self⟩

theorem head?_append {whole : List Char} (hne : whole ≠ []) (rest : List Char) :
    (whole ++ rest).head? = whole.head? := by
  cases whole with
  | nil => contradiction
  | cons c whole => rfl

theorem isDigit_of_mem_ofNat {n : Nat} {c : Char} (hc : c ∈ ofNat n) : c.isDigit = true :=
  Nat.isDigit_of_mem_toDigits (by decide) (by decide) hc

theorem ofDigitChars_ofNat (n : Nat) : Nat.ofDigitChars 10 (ofNat n) 0 = n :=
  Nat.ofDigitChars_toDigits (by decide) (by decide)

theorem ofNat_of_lt {n : Nat} (hn : n < 10) : ofNat n = [Nat.digitChar n] :=
  Nat.toDigits_of_lt_base hn

theorem ofNat_of_le {n : Nat} (hn : 10 ≤ n) :
    ofNat n = ofNat (n / 10) ++ [Nat.digitChar (n % 10)] :=
  Nat.toDigits_of_base_le (by decide) hn

theorem head?_ofNat {n : Nat} (hn : n ≠ 0) : (ofNat n).head? ≠ some '0' := by
  induction n using Nat.strongRecOn with
  | ind n ih =>
      rcases Nat.lt_or_ge n 10 with hsmall | hlarge
      · have hdigit : ∀ m < 10, m ≠ 0 → Nat.digitChar m ≠ '0' := by decide
        rw [ofNat_of_lt hsmall]
        simpa using hdigit n hsmall hn
      · rw [ofNat_of_le hlarge, head?_append (ofNat_ne_nil _)]
        exact ih (n / 10) (Nat.div_lt_self (by omega) (by decide)) (by omega)

theorem ofNat_isWhole (n : Nat) : IsWhole (ofNat n) where
  ne_nil := ofNat_ne_nil n
  digits _ hc := isDigit_of_mem_ofNat hc
  plain hzero := by
    by_cases hn : n = 0
    · subst hn
      rfl
    · exact absurd hzero (head?_ofNat hn)

theorem isDigit_of_mem_replicate {count : Nat} {c : Char} (hc : c ∈ List.replicate count '0') :
    c.isDigit = true := by
  rw [List.eq_of_mem_replicate hc]
  rfl

end Numeral

/-! ## Decimals -/

namespace FloatForm

open Numeral

/-- Only zero itself has no leading digit, and it is written without a power of ten. -/
theorem exponent_shortest (tie : Binary64.Tie) {pattern : Nat}
    (hfinite : pattern < infinityPattern) (hdigits : (Binary64.shortest tie pattern).digits = 0) :
    (Binary64.shortest tie pattern).exponent = 0 := by
  by_cases hzero : pattern = 0
  · simp [Binary64.shortest, hzero]
  · have hpattern := Binary64.pattern_shortest tie hfinite
    rw [Decimal.pattern, if_pos hdigits] at hpattern
    exact absurd hpattern.symm hzero

/-- Two runs of digits around a point, which stand for the same double as a decimal. -/
structure IsSpelling (d : Decimal) (whole fraction : List Char) : Prop where
  isWhole : IsWhole whole
  ne_nil : fraction ≠ []
  digits : ∀ c ∈ fraction, c.isDigit = true
  value : d.pattern < infinityPattern → (Decimal.ofParts whole fraction 0).pattern = d.pattern

/-- Zeros are appended to the digits of a whole number. -/
theorem isSpelling_whole {digits zeros : Nat} (hplain : digits = 0 → zeros = 0) :
    IsSpelling ⟨digits, zeros⟩ (ofNat digits ++ List.replicate zeros '0') ['0'] := by
  have hwhole := ofNat_isWhole digits
  constructor
  · constructor
    · simp [hwhole.ne_nil]
    · intro c hc
      rcases List.mem_append.mp hc with hc | hc
      · exact hwhole.digits c hc
      · exact isDigit_of_mem_replicate hc
    · intro hhead
      rw [head?_append hwhole.ne_nil] at hhead
      have hzero : digits = 0 := Classical.byContradiction fun hne => head?_ofNat hne hhead
      simp [hzero, hplain hzero, ofNat]
  · simp
  · simp
  · intro hfinite
    have hzeros : List.replicate zeros '0' ++ ['0'] = List.replicate (zeros + 1) '0' :=
      List.replicate_succ'.symm
    have hvalue : Decimal.ofParts (ofNat digits ++ List.replicate zeros '0') ['0'] 0 =
        ⟨digits * Nat.pow 10 (zeros + 1), -1⟩ := by
      simp only [Decimal.ofParts, List.append_assoc, hzeros, Nat.ofDigitChars_append,
        ofDigitChars_ofNat, Nat.ofDigitChars_replicate_zero]
      simp [Nat.mul_comm]
    rw [hvalue]
    exact Binary64.pattern_append_zeros hfinite

/-- The point stands between two digits. -/
theorem isSpelling_between {digits point : Nat} {exponent : Int} (hpoint : 0 < point)
    (hlength : point < (ofNat digits).length)
    (hexponent : (point : Int) = (ofNat digits).length + exponent) :
    IsSpelling ⟨digits, exponent⟩ ((ofNat digits).take point) ((ofNat digits).drop point) := by
  have hwhole := ofNat_isWhole digits
  constructor
  · constructor
    · simp [List.take_eq_nil_iff, hwhole.ne_nil]
      omega
    · exact fun c hc => hwhole.digits c (List.mem_of_mem_take hc)
    · intro hhead
      rw [List.head?_take, if_neg (by omega)] at hhead
      have hone : (ofNat digits).length = 1 := congrArg List.length (hwhole.plain hhead)
      omega
  · simp [List.drop_eq_nil_iff]
    omega
  · exact fun c hc => hwhole.digits c (List.mem_of_mem_drop hc)
  · intro _
    have hfraction : ((ofNat digits).drop point).length = (ofNat digits).length - point :=
      List.length_drop
    have hvalue : Decimal.ofParts ((ofNat digits).take point) ((ofNat digits).drop point) 0 =
        ⟨digits, exponent⟩ := by
      simp only [Decimal.ofParts, List.take_append_drop, ofDigitChars_ofNat, hfraction]
      congr 1
      omega
    rw [hvalue]

/-- Zeros follow the point. -/
theorem isSpelling_below {digits zeros : Nat} {exponent : Int}
    (hexponent : (zeros : Int) = -((ofNat digits).length + exponent)) :
    IsSpelling ⟨digits, exponent⟩ ['0'] (List.replicate zeros '0' ++ ofNat digits) := by
  have hwhole := ofNat_isWhole digits
  constructor
  · exact isWhole_singleton rfl
  · simp [hwhole.ne_nil]
  · intro c hc
    rcases List.mem_append.mp hc with hc | hc
    · exact isDigit_of_mem_replicate hc
    · exact hwhole.digits c hc
  · intro _
    have hzero : Nat.ofDigitChars 10 ['0'] 0 = 0 := rfl
    have hvalue : Decimal.ofParts ['0'] (List.replicate zeros '0' ++ ofNat digits) 0 =
        ⟨digits, exponent⟩ := by
      simp only [Decimal.ofParts, Nat.ofDigitChars_append, Nat.ofDigitChars_replicate_zero,
        hzero, Nat.mul_zero, ofDigitChars_ofNat, List.length_append, List.length_replicate]
      congr 1
      omega
    rw [hvalue]

theorem positionalText_spelled (form : FloatForm) (hending : form.wholeEnding = ['.', '0'])
    {d : Decimal} (hplain : d.digits = 0 → d.exponent = 0) :
    ∃ whole fraction, positionalText form (ofNat d.digits) d.exponent = whole ++ '.' :: fraction ∧
      IsSpelling d whole fraction := by
  obtain ⟨digits, exponent⟩ := d
  unfold positionalText
  split
  next hexponent =>
    obtain ⟨zeros, rfl⟩ := Int.eq_ofNat_of_zero_le hexponent
    refine ⟨_, ['0'], ?_, isSpelling_whole fun hzero => by simpa using hplain hzero⟩
    simp [hending]
  next hexponent =>
    simp only at hexponent ⊢
    split
    next hpoint => exact ⟨_, _, rfl, isSpelling_between (by omega) (by omega) (by omega)⟩
    next hpoint => exact ⟨['0'], _, rfl, isSpelling_below (by omega)⟩

end FloatForm

end ChainRegistry
