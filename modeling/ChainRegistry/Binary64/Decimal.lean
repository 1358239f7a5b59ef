import ChainRegistry.Binary64.Basic

/-!
# Decimal numbers and the doubles they stand for

A decimal is a digit string read as a natural number together with a power of ten.  Its double is
the nearest one.  In the other direction a finite double has a shortest decimal: of the decimals
with the fewest digits that stand for it, the one closest to it.  The search tries one digit, two
digits and so on; on each of these grids only the two neighbours of the value can be closest, and
either is tested by reading it back.  So whatever the search returns reads back, by construction.
-/

namespace ChainRegistry

/-- The number `digits * 10 ^ exponent`. -/
structure Decimal where
  digits : Nat
  exponent : Int
  deriving DecidableEq, Repr

namespace Decimal

open Binary64

/-- The pattern nearest to a decimal.  The first two cases answer at once where the exponent alone
puts the value beyond every finite double or below half the smallest one. -/
def pattern (d : Decimal) : Nat :=
  if d.digits = 0 then 0
  else if 400 < d.exponent then infinityPattern
  else if d.exponent + (d.digits.log2 / 3 + 1 : Nat) < -400 then 0
  else match d.exponent with
    | .ofNat e => nearestPattern (d.digits * Nat.pow 10 e) 1
    | .negSucc e => nearestPattern d.digits (Nat.pow 10 (e + 1))

theorem pattern_lt (d : Decimal) : d.pattern < infinityPattern + 1 := by
  unfold pattern
  repeat' split
  · decide
  · decide
  · decide
  · exact nearestPattern_lt _ _
  · exact nearestPattern_lt _ _

/-- Moves at most so many final zeros from the digits into the exponent. -/
def dropZeros : Nat → Decimal → Decimal
  | 0, d => d
  | zeros + 1, d =>
    if d.digits ≠ 0 ∧ d.digits % 10 = 0 then dropZeros zeros ⟨d.digits / 10, d.exponent + 1⟩ else d

end Decimal

namespace Binary64

def ofDecimal (negative : Bool) (d : Decimal) : Binary64 :=
  signed negative ⟨d.pattern, d.pattern_lt⟩

/-- Which of two equally close decimals of the same length is written. -/
inductive Tie where
  | toEven
  | upward
  deriving DecidableEq, Repr

/-- The value of a pattern in steps of `10 ^ exponent`, as a quotient. -/
def stepsOf (pattern : Nat) : Int → Nat × Nat
  | .ofNat e => (units pattern, unitsInOne * Nat.pow 10 e)
  | .negSucc e => (units pattern * Nat.pow 10 (e + 1), unitsInOne)

/-- The largest `e` with `10 ^ e` at most the value of a pattern other than zero.  The logarithm to
base two tells it up to one. -/
def leadingExponent (pattern : Nat) : Int :=
  let estimate := (((units pattern).log2 : Int) - 1074) * 30103 / 100000
  let (steps, unit) := stepsOf pattern (estimate + 1)
  if unit ≤ steps then estimate + 1 else estimate

/-- The decimal of at most so many digits that reads back as the pattern and is closest to it. -/
def closestOfLength? (tie : Tie) (pattern length : Nat) : Option Decimal :=
  let exponent := leadingExponent pattern - (length : Int) + 1
  let (steps, unit) := stepsOf pattern exponent
  let low := steps / unit
  let below := Decimal.dropZeros length ⟨low, exponent⟩
  let above := Decimal.dropZeros length ⟨low + 1, exponent⟩
  let twice := 2 * (steps % unit)
  match decide (below.pattern = pattern), decide (above.pattern = pattern) with
  | true, true =>
    if twice < unit then some below
    else if unit < twice then some above
    else match tie with
      | .upward => some above
      | .toEven => some (if low % 2 = 0 then below else above)
  | true, false => some below
  | false, true => some above
  | false, false => none

def exactDecimal (pattern : Nat) : Decimal :=
  ⟨units pattern * Nat.pow 5 1074, -1074⟩

/-- Seventeen digits always suffice; the exact expansion stands last so that there is an answer
without an appeal to that fact. -/
def shortest (tie : Tie) (pattern : Nat) : Decimal :=
  if pattern = 0 then ⟨0, 0⟩
  else ((List.range 17).findSome? fun n => closestOfLength? tie pattern (n + 1)).getD
    (exactDecimal pattern)

theorem pattern_of_closestOfLength? {tie : Tie} {pattern length : Nat} {d : Decimal}
    (h : closestOfLength? tie pattern length = some d) : d.pattern = pattern := by
  unfold closestOfLength? at h
  simp only at h
  split at h
  · rename_i hbelow habove
    have hbelow := of_decide_eq_true hbelow
    have habove := of_decide_eq_true habove
    repeat' split at h
    all_goals
      obtain rfl := Option.some.inj h
      assumption
  · rename_i hbelow _
    obtain rfl := Option.some.inj h
    exact of_decide_eq_true hbelow
  · rename_i _ habove
    obtain rfl := Option.some.inj h
    exact of_decide_eq_true habove
  · cases h

end Binary64

end ChainRegistry
