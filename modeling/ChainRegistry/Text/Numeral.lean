/-!
# Whole numbers in decimal digits

Reading takes ASCII digits only, at least one of them, with any number of leading zeros.  A natural
number may carry one plus sign and an integer one sign of either kind; blanks, underscores and
points are refused.  Writing uses no sign but the minus and no leading zero.
-/

namespace ChainRegistry.Numeral

def natOfDigits? (digits : List Char) : Option Nat :=
  if digits ≠ [] ∧ digits.all Char.isDigit then some (Nat.ofDigitChars 10 digits 0) else none

def natOfText? : List Char → Option Nat
  | '+' :: digits => natOfDigits? digits
  | digits => natOfDigits? digits

def intOfText? : List Char → Option Int
  | '-' :: digits => (natOfDigits? digits).map fun n => -(n : Int)
  | '+' :: digits => (natOfDigits? digits).map Int.ofNat
  | digits => (natOfDigits? digits).map Int.ofNat

/-- The number of integers below zero, and of those from zero on, in sixty-four signed bits. -/
def signedSize : Nat := 0x8000000000000000

def isSigned64 (i : Int) : Bool :=
  decide (-(signedSize : Int) ≤ i) && decide (i < (signedSize : Int))

def ofNat (n : Nat) : List Char :=
  Nat.toDigits 10 n

def ofInt (i : Int) : List Char :=
  if i < 0 then '-' :: ofNat i.natAbs else ofNat i.natAbs

theorem ofNat_ne_nil (n : Nat) : ofNat n ≠ [] :=
  Nat.toDigits_ne_nil

theorem natOfDigits?_ofNat (n : Nat) : natOfDigits? (ofNat n) = some n := by
  have hdigits : (ofNat n).all Char.isDigit = true := by
    rw [List.all_eq_true]
    intro c hc
    exact Nat.isDigit_of_mem_toDigits (by decide) (by decide) hc
  have hvalue : Nat.ofDigitChars 10 (ofNat n) 0 = n :=
    Nat.ofDigitChars_toDigits (by decide) (by decide)
  simp [natOfDigits?, ofNat_ne_nil, hdigits, hvalue]

end ChainRegistry.Numeral
