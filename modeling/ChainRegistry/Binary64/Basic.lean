/-!
# Double-precision numbers

A double is either no number at all or a sign together with a magnitude.  The magnitude is the
sixty-three-bit pattern of the absolute value, read as a natural number.  Patterns grow with the
values they stand for and the last of them is infinity, so magnitudes are compared as natural
numbers.

Every finite magnitude is a whole number of units of `2^-1074`.  An operation is its exact result,
a quotient of natural numbers, followed by one rounding to the nearest pattern, in which a tie goes
to the even neighbour.
-/

namespace ChainRegistry

/-- The pattern of infinity, which is also the number of finite magnitudes. -/
abbrev infinityPattern : Nat := 0x7FF0000000000000

inductive Binary64 where
  | nan
  | signed (negative : Bool) (magnitude : Fin (infinityPattern + 1))
  deriving DecidableEq, Repr, Inhabited

namespace Binary64

/-! ## Magnitudes -/

/-- The number of patterns between two powers of two, fifty-two bits' worth. -/
abbrev binade : Nat := 0x10000000000000

def unitsInOne : Nat := Nat.pow 2 1074

/-- The value of a finite pattern, counted in units of `2^-1074`. -/
def units (pattern : Nat) : Nat :=
  if pattern < 2 * binade then pattern
  else (pattern % binade + binade) * Nat.pow 2 (pattern / binade - 1)

/-- The whole number nearest to a quotient; a tie goes to the even one. -/
def roundHalfEven (numerator denominator : Nat) : Nat :=
  let whole := numerator / denominator
  let rest := numerator % denominator
  if 2 * rest < denominator then whole
  else if denominator < 2 * rest then whole + 1
  else whole + whole % 2

/-- The pattern nearest to a quotient: the leading fifty-three bits are kept, fewer of them next to
zero, and whatever lies beyond the largest finite double is infinity. -/
def nearestPattern (numerator denominator : Nat) : Nat :=
  let shift := (numerator * unitsInOne / denominator).log2 - 52
  min (shift * binade + roundHalfEven (numerator * unitsInOne) (denominator * Nat.pow 2 shift))
    infinityPattern

theorem nearestPattern_lt (numerator denominator : Nat) :
    nearestPattern numerator denominator < infinityPattern + 1 :=
  Nat.lt_succ_of_le (Nat.min_le_right _ _)

/-! ## Numbers -/

def zero : Binary64 := signed false 0

def infinity (negative : Bool) : Binary64 := signed negative (Fin.last infinityPattern)

def ofQuotient (negative : Bool) (numerator denominator : Nat) : Binary64 :=
  signed negative ⟨nearestPattern numerator denominator, nearestPattern_lt _ _⟩

def ofNat (n : Nat) : Binary64 := ofQuotient false n 1

def ofInt (i : Int) : Binary64 := ofQuotient (decide (i < 0)) i.natAbs 1

def isFinite : Binary64 → Bool
  | nan => false
  | signed _ m => decide (m.val < infinityPattern)

/-- Division: the exact quotient rounded once.  A finite number over zero is infinite, a finite one
over infinity is zero, and `0/0` and `∞/∞` are no numbers. -/
def div : Binary64 → Binary64 → Binary64
  | signed s m, signed t k =>
    let negative := s != t
    if m.val = infinityPattern then
      if k.val = infinityPattern then nan else infinity negative
    else if k.val = infinityPattern then signed negative 0
    else if k.val = 0 then
      if m.val = 0 then nan else infinity negative
    else ofQuotient negative (units m.val) (units k.val)
  | _, _ => nan

instance : Div Binary64 := ⟨div⟩

/-- Multiplication: the exact product rounded once.  Zero times infinity is no number. -/
def mul : Binary64 → Binary64 → Binary64
  | signed s m, signed t k =>
    let negative := s != t
    if m.val = infinityPattern ∨ k.val = infinityPattern then
      if m.val = 0 ∨ k.val = 0 then nan else infinity negative
    else ofQuotient negative (units m.val * units k.val) (unitsInOne * unitsInOne)
  | _, _ => nan

instance : Mul Binary64 := ⟨mul⟩

/-! ## Order -/

/-- The place of a number among all numbers.  The two zeros share theirs, and what is no number has
none. -/
def place : Binary64 → Option Int
  | nan => none
  | signed negative m => some (if negative then -(m.val : Int) else m.val)

/-- Whether the first number is at most the second; never so where one of them is no number. -/
def le (x y : Binary64) : Bool :=
  match place x, place y with
  | some a, some b => decide (a ≤ b)
  | _, _ => false

def lt (x y : Binary64) : Bool :=
  match place x, place y with
  | some a, some b => decide (a < b)
  | _, _ => false

instance : LE Binary64 := ⟨fun x y => le x y = true⟩

instance : LT Binary64 := ⟨fun x y => lt x y = true⟩

instance (x y : Binary64) : Decidable (x ≤ y) := inferInstanceAs (Decidable (le x y = true))

instance (x y : Binary64) : Decidable (x < y) := inferInstanceAs (Decidable (lt x y = true))

/-- Equality of values: the zeros are equal, and what is no number equals nothing. -/
def sameValue (x y : Binary64) : Bool :=
  match place x, place y with
  | some a, some b => decide (a = b)
  | _, _ => false

/-! ## Conversions -/

/-- The nearest natural number, a half going up, held at a largest one.  Negative numbers and what
is no number give zero. -/
def toNatSaturating (largest : Nat) : Binary64 → Nat
  | nan => 0
  | signed true _ => 0
  | signed false m =>
    if m.val = infinityPattern then largest
    else min ((2 * units m.val + unitsInOne) / (2 * unitsInOne)) largest

/-- The sixty-four bits of the interchange format.  All that is no number shares one pattern. -/
def toBits : Binary64 → UInt64
  | nan => 0x7FF8000000000000
  | signed negative m => UInt64.ofNat (if negative then 0x8000000000000000 + m.val else m.val)

end Binary64

end ChainRegistry
