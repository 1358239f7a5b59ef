import ChainRegistry.Binary64.Decimal
import ChainRegistry.Document.Node
import ChainRegistry.Text.Numeral

/-!
# Numbers in JSON

Numbers have no leading zeros, and digits stand on both sides of a point.  A number without point
and exponent is an integer as long as it fits sixty-four bits, with a sign or without; every other
number, and minus zero, is a float.

Floats are read with words and doubles only.  The leading digits are gathered as long as a word
holds them.  Digits of the whole part that come later count as powers of ten, and from the first
digit of the fraction that does not fit the fraction is passed over.  The double nearest to the
word is then multiplied by the double of a power of ten or divided by it.  Each of these steps
rounds, so the result may miss the double nearest to the number by the last place.  A number whose
power of ten or whose product is beyond every finite double is illegible.
-/

namespace ChainRegistry.Json

/-! ## Syntax -/

def fraction? : List Char → Option (Option (List Char) × List Char)
  | '.' :: rest =>
    let digits := rest.takeWhile Char.isDigit
    if digits = [] then none else some (some digits, rest.dropWhile Char.isDigit)
  | rest => some (none, rest)

def signedExponent? (negative : Bool) (text : List Char) :
    Option (Option Int × List Char) :=
  let digits := text.takeWhile Char.isDigit
  let size := Nat.ofDigitChars 10 digits 0
  if digits = [] then none
  else some (some (if negative then -(size : Int) else size), text.dropWhile Char.isDigit)

def exponent? : List Char → Option (Option Int × List Char)
  | c :: rest =>
    if c = 'e' ∨ c = 'E' then
      match rest with
      | '-' :: rest => signedExponent? true rest
      | '+' :: rest => signedExponent? false rest
      | rest => signedExponent? false rest
    else some (none, c :: rest)
  | [] => some (none, [])

/-! ## Floats -/

/-- Appends digits to a number as long as a word holds it, and returns the digits left over. -/
def gather (n : Nat) : List Char → Nat × List Char
  | [] => (n, [])
  | c :: rest =>
    let next := Nat.ofDigitChars 10 [c] n
    if next < UInt64.size then gather next rest else (n, c :: rest)

def leadingDecimal (whole fraction : List Char) (exponent : Int) : Decimal :=
  let (n, counted) := gather 0 whole
  let (n, ignored) := gather n fraction
  ⟨n, exponent + counted.length - (fraction.length - ignored.length : Nat)⟩

/-- The largest exponent of a power of ten that is a finite double. -/
def largestPower : Nat := 308

def powerOfTen (exponent : Nat) : Binary64 :=
  .ofDecimal false ⟨1, exponent⟩

/-- Divides by the largest power of ten so many times, unless nothing is left to divide. -/
def shrink : Nat → Binary64 → Binary64
  | 0, x => x
  | times + 1, x =>
    if x.sameValue .zero then x else shrink times (x / powerOfTen largestPower)

/-- Multiplies by a power of ten; a negative exponent divides, by the largest power first and as
often as its exponent is exceeded. -/
def scale (x : Binary64) : Int → Binary64
  | .ofNat exponent => x * powerOfTen exponent
  | .negSucc e =>
    let times := e / largestPower
    shrink times x / powerOfTen (e + 1 - times * largestPower)

/-- The double of a decimal that is kept, if its power of ten and the result are finite.  Zero needs
no power of ten. -/
def float? (negative : Bool) (d : Decimal) : Option Binary64 :=
  let x := Binary64.ofQuotient negative d.digits 1
  if d.digits = 0 then some x
  else if (largestPower : Int) < d.exponent then none
  else (some (scale x d.exponent)).filter Binary64.isFinite

def floatNode (negative : Bool) (d : Decimal) : Node :=
  ((float? negative d).map Node.float).getD .illegible

/-! ## Numbers -/

def integerNode (negative : Bool) (whole : List Char) : Node :=
  let n := Nat.ofDigitChars 10 whole 0
  let float := floatNode negative (leadingDecimal whole [] 0)
  if negative then if 0 < n ∧ n ≤ Numeral.signedSize then .int (-(n : Int)) else float
  else if n < UInt64.size then .int n else float

def number? (negative : Bool) (text : List Char) : Option (Node × List Char) := do
  let whole := text.takeWhile Char.isDigit
  if whole = [] ∨ (whole.head? = some '0' ∧ whole ≠ ['0']) then none
  let (fraction, rest) ← fraction? (text.dropWhile Char.isDigit)
  let (exponent, rest) ← exponent? rest
  match fraction, exponent with
  | none, none => some (integerNode negative whole, rest)
  | fraction, exponent =>
    some (floatNode negative (leadingDecimal whole (fraction.getD []) (exponent.getD 0)), rest)

end ChainRegistry.Json
