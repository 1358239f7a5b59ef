import ChainRegistry.Binary64.Decimal
import ChainRegistry.Text.Numeral

/-!
# Written forms of doubles

A format decides where positional notation ends, whether a whole number shows a point, which of two
equally close decimals is written and how the values without digits are spelled.  Everything else
is common: the shortest decimal, its point, and an exponent with its sign where the format asks for
one.
-/

namespace ChainRegistry

/-- The choices of one format.  The position of the point counts the digits in front of it and is
negative where zeros follow the point. -/
structure FloatForm where
  tie : Binary64.Tie
  isPositional : Int → Bool
  wholeEnding : List Char
  notANumber : List Char
  infinity : Bool → List Char

namespace FloatForm

def positionalText (form : FloatForm) (digits : List Char) (exponent : Int) : List Char :=
  let point := (digits.length : Int) + exponent
  if 0 ≤ exponent then digits ++ List.replicate exponent.toNat '0' ++ form.wholeEnding
  else if 0 < point then digits.take point.toNat ++ '.' :: digits.drop point.toNat
  else '0' :: '.' :: (List.replicate (-point).toNat '0' ++ digits)

def signedText (i : Int) : List Char :=
  if i < 0 then Numeral.ofInt i else '+' :: Numeral.ofInt i

def exponentText (digits : List Char) (exponent : Int) : List Char :=
  let power := signedText ((digits.length : Int) + exponent - 1)
  match digits with
  | [] => []
  | [d] => d :: 'e' :: power
  | d :: rest => d :: '.' :: (rest ++ 'e' :: power)

def writeDecimal (form : FloatForm) (d : Decimal) : List Char :=
  let digits := Numeral.ofNat d.digits
  if form.isPositional ((digits.length : Int) + d.exponent) then
    positionalText form digits d.exponent
  else exponentText digits d.exponent

def write (form : FloatForm) : Binary64 → List Char
  | .nan => form.notANumber
  | .signed negative m =>
    if m.val = infinityPattern then form.infinity negative
    else
      let text := form.writeDecimal (Binary64.shortest form.tie m.val)
      if negative then '-' :: text else text

/-- Running text: never an exponent, and a whole number is written as one. -/
def plain : FloatForm where
  tie := .upward
  isPositional _ := true
  wholeEnding := []
  notANumber := "NaN".toList
  infinity negative := if negative then "-inf".toList else "inf".toList

end FloatForm

end ChainRegistry
