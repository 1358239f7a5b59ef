import ChainRegistry.Binary64.Decimal
import ChainRegistry.Text.Numeral

/-!
# Doubles read from running text

A sign may come first.  Then stands `inf`, `infinity` or `nan` in any case, or a decimal number:
digits with at most one point among or beside them and at most one exponent, at least one digit in
front of the exponent and one in it.  Every decimal number has a double, since one that is too
large for a finite double is infinite.
-/

namespace ChainRegistry

def Decimal.ofParts (whole fraction : List Char) (exponent : Int) : Decimal :=
  ⟨Nat.ofDigitChars 10 (whole ++ fraction) 0, exponent - fraction.length⟩

namespace Binary64

def exponentOfText? : List Char → Option Int
  | [] => some 0
  | c :: rest => if c = 'e' ∨ c = 'E' then Numeral.intOfText? rest else none

def decimalOfText? (text : List Char) : Option Decimal :=
  let whole := text.takeWhile Char.isDigit
  match text.dropWhile Char.isDigit with
  | '.' :: rest =>
    let fraction := rest.takeWhile Char.isDigit
    if whole = [] ∧ fraction = [] then none
    else (exponentOfText? (rest.dropWhile Char.isDigit)).map (Decimal.ofParts whole fraction)
  | rest =>
    if whole = [] then none else (exponentOfText? rest).map (Decimal.ofParts whole [])

def unsignedOfText? (negative : Bool) (text : List Char) : Option Binary64 :=
  let word := String.ofList (text.map Char.toLower)
  if word = "nan" then some nan
  else if word = "inf" ∨ word = "infinity" then some (infinity negative)
  else (decimalOfText? text).map (ofDecimal negative)

def ofText? : List Char → Option Binary64
  | '-' :: text => unsignedOfText? true text
  | '+' :: text => unsignedOfText? false text
  | text => unsignedOfText? false text

end Binary64

end ChainRegistry
