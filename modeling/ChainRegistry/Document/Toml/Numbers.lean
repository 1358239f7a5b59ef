import ChainRegistry.Binary64.Reading
import ChainRegistry.Document.Toml.Dates
import ChainRegistry.Text.Hex

/-!
# Numbers in TOML

An integer is decimal with an optional sign and no leading zero, or hexadecimal, octal or binary
behind a mark and without a sign; it fits sixty-four signed bits.  A float has a fraction or an
exponent, with digits on both sides of the point.  Single underscores may stand between digits.  A
float too large for a double is refused unless it is negative.
-/

namespace ChainRegistry.Toml

/-! ## Digits -/

def moreDigits? (isDigit : Char → Bool) : List Char → Option (List Char × List Char)
  | [] => some ([], [])
  | '_' :: c :: rest =>
    if isDigit c then
      (moreDigits? isDigit rest).map fun (digits, rest) => (c :: digits, rest)
    else none
  | c :: rest =>
    if isDigit c then
      (moreDigits? isDigit rest).map fun (digits, rest) => (c :: digits, rest)
    else if c = '_' then none
    else some ([], c :: rest)

/-- One digit or more, with single underscores between them. -/
def digits? (isDigit : Char → Bool) : List Char → Option (List Char × List Char)
  | c :: rest =>
    if isDigit c then
      (moreDigits? isDigit rest).map fun (digits, rest) => (c :: digits, rest)
    else none
  | [] => none

/-! ## Numbers -/

def integerNode? (negative : Bool) (n : Nat) : Option Node :=
  let i : Int := if negative then -(n : Int) else n
  if Numeral.isSigned64 i then some (.int i) else none

def inBase? (base : Nat) (isDigit : Char → Bool) (text : List Char) :
    Option (Node × List Char) := do
  let (digits, rest) ← digits? isDigit text
  let n := digits.foldl (fun sum c => base * sum + (Hex.value? c).getD 0) 0
  let node ← integerNode? false n
  some (node, rest)

def exponent? (text : List Char) : Option (Int × List Char) := do
  let (negative, text) := match text with
    | '-' :: rest => (true, rest)
    | '+' :: rest => (false, rest)
    | rest => (false, rest)
  let (digits, rest) ← digits? Char.isDigit text
  let size := Nat.ofDigitChars 10 digits 0
  some (if negative then -(size : Int) else size, rest)

def floatNode? (negative : Bool) (d : Decimal) : Option Node :=
  let x := Binary64.ofDecimal negative d
  if x = .infinity false then none else some (.float x)

def afterFraction? (negative : Bool) (whole fraction : List Char) :
    List Char → Option (Node × List Char)
  | c :: rest =>
    if c = 'e' ∨ c = 'E' then do
      let (exponent, rest) ← exponent? rest
      let node ← floatNode? negative (Decimal.ofParts whole fraction exponent)
      some (node, rest)
    else (floatNode? negative (Decimal.ofParts whole fraction 0)).map fun node => (node, c :: rest)
  | [] => (floatNode? negative (Decimal.ofParts whole fraction 0)).map fun node => (node, [])

def afterWhole? (negative : Bool) (whole : List Char) :
    List Char → Option (Node × List Char)
  | '.' :: rest => do
    let (fraction, rest) ← digits? Char.isDigit rest
    afterFraction? negative whole fraction rest
  | c :: rest =>
    if c = 'e' ∨ c = 'E' then afterFraction? negative whole [] (c :: rest)
    else (integerNode? negative (Nat.ofDigitChars 10 whole 0)).map fun node => (node, c :: rest)
  | [] => (integerNode? negative (Nat.ofDigitChars 10 whole 0)).map fun node => (node, [])

def decimal? (negative : Bool) : List Char → Option (Node × List Char)
  | 'i' :: 'n' :: 'f' :: rest => some (.float (.infinity negative), rest)
  | 'n' :: 'a' :: 'n' :: rest => some (.float .nan, rest)
  | '0' :: rest => afterWhole? negative ['0'] rest
  | text => do
    let (whole, rest) ← digits? Char.isDigit text
    afterWhole? negative whole rest

def isOctalDigit (c : Char) : Bool := decide ('0' ≤ c) && decide (c ≤ '7')

def isBinaryDigit (c : Char) : Bool := c == '0' || c == '1'

def number? (text : List Char) : Option (Node × List Char) :=
  match date? text with
  | some read? => read?.map fun (date, rest) => (.date (String.ofList date), rest)
  | none =>
    match text with
    | '0' :: 'x' :: rest => inBase? 16 (fun c => (Hex.value? c).isSome) rest
    | '0' :: 'o' :: rest => inBase? 8 isOctalDigit rest
    | '0' :: 'b' :: rest => inBase? 2 isBinaryDigit rest
    | '-' :: rest => decimal? true rest
    | '+' :: rest => decimal? false rest
    | rest => decimal? false rest

end ChainRegistry.Toml
