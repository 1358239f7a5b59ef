import ChainRegistry.Document.Node

/-!
# Dates in TOML

A date, a time of day or both, with an offset from the zero meridian where both stand, are checked
against the calendar and kept as text in one normal form: a `T` between the date and the time, at
most nine digits of a second and no zero at their end, `Z` for the zero meridian.

A date is written bare.  In a document that is read as data alone, without a record in view, a
table whose first key is reserved for the purpose stands for a date too, with the same text quoted
as its value.
-/

namespace ChainRegistry.Toml

/-! ## Parts of a date -/

def twoDigits? : List Char → Option (Nat × List Char)
  | a :: b :: rest =>
    if a.isDigit && b.isDigit then some (Nat.ofDigitChars 10 [a, b] 0, rest) else none
  | _ => none

def isLeapYear (year : Nat) : Bool :=
  year % 4 == 0 && (year % 100 != 0 || year % 400 == 0)

def daysInMonth (year month : Nat) : Nat :=
  if month = 2 then if isLeapYear year then 29 else 28
  else if month = 4 ∨ month = 6 ∨ month = 9 ∨ month = 11 then 30
  else 31

def padded (n : Nat) : List Char :=
  [Nat.digitChar (n / 10 % 10), Nat.digitChar (n % 10)]

def dropFinalZeros (digits : List Char) : List Char :=
  (digits.reverse.dropWhile (· == '0')).reverse

/-- A day of the calendar whose year has been read. -/
def dayAfterYear? (year : List Char) (text : List Char) : Option (List Char × List Char) := do
  let (month, rest) ← twoDigits? text
  let '-' :: rest := rest | none
  let (day, rest) ← twoDigits? rest
  let last := daysInMonth (Nat.ofDigitChars 10 year 0) month
  if month = 0 ∨ 12 < month ∨ day = 0 ∨ last < day then none
  some (year ++ '-' :: padded month ++ '-' :: padded day, rest)

/-- A time of day; the sixty-first second is allowed. -/
def time? (text : List Char) : Option (List Char × List Char) := do
  let (hour, rest) ← twoDigits? text
  let ':' :: rest := rest | none
  let (minute, rest) ← twoDigits? rest
  let ':' :: rest := rest | none
  let (second, rest) ← twoDigits? rest
  if 23 < hour ∨ 59 < minute ∨ 60 < second then none
  let whole := padded hour ++ ':' :: padded minute ++ ':' :: padded second
  match rest with
  | '.' :: behind =>
    let digits := behind.takeWhile Char.isDigit
    if digits = [] then some (whole, rest)
    else
      let kept := dropFinalZeros (digits.take 9)
      some (whole ++ (if kept = [] then [] else '.' :: kept), behind.dropWhile Char.isDigit)
  | rest => some (whole, rest)

/-- The distance from the zero meridian, if one is given. -/
def offset? : List Char → Option (List Char × List Char)
  | c :: rest =>
    if c = 'Z' ∨ c = 'z' then some (['Z'], rest)
    else if c = '+' ∨ c = '-' then do
      let (hour, rest) ← twoDigits? rest
      let ':' :: rest := rest | none
      let (minute, rest) ← twoDigits? rest
      if 23 < hour ∨ 59 < minute then none
      let sign := if hour = 0 ∧ minute = 0 then '+' else c
      some (sign :: padded hour ++ ':' :: padded minute, rest)
    else some ([], c :: rest)
  | [] => some ([], [])

def isTimeMark (c : Char) : Bool :=
  c == 'T' || c == 't' || c == ' '

/-! ## Bare dates -/

/-- What follows a day: the time of day and its offset, if they are there. -/
def afterDay? (day : List Char) : List Char → Option (List Char × List Char)
  | c :: behind =>
    if isTimeMark c then
      match time? behind with
      | some (time, rest) => (offset? rest).map fun (offset, rest) =>
        (day ++ 'T' :: time ++ offset, rest)
      | none => some (day, c :: behind)
    else some (day, c :: behind)
  | [] => some (day, [])

/-- A text that begins like a date or a time of day is one or is refused. -/
def date? (text : List Char) : Option (Option (List Char × List Char)) :=
  match text with
  | a :: b :: c :: d :: '-' :: rest =>
    if [a, b, c, d].all Char.isDigit then
      some ((dayAfterYear? [a, b, c, d] rest).bind fun (day, rest) => afterDay? day rest)
    else none
  | a :: b :: ':' :: _ =>
    if a.isDigit && b.isDigit then some (time? text) else none
  | _ => none

/-! ## Quoted dates -/

def quotedDate? (text : List Char) : Option (List Char) :=
  match date? text with
  | some (some (date, [])) => some date
  | _ => none

def dateKey : String := "$__toml_private_datetime"

mutual

/-- Puts dates for the tables that stand for them; such a table without a date is refused, and
whatever follows the date in it is passed over. -/
def withDates? : Node → Option Node
  | .list items => (itemsWithDates? items).map .list
  | .table [] => some (.table [])
  | .table ((key, node) :: rest) =>
    if key = dateKey then
      match node with
      | .text s => (quotedDate? s.toList).map fun date => .date (String.ofList date)
      | _ => none
    else do
      let node ← withDates? node
      let rest ← entriesWithDates? rest
      some (.table ((key, node) :: rest))
  | node => some node

def itemsWithDates? : List Node → Option (List Node)
  | [] => some []
  | item :: items => do
    let item ← withDates? item
    let items ← itemsWithDates? items
    some (item :: items)

def entriesWithDates? : List (String × Node) → Option (List (String × Node))
  | [] => some []
  | (key, node) :: rest => do
    let node ← withDates? node
    let rest ← entriesWithDates? rest
    some ((key, node) :: rest)

end

end ChainRegistry.Toml
