import ChainRegistry.Document.Node
import ChainRegistry.Text.Fold
import ChainRegistry.Text.Numeral

/-!
# Paths into settings

A key of a settings file, or the rest of a variable's name, may lead into nested tables and lists:
a name, then further names behind points and indices in brackets.  Names are made of ASCII letters
and digits, blanks, underscores and hyphens.  A text that is no such path is a plain name.

Putting a value at a path makes the tables and lists on the way.  Whatever else stood there gives
way.  A list grows to the index with nulls, and a negative index counts from the end of the list.
A table put at a name is laid over the table that is there, key by key; any other value takes the
place of what was there, and so does every value put at an index.  All names on the way and in
tables laid over others are put in lower case, but nothing changes inside a value that is put in
place as a whole.
-/

namespace ChainRegistry.Settings

inductive Step where
  | name (key : String)
  | index (i : Int)
  deriving DecidableEq, Repr

structure KeyPath where
  first : Step
  rest : List Step
  deriving DecidableEq, Repr

/-! ## Reading -/

def isNameChar (c : Char) : Bool :=
  c.isAlphanum || c == ' ' || c == '_' || c == '-'

def isGap (c : Char) : Bool :=
  c == ' ' || c == '\t'

/-- An index between brackets, of which the first has been read. -/
def index? (text : List Char) : Option (Int × List Char) :=
  let text := text.dropWhile isGap
  let (negative, text) := match text with
    | '-' :: rest => (true, rest)
    | rest => (false, rest)
  match Numeral.natOfDigits? (text.takeWhile Char.isDigit),
    (text.dropWhile Char.isDigit).dropWhile isGap with
  | some n, ']' :: rest =>
    let i : Int := if negative then -(n : Int) else n
    if Numeral.isSigned64 i then some (i, rest) else none
  | _, _ => none

/-- The steps behind a first name.  Every step takes a character at least, so as many rounds as
there are characters suffice. -/
def steps? : Nat → List Char → Option (List Step)
  | _, [] => some []
  | 0, _ => none
  | rounds + 1, '.' :: text =>
    let name := text.takeWhile isNameChar
    if name = [] then none
    else (steps? rounds (text.dropWhile isNameChar)).map (.name (String.ofList name) :: ·)
  | rounds + 1, '[' :: text => do
    let (i, text) ← index? text
    let steps ← steps? rounds text
    some (.index i :: steps)
  | _, _ => none

def KeyPath.parse? (text : String) : Option KeyPath :=
  let name := text.toList.takeWhile isNameChar
  let rest := text.toList.dropWhile isNameChar
  if name = [] then none
  else (steps? rest.length rest).map (KeyPath.mk (.name (String.ofList name)))

def KeyPath.ofText (text : String) : KeyPath :=
  (KeyPath.parse? text).getD ⟨.name text, []⟩

/-! ## Changing a tree -/

def entriesOf : Node → List (String × Node)
  | .table entries => entries
  | _ => []

def itemsOf : Node → List Node
  | .list items => items
  | _ => []

/-- Changes the value under a key in its place, or files a new one at the end. -/
def alter (key : String) (change : Option Node → Node) :
    List (String × Node) → List (String × Node)
  | [] => [(key, change none)]
  | (k, node) :: rest =>
    if k = key then (k, change (some node)) :: rest else (k, node) :: alter key change rest

mutual

def overlay (there : Option Node) : Node → Node
  | .table entries => overlayEntries (there.getD (.table [])) entries
  | node => node

def overlayEntries (there : Node) : List (String × Node) → Node
  | [] => there
  | (key, node) :: rest =>
    overlayEntries
      (.table (alter (Text.fold key) (fun old => overlay old node) (entriesOf there))) rest

end

/-- The place that an index means in a list of so many items, if it is not in front of the list. -/
def position? (length : Nat) (i : Int) : Option Nat :=
  if 0 ≤ i then some i.toNat
  else if i.natAbs ≤ length then some (length - i.natAbs)
  else none

/-- Changes the item at an index; the list grows to it with nulls. -/
def alterItem (i : Int) (change : Node → Node) (items : List Node) : List Node :=
  match position? items.length i with
  | some n =>
    let grown := items ++ List.replicate (n + 1 - items.length) .null
    grown.modify n change
  | none => items

def put (value : Node) : Step → List Step → Node → Node
  | .name key, [], node =>
    .table (alter (Text.fold key) (fun old => overlay old value) (entriesOf node))
  | .name key, step :: steps, node =>
    .table
      (alter (Text.fold key) (fun old => put value step steps (old.getD .null)) (entriesOf node))
  | .index i, [], node => .list (alterItem i (fun _ => value) (itemsOf node))
  | .index i, step :: steps, node => .list (alterItem i (put value step steps) (itemsOf node))

def putAt (path : KeyPath) (value : Node) (node : Node) : Node :=
  put value path.first path.rest node

def putEntries (entries : List (String × Node)) (node : Node) : Node :=
  entries.foldl (fun node entry => putAt (KeyPath.ofText entry.1) entry.2 node) node

end ChainRegistry.Settings
