import ChainRegistry.Binary64.Reading
import ChainRegistry.Settings.KeyPath
import ChainRegistry.Text.Fold

/-!
# Variables of the environment

A variable changes a setting if its name, in lower case, begins with `aln__`.  Each double
underscore in the rest of the name leads one level down.  The value is read as a truth value, an
integer or a float if it can be, and is a text otherwise.

The variables are laid over each other in the order in which they are listed.  Nothing fixes this
order, since variables are gathered in a hash map: the listed order stands for whatever order they
come in, and what is said of every environment is said of every order.
-/

namespace ChainRegistry.Settings

abbrev Environment := List (String × String)

def variableMark : String := "ALN"

def variableSeparator : String := "__"

def dropStart? : List Char → List Char → Option (List Char)
  | [], text => some text
  | c :: start, d :: text => if c = d then dropStart? start text else none
  | _ :: _, [] => none

/-- Puts a point for each separator, from left to right. -/
def pointed : List Char → List Char
  | '_' :: '_' :: rest => '.' :: pointed rest
  | c :: rest => c :: pointed rest
  | [] => []

/-- The key that a variable's name stands for. -/
def keyOfName? (name : String) : Option String :=
  let start := (Text.fold (variableMark ++ variableSeparator)).toList
  (dropStart? start (Text.fold name).toList).map fun rest => String.ofList (pointed rest)

def valueOfText (text : String) : Node :=
  let word := Text.fold text
  if word = "true" then .bool true
  else if word = "false" then .bool false
  else
    match (Numeral.intOfText? text.toList).filter Numeral.isSigned64 with
    | some i => .int i
    | none =>
      match Binary64.ofText? text.toList with
      | some x => .float x
      | none => .text text

def putVariable (node : Node) (entry : String × String) : Node :=
  match keyOfName? entry.1 with
  | some key => putAt (KeyPath.ofText key) (valueOfText entry.2) node
  | none => node

def putEnvironment (environment : Environment) (node : Node) : Node :=
  environment.foldl putVariable node

end ChainRegistry.Settings
