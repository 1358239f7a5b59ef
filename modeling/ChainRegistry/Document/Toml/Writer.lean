import ChainRegistry.Binary64.Writing
import ChainRegistry.Document.Node
import ChainRegistry.Document.Toml.Quoted

/-!
# Writing TOML

A table writes its values first and then its tables, each in a block under a header, with an empty
line between blocks.  A table of nothing but tables has no header of its own.  A list of one item
stays on its line and a longer one puts each item on a line; both an integer that does not fit
sixty-four signed bits and a node without a TOML form make the whole document unwritable.  Keys are
field names and need no quotes.  Floats are positional and show a point.
-/

namespace ChainRegistry.Toml

def floatForm : FloatForm where
  tie := .upward
  isPositional _ := true
  wholeEnding := ".0".toList
  notANumber := "nan".toList
  infinity negative := if negative then "-inf".toList else "inf".toList

def scalarText? : Node → Option (List Char)
  | .bool b => some (if b then "true".toList else "false".toList)
  | .int i => if Numeral.isSigned64 i then some (Numeral.ofInt i) else none
  | .float x => some (floatForm.write x)
  | .text s => some (quote s)
  | _ => none

def listText : List (List Char) → List Char
  | [] => ['[', ']']
  | [item] => '[' :: item ++ [']']
  | items => '[' :: items.flatMap (fun item => "\n    ".toList ++ item ++ [',']) ++ ['\n', ']']

def valueText? : Node → Option (List Char)
  | .list items => (items.mapM scalarText?).map listText
  | node => scalarText? node

def isTable : Node → Bool
  | .table _ => true
  | _ => false

def pairLines? (entries : List (String × Node)) : Option (List (List Char)) :=
  (entries.filter fun entry => !isTable entry.2).mapM fun entry =>
    (valueText? entry.2).map fun text => entry.1.toList ++ " = ".toList ++ text ++ ['\n']

def headerLine (path : List String) : List Char :=
  '[' :: List.intercalate ['.'] (path.map String.toList) ++ [']', '\n']

def block? (path : List String) (entries : List (String × Node)) : Option (List (List Char)) :=
  (pairLines? entries).map fun pairs =>
    let header := if path = [] ∨ (pairs = [] ∧ entries ≠ []) then [] else [headerLine path]
    header ++ pairs

mutual

/-- The blocks of a table and of the tables in it; nothing for other nodes. -/
def blocks? (path : List String) : Node → Option (List (List Char))
  | .table entries => do
    let lines ← block? path entries
    let below ← entryBlocks? path entries
    some (if lines = [] then below else lines.flatten :: below)
  | _ => some []

def entryBlocks? (path : List String) : List (String × Node) → Option (List (List Char))
  | [] => some []
  | (key, node) :: rest => do
    let blocks ← blocks? (path ++ [key]) node
    let below ← entryBlocks? path rest
    some (blocks ++ below)

end

def print? (node : Node) : Option String :=
  if isTable node then
    (blocks? [] node).map fun blocks => String.ofList (List.intercalate ['\n'] blocks)
  else none

end ChainRegistry.Toml
