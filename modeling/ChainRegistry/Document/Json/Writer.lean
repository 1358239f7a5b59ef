import ChainRegistry.Binary64.Writing
import ChainRegistry.Document.Json.Quoted
import ChainRegistry.Document.Node

/-!
# Writing JSON

A document is written either on one line without blanks or spread over lines, two blanks deeper per
level, with a blank after the colon of an entry; an empty list or table stays closed in both.
Floats have the fewest digits that read back.  They always show a point or an exponent, the latter
from `10 ^ 16` on and below `10 ^ -5`; what is no number and the infinities are null.
-/

namespace ChainRegistry.Json

def floatForm : FloatForm where
  tie := .toEven
  isPositional point := decide (-5 < point) && decide (point ≤ 16)
  wholeEnding := ".0".toList
  notANumber := "null".toList
  infinity _ := "null".toList

inductive Layout where
  | compact
  | spread
  deriving DecidableEq, Repr

def Layout.lineBreak (layout : Layout) (depth : Nat) : List Char :=
  match layout with
  | .compact => []
  | .spread => '\n' :: List.replicate (2 * depth) ' '

def Layout.colon : Layout → List Char
  | .compact => [':']
  | .spread => [':', ' ']

mutual

def write (layout : Layout) (depth : Nat) : Node → List Char
  | .null => "null".toList
  | .bool b => if b then "true".toList else "false".toList
  | .int i => Numeral.ofInt i
  | .float x => floatForm.write x
  | .text s => quote s
  | .date s => quote s
  | .list [] => ['[', ']']
  | .list (item :: items) =>
    '[' :: layout.lineBreak (depth + 1) ++ write layout (depth + 1) item
      ++ writeItems layout (depth + 1) items ++ layout.lineBreak depth ++ [']']
  | .table [] => ['{', '}']
  | .table ((key, node) :: entries) =>
    '{' :: layout.lineBreak (depth + 1) ++ quote key ++ layout.colon
      ++ write layout (depth + 1) node ++ writeEntries layout (depth + 1) entries
      ++ layout.lineBreak depth ++ ['}']
  | .illegible => "null".toList

def writeItems (layout : Layout) (depth : Nat) : List Node → List Char
  | [] => []
  | item :: items =>
    ',' :: layout.lineBreak depth ++ write layout depth item ++ writeItems layout depth items

def writeEntries (layout : Layout) (depth : Nat) : List (String × Node) → List Char
  | [] => []
  | (key, node) :: entries =>
    ',' :: layout.lineBreak depth ++ quote key ++ layout.colon ++ write layout depth node
      ++ writeEntries layout depth entries

end

def print (layout : Layout) (node : Node) : String :=
  String.ofList (write layout 0 node)

end ChainRegistry.Json
