import ChainRegistry.Document.Json.Numbers
import ChainRegistry.Document.Json.Quoted

/-!
# Reading JSON

The grammar is the usual one: blanks between tokens are space, tab, line feed and carriage return,
and nothing but blanks may follow the value.  A string with half a surrogate pair and a table with
such a string for a key are illegible.

Reading descends by an allowance that is twice the length of the text and so never runs out: between
two characters it goes down at most two levels.
-/

namespace ChainRegistry.Json

def isBlank (c : Char) : Bool :=
  c == ' ' || c == '\n' || c == '\r' || c == '\t'

def skipBlanks (text : List Char) : List Char :=
  text.dropWhile isBlank

/-! ## Values -/

def tableNode (entries : List (Option String × Node)) : Node :=
  match entries.mapM fun entry => entry.1.map fun key => (key, entry.2) with
  | some entries => .table entries
  | none => .illegible

mutual

def value? : Nat → List Char → Option (Node × List Char)
  | 0, _ => none
  | allowance + 1, text =>
    match skipBlanks text with
    | 'n' :: 'u' :: 'l' :: 'l' :: rest => some (.null, rest)
    | 't' :: 'r' :: 'u' :: 'e' :: rest => some (.bool true, rest)
    | 'f' :: 'a' :: 'l' :: 's' :: 'e' :: rest => some (.bool false, rest)
    | '"' :: rest => (pieces? rest).map fun (pieces, rest) =>
      (((join? pieces).map Node.text).getD .illegible, rest)
    | '[' :: rest =>
      match skipBlanks rest with
      | ']' :: rest => some (.list [], rest)
      | rest => (items? allowance rest).map fun (items, rest) => (.list items, rest)
    | '{' :: rest =>
      match skipBlanks rest with
      | '}' :: rest => some (.table [], rest)
      | rest => (entries? allowance rest).map fun (entries, rest) => (tableNode entries, rest)
    | '-' :: rest => number? true rest
    | rest => number? false rest

def items? : Nat → List Char → Option (List Node × List Char)
  | 0, _ => none
  | allowance + 1, text => do
    let (item, rest) ← value? allowance text
    match skipBlanks rest with
    | ',' :: rest =>
      let (items, rest) ← items? allowance rest
      some (item :: items, rest)
    | ']' :: rest => some ([item], rest)
    | _ => none

def entries? : Nat → List Char → Option (List (Option String × Node) × List Char)
  | 0, _ => none
  | allowance + 1, text =>
    match skipBlanks text with
    | '"' :: rest => do
      let (pieces, rest) ← pieces? rest
      match skipBlanks rest with
      | ':' :: rest =>
        let (node, rest) ← value? allowance rest
        match skipBlanks rest with
        | ',' :: rest =>
          let (entries, rest) ← entries? allowance rest
          some ((join? pieces, node) :: entries, rest)
        | '}' :: rest => some ([(join? pieces, node)], rest)
        | _ => none
      | _ => none
    | _ => none

end

def parse? (text : String) : Option Node := do
  let chars := text.toList
  let (node, rest) ← value? (2 * chars.length + 2) chars
  if skipBlanks rest = [] then some node else none

end ChainRegistry.Json
