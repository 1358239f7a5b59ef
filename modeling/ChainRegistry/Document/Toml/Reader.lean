import ChainRegistry.Document.Toml.Numbers
import ChainRegistry.Document.Toml.Quoted
import ChainRegistry.Document.Toml.Tables

/-!
# Reading TOML

A document is a sequence of lines, each of them empty, a header or a pair, with an optional comment.
Lists may run over lines and end in a comma; inline tables may not.  Lists and inline tables nest
less than eighty levels deep, and a dotted key has fewer than eighty parts.  A byte-order mark may
open the document.

Reading values descends by an allowance that is twice the length of the text, and reading lines by
one more than that length, so neither runs out.
-/

namespace ChainRegistry.Toml

def isBlank (c : Char) : Bool :=
  c == ' ' || c == '\t'

def skipBlanks (text : List Char) : List Char :=
  text.dropWhile isBlank

def skipComment : List Char → List Char
  | '#' :: rest => rest.dropWhile isPlain
  | rest => rest

/-- The rest of a line that holds nothing more than blanks and a comment. -/
def lineEnd? (text : List Char) : Option (List Char) :=
  match skipComment (skipBlanks text) with
  | [] => some []
  | '\n' :: rest => some rest
  | '\r' :: '\n' :: rest => some rest
  | _ => none

/-- Skips blanks, line ends and comments between the items of a list. -/
def skipLayout : Bool → List Char → List Char
  | _, [] => []
  | _, '\n' :: rest => skipLayout false rest
  | _, '\r' :: '\n' :: rest => skipLayout false rest
  | true, c :: rest => if isPlain c then skipLayout true rest else c :: rest
  | false, c :: rest =>
    if isBlank c then skipLayout false rest
    else if c = '#' then skipLayout true rest
    else c :: rest

/-! ## Keys -/

def isBareKeyChar (c : Char) : Bool :=
  c.isAlphanum || c == '_' || c == '-'

def simpleKey? : List Char → Option (String × List Char)
  | '"' :: rest => (basic? rest).map fun (key, rest) => (String.ofList key, rest)
  | '\x27' :: rest => (literal? rest).map fun (key, rest) => (String.ofList key, rest)
  | text =>
    let key := text.takeWhile isBareKeyChar
    if key = [] then none else some (String.ofList key, text.dropWhile isBareKeyChar)

def keyParts? : Nat → List Char → Option (List String × String × List Char)
  | 0, _ => none
  | allowance + 1, text => do
    let (part, rest) ← simpleKey? (skipBlanks text)
    match skipBlanks rest with
    | '.' :: rest =>
      let (parents, name, rest) ← keyParts? allowance rest
      some (part :: parents, name, rest)
    | rest => some ([], part, rest)

/-- The number of parts at which a dotted key, and of levels at which a value, is refused. -/
def deepest : Nat := 80

def key? (text : List Char) : Option (DottedKey × List Char) := do
  let (parents, name, rest) ← keyParts? (text.length + 1) text
  if deepest ≤ parents.length + 1 then none else some (⟨parents, name⟩, rest)

/-! ## Values -/

mutual

def value? : Nat → Nat → List Char → Option (Node × List Char)
  | 0, _, _ => none
  | allowance + 1, levels, text =>
    match text with
    | '"' :: _ => (string? text).map fun (s, rest) => (.text (String.ofList s), rest)
    | '\x27' :: _ => (string? text).map fun (s, rest) => (.text (String.ofList s), rest)
    | 't' :: 'r' :: 'u' :: 'e' :: rest => some (.bool true, rest)
    | 'f' :: 'a' :: 'l' :: 's' :: 'e' :: rest => some (.bool false, rest)
    | '[' :: rest =>
      match levels with
      | 0 => none
      | levels + 1 =>
        match skipLayout false rest with
        | ']' :: rest => some (.list [], rest)
        | rest => (items? allowance levels rest).map fun (items, rest) => (.list items, rest)
    | '{' :: rest =>
      match levels with
      | 0 => none
      | levels + 1 =>
        match skipBlanks rest with
        | '}' :: rest => some (.table [], rest)
        | rest => do
          let (pairs, rest) ← pairs? allowance levels rest
          let node ← tableOfPairs? pairs
          some (node, rest)
    | rest => number? rest

def items? : Nat → Nat → List Char → Option (List Node × List Char)
  | 0, _, _ => none
  | allowance + 1, levels, text => do
    let (item, rest) ← value? allowance levels text
    match skipLayout false rest with
    | ']' :: rest => some ([item], rest)
    | ',' :: rest =>
      match skipLayout false rest with
      | ']' :: rest => some ([item], rest)
      | rest =>
        let (items, rest) ← items? allowance levels rest
        some (item :: items, rest)
    | _ => none

def pairs? : Nat → Nat → List Char → Option (List (DottedKey × Node) × List Char)
  | 0, _, _ => none
  | allowance + 1, levels, text => do
    let (key, rest) ← key? text
    let '=' :: rest := rest | none
    let (node, rest) ← value? allowance levels (skipBlanks rest)
    match skipBlanks rest with
    | '}' :: rest => some ([(key, node)], rest)
    | ',' :: rest =>
      let (pairs, rest) ← pairs? allowance levels rest
      some ((key, node) :: pairs, rest)
    | _ => none

end

/-! ## Documents -/

def pair? (text : List Char) : Option (Statement × List Char) := do
  let (key, rest) ← key? text
  let '=' :: rest := rest | none
  let (node, rest) ← value? (2 * rest.length + 2) (deepest - 1) (skipBlanks rest)
  let rest ← lineEnd? rest
  some (.pair key node, rest)

def header? (text : List Char) : Option (Statement × List Char) := do
  match text with
  | '[' :: rest =>
    let (key, rest) ← key? rest
    let ']' :: ']' :: rest := rest | none
    let rest ← lineEnd? rest
    some (.element key, rest)
  | rest =>
    let (key, rest) ← key? rest
    let ']' :: rest := rest | none
    let rest ← lineEnd? rest
    some (.table key, rest)

def statements? : Nat → List Char → Option (List Statement)
  | 0, _ => none
  | lines + 1, text =>
    match skipBlanks text with
    | [] => some []
    | '\n' :: rest => statements? lines rest
    | '\r' :: '\n' :: rest => statements? lines rest
    | '#' :: rest => (lineEnd? ('#' :: rest)).bind (statements? lines)
    | '[' :: rest => do
      let (statement, rest) ← header? rest
      let statements ← statements? lines rest
      some (statement :: statements)
    | text => do
      let (statement, rest) ← pair? text
      let statements ← statements? lines rest
      some (statement :: statements)

def dropMark : List Char → List Char
  | '\ufeff' :: rest => rest
  | rest => rest

def parse? (text : String) : Option Node := do
  let chars := dropMark text.toList
  let statements ← statements? (chars.length + 1) chars
  tableOfStatements? statements

end ChainRegistry.Toml
