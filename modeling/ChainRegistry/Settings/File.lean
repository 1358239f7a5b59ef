import ChainRegistry.Registry.Form
import ChainRegistry.Settings.FileTree
import ChainRegistry.Settings.KeyPath

/-!
# Settings files

A settings file is written in one of six formats, which are told apart by extensions.  A path that
leads to a file is taken as it is, and its extension has to be known.  Any other path is tried with
each known extension added to its last step, format after format in an order that nothing fixes.

A settings file holds one table.  How TOML and JSON are read is spelled out.  In a JSON file every
value has to be legible and values nest less than a hundred and twenty-eight levels deep.  The texts
of the other formats are left to readers that are given from outside, of which nothing is assumed.
What a file says is brought into the form of settings: the last of several equal keys counts, dates
are texts, and integers that do not fit sixty-four signed bits are floats.  The keys of the
outermost table are paths.  They are followed in the order in which the file or its reader lists
them, and that order stands for any other, since nothing fixes it.
-/

namespace ChainRegistry.Settings

/-! ## Formats -/

inductive FileFormat where
  | toml
  | json
  | yaml
  | ini
  | ron
  | json5
  deriving DecidableEq, Repr

namespace FileFormat

def all : List FileFormat := [toml, json, yaml, ini, ron, json5]

def extensions : FileFormat → List String
  | toml => ["toml"]
  | json => ["json"]
  | yaml => ["yaml", "yml"]
  | ini => ["ini"]
  | ron => ["ron"]
  | json5 => ["json5"]

end FileFormat

/-- How the formats beside TOML and JSON are read, and the order in which formats are tried where a
path names none. -/
structure Readers where
  yaml? : String → Option (List (String × Node))
  ini? : String → Option (List (String × Node))
  ron? : String → Option (List (String × Node))
  json5? : String → Option (List (String × Node))
  order : List FileFormat

/-- No format is read beside TOML and JSON. -/
def Readers.builtIn : Readers where
  yaml? _ := none
  ini? _ := none
  ron? _ := none
  json5? _ := none
  order := FileFormat.all

/-! ## Finding the file -/

def extension? (name : List Char) : Option (List Char) :=
  let stem := (name.reverse.dropWhile (· != '.')).drop 1
  if stem = [] then none else some (name.reverse.takeWhile (· != '.')).reverse

def formatOfExtension? (extension : List Char) : Option FileFormat :=
  FileFormat.all.find? fun format => format.extensions.any fun known => known.toList == extension

def formatOfPath? (path : String) : Option FileFormat :=
  ((pathSteps path).getLast?.bind extension?).bind formatOfExtension?

/-- The path without the empty steps and points at its end, if a name is last then. -/
def named? (path : String) : Option String :=
  let steps := ((pathSteps path).reverse.dropWhile fun step => step == [] || step == ['.']).reverse
  match steps.getLast? with
  | none => none
  | some last =>
    if last = ['.', '.'] then none else some (String.ofList (List.intercalate ['/'] steps))

/-- The paths that are tried for a path that leads to no file. -/
def candidates (order : List FileFormat) (path : String) : List (String × FileFormat) :=
  match named? path with
  | none => []
  | some name => order.flatMap fun format =>
    format.extensions.map fun extension => (name ++ "." ++ extension, format)

/-- The text of the file that a path leads to, and its format. -/
def findFile? (order : List FileFormat) (read? : String → Option String) (path : String) :
    Option (String × FileFormat) :=
  match read? path with
  | some text => (formatOfPath? path).map fun format => (text, format)
  | none => (candidates order path).findSome? fun (path, format) =>
    (read? path).map fun text => (text, format)

/-! ## Reading the file -/

mutual

/-- Whether a tree is legible and its lists and tables nest at most so many levels deep. -/
def isLegible (levels : Nat) : Node → Bool
  | .illegible => false
  | .list items => levels != 0 && areLegible (levels - 1) items
  | .table entries => levels != 0 && haveLegible (levels - 1) entries
  | _ => true

def areLegible (levels : Nat) : List Node → Bool
  | [] => true
  | item :: items => isLegible levels item && areLegible levels items

def haveLegible (levels : Nat) : List (String × Node) → Bool
  | [] => true
  | (_, node) :: entries => isLegible levels node && haveLegible levels entries

end

mutual

def normal : Node → Node
  | .int i => if i < (Numeral.signedSize : Int) then .int i else .float (Binary64.ofInt i)
  | .date s => .text s
  | .list items => .list (normalItems items)
  | .table entries => .table (normalEntries [] entries)
  | node => node

def normalItems : List Node → List Node
  | [] => []
  | item :: items => normal item :: normalItems items

def normalEntries (done : List (String × Node)) : List (String × Node) → List (String × Node)
  | [] => done
  | (key, node) :: entries =>
    normalEntries (alter key (fun _ => normal node) done) entries

end

def tableEntries? : Node → Option (List (String × Node))
  | .table entries => some entries
  | _ => none

def parseFile? (readers : Readers) (text : String) :
    FileFormat → Option (List (String × Node))
  | .toml => ((Toml.parse? text).bind Toml.withDates?).bind tableEntries?
  | .json => ((Json.parse? text).filter (isLegible 127)).bind tableEntries?
  | .yaml => readers.yaml? text
  | .ini => readers.ini? text
  | .ron => readers.ron? text
  | .json5 => readers.json5? text

def putFile (entries : List (String × Node)) (node : Node) : Node :=
  putEntries (normalEntries [] entries) node

end ChainRegistry.Settings
