import ChainRegistry.Document.Node

/-!
# Records and their fields

A record type is described once, by the list of its fields in declaration order, and the same list
serves to write a record and to read one.  A record is written as a table of all its fields.  It is
read over a starting record: a table names the fields it changes, in any order and beside keys that
mean nothing; a list gives them by position and may stop early.  What is not mentioned keeps its
starting value.  A type whose values must be given in full is read by `readWhole`, which in addition
wants every field mentioned.

The three origins differ at the edges.  JSON refuses a known key that is repeated and a list that is
too long, whereas surplus items are passed over elsewhere; and in TOML a date is a table without any
known key.
-/

namespace ChainRegistry

/-- Where the nodes at hand were written. -/
inductive Origin where
  | json
  | toml
  | settings
  deriving DecidableEq, Repr

/-- The document form of a type.  Reading tells only whether a node is accepted. -/
structure Codec (α : Type) where
  write : α → Node
  read? : Origin → Node → Option α

/-- One field of a record: what is written for it, and how a node changes it. -/
structure Field (ρ : Type) where
  name : String
  write : ρ → Node
  update? : Origin → Node → ρ → Option ρ

namespace Field

variable {α ρ : Type}

def of (name : String) (codec : Codec α) (get : ρ → α) (set : ρ → α → ρ) : Field ρ where
  name := name
  write r := codec.write (get r)
  update? origin node r := (codec.read? origin node).map (set r)

/-- The field for which a null leaves the record as it was. -/
def nullable (field : Field ρ) : Field ρ :=
  { field with
    update? := fun origin node r =>
      match node with
      | .null => some r
      | node => field.update? origin node r }

end Field

namespace Record

variable {ρ : Type}

def write (fields : List (Field ρ)) (r : ρ) : Node :=
  .table (fields.map fun field => (field.name, field.write r))

def readEntries? (origin : Origin) (entries : List (String × Node)) :
    List (Field ρ) → ρ → Option ρ
  | [], r => some r
  | field :: fields, r =>
    match entries.filter fun entry => entry.1 == field.name with
    | [] => readEntries? origin entries fields r
    | [entry] => (field.update? origin entry.2 r).bind (readEntries? origin entries fields)
    | _ => none

def readItems? (origin : Origin) : List Node → List (Field ρ) → ρ → Option ρ
  | [], _, r => some r
  | _ :: _, [], r => if origin = .json then none else some r
  | item :: items, field :: fields, r =>
    (field.update? origin item r).bind (readItems? origin items fields)

def readOver? (fields : List (Field ρ)) (start : ρ) (origin : Origin) : Node → Option ρ
  | .table entries => readEntries? origin entries fields start
  | .list items => readItems? origin items fields start
  | .date _ => if origin = .toml then some start else none
  | _ => none

def mentionsAll (fields : List (Field ρ)) : Node → Bool
  | .table entries => fields.all fun field => entries.any fun entry => entry.1 == field.name
  | .list items => decide (fields.length ≤ items.length)
  | _ => false

def readWhole? (fields : List (Field ρ)) (start : ρ) (origin : Origin) (node : Node) : Option ρ :=
  if mentionsAll fields node then readOver? fields start origin node else none

end Record

namespace Codec

variable {ρ : Type}

/-- The form of a record whose missing fields are taken from a reference value. -/
def record (fields : List (Field ρ)) (reference : ρ) : Codec ρ where
  write := Record.write fields
  read? := Record.readOver? fields reference

/-- The form of a record that is always given in full. -/
def whole (fields : List (Field ρ)) (blank : ρ) : Codec ρ where
  write := Record.write fields
  read? := Record.readWhole? fields blank

end Codec

end ChainRegistry
