import ChainRegistry.Document.Node

/-!
# Building tables from headers and dotted keys

A TOML document is a sequence of statements that open tables and fill them.  What a later statement
may still do to a table depends on how it came to be: by its own header, on the way to a deeper
header, or by a dotted key.  A table has one header at most.  A table made by dotted keys has none
and grows by dotted keys alone.  An array of tables grows by headers, and names below it mean its
last element.  A value that has been written is closed.
-/

namespace ChainRegistry.Toml

inductive TableKind where
  | explicit
  | implied
  | dotted
  deriving DecidableEq, Repr

/-- What a key holds while the document is read.  Of an array of tables only the last one is
open. -/
inductive Item where
  | value (node : Node)
  | table (kind : TableKind) (entries : List (String × Item))
  | elements (earlier : List Node) (last : List (String × Item))
  deriving Inhabited

/-- A key with the keys that lead to it. -/
structure DottedKey where
  parents : List String
  name : String
  deriving DecidableEq, Repr

inductive Statement where
  | table (key : DottedKey)
  | element (key : DottedKey)
  | pair (key : DottedKey) (value : Node)

namespace Item

mutual

def toNode : Item → Node
  | .value node => node
  | .table _ entries => .table (toEntries entries)
  | .elements earlier last => .list (earlier ++ [.table (toEntries last)])

def toEntries : List (String × Item) → List (String × Node)
  | [] => []
  | (key, item) :: rest => (key, toNode item) :: toEntries rest

end

def alter? (key : String) (change? : Option Item → Option Item) :
    List (String × Item) → Option (List (String × Item))
  | [] => (change? none).map fun item => [(key, item)]
  | (k, item) :: rest =>
    if k = key then (change? (some item)).map fun item => (k, item) :: rest
    else (alter? key change? rest).map ((k, item) :: ·)

/-- Goes down into a table on the way to a deeper one.  Dotted keys do not enter a table that has a
header. -/
def enter? (dotted : Bool) (change? : List (String × Item) → Option (List (String × Item))) :
    Option Item → Option Item
  | none => (change? []).map (.table (if dotted then .dotted else .implied))
  | some (.table kind entries) =>
    if dotted && kind == .explicit then none else (change? entries).map (.table kind)
  | some (.elements earlier last) => (change? last).map (.elements earlier)
  | some (.value _) => none

def descend? (dotted : Bool) :
    List String → (List (String × Item) → Option (List (String × Item))) →
      List (String × Item) → Option (List (String × Item))
  | [], change?, entries => change? entries
  | key :: path, change?, entries =>
    alter? key (enter? dotted (descend? dotted path change?)) entries

/-- Opens a table by its header.  One that was implied by deeper headers moves to the end. -/
def openTable? (key : String) (entries : List (String × Item)) : Option (List (String × Item)) :=
  match entries.lookup key with
  | none => some (entries ++ [(key, .table .explicit [])])
  | some (.table .implied inner) =>
    some (entries.filter (fun entry => entry.1 != key) ++ [(key, .table .explicit inner)])
  | _ => none

def openElement? : Option Item → Option Item
  | none => some (.elements [] [])
  | some (.elements earlier last) => some (.elements (earlier ++ [.table (toEntries last)]) [])
  | _ => none

def insert? (node : Node) : Option Item → Option Item
  | none => some (.value node)
  | some _ => none

def enterDotted? (change? : List (String × Item) → Option (List (String × Item))) :
    Option Item → Option Item
  | none => (change? []).map (.table .dotted)
  | some (.table .dotted entries) => (change? entries).map (.table .dotted)
  | _ => none

/-- Files a value below the table at hand.  The table that finally receives it is either the one at
hand or one made by dotted keys. -/
def addPair? (key : DottedKey) (node : Node) (entries : List (String × Item)) :
    Option (List (String × Item)) :=
  match key.parents.getLast? with
  | none => alter? key.name (insert? node) entries
  | some parent =>
    descend? true key.parents.dropLast
      (alter? parent (enterDotted? (alter? key.name (insert? node)))) entries

end Item

/-- A document that is being read: its tables so far, and the path of the open one. -/
structure Draft where
  entries : List (String × Item)
  current : List String

def Draft.step? (draft : Draft) : Statement → Option Draft
  | .table key =>
    (Item.descend? false key.parents (Item.openTable? key.name) draft.entries).map
      fun entries => ⟨entries, key.parents ++ [key.name]⟩
  | .element key =>
    (Item.descend? false key.parents (Item.alter? key.name Item.openElement?) draft.entries).map
      fun entries => ⟨entries, key.parents ++ [key.name]⟩
  | .pair key node =>
    (Item.descend? false draft.current (Item.addPair? key node) draft.entries).map
      fun entries => { draft with entries := entries }

def tableOfStatements? (statements : List Statement) : Option Node :=
  (statements.foldlM Draft.step? ⟨[], []⟩).map fun draft => .table (Item.toEntries draft.entries)

def tableOfPairs? (pairs : List (DottedKey × Node)) : Option Node :=
  (pairs.foldlM (fun entries pair => Item.addPair? pair.1 pair.2 entries) []).map
    fun entries => .table (Item.toEntries entries)

end ChainRegistry.Toml
