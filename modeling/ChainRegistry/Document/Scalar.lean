import ChainRegistry.Binary64.Reading
import ChainRegistry.Binary64.Writing
import ChainRegistry.Category
import ChainRegistry.Document.Record
import ChainRegistry.Text.Fold

/-!
# Scalars in documents

A JSON or TOML document is read strictly: a whole number is an integer in the range of its field, a
fraction is a float or an integer, texts and flags are only themselves.  Settings come in part from
places where everything is text, so there a scalar is read for what it says: a number may be written
as text or as a word for yes or no, and a text may be given as a number, whose plain form is taken.
-/

namespace ChainRegistry

namespace Scalar

/-- What a word says that answers yes or no. -/
def answer? (text : String) : Option Bool :=
  let word := Text.fold text
  if word = "true" ∨ word = "on" ∨ word = "yes" then some true
  else if word = "false" ∨ word = "off" ∨ word = "no" then some false
  else none

/-- A natural number in sixty-four bits, as settings give it: a float is rounded, a half going up,
and held within the range. -/
def naturalInSettings? : Node → Option Nat
  | .int i => if 0 ≤ i then some i.toNat else none
  | .bool b => some b.toNat
  | .float x => some (x.toNatSaturating (UInt64.size - 1))
  | .text s =>
    match answer? s with
    | some b => some b.toNat
    | none => Numeral.natOfText? s.toList
  | _ => none

def natural? (origin : Origin) (size : Nat) (node : Node) : Option Nat :=
  let value := match origin, node with
    | .settings, node => naturalInSettings? node
    | _, .int i => if 0 ≤ i then some i.toNat else none
    | _, _ => none
  value.filter fun n => decide (n < size)

def fractionInSettings? : Node → Option Binary64
  | .float x => some x
  | .int i => some (Binary64.ofInt i)
  | .bool b => some (Binary64.ofNat b.toNat)
  | .text s =>
    match answer? s with
    | some b => some (Binary64.ofNat b.toNat)
    | none => Binary64.ofText? s.toList
  | _ => none

def fraction? (origin : Origin) (node : Node) : Option Binary64 :=
  match origin, node with
  | .settings, node => fractionInSettings? node
  | _, .float x => some x
  | _, .int i => some (Binary64.ofInt i)
  | _, _ => none

def textInSettings? : Node → Option String
  | .text s => some s
  | .bool b => some (if b then "true" else "false")
  | .int i => some (String.ofList (Numeral.ofInt i))
  | .float x => some (String.ofList (FloatForm.plain.write x))
  | _ => none

def text? (origin : Origin) (node : Node) : Option String :=
  match origin, node with
  | .settings, node => textInSettings? node
  | _, .text s => some s
  | _, _ => none

def texts? (origin : Origin) : Node → Option (List String)
  | .list items => items.mapM (text? origin)
  | _ => none

/-- An amount written as a decimal numeral, for readers whose integers are too narrow. -/
def amount? : Node → Option UInt64
  | .text s =>
    ((Numeral.natOfText? s.toList).filter fun n => decide (n < UInt64.size)).map UInt64.ofNat
  | _ => none

end Scalar

namespace Codec

def word64 : Codec UInt64 where
  write n := .int n.toNat
  read? origin node := (Scalar.natural? origin UInt64.size node).map UInt64.ofNat

def word32 : Codec UInt32 where
  write n := .int n.toNat
  read? origin node := (Scalar.natural? origin UInt32.size node).map UInt32.ofNat

def word16 : Codec UInt16 where
  write n := .int n.toNat
  read? origin node := (Scalar.natural? origin UInt16.size node).map UInt16.ofNat

def amount : Codec UInt64 where
  write n := .text (String.ofList (Numeral.ofNat n.toNat))
  read? _ node := Scalar.amount? node

def fraction : Codec Binary64 where
  write := .float
  read? := Scalar.fraction?

def flag : Codec Bool where
  write := .bool
  read?
    | _, .bool b => some b
    | _, _ => none

def text : Codec String where
  write := .text
  read? := Scalar.text?

/-- A member of a category is exchanged as its key. -/
def category {α : Type} [Category α] : Codec α where
  write a := .text (Category.key a)
  read?
    | _, .text s => Category.ofKey? s
    | _, _ => none

def texts : Codec (List String) where
  write ss := .list (ss.map .text)
  read? := Scalar.texts?

end Codec

end ChainRegistry
