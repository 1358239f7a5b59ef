import ChainRegistry.Document.Scalar
import ChainRegistry.Proofs.SealedSections
import ChainRegistry.Proofs.Trees

/-!
# Leaves of a record

The leaves of a record are the numbers, fractions and texts that it is made of, each found at a path
of names.  A tree says something about a leaf if it has a node at the path; a null says nothing
where a null is allowed.  What the tree says about all leaves decides how it is read, provided that
it has the form of objects: every record in it is a table without repeated keys.

The decision is proved once for each way to build a codec.  A record follows its leaves if every
field follows its own and no field touches the leaves of another one.
-/

namespace ChainRegistry

inductive LeafValue where
  | number (n : Nat)
  | fraction (x : Binary64)
  | text (s : String)
  | texts (ss : List String)
  deriving DecidableEq

/-- What a leaf can hold; numbers lie below a size. -/
inductive LeafKind where
  | number (size : Nat)
  | fraction
  | text
  | texts
  deriving DecidableEq

/-- The node that is written for a value. -/
def LeafValue.node : LeafValue → Node
  | .number n => .int n
  | .fraction x => .float x
  | .text s => .text s
  | .texts ss => .list (ss.map .text)

/-- The value that a node is read as. -/
def LeafKind.read? (kind : LeafKind) (origin : Origin) (node : Node) : Option LeafValue :=
  match kind with
  | .number size => (Scalar.natural? origin size node).map .number
  | .fraction => (Scalar.fraction? origin node).map .fraction
  | .text => (Scalar.text? origin node).map .text
  | .texts => (Scalar.texts? origin node).map .texts

/-- The value that a node of a document stands for, where only a fraction has two spellings: a whole
number stands for the double nearest to it. -/
inductive LeafKind.Denotes : LeafKind → Node → LeafValue → Prop where
  | number {size n : Nat} (h : n < size) : Denotes (.number size) (.int n) (.number n)
  | fraction (x : Binary64) : Denotes .fraction (.float x) (.fraction x)
  | whole (i : Int) : Denotes .fraction (.int i) (.fraction (.ofInt i))
  | text (s : String) : Denotes .text (.text s) (.text s)
  | texts (ss : List String) : Denotes .texts (.list (ss.map .text)) (.texts ss)

structure Leaf (ρ : Type) where
  path : List String
  kind : LeafKind
  nullable : Bool
  get : ρ → LeafValue

namespace Leaf

variable {α ρ : Type}

/-- A leaf of a part is a leaf of the whole, below the name of the part. -/
def under (name : String) (part : ρ → α) (leaf : Leaf α) : Leaf ρ where
  path := name :: leaf.path
  kind := leaf.kind
  nullable := leaf.nullable
  get r := leaf.get (part r)

def orNull (leaf : Leaf ρ) : Leaf ρ :=
  { leaf with nullable := true }

def word64 : Leaf UInt64 := ⟨[], .number UInt64.size, false, fun n => .number n.toNat⟩

def word32 : Leaf UInt32 := ⟨[], .number UInt32.size, false, fun n => .number n.toNat⟩

def word16 : Leaf UInt16 := ⟨[], .number UInt16.size, false, fun n => .number n.toNat⟩

def fraction : Leaf Binary64 := ⟨[], .fraction, false, .fraction⟩

def text : Leaf String := ⟨[], .text, false, .text⟩

/-- What a tree says about a leaf. -/
def given? (leaf : Leaf ρ) (tree : Node) : Option Node :=
  (tree.at? leaf.path).filter fun node => !(leaf.nullable && node.isNull)

/-- The value of a leaf after a tree is read over a reference value; none if the tree gives the leaf
something that cannot be read. -/
def outcome? (leaf : Leaf ρ) (reference : ρ) (origin : Origin) (tree : Node) :
    Option LeafValue :=
  match leaf.given? tree with
  | some node => leaf.kind.read? origin node
  | none => some (leaf.get reference)

theorem outcome?_of_null {leaf : Leaf ρ} (hnullable : leaf.nullable = true) {tree : Node}
    (hat : tree.at? leaf.path = some .null) {reference : ρ} {origin : Origin} :
    leaf.outcome? reference origin tree = some (leaf.get reference) := by
  have hgiven : leaf.given? tree = none := by
    simp [given?, hat, hnullable, Node.isNull, Option.filter]
  simp [outcome?, hgiven]

theorem given?_of_not_null {leaf : Leaf ρ} {tree node : Node}
    (hat : tree.at? leaf.path = some node) (hnull : node.isNull = false) :
    leaf.given? tree = some node := by
  simp [given?, hat, hnull, Option.filter]

theorem outcome?_of_not_null {leaf : Leaf ρ} {tree node : Node}
    (hat : tree.at? leaf.path = some node) (hnull : node.isNull = false) {reference : ρ}
    {origin : Origin} :
    leaf.outcome? reference origin tree = leaf.kind.read? origin node := by
  simp [outcome?, given?_of_not_null hat hnull]

theorem given?_under {leaf : Leaf α} {name : String} {part : ρ → α}
    {entries : List (String × Node)} {node : Node}
    (hnode : Node.find? name entries = some node) :
    (leaf.under name part).given? (.table entries) = leaf.given? node := by
  simp only [given?, under, Node.at?, hnode, Option.bind_some]

theorem outcome?_under {leaf : Leaf α} {name : String} {part : ρ → α} {reference : ρ}
    {origin : Origin} {entries : List (String × Node)} {node : Node}
    (hnode : Node.find? name entries = some node) :
    (leaf.under name part).outcome? reference origin (.table entries) =
      leaf.outcome? (part reference) origin node := by
  simp only [outcome?, given?, under, Node.at?, hnode, Option.bind_some]

theorem outcome?_of_absent {leaf : Leaf ρ} {name : String} {path : List String}
    (hpath : leaf.path = name :: path) {reference : ρ} {origin : Origin}
    {entries : List (String × Node)} (habsent : Node.find? name entries = none) :
    leaf.outcome? reference origin (.table entries) = some (leaf.get reference) := by
  simp [outcome?, given?, hpath, Node.at?, habsent]

end Leaf

section Forms

variable {α ρ : Type}

/-- Every node above a leaf is an object. -/
def InObjectForm (leaves : List (Leaf ρ)) (tree : Node) : Prop :=
  ∀ leaf ∈ leaves, ∀ path, path <+: leaf.path → path ≠ leaf.path →
    ∀ node, tree.at? path = some node → node.IsObject

theorem InObjectForm.below {leaves : List (Leaf α)} {name : String} {part : ρ → α}
    {entries : List (String × Node)} {node : Node}
    (hform : InObjectForm (leaves.map (Leaf.under name part)) (.table entries))
    (hnode : Node.find? name entries = some node) : InObjectForm leaves node := by
  intro leaf hleaf path hprefix hproper inner hinner
  refine hform (leaf.under name part) (List.mem_map_of_mem hleaf) (name :: path) ?_ ?_ inner ?_
  · exact (List.prefix_cons_inj name).mpr hprefix
  · intro heq
    exact hproper (List.cons.inj heq).2
  · simpa [Node.at?, hnode] using hinner

theorem InObjectForm.of_subset {leaves leaves' : List (Leaf ρ)} {tree : Node}
    (hform : InObjectForm leaves tree) (hsubset : ∀ leaf ∈ leaves', leaf ∈ leaves) :
    InObjectForm leaves' tree :=
  fun leaf hleaf => hform leaf (hsubset leaf hleaf)

/-- A change that takes objects to objects, wherever they stand, keeps the form of a tree that has
all leaves. -/
theorem InObjectForm.change {leaves : List (Leaf ρ)} {tree other : Node}
    (hform : InObjectForm leaves tree) (hshown : ∀ leaf ∈ leaves, (tree.at? leaf.path).isSome)
    {change : Node → Node} (hobject : ∀ node, node.IsObject → (change node).IsObject)
    (hat : ∀ path node, tree.at? path = some node → other.at? path = some (change node)) :
    InObjectForm leaves other := by
  intro leaf hleaf path hprefix hproper node hnode
  have hsome : (tree.at? path).isSome := by
    obtain ⟨below, hbelow⟩ := hprefix
    have hleaf' := hshown leaf hleaf
    rw [← hbelow, Node.at?_append] at hleaf'
    exact Option.isSome_of_isSome_bind hleaf'
  obtain ⟨before, hbefore⟩ := Option.isSome_iff_exists.mp hsome
  obtain rfl : change before = node := Option.some.inj ((hat path before hbefore).symm.trans hnode)
  exact hobject before (hform leaf hleaf path hprefix hproper before hbefore)

/-- The result of reading a tree is what its leaves say, and there is none exactly if one of them
cannot be read. -/
def DecidedByLeaves (leaves : List (Leaf ρ)) (reference : ρ) (origin : Origin) (tree : Node) :
    Option ρ → Prop
  | some r => ∀ leaf ∈ leaves, leaf.outcome? reference origin tree = some (leaf.get r)
  | none => ∃ leaf ∈ leaves, leaf.outcome? reference origin tree = none

def Codec.Follows (codec : Codec ρ) (leaves : List (Leaf ρ)) (reference : ρ) : Prop :=
  ∀ origin tree, InObjectForm leaves tree →
    DecidedByLeaves leaves reference origin tree (codec.read? origin tree)

/-- What is read holds, in every leaf, what the tree gives for it, in whatever form the rest of the
tree is. -/
def Codec.Heeds (codec : Codec ρ) (leaves : List (Leaf ρ)) : Prop :=
  ∀ origin tree r, codec.read? origin tree = some r → ∀ leaf ∈ leaves, ∀ node,
    leaf.given? tree = some node → leaf.kind.read? origin node = some (leaf.get r)

/-- Trees that are written are tidy, and every leaf stands at its path, with a value of its kind. -/
structure Codec.Shows (codec : Codec ρ) (leaves : List (Leaf ρ)) : Prop where
  tidy : ∀ r, (codec.write r).IsTidy
  shown : ∀ r, ∀ leaf ∈ leaves, (codec.write r).at? leaf.path = some (leaf.get r).node
  typed : ∀ r, ∀ leaf ∈ leaves, leaf.kind.Denotes (leaf.get r).node (leaf.get r)

theorem Codec.Shows.form {codec : Codec ρ} {leaves : List (Leaf ρ)} (hshows : codec.Shows leaves)
    (r : ρ) : InObjectForm leaves (codec.write r) := by
  rintro leaf hleaf path ⟨rest, hrest⟩ hproper node hnode
  have hshown := hshows.shown r leaf hleaf
  cases rest with
  | nil => exact absurd (by simpa using hrest) hproper
  | cons key below =>
      rw [← hrest] at hshown
      exact (hshows.tidy r).isObject hnode hshown

/-- Nothing is written beside the leaves, and no table stands deeper than they do. -/
structure Codec.Spans (codec : Codec ρ) (leaves : List (Leaf ρ)) : Prop where
  complete : ∀ r, ∀ value ∈ (codec.write r).values, ∃ leaf ∈ leaves, value = (leaf.get r).node
  depth_le : ∀ r levels, (∀ leaf ∈ leaves, leaf.path.length ≤ levels) →
    (codec.write r).depth ≤ levels

end Forms

end ChainRegistry
