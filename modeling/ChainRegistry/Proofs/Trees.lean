import ChainRegistry.Document.Node

/-!
# Paths and induction in document trees

A tree is taken apart at its lists and tables; everything else is a scalar.  Below a table a path
follows the first entry of each name.
-/

namespace ChainRegistry.Node

/-- The node at a path of names. -/
def at? : List String → Node → Option Node
  | [], node => some node
  | key :: path, .table entries => (find? key entries).bind (at? path)
  | _ :: _, _ => none

def isNull : Node → Bool
  | .null => true
  | _ => false

theorem eq_null_of_isNull {node : Node} (h : node.isNull = true) : node = .null := by
  cases node with
  | null => rfl
  | _ => contradiction

/-- A table in which no key stands twice. -/
def IsObject : Node → Prop
  | .table entries => (entries.map Prod.fst).Nodup
  | _ => False

def isScalar : Node → Bool
  | .list _ => false
  | .table _ => false
  | _ => true

/-- What holds of scalars, and of a list or table if it holds of everything in it, holds of all
trees. -/
theorem induct {motive : Node → Prop} (scalar : ∀ node, node.isScalar = true → motive node)
    (list : ∀ items, (∀ item ∈ items, motive item) → motive (.list items))
    (table : ∀ entries, (∀ entry ∈ entries, motive entry.2) → motive (.table entries)) :
    ∀ node, motive node :=
  @Node.rec motive (fun items => ∀ item ∈ items, motive item)
    (fun entries => ∀ entry ∈ entries, motive entry.2) (fun entry => motive entry.2)
    (scalar _ rfl) (fun _ => scalar _ rfl) (fun _ => scalar _ rfl) (fun _ => scalar _ rfl)
    (fun _ => scalar _ rfl) (fun _ => scalar _ rfl) list table (scalar _ rfl)
    (fun _ hitem => nomatch hitem)
    (fun _ _ hhead htail => List.forall_mem_cons.mpr ⟨hhead, htail⟩)
    (fun _ hentry => nomatch hentry)
    (fun _ _ hhead htail => List.forall_mem_cons.mpr ⟨hhead, htail⟩)
    (fun _ _ hnode => hnode)

/-- A key that is written without quotes in every format. -/
def isName (key : String) : Bool :=
  !key.toList.isEmpty && key.toList.all fun c => c.isAlphanum || c == '_'

/-- Every table is an object whose keys are names. -/
inductive IsTidy : Node → Prop where
  | value {node : Node} (hvalue : ∀ entries, node ≠ .table entries) : IsTidy node
  | table {entries : List (String × Node)} (hnodup : (entries.map Prod.fst).Nodup)
    (hnames : ∀ entry ∈ entries, isName entry.1 = true)
    (hentries : ∀ entry ∈ entries, IsTidy entry.2) : IsTidy (.table entries)

theorem IsTidy.of_isScalar {node : Node} (hscalar : node.isScalar = true) : node.IsTidy := by
  apply IsTidy.value
  intro entries
  rintro rfl
  contradiction

mutual

/-- Everything in a tree that is no table, in order. -/
def values : Node → List Node
  | .table entries => entryValues entries
  | node => [node]

def entryValues : List (String × Node) → List Node
  | [] => []
  | (_, node) :: entries => values node ++ entryValues entries

end

mutual

/-- How many tables stand in one another. -/
def depth : Node → Nat
  | .table entries => entryDepth entries + 1
  | _ => 0

def entryDepth : List (String × Node) → Nat
  | [] => 0
  | (_, node) :: entries => max (depth node) (entryDepth entries)

end

mutual

/-- The keys of all tables, as far as they stand in tables themselves. -/
def keys : Node → List String
  | .table entries => entryKeys entries
  | _ => []

def entryKeys : List (String × Node) → List String
  | [] => []
  | (key, node) :: entries => key :: keys node ++ entryKeys entries

end

theorem values_of_isScalar {node : Node} (hscalar : node.isScalar = true) :
    node.values = [node] := by
  cases node <;> first | rfl | contradiction

theorem depth_of_isScalar {node : Node} (hscalar : node.isScalar = true) : node.depth = 0 := by
  cases node <;> first | rfl | contradiction

theorem find?_map (change : Node → Node) (key : String) (entries : List (String × Node)) :
    find? key (entries.map fun entry => (entry.1, change entry.2)) =
      (find? key entries).map change := by
  induction entries with
  | nil => rfl
  | cons entry entries ih =>
      obtain ⟨k, node⟩ := entry
      simp only [find?, List.map_cons, List.lookup_cons] at ih ⊢
      cases key == k with
      | true => rfl
      | false => exact ih

theorem mem_of_find? {entries : List (String × Node)} {key : String} {node : Node}
    (hfind : find? key entries = some node) : (key, node) ∈ entries := by
  obtain ⟨before, after, rfl, -⟩ := List.lookup_eq_some_iff.mp hfind
  simp

/-- Where no key stands twice, a value is found if it is there. -/
theorem lookup_eq_some_iff_mem {κ α : Type} [BEq κ] [LawfulBEq κ] {entries : List (κ × α)}
    (hnodup : (entries.map Prod.fst).Nodup) {key : κ} {value : α} :
    entries.lookup key = some value ↔ (key, value) ∈ entries := by
  constructor
  · intro hlookup
    obtain ⟨before, after, rfl, -⟩ := List.lookup_eq_some_iff.mp hlookup
    simp
  · intro hmem
    induction entries with
    | nil => cases hmem
    | cons entry entries ih =>
        obtain ⟨k, other⟩ := entry
        rw [List.map_cons, List.nodup_cons] at hnodup
        rcases List.mem_cons.mp hmem with hhead | htail
        · obtain ⟨rfl, rfl⟩ := Prod.mk.inj hhead
          exact List.lookup_cons_self
        · have hne : (key == k) = false := by
            rw [beq_eq_false_iff_ne]
            rintro rfl
            exact hnodup.1 (List.mem_map.mpr ⟨_, htail, rfl⟩)
          simpa [List.lookup_cons, hne] using ih hnodup.2 htail

theorem find?_eq_some_iff {entries : List (String × Node)} (hnodup : (entries.map Prod.fst).Nodup)
    {key : String} {node : Node} : find? key entries = some node ↔ (key, node) ∈ entries :=
  lookup_eq_some_iff_mem hnodup

theorem at?_append (path path' : List String) (tree : Node) :
    tree.at? (path ++ path') = (tree.at? path).bind (at? path') := by
  induction path generalizing tree with
  | nil => rfl
  | cons key path ih =>
      cases tree with
      | table entries =>
          simp only [List.cons_append, at?]
          cases find? key entries with
          | none => rfl
          | some node => exact ih node
      | _ => rfl

theorem IsTidy.entries {entries : List (String × Node)} (h : (Node.table entries).IsTidy) :
    (entries.map Prod.fst).Nodup ∧ ∀ entry ∈ entries, entry.2.IsTidy := by
  cases h with
  | value hvalue => exact absurd rfl (hvalue entries)
  | table hnodup _ hentries => exact ⟨hnodup, hentries⟩

theorem IsTidy.at? {tree : Node} (htidy : tree.IsTidy) {path : List String} {node : Node}
    (hat : tree.at? path = some node) : node.IsTidy := by
  induction path generalizing tree with
  | nil =>
      obtain rfl := Option.some.inj hat
      exact htidy
  | cons key path ih =>
      cases tree with
      | table entries =>
          obtain ⟨hnodup, hentries⟩ := htidy.entries
          obtain ⟨inner, hfind, hinner⟩ := Option.bind_eq_some_iff.mp hat
          exact ih (hentries _ ((find?_eq_some_iff hnodup).mp hfind)) hinner
      | _ => cases hat

theorem IsTidy.isObject {tree : Node} (htidy : tree.IsTidy) {path : List String} {key : String}
    {below : List String} {node inner : Node} (hnode : tree.at? path = some node)
    (hinner : tree.at? (path ++ key :: below) = some inner) : node.IsObject := by
  rw [at?_append, hnode, Option.bind_some] at hinner
  cases node with
  | table entries => exact (htidy.at? hnode).entries.1
  | _ => cases hinner

theorem mem_entryValues {value : Node} {entries : List (String × Node)} :
    value ∈ entryValues entries ↔ ∃ entry ∈ entries, value ∈ entry.2.values := by
  induction entries with
  | nil => simp [entryValues]
  | cons entry entries ih => simp [entryValues, ih]

theorem mem_values_of_at? {tree node : Node} {path : List String} (hat : tree.at? path = some node)
    (hnode : node.values = [node]) : node ∈ tree.values := by
  induction path generalizing tree with
  | nil =>
      obtain rfl := Option.some.inj hat
      simp [hnode]
  | cons key path ih =>
      cases tree with
      | table entries =>
          obtain ⟨inner, hfind, hinner⟩ := Option.bind_eq_some_iff.mp hat
          rw [values, mem_entryValues]
          exact ⟨(key, inner), mem_of_find? hfind, ih hinner⟩
      | _ => cases hat

theorem forall_mem_entryKeys {p : String → Prop} {entries : List (String × Node)} :
    (∀ key ∈ entryKeys entries, p key) ↔
      ∀ entry ∈ entries, p entry.1 ∧ ∀ key ∈ entry.2.keys, p key := by
  induction entries with
  | nil => simp [entryKeys]
  | cons entry entries ih =>
      rw [entryKeys, List.forall_mem_append, List.forall_mem_cons, List.forall_mem_cons, ih]

theorem entryDepth_le {entries : List (String × Node)} {levels : Nat} :
    entryDepth entries ≤ levels ↔ ∀ entry ∈ entries, entry.2.depth ≤ levels := by
  induction entries with
  | nil => simp [entryDepth]
  | cons entry entries ih => simp only [entryDepth, Nat.max_le, ih, List.forall_mem_cons]

end ChainRegistry.Node
