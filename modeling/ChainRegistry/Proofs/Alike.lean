import ChainRegistry.Proofs.Trees

/-!
# Trees that say the same

One tree may be written in several ways, with the entries of its tables in another order and, where
a format has no other way, with values of another kind.  Two trees are alike up to a relation on
scalars if their lists agree item by item and their tables key by key.  What is asked of every node
of a tree is a test, so that it can be evaluated.
-/

namespace ChainRegistry.Node

/-! ## What holds everywhere -/

mutual

/-- Whether every node in a tree passes a test, the tree itself included. -/
def everywhere (test : Node → Bool) : Node → Bool
  | .list items => test (.list items) && everywhereIn test items
  | .table entries => test (.table entries) && everywhereUnder test entries
  | node => test node

def everywhereIn (test : Node → Bool) : List Node → Bool
  | [] => true
  | item :: items => everywhere test item && everywhereIn test items

def everywhereUnder (test : Node → Bool) : List (String × Node) → Bool
  | [] => true
  | (_, node) :: entries => everywhere test node && everywhereUnder test entries

end

variable {test : Node → Bool}

theorem everywhere_list {items : List Node} :
    (list items).everywhere test = true ↔
      test (.list items) = true ∧ ∀ item ∈ items, item.everywhere test = true := by
  have hitems : everywhereIn test items = true ↔ ∀ item ∈ items, item.everywhere test = true := by
    induction items with
    | nil => simp [everywhereIn]
    | cons item items ih => rw [everywhereIn, Bool.and_eq_true, ih, List.forall_mem_cons]
  rw [everywhere, Bool.and_eq_true, hitems]

theorem everywhere_table {entries : List (String × Node)} :
    (table entries).everywhere test = true ↔
      test (.table entries) = true ∧ ∀ entry ∈ entries, entry.2.everywhere test = true := by
  have hentries : everywhereUnder test entries = true ↔
      ∀ entry ∈ entries, entry.2.everywhere test = true := by
    induction entries with
    | nil => simp [everywhereUnder]
    | cons entry entries ih => rw [everywhereUnder, Bool.and_eq_true, ih, List.forall_mem_cons]
  rw [everywhere, Bool.and_eq_true, hentries]

theorem everywhere_of_isScalar {node : Node} (hscalar : node.isScalar = true) :
    node.everywhere test = test node := by
  cases node <;> first | rfl | contradiction

/-! ## Alike -/

inductive Alike (same : Node → Node → Prop) : Node → Node → Prop where
  | scalar {node other : Node} (hnode : node.isScalar = true) (hother : other.isScalar = true)
    (hsame : same node other) : Alike same node other
  | list {items others : List Node} (hlength : items.length = others.length)
    (hitems : ∀ (i : Nat) (node other : Node), items[i]? = some node → others[i]? = some other →
      Alike same node other) :
    Alike same (.list items) (.list others)
  | table {entries others : List (String × Node)} (hnodup : (entries.map Prod.fst).Nodup)
    (hnodup' : (others.map Prod.fst).Nodup)
    (hkeys : ∀ key, (find? key entries).isSome = (find? key others).isSome)
    (hentries : ∀ (key : String) (node other : Node), find? key entries = some node →
      find? key others = some other → Alike same node other) :
    Alike same (.table entries) (.table others)

variable {same same' : Node → Node → Prop} {node other : Node}

theorem Alike.mono (hmono : ∀ node other, same node other → same' node other)
    (h : Alike same node other) : Alike same' node other := by
  induction h with
  | scalar hnode hother hsame => exact .scalar hnode hother (hmono _ _ hsame)
  | list hlength _ ih => exact .list hlength ih
  | table hnodup hnodup' hkeys _ ih => exact .table hnodup hnodup' hkeys ih

theorem Alike.symm (hsymm : ∀ node other, same node other → same' other node)
    (h : Alike same node other) : Alike same' other node := by
  induction h with
  | scalar hnode hother hsame => exact .scalar hother hnode (hsymm _ _ hsame)
  | list hlength _ ih =>
      exact .list hlength.symm fun i node other hnode hother => ih i other node hother hnode
  | table hnodup hnodup' hkeys _ ih =>
      exact .table hnodup' hnodup (fun key => (hkeys key).symm)
        fun key node other hnode hother => ih key other node hother hnode

/-- No key stands twice in a table. -/
def hasOwnKeys : Node → Bool
  | .table entries => decide (entries.map Prod.fst).Nodup
  | _ => true

theorem alike_self (hnode : node.everywhere test = true)
    (hkeys : ∀ node, test node = true → node.hasOwnKeys = true)
    (hsame : ∀ node, test node = true → same node node) : Alike same node node := by
  induction node using induct with
  | scalar node hscalar =>
      rw [everywhere_of_isScalar hscalar] at hnode
      exact .scalar hscalar hscalar (hsame node hnode)
  | list items ih =>
      refine .list rfl fun i node other hitem hother => ?_
      obtain rfl : node = other := Option.some.inj (hitem.symm.trans hother)
      have hmem : node ∈ items := List.mem_of_getElem? hitem
      exact ih node hmem ((everywhere_list.mp hnode).2 node hmem)
  | table entries ih =>
      obtain ⟨htable, hentries⟩ := everywhere_table.mp hnode
      have hnodup : (entries.map Prod.fst).Nodup := of_decide_eq_true (hkeys _ htable)
      refine .table hnodup hnodup (fun _ => rfl) fun key node other hfind hother => ?_
      obtain rfl : node = other := Option.some.inj (hfind.symm.trans hother)
      exact ih (key, node) (mem_of_find? hfind) (hentries _ (mem_of_find? hfind))

end ChainRegistry.Node
