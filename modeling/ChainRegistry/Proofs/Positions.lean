import ChainRegistry.Proofs.Shapes
import Mathlib.Data.List.Perm.Subperm

/-!
# Records by position and by name

A record can be written as a table, which names its fields, or as a list, which gives the first of
them in order.  A tree is brought to names by turning every list in the place of a record into a
table, at every depth.  Reading does not notice: the tree and the one with names have the same
outcome.  Two trees that come to the same names are therefore read alike, however their records are
written.

Only a list that is too long stays as it is where JSON is read.  It cannot be read there, while
elsewhere its surplus is dropped.
-/

namespace ChainRegistry

variable {α ρ : Type} {origin : Origin}

/-! ## Changing the entries under one name -/

namespace Node

def changeAt (name : String) (change : Node → Node) (entries : List (String × Node)) :
    List (String × Node) :=
  entries.map fun entry => (entry.1, if entry.1 = name then change entry.2 else entry.2)

variable {name other : String} {change : Node → Node} {entries : List (String × Node)}

theorem map_fst_changeAt : (changeAt name change entries).map Prod.fst = entries.map Prod.fst := by
  simp [changeAt, Function.comp_def]

theorem filter_changeAt_self :
    (changeAt name change entries).filter (fun entry => entry.1 == name) =
      (entries.filter fun entry => entry.1 == name).map fun entry => (entry.1, change entry.2) := by
  rw [changeAt, List.filter_map]
  refine List.map_congr_left fun entry hentry => ?_
  have hname : entry.1 = name := eq_of_beq (List.mem_filter.mp hentry).2
  rw [if_pos hname]

theorem filter_changeAt_of_ne (hne : other ≠ name) :
    (changeAt name change entries).filter (fun entry => entry.1 == other) =
      entries.filter fun entry => entry.1 == other := by
  rw [changeAt, List.filter_map]
  refine (List.map_congr_left fun entry hentry => ?_).trans (List.map_id _)
  have hname : entry.1 = other := eq_of_beq (List.mem_filter.mp hentry).2
  rw [if_neg (hname ▸ hne), id]

end Node

/-! ## Bringing a tree to names -/

namespace Shape

mutual

/-- The tree in which every record is given by name. -/
def named (origin : Origin) : Shape → Node → Node
  | .leaf, node => node
  | .record fields, .list items =>
    if origin = .json ∧ fields.length < items.length then .list items
    else .table (namedItems origin fields items)
  | .record fields, .table entries => .table (namedEntries origin fields entries)
  | .record _, node => node

def namedItems (origin : Origin) : List (String × Shape) → List Node → List (String × Node)
  | (name, shape) :: fields, item :: items =>
    (name, named origin shape item) :: namedItems origin fields items
  | _, _ => []

def namedEntries (origin : Origin) :
    List (String × Shape) → List (String × Node) → List (String × Node)
  | [], entries => entries
  | (name, shape) :: fields, entries =>
    namedEntries origin fields (Node.changeAt name (named origin shape) entries)

end

theorem named_of_isScalar {node : Node} (hscalar : node.isScalar = true) (shape : Shape) :
    shape.named origin node = node := by
  cases shape with
  | leaf => rw [named]
  | record fields => cases node <;> simp_all [named, Node.isScalar]

theorem named_list_eq_self {fields : List (String × Shape)} {items : List Node}
    (hlong : fields.length < items.length) :
    (record fields).named .json (.list items) = .list items := by
  simp [named, hlong]

theorem named_list {fields : List (String × Shape)} {items : List Node}
    (hfits : origin = .json → items.length ≤ fields.length) :
    (record fields).named origin (.list items) = .table (namedItems origin fields items) := by
  rw [named, if_neg]
  rintro ⟨horigin, hlong⟩
  exact absurd (hfits horigin) (Nat.not_le.mpr hlong)

theorem map_fst_namedItems (fields : List (String × Shape)) (items : List Node) :
    (namedItems origin fields items).map Prod.fst = (fields.map Prod.fst).take items.length := by
  induction fields generalizing items with
  | nil => simp [namedItems]
  | cons field fields ih =>
      cases items with
      | nil => simp [namedItems]
      | cons item items => simp [namedItems, ih]

theorem map_fst_namedEntries (fields : List (String × Shape)) (entries : List (String × Node)) :
    (namedEntries origin fields entries).map Prod.fst = entries.map Prod.fst := by
  induction fields generalizing entries with
  | nil => rfl
  | cons field fields ih => rw [namedEntries, ih, Node.map_fst_changeAt]

theorem filter_namedEntries {fields : List (String × Shape)} {name : String}
    (hname : name ∉ fields.map Prod.fst) (entries : List (String × Node)) :
    (namedEntries origin fields entries).filter (fun entry => entry.1 == name) =
      entries.filter fun entry => entry.1 == name := by
  induction fields generalizing entries with
  | nil => rfl
  | cons field fields ih =>
      simp only [List.map_cons, List.mem_cons, not_or] at hname
      rw [namedEntries, ih hname.2, Node.filter_changeAt_of_ne hname.1]

end Shape

/-! ## Fields and records that read names alike -/

def Codec.ReadsNamed (codec : Codec α) (shape : Shape) : Prop :=
  ∀ origin node, codec.read? origin (shape.named origin node) = codec.read? origin node

def Field.ReadsNamed (field : Field ρ) (shape : Shape) : Prop :=
  ∀ origin node r, field.update? origin (shape.named origin node) r = field.update? origin node r

@[simp] theorem Field.ReadsNamed.of {name : String} {codec : Codec α} {get : ρ → α} {set : ρ → α → ρ}
    {shape : Shape} (hcodec : codec.ReadsNamed shape) :
    (Field.of name codec get set).ReadsNamed shape := by
  intro origin node r
  simp only [Field.of, hcodec origin node]

/-- Values have no names in them. -/
@[simp] theorem Field.readsNamed_leaf (field : Field ρ) : field.ReadsNamed .leaf := by
  intro origin node r
  rw [Shape.named]

namespace Record

theorem readEntries?_nil (fields : List (Field ρ)) (r : ρ) :
    readEntries? origin [] fields r = some r := by
  induction fields generalizing r with
  | nil => rfl
  | cons field fields ih => exact ih r

theorem readEntries?_skip {entry : String × Node} {entries : List (String × Node)}
    {fields : List (Field ρ)} (hentry : entry.1 ∉ fields.map Field.name) (r : ρ) :
    readEntries? origin (entry :: entries) fields r = readEntries? origin entries fields r := by
  refine readEntries?_congr (fun field hfield => ?_) r
  have hne : entry.1 ≠ field.name := fun h => hentry (h ▸ List.mem_map_of_mem hfield)
  simp [hne]

end Record

namespace Members

variable {members : Members ρ}

def ReadNamed (members : Members ρ) : Prop :=
  ∀ member ∈ members, member.1.ReadsNamed member.2

theorem map_fst_shapes (members : Members ρ) :
    members.shapes.map Prod.fst = members.fields.map Field.name := by
  simp [shapes, fields]

theorem nodup_namedItems (hnodup : (members.fields.map Field.name).Nodup) (items : List Node) :
    ((Shape.namedItems origin members.shapes items).map Prod.fst).Nodup := by
  rw [Shape.map_fst_namedItems, map_fst_shapes]
  exact hnodup.sublist (List.take_sublist _ _)

/-- The list is read as the table of its items: each field is read from the item in its place. -/
theorem readEntries?_namedItems (hread : members.ReadNamed)
    (hnodup : (members.fields.map Field.name).Nodup) {items : List Node}
    (hfits : origin = .json → items.length ≤ members.length) (r : ρ) :
    Record.readEntries? origin (Shape.namedItems origin members.shapes items) members.fields r =
      Record.readItems? origin items members.fields r := by
  induction members generalizing items r with
  | nil =>
      cases items with
      | nil => rfl
      | cons item items =>
          have horigin : origin ≠ .json := fun horigin => absurd (hfits horigin) (by simp)
          simp [Record.readEntries?, Record.readItems?, horigin, fields]
  | cons member members ih =>
      obtain ⟨field, shape⟩ := member
      obtain ⟨(hmember : field.ReadsNamed shape), hrest⟩ := List.forall_mem_cons.mp hread
      cases items with
      | nil => exact Record.readEntries?_nil _ r
      | cons item items =>
          have hfits : origin = .json → items.length ≤ members.length :=
            fun horigin => Nat.le_of_succ_le_succ (hfits horigin)
          have hentries : (((field.name, shape.named origin item) ::
              Shape.namedItems origin (shapes members) items).map Prod.fst).Nodup :=
            nodup_namedItems hnodup (item :: items)
          obtain ⟨hfresh, hnodup⟩ := List.nodup_cons.mp hnodup
          have hfind : Node.find? field.name ((field.name, shape.named origin item) ::
              Shape.namedItems origin (shapes members) items) = some (shape.named origin item) :=
            List.lookup_cons_self
          change Record.readEntries? origin ((field.name, shape.named origin item) ::
            Shape.namedItems origin (shapes members) items) (field :: fields members) r = _
          rw [Record.readEntries?_cons hentries, hfind]
          simp only [hmember origin item r]
          refine Option.bind_congr fun s _ => ?_
          rw [Record.readEntries?_skip hfresh]
          exact ih hrest hnodup hfits s

theorem readEntries?_namedEntries (hread : members.ReadNamed)
    (hnodup : (members.fields.map Field.name).Nodup) (entries : List (String × Node)) (r : ρ) :
    Record.readEntries? origin (Shape.namedEntries origin members.shapes entries)
      members.fields r = Record.readEntries? origin entries members.fields r := by
  induction members generalizing entries r with
  | nil => rfl
  | cons member members ih =>
      obtain ⟨field, shape⟩ := member
      obtain ⟨(hmember : field.ReadsNamed shape), hrest⟩ := List.forall_mem_cons.mp hread
      obtain ⟨hfresh, hnodup⟩ := List.nodup_cons.mp hnodup
      have hrename : ∀ s, Record.readEntries? origin (Shape.namedEntries origin (shapes members)
          (Node.changeAt field.name (shape.named origin) entries)) (fields members) s =
            Record.readEntries? origin entries (fields members) s := by
        intro s
        rw [ih hrest hnodup]
        refine Record.readEntries?_congr (fun other hother => Node.filter_changeAt_of_ne ?_) s
        exact fun hname => hfresh (hname ▸ List.mem_map_of_mem hother)
      have hfilter : (Shape.namedEntries origin (shapes members)
          (Node.changeAt field.name (shape.named origin) entries)).filter
            (fun entry => entry.1 == field.name) =
          (entries.filter fun entry => entry.1 == field.name).map
            fun entry => (entry.1, shape.named origin entry.2) := by
        rw [Shape.filter_namedEntries (by rwa [map_fst_shapes]), Node.filter_changeAt_self]
      change Record.readEntries? origin (Shape.namedEntries origin (shapes members)
        (Node.changeAt field.name (shape.named origin) entries)) (field :: fields members) r =
          Record.readEntries? origin entries (field :: fields members) r
      rw [Record.readEntries?, Record.readEntries?, hfilter]
      cases entries.filter fun entry => entry.1 == field.name with
      | nil => exact hrename r
      | cons entry more =>
          cases more with
          | nil =>
              simp only [List.map_cons, List.map_nil, hmember origin entry.2 r]
              exact Option.bind_congr fun s _ => hrename s
          | cons => rfl

theorem length_shapes (members : Members ρ) : members.shapes.length = members.length := by
  simp [shapes]

/-- Among values only the names are filled in. -/
theorem namedItems_ofValues (values : List (Field ρ)) (items : List Node) :
    Shape.namedItems origin (ofValues values).shapes items =
      (values.map Field.name).zip items := by
  induction values generalizing items with
  | nil => cases items <;> rfl
  | cons field values ih =>
      cases items with
      | nil => rfl
      | cons item items => exact congrArg ((field.name, item) :: ·) (ih items)

/-- A list that is too long is left as it is. -/
theorem named_list_cases (members : Members ρ) (origin : Origin) (items : List Node) :
    members.shape.named origin (.list items) = .list items ∨
      ((origin = .json → items.length ≤ members.length) ∧
        members.shape.named origin (.list items) =
          .table (Shape.namedItems origin members.shapes items)) := by
  by_cases hfits : origin = .json → items.length ≤ members.length
  · exact .inr ⟨hfits, Shape.named_list (by rwa [length_shapes])⟩
  · obtain ⟨rfl, hlong⟩ := Classical.not_imp.mp hfits
    exact .inl (Shape.named_list_eq_self (by rwa [length_shapes, ← Nat.not_le]))

theorem record_readsNamed (hread : members.ReadNamed)
    (hnodup : (members.fields.map Field.name).Nodup) (reference : ρ) :
    (Codec.record members.fields reference).ReadsNamed members.shape := by
  intro origin node
  cases node with
  | list items =>
      rcases named_list_cases members origin items with hnamed | ⟨hfits, hnamed⟩
      · rw [hnamed]
      · rw [hnamed]
        exact readEntries?_namedItems hread hnodup hfits reference
  | table entries =>
      rw [shape, Shape.named]
      exact readEntries?_namedEntries hread hnodup entries reference
  | _ => rw [Shape.named_of_isScalar rfl]

/-- Whether a table mentions all fields is a matter of its keys. -/
theorem mentionsAll_table_iff {fields : List (Field ρ)} {entries : List (String × Node)} :
    Record.mentionsAll fields (.table entries) = true ↔
      ∀ name ∈ fields.map Field.name, name ∈ entries.map Prod.fst := by
  simp [Record.mentionsAll]

theorem subset_take_iff {names : List String} (hnodup : names.Nodup) {size : Nat} :
    (∀ name ∈ names, name ∈ names.take size) ↔ names.length ≤ size := by
  constructor
  · intro hsubset
    have hle : names.length ≤ (names.take size).length := (hnodup.subperm hsubset).length_le
    exact Nat.le_trans hle (List.length_take_le size names)
  · intro hsize name hname
    rwa [List.take_of_length_le hsize]

theorem mentionsAll_named (hnodup : (members.fields.map Field.name).Nodup) (origin : Origin)
    (node : Node) : Record.mentionsAll members.fields (members.shape.named origin node) =
      Record.mentionsAll members.fields node := by
  cases node with
  | list items =>
      rcases named_list_cases members origin items with hnamed | ⟨-, hnamed⟩
      · rw [hnamed]
      · rw [hnamed, Bool.eq_iff_iff, mentionsAll_table_iff, Shape.map_fst_namedItems,
          map_fst_shapes, subset_take_iff hnodup, List.length_map, Record.mentionsAll,
          decide_eq_true_iff]
  | table entries =>
      rw [shape, Shape.named, Bool.eq_iff_iff, mentionsAll_table_iff, mentionsAll_table_iff,
        Shape.map_fst_namedEntries]
  | _ => rw [Shape.named_of_isScalar rfl]

theorem whole_readsNamed (hread : members.ReadNamed)
    (hnodup : (members.fields.map Field.name).Nodup) (blank : ρ) :
    (Codec.whole members.fields blank).ReadsNamed members.shape := by
  intro origin node
  have hrecord := record_readsNamed hread hnodup blank origin node
  simp only [Codec.whole, Codec.record, Record.readWhole?] at hrecord ⊢
  rw [mentionsAll_named hnodup, hrecord]

end Members

/-! ## Lists that are too short or too long -/

/-- No field changes what is written for another one behind it. -/
def Record.Apart (fields : List (Field ρ)) : Prop :=
  fields.Pairwise fun field other => field.Keeps other.write

@[simp] theorem Field.of_keeps_write {β : Type} {name other : String} {codec : Codec α}
    {codec' : Codec β} {get : ρ → α} {set : ρ → α → ρ} {get' : ρ → β} {set' : ρ → β → ρ}
    (hset : ∀ r v, get' (set r v) = get' r) :
    (Field.of name codec get set).Keeps (Field.of other codec' get' set').write :=
  Field.of_keeps fun r v => congrArg codec'.write (hset r v)

@[simp] theorem Field.nullable_write (field : Field ρ) : field.nullable.write = field.write := rfl

@[simp] theorem Field.Keeps.nullable {β : Type} {field : Field ρ} {aspect : ρ → β}
    (hkeeps : field.Keeps aspect) : field.nullable.Keeps aspect := by
  intro origin node r s hupdate
  cases hnull : node.isNull with
  | true =>
      obtain rfl := Node.eq_null_of_isNull hnull
      rw [Option.some.inj hupdate]
  | false =>
      rw [Field.nullable_update?_of_not_null field hnull] at hupdate
      exact hkeeps origin node r s hupdate

namespace Record

variable {fields : List (Field ρ)} {items : List Node} {r s : ρ}

theorem readItems?_apart (hapart : Apart fields) (hread : readItems? origin items fields r = some s) :
    ∀ field ∈ fields.drop items.length, field.write s = field.write r := by
  induction fields generalizing items r with
  | nil => simp
  | cons field fields ih =>
      obtain ⟨hkeeps, hapart⟩ := List.pairwise_cons.mp hapart
      cases items with
      | nil =>
          rw [Option.some.inj hread]
          exact fun _ _ => rfl
      | cons item items =>
          obtain ⟨t, hupdate, hread⟩ := Option.bind_eq_some_iff.mp hread
          intro other hother
          rw [ih hapart hread other hother]
          exact hkeeps other (List.mem_of_mem_drop hother) origin item r t hupdate

theorem readItems?_json_of_long (hlong : fields.length < items.length) :
    readItems? .json items fields r = none := by
  induction fields generalizing items r with
  | nil =>
      cases items with
      | nil => contradiction
      | cons item items => rfl
  | cons field fields ih =>
      cases items with
      | nil => contradiction
      | cons item items =>
          have hlong : fields.length < items.length := Nat.lt_of_succ_lt_succ hlong
          exact Option.bind_eq_none_iff.mpr fun s _ => ih hlong

theorem readItems?_take (horigin : origin ≠ .json) :
    readItems? origin (items.take fields.length) fields r = readItems? origin items fields r := by
  induction fields generalizing items r with
  | nil => cases items <;> simp [readItems?, horigin]
  | cons field fields ih =>
      cases items with
      | nil => rfl
      | cons item items => exact Option.bind_congr fun s _ => ih

end Record

end ChainRegistry
