import ChainRegistry.Proofs.Leaves

/-!
# Reading and writing through leaves

A record is put together from parts, each of which is a field with the leaves that it is responsible
for.  Two facts about every part and one about every pair of parts carry the whole record: the part
follows its leaves, it shows them where it is written, and it spares the leaves of all other parts.
-/

namespace ChainRegistry

variable {α ρ : Type}

theorem Field.nullable_update?_of_not_null (field : Field ρ) {origin : Origin} {node : Node}
    (hnull : node.isNull = false) (r : ρ) :
    field.nullable.update? origin node r = field.update? origin node r := by
  cases node with
  | null => contradiction
  | _ => rfl

/-- A field of a record and the leaves behind it. -/
structure Part (ρ : Type) where
  field : Field ρ
  leaves : List (Leaf ρ)

namespace Part

def of (name : String) (codec : Codec α) (get : ρ → α) (set : ρ → α → ρ)
    (leaves : List (Leaf α)) : Part ρ where
  field := .of name codec get set
  leaves := leaves.map (.under name get)

/-- The part in which a null leaves the record as it was. -/
def nullable (part : Part ρ) : Part ρ where
  field := part.field.nullable
  leaves := part.leaves.map .orNull

def Named (part : Part ρ) : Prop :=
  ∀ leaf ∈ part.leaves, ∃ path, leaf.path = part.field.name :: path

/-- Reading the part changes its leaves, which had their reference values, to what the tree says. -/
def Follows (part : Part ρ) (reference : ρ) : Prop :=
  ∀ origin entries node r, Node.find? part.field.name entries = some node →
    InObjectForm part.leaves (.table entries) →
    (∀ leaf ∈ part.leaves, leaf.get r = leaf.get reference) →
    DecidedByLeaves part.leaves reference origin (.table entries)
      (part.field.update? origin node r)

/-- Reading the part changes no leaf of the other part. -/
def Spares (part other : Part ρ) : Prop :=
  ∀ leaf ∈ other.leaves, part.field.Keeps leaf.get

/-- Reading the part puts into its leaves what the tree gives for them. -/
def Heeds (part : Part ρ) : Prop :=
  ∀ origin entries node r s, Node.find? part.field.name entries = some node →
    part.field.update? origin node r = some s → ∀ leaf ∈ part.leaves, ∀ inner,
      leaf.given? (.table entries) = some inner → leaf.kind.read? origin inner = some (leaf.get s)

structure Lawful (part : Part ρ) (reference : ρ) : Prop where
  named : part.Named
  follows : part.Follows reference

theorem named_of {name : String} {codec : Codec α} {get : ρ → α} {set : ρ → α → ρ}
    {leaves : List (Leaf α)} : (Part.of name codec get set leaves).Named := by
  intro leaf hleaf
  obtain ⟨inner, -, rfl⟩ := List.mem_map.mp hleaf
  exact ⟨inner.path, rfl⟩

theorem lawful_of {name : String} {codec : Codec α} {get : ρ → α} {set : ρ → α → ρ}
    {leaves : List (Leaf α)} {reference : ρ} (hfollows : codec.Follows leaves (get reference))
    (hset : ∀ r v, get (set r v) = v) :
    (Part.of name codec get set leaves).Lawful reference := by
  refine ⟨named_of, ?_⟩
  intro origin entries node r hnode hform _
  change Node.find? name entries = some node at hnode
  have hdecided := hfollows origin node (hform.below hnode)
  simp only [Part.of, Field.of]
  cases hread : codec.read? origin node with
  | none =>
      rw [hread] at hdecided
      obtain ⟨leaf, hleaf, houtcome⟩ := hdecided
      exact ⟨leaf.under name get, List.mem_map_of_mem hleaf,
        (Leaf.outcome?_under hnode).trans houtcome⟩
  | some v =>
      rw [hread] at hdecided
      intro leaf hleaf
      obtain ⟨inner, hinner, rfl⟩ := List.mem_map.mp hleaf
      rw [Leaf.outcome?_under hnode, hdecided inner hinner]
      simp [Leaf.under, hset]

theorem mem_nullable_leaves {name : String} {codec : Codec α} {get : ρ → α} {set : ρ → α → ρ}
    {leaf : Leaf α} {other : Leaf ρ} :
    other ∈ (Part.of name codec get set [leaf]).nullable.leaves ↔
      other = (leaf.under name get).orNull := by
  simp [nullable, Part.of]

theorem lawful_nullable {name : String} {codec : Codec α} {get : ρ → α} {set : ρ → α → ρ}
    {leaf : Leaf α} {reference : ρ} (hpath : leaf.path = [])
    (hfollows : codec.Follows [leaf] (get reference)) (hset : ∀ r v, get (set r v) = v) :
    (Part.of name codec get set [leaf]).nullable.Lawful reference := by
  have hlawful : (Part.of name codec get set [leaf]).Lawful reference :=
    lawful_of hfollows hset
  have hleaf : (leaf.under name get).path = [name] := by simp [Leaf.under, hpath]
  constructor
  · intro other hother
    obtain rfl := mem_nullable_leaves.mp hother
    exact ⟨[], hleaf⟩
  · intro origin entries node r hnode hform hreference
    have hat : (Node.table entries).at? (leaf.under name get).path = some node := by
      change Node.find? name entries = some node at hnode
      simp [hleaf, Node.at?, hnode]
    cases hnull : node.isNull with
    | true =>
        obtain rfl : node = .null := Node.eq_null_of_isNull hnull
        intro other hother
        rw [hreference _ hother]
        obtain rfl := mem_nullable_leaves.mp hother
        have hat' : (Node.table entries).at? (leaf.under name get).orNull.path = some .null := hat
        exact Leaf.outcome?_of_null rfl hat'
    | false =>
        have hupdate : (Part.of name codec get set [leaf]).nullable.field.update? origin node r =
            (Part.of name codec get set [leaf]).field.update? origin node r :=
          Field.nullable_update?_of_not_null _ hnull r
        have houtcome : (leaf.under name get).orNull.outcome? reference origin (.table entries) =
            (leaf.under name get).outcome? reference origin (.table entries) := by
          have hat' : (Node.table entries).at? (leaf.under name get).orNull.path = some node := hat
          rw [Leaf.outcome?_of_not_null hat hnull]
          exact Leaf.outcome?_of_not_null hat' hnull
        have hdecided := hlawful.follows origin entries node r hnode
          (fun other hother => hform other.orNull (List.mem_map_of_mem hother))
          (fun other hother => hreference other.orNull (List.mem_map_of_mem hother))
        rw [hupdate]
        cases hread : (Part.of name codec get set [leaf]).field.update? origin node r with
        | none =>
            rw [hread] at hdecided
            simpa [DecidedByLeaves, nullable, Part.of, houtcome] using hdecided
        | some s =>
            rw [hread] at hdecided
            intro other hother
            obtain rfl := mem_nullable_leaves.mp hother
            rw [houtcome]
            exact hdecided (leaf.under name get) (by simp [Part.of])

theorem heeds_of {name : String} {codec : Codec α} {get : ρ → α} {set : ρ → α → ρ}
    {leaves : List (Leaf α)} (hheeds : codec.Heeds leaves) (hset : ∀ r v, get (set r v) = v) :
    (Part.of name codec get set leaves).Heeds := by
  intro origin entries node r s hnode hupdate leaf hleaf inner hgiven
  obtain ⟨v, hread, rfl⟩ := Option.map_eq_some_iff.mp hupdate
  obtain ⟨below, hbelow, rfl⟩ := List.mem_map.mp hleaf
  change Node.find? name entries = some node at hnode
  rw [Leaf.given?_under hnode] at hgiven
  have hvalue := hheeds origin node v hread below hbelow inner hgiven
  simpa [Leaf.under, hset] using hvalue

theorem heeds_nullable {name : String} {codec : Codec α} {get : ρ → α} {set : ρ → α → ρ}
    {leaf : Leaf α} (hpath : leaf.path = []) (hheeds : codec.Heeds [leaf])
    (hset : ∀ r v, get (set r v) = v) : (Part.of name codec get set [leaf]).nullable.Heeds := by
  intro origin entries node r s hnode hupdate other hother inner hgiven
  obtain rfl := mem_nullable_leaves.mp hother
  have hat : (Node.table entries).at? (leaf.under name get).orNull.path = some node := by
    change Node.find? name entries = some node at hnode
    simp [Leaf.orNull, Leaf.under, hpath, Node.at?, hnode]
  rw [Leaf.given?, hat] at hgiven
  obtain ⟨hsame, hnull⟩ := Option.filter_eq_some_iff.mp hgiven
  obtain rfl : node = inner := Option.some.inj hsame
  have hnull : node.isNull = false := by simpa [Leaf.orNull] using hnull
  have hupdate' : (Part.of name codec get set [leaf]).field.update? origin node r = some s :=
    (Field.nullable_update?_of_not_null _ hnull r).symm.trans hupdate
  have hgiven' : (leaf.under name get).given? (.table entries) = some node :=
    Leaf.given?_of_not_null hat hnull
  have hmem : leaf.under name get ∈ (Part.of name codec get set [leaf]).leaves :=
    List.mem_singleton_self _
  exact heeds_of hheeds hset origin entries node r s hnode hupdate' _ hmem node hgiven'

theorem of_spares_of {β : Type} {name other : String} {codec : Codec α} {codec' : Codec β}
    {get : ρ → α} {set : ρ → α → ρ} {get' : ρ → β} {set' : ρ → β → ρ} {leaves : List (Leaf α)}
    {leaves' : List (Leaf β)} (hkeep : ∀ r v, get' (set r v) = get' r) :
    (Part.of name codec get set leaves).Spares (Part.of other codec' get' set' leaves') := by
  intro leaf hleaf
  obtain ⟨inner, -, rfl⟩ := List.mem_map.mp hleaf
  exact Field.of_keeps fun r v => congrArg inner.get (hkeep r v)

end Part

namespace Record

variable {reference : ρ} {origin : Origin} {entries : List (String × Node)}

/-- A record is read from the entries under the names of its fields. -/
theorem readEntries?_congr {others : List (String × Node)} {fields : List (Field ρ)}
    (hsame : ∀ field ∈ fields, entries.filter (fun entry => entry.1 == field.name) =
      others.filter fun entry => entry.1 == field.name) (r : ρ) :
    readEntries? origin entries fields r = readEntries? origin others fields r := by
  induction fields generalizing r with
  | nil => rfl
  | cons field fields ih =>
      rw [List.forall_mem_cons] at hsame
      have hrest : readEntries? origin entries fields = readEntries? origin others fields :=
        funext fun s => ih hsame.2 s
      simp only [readEntries?, hsame.1, hrest]

theorem filter_eq_of_find? (hnodup : (entries.map Prod.fst).Nodup) (name : String) :
    entries.filter (fun entry => entry.1 == name) =
      match Node.find? name entries with
      | some node => [(name, node)]
      | none => [] := by
  induction entries with
  | nil => rfl
  | cons entry entries ih =>
      obtain ⟨key, node⟩ := entry
      simp only [List.map_cons, List.nodup_cons] at hnodup
      by_cases hkey : key = name
      · subst hkey
        have hnone : entries.filter (fun entry => entry.1 == key) = [] := by
          rw [List.filter_eq_nil_iff]
          intro other hother hsame
          exact hnodup.1 (List.mem_map.mpr ⟨other, hother, eq_of_beq hsame⟩)
        simp [Node.find?, hnone]
      · have hne : (name == key) = false := by simpa using Ne.symm hkey
        simp [Node.find?, List.lookup_cons, hkey, hne] at ih ⊢
        exact ih hnodup.2

/-- In an object a field is read from the entry that is found under its name, if any. -/
theorem readEntries?_cons (hnodup : (entries.map Prod.fst).Nodup) (field : Field ρ)
    (fields : List (Field ρ)) (r : ρ) :
    readEntries? origin entries (field :: fields) r =
      match Node.find? field.name entries with
      | some node => (field.update? origin node r).bind (readEntries? origin entries fields)
      | none => readEntries? origin entries fields r := by
  rw [readEntries?, filter_eq_of_find? hnodup]
  cases Node.find? field.name entries <;> rfl

theorem decidedByLeaves_append {leaves leaves' : List (Leaf ρ)} {tree : Node} {result : Option ρ}
    (hdecided : DecidedByLeaves leaves' reference origin tree result)
    (hleaves : ∀ r, result = some r → ∀ leaf ∈ leaves,
      leaf.outcome? reference origin tree = some (leaf.get r)) :
    DecidedByLeaves (leaves ++ leaves') reference origin tree result := by
  cases result with
  | none =>
      obtain ⟨leaf, hleaf, houtcome⟩ := hdecided
      exact ⟨leaf, List.mem_append_right leaves hleaf, houtcome⟩
  | some r =>
      intro leaf hleaf
      rcases List.mem_append.mp hleaf with hleft | hright
      · exact hleaves r rfl leaf hleft
      · exact hdecided leaf hright

theorem readEntries?_keeps_leaves {part : Part ρ} {parts : List (Part ρ)}
    (hspares : ∀ other ∈ parts, part.Spares other ∧ other.Spares part) {r s : ρ}
    (hread : readEntries? origin entries (parts.map Part.field) r = some s) :
    ∀ leaf ∈ part.leaves, leaf.get s = leaf.get r := by
  intro leaf hleaf
  refine readEntries?_keeps ?_ hread
  intro field hfield
  obtain ⟨other, hother, rfl⟩ := List.mem_map.mp hfield
  exact (hspares other hother).2 leaf hleaf

/-- The parts are read one after the other.  Those still to come have the leaves they started with,
and those already read keep theirs. -/
theorem readEntries?_decided {parts : List (Part ρ)}
    (hnodup : (entries.map Prod.fst).Nodup)
    (hlawful : ∀ part ∈ parts, part.Lawful reference)
    (hspare : parts.Pairwise fun part other => part.Spares other ∧ other.Spares part)
    (hform : ∀ part ∈ parts, InObjectForm part.leaves (.table entries)) {r : ρ}
    (hreference : ∀ part ∈ parts, ∀ leaf ∈ part.leaves, leaf.get r = leaf.get reference) :
    DecidedByLeaves (parts.flatMap Part.leaves) reference origin (.table entries)
      (readEntries? origin entries (parts.map Part.field) r) := by
  induction parts generalizing r with
  | nil => simp [readEntries?, DecidedByLeaves]
  | cons part parts ih =>
      obtain ⟨⟨hnamed, hfollows⟩, hlawful⟩ := List.forall_mem_cons.mp hlawful
      obtain ⟨hspares, hspare⟩ := List.pairwise_cons.mp hspare
      obtain ⟨hpart, hform⟩ := List.forall_mem_cons.mp hform
      obtain ⟨hown, hreference⟩ := List.forall_mem_cons.mp hreference
      rw [List.map_cons, List.flatMap_cons, readEntries?_cons hnodup]
      split
      next node hfind =>
        have hdecided := hfollows origin entries node r hfind hpart hown
        cases hupdate : part.field.update? origin node r with
        | none =>
            rw [hupdate] at hdecided
            obtain ⟨leaf, hleaf, houtcome⟩ := hdecided
            exact ⟨leaf, List.mem_append_left _ hleaf, houtcome⟩
        | some s =>
            rw [hupdate] at hdecided
            have hsame : ∀ other ∈ parts, ∀ leaf ∈ other.leaves,
                leaf.get s = leaf.get reference := by
              intro other hother leaf hleaf
              rw [(hspares other hother).1 leaf hleaf origin node r s hupdate]
              exact hreference other hother leaf hleaf
            apply decidedByLeaves_append (ih hlawful hspare hform hsame)
            intro t hread leaf hleaf
            rw [hdecided leaf hleaf, readEntries?_keeps_leaves hspares hread leaf hleaf]
      next hfind =>
        apply decidedByLeaves_append (ih hlawful hspare hform hreference)
        intro t hread leaf hleaf
        obtain ⟨path, hpath⟩ := hnamed leaf hleaf
        rw [Leaf.outcome?_of_absent hpath hfind,
          readEntries?_keeps_leaves hspares hread leaf hleaf, hown leaf hleaf]

theorem find?_eq_head? (name : String) (entries : List (String × Node)) :
    Node.find? name entries =
      (entries.filter fun entry => entry.1 == name).head?.map Prod.snd := by
  induction entries with
  | nil => rfl
  | cons entry entries ih =>
      obtain ⟨key, node⟩ := entry
      by_cases hkey : key = name
      · simp [Node.find?, hkey]
      · have hne : (name == key) = false := beq_eq_false_iff_ne.mpr (Ne.symm hkey)
        simpa [Node.find?, List.lookup_cons, hne, hkey] using ih

/-- Whatever a record is read from, each part has put what it was given into its leaves, and the
parts behind it have left them alone. -/
theorem readEntries?_heeds {parts : List (Part ρ)} (hnamed : ∀ part ∈ parts, part.Named)
    (hheeds : ∀ part ∈ parts, part.Heeds)
    (hspare : parts.Pairwise fun part other => part.Spares other ∧ other.Spares part) {r s : ρ}
    (hread : readEntries? origin entries (parts.map Part.field) r = some s) :
    ∀ part ∈ parts, ∀ leaf ∈ part.leaves, ∀ inner, leaf.given? (.table entries) = some inner →
      leaf.kind.read? origin inner = some (leaf.get s) := by
  induction parts generalizing r with
  | nil => simp
  | cons part parts ih =>
      obtain ⟨hname, hnamed⟩ := List.forall_mem_cons.mp hnamed
      obtain ⟨hheed, hheeds⟩ := List.forall_mem_cons.mp hheeds
      obtain ⟨hspares, hspare⟩ := List.pairwise_cons.mp hspare
      have hfind := find?_eq_head? part.field.name entries
      rw [List.map_cons, readEntries?] at hread
      rw [List.forall_mem_cons]
      split at hread
      next hfilter =>
        refine ⟨fun leaf hleaf inner hgiven => ?_, ih hnamed hheeds hspare hread⟩
        rw [hfilter] at hfind
        obtain ⟨path, hpath⟩ := hname leaf hleaf
        simp [Leaf.given?, hpath, Node.at?, hfind] at hgiven
      next entry hfilter =>
        rw [hfilter] at hfind
        obtain ⟨t, hupdate, hread⟩ := Option.bind_eq_some_iff.mp hread
        refine ⟨fun leaf hleaf inner hgiven => ?_, ih hnamed hheeds hspare hread⟩
        rw [readEntries?_keeps_leaves hspares hread leaf hleaf]
        exact hheed origin entries entry.2 r t hfind hupdate leaf hleaf inner hgiven
      next => contradiction

theorem readOver?_heeds {parts : List (Part ρ)} (hnamed : ∀ part ∈ parts, part.Named)
    (hheeds : ∀ part ∈ parts, part.Heeds)
    (hspare : parts.Pairwise fun part other => part.Spares other ∧ other.Spares part)
    {tree : Node} {r : ρ}
    (hread : readOver? (parts.map Part.field) reference origin tree = some r) :
    ∀ leaf ∈ parts.flatMap Part.leaves, ∀ node, leaf.given? tree = some node →
      leaf.kind.read? origin node = some (leaf.get r) := by
  intro leaf hleaf node hgiven
  obtain ⟨part, hpart, hleaf⟩ := List.mem_flatMap.mp hleaf
  obtain ⟨path, hpath⟩ := hnamed part hpart leaf hleaf
  -- A leaf stands below a name, so a tree that gives it is a table.
  cases tree with
  | table entries =>
      exact readEntries?_heeds hnamed hheeds hspare hread part hpart leaf hleaf node hgiven
  | _ => simp [Leaf.given?, hpath, Node.at?] at hgiven

end Record

theorem InObjectForm.isObject {leaves : List (Leaf ρ)} {tree : Node}
    (hform : InObjectForm leaves tree) {leaf : Leaf ρ} (hleaf : leaf ∈ leaves) {name : String}
    {path : List String} (hpath : leaf.path = name :: path) : tree.IsObject :=
  hform leaf hleaf [] List.nil_prefix (by simp [hpath]) tree rfl

theorem Record.readOver?_decided {parts : List (Part ρ)} {reference : ρ} {origin : Origin}
    {tree : Node} (hlawful : ∀ part ∈ parts, part.Lawful reference)
    (hspare : parts.Pairwise fun part other => part.Spares other ∧ other.Spares part)
    (hleaf : parts.flatMap Part.leaves ≠ [])
    (hform : InObjectForm (parts.flatMap Part.leaves) tree) :
    DecidedByLeaves (parts.flatMap Part.leaves) reference origin tree
      (readOver? (parts.map Part.field) reference origin tree) := by
  obtain ⟨leaf, hleaf⟩ := List.exists_mem_of_ne_nil _ hleaf
  obtain ⟨part, hpart, hmem⟩ := List.mem_flatMap.mp hleaf
  obtain ⟨path, hpath⟩ := (hlawful part hpart).named leaf hmem
  have hobject : tree.IsObject := hform.isObject hleaf hpath
  cases tree with
  | table entries =>
      refine readEntries?_decided hobject hlawful hspare ?_ fun _ _ _ _ => rfl
      intro part hpart
      exact hform.of_subset fun leaf hleaf => List.mem_flatMap.mpr ⟨part, hpart, hleaf⟩
  | _ => exact hobject.elim

/-! ## Writing -/

/-- What the part writes shows its leaves, as they are named below the name of the part. -/
structure Part.Shows (part : Part ρ) : Prop where
  tidy : ∀ r, (part.field.write r).IsTidy
  shown : ∀ r, ∀ leaf ∈ part.leaves, ∃ path, leaf.path = part.field.name :: path ∧
    (part.field.write r).at? path = some (leaf.get r).node
  typed : ∀ r, ∀ leaf ∈ part.leaves, leaf.kind.Denotes (leaf.get r).node (leaf.get r)

theorem Part.shows_of {name : String} {codec : Codec α} {get : ρ → α} {set : ρ → α → ρ}
    {leaves : List (Leaf α)} (hshows : codec.Shows leaves) :
    (Part.of name codec get set leaves).Shows := by
  constructor
  · exact fun r => hshows.tidy (get r)
  · intro r leaf hleaf
    obtain ⟨inner, hinner, rfl⟩ := List.mem_map.mp hleaf
    exact ⟨inner.path, rfl, hshows.shown (get r) inner hinner⟩
  · intro r leaf hleaf
    obtain ⟨inner, hinner, rfl⟩ := List.mem_map.mp hleaf
    exact hshows.typed (get r) inner hinner

theorem Part.Shows.nullable {part : Part ρ} (hshows : part.Shows) : part.nullable.Shows := by
  constructor
  · exact hshows.tidy
  · intro r leaf hleaf
    obtain ⟨inner, hinner, rfl⟩ := List.mem_map.mp hleaf
    exact hshows.shown r inner hinner
  · intro r leaf hleaf
    obtain ⟨inner, hinner, rfl⟩ := List.mem_map.mp hleaf
    exact hshows.typed r inner hinner

/-- What the part writes holds its leaves alone. -/
structure Part.Spans (part : Part ρ) : Prop where
  complete : ∀ r, ∀ value ∈ (part.field.write r).values,
    ∃ leaf ∈ part.leaves, value = (leaf.get r).node
  depth_le : ∀ r levels, (∀ leaf ∈ part.leaves, leaf.path.length ≤ levels + 1) →
    (part.field.write r).depth ≤ levels

theorem Part.spans_of {name : String} {codec : Codec α} {get : ρ → α} {set : ρ → α → ρ}
    {leaves : List (Leaf α)} (hspans : codec.Spans leaves) :
    (Part.of name codec get set leaves).Spans := by
  constructor
  · intro r value hvalue
    obtain ⟨leaf, hleaf, hnode⟩ := hspans.complete (get r) value hvalue
    exact ⟨leaf.under name get, List.mem_map_of_mem hleaf, hnode⟩
  · intro r levels hpaths
    apply hspans.depth_le (get r) levels
    intro leaf hleaf
    exact Nat.le_of_succ_le_succ (hpaths (leaf.under name get) (List.mem_map_of_mem hleaf))

theorem Part.Spans.nullable {part : Part ρ} (hspans : part.Spans) : part.nullable.Spans := by
  constructor
  · intro r value hvalue
    obtain ⟨leaf, hleaf, hnode⟩ := hspans.complete r value hvalue
    exact ⟨leaf.orNull, List.mem_map_of_mem hleaf, hnode⟩
  · intro r levels hpaths
    apply hspans.depth_le r levels
    intro leaf hleaf
    exact hpaths leaf.orNull (List.mem_map_of_mem hleaf)

namespace Record

theorem find?_write {fields : List (Field ρ)} (hnodup : (fields.map Field.name).Nodup)
    {field : Field ρ} (hfield : field ∈ fields) (r : ρ) :
    Node.find? field.name (fields.map fun field => (field.name, field.write r)) =
      some (field.write r) := by
  refine (Node.find?_eq_some_iff ?_).mpr (List.mem_map.mpr ⟨field, hfield, rfl⟩)
  simpa [Function.comp_def] using hnodup

theorem write_tidy {fields : List (Field ρ)} (hnodup : (fields.map Field.name).Nodup)
    (hnames : ∀ field ∈ fields, Node.isName field.name = true) {r : ρ}
    (htidy : ∀ field ∈ fields, (field.write r).IsTidy) : (write fields r).IsTidy := by
  apply Node.IsTidy.table
  · simpa [Function.comp_def] using hnodup
  · exact List.forall_mem_map.mpr hnames
  · exact List.forall_mem_map.mpr htidy

theorem write_shows {fields : List (Field ρ)} (hnodup : (fields.map Field.name).Nodup)
    (hnames : ∀ field ∈ fields, Node.isName field.name = true)
    (htidy : ∀ field ∈ fields, ∀ r, (field.write r).IsTidy) {parts : List (Part ρ)}
    (hmem : ∀ part ∈ parts, part.field ∈ fields) (hshows : ∀ part ∈ parts, part.Shows)
    {read? : Origin → Node → Option ρ} :
    Codec.Shows ⟨write fields, read?⟩ (parts.flatMap Part.leaves) := by
  constructor
  · exact fun r => write_tidy hnodup hnames fun field hfield => htidy field hfield r
  · intro r leaf hleaf
    obtain ⟨part, hpart, hleaf⟩ := List.mem_flatMap.mp hleaf
    obtain ⟨path, hpath, hat⟩ := (hshows part hpart).shown r leaf hleaf
    simp only [hpath, write, Node.at?, find?_write hnodup (hmem part hpart) r, Option.bind_some,
      hat]
  · intro r leaf hleaf
    obtain ⟨part, hpart, hleaf⟩ := List.mem_flatMap.mp hleaf
    exact (hshows part hpart).typed r leaf hleaf

theorem mem_values_write {fields : List (Field ρ)} {r : ρ} {value : Node} :
    value ∈ (write fields r).values ↔ ∃ field ∈ fields, value ∈ (field.write r).values := by
  rw [write, Node.values, Node.mem_entryValues]
  constructor
  · rintro ⟨entry, hentry, hvalue⟩
    obtain ⟨field, hfield, rfl⟩ := List.mem_map.mp hentry
    exact ⟨field, hfield, hvalue⟩
  · rintro ⟨field, hfield, hvalue⟩
    exact ⟨_, List.mem_map_of_mem hfield, hvalue⟩

theorem depth_write_le {fields : List (Field ρ)} {r : ρ} {levels : Nat} :
    (write fields r).depth ≤ levels + 1 ↔ ∀ field ∈ fields, (field.write r).depth ≤ levels := by
  simp [write, Node.depth, Node.entryDepth_le]

theorem write_spans {parts : List (Part ρ)} (hne : parts.flatMap Part.leaves ≠ [])
    (hshows : ∀ part ∈ parts, part.Shows) (hspans : ∀ part ∈ parts, part.Spans)
    {read? : Origin → Node → Option ρ} :
    Codec.Spans ⟨write (parts.map Part.field), read?⟩ (parts.flatMap Part.leaves) := by
  constructor
  · intro r value hvalue
    obtain ⟨field, hfield, hvalue⟩ := mem_values_write.mp hvalue
    obtain ⟨part, hpart, rfl⟩ := List.mem_map.mp hfield
    obtain ⟨leaf, hleaf, hnode⟩ := (hspans part hpart).complete r value hvalue
    exact ⟨leaf, List.mem_flatMap.mpr ⟨part, hpart, hleaf⟩, hnode⟩
  · intro r levels hpaths
    obtain ⟨leaf, hleaf⟩ := List.exists_mem_of_ne_nil _ hne
    obtain ⟨part, hpart, hmem⟩ := List.mem_flatMap.mp hleaf
    obtain ⟨path, hpath, -⟩ := (hshows part hpart).shown r leaf hmem
    cases levels with
    | zero => simpa [hpath] using hpaths leaf hleaf
    | succ levels =>
        refine depth_write_le.mpr (List.forall_mem_map.mpr ?_)
        intro part hpart
        apply (hspans part hpart).depth_le r levels
        intro leaf hleaf
        exact hpaths leaf (List.mem_flatMap.mpr ⟨part, hpart, hleaf⟩)

end Record

end ChainRegistry
