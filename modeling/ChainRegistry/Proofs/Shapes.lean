import ChainRegistry.Proofs.Alike
import ChainRegistry.Proofs.NodeValues
import ChainRegistry.Proofs.RecordLeaves

/-!
# Shapes of records

A shape tells where in a tree records are read, by name or by position, and leaves out what the
values between them are.  It is enough to say where the origins of documents differ.  A strict
reading carries over to a tree that says the same, in any origin, unless it used that TOML takes a
date for a record without fields, or the other origin is JSON and a list there is longer than its
record.
-/

namespace ChainRegistry

variable {α ρ : Type}

inductive Shape where
  | leaf
  | record (fields : List (String × Shape))

namespace Node

def isDate : Node → Bool
  | .date _ => true
  | _ => false

def fitsIn (size : Nat) : Node → Bool
  | .list items => decide (items.length ≤ size)
  | _ => true

/-- What a table or list gives for its first field. -/
def field? (name : String) : Node → Option Node
  | .table entries => find? name entries
  | .list items => items.head?
  | _ => none

/-- What gives the further fields. -/
def further : Node → Node
  | .list items => .list items.tail
  | node => node

/-- The same value, or the text of a date for the date. -/
def SameOrText (node other : Node) : Prop :=
  other = node ∨ ∃ date, node = .date date ∧ other = .text date

theorem eq_of_alike {node other : Node} (halike : node.Alike SameOrText other)
    (hscalar : node.isScalar = true) (hdate : node.isDate = false) : other = node := by
  cases halike with
  | scalar _ _ hsame =>
      rcases hsame with rfl | ⟨date, rfl, rfl⟩
      · rfl
      · contradiction
  | list | table => contradiction

theorem eq_list_of_alike {items : List Node} {other : Node}
    (halike : (Node.list items).Alike SameOrText other)
    (hscalars : ∀ item ∈ items, item.isScalar = true ∧ item.isDate = false) :
    other = .list items := by
  cases halike with
  | scalar => contradiction
  | @list _ others hlength hitems =>
      congr 1
      apply List.ext_getElem
      · exact hlength.symm
      · intro i hi hi'
        obtain ⟨hscalar, hdate⟩ := hscalars items[i] (List.getElem_mem hi')
        exact eq_of_alike (hitems i _ _ (List.getElem?_eq_getElem hi')
          (List.getElem?_eq_getElem hi)) hscalar hdate

theorem Alike.field {same : Node → Node → Prop} {node other : Node} (halike : node.Alike same other)
    {name : String} {inner inner' : Node} (hnode : field? name node = some inner)
    (hother : field? name other = some inner') : inner.Alike same inner' := by
  cases halike with
  | scalar hscalar => cases node <;> contradiction
  | list _ hitems =>
      rw [field?, List.head?_eq_getElem?] at hnode hother
      exact hitems 0 inner inner' hnode hother
  | table _ _ _ hentries => exact hentries name inner inner' hnode hother

theorem Alike.further {same : Node → Node → Prop} {node other : Node}
    (halike : node.Alike same other) : node.further.Alike same other.further := by
  cases halike with
  | scalar hnode hother hsame =>
      have hself : node.further = node := by cases node <;> first | rfl | contradiction
      have hself' : other.further = other := by cases other <;> first | rfl | contradiction
      rw [hself, hself']
      exact .scalar hnode hother hsame
  | list hlength hitems =>
      refine .list (by simp [hlength]) fun i node other hnode hother => ?_
      rw [List.getElem?_tail] at hnode hother
      exact hitems (i + 1) node other hnode hother
  | table hnodup hnodup' hkeys hentries => exact .table hnodup hnodup' hkeys hentries

theorem isSome_find? (name : String) (entries : List (String × Node)) :
    (find? name entries).isSome = entries.any fun entry => entry.1 == name := by
  induction entries with
  | nil => rfl
  | cons entry entries ih =>
      obtain ⟨key, node⟩ := entry
      have hkey : (name == key) = (key == name) := BEq.comm
      rw [find?, List.lookup_cons, List.any_cons, ← ih, hkey]
      cases key == name <;> rfl

theorem isNull_of_alike {node other : Node} (halike : node.Alike SameOrText other) :
    other.isNull = node.isNull := by
  cases halike with
  | scalar _ _ hsame => rcases hsame with rfl | ⟨date, rfl, rfl⟩ <;> rfl
  | list | table => rfl

end Node

namespace Shape

open Node (field? further)

mutual

/-- Whether all nodes that are read as records pass a test, which is told the number of fields. -/
def all (test : Nat → Node → Bool) : Shape → Node → Bool
  | .leaf, _ => true
  | .record fields, node => test fields.length node && allFields test fields node

def allFields (test : Nat → Node → Bool) : List (String × Shape) → Node → Bool
  | [], _ => true
  | (name, shape) :: fields, node =>
    (match field? name node with
      | some inner => all test shape inner
      | none => true) && allFields test fields (further node)

end

/-- No list is longer than the record that it is read as. -/
def fits (shape : Shape) (node : Node) : Bool :=
  shape.all Node.fitsIn node

/-- No date stands in the place of a record. -/
def isDateless (shape : Shape) (node : Node) : Bool :=
  shape.all (fun _ node => !node.isDate) node

variable {origin target : Origin}

/-- Two trees that say the same from two origins, of which the first is strict. -/
structure Agrees (shape : Shape) (origin target : Origin) (node other : Node) : Prop where
  strict : origin ≠ .settings
  alike : node.Alike Node.SameOrText other
  dateless : origin = .toml → shape.isDateless node = true
  fits : target = .json → shape.fits other = true

/-- Two trees that agree in the fields that they give to a record. -/
structure FieldsAgree (fields : List (String × Shape)) (origin target : Origin)
    (node other : Node) : Prop where
  strict : origin ≠ .settings
  alike : node.Alike Node.SameOrText other
  dateless : origin = .toml → allFields (fun _ node => !node.isDate) fields node = true
  fits : target = .json → allFields Node.fitsIn fields other = true

variable {node other : Node} {members : List (String × Shape)}

theorem Agrees.fields (h : (record members).Agrees origin target node other) :
    FieldsAgree members origin target node other where
  strict := h.strict
  alike := h.alike
  dateless horigin := (Bool.and_eq_true_iff.mp (h.dateless horigin)).2
  fits htarget := (Bool.and_eq_true_iff.mp (h.fits htarget)).2

variable {test : Nat → Node → Bool} {name : String} {shape : Shape}

theorem all_of_allFields (h : allFields test ((name, shape) :: members) node = true) {inner : Node}
    (hinner : field? name node = some inner) : shape.all test inner = true := by
  rw [allFields, Bool.and_eq_true, hinner] at h
  exact h.1

theorem allFields_further (h : allFields test ((name, shape) :: members) node = true) :
    allFields test members (further node) = true :=
  (Bool.and_eq_true_iff.mp h).2

theorem FieldsAgree.field (h : FieldsAgree ((name, shape) :: members) origin target node other)
    {inner inner' : Node} (hinner : field? name node = some inner)
    (hinner' : field? name other = some inner') : shape.Agrees origin target inner inner' where
  strict := h.strict
  alike := h.alike.field hinner hinner'
  dateless horigin := all_of_allFields (h.dateless horigin) hinner
  fits htarget := all_of_allFields (h.fits htarget) hinner'

theorem FieldsAgree.further (h : FieldsAgree ((name, shape) :: members) origin target node other) :
    FieldsAgree members origin target (further node) (further other) where
  strict := h.strict
  alike := h.alike.further
  dateless horigin := allFields_further (h.dateless horigin)
  fits htarget := allFields_further (h.fits htarget)

end Shape

def Codec.Carries (codec : Codec α) (shape : Shape) : Prop :=
  ∀ ⦃origin target node other⦄, shape.Agrees origin target node other →
    ∀ v, codec.read? origin node = some v → codec.read? target other = some v

/-! ## Fields -/

def Field.Carries (field : Field ρ) (shape : Shape) : Prop :=
  ∀ ⦃origin target node other⦄, shape.Agrees origin target node other →
    ∀ r s, field.update? origin node r = some s → field.update? target other r = some s

@[simp] theorem Field.Carries.of {name : String} {codec : Codec α} {get : ρ → α} {set : ρ → α → ρ}
    {shape : Shape} (hcodec : codec.Carries shape) :
    (Field.of name codec get set).Carries shape := by
  intro origin target node other hagrees r s hupdate
  obtain ⟨v, hread, rfl⟩ := Option.map_eq_some_iff.mp hupdate
  exact Option.map_eq_some_iff.mpr ⟨v, hcodec hagrees v hread, rfl⟩

@[simp] theorem Field.Carries.nullable {field : Field ρ} {shape : Shape}
    (hfield : field.Carries shape) : field.nullable.Carries shape := by
  intro origin target node other hagrees r s hupdate
  cases hnull : node.isNull with
  | true =>
      obtain rfl := Node.eq_null_of_isNull hnull
      obtain rfl : other = .null := Node.eq_of_alike hagrees.alike rfl rfl
      exact hupdate
  | false =>
      rw [Field.nullable_update?_of_not_null field hnull] at hupdate
      have hread := hfield hagrees r s hupdate
      have hother : other.isNull = false := (Node.isNull_of_alike hagrees.alike).trans hnull
      rwa [Field.nullable_update?_of_not_null field hother]

/-! ## Records -/

/-- The fields of a record with the shapes of what is read for them. -/
abbrev Members (ρ : Type) := List (Field ρ × Shape)

namespace Members

def fields (members : Members ρ) : List (Field ρ) :=
  members.map Prod.fst

def shapes (members : Members ρ) : List (String × Shape) :=
  members.map fun member => (member.1.name, member.2)

def shape (members : Members ρ) : Shape :=
  .record members.shapes

def Carry (members : Members ρ) : Prop :=
  ∀ member ∈ members, member.1.Carries member.2

variable {members : Members ρ} {origin target : Origin}

theorem readEntries?_carries (hcarry : members.Carry) {entries others : List (String × Node)}
    (hagree : Shape.FieldsAgree members.shapes origin target (.table entries) (.table others))
    {r s : ρ} (hread : Record.readEntries? origin entries members.fields r = some s) :
    Record.readEntries? target others members.fields r = some s := by
  have hnodups : (entries.map Prod.fst).Nodup ∧ (others.map Prod.fst).Nodup ∧
      ∀ key, (Node.find? key entries).isSome = (Node.find? key others).isSome := by
    cases hagree.alike with
    | scalar => contradiction
    | table hnodup hnodup' hkeys _ => exact ⟨hnodup, hnodup', hkeys⟩
  obtain ⟨hnodup, hnodup', hkeys⟩ := hnodups
  induction members generalizing r with
  | nil => exact hread
  | cons member members ih =>
      obtain ⟨field, shape⟩ := member
      obtain ⟨hmember, hrest⟩ := List.forall_mem_cons.mp hcarry
      have hkey := hkeys field.name
      simp only [fields, List.map_cons] at hread ⊢
      rw [Record.readEntries?_cons hnodup] at hread
      rw [Record.readEntries?_cons hnodup']
      cases hnode : Node.find? field.name entries with
      | none =>
          rw [hnode, Option.isSome_none, eq_comm, Option.isSome_eq_false_iff,
            Option.isNone_iff_eq_none] at hkey
          rw [hnode] at hread
          rw [hkey]
          exact ih hrest hagree.further hread
      | some node =>
          rw [hnode, Option.isSome_some, eq_comm, Option.isSome_iff_exists] at hkey
          obtain ⟨other, hother⟩ := hkey
          rw [hnode] at hread
          rw [hother]
          obtain ⟨t, hupdate, hread⟩ := Option.bind_eq_some_iff.mp hread
          have hupdate' := hmember (hagree.field hnode hother) r t hupdate
          exact Option.bind_eq_some_iff.mpr ⟨t, hupdate', ih hrest hagree.further hread⟩

theorem readItems?_carries (hcarry : members.Carry) {items others : List Node}
    (hagree : Shape.FieldsAgree members.shapes origin target (.list items) (.list others))
    (hfits : target = .json → others.length ≤ members.length) {r s : ρ}
    (hread : Record.readItems? origin items members.fields r = some s) :
    Record.readItems? target others members.fields r = some s := by
  have hlength : items.length = others.length := by
    cases hagree.alike with
    | scalar => contradiction
    | list hlength _ => exact hlength
  induction members generalizing items others r with
  | nil =>
      cases items with
      | nil =>
          obtain rfl := List.eq_nil_of_length_eq_zero hlength.symm
          exact hread
      | cons item items =>
          obtain ⟨other, others, rfl⟩ := List.exists_cons_of_length_eq_add_one hlength.symm
          have htarget : target ≠ .json := fun htarget => absurd (hfits htarget) (by simp)
          have hread : (if origin = .json then none else some r) = some s := hread
          rw [Option.ite_none_left_eq_some] at hread
          change (if target = .json then none else some r) = some s
          rw [if_neg htarget, hread.2]
  | cons member members ih =>
      obtain ⟨field, shape⟩ := member
      obtain ⟨hmember, hrest⟩ := List.forall_mem_cons.mp hcarry
      cases items with
      | nil =>
          obtain rfl := List.eq_nil_of_length_eq_zero hlength.symm
          exact hread
      | cons item items =>
          obtain ⟨other, others, rfl⟩ := List.exists_cons_of_length_eq_add_one hlength.symm
          obtain ⟨t, hupdate, hread⟩ := Option.bind_eq_some_iff.mp hread
          have hupdate' := hmember (hagree.field rfl rfl) r t hupdate
          refine Option.bind_eq_some_iff.mpr ⟨t, hupdate', ?_⟩
          exact ih hrest hagree.further (fun htarget => by simpa using hfits htarget) hread
            (by simpa using hlength)

theorem record_carries (hcarry : members.Carry) (reference : ρ) :
    (Codec.record members.fields reference).Carries members.shape := by
  intro origin target node other hagrees r hread
  have hfields := hagrees.fields
  cases hagrees.alike with
  | @scalar node other hscalar _ _ =>
      -- Among scalars only a date is read as a record, and there is none here.
      cases node with
      | date date =>
          have hread : (if origin = .toml then some reference else none) = some r := hread
          rw [Option.ite_none_right_eq_some] at hread
          have hdateless := hagrees.dateless hread.1
          contradiction
      | list | table => contradiction
      | _ => cases hread
  | @list items others =>
      refine readItems?_carries hcarry hfields (fun htarget => ?_) hread
      have hfits := (Bool.and_eq_true_iff.mp (hagrees.fits htarget)).1
      simpa [shapes] using of_decide_eq_true hfits
  | table => exact readEntries?_carries hcarry hfields hread

theorem mentionsAll_of_alike {node other : Node} (halike : node.Alike Node.SameOrText other)
    (fields : List (Field ρ)) (hall : Record.mentionsAll fields node = true) :
    Record.mentionsAll fields other = true := by
  cases halike with
  | @scalar node other hscalar _ _ => cases node <;> contradiction
  | list hlength _ =>
      rw [Record.mentionsAll, ← hlength]
      exact hall
  | @table entries others _ _ hkeys _ =>
      have hmentions : ∀ field : Field ρ, (others.any fun entry => entry.1 == field.name) =
          entries.any fun entry => entry.1 == field.name := by
        intro field
        rw [← Node.isSome_find?, ← Node.isSome_find?, hkeys]
      simpa only [Record.mentionsAll, hmentions] using hall

theorem whole_carries (hcarry : members.Carry) (blank : ρ) :
    (Codec.whole members.fields blank).Carries members.shape := by
  intro origin target node other hagrees r hread
  have hread : (if Record.mentionsAll members.fields node then
      Record.readOver? members.fields blank origin node else none) = some r := hread
  rw [Option.ite_none_right_eq_some] at hread
  obtain ⟨hall, hread⟩ := hread
  have hread' := record_carries hcarry blank hagrees r hread
  change (if _ then _ else _) = _
  rw [if_pos (mentionsAll_of_alike hagrees.alike _ hall)]
  exact hread'

/-- The members of a record that holds values only. -/
def ofValues (fields : List (Field ρ)) : Members ρ :=
  fields.map fun field => (field, .leaf)

theorem fields_ofValues (values : List (Field ρ)) : (ofValues values).fields = values := by
  rw [fields, ofValues, List.map_map]
  exact List.map_id values

theorem record_carries_ofValues {values : List (Field ρ)}
    (hvalues : ∀ field ∈ values, field.Carries .leaf) (reference : ρ) :
    (Codec.record values reference).Carries (ofValues values).shape := by
  have hcarry : (ofValues values).Carry := List.forall_mem_map.mpr hvalues
  have hrecord := record_carries hcarry reference
  rwa [fields_ofValues] at hrecord

theorem whole_carries_ofValues {values : List (Field ρ)}
    (hvalues : ∀ field ∈ values, field.Carries .leaf) (blank : ρ) :
    (Codec.whole values blank).Carries (ofValues values).shape := by
  have hcarry : (ofValues values).Carry := List.forall_mem_map.mpr hvalues
  have hwhole := whole_carries hcarry blank
  rwa [fields_ofValues] at hwhole

end Members

/-! ## Values -/

namespace Codec

theorem carries_of_number {codec : Codec α} {size : Nat} {ofNat : Nat → α}
    (hcodec : ∀ origin node,
      codec.read? origin node = (Scalar.natural? origin size node).map ofNat) :
    codec.Carries .leaf := by
  intro origin target node other hagrees v hread
  rw [hcodec] at hread ⊢
  obtain ⟨n, hn, rfl⟩ := Option.map_eq_some_iff.mp hread
  obtain ⟨hlt, rfl⟩ := (Scalar.natural?_eq_some_iff hagrees.strict).mp hn
  obtain rfl : other = .int n := Node.eq_of_alike hagrees.alike rfl rfl
  rw [Scalar.natural?_ofNat target hlt, Option.map_some]

@[simp] theorem word64_carries : word64.Carries .leaf :=
  carries_of_number fun _ _ => rfl

@[simp] theorem word32_carries : word32.Carries .leaf :=
  carries_of_number fun _ _ => rfl

@[simp] theorem word16_carries : word16.Carries .leaf :=
  carries_of_number fun _ _ => rfl

@[simp] theorem fraction_carries : fraction.Carries .leaf := by
  intro origin target node other hagrees x hread
  rcases (Scalar.fraction?_eq_some_iff hagrees.strict).mp hread with rfl | ⟨i, rfl, rfl⟩
  · obtain rfl : other = .float x := Node.eq_of_alike hagrees.alike rfl rfl
    cases target <;> rfl
  · obtain rfl : other = .int i := Node.eq_of_alike hagrees.alike rfl rfl
    cases target <;> rfl

@[simp] theorem text_carries : text.Carries .leaf := by
  intro origin target node other hagrees s hread
  obtain rfl := (Scalar.text?_eq_some_iff hagrees.strict).mp hread
  obtain rfl : other = .text s := Node.eq_of_alike hagrees.alike rfl rfl
  cases target <;> rfl

@[simp] theorem flag_carries : flag.Carries .leaf := by
  intro origin target node other hagrees b hread
  cases node with
  | bool b' =>
      obtain rfl : other = .bool b' := Node.eq_of_alike hagrees.alike rfl rfl
      exact hread
  | _ => cases hread

@[simp] theorem amount_carries : amount.Carries .leaf := by
  intro origin target node other hagrees n hread
  cases node with
  | text s =>
      obtain rfl : other = .text s := Node.eq_of_alike hagrees.alike rfl rfl
      exact hread
  | _ => cases hread

@[simp] theorem texts_carries : texts.Carries .leaf := by
  intro origin target node other hagrees ss hread
  obtain rfl := (Scalar.texts?_eq_some_iff hagrees.strict).mp hread
  have htexts : ∀ item ∈ ss.map Node.text, item.isScalar = true ∧ item.isDate = false := by
    rw [List.forall_mem_map]
    exact fun _ _ => ⟨rfl, rfl⟩
  rw [Node.eq_list_of_alike hagrees.alike htexts]
  exact Scalar.texts?_texts target ss

end Codec

end ChainRegistry
