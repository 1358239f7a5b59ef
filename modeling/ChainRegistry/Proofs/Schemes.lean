import ChainRegistry.Proofs.RecordLeaves

/-!
# Codecs described by leaves

A description of a type by leaves is checked against its codec: reading follows the leaves, writing
shows them and nothing else, and two values with the same leaves are equal.  The check is done here
for scalars and, given the checks of its parts, for a record.
-/

namespace ChainRegistry

variable {α ρ : Type}

/-- A codec whose values are told by their leaves. -/
structure Codec.Scheme (codec : Codec ρ) (reference : ρ) (leaves : List (Leaf ρ)) : Prop where
  follows : codec.Follows leaves reference
  heeds : codec.Heeds leaves
  shows : codec.Shows leaves
  spans : codec.Spans leaves
  determined : ∀ r s, (∀ leaf ∈ leaves, leaf.get r = leaf.get s) → r = s

theorem Codec.Scheme.eq_of_under {codec : Codec α} {reference : α} {leaves : List (Leaf α)}
    (hscheme : codec.Scheme reference leaves) {name : String} {part : ρ → α} {r s : ρ}
    (hsame : ∀ leaf ∈ leaves.map (Leaf.under name part), leaf.get r = leaf.get s) :
    part r = part s :=
  hscheme.determined _ _ fun leaf hleaf =>
    hsame (leaf.under name part) (List.mem_map_of_mem hleaf)

/-! ## Scalars -/

section Scalars

theorem LeafValue.tidy_node (value : LeafValue) : value.node.IsTidy := by
  apply Node.IsTidy.value
  intro entries
  cases value <;> exact Node.noConfusion

theorem LeafValue.values_node (value : LeafValue) : value.node.values = [value.node] := by
  cases value <;> rfl

theorem LeafValue.depth_node (value : LeafValue) : value.node.depth = 0 := by
  cases value <;> rfl

theorem Codec.scheme_scalar {codec : Codec α} {leaf : Leaf α} (reference : α)
    (hpath : leaf.path = []) (hnullable : leaf.nullable = false)
    (hread : ∀ origin node, (codec.read? origin node).map leaf.get = leaf.kind.read? origin node)
    (hwrite : ∀ a, codec.write a = (leaf.get a).node)
    (htyped : ∀ a, leaf.kind.Denotes (leaf.get a).node (leaf.get a))
    (hget : ∀ a b, leaf.get a = leaf.get b → a = b) :
    codec.Scheme reference [leaf] where
  follows := by
    intro origin node _
    have houtcome : leaf.outcome? reference origin node =
        (codec.read? origin node).map leaf.get := by
      rw [hread]
      simp [Leaf.outcome?, Leaf.given?, hpath, hnullable, Node.at?, Option.filter]
    cases hcase : codec.read? origin node with
    | none => exact ⟨leaf, List.mem_singleton_self leaf, by simp [houtcome, hcase]⟩
    | some a =>
        intro other hother
        obtain rfl := List.mem_singleton.mp hother
        simp [houtcome, hcase]
  heeds := by
    intro origin node a hcase other hother inner hgiven
    obtain rfl := List.mem_singleton.mp hother
    have hinner : node = inner := by
      simpa [Leaf.given?, hpath, hnullable, Node.at?, Option.filter] using hgiven
    rw [← hinner, ← hread, hcase, Option.map_some]
  shows := by
    constructor
    · intro a
      rw [hwrite]
      exact LeafValue.tidy_node (leaf.get a)
    · intro a other hother
      obtain rfl := List.mem_singleton.mp hother
      simp [hpath, Node.at?, hwrite]
    · intro a other hother
      obtain rfl := List.mem_singleton.mp hother
      exact htyped a
  spans := by
    constructor
    · intro a value hvalue
      rw [hwrite, LeafValue.values_node, List.mem_singleton] at hvalue
      exact ⟨leaf, List.mem_singleton_self leaf, hvalue⟩
    · intro a levels _
      rw [hwrite, LeafValue.depth_node]
      exact Nat.zero_le levels
  determined a b hsame := hget a b (hsame leaf (List.mem_singleton_self leaf))

theorem Scalar.lt_of_natural? {origin : Origin} {size n : Nat} {node : Node}
    (h : natural? origin size node = some n) : n < size := by
  have hfilter := (Option.filter_eq_some_iff.mp h).2
  simpa using hfilter

/-- All three widths of numbers are read and written alike. -/
theorem Codec.scheme_number {codec : Codec α} {size : Nat} {ofNat : Nat → α} {toNat : α → Nat}
    (reference : α)
    (hread : ∀ origin node,
      codec.read? origin node = (Scalar.natural? origin size node).map ofNat)
    (hwrite : ∀ a, codec.write a = .int (toNat a))
    (hvalue : ∀ n, n < size → toNat (ofNat n) = n) (hsize : ∀ a, toNat a < size)
    (hinj : ∀ a b, toNat a = toNat b → a = b) :
    codec.Scheme reference [⟨[], .number size, false, fun a => .number (toNat a)⟩] := by
  refine scheme_scalar reference rfl rfl ?_ hwrite (fun a => .number (hsize a)) ?_
  · intro origin node
    rw [hread, Option.map_map]
    apply Option.map_congr
    intro n hn
    simp [hvalue n (Scalar.lt_of_natural? hn)]
  · intro a b hsame
    exact hinj a b (LeafValue.number.inj hsame)

theorem Codec.word64_scheme (reference : UInt64) :
    Codec.word64.Scheme reference [Leaf.word64] :=
  scheme_number reference (fun _ _ => rfl) (fun _ => rfl)
    (fun _ hn => UInt64.toNat_ofNat_of_lt' hn) UInt64.toNat_lt_size fun _ _ => UInt64.toNat_inj.mp

theorem Codec.word32_scheme (reference : UInt32) :
    Codec.word32.Scheme reference [Leaf.word32] :=
  scheme_number reference (fun _ _ => rfl) (fun _ => rfl)
    (fun _ hn => UInt32.toNat_ofNat_of_lt' hn) UInt32.toNat_lt_size fun _ _ => UInt32.toNat_inj.mp

theorem Codec.word16_scheme (reference : UInt16) :
    Codec.word16.Scheme reference [Leaf.word16] :=
  scheme_number reference (fun _ _ => rfl) (fun _ => rfl)
    (fun _ hn => UInt16.toNat_ofNat_of_lt' hn) UInt16.toNat_lt_size fun _ _ => UInt16.toNat_inj.mp

theorem Codec.fraction_scheme (reference : Binary64) :
    Codec.fraction.Scheme reference [Leaf.fraction] :=
  scheme_scalar reference rfl rfl (fun _ _ => rfl) (fun _ => rfl) .fraction
    fun _ _ hsame => LeafValue.fraction.inj hsame

theorem Codec.text_scheme (reference : String) :
    Codec.text.Scheme reference [Leaf.text] :=
  scheme_scalar reference rfl rfl (fun _ _ => rfl) (fun _ => rfl) .text
    fun _ _ hsame => LeafValue.text.inj hsame

end Scalars

/-! ## Records -/

section Records

/-- A part follows its leaves and shows them. -/
structure Part.Sound (part : Part ρ) (reference : ρ) : Prop where
  lawful : part.Lawful reference
  heeds : part.Heeds
  shows : part.Shows
  spans : part.Spans

theorem Part.sound_of {name : String} {codec : Codec α} {get : ρ → α} {set : ρ → α → ρ}
    {leaves : List (Leaf α)} {reference : ρ} (hscheme : codec.Scheme (get reference) leaves)
    (hset : ∀ r v, get (set r v) = v) :
    (Part.of name codec get set leaves).Sound reference :=
  ⟨lawful_of hscheme.follows hset, heeds_of hscheme.heeds hset, shows_of hscheme.shows,
    spans_of hscheme.spans⟩

theorem Part.sound_nullable {name : String} {codec : Codec α} {get : ρ → α} {set : ρ → α → ρ}
    {leaf : Leaf α} {reference : ρ} (hpath : leaf.path = [])
    (hscheme : codec.Scheme (get reference) [leaf]) (hset : ∀ r v, get (set r v) = v) :
    (Part.of name codec get set [leaf]).nullable.Sound reference :=
  ⟨lawful_nullable hpath hscheme.follows hset, heeds_nullable hpath hscheme.heeds hset,
    (shows_of hscheme.shows).nullable, (spans_of hscheme.spans).nullable⟩

theorem Part.nullable_spares_nullable {β : Type} {name other : String} {codec : Codec α}
    {codec' : Codec β} {get : ρ → α} {set : ρ → α → ρ} {get' : ρ → β} {set' : ρ → β → ρ}
    {leaves : List (Leaf α)} {leaves' : List (Leaf β)} (hkeep : ∀ r v, get' (set r v) = get' r) :
    (Part.of name codec get set leaves).nullable.Spares
      (Part.of other codec' get' set' leaves').nullable := by
  intro leaf hleaf origin node r s hupdate
  obtain ⟨inner, hinner, rfl⟩ := List.mem_map.mp hleaf
  cases hnull : node.isNull with
  | true =>
      obtain rfl := Node.eq_null_of_isNull hnull
      obtain rfl := Option.some.inj hupdate
      rfl
  | false =>
      rw [Part.nullable, Field.nullable_update?_of_not_null _ hnull r] at hupdate
      exact Part.of_spares_of hkeep inner hinner origin node r s hupdate

theorem Codec.Scheme.eq_of_orNull {codec : Codec α} {reference : α} {leaves : List (Leaf α)}
    (hscheme : codec.Scheme reference leaves) {name : String} {part : ρ → α} {r s : ρ}
    (hsame : ∀ leaf ∈ (leaves.map (Leaf.under name part)).map Leaf.orNull,
      leaf.get r = leaf.get s) :
    part r = part s :=
  hscheme.eq_of_under fun leaf hleaf => hsame leaf.orNull (List.mem_map_of_mem hleaf)

/-- The parts of a record, from its fields and the leaves of each of them. -/
def Part.zip (fields : List (Field ρ)) (groups : List (List (Leaf ρ))) : List (Part ρ) :=
  List.zipWith Part.mk fields groups

theorem Codec.scheme_record {fields : List (Field ρ)} {groups : List (List (Leaf ρ))}
    {reference : ρ} (hfields : (Part.zip fields groups).map Part.field = fields)
    (hleaves : (Part.zip fields groups).flatMap Part.leaves = groups.flatten)
    (hne : groups.flatten ≠ []) (hnodup : (fields.map Field.name).Nodup)
    (hnames : ∀ field ∈ fields, Node.isName field.name = true)
    (hsound : ∀ part ∈ Part.zip fields groups, part.Sound reference)
    (hspare : (Part.zip fields groups).Pairwise fun part other =>
      part.Spares other ∧ other.Spares part)
    (hdetermined : ∀ r s,
      (∀ group ∈ groups, ∀ leaf ∈ group, leaf.get r = leaf.get s) → r = s) :
    (Codec.record fields reference).Scheme reference groups.flatten := by
  have hparts : ∀ field ∈ fields, ∃ part ∈ Part.zip fields groups, part.field = field := by
    intro field hfield
    rw [← hfields] at hfield
    exact List.mem_map.mp hfield
  refine ⟨?_, ?_, ?_, ?_, ?_⟩
  · intro origin tree hform
    rw [← hleaves] at hne hform ⊢
    have hdecided : DecidedByLeaves _ reference origin tree
        (Record.readOver? ((Part.zip fields groups).map Part.field) reference origin tree) :=
      Record.readOver?_decided (fun part hpart => (hsound part hpart).lawful) hspare hne hform
    rwa [hfields] at hdecided
  · intro origin tree r hread
    rw [← hleaves]
    rw [← hfields] at hread
    exact Record.readOver?_heeds (fun part hpart => (hsound part hpart).lawful.named)
      (fun part hpart => (hsound part hpart).heeds) hspare hread
  · rw [← hleaves]
    refine Record.write_shows hnodup hnames ?_ ?_ fun part hpart => (hsound part hpart).shows
    · intro field hfield r
      obtain ⟨part, hpart, rfl⟩ := hparts field hfield
      exact (hsound part hpart).shows.tidy r
    · intro part hpart
      rw [← hfields]
      exact List.mem_map_of_mem hpart
  · rw [← hleaves] at hne ⊢
    have hspans : Codec.Spans ⟨Record.write ((Part.zip fields groups).map Part.field),
        Record.readOver? fields reference⟩ ((Part.zip fields groups).flatMap Part.leaves) :=
      Record.write_spans hne (fun part hpart => (hsound part hpart).shows)
        fun part hpart => (hsound part hpart).spans
    rwa [hfields] at hspans
  · intro r s hsame
    apply hdetermined r s
    intro group hgroup leaf hleaf
    exact hsame leaf (List.mem_flatten.mpr ⟨group, hgroup, hleaf⟩)

end Records

end ChainRegistry
