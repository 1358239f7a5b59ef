import ChainRegistry.Registry.Form

/-!
# Sections that no document changes

Reading a record is a chain of updates by its fields.  An aspect of the record that no single field
touches is therefore the same after the whole of it, whatever the document looks like: a table, a
list, known or unknown keys, values of any shape.

The fields that a registry is read by never touch its treasury or its bounds on amounts.  Hence
every registry that is read from any origin has the reference values there.
-/

namespace ChainRegistry

variable {ρ β : Type}

/-- No update by the field changes this aspect of a record. -/
def Field.Keeps (field : Field ρ) (aspect : ρ → β) : Prop :=
  ∀ origin node r s, field.update? origin node r = some s → aspect s = aspect r

theorem Field.of_keeps {α : Type} {name : String} {codec : Codec α}
    {get : ρ → α} {set : ρ → α → ρ} {aspect : ρ → β}
    (hset : ∀ r v, aspect (set r v) = aspect r) :
    (Field.of name codec get set).Keeps aspect := by
  intro origin node r s hupdate
  obtain ⟨v, -, rfl⟩ := Option.map_eq_some_iff.mp hupdate
  exact hset r v

namespace Record

/-- Fields without an entry of their name do not count. -/
theorem readEntries?_keeps_of_given {aspect : ρ → β} {origin : Origin}
    {entries : List (String × Node)} {fields : List (Field ρ)}
    (hkeeps : ∀ field ∈ fields, (∃ entry ∈ entries, entry.1 = field.name) → field.Keeps aspect)
    {r s : ρ} (hread : readEntries? origin entries fields r = some s) :
    aspect s = aspect r := by
  induction fields generalizing r with
  | nil =>
      simp only [readEntries?, Option.some.injEq] at hread
      rw [hread]
  | cons field fields ih =>
      rw [List.forall_mem_cons] at hkeeps
      unfold readEntries? at hread
      split at hread
      next => exact ih hkeeps.2 hread
      next entry hentries =>
        have hentry : entry ∈ entries.filter fun entry => entry.1 == field.name :=
          hentries ▸ List.mem_singleton_self entry
        obtain ⟨hmem, hname⟩ := List.mem_filter.mp hentry
        obtain ⟨t, hupdate, hread⟩ := Option.bind_eq_some_iff.mp hread
        rw [ih hkeeps.2 hread]
        exact hkeeps.1 ⟨entry, hmem, eq_of_beq hname⟩ origin entry.2 r t hupdate
      next => contradiction

theorem readEntries?_keeps {aspect : ρ → β} {origin : Origin} {entries : List (String × Node)}
    {fields : List (Field ρ)} (hkeeps : ∀ field ∈ fields, field.Keeps aspect) {r s : ρ}
    (hread : readEntries? origin entries fields r = some s) :
    aspect s = aspect r :=
  readEntries?_keeps_of_given (fun field hfield _ => hkeeps field hfield) hread

theorem readItems?_keeps {aspect : ρ → β} {origin : Origin} {items : List Node}
    {fields : List (Field ρ)} (hkeeps : ∀ field ∈ fields, field.Keeps aspect) {r s : ρ}
    (hread : readItems? origin items fields r = some s) :
    aspect s = aspect r := by
  induction fields generalizing items r with
  | nil =>
      cases items with
      | nil =>
          simp only [readItems?, Option.some.injEq] at hread
          rw [hread]
      | cons item items =>
          simp only [readItems?] at hread
          split at hread
          next => contradiction
          next =>
            simp only [Option.some.injEq] at hread
            rw [hread]
  | cons field fields ih =>
      have hrest : ∀ field ∈ fields, field.Keeps aspect :=
        fun other hmem => hkeeps other (List.mem_cons_of_mem field hmem)
      cases items with
      | nil =>
          simp only [readItems?, Option.some.injEq] at hread
          rw [hread]
      | cons item items =>
          obtain ⟨t, hupdate, hread⟩ := Option.bind_eq_some_iff.mp hread
          rw [ih hrest hread]
          exact hkeeps field List.mem_cons_self origin item r t hupdate

/-- What no field touches is as it was at the start of the reading. -/
theorem readOver?_keeps {aspect : ρ → β} {origin : Origin} {node : Node}
    {fields : List (Field ρ)} (hkeeps : ∀ field ∈ fields, field.Keeps aspect) {start r : ρ}
    (hread : readOver? fields start origin node = some r) :
    aspect r = aspect start := by
  unfold readOver? at hread
  split at hread
  next => exact readEntries?_keeps hkeeps hread
  next => exact readItems?_keeps hkeeps hread
  next =>
    split at hread
    next =>
      simp only [Option.some.injEq] at hread
      rw [hread]
    next => contradiction
  next => contradiction

end Record

namespace Registry

/-- What the sealed sections hold. -/
def sealedPart (r : Registry) : Treasury × AmountBounds :=
  (r.treasury, r.amounts)

theorem openSections_keep_sealedPart :
    ∀ field ∈ openSections, field.Keeps sealedPart := by
  intro field hmem
  simp only [openSections, List.mem_cons, List.not_mem_nil, or_false] at hmem
  rcases hmem with rfl | rfl | rfl | rfl | rfl | rfl | rfl | rfl | rfl | rfl
  all_goals exact Field.of_keeps fun _ _ => rfl

theorem sealedPart_of_read? {origin : Origin} {node : Node} {r : Registry}
    (hread : codec.read? origin node = some r) :
    r.sealedPart = reference.sealedPart :=
  Record.readOver?_keeps openSections_keep_sealedPart hread

theorem treasury_of_read? {origin : Origin} {node : Node} {r : Registry}
    (hread : codec.read? origin node = some r) : r.treasury = .reference :=
  congrArg Prod.fst (sealedPart_of_read? hread)

theorem amounts_of_read? {origin : Origin} {node : Node} {r : Registry}
    (hread : codec.read? origin node = some r) : r.amounts = .reference :=
  congrArg Prod.snd (sealedPart_of_read? hread)

end Registry

end ChainRegistry
