import ChainRegistry.Proofs.Json.Documents
import ChainRegistry.Registry.Form

/-!
# Records and their texts

A record that is read from a table asks for the entries under each of its names in turn.  No entry
gives nothing, one entry gives the value that it is read as, and several are an error.  A value has
a text in a format if the tree that is written for it has one, and a text stands for the value that
its tree is read as.
-/

namespace ChainRegistry

variable {α ρ : Type}

/-- The origin of nodes that come from a text. -/
def Format.origin : Format → Origin
  | .json => .json
  | .toml => .toml

namespace Codec

/-- The text of a value.  The layout is for JSON, which has two. -/
def print? (codec : Codec α) (layout : Json.Layout) (format : Format) (a : α) : Option String :=
  match format with
  | .json => some (Json.print layout (codec.write a))
  | .toml => Toml.print? (codec.write a)

def parse? (codec : Codec α) (format : Format) (text : String) : Option α :=
  match format with
  | .json => (Json.parse? text).bind (codec.read? .json)
  | .toml => (Toml.parse? text).bind (codec.read? .toml)

/-- A tree that JSON gives back unchanged is read from its text as it is read itself. -/
theorem parse?_print?_json {codec : Codec α} {a : α} (layout : Json.Layout)
    (hback : Json.readBack (codec.write a) = codec.write a) :
    (codec.print? layout .json a).bind (codec.parse? .json) =
      codec.read? .json (codec.write a) := by
  simp only [print?, parse?, Option.bind_some, Json.parse?_print, hback]

end Codec

namespace Record

/-- The entries under a name. -/
def under (name : String) (entries : List (String × Node)) : List (String × Node) :=
  entries.filter fun entry => entry.1 == name

/-- What a table gives for a field. -/
def given? (codec : Codec α) (origin : Origin) (name : String) (entries : List (String × Node)) :
    Option (Option α) :=
  match under name entries with
  | [] => some none
  | [entry] => (codec.read? origin entry.2).map some
  | _ => none

variable {codec : Codec α} {origin : Origin} {name : String} {entries : List (String × Node)}

theorem eq_of_under_eq_singleton {entry : String × Node} (hunder : under name entries = [entry]) :
    entry = (name, entry.2) := by
  have hmem : entry ∈ under name entries := by simp [hunder]
  have hname : entry.1 = name := eq_of_beq (List.mem_filter.mp hmem).2
  rw [← hname]

theorem given?_eq_none_iff : given? codec origin name entries = some none ↔
    under name entries = [] := by
  unfold given?
  split
  next hunder => simp [hunder]
  next hunder => simp [hunder]
  next hempty _ => simpa using hempty

theorem given?_eq_some_iff {a : α} : given? codec origin name entries = some (some a) ↔
    ∃ node, under name entries = [(name, node)] ∧ codec.read? origin node = some a := by
  unfold given?
  split
  next hunder => simp [hunder]
  next entry hunder =>
    have hentry := eq_of_under_eq_singleton hunder
    rw [hunder, hentry]
    simp
  next hsingle =>
    simp only [reduceCtorEq, false_iff, not_exists, not_and]
    exact fun node hunder => absurd hunder (hsingle _)

theorem exists_of_given? {a? : Option α} (hgiven : given? codec origin name entries = some a?)
    (hmentioned : under name entries ≠ []) :
    ∃ a, a? = some a ∧ ∃ node, under name entries = [(name, node)] ∧
      codec.read? origin node = some a := by
  cases a? with
  | none => exact absurd (given?_eq_none_iff.mp hgiven) hmentioned
  | some a => exact ⟨a, rfl, given?_eq_some_iff.mp hgiven⟩

theorem mentionsAll_table {fields : List (Field ρ)} :
    mentionsAll fields (.table entries) = true ↔
      ∀ field ∈ fields, under field.name entries ≠ [] := by
  simp [mentionsAll, under]

theorem readEntries?_done (r : ρ) : readEntries? origin entries [] r = some r :=
  rfl

/-- Only JSON minds items behind the last field. -/
theorem readItems?_done_iff {items : List Node} {r s : ρ} :
    readItems? origin items [] r = some s ↔ (origin = .json → items = []) ∧ r = s := by
  cases items with
  | nil => simp [readItems?]
  | cons item items =>
      rw [readItems?]
      split <;> simp_all

/-- A field takes what the table gives for it, or else stays as it is. -/
theorem readEntries?_of (get : ρ → α) (set : ρ → α → ρ) (fields : List (Field ρ)) (r : ρ) :
    readEntries? origin entries (.of name codec get set :: fields) r =
      (given? codec origin name entries).bind fun a? =>
        readEntries? origin entries fields (a?.elim r (set r)) := by
  rw [readEntries?, given?, under]
  cases hnamed : entries.filter fun entry => entry.1 == name with
  | nil => simp only [Field.of, hnamed, Option.bind_some, Option.elim_none]
  | cons entry others =>
      cases others with
      | nil => simp [Field.of, hnamed, Option.bind_map, Function.comp_def]
      | cons => simp only [Field.of, hnamed, Option.bind_none]

end Record

end ChainRegistry
