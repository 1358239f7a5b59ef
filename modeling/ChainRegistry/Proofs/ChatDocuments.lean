import ChainRegistry.Proofs.NodeValues
import ChainRegistry.Proofs.RecordTexts
import ChainRegistry.Registry.Basic

/-!
# Chat metadata in JSON

Metadata are written without the texts that they lack, and come back as they were, whatever
characters are in their texts and tags.  Hence they are admitted after the exchange exactly if they
were before.  An object gives a text under its name; a null there and no entry at all mean the same,
whereas an empty text is a text.  The tags may be left out but cannot be null, and no name may stand
twice.
-/

namespace ChainRegistry

namespace ChatRecord

/-- What the entries under the name of an optional text give for it. -/
inductive GivesText (name : String) : List (String × Node) → Option String → Prop
  | text (s : String) : GivesText name [(name, .text s)] (some s)
  | null : GivesText name [(name, .null)] none
  | absent : GivesText name [] none

/-- What the entries under a name give for a list of texts. -/
inductive GivesTexts (name : String) : List (String × Node) → List String → Prop
  | texts (ss : List String) : GivesTexts name [(name, .list (ss.map .text))] ss
  | absent : GivesTexts name [] []

/-- The metadata that are given by the entries of an object. -/
structure IsGivenBy (record : ChatRecord) (entries : List (String × Node)) : Prop where
  texts : ∀ field : ChatField,
    GivesText field.name (Record.under field.name entries) (record.text field)
  tags : GivesTexts "jurisdiction_tags" (Record.under "jurisdiction_tags" entries) record.tags

variable {name : String} {entries : List (String × Node)} {record : ChatRecord}

/-! ## What is read -/

theorem optionalText_read?_eq_some_iff {node : Node} {text? : Option String} :
    optionalText.read? .json node = some text? ↔
      (node = .null ∧ text? = none) ∨ ∃ s, node = .text s ∧ text? = some s := by
  cases node with
  | null => simp [optionalText, eq_comm]
  | text s => simp [optionalText, Scalar.text?, eq_comm]
  | _ => simp [optionalText, Scalar.text?]

theorem givesText_iff {text? : Option String} :
    (∃ given?, Record.given? optionalText .json name entries = some given? ∧
      given?.getD none = text?) ↔ GivesText name (Record.under name entries) text? := by
  constructor
  · rintro ⟨given?, hgiven, rfl⟩
    cases given? with
    | none =>
        rw [Record.given?_eq_none_iff.mp hgiven]
        exact .absent
    | some found? =>
        obtain ⟨node, hunder, hread⟩ := Record.given?_eq_some_iff.mp hgiven
        rw [hunder]
        rcases optionalText_read?_eq_some_iff.mp hread with ⟨rfl, rfl⟩ | ⟨s, rfl, rfl⟩
        · exact .null
        · exact .text s
  · intro hgives
    generalize hunder : Record.under name entries = found at hgives
    cases hgives with
    | text s =>
        refine ⟨some (some s), Record.given?_eq_some_iff.mpr ⟨_, hunder, ?_⟩, rfl⟩
        exact optionalText_read?_eq_some_iff.mpr (.inr ⟨s, rfl, rfl⟩)
    | null =>
        refine ⟨some none, Record.given?_eq_some_iff.mpr ⟨_, hunder, ?_⟩, rfl⟩
        exact optionalText_read?_eq_some_iff.mpr (.inl ⟨rfl, rfl⟩)
    | absent => exact ⟨none, Record.given?_eq_none_iff.mpr hunder, rfl⟩

theorem givesTexts_iff {ss : List String} :
    (∃ given?, Record.given? .texts .json name entries = some given? ∧ given?.getD [] = ss) ↔
      GivesTexts name (Record.under name entries) ss := by
  constructor
  · rintro ⟨given?, hgiven, rfl⟩
    cases given? with
    | none =>
        rw [Record.given?_eq_none_iff.mp hgiven]
        exact .absent
    | some found =>
        obtain ⟨node, hunder, hread⟩ := Record.given?_eq_some_iff.mp hgiven
        obtain rfl := (Scalar.texts?_eq_some_iff (by decide)).mp hread
        rw [hunder]
        exact .texts found
  · intro hgives
    generalize hunder : Record.under name entries = found at hgives
    cases hgives with
    | texts ss =>
        refine ⟨some ss, Record.given?_eq_some_iff.mpr ⟨_, hunder, ?_⟩, rfl⟩
        exact Scalar.texts?_texts .json ss
    | absent => exact ⟨none, Record.given?_eq_none_iff.mpr hunder, rfl⟩

theorem read?_table (entries : List (String × Node)) :
    codec.read? .json (.table entries) =
      (Record.given? optionalText .json "chat_context_id" entries).bind fun contextId? =>
        (Record.given? optionalText .json "transcript_hash" entries).bind fun transcriptHash? =>
          (Record.given? .texts .json "jurisdiction_tags" entries).bind fun tags? =>
            some ⟨contextId?.getD none, transcriptHash?.getD none, tags?.getD []⟩ := by
  change Record.readEntries? .json entries fields ⟨none, none, []⟩ = _
  simp only [fields, Record.readEntries?_of, Record.readEntries?_done]
  refine Option.bind_congr fun contextId? _ => Option.bind_congr fun transcriptHash? _ =>
    Option.bind_congr fun tags? _ => ?_
  cases contextId? <;> cases transcriptHash? <;> cases tags? <;> rfl

theorem read?_table_iff :
    codec.read? .json (.table entries) = some record ↔ record.IsGivenBy entries := by
  simp only [read?_table, Option.bind_eq_some_iff, Option.some.injEq]
  constructor
  · rintro ⟨contextId?, hcontext, transcriptHash?, htranscript, tags?, htags, rfl⟩
    exact {
      texts := fun field => match field with
        | .contextId => givesText_iff.mp ⟨contextId?, hcontext, rfl⟩
        | .transcriptHash => givesText_iff.mp ⟨transcriptHash?, htranscript, rfl⟩
      tags := givesTexts_iff.mp ⟨tags?, htags, rfl⟩ }
  · rintro ⟨htexts, htags⟩
    obtain ⟨contextId?, hcontext, hcontextId⟩ := givesText_iff.mpr (htexts .contextId)
    obtain ⟨transcriptHash?, htranscript, htranscriptHash⟩ :=
      givesText_iff.mpr (htexts .transcriptHash)
    obtain ⟨tags?, htags, hsame⟩ := givesTexts_iff.mpr htags
    refine ⟨contextId?, hcontext, transcriptHash?, htranscript, tags?, htags, ?_⟩
    rw [hcontextId, htranscriptHash, hsame]
    rfl

/-! ## What is written -/

/-- The texts that are there, and the tags. -/
def written (record : ChatRecord) : List (String × Node) :=
  ([.contextId, .transcriptHash].flatMap fun field : ChatField =>
      (record.text field).toList.map fun s => (field.name, .text s)) ++
    [("jurisdiction_tags", .list (record.tags.map .text))]

theorem write_eq (record : ChatRecord) : codec.write record = .table record.written := by
  obtain ⟨contextId?, transcriptHash?, tags⟩ := record
  cases contextId? <;> cases transcriptHash? <;> rfl

theorem under_written_text (record : ChatRecord) (field : ChatField) :
    Record.under field.name record.written =
      (record.text field).toList.map fun s => (field.name, .text s) := by
  cases field <;> cases hcontext : record.contextId <;>
    cases htranscript : record.transcriptHash <;>
    simp [written, Record.under, ChatField.name, text, hcontext, htranscript]

theorem under_written_tags (record : ChatRecord) :
    Record.under "jurisdiction_tags" record.written =
      [("jurisdiction_tags", .list (record.tags.map .text))] := by
  cases hcontext : record.contextId <;> cases htranscript : record.transcriptHash <;>
    simp [written, Record.under, ChatField.name, text, hcontext, htranscript]

theorem isGivenBy_written (record : ChatRecord) : record.IsGivenBy record.written where
  texts field := by
    rw [under_written_text]
    cases record.text field with
    | none => exact .absent
    | some s => exact .text s
  tags := by
    rw [under_written_tags]
    exact .texts record.tags

theorem read?_write (record : ChatRecord) :
    codec.read? .json (codec.write record) = some record := by
  rw [write_eq, read?_table_iff]
  exact record.isGivenBy_written

theorem readBack_write (record : ChatRecord) :
    Json.readBack (codec.write record) = codec.write record := by
  simp [write_eq, written, Json.readBack, Json.readBackEntries_eq_map,
    Json.readBackItems_eq_map, Function.comp_def]

theorem parse?_print? (record : ChatRecord) (layout : Json.Layout) :
    (codec.print? layout .json record).bind (codec.parse? .json) = some record := by
  rw [Codec.parse?_print?_json layout (readBack_write record), read?_write]

/-- Metadata come back from their tree and from their texts in either layout, and are admitted as
before with every kind of transaction.  The objects that are read are those whose entries give
metadata, and what was read from a text is read again from the text that is written for it. -/
theorem documents_keep_records :
    (∀ record : ChatRecord, codec.read? .json (codec.write record) = some record ∧
        ∀ layout, (codec.print? layout .json record).bind (codec.parse? .json) = some record) ∧
      (∀ (r : Registry) (kind? : Option TransactionKind) (record : ChatRecord) layout,
        ((codec.print? layout .json record).bind (codec.parse? .json)).map
          (r.chatViolation? kind?) = some (r.chatViolation? kind? record)) ∧
      (∀ entries record,
        codec.read? .json (.table entries) = some record ↔ record.IsGivenBy entries) ∧
      ∀ text layout, ((codec.parse? .json text).bind fun record =>
        (codec.print? layout .json record).bind (codec.parse? .json)) =
          codec.parse? .json text := by
  refine ⟨fun record => ⟨?_, ?_⟩, ?_, ?_, ?_⟩
  · exact record.read?_write
  · exact record.parse?_print?
  · intro r kind? record layout
    rw [parse?_print?, Option.map_some]
  · exact fun entries record => read?_table_iff
  · intro text layout
    simp only [parse?_print?, Option.bind_fun_some]

/-- An empty text stands beside a null and below a key that means nothing. -/
example : codec.read? .json (.table [("note", .null), ("transcript_hash", .text ""),
    ("chat_context_id", .null)]) = some ⟨none, some "", []⟩ := by
  decide

end ChatRecord

end ChainRegistry
