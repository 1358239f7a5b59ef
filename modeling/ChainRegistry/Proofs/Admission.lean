import ChainRegistry.Registry.Basic

/-!
# Admission of chat metadata

A record is admitted exactly if its texts and tags keep the limits of the registry, all its tags
are supported, and the texts that the kind of transaction asks for are there and not empty.
Otherwise the answer is a violation that the record has, with its true length or count beside the
limit, and the record has no violation of an earlier check.  Of several tags that are not supported
the first in the list is named.
-/

namespace ChainRegistry

/-! ## What admission asks for -/

/-- Votes and proposals need both texts, and an ingest needs its transcript. -/
def TransactionKind.Asks (kind : TransactionKind) : ChatField → Prop
  | .contextId => kind = .governanceVote ∨ kind = .governanceProposal
  | .transcriptHash =>
    kind = .governanceVote ∨ kind = .governanceProposal ∨ kind = .migrationIngest

theorem TransactionKind.mem_required_iff (kind : TransactionKind) (field : ChatField) :
    field ∈ kind.required ↔ kind.Asks field := by
  cases kind <;> cases field <;> simp [required, Asks]

structure ChatRecord.IsAdmissible (record : ChatRecord) (r : Registry) (kind : TransactionKind) :
    Prop where
  contextId : ∀ text, record.contextId = some text → text.length ≤ r.chat.contextId.toNat
  transcriptHash :
    ∀ text, record.transcriptHash = some text → text.length ≤ r.chat.transcriptHash.toNat
  tagCount : record.tags.length ≤ r.chat.tags.toNat
  tags : ∀ tag ∈ record.tags, tag ∈ r.jurisdictions.tags
  required : ∀ field, kind.Asks field → ∃ text, record.text field = some text ∧ text ≠ ""

namespace AdmissionError

/-- What an error says about a record. -/
def Describes (record : ChatRecord) (r : Registry) (kind : TransactionKind) :
    AdmissionError → Prop
  | overlong field length limit =>
    ∃ text, record.text field = some text ∧ length = text.length ∧
      limit = (r.chat.length field).toNat ∧ limit < length
  | excessTags count limit =>
    count = record.tags.length ∧ limit = r.chat.tags.toNat ∧ limit < count
  | unsupportedTag tag =>
    ∃ before after, record.tags = before ++ tag :: after ∧ tag ∉ r.jurisdictions.tags ∧
      ∀ earlier ∈ before, earlier ∈ r.jurisdictions.tags
  | lacking field asking =>
    asking = kind ∧ kind.Asks field ∧ (record.text field = none ∨ record.text field = some "")

/-- The place of an error in the order of the checks. -/
def place : AdmissionError → Nat
  | overlong .contextId _ _ => 0
  | overlong .transcriptHash _ _ => 1
  | excessTags _ _ => 2
  | unsupportedTag _ => 3
  | lacking .contextId _ => 4
  | lacking .transcriptHash _ => 5

end AdmissionError

/-! ## The first answer -/

/-- Where every error has a place of its own among the answers, the first answer is the error with
the least place. -/
theorem findSome?_eq_some_iff_of_places {ε : Type} {answers : List (Option ε)} {place : ε → Nat}
    {Holds : ε → Prop} (hholds : ∀ error, Holds error ↔ answers[place error]? = some (some error))
    (hplace : ∀ index error, answers[index]? = some (some error) → place error = index)
    (error : ε) :
    answers.findSome? id = some error ↔
      Holds error ∧ ∀ other, Holds other → place error ≤ place other := by
  have hfirst : ∀ found, answers.findSome? id = some found →
      Holds found ∧ ∀ other, Holds other → place found ≤ place other := by
    intro found hfound
    obtain ⟨before, answer, after, rfl, hanswer, hbefore⟩ := List.findSome?_eq_some_iff.mp hfound
    obtain rfl : answer = some found := hanswer
    have hindex : (before ++ some found :: after)[before.length]? = some (some found) := by
      simp
    have hat := hplace _ _ hindex
    refine ⟨(hholds found).mpr (hat ▸ hindex), fun other hother => ?_⟩
    apply Nat.le_of_not_lt
    intro hearlier
    rw [hat] at hearlier
    have hother := (hholds other).mp hother
    rw [List.getElem?_append_left hearlier] at hother
    have hnone := hbefore _ (List.mem_of_getElem? hother)
    contradiction
  constructor
  · exact hfirst error
  · rintro ⟨herror, hleast⟩
    have hindex := (hholds error).mp herror
    cases hfound : answers.findSome? id with
    | none =>
        have hnone := List.findSome?_eq_none_iff.mp hfound _ (List.mem_of_getElem? hindex)
        contradiction
    | some found =>
        obtain ⟨hheld, hminimal⟩ := hfirst found hfound
        have hsame : place found = place error :=
          Nat.le_antisymm (hminimal error herror) (hleast found hheld)
        have hfoundIndex := (hholds found).mp hheld
        rw [hsame, hindex] at hfoundIndex
        exact (Option.some.inj hfoundIndex).symm

namespace ChatRecord

variable {record : ChatRecord} {r : Registry} {kind : TransactionKind} {error : AdmissionError}

/-- What is missing, field by field. -/
def lack? (record : ChatRecord) (kind : TransactionKind) (field : ChatField) :
    Option AdmissionError :=
  if field ∈ kind.required ∧ record.lacks field then some (.lacking field kind) else none

theorem missing?_eq : record.missing? kind =
    [record.lack? kind .contextId, record.lack? kind .transcriptHash].findSome? id := by
  cases kind <;> cases hcontext : record.lacks .contextId <;>
    cases htranscript : record.lacks .transcriptHash <;>
    simp [missing?, lack?, TransactionKind.required, hcontext, htranscript]

/-- The answers of all six checks. -/
def answers (record : ChatRecord) (r : Registry) (kind : TransactionKind) :
    List (Option AdmissionError) :=
  record.findings r.chat r.jurisdictions ++
    [record.lack? kind .contextId, record.lack? kind .transcriptHash]

theorem chatViolation?_eq :
    r.chatViolation? (some kind) record = (record.answers r kind).findSome? id := by
  rw [Registry.chatViolation?, violation?, answers, List.findSome?_append, List.findSome?_append,
    ← missing?_eq]
  simp

/-! ## Single checks -/

theorem overlong?_eq_some_iff {limits : ChatLimits} {field : ChatField} :
    record.overlong? limits field = some error ↔
      ∃ text, record.text field = some text ∧ (limits.length field).toNat < text.length ∧
        .overlong field text.length (limits.length field).toNat = error := by
  simp [overlong?, Option.bind_eq_some_iff]

theorem find?_unsupported_eq_some_iff {tags : List String} {jurisdictions : Jurisdictions}
    {tag : String} :
    (tags.find? fun tag => !jurisdictions.supports tag) = some tag ↔
      ∃ before after, tags = before ++ tag :: after ∧ tag ∉ jurisdictions.tags ∧
        ∀ earlier ∈ before, earlier ∈ jurisdictions.tags := by
  simp only [List.find?_eq_some_iff_append, Jurisdictions.supports, Bool.not_eq_true',
    Bool.not_not, List.contains_eq_mem, decide_eq_true_eq, decide_eq_false_iff_not]
  constructor
  · rintro ⟨htag, before, after, hsplit, hbefore⟩
    exact ⟨before, after, hsplit, htag, hbefore⟩
  · rintro ⟨before, after, hsplit, htag, hbefore⟩
    exact ⟨htag, before, after, hsplit, hbefore⟩

theorem lacks_iff {field : ChatField} :
    record.lacks field = true ↔ record.text field = none ∨ record.text field = some "" := by
  cases htext : record.text field <;> simp [lacks, htext]

theorem lack?_eq_some_iff {field : ChatField} :
    record.lack? kind field = some error ↔
      kind.Asks field ∧ (record.text field = none ∨ record.text field = some "") ∧
        .lacking field kind = error := by
  simp [lack?, TransactionKind.mem_required_iff, lacks_iff, and_assoc]

/-- Every error stands at its own place among the answers. -/
theorem describes_iff_answers :
    error.Describes record r kind ↔ (record.answers r kind)[error.place]? = some (some error) := by
  cases error with
  | overlong field length limit =>
      have hanswer : (record.answers r kind)[(AdmissionError.overlong field length limit).place]? =
          some (record.overlong? r.chat field) := by
        cases field <;> rfl
      rw [hanswer, Option.some.injEq, overlong?_eq_some_iff]
      constructor
      · rintro ⟨text, htext, rfl, rfl, hlong⟩
        exact ⟨text, htext, hlong, rfl⟩
      · rintro ⟨text, htext, hlong, hsame⟩
        obtain ⟨-, rfl, rfl⟩ := AdmissionError.overlong.inj hsame
        exact ⟨text, htext, rfl, rfl, hlong⟩
  | excessTags count limit =>
      change _ ↔ some (if r.chat.tags.toNat < record.tags.length then
        some (AdmissionError.excessTags record.tags.length r.chat.tags.toNat) else none) = _
      simp only [AdmissionError.Describes, Option.some.injEq, Option.ite_none_right_eq_some,
        AdmissionError.excessTags.injEq]
      constructor
      · rintro ⟨rfl, rfl, hmany⟩
        exact ⟨hmany, rfl, rfl⟩
      · rintro ⟨hmany, rfl, rfl⟩
        exact ⟨rfl, rfl, hmany⟩
  | unsupportedTag tag =>
      change _ ↔ some ((record.tags.find? fun tag => !r.jurisdictions.supports tag).map
        AdmissionError.unsupportedTag) = _
      rw [Option.some.injEq, Option.map_eq_some_iff]
      simp only [AdmissionError.unsupportedTag.injEq, exists_eq_right]
      exact find?_unsupported_eq_some_iff.symm
  | lacking field asking =>
      have hanswer : (record.answers r kind)[(AdmissionError.lacking field asking).place]? =
          some (record.lack? kind field) := by
        cases field <;> rfl
      rw [hanswer, Option.some.injEq, lack?_eq_some_iff]
      simp only [AdmissionError.Describes, AdmissionError.lacking.injEq, true_and]
      constructor
      · rintro ⟨rfl, hasks, hlacks⟩
        exact ⟨hasks, hlacks, rfl⟩
      · rintro ⟨hasks, hlacks, rfl⟩
        exact ⟨rfl, hasks, hlacks⟩

theorem place_of_answer {index : Nat}
    (hanswer : (record.answers r kind)[index]? = some (some error)) : error.place = index := by
  have hindex : index < 6 := (List.getElem?_eq_some_iff.mp hanswer).1
  match index, hindex, hanswer with
  | 0, _, hanswer | 1, _, hanswer =>
      obtain ⟨_, -, -, rfl⟩ := overlong?_eq_some_iff.mp (Option.some.inj hanswer)
      rfl
  | 2, _, hanswer =>
      obtain ⟨-, hsame⟩ := Option.ite_none_right_eq_some.mp (Option.some.inj hanswer)
      exact Option.some.inj hsame ▸ rfl
  | 3, _, hanswer =>
      obtain ⟨_, -, rfl⟩ := Option.map_eq_some_iff.mp (Option.some.inj hanswer)
      rfl
  | 4, _, hanswer | 5, _, hanswer =>
      obtain ⟨-, -, rfl⟩ := lack?_eq_some_iff.mp (Option.some.inj hanswer)
      rfl

theorem overlong?_eq_none_iff {limits : ChatLimits} {field : ChatField} :
    record.overlong? limits field = none ↔
      ∀ text, record.text field = some text → text.length ≤ (limits.length field).toNat := by
  simp [overlong?, Option.bind_eq_none_iff]

theorem lack?_eq_none_iff {field : ChatField} :
    record.lack? kind field = none ↔
      (kind.Asks field → ∃ text, record.text field = some text ∧ text ≠ "") := by
  cases htext : record.text field <;>
    simp [lack?, TransactionKind.mem_required_iff, lacks_iff, htext]

theorem answers_eq_none_iff :
    (∀ answer ∈ record.answers r kind, answer = none) ↔ record.IsAdmissible r kind := by
  simp only [answers, findings, List.cons_append, List.nil_append, List.forall_mem_cons,
    overlong?_eq_none_iff, lack?_eq_none_iff, ite_eq_right_iff, reduceCtorEq, imp_false,
    Nat.not_lt, Option.map_eq_none_iff, List.find?_eq_none, Bool.not_eq_true', Bool.not_eq_false,
    Jurisdictions.supports, List.contains_eq_mem, decide_eq_true_eq]
  constructor
  · rintro ⟨hcontext, htranscript, hcount, htags, hasksContext, hasksTranscript, -⟩
    exact {
      contextId := hcontext
      transcriptHash := htranscript
      tagCount := hcount
      tags := htags
      required := fun field => match field with
        | .contextId => hasksContext
        | .transcriptHash => hasksTranscript }
  · intro h
    exact ⟨h.contextId, h.transcriptHash, h.tagCount, h.tags, h.required .contextId,
      h.required .transcriptHash, by simp⟩

end ChatRecord

/-- A record is admitted exactly if it is admissible, and otherwise the answer is what is wrong
with it at the earliest check. -/
theorem Registry.chatViolation?_earliest (r : Registry) (kind : TransactionKind)
    (record : ChatRecord) :
    (r.chatViolation? (some kind) record = none ↔ record.IsAdmissible r kind) ∧
      ∀ error, r.chatViolation? (some kind) record = some error ↔
        error.Describes record r kind ∧
          ∀ other : AdmissionError, other.Describes record r kind → error.place ≤ other.place := by
  rw [ChatRecord.chatViolation?_eq]
  constructor
  · rw [List.findSome?_eq_none_iff]
    exact ChatRecord.answers_eq_none_iff
  · exact findSome?_eq_some_iff_of_places (fun _ => ChatRecord.describes_iff_answers)
      (fun _ _ => ChatRecord.place_of_answer)

/-- An empty identity is short enough, and a tag in the wrong case comes before what is missing. -/
example : Registry.reference.chatViolation? (some .governanceVote)
    ⟨some "", none, ["EU", "gdpr", "eu"]⟩ = some (.unsupportedTag "gdpr") := by
  decide +kernel

end ChainRegistry
