import ChainRegistry.Jurisdictions

/-!
# Chat metadata and its admission

A transaction made in a chat carries the identity of the conversation, a hash of its transcript and
the tags of its jurisdictions.  Admission measures the texts in characters, counts the tags, looks
them up, and at last asks for the texts that the kind of transaction requires, where an empty text
counts as none.  The first violation in this order is reported.
-/

namespace ChainRegistry

inductive ChatField where
  | contextId
  | transcriptHash
  deriving DecidableEq, Repr

def ChatField.name : ChatField → String
  | .contextId => "chat_context_id"
  | .transcriptHash => "transcript_hash"

structure ChatLimits where
  contextId : UInt64
  transcriptHash : UInt64
  tags : UInt64
  deriving DecidableEq, Repr

namespace ChatLimits

def reference : ChatLimits where
  contextId := 36
  transcriptHash := 64
  tags := 10

def length (limits : ChatLimits) : ChatField → UInt64
  | .contextId => limits.contextId
  | .transcriptHash => limits.transcriptHash

def fields : List (Field ChatLimits) :=
  [.of "max_chat_context_id_length" .word64 (·.contextId) fun r v => { r with contextId := v },
    .of "max_transcript_hash_length" .word64 (·.transcriptHash)
      fun r v => { r with transcriptHash := v },
    .of "max_jurisdiction_tags" .word64 (·.tags) fun r v => { r with tags := v }]

def codec : Codec ChatLimits := .record fields reference

end ChatLimits

structure ChatRecord where
  contextId : Option String
  transcriptHash : Option String
  tags : List String
  deriving DecidableEq, Repr

inductive TransactionKind where
  | transfer
  | governanceProposal
  | governanceVote
  | migrationIngest
  deriving DecidableEq, Repr

instance : Category TransactionKind where
  noun := "transaction kind"
  all := [.transfer, .governanceProposal, .governanceVote, .migrationIngest]
  key
    | .transfer => "transfer"
    | .governanceProposal => "governance_proposal"
    | .governanceVote => "governance_vote"
    | .migrationIngest => "migration_ingest"
  mem_all a := by cases a <;> decide
  nodup_keys := by decide

def TransactionKind.required : TransactionKind → List ChatField
  | .transfer => []
  | .governanceProposal => [.contextId, .transcriptHash]
  | .governanceVote => [.contextId, .transcriptHash]
  | .migrationIngest => [.transcriptHash]

inductive AdmissionError where
  | overlong (field : ChatField) (length limit : Nat)
  | excessTags (count limit : Nat)
  | unsupportedTag (tag : String)
  | lacking (field : ChatField) (kind : TransactionKind)
  deriving DecidableEq, Repr

def AdmissionError.message : AdmissionError → String
  | overlong field length limit =>
    field.name ++ " is " ++ toString length ++ " characters, limit is " ++ toString limit
  | excessTags count limit =>
    toString count ++ " jurisdiction tags exceed limit of " ++ toString limit
  | unsupportedTag tag => "Invalid jurisdiction tag " ++ tag
  | lacking field kind =>
    Category.key kind ++ " transactions require " ++ field.name

namespace ChatRecord

/-! ## Document form -/

def optionalText : Codec (Option String) where
  write
    | some s => .text s
    | none => .null
  read?
    | _, .null => some none
    | origin, node => (Scalar.text? origin node).map some

def fields : List (Field ChatRecord) :=
  [.of "chat_context_id" optionalText (·.contextId) fun r v => { r with contextId := v },
    .of "transcript_hash" optionalText (·.transcriptHash) fun r v => { r with transcriptHash := v },
    .of "jurisdiction_tags" .texts (·.tags) fun r v => { r with tags := v }]

def isPresent : String × Node → Bool
  | (_, .null) => false
  | _ => true

/-- A text that is absent is not written. -/
def codec : Codec ChatRecord where
  write record :=
    .table ((fields.map fun field => (field.name, field.write record)).filter isPresent)
  read? := Record.readOver? fields ⟨none, none, []⟩

/-! ## Admission -/

def text (record : ChatRecord) : ChatField → Option String
  | .contextId => record.contextId
  | .transcriptHash => record.transcriptHash

def overlong? (record : ChatRecord) (limits : ChatLimits) (field : ChatField) :
    Option AdmissionError :=
  let limit := (limits.length field).toNat
  (record.text field).bind fun text =>
    if limit < text.length then some (.overlong field text.length limit) else none

def lacks (record : ChatRecord) (field : ChatField) : Bool :=
  (record.text field).getD "" == ""

/-- What may be wrong with the metadata of any transaction, in the order of the checks. -/
def findings (record : ChatRecord) (limits : ChatLimits) (jurisdictions : Jurisdictions) :
    List (Option AdmissionError) :=
  [record.overlong? limits .contextId,
    record.overlong? limits .transcriptHash,
    if limits.tags.toNat < record.tags.length then
      some (.excessTags record.tags.length limits.tags.toNat) else none,
    (record.tags.find? fun tag => !jurisdictions.supports tag).map .unsupportedTag]

def missing? (record : ChatRecord) (kind : TransactionKind) : Option AdmissionError :=
  (kind.required.find? record.lacks).map fun field => .lacking field kind

/-- The first violation of the limits or, if a kind of transaction is given, of its requirements. -/
def violation? (record : ChatRecord) (limits : ChatLimits) (jurisdictions : Jurisdictions)
    (kind? : Option TransactionKind) : Option AdmissionError :=
  (record.findings limits jurisdictions ++ [kind?.bind record.missing?]).findSome? id

end ChatRecord

end ChainRegistry
