import ChainRegistry.Document.Scalar
import ChainRegistry.Category
import ChainRegistry.Text.Blank
import ChainRegistry.Text.Split

/-!
# Jurisdictions and policies

A transaction names the jurisdictions it falls under by tags, and a tag is supported if it equals an
entry of the list character by character.  Tags typed by hand come as one text with commas: blanks
around a tag are dropped and empty tags are skipped.  Every regulatory regime has a policy whose
version is pinned, and policies of governance are cited by tags of their own.
-/

namespace ChainRegistry

structure Jurisdictions where
  tags : List String
  deriving DecidableEq, Repr

namespace Jurisdictions

def reference : Jurisdictions where
  tags := ["US_federal", "EU", "UK", "cross_border", "US_state_CA", "US_state_NY", "GDPR", "CCPA",
    "JFMIP"]

def supports (jurisdictions : Jurisdictions) (tag : String) : Bool :=
  jurisdictions.tags.contains tag

/-- The first tag in the list that stands in it before. -/
def repeated? (jurisdictions : Jurisdictions) : Option String :=
  go [] jurisdictions.tags
where
  go (seen : List String) : List String → Option String
    | [] => none
    | tag :: rest => if seen.contains tag then some tag else go (tag :: seen) rest

def codec : Codec Jurisdictions where
  write jurisdictions := Codec.texts.write jurisdictions.tags
  read? origin node := (Codec.texts.read? origin node).map Jurisdictions.mk

def tagsOfText (input : String) : List String :=
  (((Text.pieces ',' input.toList).map Text.trim).filter fun tag => !tag.isEmpty).map String.ofList

end Jurisdictions

inductive RegulatoryRegime where
  | jfmip
  | gdpr
  | mica
  | fatf
  deriving DecidableEq, Repr

instance : Category RegulatoryRegime where
  noun := "regulatory regime"
  all := [.jfmip, .gdpr, .mica, .fatf]
  key
    | .jfmip => "JFMIP"
    | .gdpr => "GDPR"
    | .mica => "MICA"
    | .fatf => "FATF"
  mem_all a := by cases a <;> decide
  nodup_keys := by decide

structure PinnedPolicies where
  jfmip : String
  gdpr : String
  mica : String
  fatf : String
  deriving DecidableEq, Repr

namespace PinnedPolicies

def reference : PinnedPolicies where
  jfmip := "24-01"
  gdpr := "2016/679"
  mica := "2023/1114"
  fatf := "R16-2019"

def version (versions : PinnedPolicies) : RegulatoryRegime → String
  | .jfmip => versions.jfmip
  | .gdpr => versions.gdpr
  | .mica => versions.mica
  | .fatf => versions.fatf

def fields : List (Field PinnedPolicies) :=
  [.of "jfmip" .text (·.jfmip) fun r v => { r with jfmip := v },
    .of "gdpr" .text (·.gdpr) fun r v => { r with gdpr := v },
    .of "mica" .text (·.mica) fun r v => { r with mica := v },
    .of "fatf" .text (·.fatf) fun r v => { r with fatf := v }]

def codec : Codec PinnedPolicies := .record fields reference

end PinnedPolicies

inductive PolicyTag where
  | chataiDao
  | augmentedPolicy
  | migragraphBridge
  | lawEnfAssist
  deriving DecidableEq, Repr

instance : Category PolicyTag where
  noun := "governance policy tag"
  all := [.chataiDao, .augmentedPolicy, .migragraphBridge, .lawEnfAssist]
  key
    | .chataiDao => "CHATAI_DAO"
    | .augmentedPolicy => "AUGMENTED_POLICY"
    | .migragraphBridge => "MIGRAGRAPH_BRIDGE"
    | .lawEnfAssist => "LAW_ENF_ASSIST"
  mem_all a := by cases a <;> decide
  nodup_keys := by decide

def PolicyTag.tag : PolicyTag → String
  | .chataiDao => "dao.chatai"
  | .augmentedPolicy => "policy.augmented.capability"
  | .migragraphBridge => "policy.migration.bridge"
  | .lawEnfAssist => "policy.law_enf_assist"

end ChainRegistry
