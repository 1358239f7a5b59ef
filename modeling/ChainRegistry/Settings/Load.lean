import ChainRegistry.Registry.Validation
import ChainRegistry.Settings.File
import ChainRegistry.Settings.PathExpansion

/-!
# Loading a registry

The settings are laid over each other in layers, first the file if there is one and then the
environment, and the registry is read from the result over the reference registry.  A table for a
fixed section is reported, once the layers are joined and whatever comes later, and has no other
effect.  A registry is delivered only if it is valid.
-/

namespace ChainRegistry.Settings

/-- What a load may look at: files by their paths, which the readers make sense of, and the
environment. -/
structure Sources (readers : Readers := .builtIn) where
  read? : String → Option String
  environment : Environment

inductive LoadError where
  | unsetVariable (name : String)
  | unusableFile
  | unreadableSettings
  | invalid (violation : Violation)
  deriving DecidableEq, Repr

def unsetMessage (name : String) : String :=
  "Failed to expand constants path: error looking key '" ++ name
    ++ "' up: environment variable not found: environment variable not found"

def LoadError.message : LoadError → String
  | unsetVariable name => unsetMessage name
  | unusableFile => "Failed to build protocol constants configuration"
  | unreadableSettings => "Failed to deserialize protocol constants"
  | invalid violation => "Protocol constants failed validation: " ++ violation.message

structure Outcome where
  warnings : List String
  result : Except LoadError Registry

def sealedSectionWarning (name : String) : String :=
  "Ignoring [" ++ name ++ "] overrides: section is fixed at compile time"

def warningsOf (settings : Node) : List String :=
  (Registry.sealedSections.filter fun name =>
    match Node.find? name (entriesOf settings) with
    | some (.table _) => true
    | _ => false).map sealedSectionWarning

/-- The registry that the joined settings describe, if it is valid. -/
def registryOf (settings : Node) : Except LoadError Registry :=
  match Registry.codec.read? .settings settings with
  | none => .error .unreadableSettings
  | some r =>
    match r.violation? with
    | some violation => .error (.invalid violation)
    | none => .ok r

variable {readers : Readers}

def fileSettings (sources : Sources readers) (path : String) : Except LoadError Node :=
  match (findFile? readers.order sources.read? path).bind fun (text, format) =>
    parseFile? readers text format with
  | some entries => .ok (putFile entries (.table []))
  | none => .error .unusableFile

def baseSettings (sources : Sources readers) : Option String → Except LoadError Node
  | none => .ok (.table [])
  | some path => do
    let path ← (expand sources.environment path).mapError .unsetVariable
    fileSettings sources path

/-- The settings of all layers.  The outermost keys of the joined layers are read as paths once
more, because a key that was no path can have become one in lower case. -/
def settings (sources : Sources readers) (path? : Option String) : Except LoadError Node :=
  (baseSettings sources path?).map fun node =>
    putEntries (entriesOf (putEnvironment sources.environment node)) (.table [])

def load (sources : Sources readers) (path? : Option String) : Outcome :=
  match settings sources path? with
  | .error e => ⟨[], .error e⟩
  | .ok settings => ⟨warningsOf settings, registryOf settings⟩

end ChainRegistry.Settings
