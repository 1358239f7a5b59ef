import ChainRegistry.Console.Arguments
import ChainRegistry.Settings.Load

/-!
# The commands

Every command loads the registry first and does nothing more if that fails.  What is printed and the
exit code depend on the request and on the sources, never on the log level.  The exit code is zero
for a positive answer, one for a negative one or a failure, and two for a mistake in the arguments.
-/

namespace ChainRegistry.Console

open ChainRegistry.Settings

inductive RunError where
  | load (error : LoadError)
  | unwritable
  deriving DecidableEq, Repr

def RunError.message : RunError → String
  | load error => error.message
  | unwritable => "out-of-range value for u64 type"

/-- What one run prints, and whether its answer is positive. -/
structure Answer where
  output : String
  isPositive : Bool
  deriving DecidableEq, Repr

def judgement (valid : Bool) : String :=
  if valid then "valid" else "invalid"

def judgementLine (subject : String) (valid : Bool) : String :=
  subject ++ ": " ++ judgement valid ++ "\n"

/-- The answer after one more tag has been judged. -/
def Answer.judge (jurisdictions : Jurisdictions) (answer : Answer) (tag : String) : Answer :=
  let valid := jurisdictions.supports tag
  ⟨answer.output ++ judgementLine tag valid, answer.isPositive && valid⟩

def answer (r : Registry) : Command → Except RunError Answer
  | .show format =>
    match r.print? format with
    | some text => .ok ⟨text ++ "\n", true⟩
    | none => .error .unwritable
  | .validate => .ok ⟨"ok\n", true⟩
  | .checkAddress address =>
    let valid := r.treasury.isAddress address
    let note := if valid && !r.treasury.isLive then
      "note: treasury is reserved and not yet live\n" else ""
    .ok ⟨judgementLine address valid ++ note, valid⟩
  | .checkJurisdiction tags => .ok (tags.foldl (Answer.judge r.jurisdictions) ⟨"", true⟩)

structure Report where
  exitCode : UInt32
  output : String
  error : Option RunError
  deriving Repr

def versionText : String := "aln-constants 0.2.0\n"

variable {readers : Readers}

def runInvocation (sources : Sources readers) (invocation : Invocation) : Report :=
  match (load sources invocation.settingsFile).result with
  | .error e => ⟨1, "", some (.load e)⟩
  | .ok r =>
    match answer r invocation.command with
    | .error e => ⟨1, "", some e⟩
    | .ok answer => ⟨if answer.isPositive then 0 else 1, answer.output, none⟩

def run (sources : Sources readers) (arguments : List String) : Report :=
  match read arguments with
  | .run invocation => runInvocation sources invocation
  | .version => ⟨0, versionText, none⟩
  | .help => ⟨0, "", none⟩
  | .mistake => ⟨2, "", none⟩

end ChainRegistry.Console
