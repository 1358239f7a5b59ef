import ChainRegistry.Console.Run

/-!
# The program

The outermost layer reads the environment and the settings file, hands them to `Console.run` and
prints its report.  Only the paths that a load may look at are read, and settings files in formats
other than TOML and JSON are not understood.
-/

namespace ChainRegistry

/-- What stands in a file, if it can be read as text. -/
def fileText? (path : String) : IO (Option String) := do
  try
    let text ← IO.FS.readFile path
    pure (some text)
  catch _ => pure none

def processEnvironment : IO Settings.Environment := do
  let text ← fileText? "/proc/self/environ"
  let entries := ((text.getD "").splitOn "\x00").filterMap fun entry =>
    match entry.splitOn "=" with
    | name :: value => if value = [] then none else some (name, String.intercalate "=" value)
    | [] => none
  pure (entries.mergeSort fun a b => decide (a.1 ≤ b.1))

/-- The files at the paths that are tried for a settings file. -/
def candidateFiles (environment : Settings.Environment) (path? : Option String) :
    IO (List (String × String)) := do
  match path?.map (Settings.expand environment) with
  | some (.ok path) =>
    let others := (Settings.candidates Settings.FileFormat.all path).map Prod.fst
    let files ← (path :: others).mapM fun path => do
      let text ← fileText? path
      pure (text.map fun text => (path, text))
    pure (files.filterMap id)
  | _ => pure []

def requestedFile? (arguments : List String) : Option String :=
  match Console.read arguments with
  | .run invocation => invocation.settingsFile
  | _ => none

end ChainRegistry

def main (arguments : List String) : IO UInt32 := do
  let environment ← ChainRegistry.processEnvironment
  let files ← ChainRegistry.candidateFiles environment (ChainRegistry.requestedFile? arguments)
  let sources : ChainRegistry.Settings.Sources := ⟨fun path => files.lookup path, environment⟩
  let report := ChainRegistry.Console.run sources arguments
  IO.print report.output
  match report.error with
  | some e => IO.eprintln ("error: " ++ e.message)
  | none => pure ()
  pure report.exitCode
