import ChainRegistry.Registry.Form

/-!
# Command line arguments

Arguments are read from left to right.  The settings file and the log level may be given before the
command and after it, once in each place, and the later one counts.  An option takes its value from
the same argument, behind an equals sign or directly behind its letter, or from the next one, which
must not look like an option.  After two hyphens everything is an operand.  Reading stops at the
first request for help or for the version, and at the first mistake.
-/

namespace ChainRegistry.Console

inductive Command where
  | show (format : Format)
  | validate
  | checkAddress (address : String)
  | checkJurisdiction (tags : List String)
  deriving DecidableEq, Repr

structure Invocation where
  settingsFile : Option String
  logLevel : Option String
  command : Command
  deriving DecidableEq, Repr

inductive Request where
  | run (invocation : Invocation)
  | version
  | help
  | mistake
  deriving DecidableEq, Repr

/-! ## Options -/

inductive Setting where
  | settingsFile
  | logLevel
  | format
  deriving DecidableEq, Repr

inductive Switch where
  | setting (setting : Setting)
  | version
  | help
  deriving DecidableEq, Repr

inductive CommandName where
  | show
  | validate
  | checkAddress
  | checkJurisdiction
  deriving DecidableEq, Repr

def CommandName.ofText? (text : String) : Option CommandName :=
  if text = "show" then some .show
  else if text = "validate" then some .validate
  else if text = "check-address" then some .checkAddress
  else if text = "check-jurisdiction" then some .checkJurisdiction
  else none

/-- The option with a long name.  The version is known only in front of the command and the format
only behind `show`. -/
def longOption? (command? : Option CommandName) (name : List Char) : Option Switch :=
  if name = "config".toList then some (.setting .settingsFile)
  else if name = "log-level".toList then some (.setting .logLevel)
  else if name = "help".toList then some .help
  else if name = "version".toList ∧ command? = none then some .version
  else if name = "format".toList ∧ command? = some .show then some (.setting .format)
  else none

def shortOption? (command? : Option CommandName) (letter : Char) : Option Switch :=
  if letter = 'c' then some (.setting .settingsFile)
  else if letter = 'l' then some (.setting .logLevel)
  else if letter = 'h' then some .help
  else if letter = 'V' ∧ command? = none then some .version
  else if letter = 'f' ∧ command? = some .show then some (.setting .format)
  else none

inductive Token where
  | operand
  | endOfOptions
  | option (switch : Switch) (value : Option String)
  | unknown
  deriving DecidableEq, Repr

def Token.ofText (command? : Option CommandName) (text : String) : Token :=
  match text.toList with
  | ['-', '-'] => .endOfOptions
  | '-' :: '-' :: rest =>
    let value := match rest.dropWhile (· != '=') with
      | _ :: value => some (String.ofList value)
      | [] => none
    match longOption? command? (rest.takeWhile (· != '=')), value with
    | some (.setting setting), value => .option (.setting setting) value
    | some switch, none => .option switch none
    | _, _ => .unknown
  | '-' :: letter :: rest =>
    match shortOption? command? letter, rest with
    | some (.setting setting), [] => .option (.setting setting) none
    | some (.setting setting), '=' :: value =>
      .option (.setting setting) (some (String.ofList value))
    | some (.setting setting), value =>
      .option (.setting setting) (some (String.ofList value))
    | some switch, _ => .option switch none
    | none, _ => .unknown
  | _ => .operand

def looksLikeOption (text : String) : Bool :=
  match text.toList with
  | '-' :: _ :: _ => true
  | _ => false

/-! ## Reading -/

def formatOfText? (text : String) : Option Format :=
  if text = "json" then some .json else if text = "toml" then some .toml else none

/-- What has been read in one place, in front of the command or behind it. -/
structure Draft where
  settingsFile : Option String
  logLevel : Option String
  format : Option Format
  operands : List String
  deriving DecidableEq, Repr

def Draft.empty : Draft := ⟨none, none, none, []⟩

/-- Records a value that has not been given before in this place. -/
def Draft.set? (draft : Draft) : Setting → String → Option Draft
  | .settingsFile, value =>
    if draft.settingsFile.isNone then some { draft with settingsFile := some value } else none
  | .logLevel, value =>
    if draft.logLevel.isNone then some { draft with logLevel := some value } else none
  | .format, value =>
    if draft.format.isNone then
      (formatOfText? value).map fun format => { draft with format := some format }
    else none

/-- How many operands a command takes at most, if there is a limit. -/
def CommandName.mostOperands? : CommandName → Option Nat
  | .show => some 0
  | .validate => some 0
  | .checkAddress => some 1
  | .checkJurisdiction => none

def Draft.addOperand? (draft : Draft) (name : CommandName) (operand : String) : Option Draft :=
  let full := match name.mostOperands? with
    | some most => decide (most ≤ draft.operands.length)
    | none => false
  if full then none else some { draft with operands := draft.operands ++ [operand] }

def commandOf? (name : CommandName) (draft : Draft) : Option Command :=
  match name, draft.operands with
  | .show, [] => some (.show (draft.format.getD .json))
  | .validate, [] => some .validate
  | .checkAddress, [address] => some (.checkAddress address)
  | .checkJurisdiction, tag :: tags => some (.checkJurisdiction (tag :: tags))
  | _, _ => none

/-- The request made by what stands before the command and behind it. -/
def finish (before : Draft) (name : CommandName) (behind : Draft) : Request :=
  match commandOf? name behind with
  | some command =>
    .run ⟨behind.settingsFile <|> before.settingsFile, behind.logLevel <|> before.logLevel, command⟩
  | none => .mistake

def readCommand (before : Draft) (name : CommandName) : Draft → List String → Request
  | draft, [] => finish before name draft
  | draft, argument :: rest =>
    match Token.ofText (some name) argument with
    | .endOfOptions =>
      match rest.foldlM (fun draft operand => Draft.addOperand? draft name operand) draft with
      | some draft => finish before name draft
      | none => .mistake
    | .operand =>
      match draft.addOperand? name argument with
      | some draft => readCommand before name draft rest
      | none => .mistake
    | .option .help _ => .help
    | .option .version _ => .version
    | .option (.setting setting) (some value) =>
      match draft.set? setting value with
      | some draft => readCommand before name draft rest
      | none => .mistake
    | .option (.setting setting) none =>
      match rest with
      | value :: rest =>
        if looksLikeOption value then .mistake
        else
          match draft.set? setting value with
          | some draft => readCommand before name draft rest
          | none => .mistake
      | [] => .mistake
    | .unknown => .mistake

/-- Help may be asked for about one command, itself included. -/
def readHelp : List String → Request
  | [] => .help
  | [topic] => if topic = "help" ∨ (CommandName.ofText? topic).isSome then .help else .mistake
  | _ => .mistake

/-- Reads the arguments up to the command and goes on behind it. -/
def readFrom : Draft → List String → Request
  | _, [] => .mistake
  | draft, argument :: rest =>
    match Token.ofText none argument with
    | .endOfOptions => .mistake
    | .operand =>
      if argument = "help" then readHelp rest
      else
        match CommandName.ofText? argument with
        | some name => readCommand draft name .empty rest
        | none => .mistake
    | .option .help _ => .help
    | .option .version _ => .version
    | .option (.setting setting) (some value) =>
      match draft.set? setting value with
      | some draft => readFrom draft rest
      | none => .mistake
    | .option (.setting setting) none =>
      match rest with
      | value :: rest =>
        if looksLikeOption value then .mistake
        else
          match draft.set? setting value with
          | some draft => readFrom draft rest
          | none => .mistake
      | [] => .mistake
    | .unknown => .mistake

def read (arguments : List String) : Request :=
  readFrom .empty arguments

end ChainRegistry.Console
