import ChainRegistry.Settings.Environment
import ChainRegistry.Text.Word

/-!
# Variables and the home directory in paths

A dollar sign before a word, or before a name in braces, stands for the value of that variable.  The
braces may hold a default behind `:-`, which is used where the variable is not set; it counts only
if a name stands in front of it.  Two dollar signs are one, and a dollar sign before anything else
stays, as does an opening brace that is never closed.  Values are not expanded again.  At last a
tilde that is the whole first step of the path stands for the home directory, provided that the
path as given began with it.
-/

namespace ChainRegistry.Settings

/-- A variable is set by a line of its name, an equals sign and its value.  The value asked for is
what follows the name and an equals sign in the first line that begins with them, so a name may hold
equals signs and then reaches into the value. -/
def Environment.value? (environment : Environment) (name : String) : Option String :=
  environment.findSome? fun (key, value) =>
    (dropStart? (name ++ "=").toList (key ++ "=" ++ value).toList).map String.ofList

/-- The text in front of the first `:-` and the text behind it. -/
def splitDefault? : List Char → Option (List Char × List Char)
  | ':' :: '-' :: rest => some ([], rest)
  | c :: rest => (splitDefault? rest).map fun (name, fallback) => (c :: name, fallback)
  | [] => none

/-- The value of what stands between braces, or the name of the variable that is not set. -/
def bracedValue (environment : Environment) (inside : List Char) : Except String (List Char) :=
  let (name, fallback?) := match splitDefault? inside with
    | some (c :: name, fallback) => (c :: name, some fallback)
    | _ => (inside, none)
  match environment.value? (String.ofList name), fallback? with
  | some value, _ => .ok value.toList
  | none, some fallback => .ok fallback
  | none, none => .error (String.ofList name)

private theorem length_dropWhile_le (p : Char → Bool) (text : List Char) :
    (text.dropWhile p).length ≤ text.length :=
  (List.dropWhile_sublist p).length_le

/-- Replaces the variables of a text, or names the first one that is not set. -/
def expandVariables (environment : Environment) : List Char → Except String (List Char)
  | [] => .ok []
  | '$' :: '{' :: rest =>
    match _h : rest.dropWhile (· != '}') with
    | _ :: after => do
      let value ← bracedValue environment (rest.takeWhile (· != '}'))
      let expanded ← expandVariables environment after
      .ok (value ++ expanded)
    | [] => (expandVariables environment rest).map ('$' :: '{' :: ·)
  | '$' :: '$' :: rest => (expandVariables environment rest).map ('$' :: ·)
  | '$' :: c :: rest =>
    if Text.isWordChar c then do
      let name := String.ofList (c :: rest.takeWhile Text.isWordChar)
      match environment.value? name with
      | none => .error name
      | some value =>
        let expanded ← expandVariables environment (rest.dropWhile Text.isWordChar)
        .ok (value.toList ++ expanded)
    else (expandVariables environment (c :: rest)).map ('$' :: ·)
  | c :: rest => (expandVariables environment rest).map (c :: ·)
termination_by text => text.length
decreasing_by
  · have hle := length_dropWhile_le (· != '}') rest
    rw [_h] at hle
    simp only [List.length_cons] at hle ⊢
    omega
  · simp only [List.length_cons]
    omega
  · simp only [List.length_cons]
    omega
  · have hle := length_dropWhile_le Text.isWordChar rest
    simp only [List.length_cons]
    omega
  · simp only [List.length_cons]
    omega
  · simp only [List.length_cons]
    omega

/-- Puts the home directory for a tilde that is alone in its step. -/
def expandHome (environment : Environment) (path : List Char) : List Char :=
  match path with
  | '~' :: rest =>
    let home := (environment.value? "HOME").getD ""
    if (rest = [] ∨ rest.head? = some '/') ∧ home ≠ "" then home.toList ++ rest else path
  | _ => path

def expand (environment : Environment) (path : String) : Except String String := do
  let expanded ← expandVariables environment path.toList
  if path.toList.head? = some '~' then .ok (String.ofList (expandHome environment expanded))
  else .ok (String.ofList expanded)

end ChainRegistry.Settings
