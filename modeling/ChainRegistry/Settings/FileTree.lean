import ChainRegistry.Text.Split

/-!
# A tree of files

Files are named by paths from one directory, and a directory is there if the path of some file
passes through it.  A path is walked step by step: empty steps and `.` stay, `..` goes up, and any
other step goes down.  Names of files and paths that are looked up are walked alike, except that a
path that is looked up finds a file only through directories that are there.  An absolute path finds
nothing.
-/

namespace ChainRegistry.Settings

/-- Files by name; of several names for one file the last counts. -/
abbrev FileTree := List (String × String)

/-- The names that lead from the directory to a place, of which only the first may be `..`. -/
abbrev Place := List (List Char)

def pathSteps (path : String) : List (List Char) :=
  Text.pieces '/' path.toList

def isName (step : List Char) : Bool :=
  !step.isEmpty && step != ['.'] && step != ['.', '.']

namespace Place

def step (place : Place) (step : List Char) : Place :=
  if step = [] ∨ step = ['.'] then place
  else if step = ['.', '.'] then
    if place.all (· == step) then place ++ [step] else place.dropLast
  else place ++ [step]

/-- The places that a path passes through from a place, both ends included. -/
def along (place : Place) : List (List Char) → List Place
  | [] => [place]
  | next :: steps => place :: along (place.step next) steps

end Place

namespace FileTree

def hasDirectory (tree : FileTree) (place : Place) : Bool :=
  tree.any fun file => (Place.along [] (pathSteps file.1)).dropLast.contains place

def contents? (tree : FileTree) (place : Place) : Option String :=
  (tree.reverse.find? fun file => (pathSteps file.1).foldl Place.step [] == place).map Prod.snd

def walk? (tree : FileTree) (place : Place) : List (List Char) → Option String
  | [] => none
  | [last] => if isName last then tree.contents? (place.step last) else none
  | next :: steps =>
    if tree.hasDirectory (place.step next) then tree.walk? (place.step next) steps else none

def read? (tree : FileTree) (path : String) : Option String :=
  match path.toList with
  | '/' :: _ => none
  | _ => tree.walk? [] (pathSteps path)

end FileTree

end ChainRegistry.Settings
