import ChainRegistry.Binary64.Basic

/-!
# Document trees

Registries are exchanged as JSON or TOML and overridden by layers of settings.  All of them are read
into one kind of tree.  A node that is `illegible` is well formed in its syntax but stands for no
value, such as a number beyond every double or half of a surrogate pair: nothing can be read from
it, yet a reader that passes over it is not disturbed.
-/

namespace ChainRegistry

inductive Node where
  | null
  | bool (value : Bool)
  | int (value : Int)
  | float (value : Binary64)
  | text (value : String)
  | date (value : String)
  | list (items : List Node)
  | table (entries : List (String × Node))
  | illegible
  deriving Repr, Inhabited

namespace Node

/-- The value filed under a key, the first one if the key is repeated. -/
def find? (key : String) (entries : List (String × Node)) : Option Node :=
  entries.lookup key

end Node

end ChainRegistry
