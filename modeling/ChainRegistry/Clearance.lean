import ChainRegistry.Category

/-!
# Classes of restricted devices

Nanoswarms and brain interfaces are classed by how far they are restricted.
-/

namespace ChainRegistry

/-- Classes of nanoswarm, from the least to the most restricted. -/
inductive NanoswarmClass where
  | minimal
  | controlled
  | contained
  | restricted
  deriving DecidableEq, Repr

instance : Category NanoswarmClass where
  noun := "nanoswarm class"
  all := [.minimal, .controlled, .contained, .restricted]
  key
    | .minimal => "class_1_minimal"
    | .controlled => "class_2_controlled"
    | .contained => "class_3_contained"
    | .restricted => "class_4_restricted"
  mem_all a := by cases a <;> decide
  nodup_keys := by decide

inductive BrainAccess where
  | readOnly
  | writeSupervised
  | writeEmergency
  deriving DecidableEq, Repr

instance : Category BrainAccess where
  noun := "BCI safety level"
  all := [.readOnly, .writeSupervised, .writeEmergency]
  key
    | .readOnly => "read_only"
    | .writeSupervised => "write_supervised"
    | .writeEmergency => "write_emergency"
  mem_all a := by cases a <;> decide
  nodup_keys := by decide

def BrainAccess.mayWrite (level : BrainAccess) : Bool :=
  level != .readOnly

end ChainRegistry
