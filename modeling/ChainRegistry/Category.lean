/-!
# Closed categories with written keys

The registry is indexed by a handful of closed categories: kinds of proposal, services, tiers of
access and the like.  Each is a finite type whose members carry one written key apiece.  A key
names a member only if it is spelled exactly so, since there is no folding of case and no trimming.
The main statement, `ofKey?_eq_some_iff`, says that looking a key up and writing a member down are
inverse to each other.
-/

namespace ChainRegistry

/-- A text that names no member of the category it was looked up in. -/
structure NoSuchKey where
  noun : String
  key : String
  deriving DecidableEq, Repr

def NoSuchKey.message (e : NoSuchKey) : String :=
  "Unknown " ++ e.noun ++ ": " ++ e.key

/-- A category lists its members in declaration order, which is also the order that sorts them. -/
class Category (α : Type) where
  noun : String
  all : List α
  key : α → String
  mem_all : ∀ a, a ∈ all
  nodup_keys : (all.map key).Nodup

namespace Category

variable {α : Type} [Category α]

def ofKey? (s : String) : Option α :=
  all.find? fun a => key a == s

def parse (s : String) : Except NoSuchKey α :=
  match ofKey? s with
  | some a => .ok a
  | none => .error ⟨noun α, s⟩

def position [DecidableEq α] (a : α) : Nat :=
  all.idxOf a

def sort [DecidableEq α] (members : List α) : List α :=
  members.mergeSort fun a b => decide (position a ≤ position b)

private theorem eq_of_key_eq_of_nodup {β γ : Type} {f : β → γ} {members : List β}
    (hnodup : (members.map f).Nodup) {a b : β} (ha : a ∈ members) (hb : b ∈ members)
    (h : f a = f b) : a = b := by
  induction members with
  | nil => cases ha
  | cons c rest ih =>
    simp only [List.map_cons, List.nodup_cons, List.mem_map, not_exists, not_and] at hnodup
    rcases List.mem_cons.1 ha with rfl | ha'
    · rcases List.mem_cons.1 hb with rfl | hb'
      · rfl
      · exact absurd h.symm (hnodup.1 b hb')
    · rcases List.mem_cons.1 hb with rfl | hb'
      · exact absurd h (hnodup.1 a ha')
      · exact ih hnodup.2 ha' hb'

theorem key_injective {a b : α} (h : key a = key b) : a = b :=
  eq_of_key_eq_of_nodup nodup_keys (mem_all a) (mem_all b) h

theorem ofKey?_eq_some_iff {s : String} {a : α} : ofKey? s = some a ↔ key a = s := by
  constructor
  · intro h
    have hfound := List.find?_some h
    exact eq_of_beq hfound
  · rintro rfl
    unfold ofKey?
    cases hfind : (all : List α).find? (fun b => key b == key a) with
    | none =>
      have hnone := List.find?_eq_none.1 hfind a (mem_all a)
      simp at hnone
    | some b =>
      have hmatch := List.find?_some hfind
      rw [key_injective (eq_of_beq hmatch)]

end Category

end ChainRegistry
