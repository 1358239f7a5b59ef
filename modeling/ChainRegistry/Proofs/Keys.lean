import ChainRegistry.Clearance
import ChainRegistry.Proofs.RecordTexts
import Mathlib.Data.List.Infix
import Mathlib.Data.List.Pairwise

/-!
# Keys and members

A member of a category and its key stand for each other wherever either occurs: a text is parsed as
the member whose key it is, documents hold the key in place of the member, and an account of
governance is found under its key.  Every other text is turned down with the noun of the category
and the text as it was.

For most of this it is enough that a category lists all its members and gives no key twice.  What
depends on the tables is that a key is never nearly another one.  No key of a category is part of
another one, even in other cases, so a text that comes close to a key without being that key names
no member at all, not the wrong one.
-/

namespace ChainRegistry

/-- Whether one of two texts is part of the other one when both are in lower case: the texts differ
in their cases, or something stands before or behind one of them, or is missing there. -/
def Resembles (s t : String) : Prop :=
  (Text.fold s).toList <:+: (Text.fold t).toList ∨ (Text.fold t).toList <:+: (Text.fold s).toList

instance (s t : String) : Decidable (Resembles s t) :=
  inferInstanceAs (Decidable (_ ∨ _))

theorem Resembles.symm {s t : String} (hresembles : Resembles s t) : Resembles t s :=
  Or.symm hresembles

namespace Category

variable {α : Type} [Category α] {s : String} {a : α}

theorem parse_eq_ok_iff : (parse s : Except NoSuchKey α) = .ok a ↔ key a = s := by
  rw [← ofKey?_eq_some_iff]
  cases hfound : (ofKey? s : Option α) <;> simp [parse, hfound]

theorem parse_eq_error_iff {e : NoSuchKey} :
    (parse s : Except NoSuchKey α) = .error e ↔ (∀ a : α, key a ≠ s) ∧ e = ⟨noun α, s⟩ := by
  cases hfound : (ofKey? s : Option α) with
  | none =>
      have hnone (a : α) : key a ≠ s := by
        intro hkey
        rw [ofKey?_eq_some_iff.mpr hkey] at hfound
        contradiction
      simp [parse, hfound, hnone, eq_comm]
  | some a =>
      have hkey : key a = s := ofKey?_eq_some_iff.mp hfound
      have hother : ¬ ∀ a : α, key a ≠ s := fun hnone => hnone a hkey
      simp [parse, hfound, hother]

theorem toOption_parse (s : String) : (parse s : Except NoSuchKey α).toOption = ofKey? s := by
  cases hfound : (ofKey? s : Option α) <;> simp [parse, hfound, Except.toOption]

/-! ## Spelling -/

def keys (α : Type) [Category α] : List String :=
  (all : List α).map key

theorem key_mem_keys (a : α) : key a ∈ keys α :=
  List.mem_map_of_mem (mem_all a)

/-- No key has a character that JSON escapes, and none is nearly another one. -/
structure WellSpelled (α : Type) [Category α] : Prop where
  plain : ∀ s ∈ keys α, s.toList.flatMap Json.escape = s.toList
  apart : (keys α).Pairwise fun s t => ¬ Resembles s t

instance (α : Type) [Category α] : Decidable (WellSpelled α) :=
  decidable_of_iff
    ((∀ s ∈ keys α, s.toList.flatMap Json.escape = s.toList) ∧
      (keys α).Pairwise fun s t => ¬ Resembles s t)
    ⟨fun h => ⟨h.1, h.2⟩, fun h => ⟨h.plain, h.apart⟩⟩

theorem WellSpelled.eq_of_resembles (hspelled : WellSpelled α) {a b : α}
    (hresembles : Resembles (key a) (key b)) : key a = key b := by
  have hsymm : Std.Symm fun s t => ¬ Resembles s t := ⟨fun _ _ hst hts => hst hts.symm⟩
  by_contra hne
  exact hspelled.apart.forall (key_mem_keys a) (key_mem_keys b) hne hresembles

/-- What comes close to a key without being it is no key. -/
theorem WellSpelled.parse_of_resembles (hspelled : WellSpelled α)
    (hresembles : Resembles s (key a)) (hne : s ≠ key a) :
    (parse s : Except NoSuchKey α) = .error ⟨noun α, s⟩ := by
  refine parse_eq_error_iff.mpr ⟨fun b hkey => hne ?_, rfl⟩
  rw [← hkey] at hresembles ⊢
  exact hspelled.eq_of_resembles hresembles

end Category

/-! ## Documents -/

namespace Codec

open Category

variable {α : Type} [Category α]

theorem category_read?_eq_some_iff {origin : Origin} {node : Node} {a : α} :
    (category : Codec α).read? origin node = some a ↔ node = .text (key a) := by
  cases node with
  | text s =>
      rw [Node.text.injEq, eq_comm (a := s)]
      exact ofKey?_eq_some_iff
  | _ => simp [category]

theorem category_read?_text (origin : Origin) (s : String) :
    (category : Codec α).read? origin (.text s) = (parse s : Except NoSuchKey α).toOption :=
  (toOption_parse s).symm

theorem category_parse?_print (layout : Json.Layout) (s : String) :
    (category : Codec α).parse? .json (Json.print layout (.text s)) =
      (parse s : Except NoSuchKey α).toOption := by
  simp only [parse?, Json.parse?_print, Json.readBack, Option.bind_some, category_read?_text]

/-- The JSON text of a member is its key between quotes. -/
theorem category_print? (hspelled : WellSpelled α) (layout : Json.Layout) (a : α) :
    (category : Codec α).print? layout .json a = some ("\"" ++ key a ++ "\"") := by
  have hplain := hspelled.plain (key a) (key_mem_keys a)
  simp only [print?, category, Json.print, Json.write, Json.quote, hplain, Option.some.injEq]
  rw [← String.toList_inj]
  simp

end Codec

/-! ## All categories -/

namespace Category

/-- Members and keys of a category stand for each other. -/
structure KeysFaithful (α : Type) [Category α] : Prop where
  named : ∀ (s : String) (a : α), parse s = .ok a ↔ key a = s
  distinct : Function.Injective (key : α → String)
  unnamed : ∀ (s : String) (e : NoSuchKey),
    (parse s : Except NoSuchKey α) = .error e ↔ (∀ a : α, key a ≠ s) ∧ e = ⟨noun α, s⟩
  exact : ∀ (s : String) (a : α), Resembles s (key a) → s ≠ key a →
    (parse s : Except NoSuchKey α) = .error ⟨noun α, s⟩
  read : ∀ origin (s : String),
    (Codec.category : Codec α).read? origin (.text s) = (parse s : Except NoSuchKey α).toOption
  readText : ∀ layout (s : String),
    (Codec.category : Codec α).parse? .json (Json.print layout (.text s)) =
      (parse s : Except NoSuchKey α).toOption
  onlyKeys : ∀ origin node (a : α),
    (Codec.category : Codec α).read? origin node = some a → node = .text (key a)
  written : ∀ a : α, Codec.category.write a = .text (key a)
  writtenText : ∀ layout (a : α),
    Codec.category.print? layout .json a = some ("\"" ++ key a ++ "\"")

theorem WellSpelled.keysFaithful {α : Type} [Category α] (hspelled : WellSpelled α) :
    KeysFaithful α where
  named _ _ := parse_eq_ok_iff
  distinct _ _ := key_injective
  unnamed _ _ := parse_eq_error_iff
  exact _ _ := hspelled.parse_of_resembles
  read := Codec.category_read?_text
  readText := Codec.category_parse?_print
  onlyKeys _ _ _ := Codec.category_read?_eq_some_iff.mp
  written _ := rfl
  writtenText := Codec.category_print? hspelled

/-- A category together with the type of its members. -/
structure Closed where
  Member : Type
  [category : Category Member]

attribute [instance] Closed.category

/-- The categories that a registry is indexed by, and those of what stands beside it. -/
def known : List Closed :=
  [⟨RegulatoryRegime⟩, ⟨TransactionKind⟩, ⟨ProposalKind⟩, ⟨GovernanceAccount⟩, ⟨PolicyTag⟩,
    ⟨Service⟩, ⟨AccessTier⟩, ⟨Subsystem⟩, ⟨NanoswarmClass⟩, ⟨BrainAccess⟩, ⟨TreasuryPurpose⟩]

theorem known_wellSpelled : ∀ closed ∈ known, WellSpelled closed.Member := by
  decide +kernel

theorem known_nouns : (known.map fun closed => noun closed.Member).Nodup := by
  decide

end Category

theorem GovernanceAccount.addressOf?_eq_some_iff {s address : String} :
    addressOf? s = some address ↔
      ∃ account : GovernanceAccount, Category.key account = s ∧ account.address = address := by
  simp only [addressOf?, Option.map_eq_some_iff, Category.ofKey?_eq_some_iff]

namespace Category

/-- In every category members and keys stand for each other, no two categories have the same noun,
and the keys of the accounts of governance, and no other texts, lead to their addresses. -/
theorem known_keys_faithful :
    (∀ closed ∈ known, KeysFaithful closed.Member) ∧
      (known.map fun closed => noun closed.Member).Nodup ∧
      ∀ s address, GovernanceAccount.addressOf? s = some address ↔
        ∃ account : GovernanceAccount, key account = s ∧ account.address = address := by
  refine ⟨fun closed hknown => ?_, known_nouns, fun s address => ?_⟩
  · exact (known_wellSpelled closed hknown).keysFaithful
  · exact GovernanceAccount.addressOf?_eq_some_iff

/-- The key of the council leads to its address, and with small letters and a blank behind it is no
key. -/
theorem known_keys_faithful_accounts :
    ⟨GovernanceAccount⟩ ∈ known ∧
      Resembles "Council " (key GovernanceAccount.council) ∧
      (parse "Council " : Except NoSuchKey GovernanceAccount) =
        .error ⟨"governance address", "Council "⟩ ∧
      (parse "COUNCIL" : Except NoSuchKey GovernanceAccount) = .ok .council ∧
      GovernanceAccount.addressOf? "COUNCIL" =
        some "aln1governance000000000000000000000000000" := by
  obtain ⟨hfaithful, -, haddress⟩ := known_keys_faithful
  have hknown : ⟨GovernanceAccount⟩ ∈ known := by
    simp [known]
  have hresembles : Resembles "Council " (key GovernanceAccount.council) := by
    decide +kernel
  have haccounts : KeysFaithful GovernanceAccount := hfaithful ⟨GovernanceAccount⟩ hknown
  exact ⟨hknown, hresembles, haccounts.exact _ .council hresembles (by decide),
    (haccounts.named _ .council).mpr rfl, (haddress _ _).mpr ⟨.council, rfl, rfl⟩⟩

end Category

end ChainRegistry
