import ChainRegistry.Proofs.JsonRoundTrip
import ChainRegistry.Proofs.Settings.FoldedPaths
import ChainRegistry.Proofs.Settings.Layering

/-!
# Members that no reading sees

What sources say about the sealed sections does not interfere with anything else.  A reader of
documents never looks at these members.  A load moves them through all its steps, but no step lets
them out: what it makes of the other members depends on the other members alone.  So each step is
followed by the projection that drops the sealed members, first for two trees and one change, then
for two trees and changes of which only those behind the projection differ.
-/

namespace ChainRegistry

open Settings

namespace Registry

end Registry

namespace Settings

/-! ## One change -/

/-- Whether a key is a path into a sealed section. -/
def isSealedKey (key : String) : Bool :=
  Registry.sealedSections.contains
    (String.ofList ((Text.fold key).toList.takeWhile isNameChar))

theorem isSealedKey_fold (key : String) : isSealedKey (Text.fold key) = isSealedKey key := by
  rw [isSealedKey, fold_fold, isSealedKey]

/-- A path leads into a sealed section exactly if its first name does. -/
theorem ofText_first (key : String) :
    ∃ name, (KeyPath.ofText key).first = .name name ∧
      isSealedKey (Text.fold name) = isSealedKey key := by
  rw [KeyPath.ofText]
  cases hparse : KeyPath.parse? key with
  -- A key that is no path can become one when it is folded, but its first name stays the same.
  | none => exact ⟨key, rfl, isSealedKey_fold key⟩
  | some path =>
      obtain ⟨name, rest, hkey, hname, hrest, hpath⟩ := exists_of_parse? hparse
      have hfolded : ∀ c ∈ name.map Text.foldChar, isNameChar c = true :=
        isNameChar_of_mem_folded hname
      have hend : (rest.map Text.foldChar).takeWhile isNameChar = [] := by
        rcases hrest with rfl | ⟨text, rfl⟩ | ⟨text, rfl⟩ <;> rfl
      refine ⟨String.ofList name, hpath, ?_⟩
      rw [isSealedKey_fold, isSealedKey, isSealedKey, toList_fold, toList_fold, hkey,
        String.toList_ofList, List.map_append, List.takeWhile_append_of_pos hfolded, hend,
        List.append_nil, List.takeWhile_eq_self_iff.mpr hfolded]

/-! ## All changes -/

section Unwinding

variable {σ ε π : Type} (project : σ → π) (visible : ε → Bool) (step : σ → ε → σ)

/-- If equal projections stay equal and hidden steps do not show, then after two runs the
projections are equal whenever the visible steps were the same. -/
theorem project_foldl (hvisible : ∀ s s' e, project s = project s' →
      project (step s e) = project (step s' e))
    (hhidden : ∀ s e, visible e = false → project (step s e) = project s)
    {steps others : List ε} (hsteps : steps.filter visible = others.filter visible) {s s' : σ}
    (hstart : project s = project s') :
    project (steps.foldl step s) = project (others.foldl step s') := by
  -- Each run ends like the run of its visible steps alone.
  have hfiltered : ∀ (list : List ε) (s s' : σ), project s = project s' →
      project (list.foldl step s) = project ((list.filter visible).foldl step s') := by
    intro list
    induction list with
    | nil => exact fun s s' h => h
    | cons e list ih =>
        intro s s' h
        cases he : visible e with
        | true =>
            rw [List.filter_cons_of_pos he]
            exact ih _ _ (hvisible s s' e h)
        | false =>
            rw [List.filter_cons_of_neg (by simp [he])]
            exact ih _ _ ((hhidden s e he).trans h)
  rw [hfiltered steps s s' hstart, hsteps]
  exact (hfiltered others s' s' rfl).symm

end Unwinding

/-- A test on keys that tells a key by the first name it leads to. -/
def TellsByFirst (keep : String → Bool) : Prop :=
  ∀ key, ∃ name, (KeyPath.ofText key).first = .name name ∧ keep (Text.fold name) = keep key

theorem filter_alter_congr (keep : String → Bool) (name : String) (change : Option Node → Node)
    {entries others : List (String × Node)}
    (hsame : entries.filter (fun entry => keep entry.1) = others.filter fun entry => keep entry.1) :
    (alter name change entries).filter (fun entry => keep entry.1) =
      (alter name change others).filter fun entry => keep entry.1 := by
  cases hkeep : keep name with
  | true => rw [filter_alter_of_kept keep hkeep, filter_alter_of_kept keep hkeep, hsame]
  | false => rw [filter_alter_of_dropped keep hkeep, filter_alter_of_dropped keep hkeep, hsame]

namespace TellsByFirst

variable {keep : String → Bool}

theorem filter_putAt (htells : TellsByFirst keep) (key : String) (value : Node) {node other : Node}
    (hsame : (entriesOf node).filter (fun entry => keep entry.1) =
      (entriesOf other).filter fun entry => keep entry.1) :
    (entriesOf (putAt (KeyPath.ofText key) value node)).filter (fun entry => keep entry.1) =
      (entriesOf (putAt (KeyPath.ofText key) value other)).filter fun entry => keep entry.1 := by
  obtain ⟨name, hfirst, -⟩ := htells key
  rw [putAt_of_first hfirst, putAt_of_first hfirst]
  exact filter_alter_congr keep _ _ hsame

theorem filter_putAt_of_dropped (htells : TellsByFirst keep) {key : String}
    (hdrop : keep key = false) (value node : Node) :
    (entriesOf (putAt (KeyPath.ofText key) value node)).filter (fun entry => keep entry.1) =
      (entriesOf node).filter fun entry => keep entry.1 := by
  obtain ⟨name, hfirst, hname⟩ := htells key
  rw [putAt_of_first hfirst]
  exact filter_alter_of_dropped keep (hname.trans hdrop)

/-- What is kept of the joined entries comes of what is kept of the entries that were put. -/
theorem filter_putEntries (htells : TellsByFirst keep) {entries others : List (String × Node)}
    {node other : Node}
    (hentries : entries.filter (fun entry => keep entry.1) =
      others.filter fun entry => keep entry.1)
    (hsame : (entriesOf node).filter (fun entry => keep entry.1) =
      (entriesOf other).filter fun entry => keep entry.1) :
    (entriesOf (putEntries entries node)).filter (fun entry => keep entry.1) =
      (entriesOf (putEntries others other)).filter fun entry => keep entry.1 := by
  unfold putEntries
  refine project_foldl (fun node => (entriesOf node).filter fun entry => keep entry.1) _ _
    ?_ ?_ hentries hsame
  · exact fun _ _ entry h => htells.filter_putAt entry.1 entry.2 h
  · exact fun node entry h => htells.filter_putAt_of_dropped h entry.2 node

end TellsByFirst

theorem dropStart?_eq_some_iff {start text rest : List Char} :
    dropStart? start text = some rest ↔ text = start ++ rest := by
  induction start generalizing text with
  | nil => simp [dropStart?]
  | cons c start ih =>
      cases text with
      | nil => simp [dropStart?]
      | cons d text =>
          by_cases hsame : c = d
          · simp [dropStart?, hsame, ih]
          · simp [dropStart?, hsame, Ne.symm hsame]

theorem exists_table_of_putEntries (entries start : List (String × Node)) :
    ∃ joined, putEntries entries (.table start) = .table joined := by
  induction entries generalizing start with
  | nil => exact ⟨start, rfl⟩
  | cons entry entries ih =>
      obtain ⟨name, hfirst, -⟩ := ofText_first entry.1
      rw [putEntries, List.foldl_cons, putAt_of_first hfirst]
      exact ih _

end Settings

end ChainRegistry
