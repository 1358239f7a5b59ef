import ChainRegistry.Proofs.Trees
import ChainRegistry.Settings.File
import Mathlib

/-!
# Places in settings

Settings are laid over each other by putting values at paths.  Two kinds of change matter.  A tree
whose keys are plain and not repeated is what comes of putting its entries into an empty table, one
after the other: reading such keys as paths, folding them and laying tables over each other change
nothing.  A value that is put at a path of names is found there, what leads to it are tables, and
every place that the path does not touch is as it was.
-/

namespace ChainRegistry

/-! ## Plain keys -/

namespace Settings

def isPlainChar (c : Char) : Bool :=
  c.isLower || c.isDigit || c == '_' || c == '-'

/-- A key that is written without quotes and in lower case. -/
def isPlain (key : String) : Bool :=
  key.toList.all isPlainChar

theorem foldChar_of_isPlainChar {c : Char} (hplain : isPlainChar c = true) :
    Text.foldChar c = c := by
  simp only [isPlainChar, Char.isLower, Char.isDigit, Bool.or_eq_true, Bool.and_eq_true,
    decide_eq_true_eq, beq_iff_eq, ge_iff_le] at hplain
  have hkelvin : c ≠ '\u212a' := by
    rintro rfl
    revert hplain
    decide
  have hupper : ¬ (c.val ≥ 'A'.val ∧ c.val ≤ 'Z'.val) := by
    rintro ⟨hlow, hhigh⟩
    have hlow : 65 ≤ c.val.toNat := hlow
    have hhigh : c.val.toNat ≤ 90 := hhigh
    rcases hplain with ((⟨hletter, -⟩ | ⟨-, hdigit⟩) | rfl) | rfl
    · have hletter : 97 ≤ c.val.toNat := hletter
      omega
    · have hdigit : c.val.toNat ≤ 57 := hdigit
      omega
    · revert hlow hhigh
      decide
    · revert hlow
      decide
  rw [Text.foldChar, if_neg hkelvin, Char.toLower, dif_neg hupper]

/-- Only capital letters and the Kelvin sign change, and what comes of them is a small letter. -/
theorem foldChar_eq_self_or_isLower (c : Char) :
    Text.foldChar c = c ∨ (Text.foldChar c).isLower = true := by
  by_cases hkelvin : c = '\u212a'
  · subst hkelvin
    exact .inr (by decide)
  · rw [Text.foldChar, if_neg hkelvin, Char.toLower]
    split
    next hupper =>
      right
      have hlow : 65 ≤ c.val.toNat := hupper.1
      have hhigh : c.val.toNat ≤ 90 := hupper.2
      have hshift : (c.val + ('a'.val - 'A'.val)).toNat = c.val.toNat + 32 := by
        have hword : ('a'.val - 'A'.val).toNat = 32 := rfl
        rw [UInt32.toNat_add, hword, Nat.mod_eq_of_lt (by omega)]
      have hletter : 97 ≤ (c.val + ('a'.val - 'A'.val)).toNat ∧
          (c.val + ('a'.val - 'A'.val)).toNat ≤ 122 := by
        omega
      simp only [Char.isLower, Bool.and_eq_true, decide_eq_true_eq]
      exact hletter
    next => exact .inl rfl

theorem foldChar_eq_self_or_isPlainChar (c : Char) :
    Text.foldChar c = c ∨ isPlainChar (Text.foldChar c) = true := by
  refine (foldChar_eq_self_or_isLower c).imp_right fun hlower => ?_
  simp [isPlainChar, hlower]

theorem fold_of_isPlain {key : String} (hplain : isPlain key = true) : Text.fold key = key := by
  have hchars : key.toList.map Text.foldChar = key.toList.map id :=
    List.map_congr_left fun c hc => foldChar_of_isPlainChar (List.all_eq_true.mp hplain c hc)
  rw [Text.fold, hchars, List.map_id, String.ofList_toList]

theorem foldChar_foldChar (c : Char) : Text.foldChar (Text.foldChar c) = Text.foldChar c := by
  rcases foldChar_eq_self_or_isPlainChar c with hself | hplain
  · rw [hself]
    exact hself
  · exact foldChar_of_isPlainChar hplain

theorem toList_fold (text : String) : (Text.fold text).toList = text.toList.map Text.foldChar :=
  String.toList_ofList

theorem fold_fold (text : String) : Text.fold (Text.fold text) = Text.fold text := by
  have hchars : (text.toList.map Text.foldChar).map Text.foldChar =
      text.toList.map Text.foldChar := by
    rw [List.map_map]
    exact List.map_congr_left fun c _ => foldChar_foldChar c
  rw [Text.fold, toList_fold, hchars, Text.fold]

theorem isNameChar_of_isPlainChar {c : Char} (hplain : isPlainChar c = true) :
    isNameChar c = true := by
  simp only [isPlainChar, isNameChar, Char.isAlphanum, Char.isAlpha, Bool.or_eq_true] at hplain ⊢
  tauto

/-- Where there is nothing but a name, the path is that name. -/
theorem eq_of_parse?_of_name {key : String} (hname : ∀ c ∈ key.toList, isNameChar c = true)
    {path : KeyPath} (hparse : KeyPath.parse? key = some path) : path = ⟨.name key, []⟩ := by
  simp only [KeyPath.parse?, List.takeWhile_eq_self_iff.mpr hname,
    List.dropWhile_eq_nil_iff.mpr hname] at hparse
  split at hparse
  next => contradiction
  next => simpa [steps?] using hparse.symm

theorem ofText_of_isPlain {key : String} (hplain : isPlain key = true) :
    KeyPath.ofText key = ⟨.name key, []⟩ := by
  have hname : ∀ c ∈ key.toList, isNameChar c = true :=
    fun c hc => isNameChar_of_isPlainChar (List.all_eq_true.mp hplain c hc)
  rw [KeyPath.ofText]
  cases hparse : KeyPath.parse? key with
  | none => rfl
  | some path => exact eq_of_parse?_of_name hname hparse

/-! ## Changing the value of a key -/

section Alter

variable {key other : String} {change : Option Node → Node} {entries : List (String × Node)}

theorem find?_alter_self :
    Node.find? key (alter key change entries) = some (change (Node.find? key entries)) := by
  induction entries with
  | nil => simp [alter, Node.find?]
  | cons entry entries ih =>
      obtain ⟨k, node⟩ := entry
      by_cases hkey : k = key
      · simp [alter, hkey, Node.find?]
      · have hne : (key == k) = false := beq_eq_false_iff_ne.mpr (Ne.symm hkey)
        simpa [alter, hkey, Node.find?, List.lookup_cons, hne] using ih

theorem find?_alter_of_ne (hne : other ≠ key) :
    Node.find? other (alter key change entries) = Node.find? other entries := by
  induction entries with
  | nil => simp [alter, Node.find?, List.lookup_cons, beq_eq_false_iff_ne.mpr hne]
  | cons entry entries ih =>
      obtain ⟨k, node⟩ := entry
      by_cases hkey : k = key
      · simp [alter, hkey, Node.find?, List.lookup_cons, beq_eq_false_iff_ne.mpr hne]
      · cases hother : other == k <;>
          simp_all [alter, Node.find?, List.lookup_cons]

theorem alter_of_fresh (hfresh : key ∉ entries.map Prod.fst) :
    alter key change entries = entries ++ [(key, change none)] := by
  induction entries with
  | nil => rfl
  | cons entry entries ih =>
      simp only [List.map_cons, List.mem_cons, not_or] at hfresh
      rw [alter, if_neg (Ne.symm hfresh.1), ih hfresh.2, List.cons_append]

theorem keys_alter_of_mem (hmem : key ∈ entries.map Prod.fst) :
    (alter key change entries).map Prod.fst = entries.map Prod.fst := by
  induction entries with
  | nil => cases hmem
  | cons entry entries ih =>
      obtain ⟨k, node⟩ := entry
      by_cases hkey : k = key
      · simp [alter, hkey]
      · have hrest : key ∈ entries.map Prod.fst := by
          simpa [Ne.symm hkey] using hmem
        simp only [alter, if_neg hkey, List.map_cons, ih hrest]

theorem mem_keys_alter : other ∈ (alter key change entries).map Prod.fst ↔
    other ∈ entries.map Prod.fst ∨ other = key := by
  by_cases hmem : key ∈ entries.map Prod.fst
  · rw [keys_alter_of_mem hmem]
    exact ⟨.inl, fun h => h.elim id fun heq => heq ▸ hmem⟩
  · rw [alter_of_fresh hmem, List.map_append, List.mem_append, List.map_singleton,
      List.mem_singleton]

theorem nodup_alter (hnodup : (entries.map Prod.fst).Nodup) :
    ((alter key change entries).map Prod.fst).Nodup := by
  by_cases hmem : key ∈ entries.map Prod.fst
  · rwa [keys_alter_of_mem hmem]
  · rw [alter_of_fresh hmem, List.map_append, List.nodup_append]
    refine ⟨hnodup, by simp, ?_⟩
    rintro k hk _ hkey rfl
    obtain rfl := List.mem_singleton.mp hkey
    exact hmem hk

theorem mem_alter {entry : String × Node} (hentry : entry ∈ alter key change entries) :
    entry ∈ entries ∨ entry = (key, change (Node.find? key entries)) := by
  induction entries with
  | nil => exact .inr (List.mem_singleton.mp hentry)
  | cons first entries ih =>
      obtain ⟨k, node⟩ := first
      by_cases hkey : k = key
      · subst hkey
        rw [alter, if_pos rfl, List.mem_cons] at hentry
        rcases hentry with rfl | hrest
        · simp [Node.find?]
        · exact .inl (List.mem_cons_of_mem _ hrest)
      · rw [alter, if_neg hkey, List.mem_cons] at hentry
        have hne : (key == k) = false := beq_eq_false_iff_ne.mpr (Ne.symm hkey)
        rcases hentry with rfl | hrest
        · exact .inl List.mem_cons_self
        · simpa [Node.find?, List.lookup_cons, hne] using
            (ih hrest).imp_left (List.mem_cons_of_mem _)

theorem filter_alter_of_kept (keep : String → Bool) (hkeep : keep key = true) :
    (alter key change entries).filter (fun entry => keep entry.1) =
      alter key change (entries.filter fun entry => keep entry.1) := by
  induction entries with
  | nil => simp [alter, hkeep]
  | cons entry entries ih =>
      obtain ⟨k, node⟩ := entry
      by_cases hkey : k = key
      · subst hkey
        simp [alter, hkeep]
      · cases hk : keep k <;> simp [alter, hkey, hk, ih]

theorem filter_alter_of_dropped (keep : String → Bool) (hdrop : keep key = false) :
    (alter key change entries).filter (fun entry => keep entry.1) =
      entries.filter fun entry => keep entry.1 := by
  induction entries with
  | nil => simp [alter, hdrop]
  | cons entry entries ih =>
      obtain ⟨k, node⟩ := entry
      by_cases hkey : k = key
      · subst hkey
        simp [alter, hdrop]
      · simp only [alter, if_neg hkey, List.filter_cons, ih]

end Alter

/-- What comes of the old value under the first name of a path. -/
def changed (value : Node) : List Step → Option Node → Node
  | [], old => overlay old value
  | step :: steps, old => put value step steps (old.getD .null)

theorem putAt_of_first {path : KeyPath} {first : String} (hfirst : path.first = .name first)
    (value node : Node) :
    putAt path value node =
      .table (alter (Text.fold first) (changed value path.rest) (entriesOf node)) := by
  rw [putAt, hfirst]
  cases path.rest <;> rfl

theorem at?_cons (key : String) (path : List String) (node : Node) :
    node.at? (key :: path) = (Node.find? key (entriesOf node)).bind (Node.at? path) := by
  cases node <;> rfl

/-! ## Settled trees -/

/-- Every table is an object whose keys are plain. -/
inductive IsSettled : Node → Prop where
  | value {node : Node} (hvalue : ∀ entries, node ≠ .table entries) : IsSettled node
  | table {entries : List (String × Node)} (hnodup : (entries.map Prod.fst).Nodup)
    (hplain : ∀ entry ∈ entries, isPlain entry.1 = true)
    (hentries : ∀ entry ∈ entries, IsSettled entry.2) : IsSettled (.table entries)

theorem IsSettled.of_table {entries : List (String × Node)} (h : IsSettled (.table entries)) :
    (entries.map Prod.fst).Nodup ∧ (∀ entry ∈ entries, isPlain entry.1 = true) ∧
      ∀ entry ∈ entries, IsSettled entry.2 := by
  cases h with
  | value hvalue => exact absurd rfl (hvalue entries)
  | table hnodup hplain hentries => exact ⟨hnodup, hplain, hentries⟩

theorem isSettled_entriesOf {node : Node} (h : IsSettled node) :
    IsSettled (.table (entriesOf node)) := by
  cases node with
  | table entries => exact h
  | _ => exact .table List.nodup_nil (by simp [entriesOf]) (by simp [entriesOf])

theorem IsSettled.alter {key : String} {change : Option Node → Node}
    {entries : List (String × Node)} (h : IsSettled (.table entries)) (hkey : isPlain key = true)
    (hchange : IsSettled (change (Node.find? key entries))) :
    IsSettled (.table (alter key change entries)) := by
  obtain ⟨hnodup, hplain, hentries⟩ := h.of_table
  refine .table (nodup_alter hnodup) ?_ ?_
  · intro entry hentry
    rcases mem_alter hentry with hold | rfl
    · exact hplain entry hold
    · exact hkey
  · intro entry hentry
    rcases mem_alter hentry with hold | rfl
    · exact hentries entry hold
    · exact hchange

theorem IsSettled.find? {key : String} {node : Node} {entries : List (String × Node)}
    (h : IsSettled (.table entries)) (hfind : Node.find? key entries = some node) :
    IsSettled node :=
  h.of_table.2.2 _ (Node.mem_of_find? hfind)

theorem IsSettled.at? {node inner : Node} {path : List String} (h : IsSettled node)
    (hat : node.at? path = some inner) : IsSettled inner := by
  induction path generalizing node with
  | nil =>
      obtain rfl := Option.some.inj hat
      exact h
  | cons key path ih =>
      rw [at?_cons] at hat
      obtain ⟨below, hfind, hbelow⟩ := Option.bind_eq_some_iff.mp hat
      exact ih ((isSettled_entriesOf h).find? hfind) hbelow

theorem fresh_of_nodup {done entries : List (String × Node)} {key : String} {node : Node}
    (hnodup : ((done ++ (key, node) :: entries).map Prod.fst).Nodup) :
    key ∉ done.map Prod.fst := by
  rw [List.map_append, List.nodup_append] at hnodup
  exact fun hmem => hnodup.2.2 key hmem key (by simp) rfl

/-- Entries with plain keys of their own are added at the end as they are. -/
theorem overlayEntries_append {entries done : List (String × Node)}
    (hnodup : ((done ++ entries).map Prod.fst).Nodup)
    (hplain : ∀ entry ∈ entries, isPlain entry.1 = true)
    (hsame : ∀ entry ∈ entries, overlay none entry.2 = entry.2) :
    overlayEntries (.table done) entries = .table (done ++ entries) := by
  induction entries generalizing done with
  | nil => simp [overlayEntries]
  | cons entry entries ih =>
      obtain ⟨key, node⟩ := entry
      rw [List.forall_mem_cons] at hplain hsame
      have hstep : Settings.alter (Text.fold key) (fun old => overlay old node) done =
          done ++ [(key, node)] := by
        rw [fold_of_isPlain hplain.1, alter_of_fresh (fresh_of_nodup hnodup), hsame.1]
      rw [overlayEntries, entriesOf, hstep, ih (by simpa using hnodup) hplain.2 hsame.2]
      simp

theorem overlay_of_isSettled {node : Node} (h : IsSettled node) : overlay none node = node := by
  induction h with
  | value hvalue =>
      rename_i node
      cases node with
      | table entries => exact absurd rfl (hvalue entries)
      | _ => rfl
  | table hnodup hplain _ ih =>
      rename_i entries
      exact overlayEntries_append (by simpa using hnodup) hplain ih

theorem putEntries_of_isPlain {entries : List (String × Node)} {node : Node}
    (hplain : ∀ entry ∈ entries, isPlain entry.1 = true) :
    putEntries entries node = overlayEntries node entries := by
  induction entries generalizing node with
  | nil => rfl
  | cons entry entries ih =>
      rw [List.forall_mem_cons] at hplain
      have hstep : putAt (KeyPath.ofText entry.1) entry.2 node =
          .table (Settings.alter (Text.fold entry.1) (fun old => overlay old entry.2)
            (entriesOf node)) := by
        rw [ofText_of_isPlain hplain.1]
        rfl
      rw [putEntries, List.foldl_cons, hstep, overlayEntries]
      exact ih hplain.2

/-- Putting the entries of a settled table into an empty one restores the table. -/
theorem putEntries_of_isSettled {entries : List (String × Node)}
    (h : IsSettled (.table entries)) : putEntries entries (.table []) = .table entries := by
  rw [putEntries_of_isPlain h.of_table.2.1]
  exact overlay_of_isSettled h

theorem isSettled_normalEntries {entries done : List (String × Node)}
    (hdone : IsSettled (.table done)) (hplain : ∀ entry ∈ entries, isPlain entry.1 = true)
    (hentries : ∀ entry ∈ entries, IsSettled (normal entry.2)) :
    IsSettled (.table (normalEntries done entries)) := by
  induction entries generalizing done with
  | nil => exact hdone
  | cons entry entries ih =>
      rw [List.forall_mem_cons] at hplain hentries
      exact ih (hdone.alter hplain.1 hentries.1) hplain.2 hentries.2

/-- What a file says is settled if its keys are plain: of equal keys only the last counts. -/
theorem isSettled_normal {node : Node} (hplain : ∀ key ∈ node.keys, isPlain key = true) :
    IsSettled (normal node) := by
  induction node using Node.induct with
  | scalar node hscalar =>
      refine .value fun entries => ?_
      cases node with
      | int i =>
          rw [normal]
          split <;> simp
      | list => contradiction
      | table => contradiction
      | _ => simp [normal]
  | list items => exact .value (by simp [normal])
  | table entries ih =>
      rw [Node.keys, Node.forall_mem_entryKeys] at hplain
      rw [normal]
      exact isSettled_normalEntries (.table List.nodup_nil (by simp) (by simp))
        (fun entry hentry => (hplain entry hentry).1)
        (fun entry hentry => ih entry hentry (hplain entry hentry).2)

/-! ## Putting a value at a path of names -/

/-- The tree with a value at a path; tables are made on the way. -/
def setAt (value : Node) : List String → Node → Node
  | [], _ => value
  | key :: path, node =>
    .table (alter key (fun old => setAt value path (old.getD .null)) (entriesOf node))

theorem put_names {value : Node} (hvalue : ∀ entries, value ≠ .table entries) {key : String}
    {path : List String} (hplain : ∀ name ∈ key :: path, isPlain name = true) (node : Node) :
    put value (.name key) (path.map .name) node = setAt value (key :: path) node := by
  induction path generalizing key node with
  | nil =>
      have hoverlay (old : Option Node) : overlay old value = value := by
        cases value with
        | table entries => exact absurd rfl (hvalue entries)
        | _ => rfl
      simp only [List.map_nil, put, fold_of_isPlain (hplain key (by simp)), hoverlay, setAt]
  | cons next path ih =>
      rw [List.forall_mem_cons] at hplain
      simp only [List.map_cons, put, fold_of_isPlain hplain.1, ih hplain.2]
      rfl

/-- A value is found where it was put, and everything on the way there has it further down. -/
theorem at?_setAt_append (value : Node) (path below : List String) (node : Node) :
    (setAt value (path ++ below) node).at? path =
      some (setAt value below ((node.at? path).getD .null)) := by
  induction path generalizing node with
  | nil => rfl
  | cons key path ih =>
      rw [List.cons_append, setAt, at?_cons, entriesOf, find?_alter_self, Option.bind_some, ih,
        at?_cons]
      cases Node.find? key (entriesOf node) with
      | some inner => rfl
      | none => cases path <;> rfl

theorem at?_setAt_self (value : Node) (path : List String) (node : Node) :
    (setAt value path node).at? path = some value := by
  simpa [setAt] using at?_setAt_append value path [] node

/-- Places that the path does not touch are as they were. -/
theorem at?_setAt_of_apart (value : Node) {path other : List String} (hpath : ¬ path <+: other)
    (hother : ¬ other <+: path) (node : Node) :
    (setAt value path node).at? other = node.at? other := by
  induction path generalizing other node with
  | nil => exact absurd List.nil_prefix hpath
  | cons key path ih =>
      cases other with
      | nil => exact absurd List.nil_prefix hother
      | cons key' other =>
          rw [setAt, at?_cons, at?_cons, entriesOf]
          by_cases hkey : key' = key
          · subst hkey
            rw [List.cons_prefix_cons, and_iff_right rfl] at hpath hother
            rw [find?_alter_self, Option.bind_some, ih hpath hother]
            cases Node.find? key' (entriesOf node) with
            | some inner => rfl
            | none =>
                cases other with
                | nil => exact absurd List.nil_prefix hother
                | cons => rfl
          · rw [find?_alter_of_ne hkey]

theorem IsSettled.setAt {value node : Node} (hvalue : IsSettled value) (hnode : IsSettled node)
    {path : List String} (hplain : ∀ name ∈ path, isPlain name = true) :
    IsSettled (setAt value path node) := by
  induction path generalizing node with
  | nil => exact hvalue
  | cons key path ih =>
      rw [List.forall_mem_cons] at hplain
      refine (isSettled_entriesOf hnode).alter hplain.1 (ih ?_ hplain.2)
      cases hfind : Node.find? key (entriesOf node) with
      | none => exact .value (by simp)
      | some inner => exact (isSettled_entriesOf hnode).find? hfind

end Settings

end ChainRegistry
