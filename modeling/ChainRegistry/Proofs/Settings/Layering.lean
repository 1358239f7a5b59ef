import ChainRegistry.Proofs.Loading
import ChainRegistry.Proofs.ObjectReading
import ChainRegistry.Proofs.Settings.Places

/-!
# Layers of settings

A load takes every leaf from the last layer that says something about it: from its variable, else
from the file, else from the reference registry.  The file has to be made of sections with plain
keys, and every variable that changes settings has to be named for a field of its own.  The places
of two fields are never above one another, so a variable touches its own field and leaves all other
places as the file set them.  Hence variables may come in any order, and those that are named for
nothing in the registry might as well not be there.
-/

namespace ChainRegistry

open Settings

/-! ## Places of fields -/

namespace Registry

/-- The places of all fields, those of the sealed sections included. -/
def fieldPaths : List (List String) :=
  leaves.map Leaf.path
    ++ Treasury.fields.map (fun field => [treasuryField.name, field.name])
    ++ AmountBounds.fields.map (fun field => [amountsField.name, field.name])

theorem path_mem_fieldPaths {leaf : Leaf Registry} (hleaf : leaf ∈ leaves) :
    leaf.path ∈ fieldPaths :=
  List.mem_append_left _ (List.mem_append_left _ (List.mem_map_of_mem hleaf))

theorem isPlain_of_mem_fieldPaths :
    ∀ path ∈ fieldPaths, path ≠ [] ∧ ∀ name ∈ path, isPlain name = true := by
  decide +kernel

theorem eq_of_prefix_of_mem_fieldPaths :
    ∀ path ∈ fieldPaths, ∀ other ∈ fieldPaths, path <+: other → path = other := by
  decide +kernel

end Registry

namespace Settings

open Registry (fieldPaths leaves reference)
open Toml (isTable)

variable {readers : Readers}

/-! ## What the layers say -/

/-- What the file says that a load is pointed to; nothing is said if there is no such path. -/
def fileEntries? (sources : Sources readers) : Option String → Option (List (String × Node))
  | none => some []
  | some path => (expand sources.environment path).toOption.bind fun path =>
      (findFile? readers.order sources.read? path).bind fun (text, format) =>
        parseFile? readers text format

def Step.name? : Step → Option String
  | .name key => some key
  | .index _ => none

/-- The place that a variable is named for. -/
def pathOfName? (name : String) : Option (List String) :=
  (keyOfName? name).bind fun key =>
    let path := KeyPath.ofText key
    (path.first :: path.rest).mapM Step.name?

/-- The variables that change settings. -/
def overrides (environment : Environment) : Environment :=
  environment.filter fun entry => (keyOfName? entry.1).isSome

/-- The places that variables are named for, with the texts for them. -/
def assignments (environment : Environment) : List (List String × String) :=
  environment.filterMap fun entry => (pathOfName? entry.1).map fun path => (path, entry.2)

/-- The text that the environment has for a place. -/
def assigned? (environment : Environment) (path : List String) : Option String :=
  (assignments environment).lookup path

/-- Every variable that changes settings is named for a field, and no two for the same one. -/
structure NamesFields (environment : Environment) : Prop where
  named : ∀ entry ∈ environment, (keyOfName? entry.1).isSome →
    ∃ path ∈ fieldPaths, pathOfName? entry.1 = some path
  distinct : ((assignments environment).map Prod.fst).Nodup

/-- Whatever stands above a leaf is a table. -/
def HasSections (tree : Node) : Prop :=
  ∀ leaf ∈ leaves, ∀ path, path <+: leaf.path → path ≠ leaf.path →
    ∀ node, tree.at? path = some node → isTable node = true

instance (tree : Node) : Decidable (HasSections tree) :=
  decidable_of_iff
    (∀ leaf ∈ leaves, ∀ path ∈ leaf.path.inits, path ≠ leaf.path →
      ∀ node ∈ tree.at? path, isTable node = true)
    (by simp only [HasSections, List.mem_inits, Option.mem_def])

/-- The value that the last layer that says something gives a leaf. -/
def layeredValue? (environment : Environment) (file : Node) (leaf : Leaf Registry) :
    Option LeafValue :=
  match assigned? environment leaf.path with
  | some text => leaf.kind.read? .settings (valueOfText text)
  | none =>
    match leaf.given? file with
    | some node => leaf.kind.read? .settings node
    | none => some (leaf.get reference)

/-! ## Single variables -/

theorem mapM_name?_eq_some_iff {steps : List Step} {names : List String} :
    steps.mapM Step.name? = some names ↔ steps = names.map .name := by
  induction steps generalizing names with
  | nil => cases names <;> simp
  | cons step steps ih =>
      cases names with
      | nil => simp [List.mapM_cons, Option.bind_eq_some_iff]
      | cons name names =>
          cases step <;> simp [List.mapM_cons, Step.name?, Option.bind_eq_some_iff, ih,
            and_comm]

/-- A variable is named for a field if its name in lower case is the mark and the names that lead to
the field, with separators between them. -/
theorem pathOfName?_eq_some {path : List String} (hpath : path ∈ fieldPaths) {name : String}
    (hname : Text.fold name =
      String.intercalate variableSeparator (Text.fold variableMark :: path)) :
    pathOfName? name = some path := by
  -- Strings are slow to evaluate, so the places are checked as lists of characters.
  have hpointed : ∀ path ∈ fieldPaths,
      (dropStart? "aln__".toList (List.intercalate "__".toList
        ("aln".toList :: path.map String.toList))).map pointed =
      some (List.intercalate ['.'] (path.map String.toList)) := by
    decide +kernel
  have hsteps : ∀ path ∈ fieldPaths,
      let text := List.intercalate ['.'] (path.map String.toList)
      let first := text.takeWhile isNameChar
      let rest := text.dropWhile isNameChar
      first ≠ [] ∧ (steps? rest.length rest).map (Step.name (String.ofList first) :: ·) =
        some (path.map .name) := by
    decide +kernel
  have hmark : (Text.fold (variableMark ++ variableSeparator)).toList = "aln__".toList := by
    decide
  have hfold : (Text.fold variableMark).toList = "aln".toList := by decide
  obtain ⟨hfirst, hsteps⟩ := hsteps path hpath
  obtain ⟨steps, hrest, hpath'⟩ := Option.map_eq_some_iff.mp hsteps
  have hkey : keyOfName? name =
      some (String.ofList (List.intercalate ['.'] (path.map String.toList))) := by
    have hpointed := hpointed path hpath
    obtain ⟨rest, hdrop, hrest⟩ := Option.map_eq_some_iff.mp hpointed
    rw [keyOfName?, hmark, hname, String.toList_intercalate, List.map_cons, hfold]
    simp only [variableSeparator, hdrop, Option.map_some, hrest]
  rw [pathOfName?, hkey, Option.bind_some, KeyPath.ofText, KeyPath.parse?, String.toList_ofList]
  simp only [if_neg hfirst, hrest, Option.map_some, Option.getD_some]
  exact mapM_name?_eq_some_iff.mpr hpath'

example : pathOfName? "Aln__Network__Gas_Price__DEFAULT" =
    some ["network", "gas_price", "default"] := by
  decide +kernel

theorem isScalar_valueOfText (text : String) :
    (valueOfText text).isScalar = true ∧ (valueOfText text).isNull = false := by
  unfold valueOfText
  extract_lets word
  split
  · exact ⟨rfl, rfl⟩
  · split
    · exact ⟨rfl, rfl⟩
    · split
      · exact ⟨rfl, rfl⟩
      · split <;> exact ⟨rfl, rfl⟩

theorem valueOfText_ne_table (text : String) (entries : List (String × Node)) :
    valueOfText text ≠ .table entries := by
  intro htable
  have hscalar := (isScalar_valueOfText text).1
  rw [htable] at hscalar
  contradiction

theorem putVariable_of_named {entry : String × String} {path : List String}
    (hname : pathOfName? entry.1 = some path) (hpath : path ∈ fieldPaths) (node : Node) :
    putVariable node entry = setAt (valueOfText entry.2) path node := by
  obtain ⟨key, hkey, hsteps⟩ := Option.bind_eq_some_iff.mp hname
  rw [mapM_name?_eq_some_iff] at hsteps
  obtain ⟨hne, hplain⟩ := Registry.isPlain_of_mem_fieldPaths path hpath
  cases path with
  | nil => exact absurd rfl hne
  | cons name path =>
      obtain ⟨hfirst, hrest⟩ := List.cons.inj hsteps
      rw [putVariable, hkey, ← put_names (valueOfText_ne_table entry.2) hplain]
      simp only [putAt, hfirst, hrest]

theorem putVariable_of_unnamed {entry : String × String} (hname : keyOfName? entry.1 = none)
    (node : Node) : putVariable node entry = node := by
  rw [putVariable, hname]

/-! ## Layers -/

/-- A tree of sections with plain keys. -/
structure IsLayer (tree : Node) : Prop where
  settled : IsSettled tree
  sections : HasSections tree

theorem IsLayer.inObjectForm {tree : Node} (h : IsLayer tree) : InObjectForm leaves tree := by
  intro leaf hleaf path hprefix hproper node hat
  have htable := h.sections leaf hleaf path hprefix hproper node hat
  cases node with
  | table entries => exact (h.settled.at? hat).of_table.1
  | _ => contradiction

theorem IsLayer.exists_entries {tree : Node} (h : IsLayer tree) :
    ∃ entries, tree = .table entries := by
  have hleaf : ∃ leaf ∈ leaves, leaf.path ≠ [] := by decide
  obtain ⟨leaf, hleaf, hpath⟩ := hleaf
  have htable := h.sections leaf hleaf [] List.nil_prefix hpath.symm tree rfl
  cases tree with
  | table entries => exact ⟨entries, rfl⟩
  | _ => contradiction

theorem isTable_setAt (value : Node) {path : List String} (hpath : path ≠ []) (node : Node) :
    isTable (setAt value path node) = true := by
  cases path with
  | nil => contradiction
  | cons key path => rfl

/-- No place of a field is above or below the place of another one. -/
theorem apart_of_ne {path other : List String} (hpath : path ∈ fieldPaths)
    (hother : other ∈ fieldPaths) (hne : path ≠ other) : ¬ path <+: other ∧ ¬ other <+: path :=
  ⟨fun hprefix => hne (Registry.eq_of_prefix_of_mem_fieldPaths path hpath other hother hprefix),
    fun hprefix =>
      hne (Registry.eq_of_prefix_of_mem_fieldPaths other hother path hpath hprefix).symm⟩

theorem IsLayer.setAt {value tree : Node} (hvalue : value.isScalar = true) (h : IsLayer tree)
    {path : List String} (hpath : path ∈ fieldPaths) : IsLayer (setAt value path tree) := by
  constructor
  · refine IsSettled.setAt (.value ?_) h.settled (Registry.isPlain_of_mem_fieldPaths path hpath).2
    rintro entries rfl
    contradiction
  · intro leaf hleaf above habove hproper node hat
    by_cases hbelow : above <+: path
    · obtain ⟨below, rfl⟩ := hbelow
      rw [at?_setAt_append] at hat
      obtain rfl := Option.some.inj hat
      apply isTable_setAt
      rintro rfl
      rw [List.append_nil] at hpath
      exact hproper (Registry.eq_of_prefix_of_mem_fieldPaths above hpath leaf.path
        (Registry.path_mem_fieldPaths hleaf) habove)
    · have hover : ¬ path <+: above := by
        intro hover
        have heq := Registry.eq_of_prefix_of_mem_fieldPaths path hpath leaf.path
          (Registry.path_mem_fieldPaths hleaf) (hover.trans habove)
        exact hbelow (heq ▸ habove)
      rw [at?_setAt_of_apart value hover hbelow] at hat
      exact h.sections leaf hleaf above habove hproper node hat

theorem assigned?_cons (entry : String × String) (environment : Environment)
    (path : List String) : assigned? (entry :: environment) path =
      if pathOfName? entry.1 = some path then some entry.2 else assigned? environment path := by
  rw [assigned?, assignments, List.filterMap_cons]
  cases pathOfName? entry.1 with
  | none => rfl
  | some place =>
      by_cases hsame : place = path
      · simp [hsame]
      · have hne : (path == place) = false := beq_eq_false_iff_ne.mpr (Ne.symm hsame)
        simp [hsame, List.lookup_cons, hne, assigned?, assignments]

theorem NamesFields.tail {entry : String × String} {environment : Environment}
    (h : NamesFields (entry :: environment)) : NamesFields environment := by
  refine ⟨fun other hother => h.named other (List.mem_cons_of_mem _ hother), ?_⟩
  exact h.distinct.sublist (((List.sublist_cons_self _ _).filterMap _).map _)

theorem NamesFields.assigned?_eq_none {entry : String × String} {environment : Environment}
    (h : NamesFields (entry :: environment)) {path : List String}
    (hname : pathOfName? entry.1 = some path) : assigned? environment path = none := by
  have hdistinct := h.distinct
  rw [assignments, List.filterMap_cons, hname, Option.map_some, List.map_cons,
    List.nodup_cons] at hdistinct
  rw [assigned?, List.lookup_eq_none_iff]
  rintro ⟨place, text⟩ hmem
  rw [bne_iff_ne]
  rintro rfl
  exact hdistinct.1 (List.mem_map.mpr ⟨_, hmem, rfl⟩)

theorem putEnvironment_cons (entry : String × String) (environment : Environment) (node : Node) :
    putEnvironment (entry :: environment) node =
      putEnvironment environment (putVariable node entry) := by
  simp only [putEnvironment, List.foldl_cons]

/-- Every field gets what its variable says, and keeps what it had if it has none. -/
theorem putEnvironment_spec {environment : Environment} (hnames : NamesFields environment)
    {tree : Node} (htree : IsLayer tree) :
    IsLayer (putEnvironment environment tree) ∧
      ∀ path ∈ fieldPaths, (putEnvironment environment tree).at? path =
        ((assigned? environment path).map valueOfText).or (tree.at? path) := by
  induction environment generalizing tree with
  | nil => exact ⟨htree, fun path _ => rfl⟩
  | cons entry environment ih =>
      rw [putEnvironment_cons]
      cases hkey : keyOfName? entry.1 with
      | none =>
          have hname : pathOfName? entry.1 = none := by rw [pathOfName?, hkey, Option.bind_none]
          rw [putVariable_of_unnamed hkey]
          simpa only [assigned?_cons, hname, reduceCtorEq, if_false] using ih hnames.tail htree
      | some key =>
          -- The rest of the environment has no variable for this place, so the value stays.
          obtain ⟨place, hplace, hname⟩ := hnames.named entry List.mem_cons_self (by simp [hkey])
          rw [putVariable_of_named hname hplace]
          obtain ⟨hlayer, hat⟩ :=
            ih hnames.tail (htree.setAt (isScalar_valueOfText entry.2).1 hplace)
          refine ⟨hlayer, fun path hpath => ?_⟩
          rw [hat path hpath, assigned?_cons, hname]
          by_cases hsame : place = path
          · subst hsame
            rw [hnames.assigned?_eq_none hname, if_pos rfl, at?_setAt_self]
            rfl
          · obtain ⟨hover, hbelow⟩ := apart_of_ne hplace hpath hsame
            rw [if_neg (by simpa using hsame), at?_setAt_of_apart _ hover hbelow]

/-! ## Loads -/

/-- The settings of a file, with variables laid over them. -/
def joined (environment : Environment) (entries : List (String × Node)) : Node :=
  putEntries (entriesOf (putEnvironment environment (putFile entries (.table [])))) (.table [])

theorem baseSettings_toOption (sources : Sources readers) (path? : Option String) :
    (baseSettings sources path?).toOption =
      (fileEntries? sources path?).map fun entries => putFile entries (.table []) := by
  cases path? with
  | none => rfl
  | some path =>
      rw [baseSettings, fileEntries?]
      cases expand sources.environment path with
      | error name => rfl
      | ok expanded =>
          simp only [Except.mapError, bind, Except.bind, Except.toOption, Option.bind_some,
            fileSettings]
          cases (findFile? readers.order sources.read? expanded).bind fun (text, format) =>
            parseFile? readers text format <;> rfl

theorem toOption_map {ε α β : Type} (f : α → β) (result : Except ε α) :
    (result.map f).toOption = result.toOption.map f := by
  cases result <;> rfl

theorem settings_toOption (sources : Sources readers) (path? : Option String) :
    (settings sources path?).toOption =
      (fileEntries? sources path?).map (joined sources.environment) := by
  rw [settings, toOption_map, baseSettings_toOption, Option.map_map]
  rfl

/-- The joined settings are those of the file with the variables put in their places. -/
theorem settings_of_layers {sources : Sources readers} {path? : Option String}
    {entries : List (String × Node)} (hfile : fileEntries? sources path? = some entries)
    (hlayer : IsLayer (normal (.table entries))) (hnames : NamesFields sources.environment) :
    settings sources path? =
      .ok (putEnvironment sources.environment (normal (.table entries))) := by
  obtain ⟨all, hjoined⟩ := (putEnvironment_spec hnames hlayer).1.exists_entries
  have hsettled := (putEnvironment_spec hnames hlayer).1.settled
  have hput : putFile entries (.table []) = normal (.table entries) :=
    putEntries_of_isSettled hlayer.settled
  rw [hjoined] at hsettled
  apply eq_ok_of_toOption
  rw [settings_toOption, hfile, Option.map_some, joined, hput, hjoined, entriesOf,
    putEntries_of_isSettled hsettled]

theorem outcome?_of_layers {environment : Environment} (hnames : NamesFields environment)
    {file : Node} (hfile : IsLayer file) {leaf : Leaf Registry} (hleaf : leaf ∈ leaves) :
    leaf.outcome? reference .settings (putEnvironment environment file) =
      layeredValue? environment file leaf := by
  have hat := (putEnvironment_spec hnames hfile).2 leaf.path (Registry.path_mem_fieldPaths hleaf)
  unfold layeredValue?
  cases hvariable : assigned? environment leaf.path with
  | some text =>
      rw [hvariable] at hat
      exact Leaf.outcome?_of_not_null hat (isScalar_valueOfText text).2
  | none =>
      rw [hvariable] at hat
      exact Leaf.outcome?_congr hat reference .settings

theorem assignments_overrides (environment : Environment) :
    assignments (overrides environment) = assignments environment := by
  rw [assignments, overrides, List.filterMap_filter, assignments]
  apply List.filterMap_congr
  intro entry _
  cases hkey : keyOfName? entry.1 <;> simp [pathOfName?, hkey]

theorem assignments_perm {environment other : Environment}
    (hperm : (overrides other).Perm (overrides environment)) :
    (assignments other).Perm (assignments environment) := by
  rw [← assignments_overrides other, ← assignments_overrides environment]
  exact hperm.filterMap _

theorem NamesFields.of_perm {environment other : Environment} (h : NamesFields environment)
    (hperm : (overrides other).Perm (overrides environment)) : NamesFields other := by
  constructor
  · intro entry hentry hkey
    have hmem : entry ∈ overrides environment :=
      hperm.mem_iff.mp (List.mem_filter.mpr ⟨hentry, hkey⟩)
    exact h.named entry (List.mem_filter.mp hmem).1 hkey
  · exact ((assignments_perm hperm).map Prod.fst).nodup_iff.mpr h.distinct

theorem assigned?_of_perm {environment other : Environment} (h : NamesFields environment)
    (hperm : (overrides other).Perm (overrides environment)) (path : List String) :
    assigned? other path = assigned? environment path := by
  apply Option.ext
  intro text
  rw [assigned?, assigned?, Node.lookup_eq_some_iff_mem (h.of_perm hperm).distinct,
    Node.lookup_eq_some_iff_mem h.distinct]
  exact (assignments_perm hperm).mem_iff

/-- A load delivers a registry exactly if it is valid, is sealed and has in every leaf what the last
layer says about it.  What the file says and the variables that change settings decide the whole
result, in whatever order and beside whichever others the variables stand. -/
theorem load_by_layers {sources : Sources readers} {path? : Option String}
    {entries : List (String × Node)} (hfile : fileEntries? sources path? = some entries)
    (hkeys : ∀ key ∈ (Node.table entries).keys, isPlain key = true)
    (hsections : HasSections (normal (.table entries)))
    (hnames : NamesFields sources.environment) :
    (∀ r, (load sources path?).result = .ok r ↔
      r.violation? = none ∧ r.sealedPart = reference.sealedPart ∧
        ∀ leaf ∈ leaves, layeredValue? sources.environment (normal (.table entries)) leaf =
          some (leaf.get r)) ∧
    ∀ {otherReaders : Readers} (other : Sources otherReaders) (otherPath? : Option String),
      fileEntries? other otherPath? = some entries →
      (overrides other.environment).Perm (overrides sources.environment) →
        (load other otherPath?).result = (load sources path?).result := by
  have hlayer : IsLayer (normal (.table entries)) := ⟨isSettled_normal hkeys, hsections⟩
  have hsettings := settings_of_layers hfile hlayer hnames
  have hform := (putEnvironment_spec hnames hlayer).1.inObjectForm
  constructor
  · intro r
    rw [load_result_of_settings hsettings, registryOf_eq_ok_iff]
    constructor
    · rintro ⟨hread, hvalid⟩
      refine ⟨hvalid, Registry.sealedPart_of_read? hread, fun leaf hleaf => ?_⟩
      have hdecided := Registry.codec_follows .settings _ hform
      rw [hread] at hdecided
      rw [← outcome?_of_layers hnames hlayer hleaf, hdecided leaf hleaf]
    · rintro ⟨hvalid, hsealed, hleaves⟩
      refine ⟨Registry.read?_eq_some_of_outcomes hform (fun leaf hleaf => ?_) hsealed, hvalid⟩
      rw [outcome?_of_layers hnames hlayer hleaf, hleaves leaf hleaf]
  · intro otherReaders other otherPath? hother hperm
    have hnames' := hnames.of_perm hperm
    have hform' := (putEnvironment_spec hnames' hlayer).1.inObjectForm
    have hat : ∀ leaf ∈ leaves,
        (putEnvironment other.environment (normal (.table entries))).at? leaf.path =
          (putEnvironment sources.environment (normal (.table entries))).at? leaf.path := by
      intro leaf hleaf
      have hpath := Registry.path_mem_fieldPaths hleaf
      rw [(putEnvironment_spec hnames' hlayer).2 _ hpath,
        (putEnvironment_spec hnames hlayer).2 _ hpath, assigned?_of_perm hnames hperm]
    have hread : Registry.codec.read? .settings _ = Registry.codec.read? .settings _ :=
      Registry.read?_congr hform hform' hat
    rw [load_result_of_settings hsettings,
      load_result_of_settings (settings_of_layers hother hlayer hnames'), registryOf, registryOf,
      hread]

/-- A file that sets two ports, and an environment that moves one of them and a price. -/
def layeredSources : Sources where
  read? path :=
    if path = "c.toml" then some "[ports]\nmetrics = 9191\nexplorer = 8181\n" else none
  environment := [("HOME", "/root"), ("ALN__PORTS__METRICS", "9292"),
    ("aln__network__gas_price__default", "7")]

theorem layeredSources_by_layers :
    ∃ entries, fileEntries? layeredSources (some "c.toml") = some entries ∧
      (∀ key ∈ (Node.table entries).keys, isPlain key = true) ∧
      HasSections (normal (.table entries)) ∧ NamesFields layeredSources.environment ∧
      ∃ r, (load layeredSources (some "c.toml")).result = .ok r ∧
        r.endpoints.metrics = 9292 ∧ r.endpoints.explorer = 8181 ∧ r.blocks.gasPrice.usual = 7 ∧
        (∀ leaf ∈ leaves,
          layeredValue? layeredSources.environment (normal (.table entries)) leaf =
            some (leaf.get r)) ∧
        (load ({ layeredSources with
            environment := layeredSources.environment.reverse.dropLast } : Sources)
          (some "c.toml")).result = .ok r := by
  have hfile : ∃ entries ∈ fileEntries? layeredSources (some "c.toml"),
      (∀ key ∈ (Node.table entries).keys, isPlain key = true) ∧
        HasSections (normal (.table entries)) := by
    decide +kernel
  obtain ⟨entries, hentries, hkeys, hsections⟩ := hfile
  have hnames : NamesFields layeredSources.environment := ⟨by decide +kernel, by decide +kernel⟩
  let r : Registry := { reference with
    endpoints := { Endpoints.reference with metrics := 9292, explorer := 8181 }
    blocks := { BlockRules.reference with
      gasPrice := { GasTariff.reference with usual := 7 } } }
  have hresult : (load layeredSources (some "c.toml")).result = .ok r :=
    eq_ok_of_toOption (by decide +kernel)
  obtain ⟨hlayers, hother⟩ := load_by_layers hentries hkeys hsections hnames
  refine ⟨entries, hentries, hkeys, hsections, hnames, r, hresult, rfl, rfl, rfl,
    ((hlayers r).mp hresult).2.2, ?_⟩
  have hexpand : (expand layeredSources.environment "c.toml").toOption =
      (expand layeredSources.environment.reverse.dropLast "c.toml").toOption := by
    decide +kernel
  rw [← hresult]
  apply hother
  · rw [← hentries, fileEntries?, fileEntries?, hexpand]
  · decide +kernel

end Settings

end ChainRegistry
