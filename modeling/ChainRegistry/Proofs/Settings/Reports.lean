import ChainRegistry.Proofs.Settings.SealedMembers

/-!
# Reports on sealed sections

Whether a load reports a sealed section is decided by what stands in its place when all sources have
been laid over each other, and not by whether a source names it.  Sources put values in the place
one after the other.  What stands there changes in few ways: a path that goes on by a name leaves a
table, one that goes on by an index leaves a list, a value that is no table takes the place over,
and a table is laid over the one that is there.  So a report says that a source names the section,
but a source that names it goes unreported if a later one, or the source itself, leaves no table.
-/

namespace ChainRegistry.Settings

open Registry (sealedSections)

variable {readers : Readers}

/-! ## What sources say -/

/-- The steps behind the name of a section in a key that leads there, in whatever case. -/
def stepsInto? (name key : String) : Option (List Step) :=
  (KeyPath.parse? (Text.fold key)).bind fun path =>
    if path.first = .name name then some path.rest else none

/-- What the variables say, as entries of a file. -/
def variableEntries (environment : Environment) : List (String × Node) :=
  environment.filterMap fun entry =>
    (keyOfName? entry.1).map fun key => (key, valueOfText entry.2)

/-- The keys that sources have: those of the file, and those that variables stand for. -/
def saidKeys (environment : Environment) (entries : List (String × Node)) : List String :=
  entries.map Prod.fst ++ environment.filterMap fun entry => keyOfName? entry.1

/-- All that is said, the file first. -/
def saidEntries (environment : Environment) (entries : List (String × Node)) :
    List (String × Node) :=
  normalEntries [] entries ++ variableEntries environment

/-- The entries of the joined layers, before their keys are read once more. -/
def laidEntries (environment : Environment) (entries : List (String × Node)) :
    List (String × Node) :=
  entriesOf (putEntries (saidEntries environment entries) (.table []))

/-! ## What stands in a place -/

inductive Standing where
  | nothing
  | table
  | other
  deriving DecidableEq, Repr

namespace Standing

def of : Option Node → Standing
  | none => .nothing
  | some (.table _) => .table
  | some _ => .other

/-- What stands in a place once a value has been put there, or some steps below. -/
def put (standing : Standing) : List Step → Node → Standing
  | .name _ :: _, _ => .table
  | .index _ :: _, _ => .other
  | [], .table [] => if standing = .nothing then .table else standing
  | [], .table (_ :: _) => .table
  | [], _ => .other

/-- What stands in the place of a section once a source has made an entry. -/
def after (name : String) (standing : Standing) (entry : String × Node) : Standing :=
  match stepsInto? name entry.1 with
  | some steps => standing.put steps entry.2
  | none => standing

theorem put_fold (standing : Standing) (steps : List Step) (value : Node) :
    standing.put (steps.map Step.fold) value = standing.put steps value := by
  rcases steps with - | ⟨step, steps⟩
  · rfl
  · cases step <;> rfl

theorem nothing_put (value : Node) : nothing.put [] value = of (some value) := by
  cases value with
  | table entries => cases entries <;> rfl
  | _ => rfl

theorem put_eq_table {standing : Standing} (hstanding : standing ≠ .other) {steps : List Step}
    {value : Node} (hput : nothing.put steps value = .table) :
    standing.put steps value = .table := by
  unfold put at hput ⊢
  split at hput
  next => rfl
  next => contradiction
  next => cases standing <;> first | rfl | contradiction
  next => rfl
  next => contradiction

end Standing

/-- What stands under a name in the outermost table. -/
def standing (name : String) (node : Node) : Standing :=
  .of (Node.find? name (entriesOf node))

theorem of_overlayEntries (done entries : List (String × Node)) :
    Standing.of (some (overlayEntries (.table done) entries)) = .table := by
  induction entries generalizing done with
  | nil => rfl
  | cons entry entries ih => exact ih _

theorem of_overlay (old : Option Node) (value : Node) :
    Standing.of (some (overlay old value)) = (Standing.of old).put [] value := by
  cases value with
  | table entries =>
      cases entries with
      | nil =>
          cases old with
          | none => rfl
          | some node => cases node <;> rfl
      | cons entry entries => exact of_overlayEntries _ _
  | _ => rfl

theorem of_changed (value : Node) (steps : List Step) (old : Option Node) :
    Standing.of (some (changed value steps old)) = (Standing.of old).put steps value := by
  rcases steps with - | ⟨step, steps⟩
  · exact of_overlay old value
  · cases step <;> cases steps <;> rfl

theorem standing_putAt {path : KeyPath} {first : String} (hfirst : path.first = .name first)
    (name : String) (value node : Node) :
    standing name (putAt path value node) =
      if Text.fold first = name then (standing name node).put path.rest value
      else standing name node := by
  rw [standing, putAt_of_first hfirst, entriesOf]
  by_cases hname : Text.fold first = name
  · rw [if_pos hname, hname, find?_alter_self, of_changed, standing]
  · rw [if_neg hname, find?_alter_of_ne (Ne.symm hname), standing]

/-! ## One entry -/

theorem stepsInto?_of_sealed : ∀ name ∈ sealedSections, stepsInto? name name = some [] := by
  decide

theorem stepsInto?_fold (name key : String) :
    stepsInto? name (Text.fold key) = stepsInto? name key := by
  rw [stepsInto?, fold_fold, stepsInto?]

theorem stepsInto?_of_parse? {key first : String} {path : KeyPath}
    (hparse : KeyPath.parse? key = some path) (hfirst : path.first = .name first) (name : String) :
    stepsInto? name key =
      if Text.fold first = name then some (path.rest.map Step.fold) else none := by
  rw [stepsInto?, parse?_fold hparse, Option.bind_some, hfirst]
  simp only [Step.fold, Step.name.injEq]

example : (keyOfName? "Aln__Treasury__IS_LIVE").bind (stepsInto? "treasury") =
    some [.name "is_live"] := by
  decide

/-- Whether a key that leads into a section is already a path as it is written. -/
def IsEarly (name key : String) : Prop :=
  (stepsInto? name key).isSome → (KeyPath.parse? key).isSome

instance (name key : String) : Decidable (IsEarly name key) :=
  inferInstanceAs (Decidable (_ → _))

theorem isEarly_of_fold_eq_self {key : String} (hfold : Text.fold key = key) (name : String) :
    IsEarly name key := by
  intro hsome
  obtain ⟨steps, hsteps⟩ := Option.isSome_iff_exists.mp hsome
  rw [stepsInto?, hfold, Option.bind_eq_some_iff] at hsteps
  obtain ⟨path, hparse, -⟩ := hsteps
  rw [hparse, Option.isSome_some]

theorem IsEarly.stepsInto?_eq_none {name key : String} (hearly : IsEarly name key)
    (hparse : KeyPath.parse? key = none) : stepsInto? name key = none := by
  refine Option.not_isSome_iff_eq_none.mp fun hsome => ?_
  have hpath := hearly hsome
  rw [hparse, Option.isSome_none] at hpath
  exact absurd hpath Bool.false_ne_true

theorem standing_putAt_ofText {name key : String} (hname : name ∈ sealedSections)
    (hearly : IsEarly name key) (value node : Node) :
    standing name (putAt (KeyPath.ofText key) value node) =
      (standing name node).after name (key, value) := by
  rw [Standing.after, KeyPath.ofText]
  cases hparse : KeyPath.parse? key with
  | some path =>
      obtain ⟨first, -, -, -, -, hfirst⟩ := exists_of_parse? hparse
      rw [Option.getD_some, standing_putAt hfirst, stepsInto?_of_parse? hparse hfirst]
      by_cases hsame : Text.fold (String.ofList first) = name
      · simp only [if_pos hsame, Standing.put_fold]
      · simp only [if_neg hsame]
  | none =>
      have hsteps : stepsInto? name key = none := hearly.stepsInto?_eq_none hparse
      -- The name of the section is a path, so a key that is none is another name.
      have hne : Text.fold key ≠ name := by
        rintro rfl
        have hself := stepsInto?_of_sealed _ hname
        rw [stepsInto?_fold, hsteps] at hself
        cases hself
      rw [Option.getD_none, standing_putAt rfl, if_neg hne, hsteps]

/-! ## All entries -/

theorem standing_putEntries {name : String} (hname : name ∈ sealedSections)
    {entries : List (String × Node)} (hearly : ∀ entry ∈ entries, IsEarly name entry.1)
    (node : Node) :
    standing name (putEntries entries node) =
      entries.foldl (Standing.after name) (standing name node) := by
  induction entries generalizing node with
  | nil => rfl
  | cons entry entries ih =>
      rw [List.forall_mem_cons] at hearly
      rw [putEntries, List.foldl_cons, List.foldl_cons,
        ← standing_putAt_ofText hname hearly.1 entry.2 node]
      exact ih hearly.2 _

/-- Entries that never lead into the section leave its place as it is. -/
theorem foldl_after_of_none {name : String} {entries : List (String × Node)}
    (hnone : ∀ entry ∈ entries, stepsInto? name entry.1 = none) (old : Standing) :
    entries.foldl (Standing.after name) old = old := by
  induction entries with
  | nil => rfl
  | cons entry entries ih =>
      rw [List.forall_mem_cons] at hnone
      rw [List.foldl_cons, Standing.after, hnone.1]
      exact ih hnone.2

/-- Whether an entry puts a table in the place of a section if it leads there. -/
def GivesTable (name : String) (entry : String × Node) : Prop :=
  ∀ steps ∈ stepsInto? name entry.1, Standing.nothing.put steps entry.2 = .table

instance (name : String) (entry : String × Node) : Decidable (GivesTable name entry) :=
  inferInstanceAs (Decidable (∀ steps ∈ stepsInto? name entry.1, _ = _))

/-- Where only tables are put, there is a table once anything has been put. -/
theorem foldl_after_eq_table_iff {name : String} {entries : List (String × Node)}
    (htables : ∀ entry ∈ entries, GivesTable name entry) {old : Standing} (hold : old ≠ .other) :
    entries.foldl (Standing.after name) old = .table ↔
      old = .table ∨ ∃ entry ∈ entries, (stepsInto? name entry.1).isSome := by
  induction entries generalizing old with
  | nil => simp
  | cons entry entries ih =>
      rw [List.forall_mem_cons] at htables
      rw [List.foldl_cons, List.exists_mem_cons_iff]
      cases hsteps : stepsInto? name entry.1 with
      | none =>
          have hafter : old.after name entry = old := by rw [Standing.after, hsteps]
          rw [hafter, ih htables.2 hold]
          simp
      | some steps =>
          have hafter : old.after name entry = .table := by
            rw [Standing.after, hsteps]
            exact Standing.put_eq_table hold (htables.1 steps hsteps)
          rw [hafter, ih htables.2 (by decide)]
          simp

/-- With every key once, and none but the name of the section leading there, what stands there is
the value of the name. -/
theorem foldl_after_of_nodup {name : String} (hname : name ∈ sealedSections)
    {entries : List (String × Node)} (hnodup : (entries.map Prod.fst).Nodup)
    (honly : ∀ entry ∈ entries, (stepsInto? name entry.1).isSome → entry.1 = name) :
    entries.foldl (Standing.after name) .nothing = .of (Node.find? name entries) := by
  induction entries with
  | nil => rfl
  | cons entry entries ih =>
      obtain ⟨key, value⟩ := entry
      rw [List.map_cons, List.nodup_cons] at hnodup
      rw [List.forall_mem_cons] at honly
      rw [List.foldl_cons]
      by_cases hkey : key = name
      · subst hkey
        have hrest : ∀ entry ∈ entries, stepsInto? key entry.1 = none := by
          refine fun entry hentry => Option.not_isSome_iff_eq_none.mp fun hsome => hnodup.1 ?_
          exact List.mem_map.mpr ⟨entry, hentry, honly.2 entry hentry hsome⟩
        have hvalue : Standing.nothing.after key (key, value) = .of (some value) := by
          rw [Standing.after, stepsInto?_of_sealed key hname]
          exact Standing.nothing_put value
        rw [foldl_after_of_none hrest, hvalue, Node.find?, List.lookup_cons_self]
      · have hsteps : stepsInto? name key = none :=
          Option.not_isSome_iff_eq_none.mp fun hsome => hkey (honly.1 hsome)
        have hne : (name == key) = false := beq_eq_false_iff_ne.mpr (Ne.symm hkey)
        rw [Standing.after, hsteps, Node.find?, List.lookup_cons, hne]
        exact ih hnodup.2 honly.2

/-! ## Keys of joined settings -/

/-- The key under which a value is put leads into a section only if the key that was said does, and
then it is the name of the section, or the key that was said was no path yet. -/
theorem stepsInto?_of_ofText {key first : String} (hfirst : (KeyPath.ofText key).first = .name first)
    {name : String} (hsome : (stepsInto? name (Text.fold first)).isSome) :
    (stepsInto? name key).isSome ∧ (IsEarly name key → Text.fold first = name) := by
  rw [KeyPath.ofText] at hfirst
  cases hparse : KeyPath.parse? key with
  | none =>
      rw [hparse, Option.getD_none] at hfirst
      obtain rfl := Step.name.inj hfirst
      rw [stepsInto?_fold] at hsome
      refine ⟨hsome, fun hearly => ?_⟩
      rw [hearly.stepsInto?_eq_none hparse, Option.isSome_none] at hsome
      exact absurd hsome Bool.false_ne_true
  | some path =>
      rw [hparse, Option.getD_some] at hfirst
      obtain ⟨chars, -, -, hchars, -, hpath⟩ := exists_of_parse? hparse
      obtain rfl := Step.name.inj (hpath.symm.trans hfirst)
      have hname : ∀ c ∈ (Text.fold (String.ofList chars)).toList, isNameChar c = true := by
        rw [toList_fold, String.toList_ofList]
        exact isNameChar_of_mem_folded hchars
      have hsame : Text.fold (String.ofList chars) = name := by
        obtain ⟨steps, hsteps⟩ := Option.isSome_iff_exists.mp hsome
        rw [stepsInto?, fold_fold, Option.bind_eq_some_iff] at hsteps
        obtain ⟨folded, hfolded, hsteps⟩ := hsteps
        obtain rfl := eq_of_parse?_of_name hname hfolded
        rw [Option.ite_none_right_eq_some] at hsteps
        exact Step.name.inj hsteps.1
      refine ⟨?_, fun _ => hsame⟩
      rw [stepsInto?_of_parse? hparse hfirst, if_pos hsame]
      rfl

theorem exists_first (key : String) : ∃ first, (KeyPath.ofText key).first = .name first := by
  obtain ⟨first, hfirst, -⟩ := ofText_first key
  exact ⟨first, hfirst⟩

theorem nodup_putEntries {entries : List (String × Node)} {node : Node}
    (hnodup : ((entriesOf node).map Prod.fst).Nodup) :
    ((entriesOf (putEntries entries node)).map Prod.fst).Nodup := by
  induction entries generalizing node with
  | nil => exact hnodup
  | cons entry entries ih =>
      obtain ⟨first, hfirst⟩ := exists_first entry.1
      rw [putEntries, List.foldl_cons, putAt_of_first hfirst]
      exact ih (nodup_alter hnodup)

theorem key_of_mem_putEntries {entries : List (String × Node)} {node : Node}
    {joined : String × Node} (hjoined : joined ∈ entriesOf (putEntries entries node)) :
    (∃ old ∈ entriesOf node, joined.1 = old.1) ∨
      ∃ entry ∈ entries, ∃ first, (KeyPath.ofText entry.1).first = .name first ∧
        joined.1 = Text.fold first := by
  induction entries generalizing node with
  | nil => exact .inl ⟨joined, hjoined, rfl⟩
  | cons entry entries ih =>
      obtain ⟨first, hfirst⟩ := exists_first entry.1
      rw [putEntries, List.foldl_cons, putAt_of_first hfirst] at hjoined
      rcases ih hjoined with ⟨old, hold, hkey⟩ | ⟨later, hlater, hkey⟩
      · rcases mem_alter hold with hold | rfl
        · exact .inl ⟨old, hold, hkey⟩
        · exact .inr ⟨entry, List.mem_cons_self, first, hfirst, hkey⟩
      · exact .inr ⟨later, List.mem_cons_of_mem _ hlater, hkey⟩

/-! ## Sources as entries -/

theorem putEnvironment_eq (environment : Environment) (node : Node) :
    putEnvironment environment node = putEntries (variableEntries environment) node := by
  induction environment generalizing node with
  | nil => rfl
  | cons entry environment ih =>
      rw [putEnvironment_cons, putVariable, variableEntries, List.filterMap_cons]
      cases keyOfName? entry.1 with
      | none => exact ih node
      | some key => exact ih _

theorem joined_eq (environment : Environment) (entries : List (String × Node)) :
    joined environment entries =
      putEntries (laidEntries environment entries) (.table []) := by
  have hsaid : putEntries (saidEntries environment entries) (.table []) =
      putEntries (variableEntries environment) (putFile entries (.table [])) :=
    List.foldl_append
  rw [joined, putEnvironment_eq, laidEntries, hsaid]

theorem mem_pointed {c : Char} {text : List Char} (hc : c ∈ pointed text) :
    c ∈ text ∨ c = '.' := by
  fun_induction pointed text with
  | case1 rest ih =>
      rcases List.mem_cons.mp hc with rfl | hrest
      · exact .inr rfl
      · exact (ih hrest).imp_left fun hmem => by simp [hmem]
  | case2 d rest _ ih =>
      rcases List.mem_cons.mp hc with rfl | hrest
      · exact .inl List.mem_cons_self
      · exact (ih hrest).imp_left (List.mem_cons_of_mem _)
  | case3 => contradiction

/-- The keys of variables are in lower case. -/
theorem fold_of_keyOfName? {name key : String} (hkey : keyOfName? name = some key) :
    Text.fold key = key := by
  obtain ⟨rest, hdrop, rfl⟩ := Option.map_eq_some_iff.mp hkey
  rw [dropStart?_eq_some_iff, toList_fold] at hdrop
  have hrest : ∀ c ∈ pointed rest, Text.foldChar c = c := by
    intro c hc
    rcases mem_pointed hc with hmem | rfl
    · have hmem : c ∈ name.toList.map Text.foldChar := hdrop ▸ List.mem_append_right _ hmem
      obtain ⟨d, -, rfl⟩ := List.mem_map.mp hmem
      exact foldChar_foldChar d
    · decide
  rw [Text.fold, String.toList_ofList, List.map_congr_left hrest, List.map_id']

theorem mem_keys_normalEntries {key : String} {done entries : List (String × Node)} :
    key ∈ (normalEntries done entries).map Prod.fst ↔
      key ∈ done.map Prod.fst ∨ key ∈ entries.map Prod.fst := by
  induction entries generalizing done with
  | nil => simp [normalEntries]
  | cons entry entries ih =>
      rw [normalEntries, ih, mem_keys_alter, List.map_cons, List.mem_cons, or_assoc]

theorem mem_saidKeys {environment : Environment} {entries : List (String × Node)} {key : String} :
    key ∈ saidKeys environment entries ↔ key ∈ (saidEntries environment entries).map Prod.fst := by
  have hvariables : (variableEntries environment).map Prod.fst =
      environment.filterMap fun entry => keyOfName? entry.1 := by
    rw [variableEntries, List.map_filterMap]
    congr 1
    funext entry
    cases keyOfName? entry.1 <;> rfl
  rw [saidKeys, saidEntries, List.map_append, hvariables, List.mem_append, List.mem_append,
    mem_keys_normalEntries]
  simp

/-! ## Reports -/

theorem warningsOf_eq (node : Node) : warningsOf node =
    (sealedSections.filter fun name => standing name node = .table).map sealedSectionWarning := by
  rw [warningsOf]
  congr 1
  refine List.filter_congr fun name _ => ?_
  rw [standing]
  rcases Node.find? name (entriesOf node) with - | found
  · rfl
  · cases found <;> rfl

theorem mem_warningsOf {name : String} (hname : name ∈ sealedSections) (node : Node) :
    sealedSectionWarning name ∈ warningsOf node ↔ standing name node = .table := by
  have hinjective : ∀ name ∈ sealedSections, ∀ other ∈ sealedSections,
      sealedSectionWarning other = sealedSectionWarning name → other = name := by
    decide
  simp only [warningsOf_eq, List.mem_map, List.mem_filter, decide_eq_true_eq]
  constructor
  · rintro ⟨other, ⟨hother, hstanding⟩, hsame⟩
    obtain rfl := hinjective name hname other hother hsame
    exact hstanding
  · exact fun hstanding => ⟨name, ⟨hname, hstanding⟩, rfl⟩

theorem load_warnings {sources : Sources readers} {path? : Option String}
    {entries : List (String × Node)} (hfile : fileEntries? sources path? = some entries) :
    (load sources path?).warnings = warningsOf (joined sources.environment entries) := by
  have hsettings : settings sources path? = .ok (joined sources.environment entries) := by
    apply eq_ok_of_toOption
    rw [settings_toOption, hfile, Option.map_some]
  rw [load, hsettings]

/-- Whether a load reports a section, whatever else comes of it. -/
def IsReported (sources : Sources readers) (path? : Option String) (name : String) : Prop :=
  sealedSectionWarning name ∈ (load sources path?).warnings

theorem key_of_mem_laidEntries {environment : Environment} {entries : List (String × Node)}
    {laid : String × Node} (hlaid : laid ∈ laidEntries environment entries) :
    ∃ entry ∈ saidEntries environment entries, ∃ first,
      (KeyPath.ofText entry.1).first = .name first ∧ laid.1 = Text.fold first := by
  refine (key_of_mem_putEntries hlaid).resolve_left ?_
  rintro ⟨old, hold, -⟩
  exact List.not_mem_nil hold

/-- The keys of the joined layers are in lower case, so the second reading of them is exact. -/
theorem standing_joined {name : String} (hname : name ∈ sealedSections)
    (environment : Environment) (entries : List (String × Node)) :
    standing name (joined environment entries) =
      (laidEntries environment entries).foldl (Standing.after name) .nothing := by
  rw [joined_eq]
  refine standing_putEntries hname (fun laid hlaid => ?_) (.table [])
  obtain ⟨-, -, first, -, hkey⟩ := key_of_mem_laidEntries hlaid
  exact isEarly_of_fold_eq_self (by rw [hkey, fold_fold]) name

theorem exists_said_of_reported {name : String} (hname : name ∈ sealedSections)
    {environment : Environment} {entries : List (String × Node)}
    (hstanding : standing name (joined environment entries) = .table) :
    ∃ key ∈ saidKeys environment entries, (stepsInto? name key).isSome := by
  by_contra hnone
  rw [standing_joined hname, foldl_after_of_none] at hstanding
  · cases hstanding
  · intro laid hlaid
    refine Option.not_isSome_iff_eq_none.mp fun hsome => hnone ?_
    obtain ⟨entry, hentry, first, hfirst, hkey⟩ := key_of_mem_laidEntries hlaid
    rw [hkey] at hsome
    exact ⟨entry.1, mem_saidKeys.mpr (List.mem_map_of_mem hentry),
      (stepsInto?_of_ofText hfirst hsome).1⟩

theorem isEarly_of_mem_saidEntries {name : String} {environment : Environment}
    {entries : List (String × Node)} (hearly : ∀ entry ∈ entries, IsEarly name entry.1) :
    ∀ entry ∈ saidEntries environment entries, IsEarly name entry.1 := by
  intro entry hentry
  rcases List.mem_append.mp hentry with hfile | hvariable
  · have hkey : entry.1 ∈ entries.map Prod.fst := by
      simpa using mem_keys_normalEntries.mp (List.mem_map_of_mem hfile)
    obtain ⟨original, horiginal, hsame⟩ := List.mem_map.mp hkey
    exact hsame ▸ hearly original horiginal
  · obtain ⟨source, -, hvariable⟩ := List.mem_filterMap.mp hvariable
    obtain ⟨key, hkey, rfl⟩ := Option.map_eq_some_iff.mp hvariable
    exact isEarly_of_fold_eq_self (fold_of_keyOfName? hkey) name

/-- Where all keys into a section are paths as they are written, what stands there in the end is what
the last entries leave. -/
theorem standing_joined_of_early {name : String} (hname : name ∈ sealedSections)
    {environment : Environment} {entries : List (String × Node)}
    (hearly : ∀ entry ∈ entries, IsEarly name entry.1) :
    standing name (joined environment entries) =
      (saidEntries environment entries).foldl (Standing.after name) .nothing := by
  have hsaid := @isEarly_of_mem_saidEntries name environment entries hearly
  have hnodup : ((laidEntries environment entries).map Prod.fst).Nodup :=
    nodup_putEntries List.nodup_nil
  have honly : ∀ laid ∈ laidEntries environment entries,
      (stepsInto? name laid.1).isSome → laid.1 = name := by
    intro laid hlaid hsome
    obtain ⟨entry, hentry, first, hfirst, hkey⟩ := key_of_mem_laidEntries hlaid
    rw [hkey] at hsome ⊢
    exact (stepsInto?_of_ofText hfirst hsome).2 (hsaid entry hentry)
  rw [standing_joined hname, foldl_after_of_nodup hname hnodup honly]
  exact standing_putEntries hname hsaid (.table [])

/-- Reports come at most once each and the treasury first, and whatever becomes of the registry.  A
section is reported only if some key leads into it.  If those keys are paths as they are written, it
is reported exactly if the last that is put there leaves a table, and so, if only tables are put
there, exactly if some key leads into it. -/
theorem reports_follow_standing {sources : Sources readers} {path? : Option String}
    {entries : List (String × Node)} (hfile : fileEntries? sources path? = some entries) :
    (load sources path?).warnings.Sublist
        ["Ignoring [treasury] overrides: section is fixed at compile time",
          "Ignoring [safety] overrides: section is fixed at compile time"] ∧
    ∀ name ∈ sealedSections,
      (IsReported sources path? name →
        ∃ key ∈ saidKeys sources.environment entries, (stepsInto? name key).isSome) ∧
      ((∀ entry ∈ entries, IsEarly name entry.1) →
        (IsReported sources path? name ↔
          (saidEntries sources.environment entries).foldl (Standing.after name) .nothing =
            .table) ∧
        ((∀ entry ∈ saidEntries sources.environment entries, GivesTable name entry) →
          (IsReported sources path? name ↔
            ∃ key ∈ saidKeys sources.environment entries, (stepsInto? name key).isSome))) := by
  have hreported {name : String} (hname : name ∈ sealedSections) :
      IsReported sources path? name ↔
        standing name (joined sources.environment entries) = .table := by
    rw [IsReported, load_warnings hfile, mem_warningsOf hname]
  constructor
  · rw [load_warnings hfile, warningsOf_eq]
    exact List.filter_sublist.map sealedSectionWarning
  · intro name hname
    rw [hreported hname]
    refine ⟨exists_said_of_reported hname, fun hearly => ?_⟩
    rw [standing_joined_of_early hname hearly]
    refine ⟨Iff.rfl, fun htables => ?_⟩
    rw [foldl_after_eq_table_iff htables (by decide)]
    simp [mem_saidKeys]

/-- A file with a table for the treasury, and a variable that takes its place. -/
def coveredSources : Sources where
  read? path := if path = "c.toml" then some "[treasury]\nis_live = true\n" else none
  environment := [("ALN__TREASURY", "off")]

/-- Two sources name the treasury, and neither is reported. -/
theorem covered_override_goes_unreported :
    fileEntries? coveredSources (some "c.toml") =
        some [("treasury", .table [("is_live", .bool true)])] ∧
      coveredSources.environment = [("ALN__TREASURY", "off")] ∧
      (load coveredSources (some "c.toml")).warnings = [] ∧
      (load coveredSources (some "c.toml")).result = .ok Registry.reference := by
  have hfile : fileEntries? coveredSources (some "c.toml") =
      some [("treasury", .table [("is_live", .bool true)])] := by
    cbv
  exact ⟨hfile, rfl, by decide +kernel, eq_ok_of_toOption (by decide +kernel)⟩

/-- A file with a table for the treasury and a block time that is refused, and a variable for a
bound on amounts. -/
def refusedSources : Sources where
  read? path :=
    if path = "c.toml" then some "[treasury]\nis_live = true\n[network]\nblock_time_ms = 0\n"
    else none
  environment := [("ALN__SAFETY__MIN_AMOUNT", "7")]

/-- Both sections are reported, though no registry is delivered. -/
theorem refused_load_reports_both :
    IsReported refusedSources (some "c.toml") "treasury" ∧
      IsReported refusedSources (some "c.toml") "safety" ∧
      (load refusedSources (some "c.toml")).result.toOption = none := by
  have hfile : fileEntries? refusedSources (some "c.toml") =
      some [("treasury", .table [("is_live", .bool true)]),
        ("network", .table [("block_time_ms", .int 0)])] := by
    cbv
  obtain ⟨-, hreports⟩ := reports_follow_standing hfile
  obtain ⟨-, htreasury⟩ := hreports "treasury" (by decide)
  obtain ⟨-, hsafety⟩ := hreports "safety" (by decide)
  refine ⟨?_, ?_, by decide +kernel⟩
  · obtain ⟨-, hnamed⟩ := htreasury (by decide +kernel)
    exact (hnamed (by decide +kernel)).mpr (by decide +kernel)
  · obtain ⟨hstanding, -⟩ := hsafety (by decide +kernel)
    exact hstanding.mpr (by decide +kernel)

end ChainRegistry.Settings
