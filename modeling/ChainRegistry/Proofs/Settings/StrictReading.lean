import ChainRegistry.Proofs.RegistryForms
import ChainRegistry.Proofs.Settings.Reloading
import ChainRegistry.Proofs.Toml.Soundness

/-!
# Loading what is read strictly

A TOML document can be read by itself, strictly, or loaded as a settings file, where it passes
through the form of settings and scalars are read for what they say.  If its keys are plain and no
variable changes settings, the settings are the document with texts for its dates.  Everything that
the strict reading takes in is then read alike, in all forms of records.  Only a date in the place
of a record is not: it is a record without fields to the one and no record to the other.
-/

namespace ChainRegistry

namespace Node

/-- The keys of a table are plain. -/
def hasPlainKeys : Node → Bool
  | .table entries => entries.all fun entry => Settings.isPlain entry.1
  | _ => true

def HasPlainKeys (tree : Node) : Prop :=
  tree.everywhere hasPlainKeys = true

instance (tree : Node) : Decidable tree.HasPlainKeys :=
  inferInstanceAs (Decidable (_ = true))

theorem HasPlainKeys.isPlain {tree : Node} (hplain : tree.HasPlainKeys) :
    ∀ key ∈ tree.keys, Settings.isPlain key = true := by
  induction tree using induct with
  | scalar node hscalar =>
      have hkeys : node.keys = [] := by cases node <;> first | rfl | contradiction
      simp [hkeys]
  | list items => simp [keys]
  | table entries ih =>
      obtain ⟨htable, hentries⟩ := everywhere_table.mp hplain
      rw [keys, forall_mem_entryKeys]
      exact fun entry hentry =>
        ⟨List.all_eq_true.mp htable entry hentry, ih entry hentry (hentries entry hentry)⟩

end Node

namespace Toml

/-- No table with plain keys stands for a date. -/
theorem withDates?_of_hasPlainKeys {tree : Node} (hplain : tree.HasPlainKeys) :
    withDates? tree = some tree := by
  induction tree using Node.induct with
  | scalar node hscalar => cases node <;> first | rfl | contradiction
  | list items ih =>
      have hitems := (Node.everywhere_list.mp hplain).2
      rw [withDates?, itemsWithDates?_eq_some fun item hitem => ih item hitem (hitems item hitem)]
      rfl
  | table entries ih =>
      obtain ⟨htable, hentries⟩ := Node.everywhere_table.mp hplain
      refine withDates?_table (fun entry hentry hkey => ?_)
        fun entry hentry => ih entry hentry (hentries entry hentry)
      have hplain : Settings.isPlain dateKey = true :=
        hkey ▸ List.all_eq_true.mp htable entry hentry
      revert hplain
      decide

theorem exists_entries_of_parse? {text : String} {tree : Node} (hparse : parse? text = some tree) :
    ∃ entries, tree = .table entries := by
  obtain ⟨statements, -, htree⟩ := Option.bind_eq_some_iff.mp hparse
  obtain ⟨draft, -, rfl⟩ := Option.map_eq_some_iff.mp htree
  exact ⟨_, rfl⟩

end Toml

namespace Settings

variable {readers : Readers}

/-- A proper document says the same as settings, with texts for its dates. -/
theorem alike_normal {tree : Node} (hproper : Toml.Proper tree) :
    tree.Alike Node.SameOrText (normal tree) := by
  induction tree using Node.induct with
  | scalar node hscalar =>
      rw [Toml.Proper, Node.everywhere_of_isScalar hscalar] at hproper
      cases node with
      | int i =>
          have hsigned : Numeral.isSigned64 i = true := hproper
          simp only [Numeral.isSigned64, Bool.and_eq_true, decide_eq_true_eq] at hsigned
          rw [normal, if_pos hsigned.2]
          exact .scalar rfl rfl (.inl rfl)
      | date s => exact .scalar rfl rfl (.inr ⟨s, rfl, rfl⟩)
      | list | table => contradiction
      | _ => exact .scalar rfl rfl (.inl rfl)
  | list items ih =>
      have hitems := (Node.everywhere_list.mp hproper).2
      rw [normal, normalItems_eq_map]
      refine .list (List.length_map _).symm fun i node other hnode hother => ?_
      rw [List.getElem?_map, hnode] at hother
      obtain rfl := Option.some.inj hother
      have hmem := List.mem_of_getElem? hnode
      exact ih node hmem (hitems node hmem)
  | table entries ih =>
      obtain ⟨htable, hentries⟩ := Node.everywhere_table.mp hproper
      have hnodup : (entries.map Prod.fst).Nodup := of_decide_eq_true htable
      rw [normal, normalEntries_eq_map (by simpa using hnodup), List.nil_append]
      refine .table hnodup ?_ (fun key => ?_) fun key node other hnode hother => ?_
      · rw [List.map_map]
        exact hnodup
      · rw [Node.find?_map, Option.isSome_map]
      · rw [Node.find?_map, hnode] at hother
        obtain rfl := Option.some.inj hother
        have hmem := Node.mem_of_find? hnode
        exact ih _ hmem (hentries _ hmem)

/-- Where no variable changes settings, plain keys leave the settings of a document as they are. -/
theorem settings_of_document {sources : Sources readers} {path text : String} {tree : Node}
    (hnone : ∀ entry ∈ sources.environment, keyOfName? entry.1 = none)
    (hfile : (expand sources.environment path).toOption.bind
      (findFile? readers.order sources.read?) = some (text, .toml))
    (htree : Toml.parse? text = some tree) (hplain : tree.HasPlainKeys) :
    settings sources (some path) = .ok (normal tree) := by
  obtain ⟨entries, rfl⟩ := Toml.exists_entries_of_parse? htree
  have hentries : fileEntries? sources (some path) = some entries := by
    rw [fileEntries?, ← Option.bind_assoc, hfile, Option.bind_some]
    simp only [parseFile?, htree, Option.bind_some, Toml.withDates?_of_hasPlainKeys hplain]
    rfl
  have hsettled := isSettled_normal hplain.isPlain
  have hput : putFile entries (.table []) = normal (.table entries) :=
    putEntries_of_isSettled hsettled
  apply eq_ok_of_toOption
  rw [settings_toOption, hentries, Option.map_some, joined, hput, putEnvironment_of_unnamed hnone]
  exact congrArg some (putEntries_of_isSettled hsettled)

/-- A file that is read strictly is loaded as what is read, if that is valid, and otherwise refused
for its first violation. -/
theorem load_of_strict_reading {sources : Sources readers} {path text : String} {tree : Node}
    (hnone : ∀ entry ∈ sources.environment, keyOfName? entry.1 = none)
    (hfile : (expand sources.environment path).toOption.bind
      (findFile? readers.order sources.read?) = some (text, .toml))
    (htree : Toml.parse? text = some tree) (hplain : tree.HasPlainKeys)
    (hdateless : Registry.shape.isDateless tree = true) {r : Registry}
    (hread : Registry.parse? text .toml = some r) :
    (load sources (some path)).result =
      match r.violation? with
      | none => .ok r
      | some violation => .error (.invalid violation) := by
  have hstrict : Registry.codec.read? .toml tree = some r := by
    rwa [Registry.parse?, htree, Option.bind_some] at hread
  have hsettings : Registry.codec.read? .settings (normal tree) = some r :=
    Registry.codec_carries
      { strict := by decide
        alike := alike_normal (Toml.parse?_proper htree)
        dateless := fun _ => hdateless
        fits := by simp } r hstrict
  rw [load_result_of_settings (settings_of_document hnone hfile htree hplain)]
  cases hviolation : r.violation? with
  | none => exact registryOf_eq_ok_iff.mpr ⟨hsettings, hviolation⟩
  | some violation => exact registryOf_eq_invalid hsettings hviolation

/-- One file and no variables. -/
def fileAlone (text : String) : Sources where
  read? path := if path = "c.toml" then some text else none
  environment := []

theorem file_fileAlone (text : String) :
    (expand (fileAlone text).environment "c.toml").toOption.bind
      (findFile? Readers.builtIn.order (fileAlone text).read?) = some (text, .toml) := by
  have hexpand : (expand (fileAlone text).environment "c.toml").toOption = some "c.toml" := by
    change (expand [] "c.toml").toOption = some "c.toml"
    decide +kernel
  have hread : (fileAlone text).read? "c.toml" = some text := by simp [fileAlone]
  have hformat : formatOfPath? "c.toml" = some .toml := by decide +kernel
  rw [hexpand, Option.bind_some, findFile?, hread, hformat]
  rfl

/-- A date in the place of a section is read as the reference section and is not loaded. -/
theorem date_for_section_is_not_loaded :
    (∃ tree ∈ Toml.parse? "ports = 1979-05-27\n", tree.HasPlainKeys) ∧
      (fileAlone "ports = 1979-05-27\n").environment = [] ∧
      Registry.parse? "ports = 1979-05-27\n" .toml = some .reference ∧
      Registry.reference.violation? = none ∧
      (load (fileAlone "ports = 1979-05-27\n") (some "c.toml")).result =
        .error .unreadableSettings := by
  obtain ⟨tree, htree, hplain, hread⟩ : ∃ tree ∈ Toml.parse? "ports = 1979-05-27\n",
      tree.HasPlainKeys ∧ Registry.codec.read? .settings (normal tree) = none := by
    decide +kernel
  refine ⟨⟨tree, htree, hplain⟩, rfl, by decide +kernel, by decide +kernel, ?_⟩
  have hsettings := settings_of_document (by simp [fileAlone]) (file_fileAlone _) htree hplain
  rw [load_result_of_settings hsettings, registryOf, hread]

/-- Lists for records, one of them too long, whole numbers for fractions and parts of tables. -/
def mixedText : String :=
  "jurisdictions = [\"EU\", \"UK\"]\nproposals = [[1, 1, 7], \x7bquorum = 0.25\x7d]\n\n"
    ++ "[network]\nblock_time_ms = 4000\ngas_price = [7]\n\n[other]\nwhen = 1979-05-27\n"

theorem mixedText_is_loaded :
    (∃ r : Registry, Registry.parse? mixedText .toml = some r ∧
      r.blocks.gasPrice.usual = 7 ∧
      (load (fileAlone mixedText) (some "c.toml")).result = .ok r) ∧
    (load (fileAlone "proposals = [[nan]]") (some "c.toml")).result =
      .error (.invalid (.improperFraction .parameterChange .quorum .nan)) := by
  constructor
  · obtain ⟨tree, htree, hplain, hdateless⟩ : ∃ tree ∈ Toml.parse? mixedText,
        tree.HasPlainKeys ∧ Registry.shape.isDateless tree = true := by
      decide +kernel
    obtain ⟨r, hread, hprice, hvalid⟩ : ∃ r ∈ Registry.parse? mixedText .toml,
        r.blocks.gasPrice.usual = 7 ∧ r.violation? = none := by
      decide +kernel
    have hload := load_of_strict_reading (by simp [fileAlone]) (file_fileAlone mixedText) htree
      hplain hdateless hread
    rw [hvalid] at hload
    exact ⟨r, hread, hprice, hload⟩
  · obtain ⟨tree, htree, hplain, hdateless⟩ : ∃ tree ∈ Toml.parse? "proposals = [[nan]]",
        tree.HasPlainKeys ∧ Registry.shape.isDateless tree = true := by
      decide +kernel
    obtain ⟨r, hread, hviolation⟩ : ∃ r ∈ Registry.parse? "proposals = [[nan]]" .toml,
        r.violation? = some (.improperFraction .parameterChange .quorum .nan) := by
      decide +kernel
    have hload := load_of_strict_reading (by simp [fileAlone]) (file_fileAlone _) htree
      hplain hdateless hread
    rwa [hviolation] at hload

end Settings

end ChainRegistry
