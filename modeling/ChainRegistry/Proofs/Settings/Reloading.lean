import ChainRegistry.Console.Run
import ChainRegistry.Proofs.Settings.Layering
import ChainRegistry.Proofs.TomlRoundTrip

/-!
# Loading what was shown

A registry that was loaded can be shown in TOML if none of its numbers of sixty-four bits lies
beyond the signed ones, and otherwise the command fails, although the registry is valid: settings
give larger numbers as floats, and a float is held within the unsigned range.  What is shown is a
settings file again.  Its keys are plain, its values stand for themselves, and it mentions every
leaf, so it loads as the registry wherever no variable changes settings.
-/

namespace ChainRegistry

open Node (forall_mem_entryKeys isName mem_entryValues)

/-! ## Trees that a text was written for -/

namespace Toml

theorem withDates?_scalarText {node : Node} (htext : (scalarText? node).isSome) :
    withDates? node = some node := by
  cases node <;> first | rfl | contradiction

theorem itemsWithDates?_eq_some {items : List Node}
    (hitems : ∀ item ∈ items, withDates? item = some item) :
    itemsWithDates? items = some items := by
  induction items with
  | nil => rfl
  | cons item items ih =>
      rw [List.forall_mem_cons] at hitems
      simp [itemsWithDates?, hitems.1, ih hitems.2]

theorem entriesWithDates?_eq_some {entries : List (String × Node)}
    (hentries : ∀ entry ∈ entries, withDates? entry.2 = some entry.2) :
    entriesWithDates? entries = some entries := by
  induction entries with
  | nil => rfl
  | cons entry entries ih =>
      rw [List.forall_mem_cons] at hentries
      simp [entriesWithDates?, hentries.1, ih hentries.2]

theorem withDates?_table {entries : List (String × Node)}
    (hkeys : ∀ entry ∈ entries, entry.1 ≠ dateKey)
    (hentries : ∀ entry ∈ entries, withDates? entry.2 = some entry.2) :
    withDates? (.table entries) = some (.table entries) := by
  cases entries with
  | nil => rfl
  | cons entry entries =>
      rw [List.forall_mem_cons] at hkeys hentries
      simp [withDates?, hkeys.1, hentries.1, entriesWithDates?_eq_some hentries.2]

theorem withDates?_of_valueText {node : Node} (htext : (valueText? node).isSome) :
    withDates? node = some node := by
  cases node with
  | list items =>
      rw [valueText?, Option.isSome_map, isSome_mapM] at htext
      rw [withDates?, itemsWithDates?_eq_some fun item hitem =>
        withDates?_scalarText (htext item hitem)]
      rfl
  | table => contradiction
  | _ => rfl

/-- No table in a tidy tree stands for a date. -/
theorem withDates?_of_isTidy {node : Node} (htidy : node.IsTidy)
    (htexts : ∀ value ∈ node.values, (valueText? value).isSome) :
    withDates? node = some node := by
  induction htidy with
  | @value node hvalue =>
      apply withDates?_of_valueText
      cases node with
      | table entries => exact absurd rfl (hvalue entries)
      | _ => exact htexts _ (List.mem_singleton_self _)
  | @table entries _ hnames _ ih =>
      have hentries : ∀ entry ∈ entries, withDates? entry.2 = some entry.2 := by
        intro entry hentry
        refine ih entry hentry fun value hvalue => htexts value ?_
        exact mem_entryValues.mpr ⟨entry, hentry, hvalue⟩
      refine withDates?_table (fun entry hentry hkey => ?_) hentries
      have hname : isName dateKey = true := hkey ▸ hnames entry hentry
      revert hname
      decide

end Toml

namespace Settings

open Registry (fieldPaths leaves reference)
open Toml (isTable valueText?)

variable {readers : Readers}

theorem normal_scalarText {node : Node} (htext : (Toml.scalarText? node).isSome) :
    normal node = node := by
  cases node with
  | int i =>
      have hsigned : Numeral.isSigned64 i = true := by
        by_contra hsigned
        simp [Toml.scalarText?, hsigned] at htext
      simp only [Numeral.isSigned64, Bool.and_eq_true, decide_eq_true_eq] at hsigned
      rw [normal, if_pos hsigned.2]
  | _ => first | rfl | contradiction

theorem normalItems_eq_map (items : List Node) : normalItems items = items.map normal := by
  induction items with
  | nil => rfl
  | cons item items ih => rw [normalItems, ih, List.map_cons]

theorem normalEntries_eq_map {entries done : List (String × Node)}
    (hnodup : ((done ++ entries).map Prod.fst).Nodup) :
    normalEntries done entries = done ++ entries.map fun entry => (entry.1, normal entry.2) := by
  induction entries generalizing done with
  | nil => simp [normalEntries]
  | cons entry entries ih =>
      obtain ⟨key, node⟩ := entry
      rw [normalEntries, alter_of_fresh (fresh_of_nodup hnodup), ih (by simpa using hnodup)]
      simp

/-- Values that are written in TOML are settings as they are. -/
theorem normal_of_isTidy {node : Node} (htidy : node.IsTidy)
    (htexts : ∀ value ∈ node.values, (valueText? value).isSome) : normal node = node := by
  induction htidy with
  | @value node hvalue =>
      have htext := fun hself : node.values = [node] => htexts node (by simp [hself])
      cases node with
      | table entries => exact absurd rfl (hvalue entries)
      | list items =>
          have hitems := htext rfl
          rw [valueText?, Option.isSome_map, Toml.isSome_mapM] at hitems
          have hnormal : items.map normal = items.map id := List.map_congr_left fun item hitem =>
            normal_scalarText (hitems item hitem)
          rw [normal, normalItems_eq_map, hnormal, List.map_id]
      | _ => exact normal_scalarText (htext rfl)
  | @table entries hnodup _ _ ih =>
      have hentries : (entries.map fun entry => (entry.1, normal entry.2)) = entries.map id := by
        refine List.map_congr_left fun entry hentry => ?_
        rw [ih entry hentry fun value hvalue =>
          htexts value (mem_entryValues.mpr ⟨entry, hentry, hvalue⟩), id]
      rw [normal, normalEntries_eq_map (by simpa using hnodup), hentries, List.map_id,
        List.nil_append]

theorem isSettled_of_isTidy {node : Node} (htidy : node.IsTidy)
    (hplain : ∀ key ∈ node.keys, isPlain key = true) : IsSettled node := by
  induction htidy with
  | value hvalue => exact .value hvalue
  | @table entries hnodup _ _ ih =>
      rw [Node.keys, forall_mem_entryKeys] at hplain
      exact .table hnodup (fun entry hentry => (hplain entry hentry).1)
        fun entry hentry => ih entry hentry (hplain entry hentry).2

/-! ## What is read from what was shown -/

/-- In settings too, the node that is written for a value is read as the value. -/
theorem read?_node {kind : LeafKind} {value : LeafValue} (htyped : kind.Denotes value.node value) :
    kind.read? .settings value.node = some value := by
  cases value with
  | number n =>
      cases htyped with
      | number hlt => simp [LeafKind.read?, LeafValue.node, Scalar.natural?_ofNat _ hlt]
  | fraction x =>
      cases htyped with
      | fraction => rfl
  | text s =>
      cases htyped with
      | text => rfl
  | texts ss =>
      cases kind with
      | texts => simp [LeafKind.read?, LeafValue.node, Scalar.texts?_texts]
      | _ => cases htyped

theorem isPlain_keys_write (r : Registry) :
    ∀ key ∈ (Registry.codec.write r).keys, isPlain key = true := by
  have hkeys : (Registry.codec.write r).keys = (Registry.codec.write reference).keys := rfl
  rw [hkeys]
  decide +kernel

/-- What was shown is a settings file of one layer, which says what was written. -/
theorem file_of_shown (readers : Readers) {r : Registry} {text : String}
    (hprint : r.print? .toml = some text) :
    ∃ entries, Toml.arrange (Registry.codec.write r) = .table entries ∧
      parseFile? readers (text ++ "\n") .toml = some entries ∧
      IsLayer (.table entries) ∧ normal (.table entries) = .table entries := by
  have htidy := Registry.codec_shows.tidy r
  have htexts : ∀ value ∈ (Registry.codec.write r).values, (valueText? value).isSome :=
    (Toml.isSome_print? _).mp (Option.isSome_of_eq_some hprint)
  have hparse : Toml.parse? (text ++ "\n") = some (Toml.arrange (Registry.codec.write r)) :=
    Toml.parse?_print?_append htidy (Registry.depth_write_le r) hprint Toml.reads_emptyLine
  have hform := Registry.inObjectForm_arrange r
  obtain ⟨entries, hentries⟩ : ∃ entries, Toml.arrange (Registry.codec.write r) = .table entries :=
    ⟨_, Toml.arrange_table _⟩
  have harranged := Toml.isTidy_arrange htidy
  obtain ⟨htexts, hkeys⟩ := Toml.forall_mem_arrange htexts (isPlain_keys_write r)
  rw [hentries] at hparse hform harranged htexts hkeys
  refine ⟨entries, hentries, ?_, ⟨isSettled_of_isTidy harranged hkeys, ?_⟩,
    normal_of_isTidy harranged htexts⟩
  · rw [parseFile?, hparse, Option.bind_some, Toml.withDates?_of_isTidy harranged htexts]
    rfl
  · intro leaf hleaf path hprefix hproper node hat
    have hobject := hform leaf hleaf path hprefix hproper node hat
    cases node with
    | table entries => rfl
    | _ => exact hobject.elim

theorem putEnvironment_of_unnamed {environment : Environment}
    (hnone : ∀ entry ∈ environment, keyOfName? entry.1 = none) (node : Node) :
    putEnvironment environment node = node := by
  induction environment with
  | nil => rfl
  | cons entry environment ih =>
      rw [List.forall_mem_cons] at hnone
      rw [putEnvironment_cons, putVariable_of_unnamed hnone.1, ih hnone.2]

theorem namesFields_of_unnamed {environment : Environment}
    (hnone : ∀ entry ∈ environment, keyOfName? entry.1 = none) : NamesFields environment := by
  constructor
  · intro entry hentry hkey
    rw [hnone entry hentry] at hkey
    contradiction
  · have hassignments : assignments environment = [] := by
      rw [assignments, List.filterMap_eq_nil_iff]
      intro entry hentry
      rw [pathOfName?, hnone entry hentry]
      rfl
    rw [hassignments]
    exact List.nodup_nil

theorem load_of_shown {r : Registry} (hvalid : r.violation? = none)
    (hsealed : r.sealedPart = reference.sealedPart) {text : String}
    (hprint : r.print? .toml = some text) {target : Sources readers} {path : String}
    (hnone : ∀ entry ∈ target.environment, keyOfName? entry.1 = none)
    (hfile : (expand target.environment path).toOption.bind
      (findFile? readers.order target.read?) = some (text ++ "\n", .toml)) :
    (load target (some path)).result = .ok r := by
  obtain ⟨entries, harrange, hparse, hlayer, hnormal⟩ := file_of_shown readers hprint
  have hentries : fileEntries? target (some path) = some entries := by
    rw [fileEntries?, ← Option.bind_assoc, hfile, Option.bind_some]
    exact hparse
  rw [← hnormal] at hlayer
  have hsettings := settings_of_layers hentries hlayer (namesFields_of_unnamed hnone)
  rw [putEnvironment_of_unnamed hnone, hnormal, ← harrange] at hsettings
  rw [load_result_of_settings hsettings, registryOf_eq_ok_iff]
  refine ⟨?_, hvalid⟩
  refine Registry.read?_eq_some_of_outcomes (Registry.inObjectForm_arrange r) ?_ hsealed
  intro leaf hleaf
  rw [Leaf.outcome?_of_not_null (Registry.at?_arrange_leaf hleaf r) (LeafValue.isNull_node _)]
  exact read?_node (Registry.codec_shows.typed r leaf hleaf)

end Settings

namespace Console

open Settings

variable {readers : Readers}

theorem run_show {sources : Sources readers} {path? : Option String} {r : Registry}
    (hload : (load sources path?).result = .ok r) (logLevel? : Option String) (format : Format) :
    runInvocation sources ⟨path?, logLevel?, .show format⟩ =
      match r.print? format with
      | some text => ⟨0, text ++ "\n", none⟩
      | none => ⟨1, "", some .unwritable⟩ := by
  cases hprint : r.print? format <;> simp [runInvocation, hload, answer, hprint]

/-- Showing a loaded registry in TOML succeeds exactly if its numbers of sixty-four bits outside the
sealed sections are at most the largest signed one.  What is shown then loads as the same registry,
from any file with the extension of TOML, wherever no variable changes settings. -/
theorem shown_toml_reloads {sources : Sources readers} {path? : Option String} {r : Registry}
    (hload : (load sources path?).result = .ok r) (logLevel? : Option String) :
    let report := runInvocation sources ⟨path?, logLevel?, .show .toml⟩
    (report.exitCode = 0 ↔ ∀ n ∈ r.words, n ≤ 9223372036854775807) ∧
      (report.exitCode = 0 → ∀ {otherReaders : Readers} (target : Sources otherReaders)
        (path : String), (∀ entry ∈ target.environment, keyOfName? entry.1 = none) →
        (expand target.environment path).toOption.bind
            (findFile? otherReaders.order target.read?) = some (report.output, .toml) →
          (load target (some path)).result = .ok r) := by
  obtain ⟨joined, -, hjoined⟩ := load_result_eq_ok_iff.mp hload
  obtain ⟨hread, hvalid⟩ := registryOf_eq_ok_iff.mp hjoined
  rw [run_show hload, ← Registry.isSome_print?_toml_iff_words]
  cases hprint : r.print? .toml with
  | none => simp
  | some text =>
      refine ⟨by simp, fun _ _ target path hnone hfile => ?_⟩
      exact load_of_shown hvalid (Registry.sealedPart_of_read? hread) hprint hnone hfile

/-- A retention that no signed number holds. -/
def lastingSources : Sources where
  read? _ := none
  environment := [("ALN__AUDIT_RETENTION_MS", "10000000000000000000")]

/-- A valid registry that is loaded and cannot be shown in TOML. -/
theorem lasting_retention_is_not_shown :
    (∃ r, (load lastingSources none).result = .ok r ∧ r.violation? = none ∧
      r.auditRetentionMs = 10000000000000000000) ∧
    (runInvocation lastingSources ⟨none, none, .show .toml⟩).exitCode = 1 := by
  constructor
  · let r : Registry := { Registry.reference with auditRetentionMs := 10000000000000000000 }
    have hload : (load lastingSources none).result = .ok r := eq_ok_of_toOption (by decide +kernel)
    exact ⟨r, hload, by decide +kernel, rfl⟩
  · decide +kernel

/-- A port that is moved by a variable. -/
def movedSources : Sources where
  read? _ := none
  environment := [("ALN__PORTS__METRICS", "9191")]

theorem moved_port_reloads :
    ∃ r, (load movedSources none).result = .ok r ∧ r.endpoints.metrics = 9191 ∧
      (runInvocation movedSources ⟨none, none, .show .toml⟩).exitCode = 0 ∧
      (load ({ read? := fun _ => (runInvocation movedSources ⟨none, none, .show .toml⟩).output
               environment := [] } : Sources) (some "c.toml")).result = .ok r := by
  let r : Registry :=
    { Registry.reference with endpoints := { Endpoints.reference with metrics := 9191 } }
  have hload : (load movedSources none).result = .ok r := eq_ok_of_toOption (by decide +kernel)
  obtain ⟨hshown, hreloads⟩ := shown_toml_reloads hload none
  have hwords : r.words.all (· ≤ 9223372036854775807) = true := by decide
  have hexit : (runInvocation movedSources ⟨none, none, .show .toml⟩).exitCode = 0 :=
    hshown.mpr (by simpa using hwords)
  have hexpand : (expand [] "c.toml").toOption = some "c.toml" := by decide +kernel
  have hformat : formatOfPath? "c.toml" = some .toml := by decide +kernel
  refine ⟨r, hload, rfl, hexit, hreloads hexit _ _ (by simp) ?_⟩
  rw [hexpand, Option.bind_some, findFile?, hformat]
  rfl

end Console

end ChainRegistry
