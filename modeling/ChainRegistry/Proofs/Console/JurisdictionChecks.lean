import ChainRegistry.Proofs.Console.Runs
import ChainRegistry.Proofs.Settings.JurisdictionLists

/-!
# Judging tags on the command line

Tags are judged one after the other.  Each adds its line to what was printed, and the answer stays
positive as long as all were listed.  So the output is the lines of all tags in their order, however
the judgements fall, and one tag that is not listed decides the exit code.  The list that is looked
at is the one that was loaded.
-/

namespace ChainRegistry.Console

open Registry (listName)
open Settings

variable {readers : Readers}

/-! ## The judgement of a list of tags -/

/-- A line for each tag, which tells whether it is listed. -/
def verdicts (listed tags : List String) : String :=
  String.join (tags.map fun tag =>
    tag ++ ": " ++ (if tag ∈ listed then "valid" else "invalid") ++ "\n")

theorem verdicts_append (listed tags others : List String) :
    verdicts listed (tags ++ others) = verdicts listed tags ++ verdicts listed others := by
  rw [verdicts, List.map_append, String.join_append, verdicts, verdicts]

/-- One more tag adds its line, and the answer stays positive only if the tag is listed. -/
theorem Answer.judge_eq (jurisdictions : Jurisdictions) (answer : Answer) (tag : String) :
    answer.judge jurisdictions tag =
      ⟨answer.output ++ verdicts jurisdictions.tags [tag],
        answer.isPositive && decide (tag ∈ jurisdictions.tags)⟩ := by
  have hsupports : jurisdictions.supports tag = decide (tag ∈ jurisdictions.tags) :=
    List.contains_eq_mem tag jurisdictions.tags
  simp [judge, hsupports, judgementLine, judgement, verdicts, String.append_assoc]

theorem Answer.foldl_judge (jurisdictions : Jurisdictions) (answer : Answer) (tags : List String) :
    tags.foldl (Answer.judge jurisdictions) answer =
      ⟨answer.output ++ verdicts jurisdictions.tags tags,
        answer.isPositive && decide (∀ tag ∈ tags, tag ∈ jurisdictions.tags)⟩ := by
  induction tags generalizing answer with
  | nil => simp [verdicts]
  | cons tag tags ih =>
      rw [List.foldl_cons, ih, judge_eq]
      simp [verdicts, String.append_assoc, Bool.and_assoc]

theorem runInvocation_checkJurisdiction {sources : Sources readers} {invocation : Invocation}
    {tags : List String} (hcommand : invocation.command = .checkJurisdiction tags) {r : Registry}
    (hload : (load sources invocation.settingsFile).result = .ok r) :
    runInvocation sources invocation =
      ⟨if ∀ tag ∈ tags, tag ∈ r.jurisdictions.tags then 0 else 1,
        verdicts r.jurisdictions.tags tags, none⟩ := by
  rw [runInvocation_of_load hload, hcommand, answer, Answer.foldl_judge]
  simp

/-! ## Tags in the arguments -/

/-- The option that names a settings file, in one argument. -/
def settingsFileOption (path? : Option String) : List String :=
  path?.toList.map fun path => "--config=" ++ path

theorem readFrom_settingsFileOption (path? : Option String) (rest : List String) :
    readFrom .empty (settingsFileOption path? ++ rest) =
      readFrom { Draft.empty with settingsFile := path? } rest := by
  cases path? with
  | none => rfl
  | some path =>
      have hchars : ("--config=" ++ path).toList =
          '-' :: '-' :: ("config".toList ++ '=' :: path.toList) := by
        rw [String.toList_append]
        rfl
      exact readFrom_readsSettings _ _ rest _ _ (ofText_joined hchars (by simp) rfl)

theorem foldlM_addOperand? (draft : Draft) (tags : List String) :
    tags.foldlM (fun draft tag => Draft.addOperand? draft .checkJurisdiction tag) draft =
      some { draft with operands := draft.operands ++ tags } := by
  induction tags generalizing draft with
  | nil => simp
  | cons tag tags ih =>
      have hadd : draft.addOperand? .checkJurisdiction tag =
          some { draft with operands := draft.operands ++ [tag] } := rfl
      rw [List.foldlM_cons, hadd]
      exact (ih _).trans (by rw [List.append_assoc, List.singleton_append])

theorem readCommand_operands (before : Draft) (tags : List String) :
    readCommand before .checkJurisdiction .empty ("--" :: tags) =
      finish before .checkJurisdiction { Draft.empty with operands := tags } := by
  have hend : Token.ofText (some .checkJurisdiction) "--" = .endOfOptions := rfl
  simp only [readCommand, hend]
  rw [foldlM_addOperand?]
  rfl

/-- Any tags can be given behind the end of the options. -/
theorem read_checkJurisdiction (path? : Option String) {tags : List String} (htags : tags ≠ []) :
    read (settingsFileOption path? ++ "check-jurisdiction" :: "--" :: tags) =
      .run ⟨path?, none, .checkJurisdiction tags⟩ := by
  have hcommand : Token.ofText none "check-jurisdiction" = .operand := rfl
  have hname : CommandName.ofText? "check-jurisdiction" = some .checkJurisdiction := rfl
  have hhelp : "check-jurisdiction" ≠ "help" := by decide
  obtain ⟨tag, tags, rfl⟩ := List.exists_cons_of_ne_nil htags
  rw [read, readFrom_settingsFileOption]
  simp only [readFrom, hcommand, if_neg hhelp, hname, readCommand_operands]
  rfl

/-! ## Reports -/

/-- Where a registry is loaded, any tags can be given on the command line.  The output has a line
for each of them in their order, and the exit code is zero exactly if all are listed; so a tag that
is not listed neither ends the output nor is made good by others.  The list is the one that stands
in the joined layers: a list that is the last to be said there, if nothing is said behind its name,
and the reference list if nothing is said at all. -/
theorem checkJurisdiction_reports {sources : Sources readers} {path? : Option String} {r : Registry}
    (hload : (load sources path?).result = .ok r) {tags : List String} (htags : tags ≠ []) :
    read (settingsFileOption path? ++ "check-jurisdiction" :: "--" :: tags) =
        .run ⟨path?, none, .checkJurisdiction tags⟩ ∧
    (∀ arguments level?, read arguments = .run ⟨path?, level?, .checkJurisdiction tags⟩ →
      run sources arguments =
          ⟨if ∀ tag ∈ tags, tag ∈ r.jurisdictions.tags then 0 else 1,
            verdicts r.jurisdictions.tags tags, none⟩ ∧
        ∀ before tag behind, tags = before ++ tag :: behind → tag ∉ r.jurisdictions.tags →
          run sources arguments =
            ⟨1, verdicts r.jurisdictions.tags before ++ (tag ++ ": invalid\n")
              ++ verdicts r.jurisdictions.tags behind, none⟩) ∧
    ∃ entries, fileEntries? sources path? = some entries ∧
      listedTags? sources.environment entries = some r.jurisdictions.tags ∧
      (∀ items, EndsWithList listName (saidEntries sources.environment entries) items →
        items.mapM (Scalar.text? .settings) = some r.jurisdictions.tags) ∧
      (saidAt listName (saidEntries sources.environment entries) = [] →
        r.jurisdictions.tags = Jurisdictions.reference.tags) := by
  refine ⟨read_checkJurisdiction path? htags, fun arguments level? hread => ?_, ?_⟩
  · have hrun : run sources arguments =
        ⟨if ∀ tag ∈ tags, tag ∈ r.jurisdictions.tags then 0 else 1,
          verdicts r.jurisdictions.tags tags, none⟩ := by
      rw [run, hread]
      exact runInvocation_checkJurisdiction rfl hload
    refine ⟨hrun, ?_⟩
    rintro before tag behind rfl hunlisted
    have hsome : ¬ ∀ other ∈ before ++ tag :: behind, other ∈ r.jurisdictions.tags :=
      fun hall => hunlisted (hall tag (by simp))
    have hline : verdicts r.jurisdictions.tags [tag] = tag ++ ": invalid\n" := by
      simp [verdicts, hunlisted, String.append_assoc]
    rw [hrun, if_neg hsome, List.append_cons, verdicts_append, verdicts_append, hline]
  · obtain ⟨entries, hfile, hlisted⟩ := tags_of_load hload
    refine ⟨entries, hfile, hlisted, fun items hlist => ?_, fun hsilent => ?_⟩
    · rw [← listedTags?_of_list hlist, hlisted]
    · exact Option.some.inj (hlisted.symm.trans (listedTags?_of_silent hsilent))

/-- A file with a list of its own, and variables that do not lead there. -/
def listSources : Sources where
  read? path := if path = "c.toml" then some "jurisdictions = [\"EU\", \"MARS\"]\n" else none
  environment := [("HOME", "/root"), ("ALN__PORTS__METRICS", "9191")]

/-- The tags of the file are valid and others are not, also if the reference list has them. -/
theorem file_list_decides :
    run listSources ["-c", "c.toml", "check-jurisdiction", "PLUTO", "MARS", "UK", "MARS"] =
        ⟨1, "PLUTO: invalid\nMARS: valid\nUK: invalid\nMARS: valid\n", none⟩ ∧
      run listSources ["check-jurisdiction", "EU", "--config=c.toml", "--", "MARS"] =
        ⟨0, "EU: valid\nMARS: valid\n", none⟩ ∧
      run yamlSources ["-c", "c.yaml", "check-jurisdiction", "UK", "MARS"] =
        ⟨1, "UK: invalid\nMARS: valid\n", none⟩ ∧
      [Node.text "EU", .text "MARS"].mapM (Scalar.text? .settings) = some ["EU", "MARS"] ∧
      "UK" ∈ Jurisdictions.reference.tags := by
  let r : Registry :=
    { Registry.reference with
      jurisdictions := ⟨["EU", "MARS"]⟩
      endpoints := { Endpoints.reference with metrics := 9191 } }
  let entries : List (String × Node) := [("jurisdictions", .list [.text "EU", .text "MARS"])]
  have hload : (load listSources (some "c.toml")).result = .ok r :=
    eq_ok_of_toOption (by decide +kernel)
  have hfile : fileEntries? listSources (some "c.toml") = some entries := by cbv
  have hfromFile : saidAt listName (normalEntries [] entries) = entries :=
    List.filter_eq_self.mpr (by decide +kernel)
  have hfromVariables : saidAt listName (variableEntries listSources.environment) = [] :=
    List.filter_eq_nil_iff.mpr (by decide +kernel)
  have hsaid : saidAt listName (saidEntries listSources.environment entries) = entries := by
    rw [saidAt, saidEntries, List.filter_append]
    exact congrArg₂ (· ++ ·) hfromFile hfromVariables
  have hlist : EndsWithList listName (saidEntries listSources.environment entries)
      [.text "EU", .text "MARS"] := by
    constructor <;> rw [hsaid]
    · decide
    · rfl
  obtain ⟨-, hmixed, entries', hfile', -, hlisted, -⟩ := checkJurisdiction_reports hload
    (show ["PLUTO", "MARS", "UK", "MARS"] ≠ [] by decide)
  obtain ⟨-, hlater, -⟩ := checkJurisdiction_reports hload (show ["EU", "MARS"] ≠ [] by decide)
  obtain rfl : entries = entries' := Option.some.inj (hfile.symm.trans hfile')
  obtain ⟨-, hforeign, -⟩ := checkJurisdiction_reports load_yamlSources.2
    (show ["UK", "MARS"] ≠ [] by decide)
  refine ⟨?_, ?_, ?_, hlisted _ hlist, by decide⟩
  · exact (hmixed _ none (by decide +kernel)).1
  · exact (hlater _ none (by decide +kernel)).1
  · exact (hforeign _ none (by decide +kernel)).1

/-- A file with a list of its own, and a variable that puts another tag into it. -/
def indexSources : Sources where
  read? path := if path = "c.toml" then some "jurisdictions = [\"EU\"]\n" else none
  environment := [("ALN__JURISDICTIONS[0]", "XX")]

/-- A tag of the file is not valid if a variable has taken its place in the list. -/
theorem variable_replaces_listed_tag :
    fileEntries? indexSources (some "c.toml") = some [("jurisdictions", .list [.text "EU"])] ∧
      [Node.text "EU"].mapM (Scalar.text? .settings) = some ["EU"] ∧
      (load indexSources (some "c.toml")).result =
        .ok { Registry.reference with jurisdictions := ⟨["XX"]⟩ } ∧
      run indexSources ["-c", "c.toml", "check-jurisdiction", "EU"] =
        ⟨1, "EU: invalid\n", none⟩ := by
  have hfile : fileEntries? indexSources (some "c.toml") =
      some [("jurisdictions", .list [.text "EU"])] := by
    cbv
  let r : Registry := { Registry.reference with jurisdictions := ⟨["XX"]⟩ }
  let invocation : Invocation := ⟨some "c.toml", none, .checkJurisdiction ["EU"]⟩
  have hload : (load indexSources invocation.settingsFile).result = .ok r :=
    eq_ok_of_toOption (by decide +kernel)
  have hread : read ["-c", "c.toml", "check-jurisdiction", "EU"] = .run invocation := by
    decide +kernel
  have hcommand : invocation.command = .checkJurisdiction ["EU"] := rfl
  refine ⟨hfile, rfl, hload, ?_⟩
  rw [run, hread]
  exact runInvocation_checkJurisdiction hcommand hload

end ChainRegistry.Console
