import ChainRegistry.Proofs.Settings.Layering

/-!
# Policy versions from the environment

The text of a variable is read as a truth value or a number wherever it can be, before anything
knows what it is for, and a field that wants a text has the value written again.  A version that
looks like a number therefore comes back in the plain form of the number, and every other one as it
was given.  Policies take no part in validation, so the load itself always succeeds.
-/

namespace ChainRegistry

/-- The version of one regime replaced. -/
def PinnedPolicies.withVersion (versions : PinnedPolicies) (version : String) :
    RegulatoryRegime → PinnedPolicies
  | .jfmip => { versions with jfmip := version }
  | .gdpr => { versions with gdpr := version }
  | .mica => { versions with mica := version }
  | .fatf => { versions with fatf := version }

theorem PinnedPolicies.version_withVersion (versions : PinnedPolicies) (version : String)
    (regime : RegulatoryRegime) :
    (versions.withVersion version regime).version regime = version := by
  cases regime <;> rfl

theorem Registry.violation?_of_policies (r : Registry) (policies : PinnedPolicies) :
    ({ r with policies := policies } : Registry).violation? = r.violation? :=
  rfl

namespace Settings

open Registry (fieldPaths)

variable {readers : Readers}

/-! ## Texts that are guessed at -/

def isTruthWord (text : String) : Bool :=
  Text.fold text == "true" || Text.fold text == "false"

/-- The signed number of sixty-four bits that a text is taken for. -/
def integerOf? (text : String) : Option Int :=
  (Numeral.intOfText? text.toList).filter Numeral.isSigned64

/-- What a text becomes when it is taken for a truth value or a number and written again. -/
def rewritten (text : String) : String :=
  if isTruthWord text then Text.fold text
  else
    match integerOf? text with
    | some i => String.ofList (Numeral.ofInt i)
    | none =>
      match Binary64.ofText? text.toList with
      | some x => String.ofList (FloatForm.plain.write x)
      | none => text

theorem text?_valueOfText (text : String) :
    Scalar.text? .settings (valueOfText text) = some (rewritten text) := by
  unfold valueOfText rewritten isTruthWord integerOf?
  extract_lets word
  by_cases htrue : word = "true"
  · rw [if_pos htrue, if_pos (by simp [word, htrue])]
    exact congrArg some htrue.symm
  · by_cases hfalse : word = "false"
    · rw [if_neg htrue, if_pos hfalse, if_pos (by simp [word, hfalse])]
      exact congrArg some hfalse.symm
    · rw [if_neg htrue, if_neg hfalse, if_neg (by simp [word, htrue, hfalse])]
      cases (Numeral.intOfText? text.toList).filter Numeral.isSigned64 with
      | some i => rfl
      | none => cases Binary64.ofText? text.toList <;> rfl

/-- If the text is taken for a truth value or a number, it is how that is written. -/
structure IsVerbatim (text : String) : Prop where
  word : isTruthWord text = true → Text.fold text = text
  integer : isTruthWord text = false →
    ∀ i, integerOf? text = some i → String.ofList (Numeral.ofInt i) = text
  float : isTruthWord text = false → integerOf? text = none →
    ∀ x, Binary64.ofText? text.toList = some x → String.ofList (FloatForm.plain.write x) = text

theorem rewritten_eq_self_iff (text : String) : rewritten text = text ↔ IsVerbatim text := by
  unfold rewritten
  cases hword : isTruthWord text with
  | true =>
      rw [if_pos rfl]
      exact ⟨fun h => ⟨fun _ => h, by simp [hword], by simp [hword]⟩, fun h => h.word hword⟩
  | false =>
      rw [if_neg Bool.false_ne_true]
      cases hinteger : integerOf? text with
      | some i =>
          refine ⟨fun h => ⟨by simp [hword], ?_, by simp [hinteger]⟩,
            fun h => h.integer hword i hinteger⟩
          intro _ j hj
          obtain rfl := Option.some.inj (hinteger.symm.trans hj)
          exact h
      | none =>
          cases hfloat : Binary64.ofText? text.toList with
          | some x =>
              refine ⟨fun h => ⟨by simp [hword], by simp [hinteger], ?_⟩,
                fun h => h.float hword hinteger x hfloat⟩
              intro _ _ y hy
              obtain rfl := Option.some.inj (hfloat.symm.trans hy)
              exact h
          | none =>
              exact ⟨fun _ => ⟨by simp [hword], by simp [hinteger], by simp [hfloat]⟩,
                fun _ => rfl⟩

example : ["24.10", "007", "TRUE", "1e3", "+5", "24-01", "2016/679"].map rewritten =
    ["24.1", "7", "true", "1000", "5", "24-01", "2016/679"] := by
  decide +kernel

/-! ## One variable -/

/-- Variables that change no settings might as well not be there. -/
theorem putEnvironment_overrides (environment : Environment) (node : Node) :
    putEnvironment (overrides environment) node = putEnvironment environment node := by
  induction environment generalizing node with
  | nil => rfl
  | cons entry environment ih =>
      rw [putEnvironment_cons, overrides]
      cases hkey : keyOfName? entry.1 with
      | none =>
          rw [List.filter_cons_of_neg (by simp [hkey]), putVariable_of_unnamed hkey]
          exact ih node
      | some key =>
          rw [List.filter_cons_of_pos (by simp [hkey]), putEnvironment_cons]
          exact ih (putVariable node entry)

/-- A single variable is put in its place. -/
theorem settings_of_variable {sources : Sources readers} {path : List String} {name text : String}
    (hpath : path ∈ Registry.fieldPaths) (hname : pathOfName? name = some path)
    (honly : overrides sources.environment = [(name, text)]) :
    settings sources none = .ok (setAt (valueOfText text) path (.table [])) := by
  have hput : putEnvironment sources.environment (.table []) =
      setAt (valueOfText text) path (.table []) := by
    have hentry : pathOfName? (name, text).1 = some path := hname
    rw [← putEnvironment_overrides, honly, putEnvironment_cons, putVariable_of_named hentry hpath,
      putEnvironment, List.foldl_nil]
  have hvalue : IsSettled (valueOfText text) := .value (valueOfText_ne_table text)
  have hempty : IsSettled (.table []) := .table List.nodup_nil (by simp) (by simp)
  have hsettled := hvalue.setAt hempty (Registry.isPlain_of_mem_fieldPaths path hpath).2
  have hnothing : putFile [] (.table []) = .table [] := rfl
  apply eq_ok_of_toOption
  rw [settings_toOption, fileEntries?, Option.map_some, joined, hnothing, hput]
  cases path with
  | nil => exact absurd rfl (Registry.isPlain_of_mem_fieldPaths [] hpath).1
  | cons key path => exact congrArg some (putEntries_of_isSettled hsettled)

/-- The key of a regime's version in the section of the policies. -/
def versionKey : RegulatoryRegime → String
  | .jfmip => "jfmip"
  | .gdpr => "gdpr"
  | .mica => "mica"
  | .fatf => "fatf"

def versionPath (regime : RegulatoryRegime) : List String :=
  ["policy_versions", versionKey regime]

theorem versionPath_mem_fieldPaths : ∀ regime, versionPath regime ∈ fieldPaths
  | .jfmip => by decide +kernel
  | .gdpr => by decide +kernel
  | .mica => by decide +kernel
  | .fatf => by decide +kernel

/-- Settings that hold one version, as a variable gives it. -/
def versionSettings (regime : RegulatoryRegime) (text : String) : Node :=
  .table [("policy_versions", .table [(versionKey regime, valueOfText text)])]

theorem pathOfName?_of_version {regime : RegulatoryRegime} {name : String}
    (hname : Text.fold name = Text.fold ("ALN__POLICY_VERSIONS__" ++ Category.key regime)) :
    pathOfName? name = some (versionPath regime) := by
  apply pathOfName?_eq_some (versionPath_mem_fieldPaths regime)
  rw [hname]
  cases regime <;> decide +kernel

theorem settings_of_version {sources : Sources readers} {regime : RegulatoryRegime}
    {name text : String} (hname : pathOfName? name = some (versionPath regime))
    (honly : overrides sources.environment = [(name, text)]) :
    settings sources none = .ok (versionSettings regime text) := by
  rw [settings_of_variable (versionPath_mem_fieldPaths regime) hname honly]
  simp only [versionPath, setAt, entriesOf, alter, Option.getD_none, versionSettings]

theorem read?_versionSettings (regime : RegulatoryRegime) (text : String) :
    Registry.codec.read? .settings (versionSettings regime text) =
      some { Registry.reference with
        policies := PinnedPolicies.reference.withVersion (rewritten text) regime } := by
  have htext := text?_valueOfText text
  have hpolicies : PinnedPolicies.codec.read? .settings
      (.table [(versionKey regime, valueOfText text)]) =
        some (PinnedPolicies.reference.withVersion (rewritten text) regime) := by
    cases regime <;>
      simp [PinnedPolicies.codec, Codec.record, Record.readOver?, PinnedPolicies.fields,
        Record.readEntries?, versionKey, Field.of, Codec.text, htext, PinnedPolicies.withVersion]
  simp [Registry.codec, Record.readOver?, versionSettings, Registry.openSections,
    Record.readEntries?, Registry.auditField, Registry.blocksField, Registry.votingField,
    Registry.passingField, Registry.chatField, Registry.jurisdictionsField,
    Registry.throughputField, Registry.policiesField, Registry.endpointsField,
    Registry.quotasField, Field.of, hpolicies]

/-- A version that a variable gives is what its text becomes when it is guessed at and written
again, and so it is the text itself exactly if that is verbatim.  Nothing else changes. -/
theorem policy_version_of_variable {sources : Sources readers} {regime : RegulatoryRegime}
    {name text : String}
    (hname : Text.fold name = Text.fold ("ALN__POLICY_VERSIONS__" ++ Category.key regime))
    (honly : overrides sources.environment = [(name, text)]) :
    ∃ r, (load sources none).result = .ok r ∧
      r = { Registry.reference with
        policies := PinnedPolicies.reference.withVersion (rewritten text) regime } ∧
      r.policies.version regime = rewritten text ∧
      (r.policies.version regime = text ↔ IsVerbatim text) := by
  have hsettings := settings_of_version (pathOfName?_of_version hname) honly
  refine ⟨_, ?_, rfl, ?_, ?_⟩
  · rw [load_result_of_settings hsettings, registryOf_eq_ok_iff, Registry.violation?_of_policies]
    exact ⟨read?_versionSettings regime text, by decide +kernel⟩
  · exact PinnedPolicies.version_withVersion _ _ regime
  · rw [PinnedPolicies.version_withVersion]
    exact rewritten_eq_self_iff text

/-- One variable for the version of one regime, beside one that changes nothing. -/
def versionSources (text : String) : Sources where
  read? _ := none
  environment := [("HOME", "/root"), ("ALN__POLICY_VERSIONS__JFMIP", text)]

/-- A version with a final zero loses it. -/
theorem final_zero_is_lost :
    overrides (versionSources "24.10").environment = [("ALN__POLICY_VERSIONS__JFMIP", "24.10")] ∧
      (∃ r, (load (versionSources "24.10") none).result = .ok r ∧
        r.policies.version .jfmip = "24.1") ∧
      "24.1" ≠ "24.10" := by
  let r : Registry := { Registry.reference with
    policies := { PinnedPolicies.reference with jfmip := "24.1" } }
  have hload : (load (versionSources "24.10") none).result = .ok r :=
    eq_ok_of_toOption (by decide +kernel)
  exact ⟨by decide +kernel, ⟨r, hload, rfl⟩, by decide⟩

/-- A version that does not look like a number is kept, and one that does is put in plain form. -/
theorem versions_kept_and_rewritten :
    (∃ r, (load (versionSources "24.10-rc1") none).result = .ok r ∧
      r.policies.version .jfmip = "24.10-rc1") ∧
    ∃ r, (load (versionSources "007") none).result = .ok r ∧
      r.policies.version .jfmip = "7" ∧ ¬IsVerbatim "007" := by
  have hname : Text.fold "ALN__POLICY_VERSIONS__JFMIP" =
      Text.fold ("ALN__POLICY_VERSIONS__" ++ Category.key RegulatoryRegime.jfmip) := by
    decide +kernel
  constructor
  · have honly : overrides (versionSources "24.10-rc1").environment =
        [("ALN__POLICY_VERSIONS__JFMIP", "24.10-rc1")] := by
      decide +kernel
    obtain ⟨r, hload, -, hversion, -⟩ := policy_version_of_variable hname honly
    have hrewritten : rewritten "24.10-rc1" = "24.10-rc1" := by decide +kernel
    exact ⟨r, hload, hversion.trans hrewritten⟩
  · have honly : overrides (versionSources "007").environment =
        [("ALN__POLICY_VERSIONS__JFMIP", "007")] := by
      decide +kernel
    obtain ⟨r, hload, -, hversion, hverbatim⟩ := policy_version_of_variable hname honly
    have hrewritten : rewritten "007" = "7" := by decide +kernel
    refine ⟨r, hload, hversion.trans hrewritten, fun h => ?_⟩
    have hkept := hverbatim.mpr h
    rw [hversion, hrewritten] at hkept
    revert hkept
    decide

end Settings

end ChainRegistry
