import ChainRegistry.Proofs.Console.LogLevel
import ChainRegistry.Proofs.Loading

/-!
# What a run reports

A run fails in one place before its command is looked at, when no registry can be loaded, and then
it prints nothing, whatever the command is.  Otherwise the registry that was loaded has the compiled
treasury, so a judgement on an address is the same under all sources that load.
-/

namespace ChainRegistry.Console

open ChainRegistry.Settings

variable {readers : Readers}

theorem runInvocation_of_failure {sources : Sources readers} {invocation : Invocation}
    {e : LoadError} (hload : (load sources invocation.settingsFile).result = .error e) :
    runInvocation sources invocation = ⟨1, "", some (.load e)⟩ := by
  rw [runInvocation, hload]

theorem runInvocation_of_load {sources : Sources readers} {invocation : Invocation} {r : Registry}
    (hload : (load sources invocation.settingsFile).result = .ok r) :
    runInvocation sources invocation =
      match answer r invocation.command with
      | .error e => ⟨1, "", some e⟩
      | .ok answer => ⟨if answer.isPositive then 0 else 1, answer.output, none⟩ := by
  cases hanswer : answer r invocation.command <;> simp only [runInvocation, hload, hanswer]

theorem answer_show (r : Registry) (format : Format) :
    answer r (.show format) =
      match r.print? format with
      | some text => .ok ⟨text ++ "\n", true⟩
      | none => .error .unwritable :=
  rfl

/-- The answer to an address under the compiled treasury. -/
theorem answer_checkAddress {r : Registry} (htreasury : r.treasury = .reference)
    (address : String) :
    answer r (.checkAddress address) =
      if address = "ALN18sd2ujv24ual9c9pshtxys6j8knh6xaek9z83t" then
        .ok ⟨address ++ ": valid\nnote: treasury is reserved and not yet live\n", true⟩
      else .ok ⟨address ++ ": invalid\n", false⟩ := by
  rw [answer, htreasury]
  by_cases haddress : address = "ALN18sd2ujv24ual9c9pshtxys6j8knh6xaek9z83t"
  · have hvalid : Treasury.reference.isAddress address = true := beq_iff_eq.mpr haddress
    have hlive : Treasury.reference.isLive = false := rfl
    simp [haddress ▸ hvalid, hlive, haddress, judgementLine, judgement]
  · have hvalid : Treasury.reference.isAddress address = false := beq_eq_false_iff_ne.mpr haddress
    simp [hvalid, haddress, judgementLine, judgement, String.append_assoc]

theorem treasury_of_load {sources : Sources readers} {path? : Option String} {r : Registry}
    (hload : (load sources path?).result = .ok r) : r.treasury = .reference := by
  obtain ⟨joined, -, hregistry⟩ := load_result_eq_ok_iff.mp hload
  exact Registry.treasury_of_read? (registryOf_eq_ok_iff.mp hregistry).1

theorem runInvocation_checkAddress {sources : Sources readers} {invocation : Invocation}
    {address : String} (hcommand : invocation.command = .checkAddress address) {r : Registry}
    (hload : (load sources invocation.settingsFile).result = .ok r) :
    runInvocation sources invocation =
      if address = "ALN18sd2ujv24ual9c9pshtxys6j8knh6xaek9z83t" then
        ⟨0, address ++ ": valid\nnote: treasury is reserved and not yet live\n", none⟩
      else ⟨1, address ++ ": invalid\n", none⟩ := by
  rw [runInvocation_of_load hload, hcommand, answer_checkAddress (treasury_of_load hload)]
  by_cases haddress : address = "ALN18sd2ujv24ual9c9pshtxys6j8knh6xaek9z83t"
  · simp only [if_pos haddress, if_true]
  · simp only [if_neg haddress, Bool.false_eq_true, if_false]

/-- What a run reports, given what its arguments ask for.  Nothing is printed where nothing can be
loaded.  A judgement on an address depends on the address alone, and a positive one is followed by
the note that the treasury is not live.  Other options for the log level change nothing, and every
text can stand for a level. -/
theorem run_reports (sources : Sources readers) {arguments : List String} {invocation : Invocation}
    (hread : read arguments = .run invocation) :
    (∀ e, (load sources invocation.settingsFile).result = .error e →
      run sources arguments = ⟨1, "", some (.load e)⟩) ∧
    (∀ r, (load sources invocation.settingsFile).result = .ok r →
      (invocation.command = .validate → run sources arguments = ⟨0, "ok\n", none⟩) ∧
      (∀ format, invocation.command = .show format →
        (∀ text, r.print? format = some text →
          run sources arguments = ⟨0, text ++ "\n", none⟩) ∧
        (r.print? format = none → run sources arguments = ⟨1, "", some .unwritable⟩)) ∧
      ∀ address, invocation.command = .checkAddress address →
        (run sources arguments =
          if address = "ALN18sd2ujv24ual9c9pshtxys6j8knh6xaek9z83t" then
            ⟨0, address ++ ": valid\nnote: treasury is reserved and not yet live\n", none⟩
          else ⟨1, address ++ ": invalid\n", none⟩) ∧
        ∀ {otherReaders : Readers} (others : Sources otherReaders) invocation' r',
          invocation'.command = .checkAddress address →
          (load others invocation'.settingsFile).result = .ok r' →
            runInvocation others invocation' = run sources arguments) ∧
    (∀ arguments', SameButLevels arguments arguments' →
      run sources arguments' = run sources arguments) ∧
    ∀ level rest, arguments = ("--log-level=" ++ level) :: rest →
      run sources rest = run sources arguments ∧
        ∀ level', run sources (("--log-level=" ++ level') :: rest) = run sources arguments := by
  have hrun : run sources arguments = runInvocation sources invocation := by
    rw [run, hread]
  have hlevels {arguments' : List String} (harguments : SameButLevels arguments arguments') :
      run sources arguments' = run sources arguments :=
    run_eq_of_sameButLevels sources hread harguments
  refine ⟨fun e hload => ?_, fun r hload => ⟨fun hcommand => ?_, fun format hcommand => ⟨?_, ?_⟩,
    fun address hcommand => ?_⟩, fun _ => hlevels, ?_⟩
  · rw [hrun, runInvocation_of_failure hload]
  · rw [hrun, runInvocation_of_load hload, hcommand]
    rfl
  · intro text hprint
    rw [hrun, runInvocation_of_load hload, hcommand, answer_show, hprint]
    rfl
  · intro hprint
    rw [hrun, runInvocation_of_load hload, hcommand, answer_show, hprint]
  · rw [hrun, runInvocation_checkAddress hcommand hload]
    exact ⟨rfl, fun others invocation' r' hcommand' hload' =>
      runInvocation_checkAddress hcommand' hload'⟩
  · rintro level rest rfl
    refine ⟨hlevels (.leftOut (levelOption_joined level) (.refl rest)), fun level' => ?_⟩
    exact hlevels (.replaced (levelOption_joined level) (levelOption_joined level') (.refl rest))

/-- No file, and a retention that TOML cannot hold. -/
def longRetention : Sources where
  read? _ := none
  environment := [("ALN__AUDIT_RETENTION_MS", "9223372036854775808")]

/-- The compiled address is judged with and without a log level, under a file in YAML and under a
file that is missing, and a registry is loaded that cannot be shown. -/
theorem address_and_retention_runs :
    let address := "ALN18sd2ujv24ual9c9pshtxys6j8knh6xaek9z83t"
    let judged : Report :=
      ⟨0, address ++ ": valid\nnote: treasury is reserved and not yet live\n", none⟩
    run longRetention ["-l", "debug", "check-address", address] = judged ∧
      run longRetention ["check-address", address] = judged ∧
      run yamlSources ["--log-level=none of them", "-c", "c.yaml", "check-address", address] =
        judged ∧
      run yamlSources ["-c", "c.yaml", "check-address", address] = judged ∧
      run longRetention ["-c", "absent.toml", "check-address", address] =
        ⟨1, "", some (.load .unusableFile)⟩ ∧
      run longRetention ["show", "--format=toml"] = ⟨1, "", some .unwritable⟩ := by
  intro address judged
  let r : Registry := { Registry.reference with auditRetentionMs := 9223372036854775808 }
  have hload : (load longRetention none).result = .ok r := eq_ok_of_toOption (by decide +kernel)
  have hexpand : expand longRetention.environment "absent.toml" = .ok "absent.toml" :=
    eq_ok_of_toOption (by decide +kernel)
  have hmissing : (load longRetention (some "absent.toml")).result = .error .unusableFile :=
    load_of_missing_file hexpand (by decide +kernel)
  obtain ⟨-, hjudged, hlevel, -⟩ := run_reports longRetention
    (show read ["-l", "debug", "check-address", address]
      = .run ⟨none, some "debug", .checkAddress address⟩ by decide +kernel)
  obtain ⟨-, hyaml, -, hjoined⟩ := run_reports yamlSources
    (show read ["--log-level=none of them", "-c", "c.yaml", "check-address", address]
      = .run ⟨some "c.yaml", some "none of them", .checkAddress address⟩ by decide +kernel)
  obtain ⟨hfailed, -⟩ := run_reports longRetention
    (show read ["-c", "absent.toml", "check-address", address]
      = .run ⟨some "absent.toml", none, .checkAddress address⟩ by decide +kernel)
  obtain ⟨-, hshown, -⟩ := run_reports longRetention
    (show read ["show", "--format=toml"] = .run ⟨none, none, .show .toml⟩ by decide +kernel)
  have haddress : run longRetention ["-l", "debug", "check-address", address] = judged :=
    ((hjudged r hload).2.2 address rfl).1
  have hunder : run yamlSources
      ["--log-level=none of them", "-c", "c.yaml", "check-address", address] = judged :=
    ((hyaml listedRegistry load_yamlSources.2).2.2 address rfl).1
  have hdebug : looksLikeOption "debug" = false := rfl
  have hleftOut : SameButLevels ["-l", "debug", "check-address", address]
      ["check-address", address] :=
    .leftOut (levelOption_apart hdebug).2 (.refl _)
  exact ⟨haddress, (hlevel _ hleftOut).trans haddress, hunder,
    (hjoined "none of them" _ rfl).1.trans hunder, hfailed _ hmissing,
    ((hshown r hload).2.1 .toml rfl).2 (by decide +kernel)⟩

end ChainRegistry.Console
