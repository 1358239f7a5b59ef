import ChainRegistry.Proofs.SealedSections
import ChainRegistry.Settings.Load

/-!
# What a load delivers

A load has three places to fail before it reads a registry, and one after it.  A registry that comes
out has therefore passed validation, and it was read over the reference registry, so neither the
file nor the environment has reached its sealed sections.  Conversely a registry that could be read
and is not valid is never delivered: its first violation is the whole answer.  None of this depends
on the format of the file or on what its reader makes of it.
-/

namespace ChainRegistry.Settings

variable {readers : Readers}

theorem eq_ok_of_toOption {ε α : Type} {result : Except ε α} {a : α}
    (h : result.toOption = some a) : result = .ok a := by
  cases result with
  | error e => simp [Except.toOption] at h
  | ok b =>
      simp only [Except.toOption, Option.some.injEq] at h
      rw [h]

theorem registryOf_eq_ok_iff {joined : Node} {r : Registry} :
    registryOf joined = .ok r ↔
      Registry.codec.read? .settings joined = some r ∧ r.violation? = none := by
  unfold registryOf
  split
  next hread => simp [hread]
  next s hread =>
    rw [hread]
    split
    next violation hviolation =>
      simp only [reduceCtorEq, Option.some.injEq, false_iff, not_and]
      rintro rfl
      simp [hviolation]
    next hviolation =>
      simp only [Except.ok.injEq, Option.some.injEq]
      constructor
      · rintro rfl
        exact ⟨rfl, hviolation⟩
      · exact And.left

theorem registryOf_eq_invalid {joined : Node} {r : Registry} {violation : Violation}
    (hread : Registry.codec.read? .settings joined = some r)
    (hviolation : r.violation? = some violation) :
    registryOf joined = .error (.invalid violation) := by
  simp [registryOf, hread, hviolation]

theorem load_result_of_settings {sources : Sources readers} {path? : Option String} {joined : Node}
    (hsettings : settings sources path? = .ok joined) :
    (load sources path?).result = registryOf joined := by
  simp [load, hsettings]

theorem load_result_eq_ok_iff {sources : Sources readers} {path? : Option String} {r : Registry} :
    (load sources path?).result = .ok r ↔
      ∃ joined, settings sources path? = .ok joined ∧ registryOf joined = .ok r := by
  unfold load
  split
  next hsettings => simp [hsettings]
  next joined hsettings => simp [hsettings]

theorem load_of_missing_file {sources : Sources readers} {path expanded : String}
    (hexpand : expand sources.environment path = .ok expanded)
    (hfile : findFile? readers.order sources.read? expanded = none) :
    (load sources (some path)).result = .error .unusableFile := by
  have hbase : baseSettings sources (some path) = fileSettings sources expanded := by
    rw [baseSettings, hexpand]
    rfl
  rw [load, settings, hbase, fileSettings, hfile]
  rfl

/-- A delivered registry is valid and holds the compiled treasury and bounds on amounts; a registry
that was read and is not valid is answered by its first violation. -/
theorem load_delivers_valid_and_sealed (sources : Sources readers) (path? : Option String) :
    (∀ r, (load sources path?).result = .ok r →
      r.violation? = none ∧ r.treasury = .reference ∧ r.amounts = .reference ∧
        r.treasury.isLive = false ∧
        r.treasury.address = "ALN18sd2ujv24ual9c9pshtxys6j8knh6xaek9z83t") ∧
    ∀ joined r violation, settings sources path? = .ok joined →
      Registry.codec.read? .settings joined = some r → r.violation? = some violation →
        (load sources path?).result = .error (.invalid violation) := by
  constructor
  · intro r hresult
    obtain ⟨joined, -, hregistry⟩ := load_result_eq_ok_iff.mp hresult
    obtain ⟨hread, hvalid⟩ := registryOf_eq_ok_iff.mp hregistry
    have htreasury : r.treasury = .reference := Registry.treasury_of_read? hread
    refine ⟨hvalid, htreasury, Registry.amounts_of_read? hread, ?_, ?_⟩
    · rw [htreasury]
      rfl
    · rw [htreasury]
      rfl
  · intro joined r violation hsettings hread hviolation
    rw [load_result_of_settings hsettings]
    exact registryOf_eq_invalid hread hviolation

/-- A file that tells of a live treasury, and a variable that moves a bound on amounts. -/
def tamperedSources : Sources where
  read? path :=
    if path = "c.toml" then some "[treasury]\nis_live = true\n\n[ports]\nmetrics = 9191\n"
    else none
  environment := [("ALN__SAFETY__MIN_AMOUNT", "7")]

/-- No file, and a variable that closes a port. -/
def portlessSources : Sources where
  read? _ := none
  environment := [("ALN__PORTS__METRICS", "0")]

def yamlText : String :=
  "jurisdictions: [EU, MARS]\ntreasury: \x7bis_live: true\x7d\n"

/-- Readers that know what one text in YAML says. -/
def yamlReaders : Readers where
  yaml? text :=
    if text = yamlText then
      some [("jurisdictions", .list [.text "EU", .text "MARS"]),
        ("treasury", .table [("is_live", .bool true)])]
    else none
  ini? _ := none
  ron? _ := none
  json5? _ := none
  order := [.ini, .json5, .yaml, .json, .ron, .toml]

/-- A file in YAML that lists tags and tells of a live treasury. -/
def yamlSources : Sources yamlReaders where
  read? path := if path = "c.yaml" then some yamlText else none
  environment := []

def listedRegistry : Registry :=
  { Registry.reference with jurisdictions := ⟨["EU", "MARS"]⟩ }

/-- The file in YAML is found with and without its extension. -/
theorem load_yamlSources :
    (load yamlSources (some "c")).result = .ok listedRegistry ∧
      (load yamlSources (some "c.yaml")).result = .ok listedRegistry :=
  ⟨eq_ok_of_toOption (by decide +kernel), eq_ok_of_toOption (by decide +kernel)⟩

theorem load_tampered_and_portless :
    (∃ r, (load tamperedSources (some "c.toml")).result = .ok r ∧
      r.endpoints.metrics = 9191 ∧ r.violation? = none ∧ r.treasury = .reference ∧
      r.amounts = .reference) ∧
    (∃ r, (load yamlSources (some "c")).result = .ok r ∧
      r.jurisdictions.tags = ["EU", "MARS"] ∧ r.violation? = none ∧ r.treasury = .reference) ∧
    ∃ joined r, settings portlessSources none = .ok joined ∧
      Registry.codec.read? .settings joined = some r ∧
      r.violation? = some (.vanishing "ports.metrics") ∧
      (load portlessSources none).result = .error (.invalid (.vanishing "ports.metrics")) := by
  refine ⟨?_, ?_, ?_⟩
  · let r : Registry :=
      { Registry.reference with endpoints := { Endpoints.reference with metrics := 9191 } }
    have hloaded : (load tamperedSources (some "c.toml")).result.toOption = some r := by
      decide +kernel
    have hresult : (load tamperedSources (some "c.toml")).result = .ok r :=
      eq_ok_of_toOption hloaded
    obtain ⟨hvalid, htreasury, hamounts, -, -⟩ :=
      (load_delivers_valid_and_sealed tamperedSources (some "c.toml")).1 r hresult
    exact ⟨r, hresult, rfl, hvalid, htreasury, hamounts⟩
  · have hresult := load_yamlSources.1
    obtain ⟨hvalid, htreasury, -⟩ :=
      (load_delivers_valid_and_sealed yamlSources (some "c")).1 listedRegistry hresult
    exact ⟨listedRegistry, hresult, rfl, hvalid, htreasury⟩
  · let r : Registry :=
      { Registry.reference with endpoints := { Endpoints.reference with metrics := 0 } }
    have hdecoded : (settings portlessSources none).toOption.bind
        (Registry.codec.read? .settings) = some r := by
      decide +kernel
    obtain ⟨joined, hjoined, hread⟩ := Option.bind_eq_some_iff.mp hdecoded
    have hsettings : settings portlessSources none = .ok joined := eq_ok_of_toOption hjoined
    have hviolation : r.violation? = some (.vanishing "ports.metrics") := by
      decide +kernel
    exact ⟨joined, r, hsettings, hread, hviolation,
      (load_delivers_valid_and_sealed portlessSources none).2 joined r _ hsettings hread
        hviolation⟩

end ChainRegistry.Settings
