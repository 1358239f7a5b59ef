import ChainRegistry.Console.Run

/-!
# Arguments that differ in the log level

A run never looks at the log level, so giving another one can only matter to how the arguments are
read.  Reading keeps the level in a place of its own: a draft in which it is replaced or left out
takes in whatever the draft took in, and comes to the same request but for the level.  So in a list
of arguments that asks for a run, the options for the level may be replaced by others or left out,
wherever they stand in front of the end of the options.
-/

namespace ChainRegistry.Console

open ChainRegistry.Settings

/-! ## Drafts and requests -/

/-- The other draft has the same settings but for the level, and a level only if this one has. -/
structure Draft.UpToLevel (draft other : Draft) : Prop where
  settingsFile : draft.settingsFile = other.settingsFile
  logLevel : draft.logLevel = none → other.logLevel = none
  format : draft.format = other.format
  operands : draft.operands = other.operands

/-- The other request is the same but for the level, unless this one is a mistake. -/
inductive Request.UpToLevel : Request → Request → Prop where
  | mistake (other : Request) : UpToLevel .mistake other
  | same (request : Request) : UpToLevel request request
  | run (file level other : Option String) (command : Command) :
    UpToLevel (.run ⟨file, level, command⟩) (.run ⟨file, other, command⟩)

theorem Draft.UpToLevel.refl (draft : Draft) : draft.UpToLevel draft :=
  ⟨rfl, id, rfl, rfl⟩

/-- Where a level can be set, it can also be left out or be any other one. -/
theorem Draft.UpToLevel.levels {draft other next : Draft} (hdraft : draft.UpToLevel other)
    {level : String} (hset : draft.set? .logLevel level = some next) :
    next.UpToLevel other ∧ ∀ level', ∃ next', other.set? .logLevel level' = some next' ∧
      next.UpToLevel next' := by
  obtain ⟨hfile, hlevel, hformat, hoperands⟩ := hdraft
  simp only [Draft.set?, Option.ite_none_right_eq_some, Option.some.injEq] at hset
  obtain ⟨hnone, rfl⟩ := hset
  have hother : other.logLevel = none := hlevel (Option.isNone_iff_eq_none.mp hnone)
  refine ⟨⟨hfile, fun _ => hother, hformat, hoperands⟩, fun level' =>
    ⟨{ other with logLevel := some level' }, ?_, hfile, fun h => ?_, hformat, hoperands⟩⟩
  · simp [Draft.set?, hother]
  · simp at h

theorem Draft.UpToLevel.set? {draft other next : Draft} (hdraft : draft.UpToLevel other)
    {setting : Setting} {value : String} (hset : draft.set? setting value = some next) :
    ∃ next', other.set? setting value = some next' ∧ next.UpToLevel next' := by
  have ⟨hfile, hlevel, hformat, hoperands⟩ := hdraft
  cases setting with
  | settingsFile =>
      simp only [Draft.set?, Option.ite_none_right_eq_some, Option.some.injEq] at hset
      obtain ⟨hnone, rfl⟩ := hset
      exact ⟨_, if_pos (hfile ▸ hnone), rfl, hlevel, hformat, hoperands⟩
  | logLevel => exact (hdraft.levels hset).2 value
  | format =>
      simp only [Draft.set?, Option.ite_none_right_eq_some, Option.map_eq_some_iff] at hset
      obtain ⟨hnone, format, hformat', rfl⟩ := hset
      refine ⟨{ other with format := some format }, ?_, hfile, hlevel, rfl, hoperands⟩
      simp [Draft.set?, ← hformat, hnone, hformat']

theorem Draft.UpToLevel.addOperand? {draft other next : Draft} (hdraft : draft.UpToLevel other)
    {name : CommandName} {operand : String} (hadd : draft.addOperand? name operand = some next) :
    ∃ next', other.addOperand? name operand = some next' ∧ next.UpToLevel next' := by
  obtain ⟨hfile, hlevel, hformat, hoperands⟩ := hdraft
  unfold Draft.addOperand? at hadd ⊢
  rw [← hoperands]
  simp only [Option.ite_none_left_eq_some, Option.some.injEq] at hadd ⊢
  obtain ⟨hroom, rfl⟩ := hadd
  exact ⟨_, ⟨hroom, rfl⟩, hfile, hlevel, hformat, rfl⟩

theorem Draft.UpToLevel.addOperands? {draft other next : Draft} (hdraft : draft.UpToLevel other)
    {name : CommandName} {operands : List String}
    (hadd : operands.foldlM (fun draft operand => draft.addOperand? name operand) draft
      = some next) :
    ∃ next', operands.foldlM (fun draft operand => draft.addOperand? name operand) other
      = some next' ∧ next.UpToLevel next' := by
  induction operands generalizing draft other with
  | nil =>
      obtain rfl : draft = next := Option.some.inj hadd
      exact ⟨other, rfl, hdraft⟩
  | cons operand operands ih =>
      rw [List.foldlM_cons] at hadd ⊢
      obtain ⟨middle, hfirst, hrest⟩ := Option.bind_eq_some_iff.mp hadd
      obtain ⟨middle', hfirst', hmiddle⟩ := hdraft.addOperand? hfirst
      obtain ⟨next', hrest', hnext⟩ := ih hmiddle hrest
      exact ⟨next', Option.bind_eq_some_iff.mpr ⟨middle', hfirst', hrest'⟩, hnext⟩

theorem finish_upToLevel {before before' behind behind' : Draft} (name : CommandName)
    (hbefore : before.UpToLevel before') (hbehind : behind.UpToLevel behind') :
    (finish before name behind).UpToLevel (finish before' name behind') := by
  have hcommand : commandOf? name behind = commandOf? name behind' := by
    unfold commandOf?
    rw [hbehind.operands, hbehind.format]
  rw [finish, finish, hcommand, hbefore.settingsFile, hbehind.settingsFile]
  cases commandOf? name behind' with
  | none => exact .same .mistake
  | some command => exact .run _ _ _ _

/-- A draft that could be taken further leads to the next request, any other one is a mistake. -/
def orMistake (draft? : Option Draft) (next : Draft → Request) : Request :=
  match draft? with
  | some draft => next draft
  | none => .mistake

theorem orMistake_upToLevel {draft? other? : Option Draft} {next next' : Draft → Request}
    (hstep : ∀ draft, draft? = some draft → ∃ other, other? = some other ∧ draft.UpToLevel other)
    (hnext : ∀ draft other, draft.UpToLevel other → (next draft).UpToLevel (next' other)) :
    (orMistake draft? next).UpToLevel (orMistake other? next') := by
  cases draft? with
  | none => exact .mistake _
  | some draft =>
      obtain ⟨other, rfl, hdraft⟩ := hstep draft rfl
      exact hnext draft other hdraft

/-! ## Options for the level -/

/-- The arguments of one option that gives the level, which takes one argument or two. -/
inductive LevelOption (level : String) : List String → Prop where
  | joined {argument : String}
    (h : ∀ command?, Token.ofText command? argument
      = .option (.setting .logLevel) (some level)) : LevelOption level [argument]
  | apart {argument : String}
    (h : ∀ command?, Token.ofText command? argument = .option (.setting .logLevel) none)
    (hlevel : looksLikeOption level = false) : LevelOption level [argument, level]

/-- Behind an equals sign every text can be given as the value of an option. -/
theorem ofText_joined {command? : Option CommandName} {name argument value : String}
    {setting : Setting}
    (hchars : argument.toList = '-' :: '-' :: (name.toList ++ '=' :: value.toList))
    (hname : ∀ c ∈ name.toList, (c != '=') = true)
    (hoption : longOption? command? name.toList = some (.setting setting)) :
    Token.ofText command? argument = .option (.setting setting) (some value) := by
  have htake : (name.toList ++ '=' :: value.toList).takeWhile (· != '=') = name.toList := by
    rw [List.takeWhile_append_of_pos hname]
    simp
  have hdrop : (name.toList ++ '=' :: value.toList).dropWhile (· != '=') = '=' :: value.toList := by
    rw [List.dropWhile_append_of_pos hname]
    simp
  rw [Token.ofText, hchars]
  generalize name.toList ++ '=' :: value.toList = rest at htake hdrop
  cases rest with
  | nil => simp at hdrop
  | cons letter rest => simp only [htake, hdrop, hoption, String.ofList_toList]

/-- Every text can be given as a level in one argument. -/
theorem levelOption_joined (level : String) : LevelOption level ["--log-level=" ++ level] := by
  refine .joined fun command? => ?_
  have hchars : ("--log-level=" ++ level).toList =
      '-' :: '-' :: ("log-level".toList ++ '=' :: level.toList) := by
    rw [String.toList_append]
    rfl
  refine ofText_joined hchars (by simp) ?_
  unfold longOption?
  rw [if_neg (by decide), if_pos rfl]

theorem levelOption_apart {level : String} (hlevel : looksLikeOption level = false) :
    LevelOption level ["--log-level", level] ∧ LevelOption level ["-l", level] :=
  ⟨.apart (fun command? => by cases command? <;> rfl) hlevel,
    .apart (fun command? => by cases command? <;> rfl) hlevel⟩

theorem looksLikeOption_of_isSetting {command? : Option CommandName} {argument : String}
    {setting : Setting} {value : Option String}
    (h : Token.ofText command? argument = .option (.setting setting) value) :
    looksLikeOption argument = true := by
  unfold Token.ofText at h
  unfold looksLikeOption
  split at h <;> simp_all

theorem eq_of_endOfOptions {command? : Option CommandName} {argument : String}
    (h : Token.ofText command? argument = .endOfOptions) : argument = "--" := by
  unfold Token.ofText at h
  split at h
  next hchars => exact String.ext_iff.mpr hchars
  all_goals
    exfalso
    repeat' first | contradiction | split at h | dsimp only at h

theorem LevelOption.eq_cons {level : String} {option : List String}
    (hoption : LevelOption level option) :
    ∃ argument behind, option = argument :: behind ∧ looksLikeOption argument = true := by
  cases hoption with
  | joined h => exact ⟨_, [], rfl, looksLikeOption_of_isSetting (h none)⟩
  | apart h _ => exact ⟨_, [level], rfl, looksLikeOption_of_isSetting (h none)⟩

theorem LevelOption.ne_nil {level : String} {option : List String}
    (hoption : LevelOption level option) : option ≠ [] := by
  cases hoption <;> exact List.cons_ne_nil _ _

theorem LevelOption.length_lt {level : String} {option : List String}
    (hoption : LevelOption level option) (rest : List String) :
    rest.length < (option ++ rest).length := by
  obtain ⟨argument, behind, rfl, -⟩ := hoption.eq_cons
  simp only [List.cons_append, List.length_cons, List.length_append]
  omega

/-- The other arguments are the same but for options for the level, which may be replaced or left
out anywhere in front of the end of the options. -/
inductive SameButLevels : List String → List String → Prop where
  | nil : SameButLevels [] []
  | operands (rest : List String) : SameButLevels ("--" :: rest) ("--" :: rest)
  | cons (argument : String) {rest rest' : List String} (hne : argument ≠ "--")
    (hrest : SameButLevels rest rest') : SameButLevels (argument :: rest) (argument :: rest')
  | replaced {level level' : String} {option option' rest rest' : List String}
    (hoption : LevelOption level option) (hoption' : LevelOption level' option')
    (hrest : SameButLevels rest rest') : SameButLevels (option ++ rest) (option' ++ rest')
  | leftOut {level : String} {option rest rest' : List String}
    (hoption : LevelOption level option) (hrest : SameButLevels rest rest') :
    SameButLevels (option ++ rest) rest'

theorem SameButLevels.refl (arguments : List String) : SameButLevels arguments arguments := by
  induction arguments with
  | nil => exact .nil
  | cons argument rest ih =>
      by_cases hend : argument = "--"
      · subst hend
        exact .operands rest
      · exact .cons argument hend ih

theorem SameButLevels.eq_nil {arguments : List String} (h : SameButLevels [] arguments) :
    arguments = [] := by
  generalize hempty : ([] : List String) = empty at h
  cases h with
  | nil => rfl
  | operands | cons => contradiction
  | replaced hoption _ _ => simp [hoption.ne_nil] at hempty
  | leftOut hoption _ => simp [hoption.ne_nil] at hempty

/-! ## Reading -/

/-- What follows an option for a setting, the same in front of the command and behind it. -/
def readSetting (next : Draft → List String → Request) (draft : Draft) (setting : Setting) :
    Option String → List String → Request
  | some value, rest => orMistake (draft.set? setting value) fun draft => next draft rest
  | none, value :: rest =>
    if looksLikeOption value then .mistake
    else orMistake (draft.set? setting value) fun draft => next draft rest
  | none, [] => .mistake

/-- The reader takes in settings as they are in the place of these options. -/
def ReadsSettings (command? : Option CommandName) (reader : Draft → List String → Request) : Prop :=
  ∀ draft argument rest setting value,
    Token.ofText command? argument = .option (.setting setting) value →
      reader draft (argument :: rest) = readSetting reader draft setting value rest

theorem readCommand_readsSettings (before : Draft) (name : CommandName) :
    ReadsSettings (some name) (readCommand before name) := by
  intro draft argument rest setting value h
  rw [readCommand.eq_def]
  simp only [h]
  cases value <;> cases rest <;> rfl

theorem readFrom_readsSettings : ReadsSettings none readFrom := by
  intro draft argument rest setting value h
  rw [readFrom.eq_def]
  simp only [h]
  cases value <;> cases rest <;> rfl

section Readers

variable {command? : Option CommandName} {reader reader' : Draft → List String → Request}

theorem ReadsSettings.levelOption (hreader : ReadsSettings command? reader) {draft : Draft}
    {level : String} {option : List String} (hoption : LevelOption level option)
    (rest : List String) :
    reader draft (option ++ rest) =
      orMistake (draft.set? .logLevel level) fun draft => reader draft rest := by
  cases hoption with
  | joined h => exact hreader draft _ rest _ _ (h command?)
  | apart h hlevel =>
      refine (hreader draft _ (level :: rest) _ _ (h command?)).trans ?_
      simp only [readSetting, hlevel, Bool.false_eq_true, if_false]

/-- The readers agree up to the level on drafts and arguments that do, if there are at most this
many arguments. -/
def AgreeUpTo (length : Nat) (reader reader' : Draft → List String → Request) : Prop :=
  ∀ ⦃arguments arguments' : List String⦄, arguments.length ≤ length →
    SameButLevels arguments arguments' → ∀ draft draft', draft.UpToLevel draft' →
      (reader draft arguments).UpToLevel (reader' draft' arguments')

theorem readSetting_upToLevel {rest rest' : List String}
    (hnext : AgreeUpTo rest.length reader reader') (hrest : SameButLevels rest rest')
    {draft draft' : Draft} (hdraft : draft.UpToLevel draft') (setting : Setting)
    (value : Option String) :
    (readSetting reader draft setting value rest).UpToLevel
      (readSetting reader' draft' setting value rest') := by
  cases value with
  | some value =>
      exact orMistake_upToLevel (fun _ => hdraft.set?) (hnext (Nat.le_refl _) hrest)
  | none =>
      cases hrest with
      | nil => exact .same .mistake
      | operands rest => exact .same .mistake
      | cons value hne hrest =>
          simp only [readSetting]
          split
          · exact .same .mistake
          · exact orMistake_upToLevel (fun _ => hdraft.set?) (hnext (Nat.le_succ _) hrest)
      -- An option cannot be the value of another one.
      | replaced hoption _ _ =>
          obtain ⟨argument, behind, rfl, hlooks⟩ := hoption.eq_cons
          simp only [readSetting, List.cons_append, hlooks, if_true]
          exact .mistake _
      | leftOut hoption _ =>
          obtain ⟨argument, behind, rfl, hlooks⟩ := hoption.eq_cons
          simp only [readSetting, List.cons_append, hlooks, if_true]
          exact .mistake _

theorem replaced_upToLevel (hreader : ReadsSettings command? reader)
    (hreader' : ReadsSettings command? reader') {level level' : String}
    {option option' rest rest' : List String} (hoption : LevelOption level option)
    (hoption' : LevelOption level' option') (hnext : AgreeUpTo rest.length reader reader')
    (hrest : SameButLevels rest rest') {draft draft' : Draft} (hdraft : draft.UpToLevel draft') :
    (reader draft (option ++ rest)).UpToLevel (reader' draft' (option' ++ rest')) := by
  rw [hreader.levelOption hoption, hreader'.levelOption hoption']
  exact orMistake_upToLevel (fun _ hset => (hdraft.levels hset).2 level')
    (hnext (Nat.le_refl _) hrest)

theorem leftOut_upToLevel (hreader : ReadsSettings command? reader) {level : String}
    {option rest rest' : List String} (hoption : LevelOption level option)
    (hnext : AgreeUpTo rest.length reader reader') (hrest : SameButLevels rest rest')
    {draft draft' : Draft} (hdraft : draft.UpToLevel draft') :
    (reader draft (option ++ rest)).UpToLevel (reader' draft' rest') := by
  rw [hreader.levelOption hoption]
  unfold orMistake
  split
  next next hset => exact hnext (Nat.le_refl _) hrest _ _ (hdraft.levels hset).1
  next => exact .mistake _

/-- Readers agree up to the level if they do where neither an option for a setting nor the end of
the arguments changed is read first. -/
theorem agreeUpTo_of_cases (hreader : ReadsSettings command? reader)
    (hreader' : ReadsSettings command? reader')
    (hnil : ∀ draft draft' : Draft, draft.UpToLevel draft' →
      (reader draft []).UpToLevel (reader' draft' []))
    (hend : ∀ (rest : List String) (draft draft' : Draft), draft.UpToLevel draft' →
      (reader draft ("--" :: rest)).UpToLevel (reader' draft' ("--" :: rest)))
    (hcons : ∀ (argument : String) {rest rest' : List String}, argument ≠ "--" →
      (∀ setting value, Token.ofText command? argument ≠ .option (.setting setting) value) →
      AgreeUpTo rest.length reader reader' → SameButLevels rest rest' →
      ∀ draft draft' : Draft, draft.UpToLevel draft' →
        (reader draft (argument :: rest)).UpToLevel (reader' draft' (argument :: rest')))
    (length : Nat) : AgreeUpTo length reader reader' := by
  induction length using Nat.strongRecOn with
  | _ length ih =>
      intro arguments arguments' hlength harguments draft draft' hdraft
      cases harguments with
      | nil => exact hnil draft draft' hdraft
      | operands rest => exact hend rest draft draft' hdraft
      | @cons argument rest rest' hne hrest =>
          have hnext : AgreeUpTo rest.length reader reader' := ih _ hlength
          by_cases hsetting : ∃ setting value,
            Token.ofText command? argument = .option (.setting setting) value
          · obtain ⟨setting, value, htoken⟩ := hsetting
            rw [hreader draft argument rest setting value htoken,
              hreader' draft' argument rest' setting value htoken]
            exact readSetting_upToLevel hnext hrest hdraft setting value
          · exact hcons argument hne (fun setting value htoken =>
              hsetting ⟨setting, value, htoken⟩) hnext hrest draft draft' hdraft
      | @replaced _ _ option _ rest _ hoption hoption' hrest =>
          have hnext : AgreeUpTo rest.length reader reader' :=
            ih _ (Nat.lt_of_lt_of_le (hoption.length_lt rest) hlength)
          exact replaced_upToLevel hreader hreader' hoption hoption' hnext hrest hdraft
      | @leftOut _ option rest _ hoption hrest =>
          have hnext : AgreeUpTo rest.length reader reader' :=
            ih _ (Nat.lt_of_lt_of_le (hoption.length_lt rest) hlength)
          exact leftOut_upToLevel hreader hoption hnext hrest hdraft

end Readers

theorem readCommand_agree {before before' : Draft} (hbefore : before.UpToLevel before')
    (name : CommandName) (length : Nat) :
    AgreeUpTo length (readCommand before name) (readCommand before' name) := by
  refine agreeUpTo_of_cases (readCommand_readsSettings before name)
    (readCommand_readsSettings before' name) ?_ ?_ ?_ length
  · intro draft draft' hdraft
    exact finish_upToLevel name hbefore hdraft
  · intro rest draft draft' hdraft
    have htoken : Token.ofText (some name) "--" = .endOfOptions := rfl
    simp only [readCommand, htoken]
    exact orMistake_upToLevel (fun _ => hdraft.addOperands?) fun _ _ =>
      finish_upToLevel name hbefore
  · intro argument rest rest' hne hsetting hnext hrest draft draft' hdraft
    cases htoken : Token.ofText (some name) argument with
    | endOfOptions => exact absurd (eq_of_endOfOptions htoken) hne
    | unknown =>
        simp only [readCommand, htoken]
        exact .same .mistake
    | operand =>
        simp only [readCommand, htoken]
        exact orMistake_upToLevel (fun _ => hdraft.addOperand?) (hnext (Nat.le_refl _) hrest)
    | option switch value =>
        cases switch with
        | setting setting => exact absurd htoken (hsetting setting value)
        | version =>
            simp only [readCommand, htoken]
            exact .same .version
        | help =>
            simp only [readCommand, htoken]
            exact .same .help

theorem readHelp_of_looksLikeOption {argument : String} (hlooks : looksLikeOption argument = true)
    (rest : List String) : readHelp (argument :: rest) = .mistake := by
  cases rest with
  | cons _ _ => rfl
  | nil =>
      have hne : ∀ topic, looksLikeOption topic = false → argument ≠ topic := by
        rintro topic htopic rfl
        exact absurd hlooks (by rw [htopic]; decide)
      have hname : CommandName.ofText? argument = none := by
        rw [CommandName.ofText?, if_neg (hne _ rfl), if_neg (hne _ rfl), if_neg (hne _ rfl),
          if_neg (hne _ rfl)]
      simp [readHelp, hname, hne "help" rfl]

theorem readHelp_upToLevel {rest rest' : List String} (hrest : SameButLevels rest rest') :
    (readHelp rest).UpToLevel (readHelp rest') := by
  cases hrest with
  | nil => exact .same .help
  | operands rest => exact .same _
  | @cons topic rest rest' _ hrest =>
      cases rest with
      | cons _ _ => exact .mistake _
      | nil =>
          obtain rfl : rest' = [] := hrest.eq_nil
          exact .same _
  | replaced hoption _ _ =>
      obtain ⟨argument, behind, rfl, hlooks⟩ := hoption.eq_cons
      rw [List.cons_append, readHelp_of_looksLikeOption hlooks]
      exact .mistake _
  | leftOut hoption _ =>
      obtain ⟨argument, behind, rfl, hlooks⟩ := hoption.eq_cons
      rw [List.cons_append, readHelp_of_looksLikeOption hlooks]
      exact .mistake _

theorem readFrom_agree (length : Nat) : AgreeUpTo length readFrom readFrom := by
  refine agreeUpTo_of_cases readFrom_readsSettings readFrom_readsSettings ?_ ?_ ?_ length
  · intro draft draft' _
    exact .same .mistake
  · intro rest draft draft' _
    have htoken : Token.ofText none "--" = .endOfOptions := rfl
    simp only [readFrom, htoken]
    exact .same .mistake
  · intro argument rest rest' hne hsetting hnext hrest draft draft' hdraft
    cases htoken : Token.ofText none argument with
    | endOfOptions => exact absurd (eq_of_endOfOptions htoken) hne
    | unknown =>
        simp only [readFrom, htoken]
        exact .same .mistake
    | operand =>
        simp only [readFrom, htoken]
        split
        · exact readHelp_upToLevel hrest
        · cases CommandName.ofText? argument with
          | none => exact .same .mistake
          | some name =>
              exact readCommand_agree hdraft name rest.length (Nat.le_refl _) hrest _ _
                (.refl .empty)
    | option switch value =>
        cases switch with
        | setting setting => exact absurd htoken (hsetting setting value)
        | version =>
            simp only [readFrom, htoken]
            exact .same .version
        | help =>
            simp only [readFrom, htoken]
            exact .same .help

theorem read_upToLevel {arguments arguments' : List String}
    (harguments : SameButLevels arguments arguments') :
    (read arguments).UpToLevel (read arguments') :=
  readFrom_agree arguments.length (Nat.le_refl _) harguments _ _ (.refl .empty)

/-- A run is the same with other options for the level, and without them. -/
theorem run_eq_of_sameButLevels {readers : Readers} (sources : Sources readers)
    {arguments arguments' : List String} {invocation : Invocation}
    (hread : read arguments = .run invocation)
    (harguments : SameButLevels arguments arguments') :
    run sources arguments' = run sources arguments := by
  have hrequests := read_upToLevel harguments
  unfold run
  rw [hread] at hrequests ⊢
  generalize read arguments' = request' at hrequests ⊢
  cases hrequests with
  | same => rfl
  | run file level other command => rfl

end ChainRegistry.Console
