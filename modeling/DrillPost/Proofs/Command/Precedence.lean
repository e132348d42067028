import DrillPost.Proofs.Command.Printing
import DrillPost.Proofs.Files.Staying
import DrillPost.Proofs.Settings.Saving
import DrillPost.Proofs.Settings.Stated
import DrillPost.Proofs.Settings.Toml

/-!
# Where settings come from, and when a run fails early

A run starts from the values of one source (`Options.StartsFrom`), which are fit for use on their
own and again under the values of the options. What is in effect then is told setting by setting
(`Options.Resolves`), and `Options.configuration_eq_ok_iff_resolves` says when something is.

Whatever fails before the programs, or in the first of them because of its job, fails before
anything is printed or put in place (`Options.runWith_eq_error`, `Options.runWith_of_first_fault`).
`Options.run_precedence` puts both together.
-/

namespace DrillPost

variable {host : Host} {files : FileSystem} {c loaded : Configuration} {stated : Stated}
  {options : Options} {disks : Disks}

theorem Configuration.validate_standard : standard.validate = .ok () := by decide +kernel

namespace Options

/-! ### The source -/

/-- The file that a run takes its configuration from, if any: the one that is given, else the file
of the user if there is one. A user without a home may have none. -/
inductive TakesFrom (options : Options) (host : Host) (files : FileSystem) : Option Path → Prop
  | given {path : Path} (h : options.config = some path) : TakesFrom options host files (some path)
  | user {path : Path} {place : Location} {content : Bytes} (h : options.config = .none)
      (hpath : Configuration.userPath? host = some path)
      (hfile : files.HasFile host path place content) :
      TakesFrom options host files (some path)
  | standard (h : options.config = .none)
      (hno : ∀ path ∈ Configuration.userPath? host, ∀ place content,
        ¬ files.HasFile host path place content) :
      TakesFrom options host files .none

theorem takesFrom_iff {source : Option Path} :
    options.TakesFrom host files source ↔
      Configuration.source? files host options.config = source := by
  unfold Configuration.source?
  constructor
  · rintro (h | ⟨h, hpath, hfile⟩ | ⟨h, hno⟩)
    · rw [h]
    · rw [h]
      exact Option.filter_eq_some_iff.2 ⟨hpath, FileSystem.isFileAt_iff.2 ⟨_, _, hfile⟩⟩
    · rw [h]
      refine Option.filter_eq_none_iff.2 fun path hpath hfile => ?_
      obtain ⟨place, content, hfile⟩ := FileSystem.isFileAt_iff.1 hfile
      exact hno path hpath place content hfile
  · rintro rfl
    cases hconfig : options.config with
    | some path => exact .given hconfig
    | none =>
      dsimp only
      cases hsource : (Configuration.userPath? host).filter (files.isFileAt host) with
      | some path =>
        obtain ⟨hpath, hfile⟩ := Option.filter_eq_some_iff.1 hsource
        obtain ⟨place, content, hfile⟩ := FileSystem.isFileAt_iff.1 hfile
        exact .user hconfig hpath hfile
      | none =>
        refine .standard hconfig fun path hpath place content hfile => ?_
        exact Option.filter_eq_none_iff.1 hsource path hpath
          (FileSystem.isFileAt_iff.2 ⟨_, _, hfile⟩)

/-- The values that a run starts from, and those of them that the source states. A file is loaded
when the path says its format, the path leads to it, and its content is a text that is a
configuration in the format. -/
inductive StartsFrom (options : Options) (host : Host) (files : FileSystem) :
    Configuration → Stated → Prop
  | file {path : Path} {format : FileFormat} {place : Location} {content : Bytes} {text : String}
      {loaded : Configuration} {stated : Stated}
      (hsource : options.TakesFrom host files (some path))
      (hformat : FileFormat.ofPath path = .ok format)
      (hfile : files.HasFile host path place content) (htext : ofUtf8? content = some text)
      (hloaded : Configuration.ofText format text = .ok loaded)
      (hstated : Configuration.stated? format text = some stated) :
      StartsFrom options host files loaded stated
  | standard (hsource : options.TakesFrom host files .none) :
      StartsFrom options host files .standard ⟨.none, .none⟩

theorem isLoaded_iff : options.IsLoaded host files loaded ↔
    ∃ stated, options.StartsFrom host files loaded stated ∧ loaded.validate = .ok () := by
  unfold IsLoaded
  cases hsource : Configuration.source? files host options.config with
  | none =>
    have htakes := takesFrom_iff.2 hsource
    dsimp only
    constructor
    · rintro rfl
      exact ⟨_, .standard htakes, Configuration.validate_standard⟩
    · rintro ⟨stated, hstarts, -⟩
      cases hstarts with
      | file hfile => cases hsource.symm.trans (takesFrom_iff.1 hfile)
      | standard => rfl
  | some path =>
    have htakes := takesFrom_iff.2 hsource
    dsimp only
    rw [Configuration.load_eq_ok_iff]
    constructor
    · rintro ⟨format, text, hformat, hread, hloaded, hvalid⟩
      obtain ⟨place, content, hfile, htext⟩ := FileSystem.readText_eq_ok_iff.1 hread
      obtain ⟨stated, hstated, -⟩ := Configuration.exists_stated_of_ofText hloaded
      exact ⟨stated, .file htakes hformat hfile htext hloaded hstated, hvalid⟩
    · rintro ⟨stated, hstarts, hvalid⟩
      cases hstarts with
      | file htakes' hformat hfile htext hloaded hstated =>
        cases hsource.symm.trans (takesFrom_iff.1 htakes')
        exact ⟨_, _, hformat, FileSystem.readText_eq_ok_iff.2 ⟨_, _, hfile, htext⟩, hloaded, hvalid⟩
      | standard htakes' => cases hsource.symm.trans (takesFrom_iff.1 htakes')

/-- What a run starts from is made of the stated values and of standard ones. -/
theorem StartsFrom.eq_configuration (h : options.StartsFrom host files loaded stated) :
    loaded = stated.configuration := by
  cases h with
  | file hsource hformat hfile htext hloaded hstated =>
    obtain ⟨s, hs, rfl⟩ := Configuration.exists_stated_of_ofText hloaded
    rw [hstated] at hs
    cases hs
    rfl
  | standard hsource =>
    unfold Stated.configuration
    rw [ProgramSettings.override_none]
    rfl

theorem StartsFrom.exists_eq_ofText (h : options.StartsFrom host files loaded stated) :
    ∀ directory ∈ stated.directory, ∃ s, directory = .ofText s := by
  cases h with
  | file hsource hformat hfile htext hloaded hstated =>
    exact Configuration.directory_of_stated? hstated
  | standard hsource => nofun

/-! ### The configuration in effect -/

/-- Every value is the one of the options, or else the stated one, or else the standard one; the
directory is the stated one. -/
structure Resolves (options : Options) (stated : Stated) (c : Configuration) : Prop where
  spindlePower : c.program.spindlePower =
    (options.overrides.spindlePower.or stated.program.spindlePower).getD
      ProgramSettings.standard.spindlePower
  safeHeight : c.program.safeHeight =
    (options.overrides.safeHeight.or stated.program.safeHeight).getD
      ProgramSettings.standard.safeHeight
  drillDepth : c.program.drillDepth =
    (options.overrides.drillDepth.or stated.program.drillDepth).getD
      ProgramSettings.standard.drillDepth
  directory : c.output.directory = stated.directory

theorem resolves_iff : options.Resolves stated c ↔
    c = stated.configuration.override options.overrides := by
  constructor
  · rintro ⟨hpower, hheight, hdepth, hdirectory⟩
    rw [Option.getD_or] at hpower hheight hdepth
    obtain ⟨⟨power, height, depth⟩, ⟨directory⟩⟩ := c
    dsimp only at hpower hheight hdepth hdirectory
    rw [hpower, hheight, hdepth, hdirectory]
    rfl
  · rintro rfl
    exact ⟨Option.getD_or.symm, Option.getD_or.symm, Option.getD_or.symm, rfl⟩

theorem configuration_eq_ok_iff_resolves :
    (options.configuration host files).result = .ok c ↔
      ∃ loaded stated, options.StartsFrom host files loaded stated ∧ loaded.validate = .ok () ∧
        options.Resolves stated c ∧ c.validate = .ok () := by
  rw [configuration_eq_ok_iff]
  constructor
  · rintro ⟨loaded, hloaded, hc, hvalid⟩
    obtain ⟨stated, hstarts, hvalidLoaded⟩ := isLoaded_iff.1 hloaded
    rw [hstarts.eq_configuration] at hc
    exact ⟨loaded, stated, hstarts, hvalidLoaded, resolves_iff.2 hc, hvalid⟩
  · rintro ⟨loaded, stated, hstarts, hvalidLoaded, hc, hvalid⟩
    refine ⟨loaded, isLoaded_iff.2 ⟨stated, hstarts, hvalidLoaded⟩, ?_, hvalid⟩
    rw [hstarts.eq_configuration]
    exact resolves_iff.1 hc

/-- Something is in effect if the values that a run starts from are fit for use, and again with
those of the options over them. -/
theorem StartsFrom.exists_configuration (h : options.StartsFrom host files loaded stated)
    (hvalid : loaded.validate = .ok ())
    (hvalidAgain : (loaded.override options.overrides).validate = .ok ()) :
    ∃ c, options.Resolves stated c ∧ (options.configuration host files).result = .ok c := by
  have hresolves : options.Resolves stated (loaded.override options.overrides) :=
    resolves_iff.2 (by rw [h.eq_configuration])
  exact ⟨_, hresolves, configuration_eq_ok_iff_resolves.2
    ⟨loaded, stated, h, hvalid, hresolves, hvalidAgain⟩⟩

theorem exists_configuration_iff : (∃ c, (options.configuration host files).result = .ok c) ↔
    ∃ loaded stated, options.StartsFrom host files loaded stated ∧ loaded.validate = .ok () ∧
      (loaded.override options.overrides).validate = .ok () := by
  constructor
  · rintro ⟨c, hc⟩
    obtain ⟨loaded, stated, hstarts, hvalid, hresolves, hvalidAgain⟩ :=
      configuration_eq_ok_iff_resolves.1 hc
    rw [resolves_iff.1 hresolves, ← hstarts.eq_configuration] at hvalidAgain
    exact ⟨loaded, stated, hstarts, hvalid, hvalidAgain⟩
  · rintro ⟨loaded, stated, hstarts, hvalid, hvalidAgain⟩
    obtain ⟨c, -, hc⟩ := hstarts.exists_configuration hvalid hvalidAgain
    exact ⟨c, hc⟩

/-- Values that are not fit for use are refused, whatever would replace them. -/
theorem configuration_of_not_valid {e : SettingsError}
    (h : options.StartsFrom host files loaded stated) (hinvalid : loaded.validate = .error e) :
    (options.configuration host files).result = .error e := by
  cases h with
  | @file path format place content text _ _ hsource hformat hfile htext hloaded hstated =>
    have hload : Configuration.load files host path = .error e := by
      unfold Configuration.load
      rw [hformat]
      dsimp only
      rw [FileSystem.readText_eq_ok_iff.2 ⟨_, _, hfile, htext⟩]
      dsimp only
      rw [hloaded]
      dsimp only
      rw [hinvalid]
    unfold configuration Configuration.loadOrStandard
    rw [takesFrom_iff.1 hsource]
    dsimp only
    rw [Configuration.loadWithReport, hload]
    rfl
  | standard hsource =>
    rw [Configuration.validate_standard] at hinvalid
    cases hinvalid

/-- Values that are not fit for use once those of the options are over them are refused. -/
theorem configuration_of_not_valid_override {e : SettingsError}
    (h : options.StartsFrom host files loaded stated) (hvalid : loaded.validate = .ok ())
    (hinvalid : (loaded.override options.overrides).validate = .error e) :
    (options.configuration host files).result = .error e := by
  have hloaded := isLoaded_iff.2 ⟨stated, h, hvalid⟩
  unfold IsLoaded at hloaded
  unfold configuration Configuration.loadOrStandard
  cases hsource : Configuration.source? files host options.config with
  | none =>
    rw [hsource] at hloaded
    obtain rfl : loaded = .standard := hloaded
    dsimp only [Outcome.andThen, Outcome.ok]
    rw [hinvalid]
    rfl
  | some path =>
    rw [hsource] at hloaded
    dsimp only at hloaded ⊢
    rw [Configuration.loadWithReport, hloaded]
    dsimp only [Outcome.andThen, Outcome.ok]
    rw [hinvalid]
    rfl

/-- No configuration is in effect where the file that it is to be taken from is not there. -/
theorem configuration_of_not_hasFile {path : Path}
    (hsource : options.TakesFrom host files (some path))
    (hno : ∀ place content, ¬ files.HasFile host path place content) :
    ∃ e, (options.configuration host files).result = .error e := by
  cases hresult : (options.configuration host files).result with
  | error e => exact ⟨e, rfl⟩
  | ok c =>
    obtain ⟨loaded, stated, hstarts, -⟩ := configuration_eq_ok_iff_resolves.1 hresult
    cases hstarts with
    | file hsource' hformat hfile htext hloaded hstated =>
      cases (takesFrom_iff.1 hsource).symm.trans (takesFrom_iff.1 hsource')
      exact (hno _ _ hfile).elim
    | standard hsource' =>
      cases (takesFrom_iff.1 hsource).symm.trans (takesFrom_iff.1 hsource')

/-! ### Failing early -/

theorem runToStdout_eq_error {drill : DrillJob} {error : RunError}
    (h : (runToStdout c drill files).outcome.result = .error error) :
    ∃ cause, error = .program cause := by
  rw [runToStdout_result] at h
  split at h
  · cases h
  · cases h
    exact ⟨_, rfl⟩

theorem runToFiles_eq_error {input : Path} {drill : DrillJob} {error : RunError}
    (h : (options.runToFiles disks host c input drill files).outcome.result = .error error) :
    ∃ cause, error = .program cause := by
  rw [runToFiles_result] at h
  split at h
  · cases h
  · cases h
    exact ⟨_, rfl⟩

/-- With a configuration a run fails in a program, or it fails before any program is made: then
nothing is printed and all files are as they were. A configuration whose directory is a text is not
what it fails in. -/
theorem runWith_eq_error {error : RunError}
    (hdirectory : ∀ directory ∈ c.output.directory, ∃ s, directory = .ofText s)
    (h : (options.runWith disks host c files).outcome.result = .error error) :
    (∃ cause, error = .program cause) ∨ (∀ cause, error ≠ .settings cause) ∧
      (options.runWith disks host c files).printed = "" ∧
        (options.runWith disks host c files).outcome.files = files := by
  cases hprint : options.printConfig with
  | true =>
    obtain ⟨program, output⟩ := c
    obtain ⟨s, rfl⟩ := OutputSettings.exists_eq_ofText hdirectory
    rw [runWith, hprint, if_pos rfl, runPrintConfig, Configuration.toText,
      Configuration.toToml?_eq] at h
    cases h
  | false =>
    rw [runWith_eq hprint] at h ⊢
    split at h
    · cases h
      exact .inr ⟨fun _ h => (by cases h), rfl, rfl⟩
    · next input hinput =>
      split at h
      · cases h
        exact .inr ⟨fun _ h => (by cases h), rfl, rfl⟩
      · next drill hdrill =>
        dsimp only [Run.afterEvents, Outcome.afterEvents] at h
        split_ifs at h
        · exact .inl (runToStdout_eq_error h)
        · exact .inl (runToFiles_eq_error h)

/-- A run that fails in its first program has printed nothing and left all files as they were. -/
theorem runWith_of_first_fault (disks : Disks) {input : Path} {drill : DrillJob} {first : ToolJob}
    {fault : ProgramError} (hprint : options.printConfig = false)
    (hinput : options.input = some input)
    (hdrill : (DrillJob.load files host input).result = .ok drill)
    (hfirst : drill.byDiameter.head? = some first)
    (hfault : Gcode.fault? c.program first = some fault) :
    (options.runWith disks host c files).outcome.result = .error (.program fault) ∧
      (options.runWith disks host c files).printed = "" ∧
        (options.runWith disks host c files).outcome.files = files := by
  obtain ⟨others, hjobs⟩ : ∃ others, drill.byDiameter = first :: others :=
    List.head?_eq_some_iff.1 hfirst
  rw [runWith_eq hprint, hinput]
  dsimp only
  rw [hdrill]
  dsimp only [Run.afterEvents, Outcome.afterEvents]
  split_ifs
  · rw [runToStdout_result, runToStdout_printed, runToStdout_files, hjobs, Gcode.printJobs,
      Gcode.program, hfault]
    exact ⟨rfl, rfl, rfl⟩
  · have hplace : ∀ sinkName, (Gcode.placeAll disks host c.program sinkName drill files) =
        ⟨.error fault, files, []⟩ := by
      intro sinkName
      unfold Gcode.placeAll
      rw [hjobs, Gcode.placeJobs, Gcode.place, hfault]
      rfl
    rw [runToFiles_result, runToFiles_files, hplace]
    exact ⟨rfl, rfl, rfl⟩

/-! ### Precedence -/

/-- A run does with the configuration in effect what the options ask for. -/
theorem run_of_configuration (disks : Disks)
    (h : (options.configuration host files).result = .ok c) :
    (options.run disks host files).outcome.result =
        (options.runWith disks host c files).outcome.result ∧
      (options.run disks host files).outcome.files =
          (options.runWith disks host c files).outcome.files ∧
        (options.run disks host files).printed = (options.runWith disks host c files).printed := by
  rw [run_eq, h]
  exact ⟨rfl, rfl, rfl⟩

theorem run_of_configuration_error {e : SettingsError}
    (h : (options.configuration host files).result = .error e) :
    (options.run disks host files).outcome.result = .error (.settings e) ∧
      (options.run disks host files).printed = "" ∧
        (options.run disks host files).outcome.files = files := by
  rw [run_eq, h]
  exact ⟨rfl, rfl, rfl⟩

/-- A run whose configuration is in effect fails in a program, or before any program is made, and
not because of settings. -/
theorem run_eq_error (h : (options.configuration host files).result = .ok c) {error : RunError}
    (herror : (options.run disks host files).outcome.result = .error error) :
    (∃ cause, error = .program cause) ∨ (∀ cause, error ≠ .settings cause) ∧
      (options.run disks host files).printed = "" ∧
        (options.run disks host files).outcome.files = files := by
  obtain ⟨loaded, stated, hstarts, -, hresolves, -⟩ := configuration_eq_ok_iff_resolves.1 h
  have hdirectory := hstarts.exists_eq_ofText
  rw [← hresolves.directory] at hdirectory
  obtain ⟨hresult, hfiles, hprinted⟩ := run_of_configuration disks h
  rw [hresult] at herror
  rw [hfiles, hprinted]
  exact runWith_eq_error hdirectory herror

/-- A run fails because of settings if and only if no configuration is in effect. -/
theorem run_ne_settings_iff :
    (∀ e, (options.run disks host files).outcome.result ≠ .error (.settings e)) ↔
      ∃ c, (options.configuration host files).result = .ok c := by
  constructor
  · intro hno
    cases hresult : (options.configuration host files).result with
    | error e => exact (hno e (run_of_configuration_error hresult).1).elim
    | ok c => exact ⟨c, rfl⟩
  · rintro ⟨c, hc⟩ e he
    rcases run_eq_error hc he with ⟨cause, hcause⟩ | ⟨hno, -⟩
    · cases hcause
    · exact hno e rfl

/-- A run that fails, but not in a program, has printed nothing and left all files as they were. -/
theorem unchanged_of_run_eq_error {error : RunError}
    (herror : (options.run disks host files).outcome.result = .error error)
    (hno : ∀ cause, error ≠ .program cause) :
    (options.run disks host files).printed = "" ∧
      (options.run disks host files).outcome.files = files := by
  cases hresult : (options.configuration host files).result with
  | error e => exact (run_of_configuration_error hresult).2
  | ok c =>
    rcases run_eq_error hresult herror with ⟨cause, hcause⟩ | ⟨-, hunchanged⟩
    · exact (hno cause hcause).elim
    · exact hunchanged

/-- A run takes its configuration from one source: the file that is given, which has to be there,
else the file of the user if there is one, else none. It gets past its configuration if and only if
the source loads and its values are fit for use on their own and again with those of the options
over them; values that are not fit are an error, whatever would replace them. Then each value in
effect is the one of the options, else the one that the source states, else the standard one, and
the directory is the one that the source states. A run that fails before its programs, or in the
first of them because of its job, has printed nothing and left all files as they were. -/
theorem run_precedence (options : Options) (disks : Disks) (host : Host) (files : FileSystem) :
    let run := options.run disks host files
    (∃! source, options.TakesFrom host files source) ∧
    (∀ path, options.TakesFrom host files (some path) →
      (∀ place content, ¬ files.HasFile host path place content) →
        ∃ e, run.outcome.result = .error (.settings e)) ∧
    ((∀ e, run.outcome.result ≠ .error (.settings e)) ↔
      ∃ loaded stated, options.StartsFrom host files loaded stated ∧ loaded.validate = .ok () ∧
        (loaded.override options.overrides).validate = .ok ()) ∧
    (∀ loaded stated e, options.StartsFrom host files loaded stated →
      loaded.validate = .error e → run.outcome.result = .error (.settings e)) ∧
    (∀ loaded stated, options.StartsFrom host files loaded stated → loaded.validate = .ok () →
      (loaded.override options.overrides).validate = .ok () →
        ∃ c, options.Resolves stated c ∧ (options.configuration host files).result = .ok c ∧
          run.outcome.result = (options.runWith disks host c files).outcome.result ∧
            run.outcome.files = (options.runWith disks host c files).outcome.files ∧
              run.printed = (options.runWith disks host c files).printed) ∧
    (∀ error, run.outcome.result = .error error → (∀ cause, error ≠ .program cause) →
      run.printed = "" ∧ run.outcome.files = files) ∧
    ∀ c input drill first fault, (options.configuration host files).result = .ok c →
      options.printConfig = false → options.input = some input →
        (DrillJob.load files host input).result = .ok drill →
          drill.byDiameter.head? = some first → first.fault? = some fault →
            run.outcome.result = .error (.program (.job fault)) ∧ run.printed = "" ∧
              run.outcome.files = files := by
  intro run
  refine ⟨⟨_, takesFrom_iff.2 rfl, fun source hsource => (takesFrom_iff.1 hsource).symm⟩, ?_,
    run_ne_settings_iff.trans exists_configuration_iff, ?_, ?_,
    fun error => unchanged_of_run_eq_error, ?_⟩
  · intro path hsource hno
    obtain ⟨e, he⟩ := configuration_of_not_hasFile hsource hno
    exact ⟨e, (run_of_configuration_error he).1⟩
  · intro loaded stated e hstarts hinvalid
    exact (run_of_configuration_error (configuration_of_not_valid hstarts hinvalid)).1
  · intro loaded stated hstarts hvalid hvalidAgain
    obtain ⟨c, hresolves, hc⟩ := hstarts.exists_configuration hvalid hvalidAgain
    exact ⟨c, hresolves, hc, run_of_configuration disks hc⟩
  · intro c input drill first fault hc hprint hinput hdrill hfirst hfault
    obtain ⟨-, -, -, -, -, hvalid⟩ := configuration_eq_ok_iff_resolves.1 hc
    have hfirstFault : Gcode.fault? c.program first = some (.job fault) := by
      rw [Gcode.fault?, Configuration.validate_eq_ok_iff.1 hvalid, hfault]
      rfl
    obtain ⟨hresult, hfiles, hprinted⟩ := run_of_configuration disks hc
    obtain ⟨herror, hnothing, hunchanged⟩ :=
      runWith_of_first_fault disks hprint hinput hdrill hfirst hfirstFault
    exact ⟨hresult.trans herror, hprinted.trans hnothing, hfiles.trans hunchanged⟩

/-- A power that nobody gives, a height that the file states and a depth that is given over the one
that the file states. -/
theorem run_precedence_three_sources :
    let text := "[encoder]\nsafe_height = 30\ndrill_depth = 3\n"
    let host : Host := ⟨[], 0o022, .none, .none, .none⟩
    let files := FileSystem.empty.insert [utf8 "c.toml"] (.file 0o644 (utf8 text))
    let options : Options :=
      { Options.none with
        config := some (.ofText "c.toml")
        overrides := ⟨.none, .none, some (.ofNat 1)⟩ }
    ∃ c, (options.configuration host files).result = .ok c ∧
      c = ⟨⟨100, .ofNat 30, .ofNat 1⟩, ⟨.none⟩⟩ ∧
        (options.run .sound host files).printed = "" := by
  intro text host files options
  let stated : Stated := ⟨⟨.none, some (.ofNat 30), some (.ofNat 3)⟩, .none⟩
  let loaded : Configuration := ⟨⟨100, .ofNat 30, .ofNat 3⟩, ⟨.none⟩⟩
  have hformat : FileFormat.ofPath (.ofText "c.toml") = .ok .toml := by decide +kernel
  have hfile : files.HasFile host (.ofText "c.toml") [utf8 "c.toml"] (utf8 text) :=
    ⟨by decide +kernel, 0o644, by decide +kernel⟩
  have hloaded : Configuration.ofText .toml text = .ok loaded := by decide +kernel
  have hstated : Configuration.stated? .toml text = some stated := by decide +kernel
  have hvalid : loaded.validate = .ok () := by decide +kernel
  have hvalidAgain : (loaded.override options.overrides).validate = .ok () := by decide +kernel
  have hstarts : options.StartsFrom host files loaded stated :=
    .file (.given rfl) hformat hfile (ofUtf8?_utf8 text) hloaded hstated
  obtain ⟨-, -, -, -, hpast, hearly, -⟩ := run_precedence options .sound host files
  obtain ⟨c, hresolves, hc, hresult, -, -⟩ := hpast loaded stated hstarts hvalid hvalidAgain
  have heq : stated.configuration.override options.overrides =
      ⟨⟨100, .ofNat 30, .ofNat 1⟩, ⟨.none⟩⟩ := by decide +kernel
  exact ⟨c, hc, (resolves_iff.1 hresolves).trans heq, (hearly .inputMissing hresult nofun).1⟩

end Options

end DrillPost
