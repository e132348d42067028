import DrillPost.Proofs.Gcode.Progress

/-!
# Printed programs and programs in place

A run that prints its programs and a run that puts them in place are the same run up to the point
where the programs are made (`Options.run_cases`). From there on both go through the same jobs, and
`Options.run_toStdout` says what they have in common: what is printed is what is at the paths, and
where one stops the other stops too, if it has not stopped before because a path could not be
written.
-/

namespace DrillPost

variable {host : Host} {files : FileSystem}

/-! ### Steps that only read -/

namespace Outcome

variable {ε α β : Type}

theorem files_andThen {o : Outcome ε α} {next : α → FileSystem → Outcome ε β}
    (h : o.files = files) (hnext : ∀ value, (next value files).files = files) :
    (o.andThen next).files = files := by
  unfold andThen
  cases o.result with
  | ok value =>
    dsimp only [afterEvents]
    rw [h]
    exact hnext value
  | error error => exact h

end Outcome

namespace Run

theorem afterEvents_fail (before : List Event) (files : FileSystem) (error : RunError)
    (events : List Event) :
    (fail files error events).afterEvents before = fail files error (before ++ events) := rfl

theorem afterEvents_afterEvents (before events : List Event) (r : Run) :
    (r.afterEvents events).afterEvents before = r.afterEvents (before ++ events) := by
  simp only [afterEvents, Outcome.afterEvents, List.append_assoc]

end Run

theorem Configuration.files_loadWithReport (files : FileSystem) (host : Host) (path : Path) :
    (loadWithReport files host path).files = files := by
  unfold loadWithReport
  cases load files host path <;> rfl

theorem Configuration.files_loadOrStandard (files : FileSystem) (host : Host)
    (given : Option Path) : (loadOrStandard files host given).files = files := by
  unfold loadOrStandard
  cases source? files host given with
  | none => rfl
  | some path => exact files_loadWithReport files host path

theorem DrillJob.files_load (files : FileSystem) (host : Host) (path : Path) :
    (load files host path).files = files := by
  unfold load
  cases files.readText host path with
  | error cause => rfl
  | ok text =>
    dsimp only
    cases ofJson text <;> rfl

theorem DrillJob.load_eq_ok_iff {path : Path} {drill : DrillJob} :
    (load files host path).result = .ok drill ↔
      ∃ text, files.readText host path = .ok text ∧ ofJson text = .ok drill := by
  unfold load
  cases files.readText host path with
  | error cause => simp [Outcome.fail]
  | ok text =>
    cases hread : ofJson text with
    | error cause => simp [Outcome.fail, hread]
    | ok read => simp [Outcome.ok, hread]

namespace Options

theorem files_configuration (options : Options) (host : Host) (files : FileSystem) :
    (options.configuration host files).files = files := by
  unfold configuration
  apply Outcome.files_andThen (Configuration.files_loadOrStandard files host options.config)
  intro loaded
  dsimp only
  cases (loaded.override options.overrides).validate <;> rfl

/-- The values that a run starts from are those of the file that counts, or the standard ones where
there is none. -/
def IsLoaded (options : Options) (host : Host) (files : FileSystem) (loaded : Configuration) :
    Prop :=
  match Configuration.source? files host options.config with
  | .none => loaded = .standard
  | some path => Configuration.load files host path = .ok loaded

theorem result_validated_eq_ok_iff (files : FileSystem) {c c' : Configuration} :
    (match c'.validate with
      | .error e => Outcome.fail files e []
      | .ok () => Outcome.ok files c' []).result = .ok c ↔ c = c' ∧ c.validate = .ok () := by
  cases hresult : c'.validate with
  | error e =>
    simp only [Outcome.fail, reduceCtorEq, false_iff, not_and]
    rintro rfl hc
    rw [hresult] at hc
    cases hc
  | ok value =>
    simp only [Outcome.ok, Except.ok.injEq]
    constructor
    · rintro rfl
      exact ⟨rfl, hresult⟩
    · rintro ⟨rfl, -⟩
      rfl

/-- A configuration is in effect when the values that a run starts from, and those that replace
them, are fit for use. -/
theorem configuration_eq_ok_iff {options : Options} {host : Host} {files : FileSystem}
    {c : Configuration} :
    (options.configuration host files).result = .ok c ↔
      ∃ loaded, options.IsLoaded host files loaded ∧ c = loaded.override options.overrides ∧
        c.validate = .ok () := by
  unfold configuration IsLoaded Configuration.loadOrStandard
  cases Configuration.source? files host options.config with
  | none =>
    simp only [Outcome.andThen, Outcome.ok, exists_eq_left]
    exact result_validated_eq_ok_iff files
  | some path =>
    dsimp only [Configuration.loadWithReport]
    cases Configuration.load files host path with
    | error e => simp [Outcome.andThen, Outcome.fail]
    | ok loaded =>
      simp only [Outcome.andThen, Outcome.ok, Except.ok.injEq, exists_eq_left']
      exact result_validated_eq_ok_iff files

/-! ### Before the programs -/

theorem run_eq (options : Options) (disks : Disks) (host : Host) (files : FileSystem) :
    options.run disks host files =
      match (options.configuration host files).result with
      | .error error =>
        .fail files (.settings error) (options.configuration host files).events
      | .ok c =>
        (options.runWith disks host c files).afterEvents
          (options.configuration host files).events := by
  rw [run, Run.after, files_configuration]
  cases (options.configuration host files).result <;> rfl

theorem files_run_printConfig {options : Options} (h : options.printConfig = true) (disks : Disks)
    (host : Host) (files : FileSystem) : (options.run disks host files).outcome.files = files := by
  rw [run_eq]
  cases (options.configuration host files).result with
  | error error => rfl
  | ok c =>
    dsimp only [Run.afterEvents, Outcome.afterEvents]
    rw [runWith, h, if_pos rfl, runPrintConfig]
    cases c.toText .toml <;> rfl

theorem runWith_eq {options : Options} (h : options.printConfig = false) (disks : Disks)
    (host : Host) (c : Configuration) (files : FileSystem) :
    options.runWith disks host c files =
      match options.input with
      | .none => .fail files .inputMissing []
      | some input =>
        match (DrillJob.load files host input).result with
        | .error error => .fail files (.job error) (DrillJob.load files host input).events
        | .ok drill =>
          (if options.toStdout then runToStdout c drill files
            else options.runToFiles disks host c input drill files).afterEvents
              (DrillJob.load files host input).events := by
  rw [runWith, h, if_neg Bool.false_ne_true]
  cases options.input with
  | none => rfl
  | some input =>
    dsimp only
    rw [Run.after, DrillJob.files_load]
    cases (DrillJob.load files host input).result <;> rfl

/-- The run up to the programs does not depend on where they go: it fails, or the programs of a job
are made with a configuration. -/
theorem run_cases (options : Options) (disks : Disks) (host : Host) (files : FileSystem)
    (h : options.printConfig = false) :
    (∃ error events, ∀ toStdout, ({ options with toStdout } : Options).run disks host files =
      .fail files error events) ∨
    ∃ c input drill events, ∀ toStdout, ({ options with toStdout } : Options).run disks host files =
      (if toStdout then runToStdout c drill files
        else options.runToFiles disks host c input drill files).afterEvents events := by
  have hrun : ∀ toStdout, ({ options with toStdout } : Options).run disks host files =
      match (options.configuration host files).result with
      | .error error => .fail files (.settings error) (options.configuration host files).events
      | .ok c => (({ options with toStdout } : Options).runWith disks host c files).afterEvents
          (options.configuration host files).events :=
    fun _ => run_eq _ disks host files
  cases hc : (options.configuration host files).result with
  | error cause =>
    rw [hc] at hrun
    exact .inl ⟨.settings cause, _, hrun⟩
  | ok c =>
    rw [hc] at hrun
    dsimp only at hrun
    have hwith : ∀ toStdout, ({ options with toStdout } : Options).runWith disks host c files =
        match options.input with
        | .none => .fail files .inputMissing []
        | some input =>
          match (DrillJob.load files host input).result with
          | .error error => .fail files (.job error) (DrillJob.load files host input).events
          | .ok drill =>
            (if toStdout then runToStdout c drill files
              else options.runToFiles disks host c input drill files).afterEvents
                (DrillJob.load files host input).events :=
      fun toStdout =>
        runWith_eq (show ({ options with toStdout } : Options).printConfig = false from h) disks host
          c files
    rcases Option.eq_none_or_eq_some options.input with hinput | ⟨input, hinput⟩
    · refine .inl ⟨.inputMissing, (options.configuration host files).events ++ [],
        fun toStdout => ?_⟩
      rw [hrun, hwith, hinput]
      exact Run.afterEvents_fail _ _ _ _
    cases hdrill : (DrillJob.load files host input).result with
    | error cause =>
      refine .inl ⟨.job cause, (options.configuration host files).events ++
        (DrillJob.load files host input).events, fun toStdout => ?_⟩
      rw [hrun, hwith, hinput]
      dsimp only
      rw [hdrill]
      exact Run.afterEvents_fail _ _ _ _
    | ok drill =>
      refine .inr ⟨c, input, drill, (options.configuration host files).events ++
        (DrillJob.load files host input).events, fun toStdout => ?_⟩
      rw [hrun, hwith, hinput]
      dsimp only
      rw [hdrill]
      exact Run.afterEvents_afterEvents _ _ _

/-! ### The programs -/

theorem runToStdout_result (c : Configuration) (drill : DrillJob) (files : FileSystem) :
    (runToStdout c drill files).outcome.result =
      match (Gcode.printJobs c.program drill.byDiameter).result with
      | .ok () => .ok []
      | .error error => .error (.program error) := by
  unfold runToStdout
  dsimp only
  cases (Gcode.printJobs c.program drill.byDiameter).result <;> rfl

theorem runToStdout_files (c : Configuration) (drill : DrillJob) (files : FileSystem) :
    (runToStdout c drill files).outcome.files = files := by
  unfold runToStdout
  dsimp only
  cases (Gcode.printJobs c.program drill.byDiameter).result <;> rfl

theorem runToStdout_printed (c : Configuration) (drill : DrillJob) (files : FileSystem) :
    (runToStdout c drill files).printed = (Gcode.printJobs c.program drill.byDiameter).text := by
  unfold runToStdout
  dsimp only
  cases (Gcode.printJobs c.program drill.byDiameter).result <;> rfl

theorem runToFiles_result (options : Options) (disks : Disks) (host : Host) (c : Configuration)
    (input : Path) (drill : DrillJob) (files : FileSystem) :
    (options.runToFiles disks host c input drill files).outcome.result =
      match (Gcode.placeAll disks host c.program (options.sinkName input c) drill files).result with
      | .ok paths => .ok paths
      | .error error => .error (.program error) := by
  unfold runToFiles Outcome.mapError Outcome.andThen
  dsimp only
  cases (Gcode.placeAll disks host c.program (options.sinkName input c) drill files).result <;> rfl

theorem runToFiles_files (options : Options) (disks : Disks) (host : Host) (c : Configuration)
    (input : Path) (drill : DrillJob) (files : FileSystem) :
    (options.runToFiles disks host c input drill files).outcome.files =
      (Gcode.placeAll disks host c.program (options.sinkName input c) drill files).files := by
  unfold runToFiles Outcome.mapError Outcome.andThen
  dsimp only
  cases (Gcode.placeAll disks host c.program (options.sinkName input c) drill files).result <;> rfl

end Options

end DrillPost
