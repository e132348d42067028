import DrillPost.Command.Report
import DrillPost.Proofs.Command.Insertion
import DrillPost.Proofs.Command.Printing
import DrillPost.Proofs.Gcode.Streaming
import DrillPost.Proofs.Log.Filter

/-!
# Verbosity only adds lines

No event of a run is more detailed than what the first flag for more detail lets through
(`Options.upToDebug_run`), so more flags never hide one. Neither flags nor directives have a part in
anything else that a call does (`calls_differ_in_shown_events`), except that a directive that cannot
be cut out of its text stops the call (`not_calls_agree_shifted`).
-/

namespace DrillPost

/-! ### Events of a run -/

/-- The events are no more detailed than `debug`. -/
def UpToDebug (events : List Event) : Prop := ∀ e ∈ events, e.level.rank ≤ Level.debug.rank

theorem upToDebug_nil : UpToDebug [] := List.forall_mem_nil _

theorem upToDebug_singleton {e : Event} (h : e.level.rank ≤ Level.debug.rank) : UpToDebug [e] :=
  List.forall_mem_singleton.2 h

theorem UpToDebug.append {first second : List Event} (hfirst : UpToDebug first)
    (hsecond : UpToDebug second) : UpToDebug (first ++ second) :=
  List.forall_mem_append.2 ⟨hfirst, hsecond⟩

theorem Outcome.upToDebug_andThen {ε α β : Type} {o : Outcome ε α}
    {next : α → FileSystem → Outcome ε β} (h : UpToDebug o.events)
    (hnext : ∀ value files, UpToDebug (next value files).events) :
    UpToDebug (o.andThen next).events := by
  unfold andThen
  cases o.result with
  | ok value => exact h.append (hnext value o.files)
  | error e => exact h

theorem Configuration.upToDebug_loadOrStandard (files : FileSystem) (host : Host)
    (given : Option Path) : UpToDebug (loadOrStandard files host given).events := by
  unfold loadOrStandard
  cases source? files host given with
  | none => exact upToDebug_singleton (by decide)
  | some path =>
    dsimp only [loadWithReport]
    cases load files host path with
    | ok c => exact upToDebug_singleton (show Level.debug.rank ≤ _ from le_rfl)
    | error e => exact upToDebug_nil

theorem DrillJob.upToDebug_load (files : FileSystem) (host : Host) (path : Path) :
    UpToDebug (load files host path).events := by
  unfold load
  cases files.readText host path with
  | error cause => exact upToDebug_nil
  | ok text =>
    dsimp only
    cases ofJson text with
    | error cause => exact upToDebug_nil
    | ok drill => exact upToDebug_singleton (show Level.debug.rank ≤ _ from le_rfl)

namespace Gcode

variable {settings : ProgramSettings} {job : ToolJob}

theorem upToDebug_openingEvents (job : ToolJob) : UpToDebug (openingEvents job) := by
  unfold openingEvents
  split
  · exact upToDebug_singleton (show Level.warn.rank ≤ _ by decide)
  · exact upToDebug_nil

theorem upToDebug_deliver (settings : ProgramSettings) (job : ToolJob) (room : Option Nat) :
    UpToDebug (deliver room (pieces settings job)).events := by
  rw [events_deliver_pieces]
  intro e he
  obtain ⟨⟨segment, index⟩, -, rfl⟩ := List.mem_map.1 he
  exact le_rfl

/-- What is reported of a whole program is what a sink with room for all of it is told. -/
theorem events_deliver_none (pieces : List Piece) :
    (deliver none pieces).events = pieceEvents pieces := by
  induction pieces with
  | nil => rfl
  | cons piece rest ih =>
    cases piece with
    | event e => exact congrArg (e :: ·) ih
    | text s => exact ih

theorem upToDebug_programEvents (settings : ProgramSettings) (job : ToolJob) :
    UpToDebug (programEvents settings job) := by
  rw [programEvents, ← events_deliver_none]
  exact (upToDebug_openingEvents job).append (upToDebug_deliver settings job none)

theorem upToDebug_printJobs (settings : ProgramSettings) (jobs : List ToolJob) :
    UpToDebug (printJobs settings jobs).events := by
  induction jobs with
  | nil => exact upToDebug_nil
  | cons job jobs ih =>
    unfold printJobs
    split
    · exact upToDebug_nil
    · exact (upToDebug_programEvents settings job).append ih

theorem upToDebug_put (disk : Disk) (host : Host) (files : FileSystem) (path : Path)
    (settings : ProgramSettings) (job : ToolJob) :
    UpToDebug (put disk host files path (pieces settings job)).events := by
  have hdeliver := upToDebug_deliver settings job disk.room
  unfold put
  split
  · exact upToDebug_nil
  · dsimp only
    split
    · split
      · exact hdeliver
      · exact hdeliver
    · exact hdeliver

theorem upToDebug_place (disk : Disk) (host : Host) (settings : ProgramSettings)
    (sinkName : Path) (job : ToolJob) (files : FileSystem) :
    UpToDebug (place disk host settings sinkName job files).events := by
  unfold place
  split
  · exact upToDebug_nil
  · refine (upToDebug_openingEvents job).append (Outcome.upToDebug_andThen ?_ fun _ files => ?_)
    · exact upToDebug_put disk host files _ settings job
    · exact upToDebug_singleton (show Level.info.rank ≤ _ by decide)

theorem upToDebug_placeJobs (disks : Disks) (host : Host) (settings : ProgramSettings)
    (sinkName : Path) (jobs : List ToolJob) (files : FileSystem) :
    UpToDebug (placeJobs disks host settings sinkName jobs files).events := by
  induction jobs generalizing disks files with
  | nil => exact upToDebug_nil
  | cons job jobs ih =>
    exact Outcome.upToDebug_andThen (upToDebug_place (disks 0) host settings sinkName job files)
      fun _ files => ih (disks.after 1) files

end Gcode

namespace Options

theorem upToDebug_runToStdout (c : Configuration) (drill : DrillJob) (files : FileSystem) :
    UpToDebug (runToStdout c drill files).outcome.events := by
  have hprint := Gcode.upToDebug_printJobs c.program drill.byDiameter
  unfold runToStdout
  dsimp only
  cases (Gcode.printJobs c.program drill.byDiameter).result with
  | error e => exact hprint
  | ok value => exact hprint

theorem upToDebug_runToFiles (options : Options) (disks : Disks) (host : Host) (c : Configuration)
    (input : Path) (drill : DrillJob) (files : FileSystem) :
    UpToDebug (options.runToFiles disks host c input drill files).outcome.events :=
  Outcome.upToDebug_andThen (Gcode.upToDebug_placeJobs disks host c.program _ _ files)
    fun _ _ => upToDebug_singleton (show Level.info.rank ≤ _ by decide)

theorem upToDebug_configuration (options : Options) (host : Host) (files : FileSystem) :
    UpToDebug (options.configuration host files).events := by
  refine Outcome.upToDebug_andThen
    (Configuration.upToDebug_loadOrStandard files host options.config) fun loaded files => ?_
  dsimp only
  cases (loaded.override options.overrides).validate with
  | error e => exact upToDebug_nil
  | ok value => exact upToDebug_nil

/-- No event of a run is more detailed than `debug`. -/
theorem upToDebug_run (options : Options) (disks : Disks) (host : Host) (files : FileSystem) :
    UpToDebug (options.run disks host files).outcome.events := by
  have hconfiguration := options.upToDebug_configuration host files
  rw [run_eq]
  cases (options.configuration host files).result with
  | error error => exact hconfiguration
  | ok c =>
    refine hconfiguration.append ?_
    cases hprint : options.printConfig with
    | true =>
      rw [runWith, hprint, if_pos rfl, runPrintConfig]
      cases c.toText .toml with
      | error e => exact upToDebug_nil
      | ok text => exact upToDebug_nil
    | false =>
      rw [runWith_eq hprint]
      cases options.input with
      | none => exact upToDebug_nil
      | some input =>
        have hload := DrillJob.upToDebug_load files host input
        dsimp only
        cases (DrillJob.load files host input).result with
        | error error => exact hload
        | ok drill =>
          refine hload.append ?_
          split
          · exact upToDebug_runToStdout c drill files
          · exact options.upToDebug_runToFiles disks host c input drill files

/-- A run does not look at how much detail is asked for. -/
theorem run_verbosity (options : Options) (verbosity : Nat) (disks : Disks) (host : Host)
    (files : FileSystem) :
    ({ options with verbosity } : Options).run disks host files = options.run disks host files := rfl

end Options

/-! ### Reports -/

/-- What comes of a run shows in a report whatever the directives and the verbosity are. -/
theorem Run.exists_report (r : Run) : ∃ exitCode stdout failure, exitCode ≠ 101 ∧
    ∀ verbosity directives filter, r.report verbosity directives filter =
      ⟨exitCode, stdout, ignoredDirectives directives ++
        (filter.withVerbosity verbosity).shownEvents verbosity r.outcome.events ++ failure⟩ := by
  unfold report
  cases r.outcome.result with
  | ok paths => exact ⟨0, _, "", by decide, fun _ _ _ => by rw [String.append_empty]⟩
  | error e => exact ⟨1, _, e.shown, by decide, fun _ _ _ => rfl⟩

/-! ### Calls -/

/-- Calls with the same options are stopped by their directives, or they show what came of the same
run and leave its files. -/
theorem Options.exists_call (options : Options) (disks : Disks) (host : Host) (files : FileSystem) :
    ∃ exitCode stdout failure, exitCode ≠ 101 ∧ ∀ arguments verbosity directives,
      ofArguments arguments = .ok { options with verbosity } →
        (Filter.ofText? directives = .none →
          call disks host directives arguments files = (.stopped directives, files)) ∧
        ∀ filter, Filter.ofText? directives = some filter →
          call disks host directives arguments files =
            (⟨exitCode, stdout, ignoredDirectives directives ++
              (filter.withVerbosity verbosity).shownEvents verbosity
                (options.run disks host files).outcome.events ++ failure⟩,
              (options.run disks host files).outcome.files) := by
  obtain ⟨exitCode, stdout, failure, hcode, hreport⟩ := (options.run disks host files).exists_report
  refine ⟨exitCode, stdout, failure, hcode, fun arguments verbosity directives h => ?_⟩
  rw [call, h]
  dsimp only
  refine ⟨fun hstop => ?_, fun filter hfilter => ?_⟩
  · rw [hstop]
  · rw [hfilter, run_verbosity, ← hreport]

/-- Calls that differ in nothing but verbosity and directives have the same exit code if and only if
the directives stop both or neither of them, and then they have the same standard output and leave
the same files. A call that is stopped does nothing, and none is unless a directive has a blank in
front and a character of more than one byte. Other calls differ in the events that are shown: with
the same directives the larger verbosity shows all that the smaller one does, in the same order. A
flag for more detail can be put between any arguments. -/
theorem calls_differ_in_shown_events {arguments arguments' : List String} {options : Options}
    {verbosity verbosity' : Nat}
    (h : Options.ofArguments arguments = .ok { options with verbosity })
    (h' : Options.ofArguments arguments' = .ok { options with verbosity := verbosity' })
    (disks : Disks) (host : Host) (files : FileSystem) (directives directives' : String) :
    let events := (options.run disks host files).outcome.events
    let c := call disks host directives arguments files
    let c' := call disks host directives' arguments' files
    (c'.1.exitCode = c.1.exitCode ↔
      (Filter.ofText? directives' = none ↔ Filter.ofText? directives = none)) ∧
    (c'.1.exitCode = c.1.exitCode → c'.1.stdout = c.1.stdout ∧ c'.2 = c.2) ∧
    (Filter.ofText? directives = none → c = (.stopped directives, files)) ∧
    ((∀ part ∈ Filter.split directives.toList, Directive.IsHarmless part) →
      ∃ filter, Filter.ofText? directives = some filter) ∧
    (∀ filter filter', Filter.ofText? directives = some filter →
      Filter.ofText? directives' = some filter' → ∃ failure,
        c.1.stderr = ignoredDirectives directives ++
          (filter.withVerbosity verbosity).shownEvents verbosity events ++ failure ∧
        c'.1.stderr = ignoredDirectives directives' ++
          (filter'.withVerbosity verbosity').shownEvents verbosity' events ++ failure) ∧
    (∀ filter : Filter, verbosity ≤ verbosity' →
      (events.filter (filter.withVerbosity verbosity).shows).Sublist
        (events.filter (filter.withVerbosity verbosity').shows)) ∧
    ∀ before flag after, IsBetween before → flag = "-v" ∨ flag = "--verbose" →
      arguments = before ++ after →
        Options.ofArguments (before ++ [flag] ++ after) =
          .ok { options with verbosity := min Options.maxVerbosity (verbosity + 1) } := by
  intro events c c'
  obtain ⟨exitCode, stdout, failure, hcode, hcalls⟩ := options.exists_call disks host files
  obtain ⟨hstopped, hcall⟩ := hcalls arguments verbosity directives h
  obtain ⟨hstopped', hcall'⟩ := hcalls arguments' verbosity' directives' h'
  change _ → c = _ at hstopped
  change _ → c' = _ at hstopped'
  change ∀ filter, _ → c = _ at hcall
  change ∀ filter, _ → c' = _ at hcall'
  have hagree : (c'.1.exitCode = c.1.exitCode ↔
      (Filter.ofText? directives' = none ↔ Filter.ofText? directives = none)) ∧
      (c'.1.exitCode = c.1.exitCode → c'.1.stdout = c.1.stdout ∧ c'.2 = c.2) := by
    -- The cases are which of the two calls is stopped: no run has the exit code of a stopped call.
    cases hfilter : Filter.ofText? directives with
    | none =>
      rw [hstopped hfilter]
      cases hfilter' : Filter.ofText? directives' with
      | none =>
        rw [hstopped' hfilter']
        exact ⟨iff_of_true rfl Iff.rfl, fun _ => ⟨rfl, rfl⟩⟩
      | some filter' =>
        rw [hcall' filter' hfilter']
        exact ⟨iff_of_false hcode (by simp), fun hsame => absurd hsame hcode⟩
    | some filter =>
      rw [hcall filter hfilter]
      cases hfilter' : Filter.ofText? directives' with
      | none =>
        rw [hstopped' hfilter']
        exact ⟨iff_of_false hcode.symm (by simp), fun hsame => absurd hsame.symm hcode⟩
      | some filter' =>
        rw [hcall' filter' hfilter']
        exact ⟨iff_of_true rfl (by simp), fun _ => ⟨rfl, rfl⟩⟩
  refine ⟨hagree.1, hagree.2, hstopped, Filter.exists_ofText?, ?_, fun filter hle => ?_, ?_⟩
  · intro filter filter' hfilter hfilter'
    rw [hcall filter hfilter, hcall' filter' hfilter']
    exact ⟨failure, rfl, rfl⟩
  · exact filter.sublist_filter_withVerbosity hle (options.upToDebug_run disks host files)
  · rintro before flag after hbefore hflag rfl
    exact Options.ofArguments_insert hbefore (Progress.gives_detail hflag) h nofun

/-- A job without holes, which is warned of, printed with and without a flag for more detail. -/
theorem calls_differ_in_shown_events_one_flag :
    let host : Host := ⟨[], 0o022, none, none, none⟩
    let files := FileSystem.empty.insert [utf8 "job"] (.file 0o644 (utf8 "[[1.5, []]]"))
    let options : Options :=
      { Options.none with input := some (.ofText "job"), toStdout := true }
    let events := (options.run .sound host files).outcome.events
    let filter : Filter := ⟨[.everywhere (some .error)]⟩
    let c := call .sound host "error,=" ["job", "--stdout"] files
    let c' := call .sound host "error,=" ["job", "-vv", "--stdout"] files
    events.length = 3 ∧ c.1.exitCode = 0 ∧ Filter.ofText? "error,=" = some filter ∧
      c'.1.exitCode = c.1.exitCode ∧ c'.1.stdout = c.1.stdout ∧ c'.2 = c.2 ∧
      (events.filter (filter.withVerbosity 0).shows).Sublist
        (events.filter (filter.withVerbosity 2).shows) ∧
      (events.filter (filter.withVerbosity 2).shows).length = 3 ∧
      Options.ofArguments (["job"] ++ ["-v"] ++ ["--stdout"]) =
        .ok { options with verbosity := 1 } := by
  intro host files options events filter c c'
  have h : Options.ofArguments ["job", "--stdout"] = .ok { options with verbosity := 0 } := by
    decide +kernel
  have h' : Options.ofArguments ["job", "-vv", "--stdout"] =
      .ok { options with verbosity := 2 } := by decide +kernel
  have hcount : events.length = 3 := by decide +kernel
  have hcode : c.1.exitCode = 0 := by decide +kernel
  have hfilter : Filter.ofText? "error,=" = some filter := by decide +kernel
  have hshown : (events.filter (filter.withVerbosity 2).shows).length = 3 := by decide +kernel
  have hbetween : IsBetween ["job"] := ⟨by decide, _, rfl, by decide +kernel⟩
  obtain ⟨hexit, hagree, -, -, -, hsublist, hinsert⟩ :=
    calls_differ_in_shown_events h h' .sound host files "error,=" "error,="
  have hsame : c'.1.exitCode = c.1.exitCode := hexit.2 Iff.rfl
  exact ⟨hcount, hcode, hfilter, hsame, (hagree hsame).1, (hagree hsame).2,
    hsublist filter (by decide), hshown, hinsert ["job"] "-v" ["--stdout"] hbetween (.inl rfl) rfl⟩

/-- A blank in front of a directive shifts the cut after its target into the last character of that,
and the call is stopped, where without the blank the program would have been written. -/
theorem not_calls_agree_shifted :
    let host : Host := ⟨[], 0o022, none, none, none⟩
    let files := FileSystem.empty.insert [utf8 "job"] (.file 0o644 (utf8 "[[1.5, []]]"))
    let written := [utf8 "job_1.5.cnc"]
    let c := call .sound host "é=info" ["job"] files
    let c' := call .sound host " é=info" ["job"] files
    c.1.exitCode = 0 ∧ c.1.stdout = "job_1.5.cnc\n" ∧ (c.2.lookup? written).isSome ∧
      c'.1.exitCode = 101 ∧ c'.1.stdout = "" ∧ (c'.2.lookup? written).isNone := by
  decide +kernel

end DrillPost
