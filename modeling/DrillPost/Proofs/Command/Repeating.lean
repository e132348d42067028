import DrillPost.Proofs.Command.Printing
import DrillPost.Proofs.Command.SinkName
import DrillPost.Proofs.Gcode.Replacing

/-!
# Runs that can be repeated

A run that is given no name for its programs leaves what it reads alone, whether it fails or not,
and where it does not fail it can be repeated: the second run lists the same paths and leaves every
location as the first left it (`Options.run_repeatable`).

What a run does to files is summed up by `Options.run_cases_places`: it does nothing to them, or it
puts the programs of a job in place (`Options.Places`). The places of the programs are not those of
the files that were read, so the second run reads the same configuration and the same job
(`Options.Places.again`), and it puts the programs where they are already.
-/

namespace DrillPost

open Gcode

/-! ### Where configurations come from -/

/-- The configuration file of a user is one by its name. -/
theorem FileFormat.ofPath_userPath {host : Host} {path : Path}
    (h : Configuration.userPath? host = some path) : ofPath path = .ok .toml := by
  obtain ⟨directory, -, rfl⟩ := Option.map_eq_some_iff.1 h
  obtain ⟨before, hbefore, -, hjoin⟩ :=
    (directory.join (.ofText Configuration.applicationName)).exists_join
  have hslash : slash ∉ utf8 Configuration.fileName := by decide
  have hpath : (directory.join (.ofText Configuration.applicationName)).join
      (.ofText Configuration.fileName) = ⟨before ++ utf8 Configuration.fileName⟩ := hjoin _ hslash
  have hextension : ((directory.join (.ofText Configuration.applicationName)).join
      (.ofText Configuration.fileName)).extension? = some (utf8 "toml") := by
    rw [hpath, Path.extension?, hbefore.fileName?_append hslash (by decide) (by decide)]
    decide
  exact ofPath_of_extension hextension (by decide)

namespace Options

variable {options : Options} {disks : Disks} {host : Host} {files : FileSystem} {c : Configuration}
  {input : Path} {drill : DrillJob}

/-! ### What a run does to files -/

/-- The run makes the programs of a job with a configuration, and puts them in place. -/
structure Places (options : Options) (host : Host) (files : FileSystem) (c : Configuration)
    (input : Path) (drill : DrillJob) : Prop where
  printConfig_eq : options.printConfig = false
  toStdout_eq : options.toStdout = false
  input_eq : options.input = some input
  configuration_eq : (options.configuration host files).result = .ok c
  load_eq : (DrillJob.load files host input).result = .ok drill

theorem Places.run_eq (h : options.Places host files c input drill) (disks : Disks) :
    ∃ events, options.run disks host files =
      (options.runToFiles disks host c input drill files).afterEvents events := by
  refine ⟨(options.configuration host files).events ++ (DrillJob.load files host input).events, ?_⟩
  rw [Options.run_eq, h.configuration_eq]
  dsimp only
  rw [runWith_eq h.printConfig_eq, h.input_eq]
  dsimp only
  rw [h.load_eq, h.toStdout_eq]
  exact Run.afterEvents_afterEvents _ _ _

theorem Places.run_result (h : options.Places host files c input drill) (disks : Disks) :
    (options.run disks host files).outcome.result =
      match (placeAll disks host c.program (options.sinkName input c) drill files).result with
      | .ok paths => .ok paths
      | .error error => .error (.program error) := by
  obtain ⟨events, hrun⟩ := h.run_eq disks
  rw [hrun]
  exact runToFiles_result options disks host c input drill files

theorem Places.run_files (h : options.Places host files c input drill) (disks : Disks) :
    (options.run disks host files).outcome.files =
      (placeAll disks host c.program (options.sinkName input c) drill files).files := by
  obtain ⟨events, hrun⟩ := h.run_eq disks
  rw [hrun]
  exact runToFiles_files options disks host c input drill files

/-- A run that puts no programs in place does nothing to files, has no paths to list, and does not
depend on the disk. -/
theorem run_cases_places (options : Options) (host : Host) (files : FileSystem) :
    (∃ c input drill, options.Places host files c input drill) ∨
      ∃ run : Run, run.outcome.files = files ∧
        (∀ paths, run.outcome.result = .ok paths → paths = []) ∧
        ∀ disks, options.run disks host files = run := by
  have hrun := fun disks => options.run_eq disks host files
  cases hc : (options.configuration host files).result with
  | error cause =>
    rw [hc] at hrun
    exact .inr ⟨.fail files (.settings cause) _, rfl, (fun _ h => by cases h), hrun⟩
  | ok c =>
  rw [hc] at hrun
  dsimp only at hrun
  cases hprint : options.printConfig with
  | true =>
    have hwith : ∀ disks, options.runWith disks host c files = runPrintConfig c files :=
      fun disks => by rw [runWith, hprint, if_pos rfl]
    refine .inr ⟨(runPrintConfig c files).afterEvents (options.configuration host files).events,
      ?_, ?_, fun disks => by rw [hrun, hwith]⟩ <;> unfold runPrintConfig
    · cases c.toText .toml <;> rfl
    · cases c.toText .toml with
      | error e => exact fun _ h => by cases h
      | ok text =>
        intro paths hpaths
        exact (Except.ok.inj hpaths).symm
  | false =>
  have hwith := fun disks => runWith_eq hprint disks host c files
  rcases Option.eq_none_or_eq_some options.input with hinput | ⟨input, hinput⟩
  · rw [hinput] at hwith
    exact .inr ⟨(Run.fail files .inputMissing []).afterEvents _, rfl, (fun _ h => by cases h),
      fun disks => by rw [hrun, hwith]⟩
  rw [hinput] at hwith
  dsimp only at hwith
  cases hdrill : (DrillJob.load files host input).result with
  | error cause =>
    rw [hdrill] at hwith
    exact .inr ⟨(Run.fail files (.job cause) _).afterEvents _, rfl, (fun _ h => by cases h),
      fun disks => by rw [hrun, hwith]⟩
  | ok drill =>
  rw [hdrill] at hwith
  dsimp only at hwith
  cases htoStdout : options.toStdout with
  | false => exact .inl ⟨c, input, drill, hprint, htoStdout, hinput, hc, hdrill⟩
  | true =>
    simp only [htoStdout, if_true] at hwith
    refine .inr ⟨((runToStdout c drill files).afterEvents _).afterEvents _,
      runToStdout_files c drill files, ?_, fun disks => by rw [hrun, hwith]⟩
    intro paths hpaths
    have hresult : (runToStdout c drill files).outcome.result = .ok paths := hpaths
    rw [runToStdout_result] at hresult
    split at hresult
    · exact (Except.ok.inj hresult).symm
    · cases hresult

/-! ### Programs and what was read -/

/-- The directories are what they were, and so is every file that a run may have read. -/
structure KeepsInputs (options : Options) (host : Host) (files final : FileSystem) : Prop where
  isDirectory_eq : ∀ here, final.isDirectory here = files.isDirectory here
  input : ∀ input ∈ options.input, ∀ place content, files.HasFile host input place content →
    final.lookup? place = files.lookup? place
  source : ∀ source format, FileFormat.ofPath source = .ok format → ∀ place content,
    files.HasFile host source place content ∨ final.HasFile host source place content →
      final.lookup? place = files.lookup? place

theorem KeepsInputs.source?_eq {final : FileSystem} (h : options.KeepsInputs host files final) :
    Configuration.source? final host options.config =
      Configuration.source? files host options.config := by
  have hsame : ∀ path ∈ Configuration.userPath? host,
      final.isFileAt host path = files.isFileAt host path := by
    intro path hpath
    rw [Bool.eq_iff_iff, FileSystem.isFileAt_iff, FileSystem.isFileAt_iff]
    have hsource := h.source _ _ (FileFormat.ofPath_userPath hpath)
    constructor
    · rintro ⟨place, content, hfile⟩
      have hplace := hsource place content (.inr hfile)
      exact ⟨place, content, hfile.stay (fun here => (h.isDirectory_eq here).symm) hplace.symm⟩
    · rintro ⟨place, content, hfile⟩
      exact ⟨place, content, hfile.stay h.isDirectory_eq (hsource place content (.inl hfile))⟩
  unfold Configuration.source?
  cases options.config with
  | some path => rfl
  | none =>
    dsimp only
    cases hpath : Configuration.userPath? host with
    | none => rfl
    | some path => rw [Option.filter, Option.filter, hsame path hpath]

theorem KeepsInputs.places {final : FileSystem} (hkeeps : options.KeepsInputs host files final)
    (h : options.Places host files c input drill) :
    options.Places host final c input drill := by
  refine ⟨h.printConfig_eq, h.toStdout_eq, h.input_eq, ?_, ?_⟩
  · obtain ⟨loaded, hloaded, hc⟩ := configuration_eq_ok_iff.1 h.configuration_eq
    refine configuration_eq_ok_iff.2 ⟨loaded, ?_, hc⟩
    unfold IsLoaded at hloaded ⊢
    rw [hkeeps.source?_eq]
    split at hloaded
    · exact hloaded
    · obtain ⟨format, text, hformat, htext, hread⟩ := Configuration.load_eq_ok_iff.1 hloaded
      obtain ⟨place, content, hfile, hcontent⟩ := FileSystem.readText_eq_ok_iff.1 htext
      have hplace := hkeeps.source _ _ hformat place content (.inl hfile)
      have hfile' := hfile.stay hkeeps.isDirectory_eq hplace
      have htext' := FileSystem.readText_eq_ok_iff.2 ⟨place, content, hfile', hcontent⟩
      exact Configuration.load_eq_ok_iff.2 ⟨format, text, hformat, htext', hread⟩
  · obtain ⟨text, htext, hread⟩ := DrillJob.load_eq_ok_iff.1 h.load_eq
    obtain ⟨place, content, hfile, hcontent⟩ := FileSystem.readText_eq_ok_iff.1 htext
    have hplace := hkeeps.input input h.input_eq place content hfile
    have hfile' := hfile.stay hkeeps.isDirectory_eq hplace
    have htext' := FileSystem.readText_eq_ok_iff.2 ⟨place, content, hfile', hcontent⟩
    exact DrillJob.load_eq_ok_iff.2 ⟨text, htext', hread⟩

/-- Programs that are named after the job are put beside what was read. -/
theorem keepsInputs_of_allPlaced {jobs : List ToolJob} {final : FileSystem}
    (houtput : options.output = .none) (hinput : options.input = some input)
    (h : AllPlaced host c.program (options.sinkName input c) jobs files final) :
    options.KeepsInputs host files final := by
  refine ⟨h.isDirectory_eq, ?_, ?_⟩
  · intro input' hinput' place content hfile
    rw [hinput] at hinput'
    cases hinput'
    apply h.lookup?_other
    intro job hjob directory name hleads
    exact target_ne_input houtput hfile hleads
  · intro source format hformat place content hfile
    apply h.lookup?_other
    intro job hjob directory name hleads
    rcases hfile with hfile | hfile
    · exact target_ne_source hformat hfile hleads
    · apply target_ne_source hformat hfile
      exact hleads.mono fun here hhere => (h.isDirectory_eq here).trans hhere

/-- The path is that of the job, or that of the file that the configuration comes from. -/
def Reads (options : Options) (host : Host) (files : FileSystem) (path : Path) : Prop :=
  options.input = some path ∨ Configuration.source? files host options.config = some path

/-- What has been read is a file, and no program is put at its place. -/
theorem Places.exists_hasFile (h : options.Places host files c input drill)
    (houtput : options.output = .none) {path : Path} (hread : options.Reads host files path) :
    ∃ place content, files.HasFile host path place content ∧
      ∀ {diameter : Binary64} {directory : Location} {name : Bytes},
        files.Leads host (programPath (options.sinkName input c) diameter) directory name →
          place ≠ name :: directory := by
  rcases hread with hpath | hpath
  · rw [h.input_eq] at hpath
    cases hpath
    obtain ⟨text, htext, -⟩ := DrillJob.load_eq_ok_iff.1 h.load_eq
    obtain ⟨place, content, hfile, -⟩ := FileSystem.readText_eq_ok_iff.1 htext
    refine ⟨place, content, hfile, ?_⟩
    intro diameter directory name hleads
    exact target_ne_input houtput hfile hleads
  · obtain ⟨loaded, hloaded, -⟩ := configuration_eq_ok_iff.1 h.configuration_eq
    unfold IsLoaded at hloaded
    rw [hpath] at hloaded
    obtain ⟨format, text, hformat, htext, -⟩ := Configuration.load_eq_ok_iff.1 hloaded
    obtain ⟨place, content, hfile, -⟩ := FileSystem.readText_eq_ok_iff.1 htext
    refine ⟨place, content, hfile, ?_⟩
    intro diameter directory name hleads
    exact target_ne_source hformat hfile hleads

/-- Programs that are in place can be put there again, and nothing changes. -/
theorem Places.again {paths : List Path} (h : options.Places host files c input drill)
    (houtput : options.output = .none)
    (hresult : (options.run disks host files).outcome.result = .ok paths) :
    let first := options.run disks host files
    let again := options.run disks.permissive host first.outcome.files
    again.outcome.result = .ok paths ∧
      ∀ here, again.outcome.files.lookup? here = first.outcome.files.lookup? here := by
  intro first again
  have hplaced : (placeAll disks host c.program (options.sinkName input c) drill files).result =
      .ok paths := by
    rw [h.run_result] at hresult
    split at hresult
    · next paths' hpaths =>
      rw [hpaths]
      cases hresult
      rfl
    · cases hresult
  obtain ⟨-, hall⟩ := allPlaced_placeJobs (merges_byDiameter drill).diameters hplaced
  have hfinal : first.outcome.files =
      (placeAll disks host c.program (options.sinkName input c) drill files).files :=
    h.run_files disks
  have hkeeps := keepsInputs_of_allPlaced houtput h.input_eq hall
  have hagain := hkeeps.places h
  obtain ⟨hresult', hfiles'⟩ := placeJobs_again hall.sameRoom hall.isHeld hplaced
  constructor
  · show (options.run disks.permissive host first.outcome.files).outcome.result = .ok paths
    rw [hfinal, placeAll, hagain.run_result, placeAll, hresult']
  · intro here
    show (options.run disks.permissive host first.outcome.files).outcome.files.lookup? here = _
    rw [hfinal, placeAll, hagain.run_files, placeAll, hfiles']

/-- Without a name for its programs a run changes nothing that it reads, and it can be repeated. -/
theorem run_repeatable (options : Options) (disks : Disks) (host : Host) (files : FileSystem)
    (h : options.output = .none) :
    let first := options.run disks host files
    let again := options.run disks.permissive host first.outcome.files
    (∃ programs, Stored host files programs first.outcome.files ∧
      (∀ paths, first.outcome.result = .ok paths → paths = programs.map Prod.fst) ∧
      ∀ p ∈ programs, ∀ path, options.Reads host files path →
        first.outcome.files.resolve host p.1 ≠ files.resolve host path) ∧
    (∀ path, options.Reads host files path →
      first.outcome.files.entry? host path = files.entry? host path) ∧
    ∀ paths, first.outcome.result = .ok paths →
      again.outcome.result = .ok paths ∧
        ∀ here, again.outcome.files.lookup? here = first.outcome.files.lookup? here := by
  intro first again
  rcases options.run_cases_places host files with
    ⟨c, input, drill, hplaces⟩ | ⟨run, hfiles, hpaths, hrun⟩
  · obtain ⟨done, rest, hjobs, hall, hresult⟩ := placeJobs_spec disks host c.program
      (options.sinkName input c) (merges_byDiameter drill).diameters files
    have hfinal : first.outcome.files = (placeJobs disks host c.program (options.sinkName input c)
        drill.byDiameter files).files := hplaces.run_files disks
    rw [← hfinal] at hall
    have hdiameters : done.Pairwise fun a b => a.diameter.equal b.diameter = false := by
      have hdiameters := (merges_byDiameter drill).diameters
      rw [hjobs] at hdiameters
      exact (List.pairwise_append.1 hdiameters).1
    refine ⟨⟨programsOf c.program (options.sinkName input c) done, hall.stored hdiameters, ?_, ?_⟩,
      ?_, fun paths hpaths => hplaces.again h hpaths⟩
    · intro paths hpaths
      have hok : (options.run disks host files).outcome.result = .ok paths := hpaths
      rw [hplaces.run_result, placeAll] at hok
      split at hok
      · next paths' hpaths' =>
        rw [hpaths'] at hresult
        cases hok
        rw [hresult.2, programsOf, List.map_map]
        rfl
      · cases hok
    · intro p hp path hread heq
      obtain ⟨job, hjob, rfl⟩ := List.mem_map.1 hp
      obtain ⟨place, content, hfile, hne⟩ := hplaces.exists_hasFile h hread
      obtain ⟨directory, name, hleads, -⟩ := hall.exists_lookup? job hjob
      rw [hfile.resolve_eq, hall.resolve_eq hjob hleads] at heq
      exact hne hleads (Except.ok.inj heq).symm
    · intro path hread
      obtain ⟨place, content, hfile, hne⟩ := hplaces.exists_hasFile h hread
      apply hfile.entry?_eq hall.isDirectory_eq
      apply hall.lookup?_other
      intro job hjob directory name hleads
      exact hne hleads
  · -- Nothing has changed, and the same run is made again.
    have hfirst : first = run := hrun disks
    have hagain : again = run := by
      show options.run disks.permissive host first.outcome.files = run
      rw [hfirst, hfiles, hrun]
    rw [hagain, hfirst, hfiles]
    refine ⟨⟨[], .nil, hpaths, List.forall_mem_nil _⟩, fun _ _ => rfl, ?_⟩
    intro paths hok
    exact ⟨hok, fun _ => rfl⟩

/-- A job whose name could be that of a program is kept, and its program is made twice. -/
theorem run_repeatable_named_as_program :
    let input := Path.ofText "job_1.5.cnc"
    let host : Host := ⟨[], 0o022, .none, .none, .none⟩
    let files := FileSystem.empty.insert [utf8 "job_1.5.cnc"] (.file 0o644 (utf8 "[[1.5, []]]"))
    let options : Options := { Options.none with input := some input }
    let paths := [Path.ofText "job_1.5_1.5.cnc"]
    let first := options.run .sound host files
    let again := options.run .sound host first.outcome.files
    options.output = .none ∧ first.outcome.result.toOption = some paths ∧
      first.outcome.files.entry? host input = files.entry? host input ∧
      again.outcome.result = .ok paths ∧
      ∀ here, again.outcome.files.lookup? here = first.outcome.files.lookup? here := by
  intro input host files options paths first again
  have houtput : options.output = .none := rfl
  have hinput : options.input = some input := rfl
  have hfirst : (options.run .sound host files).outcome.result.toOption = some paths := by
    decide +kernel
  -- From here on the runs are not to be computed again.
  clear_value options files host
  obtain ⟨-, hkept, hagain⟩ := options.run_repeatable .sound host files houtput
  refine ⟨houtput, hfirst, hkept input (.inl hinput), ?_⟩
  cases hresult : (options.run .sound host files).outcome.result with
  | error error =>
    rw [hresult] at hfirst
    cases hfirst
  | ok listed =>
    rw [hresult] at hfirst
    cases hfirst
    exact hagain _ hresult

end Options

end DrillPost
