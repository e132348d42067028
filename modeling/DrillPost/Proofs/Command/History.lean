import DrillPost.Proofs.Command.Printing
import DrillPost.Proofs.Settings.Saving

/-!
# Histories

A history is any number of operations, one after another: programs are put in place, configurations
are saved and loaded, jobs are loaded, whole runs are made, and each operation may fail at any of
its steps. What is between two operations is always in order (`InOrder`): a file with the name of a
program is a whole program, and no temporary file is left.

An operation changes files in two ways only. A program is put in place, whole, under a name that is
not that of a temporary file (`InOrder.place`), or a configuration is saved, as a whole or in part,
in a file whose name is neither that of a program nor that of a temporary file
(`InOrder.writeFile`). Directories that are made for a saved file are the only entries that can get
the name of a temporary file, and only where the path of that file has the name itself
(`exists_directory_temporaryName`).
-/

namespace DrillPost

/-! ### Operations -/

/-- What can be done with files. -/
inductive Operation where
  | place (disk : Disk) (settings : ProgramSettings) (sinkName : Path) (job : ToolJob)
  | placeAll (disks : Disks) (settings : ProgramSettings) (sinkName : Path) (drill : DrillJob)
  | save (disk : SavingDisk) (c : Configuration) (path : Path)
  | load (path : Path)
  | loadOrStandard (given : Option Path)
  | loadJob (path : Path)
  | run (disks : Disks) (options : Options)

namespace Operation

/-- The files after an operation, whether or not it failed. -/
def after (host : Host) (files : FileSystem) : Operation → FileSystem
  | .place disk settings sinkName job => (Gcode.place disk host settings sinkName job files).files
  | .placeAll disks settings sinkName drill =>
    (Gcode.placeAll disks host settings sinkName drill files).files
  | .save disk c path => (c.saveOn disk files host path).files
  | .load path => (Configuration.loadWithReport files host path).files
  | .loadOrStandard given => (Configuration.loadOrStandard files host given).files
  | .loadJob path => (DrillJob.load files host path).files
  | .run disks options => (options.run disks host files).outcome.files

/-- The path that a configuration is saved to. -/
def savedPath? : Operation → Option Path
  | .save _ _ path => some path
  | _ => none

end Operation

/-- The files after a history; every operation has its own surroundings. -/
def filesAfter (files : FileSystem) (history : List (Host × Operation)) : FileSystem :=
  history.foldl (fun files step => step.2.after step.1 files) files

/-- The paths that configurations were saved to. -/
def savedPaths (history : List (Host × Operation)) : List Path :=
  history.flatMap fun step => step.2.savedPath?.toList

/-- The name is that of a temporary file, whatever stands between its beginning and its end. -/
def IsTemporaryName (name : Bytes) : Prop :=
  ∃ middle, name = utf8 ".snapdrill-" ++ middle ++ utf8 ".tmp"

theorem isTemporaryName_temporaryName (number : Nat) :
    IsTemporaryName (Gcode.temporaryName number) := by
  refine ⟨utf8 (String.ofList (Nat.toDigits 10 (100000 + number))), ?_⟩
  rw [Gcode.temporaryName, utf8_append, utf8_append]

theorem IsTemporaryName.isSuffix {name : Bytes} (h : IsTemporaryName name) :
    utf8 ".tmp" <:+ name := by
  obtain ⟨middle, rfl⟩ := h
  exact List.suffix_append _ _

/-! ### What is always in order -/

variable {saved : List Path} {host : Host} {files : FileSystem}

/-- Programs are whole, and what has the name of a temporary file is a directory that was made for
one of the saved paths. -/
structure InOrder (saved : List Path) (files : FileSystem) : Prop where
  isProgram : ∀ name directory mode content, utf8 ".cnc" <:+ name →
    files.lookup? (name :: directory) = some (.file mode content) → Gcode.IsProgram content
  isDirectory : ∀ name directory entry, IsTemporaryName name →
    files.lookup? (name :: directory) = some entry →
      entry.isDirectory = true ∧ ∃ path ∈ saved, name ∈ path.names

namespace InOrder

theorem mono {saved' : List Path} (h : InOrder saved files) (hsaved : saved ⊆ saved') :
    InOrder saved' files := by
  refine ⟨h.isProgram, ?_⟩
  intro name directory entry htemporary hentry
  obtain ⟨hdirectory, path, hpath, hname⟩ := h.isDirectory name directory entry htemporary hentry
  exact ⟨hdirectory, path, hsaved hpath, hname⟩

/-- One more program is put in place, or it fails and nothing changes. -/
theorem place (h : InOrder saved files) (disk : Disk) (host : Host) (settings : ProgramSettings)
    (sinkName : Path) (job : ToolJob) :
    InOrder saved (Gcode.place disk host settings sinkName job files).files := by
  cases hresult : (Gcode.place disk host settings sinkName job files).result with
  | error error =>
    obtain ⟨hfiles, -⟩ := Gcode.place_eq_error hresult
    rwa [hfiles]
  | ok written =>
    obtain ⟨hfault, rfl, directory, name, hleads, hplaced⟩ := Gcode.place_eq_ok hresult
    obtain ⟨init, last, hends⟩ := Gcode.exists_leads_programPath host sinkName
    obtain ⟨-, hname⟩ := hends hleads
    constructor
    · intro other place mode content hother hlookup
      by_cases hplace : other :: place = name :: directory
      · rw [hplace, hplaced.lookup?_target] at hlookup
        cases hlookup
        exact Gcode.isProgram_document hfault
      · rw [hplaced.lookup?_other _ hplace] at hlookup
        exact h.isProgram other place mode content hother hlookup
    · intro other place entry hother hlookup
      -- The name of a program ends otherwise than that of a temporary file.
      have hplace : other :: place ≠ name :: directory := by
        intro heq
        have htmp := hother.isSuffix
        rw [(List.cons.inj heq).1, hname] at htmp
        exact Gcode.not_isSuffix_tmp last job.diameter htmp
      rw [hplaced.lookup?_other _ hplace] at hlookup
      exact h.isDirectory other place entry hother hlookup

theorem placeJobs (h : InOrder saved files) (disks : Disks) (host : Host)
    (settings : ProgramSettings) (sinkName : Path) (jobs : List ToolJob) :
    InOrder saved (Gcode.placeJobs disks host settings sinkName jobs files).files := by
  induction jobs generalizing disks files with
  | nil => exact h
  | cons job jobs ih =>
    have hplace := h.place (disks 0) host settings sinkName job
    rw [Gcode.placeJobs, Outcome.andThen]
    cases (Gcode.place (disks 0) host settings sinkName job files).result with
    | error error => exact hplace
    | ok written => exact ih hplace (disks.after 1)

/-- A run puts programs in place or changes nothing. -/
theorem run (h : InOrder saved files) (disks : Disks) (host : Host) (options : Options) :
    InOrder saved (options.run disks host files).outcome.files := by
  cases hprint : options.printConfig with
  | true => rwa [Options.files_run_printConfig hprint]
  | false =>
    rcases options.run_cases disks host files hprint with
      ⟨error, events, hrun⟩ | ⟨c, input, drill, events, hrun⟩
    · have heq : options.run disks host files = .fail files error events := hrun options.toStdout
      rwa [heq]
    · have heq : options.run disks host files =
          (if options.toStdout then Options.runToStdout c drill files
            else options.runToFiles disks host c input drill files).afterEvents events :=
        hrun options.toStdout
      rw [heq]
      cases options.toStdout with
      | true =>
        show InOrder saved (Options.runToStdout c drill files).outcome.files
        rwa [Options.runToStdout_files]
      | false =>
        show InOrder saved (options.runToFiles disks host c input drill files).outcome.files
        rw [Options.runToFiles_files]
        exact h.placeJobs disks host c.program (options.sinkName input c) drill.byDiameter

/-- Directories are no programs, and their names are names of the path they are made for. -/
theorem moreDirectories {made : FileSystem} {path : Path} (h : InOrder saved files)
    (hmade : files.MoreDirectories path.names made) : InOrder (path :: saved) made := by
  constructor
  · intro name directory mode content hname hlookup
    rcases hmade (name :: directory) with heq | ⟨-, name', directory', mode', -, -, hdirectory⟩
    · rw [heq] at hlookup
      exact h.isProgram name directory mode content hname hlookup
    · rw [hdirectory] at hlookup
      cases hlookup
  · intro name directory entry htemporary hlookup
    rcases hmade (name :: directory) with heq | ⟨-, name', directory', mode', hplace, hmem, hdir⟩
    · rw [heq] at hlookup
      exact (h.mono (List.subset_cons_self path saved)).isDirectory name directory entry htemporary
        hlookup
    · rw [hdir] at hlookup
      cases hlookup
      obtain ⟨rfl, -⟩ := List.cons.inj hplace
      exact ⟨rfl, path, List.mem_cons_self, hmem⟩

/-- A saved configuration, or a part of one, has the name of no program and of no temporary
file. -/
theorem writeFile {written : FileSystem} {path : Path} {format : FileFormat} {content : Bytes}
    (h : InOrder saved files) (hformat : FileFormat.ofPath path = .ok format)
    (hwrite : files.writeFile host path content = .ok written) : InOrder saved written := by
  obtain ⟨directory, name, mode, hleads, -, -, rfl⟩ := FileSystem.writeFile_eq_ok hwrite
  constructor
  · intro other place mode' content' hother hlookup
    have hplace : other :: place ≠ name :: directory := by
      intro hplace
      rw [(List.cons.inj hplace).1] at hother
      exact FileFormat.not_isSuffix hformat hleads "cnc" (by decide) (by cases format <;> decide)
        hother
    rw [FileSystem.lookup?_insert_of_ne hplace] at hlookup
    exact h.isProgram other place mode' content' hother hlookup
  · intro other place entry hother hlookup
    have hplace : other :: place ≠ name :: directory := by
      intro hplace
      have htmp := hother.isSuffix
      rw [(List.cons.inj hplace).1] at htmp
      exact FileFormat.not_isSuffix hformat hleads "tmp" (by decide) (by cases format <;> decide)
        htmp
    rw [FileSystem.lookup?_insert_of_ne hplace] at hlookup
    exact h.isDirectory other place entry hother hlookup

/-- Saving makes directories, and where it gets so far it writes a file. -/
theorem save (h : InOrder saved files) (disk : SavingDisk) (host : Host) (c : Configuration)
    (path : Path) : InOrder (path :: saved) (c.saveOn disk files host path).files := by
  have hspec := c.saveOn_spec disk files host path
  cases hsaved : c.savedText path with
  | error fault =>
    rw [hsaved] at hspec
    rw [hspec]
    exact h.moreDirectories (.refl files path.names)
  | ok text =>
    obtain ⟨-, format, hformat, -⟩ := Configuration.savedText_eq_ok hsaved
    rw [hsaved] at hspec
    obtain ⟨made, hmakes, hwrites⟩ := hspec
    have hmade := h.moreDirectories (hmakes.moreDirectories fun q hq => hq.names.subset)
    generalize c.saveOn disk files host path = o at hwrites ⊢
    cases hwrites with
    | noDirectory => exact hmade
    | noFile => exact hmade
    | part _ _ hwrite => exact hmade.writeFile hformat hwrite
    | whole hwrite => exact hmade.writeFile hformat hwrite

/-- What one operation keeps in order. -/
theorem after (h : InOrder saved files) (host : Host) (operation : Operation) :
    InOrder (operation.savedPath?.toList ++ saved) (operation.after host files) := by
  cases operation with
  | place disk settings sinkName job => exact h.place disk host settings sinkName job
  | placeAll disks settings sinkName drill =>
    exact h.placeJobs disks host settings sinkName drill.byDiameter
  | save disk c path => exact h.save disk host c path
  | load path =>
    rw [Operation.after, Configuration.files_loadWithReport]
    exact h
  | loadOrStandard given =>
    rw [Operation.after, Configuration.files_loadOrStandard]
    exact h
  | loadJob path =>
    rw [Operation.after, DrillJob.files_load]
    exact h
  | run disks options => exact h.run disks host options

end InOrder

/-- What a whole history keeps in order. -/
theorem InOrder.filesAfter (h : InOrder saved files) (history : List (Host × Operation)) :
    InOrder (savedPaths history ++ saved) (filesAfter files history) := by
  induction history generalizing saved files with
  | nil => exact h
  | cons step history ih =>
    have hnext := ih (h.after step.1 step.2)
    apply hnext.mono
    rw [savedPaths, savedPaths, List.flatMap_cons]
    intro path hpath
    simp only [List.mem_append] at hpath ⊢
    rcases hpath with hlater | hfirst | hbefore
    · exact .inl (.inr hlater)
    · exact .inl (.inl hfirst)
    · exact .inr hbefore

theorem lookup?_empty_cons (name : Bytes) (directory : Location) :
    FileSystem.empty.lookup? (name :: directory) = none := rfl

/-- Whatever is done to files without programs and temporary files, what is there at any time is in
order. -/
theorem inOrder_filesAfter (files : FileSystem)
    (hprograms : ∀ name directory entry, utf8 ".cnc" <:+ name →
      files.lookup? (name :: directory) = some entry → entry.isDirectory = true)
    (htemporary : ∀ name directory, IsTemporaryName name →
      files.lookup? (name :: directory) = none) (history : List (Host × Operation)) :
    InOrder (savedPaths history) (filesAfter files history) := by
  have hstart : InOrder [] files := by
    constructor
    · intro name directory mode content hname hlookup
      cases hprograms name directory _ hname hlookup
    · intro name directory entry hname hlookup
      rw [htemporary name directory hname] at hlookup
      cases hlookup
  have hend := hstart.filesAfter history
  rwa [List.append_nil] at hend

/-- A configuration is saved, a program cannot be put in a directory that is missing, and another
one is put beside the configuration. -/
theorem inOrder_filesAfter_three_operations :
    let host : Host := ⟨[], 0o022, none, none, none⟩
    let history : List (Host × Operation) :=
      [(host, .save .sound .standard (.ofText "settings/tool.toml")),
        (host, .place .sound .standard (.ofText "missing/job") ⟨.ofNat 1, []⟩),
        (host, .place .sound .standard (.ofText "settings/job") ⟨.ofNat 1, []⟩)]
    let files := filesAfter .empty history
    (∀ name directory, FileSystem.empty.lookup? (name :: directory) = none) ∧
      (∃ mode content, files.lookup? [utf8 "job_1.cnc", utf8 "settings"] =
        some (.file mode content) ∧ Gcode.IsProgram content) ∧
      ∀ name directory, IsTemporaryName name → files.lookup? (name :: directory) = none := by
  intro host history files
  have hplaced : (files.lookup? [utf8 "job_1.cnc", utf8 "settings"]).any (!·.isDirectory) = true :=
    by decide +kernel
  have horder : InOrder (savedPaths history) files := by
    apply inOrder_filesAfter
    · intro name directory entry _ hlookup
      rw [lookup?_empty_cons] at hlookup
      cases hlookup
    · intro name directory _
      exact lookup?_empty_cons name directory
  have hsaved : savedPaths history = [.ofText "settings/tool.toml"] := rfl
  -- From here on the files are not to be computed again.
  clear_value files
  rw [hsaved] at horder
  refine ⟨lookup?_empty_cons, ?_, ?_⟩
  · cases hentry : files.lookup? [utf8 "job_1.cnc", utf8 "settings"] with
    | none =>
      rw [hentry] at hplaced
      cases hplaced
    | some entry =>
      cases entry with
      | directory mode =>
        rw [hentry] at hplaced
        cases hplaced
      | file mode content =>
        have hprogram := horder.isProgram _ _ mode content (by decide) hentry
        exact ⟨mode, content, rfl, hprogram⟩
  · intro name directory htemporary
    cases hlookup : files.lookup? (name :: directory) with
    | none => rfl
    | some entry =>
      obtain ⟨-, path, hpath, hname⟩ := horder.isDirectory name directory entry htemporary hlookup
      rw [List.mem_singleton.1 hpath] at hname
      have hends : ∀ name ∈ (Path.ofText "settings/tool.toml").names, ¬ utf8 ".tmp" <:+ name := by
        decide
      exact absurd htemporary.isSuffix (hends name hname)

/-- The directories for a saved file have the names that its path gives them, also that of a
temporary file. -/
theorem exists_directory_temporaryName :
    let host : Host := ⟨[], 0o022, none, none, none⟩
    let history : List (Host × Operation) :=
      [(host, .save .sound .standard (.ofText ".snapdrill-a.tmp/c.json"))]
    (∀ name directory, FileSystem.empty.lookup? (name :: directory) = none) ∧
      IsTemporaryName (utf8 ".snapdrill-a.tmp") ∧
      (filesAfter .empty history).lookup? [utf8 ".snapdrill-a.tmp"] = some (.directory 0o755) := by
  intro host history
  have hmade : (filesAfter .empty history).lookup? [utf8 ".snapdrill-a.tmp"] =
      some (.directory 0o755) := by decide +kernel
  exact ⟨lookup?_empty_cons, ⟨utf8 "a", by decide⟩, hmade⟩

end DrillPost
