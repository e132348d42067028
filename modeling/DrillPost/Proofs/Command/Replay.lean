import DrillPost.Proofs.Command.Printing
import DrillPost.Proofs.Command.SinkName
import DrillPost.Proofs.Gcode.Beside
import DrillPost.Proofs.Settings.Toml

/-!
# Runs from a printed configuration

The text of a configuration that a run prints can take the place of all that the configuration came
from: stored in a file and given by the path of the file, without any other values, it is the same
configuration again, and the same comes of the run (`Options.run_replay`).

The file has a name of its own (`Options.IsApart`), so nothing else that the run does leads through
it. From there on the run is the same run on two file systems that differ in the place of the file
only (`Options.runWith_beside`).
-/

namespace DrillPost

open Gcode

variable {disks : Disks} {host : Host} {files files' : FileSystem} {c : Configuration}
  {options : Options} {name : Bytes} {directory : Location} {entry : Entry}

/-- The same came of two runs, and the files are the same but for one place. -/
structure Run.Beside (place : Location) (entry : Entry) (r r' : Run) : Prop where
  outcome : Outcome.Beside place entry r.outcome r'.outcome
  printed_eq : r'.printed = r.printed

theorem Run.Beside.afterEvents {place : Location} {r r' : Run} (h : Beside place entry r r')
    (events events' : List Event) :
    Beside place entry (r.afterEvents events) (r'.afterEvents events') :=
  ⟨⟨h.outcome.result_eq, h.outcome.files⟩, h.printed_eq⟩

namespace Options

/-! ### The printed configuration -/

/-- What is printed is the text of the configuration in effect. -/
theorem run_printConfig_eq_ok {listed : List Path} (h : options.printConfig = true)
    (hresult : (options.run disks host files).outcome.result = .ok listed) :
    ∃ c, (options.configuration host files).result = .ok c ∧
      c.toToml? = some (options.run disks host files).printed ∧ listed = [] := by
  rw [run_eq] at hresult ⊢
  cases hc : (options.configuration host files).result with
  | error cause =>
    rw [hc] at hresult
    cases hresult
  | ok c =>
    have hwith : options.runWith disks host c files = runPrintConfig c files := by
      rw [runWith, h, if_pos rfl]
    rw [hc] at hresult
    dsimp only at hresult ⊢
    rw [hwith] at hresult ⊢
    refine ⟨c, rfl, ?_⟩
    unfold runPrintConfig Configuration.toText at hresult ⊢
    cases htext : c.toToml? with
    | none =>
      rw [htext] at hresult
      cases hresult
    | some text =>
      rw [htext] at hresult
      cases hresult
      exact ⟨rfl, rfl⟩

/-- What was printed, stored in a file, is the configuration again. -/
theorem configuration_stored {stored : FileSystem} {path : Path} {text : String}
    (hc : (options.configuration host files).result = .ok c) (htext : c.toToml? = some text)
    (hformat : FileFormat.ofPath path = .ok .toml)
    (hstored : files.writeFile host path (utf8 text) = .ok stored) :
    (({ options with config := some path, overrides := .none } : Options).configuration host
      stored).result = .ok c := by
  obtain ⟨loaded, -, -, hvalid⟩ := configuration_eq_ok_iff.1 hc
  have hread : stored.readText host path = .ok text := by
    rw [FileSystem.readText, FileSystem.readFile_writeFile hstored]
    dsimp only
    rw [ofUtf8?_utf8]
  have hofText : Configuration.ofText .toml text = .ok c := by
    rw [Configuration.ofText, Configuration.ofToml_of_toToml? hvalid htext]
  have hload : Configuration.load stored host path = .ok c :=
    Configuration.load_eq_ok_iff.2 ⟨.toml, text, hformat, hread, hofText, hvalid⟩
  exact configuration_eq_ok_iff.2 ⟨c, hload, rfl, hvalid⟩

/-! ### A name of its own -/

/-- No path that a run follows goes through the name. -/
structure IsApart (options : Options) (host : Host) (files : FileSystem) (name : Bytes) : Prop where
  input : ∀ input ∈ options.input, name ∉ input.names
  output : ∀ output ∈ options.output, name ∉ output.names
  directory : ∀ c, (options.configuration host files).result = .ok c →
    ∀ directory ∈ c.output.directory, name ∉ directory.names

theorem not_mem_names_programPath {sinkName : Path} {diameter : Binary64}
    (hcnc : ¬ utf8 ".cnc" <:+ name) {before stem : Bytes} (hbefore : Path.BeginsPiece before)
    (hslash : slash ∉ stem) (hfront : name ∉ (Path.mk before).names)
    (hsink : sinkName = ⟨before ++ stem⟩) :
    name ∉ (programPath sinkName diameter).names := by
  rw [hsink, names_programPath hbefore hslash, List.mem_append, List.mem_singleton, not_or]
  refine ⟨hfront, ?_⟩
  rintro rfl
  exact hcnc ((isSuffix_pathEnding diameter).trans (List.suffix_append _ _))

theorem not_mem_names_programPath_of_not_mem {sinkName : Path} {diameter : Binary64}
    (hcnc : ¬ utf8 ".cnc" <:+ name) (hsink : name ∉ sinkName.names) :
    name ∉ (programPath sinkName diameter).names := by
  obtain ⟨before, last, hbytes, hbefore, hslash⟩ := Path.exists_lastPiece sinkName.bytes
  have heq : sinkName = ⟨before ++ last⟩ := by rw [← hbytes]
  apply not_mem_names_programPath hcnc hbefore hslash _ heq
  by_cases hlast : last = []
  · rw [heq, hlast, List.append_nil] at hsink
    exact hsink
  · rw [heq, hbefore.names_append hslash hlast, List.mem_append, not_or] at hsink
    exact hsink.1

/-- No path of a program goes through a name that no other path goes through. -/
theorem not_mem_names_sinkName {input : Path} {place : Location} {content : Bytes}
    {diameter : Binary64} (hcnc : ¬ utf8 ".cnc" <:+ name)
    (houtput : ∀ output ∈ options.output, name ∉ output.names) (hinput : name ∉ input.names)
    (hdirectory : ∀ directory ∈ c.output.directory, name ∉ directory.names)
    (hfile : files.HasFile host input place content) :
    name ∉ (programPath (options.sinkName input c) diameter).names := by
  cases hgiven : options.output with
  | some output =>
    rw [sinkName, hgiven]
    exact not_mem_names_programPath_of_not_mem hcnc (houtput output hgiven)
  | none =>
    obtain ⟨inner, last, -, hleads⟩ | ⟨before, inner, rfl, hbefore, -⟩ := hfile.leads_or_dots
    · obtain ⟨before, hbefore, rfl, hslash, hne⟩ := hleads.exists_append
      obtain ⟨front, stem, rest, hsink, hfront, hstem, -, -, hnames⟩ :=
        options.exists_sinkName hgiven hbefore hslash hne hleads.isDots_eq c
      rw [hbefore.names_append hslash hne, List.mem_append, not_or] at hinput
      apply not_mem_names_programPath hcnc hfront hstem _ hsink
      rcases hnames with hnames | ⟨directory, hmem, hnames⟩
      · rw [hnames]
        exact hinput.1
      · rw [hnames]
        exact hdirectory directory hmem
    · rw [sinkName_dots hgiven hbefore]
      exact not_mem_names_programPath_of_not_mem hcnc hinput

/-! ### The same run -/

theorem load_result_eq {input : Path} (hfiles : files.Beside (name :: directory) entry files')
    (hhost : ¬ name :: directory <:+ host.workingDirectory) (hinput : name ∉ input.names) :
    (DrillJob.load files' host input).result = (DrillJob.load files host input).result := by
  unfold DrillJob.load
  rw [hfiles.readText_eq hhost hinput]
  cases files.readText host input with
  | error cause => rfl
  | ok text =>
    dsimp only
    cases DrillJob.ofJson text <;> rfl

/-- With the same configuration the same comes of a run beside a file with a name of its own. -/
theorem runWith_beside (options : Options) (disks : Disks)
    (hfiles : files.Beside (name :: directory) entry files')
    (hhost : ¬ name :: directory <:+ host.workingDirectory) (hdots : isDots name = false)
    (hcnc : ¬ utf8 ".cnc" <:+ name) (htmp : ¬ utf8 ".tmp" <:+ name)
    (hapart : options.IsApart host files name)
    (hc : (options.configuration host files).result = .ok c) :
    Run.Beside (name :: directory) entry (options.runWith disks host c files)
      (options.runWith disks host c files') := by
  cases hprint : options.printConfig with
  | true =>
    rw [runWith, runWith, hprint, if_pos rfl, if_pos rfl]
    unfold runPrintConfig
    cases c.toText .toml <;> exact ⟨⟨rfl, hfiles⟩, rfl⟩
  | false =>
  rw [runWith_eq hprint, runWith_eq hprint]
  cases hinput : options.input with
  | none => exact ⟨⟨rfl, hfiles⟩, rfl⟩
  | some input =>
  have hname : name ∉ input.names := hapart.input input hinput
  dsimp only
  rw [load_result_eq hfiles hhost hname]
  cases hdrill : (DrillJob.load files host input).result with
  | error cause => exact ⟨⟨rfl, hfiles⟩, rfl⟩
  | ok drill =>
  obtain ⟨text, htext, -⟩ := DrillJob.load_eq_ok_iff.1 hdrill
  obtain ⟨place, content, hfile, -⟩ := FileSystem.readText_eq_ok_iff.1 htext
  apply Run.Beside.afterEvents
  cases options.toStdout with
  | true =>
    refine ⟨⟨?_, ?_⟩, ?_⟩ <;> simp only [if_true]
    · rw [runToStdout_result, runToStdout_result]
    · rw [runToStdout_files, runToStdout_files]
      exact hfiles
    · rw [runToStdout_printed, runToStdout_printed]
  | false =>
    have haside : ∀ diameter : Binary64, diameter.isFinite = true →
        IsAside host (programPath (options.sinkName input c) diameter) name directory := by
      intro diameter _
      refine ⟨hhost, hdots, htmp, ?_⟩
      exact not_mem_names_sinkName hcnc hapart.output hname (hapart.directory c hc) hfile
    have hplaced := placeJobs_beside disks c.program drill.byDiameter haside hfiles
    refine ⟨⟨?_, ?_⟩, rfl⟩ <;> simp only [Bool.false_eq_true, if_false]
    · rw [runToFiles_result, runToFiles_result, placeAll, placeAll, hplaced.result_eq]
    · rw [runToFiles_files, runToFiles_files]
      exact hplaced.files

/-- The same run on two file systems, from configurations that are the same. -/
theorem run_beside {options' : Options} (disks : Disks)
    (hsame : ∀ fs, options'.runWith disks host c fs = options.runWith disks host c fs)
    (hc : (options.configuration host files).result = .ok c)
    (hc' : (options'.configuration host files').result = .ok c)
    (hwith : Run.Beside (name :: directory) entry (options.runWith disks host c files)
      (options.runWith disks host c files')) :
    Run.Beside (name :: directory) entry (options.run disks host files)
      (options'.run disks host files') := by
  rw [run_eq, run_eq, hc, hc']
  dsimp only
  rw [hsame]
  exact hwith.afterEvents _ _

/-- A printed configuration that is stored in a file with a name of its own takes the place of all
that it came from: the run does the same with it, and prints it again. -/
theorem run_replay (options : Options) (disks : Disks) (host : Host) (files stored : FileSystem)
    (path : Path) {name : Bytes} {listed : List Path}
    (hprinted : (({ options with printConfig := true } : Options).run disks host
      files).outcome.result = .ok listed)
    (hformat : FileFormat.ofPath path = .ok .toml) (hname : path.fileName? = some name)
    (hapart : options.IsApart host files name)
    (hstored : files.writeFile host path (utf8 (({ options with printConfig := true } : Options).run
      disks host files).printed) = .ok stored)
    (hplace : ∀ place, stored.resolve host path = .ok place →
      ¬ place <:+ host.workingDirectory) :
    let printing := ({ options with printConfig := true } : Options).run disks host files
    let replay : Options := { options with config := some path, overrides := .none }
    (∀ toStdout,
      let original :=
        ({ options with printConfig := false, toStdout } : Options).run disks host files
      let again := ({ replay with printConfig := false, toStdout } : Options).run disks host stored
      again.outcome.result = original.outcome.result ∧ again.printed = original.printed ∧
        ∀ here, again.outcome.files.lookup? here =
          if stored.resolve host path = .ok here then stored.lookup? here
          else original.outcome.files.lookup? here) ∧
    let again := ({ replay with printConfig := true } : Options).run disks host stored
    again.outcome.result = .ok [] ∧ again.printed = printing.printed ∧
      again.outcome.files = stored := by
  intro printing replay
  obtain ⟨c, hc, htext, rfl⟩ := run_printConfig_eq_ok rfl hprinted
  have hc : (options.configuration host files).result = .ok c := hc
  have hreplay := configuration_stored hc htext hformat hstored
  obtain ⟨directory, last, mode, hleads, hfile, -, rfl⟩ := FileSystem.writeFile_eq_ok hstored
  obtain rfl := hleads.eq_fileName? hname
  have hcnc : ¬ utf8 ".cnc" <:+ last :=
    FileFormat.not_isSuffix hformat hleads "cnc" (by decide) (by decide)
  have htmp : ¬ utf8 ".tmp" <:+ last :=
    FileFormat.not_isSuffix hformat hleads "tmp" (by decide) (by decide)
  generalize hentry : Entry.file mode (utf8 printing.printed) = entry at *
  have hbeside : files.Beside (last :: directory) entry (files.insert (last :: directory) entry) :=
    fun here => FileSystem.lookup?_insert files (last :: directory) here entry
  have hlookup := FileSystem.lookup?_insert_self files (last :: directory) entry
  have hresolve :
      (files.insert (last :: directory) entry).resolve host path = .ok (last :: directory) := by
    apply FileSystem.Leads.resolve_eq_ok (hleads.mono fun here hhere => ?_) hlookup
    rw [← hentry, FileSystem.isDirectory_insert_file hfile]
    exact hhere
  have hrun : ∀ printConfig toStdout, Run.Beside (last :: directory) entry
      (({ options with printConfig, toStdout } : Options).run disks host files)
      (({ replay with printConfig, toStdout } : Options).run disks host
        (files.insert (last :: directory) entry)) := by
    intro printConfig toStdout
    have happart : ({ options with printConfig, toStdout } : Options).IsApart host files last :=
      ⟨hapart.input, hapart.output, hapart.directory⟩
    exact run_beside disks (fun _ => rfl) hc hreplay (runWith_beside _ disks hbeside
      (hplace _ hresolve) hleads.isDots_eq hcnc htmp happart hc)
  refine ⟨fun toStdout => ?_, ?_⟩
  · have hsame := hrun false toStdout
    refine ⟨hsame.outcome.result_eq, hsame.printed_eq, fun here => ?_⟩
    rw [hsame.outcome.files here, hresolve]
    by_cases hhere : here = last :: directory
    · rw [if_pos hhere, if_pos (by rw [hhere]), hhere, hlookup]
    · rw [if_neg hhere, if_neg fun heq => hhere (Except.ok.inj heq).symm]
  · have hsame := hrun true options.toStdout
    exact ⟨hsame.outcome.result_eq.trans hprinted, hsame.printed_eq,
      files_run_printConfig rfl disks host _⟩

/-- A configuration in JSON and a value that replaces one of its settings, printed and stored. -/
theorem run_replay_json :
    let host : Host := ⟨[], 0o022, .none, .none, .none⟩
    let settings := "\x7b\"output\": \x7b\"directory\": \"out\"\x7d\x7d"
    let files := ((FileSystem.empty.insert [utf8 "out"] (.directory 0o755)).insert [utf8 "drill.json"]
      (.file 0o644 (utf8 settings))).insert [utf8 "job"] (.file 0o644 (utf8 "[[1.5, []]]"))
    let options : Options := { Options.none with
      input := some (.ofText "job")
      config := some (.ofText "drill.json")
      overrides := ⟨some 80, .none, .none⟩ }
    let path := Path.ofText "replay.toml"
    let printing := ({ options with printConfig := true } : Options).run .sound host files
    let text := "[encoder]\nspindle_power = 80\nsafe_height = 25.0\ndrill_depth = 2.0\n\n" ++
      "[output]\ndirectory = \"out\"\n"
    let stored := files.insert [utf8 "replay.toml"] (.file 0o644 (utf8 text))
    let replay : Options := { options with config := some path, overrides := .none }
    let original :=
      ({ options with printConfig := false, toStdout := false } : Options).run .sound host files
    let again :=
      ({ replay with printConfig := false, toStdout := false } : Options).run .sound host stored
    printing.outcome.result.toOption = some [] ∧ printing.printed = text ∧
      files.writeFile host path (utf8 text) = .ok stored ∧
      original.outcome.result.toOption = some [.ofText "out/job_1.5.cnc"] ∧
      again.outcome.result = original.outcome.result ∧
      (({ replay with printConfig := true } : Options).run .sound host stored).printed = text := by
  intro host settings files options path printing text stored replay original again
  have hprinted : printing.outcome.result.toOption = some [] := by decide +kernel
  have htext : printing.printed = text := by decide +kernel
  have hstored : files.writeFile host path (utf8 text) = .ok stored := by decide +kernel
  have hresolve : stored.resolve host path = .ok [utf8 "replay.toml"] := by decide +kernel
  have hplaced : original.outcome.result.toOption = some [.ofText "out/job_1.5.cnc"] := by
    decide +kernel
  have hdirectory : (options.configuration host files).result.toOption.bind (·.output.directory) =
      some (.ofText "out") := by decide +kernel
  have hformat : FileFormat.ofPath path = .ok .toml := by decide +kernel
  have hname : path.fileName? = some (utf8 "replay.toml") := by decide +kernel
  have hapart : options.IsApart host files (utf8 "replay.toml") := by
    refine ⟨?_, nofun, ?_⟩
    · intro input hinput
      rw [← Option.some.inj hinput]
      decide
    · intro c hc directory hmem
      rw [hc] at hdirectory
      obtain rfl := Option.some.inj (hmem.symm.trans hdirectory)
      decide
  have hplace : ∀ place, stored.resolve host path = .ok place →
      ¬ place <:+ host.workingDirectory := by
    intro place hresolved
    rw [hresolve] at hresolved
    cases hresolved
    decide
  -- From here on the runs are not to be computed again.
  clear_value stored text options files host path
  have hok : printing.outcome.result = .ok [] := by
    cases hresult : printing.outcome.result with
    | error error =>
      rw [hresult] at hprinted
      cases hprinted
    | ok listed =>
      rw [hresult] at hprinted
      cases hprinted
      rfl
  rw [← htext] at hstored
  have hreplay := options.run_replay .sound host files stored path hok hformat hname hapart
    hstored hplace
  rw [htext] at hstored
  exact ⟨hprinted, htext, hstored, hplaced, (hreplay.1 false).1, hreplay.2.2.1.trans htext⟩

end Options

end DrillPost
