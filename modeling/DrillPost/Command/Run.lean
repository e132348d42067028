import DrillPost.Command.Options
import DrillPost.Gcode.Placement
import DrillPost.Job.File
import DrillPost.Settings.File

/-!
# Runs

A run takes options to their end: it finds the configuration, puts the values of the options over it
and checks it, then prints it, or loads the job and makes one program for each diameter. Programs
are printed or put in place; a run that fails has printed, or put in place, the programs before the
failure.
-/

namespace DrillPost

/-- Why a run failed. -/
inductive RunError where
  | settings (cause : SettingsError)
  | job (cause : JobFileError)
  | program (cause : ProgramError)
  | inputMissing

/-- What lies behind the failure. -/
def ProgramError.cause : ProgramError → String
  | .settings fault => fault.message
  | .job fault => fault.message
  | .destination _ cause => cause.message
  | .stream cause => cause.message

namespace RunError

def message : RunError → String
  | .settings cause => cause.message
  | .job cause => cause.message
  | .program cause => cause.message
  | .inputMissing => "No input file given"

/-- What lies behind the failure. -/
def cause? : RunError → Option String
  | .settings cause => cause.cause?
  | .job cause => some cause.cause
  | .program cause => some cause.cause
  | .inputMissing => none

end RunError

/-- What came of a run: the paths of the programs that are in place, and the text that was printed.
-/
structure Run where
  outcome : Outcome RunError (List Path)
  printed : String

namespace Run

/-- The same run, after other events. -/
def afterEvents (events : List Event) (r : Run) : Run :=
  { r with outcome := r.outcome.afterEvents events }

/-- The run failed and printed nothing. -/
def fail (files : FileSystem) (error : RunError) (events : List Event) : Run :=
  ⟨.fail files error events, ""⟩

/-- The run of a step and of what is done with its value. -/
def after {ε α : Type} (step : Outcome ε α) (toError : ε → RunError)
    (next : α → FileSystem → Run) : Run :=
  match step.result with
  | .error e => fail step.files (toError e) step.events
  | .ok value => (next value step.files).afterEvents step.events

end Run

/-! ### Printed programs -/

/-- What came of printing programs. -/
structure Printed where
  result : Except ProgramError Unit
  text : String
  events : List Event

namespace Gcode

/-- Prints programs one after another, up to the first that cannot be made. -/
def printJobs (settings : ProgramSettings) : List ToolJob → Printed
  | [] => ⟨.ok (), "", []⟩
  | job :: jobs =>
    match program settings job with
    | .error e => ⟨.error e, "", []⟩
    | .ok text =>
      let rest := printJobs settings jobs
      ⟨rest.result, text ++ rest.text, programEvents settings job ++ rest.events⟩

end Gcode

/-! ### The run -/

namespace Options

def reporter : String := "snapdrill::cli"

/-- What is reported when all programs are in place. -/
def generatedEvent (paths : List Path) (input : Path) : Event :=
  ⟨.info, reporter, s!"Generated {paths.length} programs from " ++ input.display⟩

/-- The configuration that is in effect: the one that counts, with the values that are given for
this run. It has to be fit for use before and after. -/
def configuration (options : Options) (host : Host) (files : FileSystem) :
    Outcome SettingsError Configuration :=
  (Configuration.loadOrStandard files host options.config).andThen fun loaded files =>
    let c := loaded.override options.overrides
    match c.validate with
    | .error e => .fail files e []
    | .ok () => .ok files c []

def runPrintConfig (c : Configuration) (files : FileSystem) : Run :=
  match c.toText .toml with
  | .error e => .fail files (.settings e) []
  | .ok text => ⟨.ok files [] [], text⟩

def runToStdout (c : Configuration) (drill : DrillJob) (files : FileSystem) : Run :=
  let p := Gcode.printJobs c.program drill.byDiameter
  match p.result with
  | .error e => ⟨.fail files (.program e) p.events, p.text⟩
  | .ok () => ⟨.ok files [] p.events, p.text⟩

/-- Puts the programs of a job in place. -/
def runToFiles (options : Options) (disks : Disks) (host : Host) (c : Configuration) (input : Path)
    (drill : DrillJob) (files : FileSystem) : Run :=
  let sinkName := options.sinkName input c
  ⟨((Gcode.placeAll disks host c.program sinkName drill files).mapError .program).andThen
    fun paths files => .ok files paths [generatedEvent paths input], ""⟩

/-- Does with a configuration what the options ask for. -/
def runWith (options : Options) (disks : Disks) (host : Host) (c : Configuration)
    (files : FileSystem) : Run :=
  if options.printConfig then runPrintConfig c files
  else
    match options.input with
    | .none => .fail files .inputMissing []
    | some input =>
      .after (DrillJob.load files host input) .job fun drill files =>
        if options.toStdout then runToStdout c drill files
        else options.runToFiles disks host c input drill files

def run (options : Options) (disks : Disks) (host : Host) (files : FileSystem) : Run :=
  .after (options.configuration host files) .settings (options.runWith disks host)

end Options

end DrillPost
