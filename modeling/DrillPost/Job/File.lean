import DrillPost.Files.Operations
import DrillPost.Files.Outcome
import DrillPost.Job.Json

/-!
# Job files

A drill job is loaded from a JSON file; what is wrong with the jobs in it shows only when their
programs are made.
-/

namespace DrillPost

/-- Why there is no job. -/
inductive JobFileError where
  | unreadable (path : Path) (cause : IoError)
  | malformed (path : Path) (cause : Json.Error)

namespace JobFileError

def message : JobFileError → String
  | .unreadable path _ => "Failed to read job file " ++ path.display
  | .malformed path _ => "Invalid job file " ++ path.display

def cause : JobFileError → String
  | .unreadable _ cause => cause.message
  | .malformed _ cause => cause.message

end JobFileError

namespace DrillJob

/-- The name by which the loading of jobs reports. -/
def reporter : String := "snapdrill"

/-- What is reported of a job that was loaded. -/
def loadedEvent (drill : DrillJob) (path : Path) : Event :=
  ⟨.debug, reporter,
    s!"Loaded {drill.tools.length} tool jobs with {drill.holeCount} holes from " ++ path.display⟩

def load (files : FileSystem) (host : Host) (path : Path) : Outcome JobFileError DrillJob :=
  match files.readText host path with
  | .error cause => .fail files (.unreadable path cause) []
  | .ok text =>
    match ofJson text with
    | .error cause => .fail files (.malformed path cause) []
    | .ok drill => .ok files drill [drill.loadedEvent path]

end DrillJob

end DrillPost
