import DrillPost.Files.IoError
import DrillPost.Gcode.Line
import DrillPost.Log.Event

/-!
# Programs

The program of a tool job is a header, one cycle for each hole in job order, and a footer. It is
produced in pieces, with a report before each segment, so that a sink which fills up has taken the
pieces before the one that did not fit. `deliver` says what such a sink holds in the end.

`program` is the whole text for settings and a job that are fit to be used; `ProgramError` says what
else can come of it, with faults of the settings before those of the job.
-/

namespace DrillPost

/-- Why there is no program, or why it did not arrive. -/
inductive ProgramError where
  | settings (fault : SettingsFault)
  | job (fault : JobFault)
  /-- The program could not be put at its path. -/
  | destination (path : Path) (cause : IoError)
  /-- The program could not be streamed. -/
  | stream (cause : IoError)
deriving DecidableEq

namespace ProgramError

def message : ProgramError → String
  | .settings fault => "Invalid encoder configuration: " ++ fault.message
  | .job fault => "Malformed job: " ++ fault.message
  | .destination path cause => "Cannot write " ++ path.display ++ ": " ++ cause.message
  | .stream cause => "I/O error: " ++ cause.message

/-- Whether settings and job were fine and only the output failed. -/
def isSinkError : ProgramError → Bool
  | .settings _ | .job _ => false
  | .destination .. | .stream _ => true

end ProgramError

namespace Gcode

/-- The name by which the writing of programs reports. -/
def reporter : String := "snapdrill_camtools::writer"

/-- A step in the production of a program. -/
inductive Piece where
  | text (s : String)
  | event (e : Event)

/-- What is reported before a segment is drilled. -/
def segmentEvent (index : Nat) (segment : Segment) : Event :=
  ⟨.debug, reporter, s!"Segment {index}: {segment.size} holes"⟩

/-- What is reported of a job without holes. -/
def emptyJobEvent (job : ToolJob) : Event :=
  ⟨.warn, reporter, s!"Tool job at diameter {job.diameter.text} has no holes"⟩

/-- The pieces that drill a segment. -/
def segmentPieces (settings : ProgramSettings) (index : Nat) (segment : Segment) : List Piece :=
  .event (segmentEvent index segment) ::
    segment.holes.map fun hole =>
      .text (renderLines (cycle settings.safeHeight settings.drillDepth hole))

/-- The pieces of a program, in the order in which they are produced. -/
def pieces (settings : ProgramSettings) (job : ToolJob) : List Piece :=
  .text (renderLines (header settings.spindlePower)) ::
    (job.segments.zipIdx.flatMap fun (segment, index) => segmentPieces settings index segment) ++
    [.text (renderLines (footer settings.safeHeight))]

def Piece.text? : Piece → Option String
  | .text s => some s
  | .event _ => none

def Piece.event? : Piece → Option Event
  | .text _ => none
  | .event e => some e

def joinPieces (pieces : List Piece) : String := String.join (pieces.filterMap Piece.text?)

def pieceEvents (pieces : List Piece) : List Event := pieces.filterMap Piece.event?

/-- What a sink has taken. -/
structure Delivery where
  /-- The bytes that the sink holds. -/
  accepted : Bytes
  /-- What was reported until the sink was full. -/
  events : List Event
  /-- Whether every piece fitted. -/
  isComplete : Bool

namespace Delivery

/-- A report came before. -/
def afterEvent (e : Event) (d : Delivery) : Delivery := { d with events := e :: d.events }

/-- Bytes came before. -/
def afterBytes (b : Bytes) (d : Delivery) : Delivery := { d with accepted := b ++ d.accepted }

end Delivery

/-- Sends pieces to a sink with room for a number of bytes, or for all. The piece that no longer
fits is cut where the room ends, and nothing follows it. -/
def deliver : (room : Option Nat) → List Piece → Delivery
  | _, [] => ⟨[], [], true⟩
  | room, .event e :: rest => (deliver room rest).afterEvent e
  | none, .text s :: rest => (deliver none rest).afterBytes (utf8 s)
  | some room, .text s :: rest =>
    if (utf8 s).length ≤ room then
      (deliver (some (room - (utf8 s).length)) rest).afterBytes (utf8 s)
    else ⟨(utf8 s).take room, [], false⟩

/-- The first thing wrong with settings and job. -/
def fault? (settings : ProgramSettings) (job : ToolJob) : Option ProgramError :=
  match settings.fault? with
  | some fault => some (.settings fault)
  | none => job.fault?.map .job

/-- What is reported of a job before its program is produced. -/
def openingEvents (job : ToolJob) : List Event :=
  if job.holeCount = 0 then [emptyJobEvent job] else []

def document (settings : ProgramSettings) (job : ToolJob) : String :=
  joinPieces (pieces settings job)

/-- Everything that is reported while the program is produced. -/
def programEvents (settings : ProgramSettings) (job : ToolJob) : List Event :=
  openingEvents job ++ pieceEvents (pieces settings job)

/-- The program for a job, unless settings or job are not fit for one. -/
def program (settings : ProgramSettings) (job : ToolJob) : Except ProgramError String :=
  match fault? settings job with
  | some fault => .error fault
  | none => .ok (document settings job)

/-- A receiver of bytes. -/
structure Sink where
  /-- How many bytes it takes in all, if there is a limit. -/
  room : Option Nat
  /-- Whether handing on what it took fails. -/
  flushFails : Bool

/-- What came of sending a program to a sink. -/
structure Streamed where
  result : Except ProgramError Unit
  accepted : Bytes
  events : List Event

/-- Sends the program of a job to a sink. -/
def stream (settings : ProgramSettings) (job : ToolJob) (sink : Sink) : Streamed :=
  match fault? settings job with
  | some fault => ⟨.error fault, [], []⟩
  | none =>
    let delivery := deliver sink.room (pieces settings job)
    { result :=
        if !delivery.isComplete then .error (.stream .sinkFull)
        else if sink.flushFails then .error (.stream .flushFailed)
        else .ok ()
      accepted := delivery.accepted
      events := openingEvents job ++ delivery.events }

/-- The extension of the files that hold programs. -/
def extension : String := "cnc"

/-- The path of the program for a diameter, given the name that all programs of a run share. -/
def programPath (sinkName : Path) (diameter : Binary64) : Path :=
  ⟨sinkName.bytes ++ utf8 ("_" ++ scalar diameter ++ "." ++ extension)⟩

end Gcode

end DrillPost
