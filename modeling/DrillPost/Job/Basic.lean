import DrillPost.Decimal.Layout

/-!
# Drilling jobs

A hole is a point of the table, a segment an ordered run of holes, a tool job all segments drilled
with one diameter, and a drill job the tool jobs of one source. Order matters throughout: it is the
order of the tool path.

A tool job is fit to be drilled if its diameter is finite and positive and every coordinate is
finite. `ToolJob.fault?` is the first thing wrong with a job: its diameter, else the first hole that
is nowhere on the table.

`DrillJob.byDiameter` gathers the segments of all tool jobs whose diameters are equal, so that one
program drills them without a tool change. The merged jobs come in the order in which their
diameters first appear, and their segments in source order.
-/

namespace DrillPost

/-- The centre of a hole, in millimetres from the centre of the table. -/
structure Hole where
  x : Binary64
  y : Binary64
deriving DecidableEq, Inhabited

/-- An ordered run of holes. -/
structure Segment where
  holes : List Hole
deriving DecidableEq, Inhabited

/-- All segments drilled with one tool. -/
structure ToolJob where
  /-- The diameter of the tool in millimetres. -/
  diameter : Binary64
  segments : List Segment
deriving DecidableEq, Inhabited

/-- Every tool job of one source. -/
structure DrillJob where
  tools : List ToolJob
deriving DecidableEq, Inhabited

namespace Hole

/-- Both coordinates are finite. -/
def isFinite (h : Hole) : Bool := h.x.isFinite && h.y.isFinite

/-- The same point of the table; a NaN is no point. -/
def equal (h k : Hole) : Bool := h.x.equal k.x && h.y.equal k.y

def text (h : Hole) : String := "(" ++ h.x.text ++ ", " ++ h.y.text ++ ")"

end Hole

namespace Segment

/-- How many holes the segment has. -/
def size (s : Segment) : Nat := s.holes.length

end Segment

namespace ToolJob

/-- Every hole of the job, in the order it is drilled. -/
def holes (t : ToolJob) : List Hole := t.segments.flatMap Segment.holes

def holeCount (t : ToolJob) : Nat := t.holes.length

end ToolJob

namespace DrillJob

/-- Every hole of all tool jobs, in source order. -/
def holes (d : DrillJob) : List Hole := d.tools.flatMap ToolJob.holes

/-- How many holes all tool jobs have. -/
def holeCount (d : DrillJob) : Nat := d.holes.length

end DrillJob

/-! ### Faults -/

/-- Why a tool job cannot be drilled. -/
inductive JobFault where
  | invalidDiameter (diameter : Binary64)
  /-- The hole at a position within a segment has a coordinate that is no number of the line. -/
  | nonFiniteCoordinate (segment position : Nat) (hole : Hole)
deriving DecidableEq

def JobFault.message : JobFault → String
  | .invalidDiameter diameter => "Invalid tool diameter: " ++ diameter.text
  | .nonFiniteCoordinate segment position hole =>
    s!"Non-finite coordinate in segment {segment}, hole {position}: " ++ hole.text

namespace ToolJob

/-- A diameter that a tool can have. -/
def hasDiameter (t : ToolJob) : Bool := t.diameter.isFinite && Binary64.less .zero t.diameter

/-- The first hole with a coordinate that is not finite, with its position. -/
def firstNonFinite? (segments : List Segment) : Option JobFault :=
  segments.zipIdx.findSome? fun (segment, i) =>
    (segment.holes.zipIdx.find? fun (hole, _) => !hole.isFinite).map fun (hole, j) =>
      .nonFiniteCoordinate i j hole

/-- The first thing wrong with the job. -/
def fault? (t : ToolJob) : Option JobFault :=
  if t.hasDiameter then firstNonFinite? t.segments else some (.invalidDiameter t.diameter)

end ToolJob

/-! ### Merging -/

/-- Adds the segments of `tool` to the first job of the same diameter, or else `tool` as a new job
at the end. -/
def addTool (tool : ToolJob) : List ToolJob → List ToolJob
  | [] => [tool]
  | job :: jobs =>
    if job.diameter.equal tool.diameter then
      { job with segments := job.segments ++ tool.segments } :: jobs
    else job :: addTool tool jobs

/-- Adds tools to merged jobs one after another. -/
def addTools (jobs tools : List ToolJob) : List ToolJob :=
  tools.foldl (fun jobs tool => addTool tool jobs) jobs

/-- One job for each diameter. -/
def DrillJob.byDiameter (d : DrillJob) : List ToolJob := addTools [] d.tools

end DrillPost
