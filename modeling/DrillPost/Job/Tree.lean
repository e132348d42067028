import DrillPost.Job.Basic
import DrillPost.Tree.Basic

/-!
# Jobs as trees

A hole is written as the list of its two coordinates, and everything else as a map of its parts.

Trees are read more freely than they are written. A segment and a tool job may also be lists of
their parts, parts that are empty may be left out, and members that mean nothing are passed over. A
drill job is a list of tool jobs, a tool job alone, or a map with the tool jobs in it; a tree that
is both of the last two is the tool job alone.
-/

namespace DrillPost

/-- A hole as the list of its coordinates. -/
def Hole.toTree (h : Hole) : Tree := .list [.real h.x, .real h.y]

/-- A segment as a map. -/
def Segment.toTree (s : Segment) : Tree := .map [("holes", .list (s.holes.map Hole.toTree))]

/-- A tool job as a map. -/
def ToolJob.toTree (t : ToolJob) : Tree :=
  .map [("diameter", .real t.diameter), ("segments", .list (t.segments.map Segment.toTree))]

/-- A drill job as a map. -/
def DrillJob.toTree (d : DrillJob) : Tree := .map [("tools", .list (d.tools.map ToolJob.toTree))]

/-! ### Reading -/

/-- The hole that a list of two numbers is. -/
def Hole.ofTree? : Tree → Option Hole
  | .list [x, y] =>
    match x.real?, y.real? with
    | some x, some y => some ⟨x, y⟩
    | _, _ => none
  | _ => none

/-- What every tree of a list is read as. -/
def Tree.itemsAs? {α : Type} (item? : Tree → Option α) (t : Tree) : Option (List α) :=
  t.list?.bind fun items => items.mapM item?

/-- The only value of a member that may be left out: `missing` if there is none, and nothing if
there are several. -/
def Tree.onlyValue? {α : Type} (missing : α) (value? : Tree → Option α) : List Tree → Option α
  | [] => some missing
  | [t] => value? t
  | _ => none

def Segment.ofTree? : Tree → Option Segment
  | .list items => (Tree.onlyValue? [] (Tree.itemsAs? Hole.ofTree?) items).map Segment.mk
  | .map members =>
    (Tree.onlyValue? [] (Tree.itemsAs? Hole.ofTree?) (Tree.valuesOf "holes" members)).map Segment.mk
  | _ => none

/-- The tool job of a diameter and what may follow it. -/
def ToolJob.ofParts? (diameter : Tree) (segments : List Tree) : Option ToolJob :=
  match diameter.real?, Tree.onlyValue? [] (Tree.itemsAs? Segment.ofTree?) segments with
  | some diameter, some segments => some ⟨diameter, segments⟩
  | _, _ => none

def ToolJob.ofTree? : Tree → Option ToolJob
  | .list (diameter :: segments) => ToolJob.ofParts? diameter segments
  | .map members =>
    match Tree.valuesOf "diameter" members with
    | [diameter] => ToolJob.ofParts? diameter (Tree.valuesOf "segments" members)
    | _ => none
  | _ => none

namespace DrillJob

/-- A list of tool jobs. -/
def ofMany? (t : Tree) : Option DrillJob := (t.itemsAs? ToolJob.ofTree?).map mk

/-- A tool job alone. -/
def ofOne? (t : Tree) : Option DrillJob := (ToolJob.ofTree? t).map fun tool => ⟨[tool]⟩

/-- A map with tool jobs in it. -/
def ofWrapped? : Tree → Option DrillJob
  | .map members =>
    match Tree.valuesOf "tools" members with
    | [tools] => ofMany? tools
    | _ => none
  | _ => none

/-- The drill job that a tree is, in the first form that fits. -/
def ofTree? (t : Tree) : Option DrillJob := ofMany? t <|> ofOne? t <|> ofWrapped? t

/-- What a message says of a tree that has none of the forms. -/
def noForm : String := "data did not match any variant of untagged enum DrillJobRepr"

end DrillJob

end DrillPost
