import DrillPost.Job.Tree
import DrillPost.Toml.Kind

/-!
# Jobs in TOML

The forms are those of JSON, but a list may have more items than a record has fields; they mean
nothing. A drill job is the tree of its document (`DrillJob.ofTree?`).
-/

namespace DrillPost

open Toml

def Hole.ofNode : Meaning Hole := fun n =>
  match n.items? with
  | none => .error (n.mismatch "an array of length 2")
  | some items =>
    match needItem Node.real 0 "an array of length 2" items with
    | .error f => .error (f.orAt n.span?)
    | .ok x =>
      match needItem Node.real 1 "an array of length 2" items with
      | .error f => .error (f.orAt n.span?)
      | .ok y => .ok ⟨x, y⟩

/-- How a segment is read from a document. -/
def Segment.tomlRecord : Record (List Hole) Segment where
  expected := "struct Segment"
  ofItems items := (itemOr [] (Node.list Hole.ofNode) 0 items).map Segment.mk
  start := []
  member holes name n := if name = "holes" then Node.list Hole.ofNode n else .ok holes
  finish holes := .ok ⟨holes⟩

/-- What is known of a tool job while its members are read. -/
abbrev ToolJob.Known := Option Binary64 × List Segment

/-- How a tool job is read from a document. -/
def ToolJob.tomlRecord : Record ToolJob.Known ToolJob where
  expected := "struct ToolJob"
  ofItems items :=
    match needItem Node.real 0 "struct ToolJob with 2 elements" items with
    | .error f => .error f
    | .ok diameter =>
      (itemOr [] (Node.list Segment.tomlRecord.read) 1 items).map (ToolJob.mk diameter)
  start := (none, [])
  member known name n :=
    if name = "diameter" then (Node.real n).map fun x => (some x, known.2)
    else if name = "segments" then
      (Node.list Segment.tomlRecord.read n).map fun segments => (known.1, segments)
    else .ok known
  finish known :=
    match known.1 with
    | some diameter => .ok ⟨diameter, known.2⟩
    | none => .error ⟨Mismatch.missing "diameter", none⟩

/-- Reads a tool job from a document. -/
def ToolJob.ofToml (text : String) : Except Toml.Error ToolJob :=
  readText ToolJob.tomlRecord.read text

/-- Reads a drill job from a document. -/
def DrillJob.ofToml (text : String) : Except Toml.Error DrillJob :=
  match ofText? text with
  | none => .error .malformed
  | some n =>
    match DrillJob.ofTree? n.toTree with
    | some job => .ok job
    | none => .error (.content (DrillJob.noForm ++ "\n"))

end DrillPost
