import DrillPost.Job.Tree
import DrillPost.Json.Kind

/-!
# Jobs in JSON

A hole is the list of its two coordinates. A segment and a tool job are records, whose lists may be
left out when they are empty. A drill job is read as a tree first, and the tree decides which of its
three forms it has (`DrillJob.ofTree?`).
-/

namespace DrillPost

open Json

/-! ### Holes -/

/-- Reads the two coordinates of a hole and the end of the list. -/
def Hole.readPair : Reader Hole := fun s =>
  match needItem readReal 0 "an array of length 2" s with
  | .error e => .error e
  | .ok (x, t) =>
    match needItem readReal 1 "an array of length 2" t.rest with
    | .error e => .error e
    | .ok y => (y.after t (Hole.mk x)).close

def Hole.read : Reader Hole := fun s =>
  match nextChar s with
  | none => .error (.before .endInValue [])
  | some c =>
    if c.value = '[' then c.thenRead Hole.readPair
    else .error (mismatch "an array of length 2" c.unread.rest)

/-! ### Segments -/

namespace Segment

/-- Reads the holes of a segment in the list form, and the end of the list. -/
def readItems : Reader Segment := fun s =>
  match itemOr [] (readList Hole.read) 0 s with
  | .error e => .error e
  | .ok (holes, t) => Part.close (⟨holes⟩, t)

/-- What a member means for the holes that have been read. -/
def field (holes : Option (List Hole)) (name : String) :
    Except String (Reader (Option (List Hole))) :=
  if name = "holes" then setOnce name holes (readList Hole.read) some else ignoreField holes

/-- Reads the members of a segment and the end of the object. -/
def readFields : Reader Segment :=
  Reader.map (fun holes => ⟨holes.getD []⟩) (readMembers readString field true none)

def record : Record Segment := ⟨"struct Segment", readItems, readFields⟩

def read : Reader Segment := record.read

end Segment

/-! ### Tool jobs -/

namespace ToolJob

/-- What has been read of a tool job. -/
structure Fields where
  diameter : Option Binary64
  segments : Option (List Segment)

/-- Reads a tool job in the list form, and the end of the list. -/
def readItems : Reader ToolJob := fun s =>
  match needItem readReal 0 "struct ToolJob with 2 elements" s with
  | .error e => .error e
  | .ok (diameter, t) =>
    match itemOr [] (readList Segment.read) 1 t.rest with
    | .error e => .error e
    | .ok segments => (segments.after t (ToolJob.mk diameter)).close

/-- What a member means for the fields that have been read. -/
def field (fields : Fields) (name : String) : Except String (Reader Fields) :=
  if name = "diameter" then
    setOnce name fields.diameter readReal fun x => { fields with diameter := some x }
  else if name = "segments" then
    setOnce name fields.segments (readList Segment.read) fun l => { fields with segments := some l }
  else ignoreField fields

/-- Reads the members of a tool job and the end of the object. -/
def readFields : Reader ToolJob := fun s =>
  match readMembers readString field true ⟨none, none⟩ s with
  | .error e => .error e
  | .ok fields =>
    match fields.value.diameter with
    | none => .error (.before (.data (Mismatch.missing "diameter")) fields.rest)
    | some diameter => .ok (fields.map fun f => ⟨diameter, f.segments.getD []⟩)

def record : Record ToolJob := ⟨"struct ToolJob", readItems, readFields⟩

def read : Reader ToolJob := record.read

end ToolJob

/-! ### Drill jobs -/

/-- Reads a drill job from a text. A text that is no tree fails where it stops being one; a tree
that is no drill job fails as a whole. -/
def DrillJob.ofJson (text : String) : Except Json.Error DrillJob :=
  match readTree text.toList with
  | .error e => .error (e.inText text)
  | .ok r =>
    -- The tree is judged before what follows it in the text.
    match DrillJob.ofTree? r.value with
    | none => .error ⟨.data DrillJob.noForm, none⟩
    | some job =>
      if skipBlank r.rest = [] then .ok job
      else .error ((Failure.atNext .trailingCharacters (skipBlank r.rest)).inText text)

end DrillPost
