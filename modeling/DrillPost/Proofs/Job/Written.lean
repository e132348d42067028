import DrillPost.Job.Json
import DrillPost.Proofs.Json.Source

/-!
# Jobs as they are written

A `WrittenJob` is a drill job whose numbers keep the literals that they were read from. Reading a
text as one and forgetting the literals is the same as reading the text as a drill job
(`WrittenJob.toDrillJob_ofJson`), so every coordinate and every diameter of a job that was read
comes from a literal of the text.
-/

namespace DrillPost

open Json

namespace Json

def Written.value (n : Written) : Binary64 := n.number.toBinary64

namespace Source

def number? : Source → Option Written
  | .number n => some n
  | _ => none

def list? : Source → Option (List Source)
  | .list items => some items
  | _ => none

/-- The values that members with a name have, in order. -/
def valuesOf (name : String) (members : List (String × Source)) : List Source :=
  (members.filter fun m => m.1 = name).map Prod.snd

/-- What every value of a list is read as. -/
def itemsAs? {α : Type} (item? : Source → Option α) (s : Source) : Option (List α) :=
  s.list?.bind fun items => items.mapM item?

/-- The only value of a member that may be left out: `missing` if there is none, and nothing if
there are several. -/
def onlyValue? {α : Type} (missing : α) (value? : Source → Option α) : List Source → Option α
  | [] => some missing
  | [s] => value? s
  | _ => none

/-! ### Without the literals -/

variable {α β : Type} {f : α → β} {tree? : Tree → Option β} {source? : Source → Option α}

theorem real?_toTree (s : Source) : s.toTree.real? = s.number?.map Written.value := by
  cases s with
  | number n =>
    obtain ⟨isNegative, literal, number, isRead⟩ := n
    cases number with
    | int n => rfl
    | real x => rfl
  | null => rfl
  | bool b => rfl
  | text s => rfl
  | list items => rw [toTree_list]; rfl
  | map members => rw [toTree_map]; rfl

theorem list?_toTree (s : Source) : s.toTree.list? = s.list?.map (List.map toTree) := by
  cases s with
  | number n =>
    obtain ⟨isNegative, literal, number, isRead⟩ := n
    cases number with
    | int n => rfl
    | real x => rfl
  | null => rfl
  | bool b => rfl
  | text s => rfl
  | list items => rw [toTree_list]; rfl
  | map members => rw [toTree_map]; rfl

theorem valuesOf_toTree (name : String) (members : List (String × Source)) :
    Tree.valuesOf name (members.map (Prod.map id toTree)) = (valuesOf name members).map toTree := by
  rw [Tree.valuesOf, valuesOf, List.filter_map, List.map_map, List.map_map]
  rfl

theorem mapM_toTree (h : ∀ s, tree? s.toTree = (source? s).map f) (items : List Source) :
    (items.map toTree).mapM tree? = (items.mapM source?).map (List.map f) := by
  induction items with
  | nil => rfl
  | cons item items ih =>
    rw [List.map_cons, List.mapM_cons, List.mapM_cons, h, ih]
    cases source? item with
    | none => rfl
    | some a =>
      cases items.mapM source? with
      | none => rfl
      | some as => rfl

theorem itemsAs?_toTree (h : ∀ s, tree? s.toTree = (source? s).map f) (s : Source) :
    Tree.itemsAs? tree? s.toTree = (itemsAs? source? s).map (List.map f) := by
  rw [Tree.itemsAs?, list?_toTree, itemsAs?]
  cases s.list? with
  | none => rfl
  | some items => exact mapM_toTree h items

theorem onlyValue?_toTree (h : ∀ s, tree? s.toTree = (source? s).map f) (missing : α)
    (values : List Source) :
    Tree.onlyValue? (f missing) tree? (values.map toTree) =
      (onlyValue? missing source? values).map f := by
  match values with
  | [] => rfl
  | [s] => exact h s
  | _ :: _ :: _ => rfl

end Source

end Json

/-! ### Holes -/

/-- A hole as it is written. -/
structure WrittenHole where
  x : Written
  y : Written

namespace WrittenHole

def toHole (h : WrittenHole) : Hole := ⟨h.x.value, h.y.value⟩

def ofSource? : Source → Option WrittenHole
  | .list [x, y] =>
    match x.number?, y.number? with
    | some x, some y => some ⟨x, y⟩
    | _, _ => none
  | _ => none

theorem toHole_ofSource? (s : Source) : Hole.ofTree? s.toTree = (ofSource? s).map toHole := by
  match s with
  | .null => rfl
  | .bool _ => rfl
  | .text _ => rfl
  | .number ⟨_, _, .int _, _⟩ => rfl
  | .number ⟨_, _, .real _, _⟩ => rfl
  | .map members =>
    rw [Source.toTree_map]
    rfl
  | .list [] => rfl
  | .list [_] => rfl
  | .list (_ :: _ :: _ :: _) =>
    rw [Source.toTree_list]
    rfl
  | .list [x, y] =>
    rw [Source.toTree_list, List.map_cons, List.map_cons, List.map_nil, Hole.ofTree?, ofSource?,
      Source.real?_toTree, Source.real?_toTree]
    cases x.number? with
    | none => rfl
    | some x =>
      cases y.number? with
      | none => rfl
      | some y => rfl

end WrittenHole

/-! ### Segments -/

/-- A segment as it is written. -/
structure WrittenSegment where
  holes : List WrittenHole

namespace WrittenSegment

def toSegment (s : WrittenSegment) : Segment := ⟨s.holes.map WrittenHole.toHole⟩

def ofHoles? (holes : List Source) : Option WrittenSegment :=
  (Source.onlyValue? [] (Source.itemsAs? WrittenHole.ofSource?) holes).map mk

def ofSource? : Source → Option WrittenSegment
  | .list items => ofHoles? items
  | .map members => ofHoles? (Source.valuesOf "holes" members)
  | _ => none

theorem toSegment_ofHoles? (holes : List Source) :
    (Tree.onlyValue? [] (Tree.itemsAs? Hole.ofTree?) (holes.map Source.toTree)).map Segment.mk =
      (ofHoles? holes).map toSegment := by
  have h := Source.onlyValue?_toTree (Source.itemsAs?_toTree WrittenHole.toHole_ofSource?) [] holes
  rw [List.map_nil] at h
  rw [h, ofHoles?, Option.map_map, Option.map_map]
  rfl

theorem toSegment_ofSource? (s : Source) :
    Segment.ofTree? s.toTree = (ofSource? s).map toSegment := by
  match s with
  | .null => rfl
  | .bool _ => rfl
  | .text _ => rfl
  | .number ⟨_, _, .int _, _⟩ => rfl
  | .number ⟨_, _, .real _, _⟩ => rfl
  | .list items =>
    rw [Source.toTree_list]
    exact toSegment_ofHoles? items
  | .map members =>
    rw [Source.toTree_map, Segment.ofTree?, Source.valuesOf_toTree]
    exact toSegment_ofHoles? _

end WrittenSegment

/-! ### Tool jobs -/

/-- A tool job as it is written. -/
structure WrittenTool where
  diameter : Written
  segments : List WrittenSegment

namespace WrittenTool

def toToolJob (t : WrittenTool) : ToolJob :=
  ⟨t.diameter.value, t.segments.map WrittenSegment.toSegment⟩

def holes (t : WrittenTool) : List WrittenHole := t.segments.flatMap WrittenSegment.holes

/-- The tool job of a diameter and what may follow it. -/
def ofParts? (diameter : Source) (segments : List Source) : Option WrittenTool :=
  match diameter.number?,
    Source.onlyValue? [] (Source.itemsAs? WrittenSegment.ofSource?) segments with
  | some diameter, some segments => some ⟨diameter, segments⟩
  | _, _ => none

def ofSource? : Source → Option WrittenTool
  | .list (diameter :: segments) => ofParts? diameter segments
  | .map members =>
    match Source.valuesOf "diameter" members with
    | [diameter] => ofParts? diameter (Source.valuesOf "segments" members)
    | _ => none
  | _ => none

theorem toToolJob_ofParts? (diameter : Source) (segments : List Source) :
    ToolJob.ofParts? diameter.toTree (segments.map Source.toTree) =
      (ofParts? diameter segments).map toToolJob := by
  have h := Source.onlyValue?_toTree (Source.itemsAs?_toTree WrittenSegment.toSegment_ofSource?) []
    segments
  rw [List.map_nil] at h
  rw [ToolJob.ofParts?, ofParts?, h, Source.real?_toTree]
  cases diameter.number? with
  | none => rfl
  | some x =>
    cases Source.onlyValue? [] (Source.itemsAs? WrittenSegment.ofSource?) segments with
    | none => rfl
    | some segments => rfl

theorem toToolJob_ofSource? (s : Source) :
    ToolJob.ofTree? s.toTree = (ofSource? s).map toToolJob := by
  match s with
  | .null => rfl
  | .bool _ => rfl
  | .text _ => rfl
  | .number ⟨_, _, .int _, _⟩ => rfl
  | .number ⟨_, _, .real _, _⟩ => rfl
  | .list [] => rfl
  | .list (diameter :: segments) =>
    rw [Source.toTree_list]
    exact toToolJob_ofParts? diameter segments
  | .map members =>
    rw [Source.toTree_map, ToolJob.ofTree?, ofSource?, Source.valuesOf_toTree,
      Source.valuesOf_toTree]
    match Source.valuesOf "diameter" members with
    | [] => rfl
    | [diameter] => exact toToolJob_ofParts? diameter _
    | _ :: _ :: _ => rfl

theorem holes_toToolJob (t : WrittenTool) : t.toToolJob.holes = t.holes.map WrittenHole.toHole := by
  rw [ToolJob.holes, toToolJob, holes, List.flatMap_map, List.map_flatMap]
  rfl

end WrittenTool

/-! ### Drill jobs -/

/-- A drill job as it is written. -/
structure WrittenJob where
  tools : List WrittenTool

namespace WrittenJob

def toDrillJob (d : WrittenJob) : DrillJob := ⟨d.tools.map WrittenTool.toToolJob⟩

def ofMany? (s : Source) : Option WrittenJob := (s.itemsAs? WrittenTool.ofSource?).map mk

def ofOne? (s : Source) : Option WrittenJob := (WrittenTool.ofSource? s).map fun tool => ⟨[tool]⟩

def ofWrapped? : Source → Option WrittenJob
  | .map members =>
    match Source.valuesOf "tools" members with
    | [tools] => ofMany? tools
    | _ => none
  | _ => none

def ofSource? (s : Source) : Option WrittenJob := ofMany? s <|> ofOne? s <|> ofWrapped? s

theorem toDrillJob_ofMany? (s : Source) :
    DrillJob.ofMany? s.toTree = (ofMany? s).map toDrillJob := by
  rw [DrillJob.ofMany?, Source.itemsAs?_toTree WrittenTool.toToolJob_ofSource?, ofMany?,
    Option.map_map, Option.map_map]
  rfl

theorem toDrillJob_ofOne? (s : Source) :
    DrillJob.ofOne? s.toTree = (ofOne? s).map toDrillJob := by
  rw [DrillJob.ofOne?, WrittenTool.toToolJob_ofSource?, ofOne?, Option.map_map, Option.map_map]
  rfl

theorem toDrillJob_ofWrapped? (s : Source) :
    DrillJob.ofWrapped? s.toTree = (ofWrapped? s).map toDrillJob := by
  match s with
  | .null => rfl
  | .bool _ => rfl
  | .text _ => rfl
  | .number ⟨_, _, .int _, _⟩ => rfl
  | .number ⟨_, _, .real _, _⟩ => rfl
  | .list items =>
    rw [Source.toTree_list]
    rfl
  | .map members =>
    rw [Source.toTree_map, DrillJob.ofWrapped?, ofWrapped?, Source.valuesOf_toTree]
    match Source.valuesOf "tools" members with
    | [] => rfl
    | [tools] => exact toDrillJob_ofMany? tools
    | _ :: _ :: _ => rfl

theorem toDrillJob_ofSource? (s : Source) :
    DrillJob.ofTree? s.toTree = (ofSource? s).map toDrillJob := by
  -- Each form fails for the one exactly if it fails for the other, so the same form is taken.
  rw [DrillJob.ofTree?, toDrillJob_ofMany?, toDrillJob_ofOne?, toDrillJob_ofWrapped?, ofSource?]
  cases ofMany? s with
  | some d => rfl
  | none =>
    cases ofOne? s with
    | some d => rfl
    | none =>
      cases ofWrapped? s with
      | some d => rfl
      | none => rfl

/-- Reads a drill job from a text and keeps the literals. -/
def ofJson (text : String) : Except Json.Error WrittenJob :=
  match readSource text.toList with
  | .error e => .error (e.inText text)
  | .ok r =>
    match ofSource? r.value with
    | none => .error ⟨.data DrillJob.noForm, none⟩
    | some job =>
      if skipBlank r.rest = [] then .ok job
      else .error ((Failure.atNext .trailingCharacters (skipBlank r.rest)).inText text)

/-- Reading a drill job is reading it with its literals and forgetting them. -/
theorem toDrillJob_ofJson (text : String) :
    DrillJob.ofJson text = toDrillJob <$> ofJson text := by
  rw [DrillJob.ofJson, ofJson, readTree_eq, Reader.map_apply]
  cases readSource text.toList with
  | error e => rfl
  | ok r =>
    simp only [map_ok, Read.map, toDrillJob_ofSource?]
    cases ofSource? r.value with
    | none => rfl
    | some job =>
      simp only [Option.map_some]
      split
      · rfl
      · rfl

end WrittenJob

end DrillPost
