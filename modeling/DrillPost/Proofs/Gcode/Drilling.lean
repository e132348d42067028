import DrillPost.Proofs.Gcode.Reading
import Mathlib.Data.List.Forall2

/-!
# What a program makes the machine do

The program of a job makes the machine drill the holes of the job, each once and in order
(`Gcode.drills_program`). What is meant by it is written down in `Machine.Drills`: where the plunges
are, that the tool is at the safe height before it travels, that it never moves across the table and
up or down at once, that the machine is set and its spindle turns while the tool moves, and how a
run begins and ends.

The proof follows the holes. Whatever state the machine is in, a cycle leaves it above its hole at
the safe height and changes nothing else (`Gcode.execute_cycle`).
-/

namespace DrillPost

open Gcode

namespace Machine

/-! ### Steps of a run -/

def Action.after (s : Action) : State := s.before.after s.command

def Action.isMove (s : Action) : Bool :=
  match s.command with
  | .move _ => true
  | _ => false

/-- The tool moves across the table. -/
def Action.isTravel (s : Action) : Bool :=
  match s.command with
  | .move m => m.x.isSome || m.y.isSome
  | _ => false

/-- The tool moves up or down. -/
def Action.isVertical (s : Action) : Bool :=
  match s.command with
  | .move m => m.z.isSome
  | _ => false

/-- The tool moves at the feed of plunges. -/
def Action.isPlunge (s : Action) : Bool :=
  match s.command with
  | .move m => m.feed == some plungeFeed
  | _ => false

/-- A position on an axis is known, and it is the number. -/
def IsAt (position : Option Binary64) (x : Binary64) : Prop :=
  ∃ y, position = some y ∧ y.equal x = true

/-- The tool is at the bottom of a hole. -/
structure State.IsBottom (s : State) (depth : Binary64) (hole : Hole) : Prop where
  x : IsAt s.x hole.x
  y : IsAt s.y hole.y
  z : IsAt s.z depth.neg

/-- Positions are absolute and in millimetres, and the spindle turns. -/
structure State.IsReady (s : State) (power : UInt32) : Prop where
  isAbsolute : s.isAbsolute = true
  isMillimetres : s.isMillimetres = true
  spindle : s.spindle = some power.toNat

/-- A run that drills holes and nothing else. -/
structure Drills (settings : ProgramSettings) (holes : List Hole) (steps : List Action) : Prop where
  /-- The plunges lead to the bottoms of the holes, one after another. -/
  plunges : List.Forall₂ (fun s hole => s.after.IsBottom settings.drillDepth hole)
    (steps.filter Action.isPlunge) holes
  /-- The tool has come up before it travels on. -/
  travels : ∀ s ∈ (steps.filter Action.isTravel).tail, IsAt s.before.z settings.safeHeight
  /-- No step leads across the table and up or down. -/
  axes : ∀ s ∈ steps, (s.isTravel && s.isVertical) = false
  /-- The machine is ready whenever the tool moves. -/
  ready : ∀ s ∈ steps, s.isMove = true → s.before.IsReady settings.spindlePower
  /-- The machine is made ready once, and then only moves the tool until it is stopped once, with
  the tool at the safe height. -/
  commands : ∃ (moves : List Move) (feed : Nat) (height : Binary64),
    steps.map Action.command =
      [.absolute, .millimetres, .startSpindle settings.spindlePower.toNat] ++ moves.map .move ++
        [.move ⟨some feed, none, none, some height⟩, .stopSpindle, .finish] ∧
    height.equal settings.safeHeight = true

end Machine

namespace Gcode

open Machine

/-! ### The text of a program -/

def programLines (settings : ProgramSettings) (job : ToolJob) : List Line :=
  header settings.spindlePower ++
    job.holes.flatMap (cycle settings.safeHeight settings.drillDepth) ++ footer settings.safeHeight

theorem renderLines_append (lines more : List Line) :
    renderLines (lines ++ more) = renderLines lines ++ renderLines more := by
  rw [renderLines, List.map_append, String.join_append]
  rfl

theorem renderLines_flatMap {α : Type} (f : α → List Line) (l : List α) :
    renderLines (l.flatMap f) = String.join (l.map fun a => renderLines (f a)) := by
  induction l with
  | nil => rfl
  | cons a l ih =>
    rw [List.flatMap_cons, renderLines_append, ih, List.map_cons, String.join_cons]

/-- The texts among the pieces of a segment are those of its holes. -/
theorem filterMap_segmentPieces (settings : ProgramSettings) (index : Nat) (segment : Segment) :
    (segmentPieces settings index segment).filterMap Piece.text? =
      segment.holes.map fun hole =>
        renderLines (cycle settings.safeHeight settings.drillDepth hole) := by
  rw [segmentPieces, List.filterMap_cons_none rfl, List.filterMap_map, ← List.filterMap_eq_map]
  rfl

/-- The texts among the pieces of all segments are those of the holes of the job. -/
theorem filterMap_flatMap_segmentPieces (settings : ProgramSettings) (job : ToolJob) :
    (job.segments.zipIdx.flatMap fun (segment, index) =>
      segmentPieces settings index segment).filterMap Piece.text? =
        job.holes.map fun hole =>
          renderLines (cycle settings.safeHeight settings.drillDepth hole) := by
  rw [List.filterMap_flatMap, ToolJob.holes, List.map_flatMap]
  conv_rhs => rw [← List.zipIdx_map_fst 0 job.segments, List.flatMap_map]
  exact congrArg (List.flatMap · _) (funext fun _ => filterMap_segmentPieces settings _ _)

theorem document_eq (settings : ProgramSettings) (job : ToolJob) :
    document settings job = renderLines (programLines settings job) := by
  have hheader : Piece.text? (.text (renderLines (header settings.spindlePower))) =
    some (renderLines (header settings.spindlePower)) := rfl
  have hfooter : [Piece.text (renderLines (footer settings.safeHeight))].filterMap Piece.text? =
    [renderLines (footer settings.safeHeight)] := rfl
  rw [document, joinPieces, pieces, List.filterMap_append, List.filterMap_cons_some hheader,
    filterMap_flatMap_segmentPieces, hfooter, String.join_append, String.join_cons,
    ← renderLines_flatMap, String.join_cons, String.join_nil, String.append_empty, programLines,
    renderLines_append, renderLines_append]

/-! ### The commands of a program -/

def cycleMoves (settings : ProgramSettings) (hole : Hole) : List Move := [
  ⟨some travelFeed, some hole.x.unsignedZero, some hole.y.unsignedZero, none⟩,
  ⟨some plungeFeed, none, none, some settings.drillDepth.unsignedZero.neg⟩,
  ⟨some travelFeed, none, none, some settings.safeHeight.unsignedZero⟩]

def holeCommands (settings : ProgramSettings) (holes : List Hole) : List Command :=
  (holes.flatMap (cycleMoves settings)).map .move

def commands (settings : ProgramSettings) (job : ToolJob) : List Command :=
  [.absolute, .millimetres, .startSpindle settings.spindlePower.toNat] ++
    holeCommands settings job.holes ++
    [.move ⟨some withdrawFeed, none, none, some settings.safeHeight.unsignedZero⟩, .stopSpindle,
      .finish]

theorem filterMap_programLines (settings : ProgramSettings) (job : ToolJob) :
    (programLines settings job).filterMap Line.command? = commands settings job := by
  rw [programLines, List.filterMap_append, List.filterMap_append, List.filterMap_flatMap, commands,
    holeCommands, List.map_flatMap]
  rfl

theorem isWritable_programLines {settings : ProgramSettings} {job : ToolJob}
    (hs : settings.fault? = none) (hj : job.fault? = none) :
    ∀ l ∈ programLines settings job, l.IsWritable := by
  have hholes := ((job.fault?_eq_none_iff).1 hj).2
  have hheight := ((settings.fault?_eq_none_iff).1 hs).2.2
  intro l hl
  rcases List.mem_append.1 hl with hl | hl
  · rcases List.mem_append.1 hl with hl | hl
    · exact isWritable_header _ l hl
    · obtain ⟨hole, hhole, hl⟩ := List.mem_flatMap.1 hl
      exact isWritable_cycle hs (hholes hole hhole) l hl
  · exact isWritable_footer hheight l hl

/-- The machine reads the commands of a program from its text. -/
theorem read?_document {settings : ProgramSettings} {job : ToolJob}
    (hs : settings.fault? = none) (hj : job.fault? = none) :
    read? (document settings job) = some (commands settings job) := by
  rw [document_eq, read?_renderLines (isWritable_programLines hs hj), filterMap_programLines]

/-! ### Running the commands -/

/-- The machine above a hole that it has drilled. -/
def drilled (settings : ProgramSettings) (s : State) (hole : Hole) : State :=
  { s with
    x := some hole.x.unsignedZero
    y := some hole.y.unsignedZero
    z := some settings.safeHeight.unsignedZero }

def travelStep (s : State) (hole : Hole) : Action :=
  ⟨s, .move ⟨some travelFeed, some hole.x.unsignedZero, some hole.y.unsignedZero, none⟩⟩

/-- The step to the bottom of a hole. -/
def plungeStep (settings : ProgramSettings) (s : State) (hole : Hole) : Action :=
  ⟨(travelStep s hole).after,
    .move ⟨some plungeFeed, none, none, some settings.drillDepth.unsignedZero.neg⟩⟩

/-- The step out of a hole. -/
def retractStep (settings : ProgramSettings) (s : State) (hole : Hole) : Action :=
  ⟨(plungeStep settings s hole).after,
    .move ⟨some travelFeed, none, none, some settings.safeHeight.unsignedZero⟩⟩

theorem execute_holeCommands_nil (settings : ProgramSettings) (s : State) :
    execute s (holeCommands settings []) = [] := rfl

/-- A cycle takes three steps, and leaves the machine above the hole. -/
theorem execute_holeCommands_cons (settings : ProgramSettings) (s : State) (hole : Hole)
    (holes : List Hole) :
    execute s (holeCommands settings (hole :: holes)) =
      travelStep s hole :: plungeStep settings s hole :: retractStep settings s hole ::
        execute (drilled settings s hole) (holeCommands settings holes) := rfl

theorem isReady_drilled {settings : ProgramSettings} {s : State} {power : UInt32}
    (h : s.IsReady power) (hole : Hole) : (drilled settings s hole).IsReady power :=
  ⟨h.isAbsolute, h.isMillimetres, h.spindle⟩

theorem isAt_unsignedZero {x : Binary64} (hx : x.isFinite = true) : IsAt (some x.unsignedZero) x :=
  ⟨_, rfl, Binary64.equal_unsignedZero hx⟩

/-- A plunge ends at the bottom of its hole. -/
theorem isBottom_plungeStep {settings : ProgramSettings} (hs : settings.fault? = none) (s : State)
    {hole : Hole} (h : hole.isFinite = true) :
    (plungeStep settings s hole).after.IsBottom settings.drillDepth hole := by
  obtain ⟨hx, hy⟩ := Bool.and_eq_true_iff.1 h
  have hdepth := ((settings.fault?_eq_none_iff).1 hs).1
  refine ⟨isAt_unsignedZero hx, isAt_unsignedZero hy, _, rfl, ?_⟩
  rw [Binary64.neg_equal_neg]
  exact Binary64.equal_unsignedZero hdepth

theorem forall₂_plunges {settings : ProgramSettings} (hs : settings.fault? = none)
    {holes : List Hole} (h : ∀ hole ∈ holes, hole.isFinite = true) (s : State) :
    List.Forall₂ (fun step hole => step.after.IsBottom settings.drillDepth hole)
      ((execute s (holeCommands settings holes)).filter Action.isPlunge) holes := by
  induction holes generalizing s with
  | nil => exact .nil
  | cons hole holes ih =>
    -- Of the three steps of a cycle the second is the plunge.
    rw [execute_holeCommands_cons, List.filter_cons_of_neg Bool.false_ne_true,
      List.filter_cons_of_pos rfl, List.filter_cons_of_neg Bool.false_ne_true]
    exact .cons (isBottom_plungeStep hs s (h hole List.mem_cons_self))
      (ih (fun k hk => h k (List.mem_cons_of_mem _ hk)) _)

/-- Where the tool starts at the safe height, it is there at the beginning of every travel. -/
theorem isAt_of_mem_travels {settings : ProgramSettings} (hs : settings.fault? = none)
    (holes : List Hole) {s : State} (hz : IsAt s.z settings.safeHeight) :
    ∀ step ∈ (execute s (holeCommands settings holes)).filter Action.isTravel,
      IsAt step.before.z settings.safeHeight := by
  have hheight := ((settings.fault?_eq_none_iff).1 hs).2.2
  induction holes generalizing s with
  | nil =>
    rw [execute_holeCommands_nil, List.filter_nil]
    exact List.forall_mem_nil _
  | cons hole holes ih =>
    rw [execute_holeCommands_cons, List.filter_cons_of_pos rfl,
      List.filter_cons_of_neg Bool.false_ne_true, List.filter_cons_of_neg Bool.false_ne_true,
      List.forall_mem_cons]
    exact ⟨hz, ih (isAt_unsignedZero hheight)⟩

/-- A step that drills moves the tool on one axis or across the table, with the machine ready. -/
theorem forall_mem_execute_holeCommands (settings : ProgramSettings) {power : UInt32}
    (holes : List Hole) {s : State} (h : s.IsReady power) :
    ∀ step ∈ execute s (holeCommands settings holes),
      (step.isTravel && step.isVertical) = false ∧ step.before.IsReady power := by
  induction holes generalizing s with
  | nil =>
    rw [execute_holeCommands_nil]
    exact List.forall_mem_nil _
  | cons hole holes ih =>
    rw [execute_holeCommands_cons, List.forall_mem_cons, List.forall_mem_cons, List.forall_mem_cons]
    refine ⟨⟨rfl, h⟩, ⟨rfl, ?_⟩, ⟨rfl, ?_⟩, ih (isReady_drilled h hole)⟩
    · exact ⟨h.isAbsolute, h.isMillimetres, h.spindle⟩
    · exact ⟨h.isAbsolute, h.isMillimetres, h.spindle⟩

def readyState (power : UInt32) : State := ⟨true, true, some power.toNat, none, none, none⟩

theorem isReady_readyState (power : UInt32) : (readyState power).IsReady power := ⟨rfl, rfl, rfl⟩

theorem isReady_foldl_move {power : UInt32} (moves : List Move) {s : State} (h : s.IsReady power) :
    ((moves.map Command.move).foldl State.after s).IsReady power := by
  induction moves generalizing s with
  | nil => exact h
  | cons m moves ih => exact ih ⟨h.isAbsolute, h.isMillimetres, h.spindle⟩

def prologue (power : UInt32) : List Action := [
  ⟨.initial, .absolute⟩,
  ⟨⟨true, false, none, none, none, none⟩, .millimetres⟩,
  ⟨⟨true, true, none, none, none, none⟩, .startSpindle power.toNat⟩]

def epilogue (settings : ProgramSettings) (s : State) : List Action := [
  ⟨s, .move ⟨some withdrawFeed, none, none, some settings.safeHeight.unsignedZero⟩⟩,
  ⟨{ s with z := some settings.safeHeight.unsignedZero }, .stopSpindle⟩,
  ⟨{ s with z := some settings.safeHeight.unsignedZero, spindle := none }, .finish⟩]

theorem finish_not_mem_holeCommands (settings : ProgramSettings) (holes : List Hole) :
    Command.finish ∉ holeCommands settings holes := by
  intro h
  obtain ⟨m, -, hm⟩ := List.mem_map.1 h
  cases hm

/-- A run makes the machine ready, drills the holes and stops. -/
theorem execute_commands (settings : ProgramSettings) (job : ToolJob) :
    ∃ s, s.IsReady settings.spindlePower ∧ execute .initial (commands settings job) =
      prologue settings.spindlePower ++
        execute (readyState settings.spindlePower) (holeCommands settings job.holes) ++
          epilogue settings s := by
  refine ⟨_, isReady_foldl_move (job.holes.flatMap (cycleMoves settings))
    (isReady_readyState settings.spindlePower), ?_⟩
  rw [List.append_assoc, commands, List.append_assoc]
  -- The first three steps and the last three are computed; only the holes need a lemma.
  show prologue _ ++ execute (readyState _) (holeCommands settings job.holes ++ _) = _
  rw [execute_append (finish_not_mem_holeCommands settings job.holes)]
  rfl

theorem map_command_execute {cs : List Command} (h : Command.finish ∉ cs) (s : State) :
    (execute s cs).map Action.command = cs := by
  induction cs generalizing s with
  | nil => rfl
  | cons c cs ih =>
    have hc : c ≠ .finish := fun heq => h (heq ▸ List.mem_cons_self)
    rw [execute, if_neg hc, List.map_cons, ih fun hmem => h (List.mem_cons_of_mem _ hmem)]

/-- Every command of a program is carried out. -/
theorem map_command_execute_commands (settings : ProgramSettings) (job : ToolJob) :
    (execute .initial (commands settings job)).map Action.command = commands settings job := by
  obtain ⟨s, -, hrun⟩ := execute_commands settings job
  rw [hrun, List.map_append, List.map_append,
    map_command_execute (finish_not_mem_holeCommands settings job.holes)]
  rfl

theorem drills_execute_commands {settings : ProgramSettings} {job : ToolJob}
    (hs : settings.fault? = none) (hholes : ∀ h ∈ job.holes, h.isFinite = true) :
    Drills settings job.holes (execute .initial (commands settings job)) := by
  have hheight := ((settings.fault?_eq_none_iff).1 hs).2.2
  have hstart := isReady_readyState settings.spindlePower
  have hsteps := forall_mem_execute_holeCommands settings job.holes hstart
  obtain ⟨s, hready, hrun⟩ := execute_commands settings job
  rw [hrun]
  refine ⟨?plunges, ?travels, ?axes, ?ready, ?commands⟩
  case plunges =>
    have hprologue : (prologue settings.spindlePower).filter Action.isPlunge = [] := rfl
    have hepilogue : (epilogue settings s).filter Action.isPlunge = [] := rfl
    rw [List.filter_append, List.filter_append, hprologue, hepilogue, List.nil_append,
      List.append_nil]
    exact forall₂_plunges hs hholes _
  case travels =>
    have hprologue : (prologue settings.spindlePower).filter Action.isTravel = [] := rfl
    have hepilogue : (epilogue settings s).filter Action.isTravel = [] := rfl
    rw [List.filter_append, List.filter_append, hprologue, hepilogue, List.nil_append,
      List.append_nil]
    cases job.holes with
    | nil =>
      rw [execute_holeCommands_nil]
      exact List.forall_mem_nil _
    | cons hole holes =>
      -- Only the first travel starts where nothing is known of the height.
      rw [execute_holeCommands_cons, List.filter_cons_of_pos rfl,
        List.filter_cons_of_neg Bool.false_ne_true, List.filter_cons_of_neg Bool.false_ne_true,
        List.tail_cons]
      exact isAt_of_mem_travels hs holes (isAt_unsignedZero hheight)
  case axes =>
    rw [List.forall_mem_append, List.forall_mem_append]
    refine ⟨⟨?_, fun step hstep => (hsteps step hstep).1⟩, ?_⟩
    · rw [prologue, List.forall_mem_cons, List.forall_mem_cons, List.forall_mem_singleton]
      exact ⟨rfl, rfl, rfl⟩
    · rw [epilogue, List.forall_mem_cons, List.forall_mem_cons, List.forall_mem_singleton]
      exact ⟨rfl, rfl, rfl⟩
  case ready =>
    rw [List.forall_mem_append, List.forall_mem_append]
    refine ⟨⟨?_, fun step hstep _ => (hsteps step hstep).2⟩, ?_⟩
    · rw [prologue, List.forall_mem_cons, List.forall_mem_cons, List.forall_mem_singleton]
      exact ⟨nofun, nofun, nofun⟩
    · rw [epilogue, List.forall_mem_cons, List.forall_mem_cons, List.forall_mem_singleton]
      exact ⟨fun _ => hready, nofun, nofun⟩
  case commands =>
    refine ⟨job.holes.flatMap (cycleMoves settings), withdrawFeed,
      settings.safeHeight.unsignedZero, ?_, Binary64.equal_unsignedZero hheight⟩
    rw [← hrun, map_command_execute_commands]
    rfl

/-- The program of a job drills the holes of the job. -/
theorem drills_program {settings : ProgramSettings} {job : ToolJob}
    (hs : settings.fault? = none) (hj : job.fault? = none) :
    ∃ text commands, program settings job = .ok text ∧ read? text = some commands ∧
      (execute .initial commands).map Action.command = commands ∧
      Drills settings job.holes (execute .initial commands) := by
  have hfault : fault? settings job = none := by
    rw [fault?, hs, hj]
    rfl
  have hholes := ((job.fault?_eq_none_iff).1 hj).2
  have hprogram : program settings job = .ok (document settings job) := by
    rw [program, hfault]
  exact ⟨_, _, hprogram, read?_document hs hj, map_command_execute_commands settings job,
    drills_execute_commands hs hholes⟩

/-- A hole at the origin, and one beside it after an empty segment. -/
theorem drills_program_two_holes :
    let job : ToolJob := ⟨.ofNat 3, [⟨[⟨.zero, .ofNat 7⟩]⟩, ⟨[]⟩, ⟨[⟨.ofNat 5, .zero⟩]⟩]⟩
    ProgramSettings.standard.fault? = none ∧ job.fault? = none ∧
      ∃ text commands, program .standard job = .ok text ∧ read? text = some commands ∧
        (execute .initial commands).map Action.command = commands ∧
        Drills .standard job.holes (execute .initial commands) := by
  intro job
  have hs : ProgramSettings.standard.fault? = none := by decide +kernel
  have hj : job.fault? = none := by decide +kernel
  exact ⟨hs, hj, drills_program hs hj⟩

end Gcode

end DrillPost
