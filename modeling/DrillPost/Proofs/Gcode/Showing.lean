import DrillPost.Proofs.Gcode.Streaming

/-!
# What a program shows

Between the header and the footer of a program stands its motion, the cycles of the holes one after
another (`Gcode.document_eq_framed`). So a program does not tell how its holes are divided into
segments, nor with which diameter they are drilled. What it tells is collected in `Gcode.ShowSame`:
equal numbers are written alike (`Gcode.document_eq_of_showSame`), and the commands that a machine
reads from a program give the numbers back (`Gcode.showSame_of_commands_eq`). A depth is told only
where there is a hole.

`Gcode.program_shows` puts this together.
-/

namespace DrillPost

theorem Binary64.neg_injective {x y : Binary64} (h : x.neg = y.neg) : x = y := by
  cases x <;> cases y <;> simp_all [neg]

namespace Gcode

open Machine

variable {settings settings' : ProgramSettings} {job job' : ToolJob} {hole hole' : Hole}
  {holes holes' : List Hole}

/-! ### Motion -/

/-- The text that drills holes. -/
def motion (settings : ProgramSettings) (holes : List Hole) : String :=
  renderLines (holes.flatMap (cycle settings.safeHeight settings.drillDepth))

/-- A text between the header and the footer of a program. -/
def framed (settings : ProgramSettings) (body : String) : String :=
  renderLines (header settings.spindlePower) ++ body ++ renderLines (footer settings.safeHeight)

theorem document_eq_framed (settings : ProgramSettings) (job : ToolJob) :
    document settings job = framed settings (motion settings job.holes) := by
  simp only [document_eq, programLines, renderLines_append, framed, motion]

theorem motion_append (settings : ProgramSettings) (holes more : List Hole) :
    motion settings (holes ++ more) = motion settings holes ++ motion settings more := by
  simp only [motion, List.flatMap_append, renderLines_append]

/-- Holes are drilled by cycles whose settings have been checked. -/
theorem mapM_checkedCycle (hs : settings.fault? = none) (holes : List Hole) :
    holes.mapM (checkedCycle settings.safeHeight settings.drillDepth) =
      .ok (holes.map (cycle settings.safeHeight settings.drillDepth)) := by
  have hcycle : checkedCycle settings.safeHeight settings.drillDepth =
      fun hole => .ok (cycle settings.safeHeight settings.drillDepth hole) := by
    funext hole
    have hchecked : ProgramSettings.fault? ⟨ProgramSettings.standard.spindlePower,
        settings.safeHeight, settings.drillDepth⟩ = none := hs
    rw [checkedCycle, hchecked]
  induction holes with
  | nil => rfl
  | cons hole holes ih =>
    rw [List.mapM_cons, ih, hcycle]
    rfl

/-! ### Equal numbers are written alike -/

/-- The same is told of settings and holes: what is equal as a number, and the depth only if there
is a hole. -/
structure ShowSame (settings settings' : ProgramSettings) (holes holes' : List Hole) : Prop where
  spindlePower : settings.spindlePower = settings'.spindlePower
  safeHeight : settings.safeHeight.equal settings'.safeHeight = true
  holes_equal : List.Forall₂ (fun h k => h.equal k = true) holes holes'
  drillDepth : holes ≠ [] → settings.drillDepth.equal settings'.drillDepth = true

theorem ShowSame.of_holes_eq (hs : settings.spindlePower = settings'.spindlePower)
    (hheight : settings.safeHeight.equal settings'.safeHeight = true)
    (hdepth : settings.drillDepth.equal settings'.drillDepth = true)
    (h : ∀ hole ∈ holes, hole.isFinite = true) : ShowSame settings settings' holes holes := by
  refine ⟨hs, hheight, List.forall₂_same.2 fun hole hhole => ?_, fun _ => hdepth⟩
  obtain ⟨hx, hy⟩ := Bool.and_eq_true_iff.1 (h hole hhole)
  simp [Hole.equal, Binary64.equal_self_of_isFinite, hx, hy]

theorem renderLines_cycle_eq (hs : settings.fault? = none) (hs' : settings'.fault? = none)
    (hheight : settings.safeHeight.equal settings'.safeHeight = true)
    (hdepth : settings.drillDepth.equal settings'.drillDepth = true)
    (hhole : hole.isFinite = true) (hhole' : hole'.isFinite = true)
    (hequal : hole.equal hole' = true) :
    renderLines (cycle settings.safeHeight settings.drillDepth hole) =
      renderLines (cycle settings'.safeHeight settings'.drillDepth hole') := by
  obtain ⟨hfiniteDepth, -, hfiniteHeight⟩ := settings.fault?_eq_none_iff.1 hs
  obtain ⟨hfiniteDepth', -, hfiniteHeight'⟩ := settings'.fault?_eq_none_iff.1 hs'
  obtain ⟨hx, hy⟩ := Bool.and_eq_true_iff.1 hhole
  obtain ⟨hx', hy'⟩ := Bool.and_eq_true_iff.1 hhole'
  obtain ⟨hequalX, hequalY⟩ := Bool.and_eq_true_iff.1 hequal
  have hheightWord := scalar_eq_of_equal hfiniteHeight hfiniteHeight' hheight
  have hdepthWord := scalar_eq_of_equal hfiniteDepth hfiniteDepth' hdepth
  have hxWord := coordinate_eq_of_equal hx hx' hequalX
  have hyWord := coordinate_eq_of_equal hy hy' hequalY
  simp only [renderLines, cycle, List.map_cons, List.map_nil, Line.text, hheightWord, hdepthWord,
    hxWord, hyWord]

theorem motion_eq_of_equal (hs : settings.fault? = none) (hs' : settings'.fault? = none)
    (hheight : settings.safeHeight.equal settings'.safeHeight = true)
    (hdepth : settings.drillDepth.equal settings'.drillDepth = true)
    (hequal : List.Forall₂ (fun h k => h.equal k = true) holes holes')
    (hholes : ∀ h ∈ holes, h.isFinite = true) (hholes' : ∀ h ∈ holes', h.isFinite = true) :
    motion settings holes = motion settings' holes' := by
  induction hequal with
  | nil => rfl
  | @cons hole hole' holes holes' hfirst _ ih =>
    rw [List.forall_mem_cons] at hholes hholes'
    have hcycle := renderLines_cycle_eq hs hs' hheight hdepth hholes.1 hholes'.1 hfirst
    have hrest := ih hholes.2 hholes'.2
    rw [motion, motion] at hrest
    rw [motion, motion, List.flatMap_cons, List.flatMap_cons, renderLines_append,
      renderLines_append, hcycle, hrest]

theorem document_eq_of_showSame (hs : settings.fault? = none) (hs' : settings'.fault? = none)
    (hj : job.fault? = none) (hj' : job'.fault? = none)
    (h : ShowSame settings settings' job.holes job'.holes) :
    document settings job = document settings' job' := by
  have hholes := (job.fault?_eq_none_iff.1 hj).2
  have hholes' := (job'.fault?_eq_none_iff.1 hj').2
  have hfiniteHeight := (settings.fault?_eq_none_iff.1 hs).2.2
  have hfiniteHeight' := (settings'.fault?_eq_none_iff.1 hs').2.2
  have hheightWord := scalar_eq_of_equal hfiniteHeight hfiniteHeight' h.safeHeight
  have hfooter : renderLines (footer settings.safeHeight) =
      renderLines (footer settings'.safeHeight) := by
    simp only [renderLines, footer, List.map_cons, List.map_nil, Line.text, hheightWord]
  have hmotion : motion settings job.holes = motion settings' job'.holes := by
    by_cases hnil : job.holes = []
    · have hequal := h.holes_equal
      rw [hnil] at hequal
      rw [hnil, List.forall₂_nil_left_iff.1 hequal]
      rfl
    · exact motion_eq_of_equal hs hs' h.safeHeight (h.drillDepth hnil) h.holes_equal
        hholes hholes'
  rw [document_eq_framed, document_eq_framed, framed, framed, h.spindlePower, hfooter, hmotion]

/-! ### Commands give the numbers back -/

/-- What the moves of a cycle tell. -/
theorem equal_of_cycleMoves_eq (hs : settings.fault? = none) (hs' : settings'.fault? = none)
    (hhole : hole.isFinite = true) (hhole' : hole'.isFinite = true)
    (h : cycleMoves settings hole = cycleMoves settings' hole') :
    hole.equal hole' = true ∧ settings.drillDepth.equal settings'.drillDepth = true := by
  obtain ⟨hdepth, -, -⟩ := settings.fault?_eq_none_iff.1 hs
  obtain ⟨hdepth', -, -⟩ := settings'.fault?_eq_none_iff.1 hs'
  obtain ⟨hx, hy⟩ := Bool.and_eq_true_iff.1 hhole
  obtain ⟨hx', hy'⟩ := Bool.and_eq_true_iff.1 hhole'
  simp only [cycleMoves, List.cons.injEq, Move.mk.injEq, Option.some.injEq, true_and, and_true]
    at h
  obtain ⟨⟨hmoveX, hmoveY⟩, hplunge, -⟩ := h
  have hequalX := Binary64.equal_of_unsignedZero_eq hx hx' hmoveX
  have hequalY := Binary64.equal_of_unsignedZero_eq hy hy' hmoveY
  refine ⟨Bool.and_eq_true_iff.2 ⟨hequalX, hequalY⟩, ?_⟩
  apply Binary64.equal_of_unsignedZero_eq hdepth hdepth'
  exact Binary64.neg_injective hplunge

theorem holeCommands_cons (settings : ProgramSettings) (hole : Hole) (holes : List Hole) :
    holeCommands settings (hole :: holes) =
      (cycleMoves settings hole).map .move ++ holeCommands settings holes := by
  simp only [holeCommands, List.flatMap_cons, List.map_append]

/-- Every cycle has three moves, so the commands of holes tell where each cycle begins. -/
theorem equal_of_holeCommands_eq (hs : settings.fault? = none) (hs' : settings'.fault? = none)
    (hholes : ∀ h ∈ holes, h.isFinite = true) (hholes' : ∀ h ∈ holes', h.isFinite = true)
    (h : holeCommands settings holes = holeCommands settings' holes') :
    List.Forall₂ (fun h k => h.equal k = true) holes holes' ∧
      (holes ≠ [] → settings.drillDepth.equal settings'.drillDepth = true) := by
  induction holes generalizing holes' with
  | nil =>
    cases holes' with
    | nil => exact ⟨.nil, fun hne => absurd rfl hne⟩
    | cons hole' holes' => cases h
  | cons hole holes ih =>
    cases holes' with
    | nil => cases h
    | cons hole' holes' =>
      rw [List.forall_mem_cons] at hholes hholes'
      rw [holeCommands_cons, holeCommands_cons] at h
      obtain ⟨hcycle, hrest⟩ := List.append_inj h rfl
      have hmove : Function.Injective Command.move := fun _ _ => Command.move.inj
      have hmoves := List.map_injective_iff.2 hmove hcycle
      obtain ⟨hfirst, hdepth⟩ := equal_of_cycleMoves_eq hs hs' hholes.1 hholes'.1 hmoves
      exact ⟨.cons hfirst (ih hholes.2 hholes'.2 hrest).1, fun _ => hdepth⟩

theorem showSame_of_commands_eq (hs : settings.fault? = none) (hs' : settings'.fault? = none)
    (hj : job.fault? = none) (hj' : job'.fault? = none)
    (h : commands settings job = commands settings' job') :
    ShowSame settings settings' job.holes job'.holes := by
  have hholes := (job.fault?_eq_none_iff.1 hj).2
  have hholes' := (job'.fault?_eq_none_iff.1 hj').2
  have hfiniteHeight := (settings.fault?_eq_none_iff.1 hs).2.2
  have hfiniteHeight' := (settings'.fault?_eq_none_iff.1 hs').2.2
  -- Three commands stand before those of the holes, and three after them.
  obtain ⟨hbefore, hafter⟩ := List.append_inj' h rfl
  obtain ⟨hstart, hdrill⟩ := List.append_inj hbefore rfl
  simp only [List.cons.injEq, Command.startSpindle.injEq, and_true, true_and] at hstart
  simp only [List.cons.injEq, Command.move.injEq, Move.mk.injEq, Option.some.injEq, and_true,
    true_and] at hafter
  obtain ⟨hequal, hdepth⟩ := equal_of_holeCommands_eq hs hs' hholes hholes' hdrill
  exact ⟨UInt32.toNat_inj.1 hstart,
    Binary64.equal_of_unsignedZero_eq hfiniteHeight hfiniteHeight' hafter, hequal, hdepth⟩

/-! ### What a program shows -/

/-- The program of a job is its motion between the header and the footer. It arrives as a whole in
a sink that takes everything. The motion is made of the checked cycles of the holes, and what is
drilled after a job adds its own motion. Programs of settings and jobs without fault are equal
exactly if the power, the height and the holes are, and with a hole also the depth; the diameters
and how holes are divided into segments make no difference. -/
theorem program_shows (hs : settings.fault? = none) (hj : job.fault? = none) :
    program settings job = .ok (framed settings (motion settings job.holes)) ∧
    (stream settings job ⟨none, false⟩).result = .ok () ∧
    (stream settings job ⟨none, false⟩).accepted =
      utf8 (framed settings (motion settings job.holes)) ∧
    (∃ cycles, job.holes.mapM (checkedCycle settings.safeHeight settings.drillDepth) = .ok cycles ∧
      motion settings job.holes = String.join (cycles.map renderLines)) ∧
    (∀ more : ToolJob, more.fault? = none →
      program settings ⟨job.diameter, job.segments ++ more.segments⟩ =
        .ok (framed settings (motion settings job.holes ++ motion settings more.holes))) ∧
    ∀ (settings' : ProgramSettings) (job' : ToolJob),
      settings'.fault? = none → job'.fault? = none →
        (program settings job = program settings' job' ↔
          ShowSame settings settings' job.holes job'.holes) := by
  have hprogram : ∀ {settings : ProgramSettings} {job : ToolJob}, settings.fault? = none →
      job.fault? = none → program settings job = .ok (document settings job) := by
    intro settings job hs hj
    rw [program, fault?_eq_none_iff.2 ⟨hs, hj⟩]
  have hstreams := streams_of_fault?_eq (fault?_eq_none_iff.2 ⟨hs, hj⟩) ⟨none, false⟩
  have haccepted := hstreams.accepted_eq
  rw [fitting, Option.elim_none, List.take_length, document_eq_framed] at haccepted
  refine ⟨?program, ?result, haccepted, ?cycles, ?more, ?same⟩
  case program => rw [hprogram hs hj, document_eq_framed]
  case result => exact hstreams.result_eq_ok_iff.2 ⟨hasRoom_none _, rfl⟩
  case cycles =>
    refine ⟨_, mapM_checkedCycle hs job.holes, ?_⟩
    rw [motion, renderLines_flatMap, List.map_map]
    rfl
  case more =>
    intro more hmore
    have hholes : ToolJob.holes ⟨job.diameter, job.segments ++ more.segments⟩ =
        job.holes ++ more.holes := List.flatMap_append
    obtain ⟨hdiameter, hfinite⟩ := job.fault?_eq_none_iff.1 hj
    have hfault : ToolJob.fault? ⟨job.diameter, job.segments ++ more.segments⟩ = none := by
      rw [ToolJob.fault?_eq_none_iff, hholes, List.forall_mem_append]
      exact ⟨hdiameter, hfinite, (more.fault?_eq_none_iff.1 hmore).2⟩
    rw [hprogram hs hfault, document_eq_framed, hholes, motion_append]
  case same =>
    intro settings' job' hs' hj'
    rw [hprogram hs hj, hprogram hs' hj', Except.ok.injEq]
    refine ⟨fun hsame => ?_, document_eq_of_showSame hs hs' hj hj'⟩
    have hread := read?_document hs hj
    rw [hsame, read?_document hs' hj'] at hread
    exact showSame_of_commands_eq hs hs' hj hj' (Option.some.inj hread).symm

/-- Two holes in one segment, or each in its own with an empty one between, have one program with
any diameter; a hole elsewhere has another. -/
theorem program_shows_two_splits :
    let job : ToolJob := ⟨.ofNat 3, [⟨[⟨.zero, .ofNat 7⟩]⟩, ⟨[]⟩, ⟨[⟨.ofNat 5, .zero⟩]⟩]⟩
    let split : ToolJob := ⟨.ofNat 8, [⟨[⟨.finite true .zero, .ofNat 7⟩, ⟨.ofNat 5, .zero⟩]⟩]⟩
    let other : ToolJob := ⟨.ofNat 3, [⟨[⟨.zero, .ofNat 7⟩, ⟨.ofNat 6, .zero⟩]⟩]⟩
    ProgramSettings.standard.fault? = none ∧ job.fault? = none ∧ split.fault? = none ∧
      other.fault? = none ∧ program .standard job = program .standard split ∧
      program .standard job ≠ program .standard other := by
  intro job split other
  have hs : ProgramSettings.standard.fault? = none := by decide +kernel
  have hj : job.fault? = none := by decide +kernel
  have hsplit : split.fault? = none := by decide +kernel
  have hother : other.fault? = none := by decide +kernel
  obtain ⟨-, -, -, -, -, hsame⟩ := program_shows hs hj
  refine ⟨hs, hj, hsplit, hother, (hsame _ _ hs hsplit).2 ?_, fun heq => ?_⟩
  · have hfirst : Hole.equal ⟨.zero, .ofNat 7⟩ ⟨.finite true .zero, .ofNat 7⟩ = true := by
      decide +kernel
    have hsecond : Hole.equal ⟨.ofNat 5, .zero⟩ ⟨.ofNat 5, .zero⟩ = true := by decide +kernel
    exact ⟨rfl, by decide +kernel, .cons hfirst (.cons hsecond .nil), fun _ => by decide +kernel⟩
  · have hholes := ((hsame _ _ hs hother).1 heq).holes_equal
    obtain ⟨-, hlast⟩ := List.forall₂_cons.1 hholes
    exact absurd (List.forall₂_cons.1 hlast).1 (by decide +kernel)

end Gcode

end DrillPost
