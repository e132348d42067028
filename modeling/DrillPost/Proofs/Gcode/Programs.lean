import DrillPost.Proofs.Gcode.Drilling
import DrillPost.Proofs.Gcode.Placement
import DrillPost.Proofs.Job.Merging

/-!
# All programs of a drill job

Once the programs of a drill job are in place, each of its holes is drilled by exactly one of them
(`Gcode.inPlace_placeAll`); `Gcode.InPlace` says in detail what that means.

Programs are put in place one after another, and none of them takes the place of an earlier one:
diameters that are not equal have different words, and so their programs have different names in one
directory (`Gcode.target_ne`).
-/

namespace DrillPost

namespace Outcome

variable {ε α β : Type}

theorem andThen_eq_ok {o : Outcome ε α} {next : α → FileSystem → Outcome ε β} {value : β}
    (h : (o.andThen next).result = .ok value) :
    ∃ first, o.result = .ok first ∧ (next first o.files).result = .ok value ∧
      (o.andThen next).files = (next first o.files).files := by
  unfold andThen at h ⊢
  cases hresult : o.result with
  | ok first =>
    rw [hresult] at h
    exact ⟨first, rfl, h, rfl⟩
  | error error =>
    rw [hresult] at h
    cases h

theorem map_eq_ok {f : α → β} {o : Outcome ε α} {value : β} (h : (o.map f).result = .ok value) :
    ∃ first, o.result = .ok first ∧ value = f first := by
  unfold map at h
  cases hresult : o.result with
  | ok first =>
    rw [hresult] at h
    cases h
    exact ⟨first, rfl, rfl⟩
  | error error =>
    rw [hresult] at h
    cases h

end Outcome

namespace Gcode

open Machine

variable {disks : Disks} {host : Host} {settings : ProgramSettings} {sinkName : Path}
  {files files' : FileSystem}

/-! ### Different programs have different places -/

theorem scalar_eq_of_pathEnding_eq {x y : Binary64} (h : pathEnding x = pathEnding y) :
    scalar x = scalar y := by
  have htext := congrArg String.toList (utf8_injective h)
  simp only [String.toList_append, List.append_cancel_right_eq, List.append_cancel_left_eq] at htext
  exact String.toList_inj.1 htext

/-- Diameters that are not equal do not share a path. -/
theorem bytes_programPath_ne {x y : Binary64} (hx : x.isFinite = true) (hy : y.isFinite = true)
    (h : x.equal y = false) : (programPath sinkName x).bytes ≠ (programPath sinkName y).bytes := by
  intro heq
  have hscalar := scalar_eq_of_pathEnding_eq (List.append_cancel_left heq)
  rw [equal_of_scalar_eq hx hy hscalar] at h
  cases h

theorem target_ne {x y : Binary64} (hx : x.isFinite = true) (h : x.equal y = false)
    {directory inner : Location} {name other : Bytes}
    (hleads : files.Leads host (programPath sinkName x) directory name)
    (hother : files.Leads host (programPath sinkName y) inner other) :
    name :: directory ≠ other :: inner := by
  obtain ⟨init, last, hends⟩ := exists_leads_programPath host sinkName
  intro heq
  have hname := (List.cons.inj heq).1
  rw [(hends hleads).2, (hends hother).2] at hname
  have hscalar := scalar_eq_of_pathEnding_eq (List.append_cancel_left hname)
  rw [equal_of_scalar_eq hx (isFinite_of_scalar_eq hx hscalar) hscalar] at h
  cases h

/-! ### One program after another -/

/-- Each job has its program in place, and nothing else has changed. -/
structure AllPlaced (host : Host) (settings : ProgramSettings) (sinkName : Path)
    (jobs : List ToolJob) (files files' : FileSystem) : Prop where
  fault?_eq : ∀ job ∈ jobs, fault? settings job = none
  isDirectory_eq : ∀ here, files'.isDirectory here = files.isDirectory here
  exists_lookup? : ∀ job ∈ jobs, ∃ directory name,
    files.Leads host (programPath sinkName job.diameter) directory name ∧
      files'.lookup? (name :: directory) = some (.file
        ((files.lookup? (name :: directory)).elim (newFileMode host) Entry.mode)
        (utf8 (document settings job)))
  lookup?_other : ∀ other, (∀ job ∈ jobs, ∀ directory name,
      files.Leads host (programPath sinkName job.diameter) directory name →
        other ≠ name :: directory) →
    files'.lookup? other = files.lookup? other

theorem AllPlaced.nil : AllPlaced host settings sinkName [] files files :=
  ⟨List.forall_mem_nil _, fun _ => rfl, List.forall_mem_nil _, fun _ _ => rfl⟩

theorem isFinite_of_fault?_eq {job : ToolJob} (h : fault? settings job = none) :
    job.diameter.isFinite = true :=
  (job.fault?_eq_none_iff.1 (fault?_eq_none_iff.1 h).2).1.1

theorem AllPlaced.resolve_eq {jobs : List ToolJob}
    (h : AllPlaced host settings sinkName jobs files files') {job : ToolJob} (hjob : job ∈ jobs)
    {directory : Location} {name : Bytes}
    (hleads : files.Leads host (programPath sinkName job.diameter) directory name) :
    files'.resolve host (programPath sinkName job.diameter) = .ok (name :: directory) := by
  obtain ⟨inner, last, hlast, hlookup⟩ := h.exists_lookup? job hjob
  obtain ⟨rfl, rfl⟩ := Prod.mk.inj (Except.ok.inj
    (hleads.resolveParent_eq.symm.trans hlast.resolveParent_eq))
  -- A path leads to the same place before and after, and afterwards a file is there.
  have hafter : files'.Leads host (programPath sinkName job.diameter) directory name :=
    hleads.mono fun here hhere => (h.isDirectory_eq here).trans hhere
  exact hafter.resolve_eq_ok hlookup

/-- At the path of a job is a file, and it holds the program of the job. -/
theorem AllPlaced.exists_file {jobs : List ToolJob}
    (h : AllPlaced host settings sinkName jobs files files') {job : ToolJob} (hjob : job ∈ jobs) :
    ∃ target mode, files'.resolve host (programPath sinkName job.diameter) = .ok target ∧
      files'.lookup? target = some (.file mode (utf8 (document settings job))) := by
  obtain ⟨directory, name, hleads, hlookup⟩ := h.exists_lookup? job hjob
  exact ⟨name :: directory, _, h.resolve_eq hjob hleads, hlookup⟩

/-- The programs of more jobs leave a program alone that is in place. -/
theorem AllPlaced.cons {job : ToolJob} {jobs : List ToolJob} {placed : FileSystem}
    {directory : Location} {name : Bytes}
    (hdiameter : ∀ other ∈ jobs, job.diameter.equal other.diameter = false)
    (hfault : fault? settings job = none)
    (hleads : files.Leads host (programPath sinkName job.diameter) directory name)
    (hplaced : Placed host files (name :: directory) (utf8 (document settings job)) placed)
    (h : AllPlaced host settings sinkName jobs placed files') :
    AllPlaced host settings sinkName (job :: jobs) files files' := by
  -- The first program changed no directory, so later paths lead where they led before it.
  have hback : ∀ {path directory name}, placed.Leads host path directory name →
      files.Leads host path directory name := by
    intro path directory name hpath
    exact hpath.mono fun here hhere => (hplaced.isDirectory here).symm.trans hhere
  have hne : ∀ other ∈ jobs, ∀ inner last,
      files.Leads host (programPath sinkName other.diameter) inner last →
        name :: directory ≠ last :: inner := by
    intro other hother inner last hlast
    exact target_ne (isFinite_of_fault?_eq hfault) (hdiameter other hother) hleads hlast
  refine ⟨List.forall_mem_cons.2 ⟨hfault, h.fault?_eq⟩, ?_, List.forall_mem_cons.2 ⟨?_, ?_⟩, ?_⟩
  · intro here
    rw [h.isDirectory_eq, hplaced.isDirectory]
  · refine ⟨directory, name, hleads, ?_⟩
    -- The later programs leave this place alone, because none of their paths leads to it.
    rw [h.lookup?_other, hplaced.lookup?_target]
    intro other hother inner last hlast
    exact hne other hother inner last (hback hlast)
  · intro other hother
    obtain ⟨inner, last, hlast, hlookup⟩ := h.exists_lookup? other hother
    have hinner := hne other hother inner last (hback hlast)
    refine ⟨inner, last, hback hlast, ?_⟩
    rw [hlookup, hplaced.lookup?_other _ hinner.symm]
  · intro other hother
    rw [List.forall_mem_cons] at hother
    rw [h.lookup?_other, hplaced.lookup?_other other (hother.1 directory name hleads)]
    intro k hk inner last hlast
    exact hother.2 k hk inner last (hback hlast)

theorem allPlaced_placeJobs {jobs : List ToolJob} {paths : List Path}
    (hdiameters : jobs.Pairwise fun a b => a.diameter.equal b.diameter = false)
    (h : (placeJobs disks host settings sinkName jobs files).result = .ok paths) :
    paths = jobs.map (fun job => programPath sinkName job.diameter) ∧
      AllPlaced host settings sinkName jobs files
        (placeJobs disks host settings sinkName jobs files).files := by
  induction jobs generalizing disks files paths with
  | nil =>
    cases h
    exact ⟨rfl, .nil⟩
  | cons job jobs ih =>
    obtain ⟨hdiameter, hdiameters⟩ := List.pairwise_cons.1 hdiameters
    obtain ⟨written, hwritten, hrest, hfiles⟩ := Outcome.andThen_eq_ok h
    obtain ⟨more, hmore, rfl⟩ := Outcome.map_eq_ok hrest
    obtain ⟨hfault, rfl, directory, name, hleads, hplaced⟩ := place_eq_ok hwritten
    obtain ⟨rfl, hall⟩ := ih hdiameters hmore
    refine ⟨rfl, ?_⟩
    rw [placeJobs, hfiles]
    exact hall.cons hdiameter hfault hleads hplaced

/-! ### The programs of a drill job -/

/-- The programs of a drill job are in place, and between them they drill its holes. -/
structure InPlace (host : Host) (settings : ProgramSettings) (sinkName : Path) (drill : DrillJob)
    (paths : List Path) (files files' : FileSystem) : Prop where
  /-- There is one path for each merged job. -/
  paths_eq : paths = drill.byDiameter.map fun job => programPath sinkName job.diameter
  /-- No two paths are the same. -/
  nodup : (paths.map Path.bytes).Nodup
  /-- At the path of a merged job is a file, and it holds the program of the job. The program drills
  the holes of the tools of that diameter in source order. -/
  exists_program : ∀ job ∈ drill.byDiameter, ∃ text commands target mode,
    files'.resolve host (programPath sinkName job.diameter) = .ok target ∧
      files'.lookup? target = some (.file mode (utf8 text)) ∧ program settings job = .ok text ∧
      read? text = some commands ∧
      Drills settings ((ofDiameter job.diameter drill.tools).flatMap ToolJob.holes)
        (execute .initial commands)
  /-- What is at no path is what was there. -/
  lookup?_other : ∀ other, (∀ path ∈ paths, files'.resolve host path ≠ .ok other) →
    files'.lookup? other = files.lookup? other
  /-- The holes of a tool are drilled by one program only. -/
  existsUnique_job : ∀ tool ∈ drill.tools,
    ∃! job, job ∈ drill.byDiameter ∧ job.diameter.equal tool.diameter = true
  /-- Every hole is drilled as often as it occurs. -/
  perm : (drill.byDiameter.flatMap ToolJob.holes).Perm drill.holes

/-- The holes of a merged job are those of the tools of its diameter. -/
theorem holes_eq_of_mem_byDiameter {drill : DrillJob} {job : ToolJob} (h : job ∈ drill.byDiameter)
    (hfinite : job.diameter.isFinite = true) :
    job.holes = (ofDiameter job.diameter drill.tools).flatMap ToolJob.holes := by
  have hnan : job.diameter ≠ .nan := fun heq => by
    rw [heq] at hfinite
    cases hfinite
  rw [ToolJob.holes, (merges_byDiameter drill).segments_eq job h hnan, List.flatMap_assoc]
  rfl

/-- Where every merged job has a finite diameter, a tool belongs to exactly one of them. -/
theorem existsUnique_job {drill : DrillJob}
    (hfinite : ∀ job ∈ drill.byDiameter, job.diameter.isFinite = true) {tool : ToolJob}
    (h : tool ∈ drill.tools) :
    ∃! job, job ∈ drill.byDiameter ∧ job.diameter.equal tool.diameter = true := by
  have hmerges := merges_byDiameter drill
  have hself : ∀ job ∈ drill.byDiameter, job.diameter.equal job.diameter = true := by
    intro job hjob
    refine Binary64.equal_self fun heq => ?_
    have hjob := hfinite job hjob
    rw [heq] at hjob
    cases hjob
  obtain ⟨job, hjob, hequal⟩ := hmerges.exists_job tool h
  have hequal : job.diameter.equal tool.diameter = true := by
    rcases hequal with heq | hequal
    · rw [← heq]
      exact hself job hjob
    · exact hequal
  refine ⟨job, ⟨hjob, hequal⟩, ?_⟩
  rintro other ⟨hother, hequal'⟩
  rw [Binary64.equal_comm] at hequal
  exact hmerges.eq_of_equal hother hjob (Binary64.equal_trans hequal' hequal)

/-- Programs that are put in place are in place. -/
theorem inPlace_placeAll {drill : DrillJob} {paths : List Path}
    (h : (placeAll disks host settings sinkName drill files).result = .ok paths) :
    InPlace host settings sinkName drill paths files
      (placeAll disks host settings sinkName drill files).files := by
  have hmerges := merges_byDiameter drill
  obtain ⟨hpaths, hall⟩ := allPlaced_placeJobs hmerges.diameters h
  have hfinite : ∀ job ∈ drill.byDiameter, job.diameter.isFinite = true :=
    fun job hjob => isFinite_of_fault?_eq (hall.fault?_eq job hjob)
  refine ⟨hpaths, ?_, ?_, ?_, fun tool htool => existsUnique_job hfinite htool, hmerges.perm⟩
  · rw [hpaths, List.map_map, List.Nodup, List.pairwise_map]
    refine hmerges.diameters.imp_of_mem fun {a b} ha hb hab => ?_
    exact bytes_programPath_ne (hfinite a ha) (hfinite b hb) hab
  · intro job hjob
    obtain ⟨target, mode, hresolve, hlookup⟩ := hall.exists_file hjob
    have hfault := hall.fault?_eq job hjob
    obtain ⟨hs, hj⟩ := fault?_eq_none_iff.1 hfault
    refine ⟨document settings job, commands settings job, target, mode, hresolve, hlookup, ?_,
      read?_document hs hj, ?_⟩
    · rw [program, hfault]
    · rw [← holes_eq_of_mem_byDiameter hjob (hfinite job hjob)]
      exact drills_execute_commands hs ((job.fault?_eq_none_iff.1 hj).2)
  · intro other hother
    refine hall.lookup?_other other fun job hjob directory name hleads heq => ?_
    have hpath : programPath sinkName job.diameter ∈ paths := by
      rw [hpaths]
      exact List.mem_map_of_mem hjob
    refine hother _ hpath ?_
    rw [heq]
    exact hall.resolve_eq hjob hleads

/-- Of three tools two have one diameter. -/
theorem inPlace_placeAll_three_tools :
    let drill : DrillJob := ⟨[⟨.ofNat 3, [⟨[⟨.zero, .ofNat 7⟩]⟩]⟩, ⟨.ofNat 5, []⟩,
      ⟨.ofNat 3, [⟨[⟨.ofNat 4, .zero⟩]⟩]⟩]⟩
    let host : Host := ⟨[], 0o022, none, none, none⟩
    let paths : List Path := [.ofText "out_3.cnc", .ofText "out_5.cnc"]
    let o := placeAll .sound host .standard (.ofText "out") drill .empty
    o.result = .ok paths ∧
      InPlace host .standard (.ofText "out") drill paths .empty o.files := by
  intro drill host paths o
  have h : o.result = .ok paths := by decide +kernel
  exact ⟨h, inPlace_placeAll h⟩

end Gcode

end DrillPost
