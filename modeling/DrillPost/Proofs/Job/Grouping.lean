import DrillPost.Proofs.Job.Merging

/-!
# Merged jobs are groups of tools

The tools of a drill job fall into groups of equal diameters. A `Group` is given by its first tool,
which no tool before it has the diameter of; its members are that tool and every later one of the
diameter, so a tool whose diameter is NaN is a group of its own. The merged jobs are those of the
groups in the order of their first tools (`Grouped.addTools`).

To merge in steps is to merge at once: a merged job goes where its tools would have gone one by one
(`addTools_merged`). `byDiameter_groups` says both.
-/

namespace DrillPost

/-! ### Groups -/

/-- A tool that begins a new diameter, with the tools before and after it. -/
structure Group (tools : List ToolJob) where
  before : List ToolJob
  first : ToolJob
  after : List ToolJob
  tools_eq : tools = before ++ first :: after
  isNew : ∀ tool ∈ before, tool.diameter.equal first.diameter = false

namespace Group

variable {tools : List ToolJob} {tool : ToolJob}

/-- Where the first tool of the group stands. -/
def position (g : Group tools) : Nat := g.before.length

/-- The tools of the group in source order. -/
def members (g : Group tools) : List ToolJob := g.first :: ofDiameter g.first.diameter g.after

/-- The job that the group makes. -/
def job (g : Group tools) : ToolJob := ⟨g.first.diameter, g.members.flatMap ToolJob.segments⟩

theorem position_lt (g : Group tools) : g.position < tools.length := by
  have hlength := congrArg List.length g.tools_eq
  rw [List.length_append, List.length_cons] at hlength
  rw [position]
  omega

theorem first_mem (g : Group tools) : g.first ∈ tools := by
  obtain ⟨before, first, after, rfl, -⟩ := g
  exact List.mem_append_right _ List.mem_cons_self

theorem getElem?_position (g : Group tools) : tools[g.position]? = some g.first := by
  obtain ⟨before, first, after, rfl, -⟩ := g
  rw [position, List.getElem?_append_right (Nat.le_refl _), Nat.sub_self, List.getElem?_cons_zero]

/-- A group is told by where it begins. -/
theorem eq_of_position_eq {g h : Group tools} (heq : g.position = h.position) : g = h := by
  obtain ⟨before, first, after, hg, hnew⟩ := g
  obtain ⟨before', first', after', hh, hnew'⟩ := h
  obtain ⟨rfl, hrest⟩ := List.append_inj (hg.symm.trans hh) heq
  obtain ⟨rfl, rfl⟩ := List.cons.inj hrest
  rfl

/-- A later group begins after all tools that could have begun it. -/
theorem not_equal_of_position_lt {g h : Group tools} (hlt : g.position < h.position) :
    g.first.diameter.equal h.first.diameter = false := by
  apply h.isNew
  have hget : (h.before ++ h.first :: h.after)[g.position]? = some g.first :=
    (congrArg (·[g.position]?) h.tools_eq).symm.trans g.getElem?_position
  rw [List.getElem?_append_left hlt] at hget
  exact List.mem_of_getElem? hget

/-- A NaN is not even the diameter of its own tool. -/
theorem members_of_nan {g : Group tools} (h : g.first.diameter = .nan) : g.members = [g.first] := by
  have hnone : ofDiameter g.first.diameter g.after = [] := by
    rw [ofDiameter, List.filter_eq_nil_iff, h]
    intro tool _ hequal
    rw [Binary64.equal_comm] at hequal
    cases hequal
  rw [members, hnone]

/-! ### One more tool -/

/-- The group as it is when a tool comes after all others. -/
def concat (g : Group tools) (tool : ToolJob) : Group (tools ++ [tool]) where
  before := g.before
  first := g.first
  after := g.after ++ [tool]
  tools_eq := (congrArg (· ++ [tool]) g.tools_eq).trans (List.append_assoc ..)
  isNew := g.isNew

/-- The group that a tool of a new diameter begins. -/
def last (hnew : ∀ t ∈ tools, t.diameter.equal tool.diameter = false) : Group (tools ++ [tool]) :=
  ⟨tools, tool, [], rfl, hnew⟩

/-- A group of one more tool was there before, or the new tool begins it. -/
theorem cases_concat (g : Group (tools ++ [tool])) :
    (∃ h : Group tools, g = h.concat tool) ∨ ∃ hnew, g = last hnew := by
  obtain ⟨before, first, after, heq, hnew⟩ := g
  rcases List.eq_nil_or_concat after with rfl | ⟨init, t, rfl⟩
  · obtain ⟨rfl, hfirst⟩ := List.append_inj' heq rfl
    obtain rfl := List.head_eq_of_cons_eq hfirst
    exact .inr ⟨hnew, rfl⟩
  · rw [List.concat_eq_append] at heq
    rw [← List.cons_append, ← List.append_assoc] at heq
    obtain ⟨rfl, hlast⟩ := List.append_inj' heq rfl
    obtain rfl := List.head_eq_of_cons_eq hlast
    exact .inl ⟨⟨before, first, init, rfl, hnew⟩, eq_of_position_eq rfl⟩

theorem members_concat_of_equal {g : Group tools}
    (h : g.first.diameter.equal tool.diameter = true) :
    (g.concat tool).members = g.members ++ [tool] := by
  rw [Binary64.equal_comm] at h
  exact congrArg (g.first :: ·) (ofDiameter_concat_of_equal h g.after)

theorem members_concat_of_not_equal {g : Group tools}
    (h : g.first.diameter.equal tool.diameter = false) :
    (g.concat tool).members = g.members := by
  rw [Binary64.equal_comm] at h
  exact congrArg (g.first :: ·) (ofDiameter_concat_of_not_equal h g.after)

theorem job_concat_of_equal {g : Group tools} (h : g.first.diameter.equal tool.diameter = true) :
    (g.concat tool).job = g.job.merged tool := by
  have hsegments : (g.concat tool).members.flatMap ToolJob.segments =
      g.members.flatMap ToolJob.segments ++ tool.segments := by
    rw [members_concat_of_equal h, List.flatMap_append, List.flatMap_singleton]
  exact congrArg (ToolJob.mk g.first.diameter) hsegments

theorem job_concat_of_not_equal {g : Group tools}
    (h : g.first.diameter.equal tool.diameter = false) : (g.concat tool).job = g.job := by
  have hsegments : (g.concat tool).members.flatMap ToolJob.segments =
      g.members.flatMap ToolJob.segments := by
    rw [members_concat_of_not_equal h]
  exact congrArg (ToolJob.mk g.first.diameter) hsegments

theorem job_last (hnew : ∀ t ∈ tools, t.diameter.equal tool.diameter = false) :
    (last hnew).job = tool := by
  have hmembers : (last hnew).members = [tool] := rfl
  rw [job, hmembers, List.flatMap_singleton]
  rfl

end Group

/-- All groups of the tools in order, and the jobs that they make. -/
structure Grouped (tools jobs : List ToolJob) (groups : List (Group tools)) : Prop where
  jobs_eq : jobs = groups.map Group.job
  ordered : groups.Pairwise fun g h => g.position < h.position
  complete : ∀ g : Group tools, g ∈ groups
  /-- Every tool is in one group only. -/
  perm : (groups.flatMap Group.members).Perm tools

namespace Grouped

variable {tools jobs : List ToolJob} {groups : List (Group tools)} {tool : ToolJob}

theorem nil : Grouped [] [] [] := by
  refine ⟨rfl, .nil, fun g => ?_, .nil⟩
  have hlt := g.position_lt
  cases hlt

/-- No two groups have one diameter. -/
theorem pairwise_not_equal (h : Grouped tools jobs groups) :
    groups.Pairwise fun g h => g.first.diameter.equal h.first.diameter = false :=
  h.ordered.imp Group.not_equal_of_position_lt

theorem pairwise_position_concat (h : Grouped tools jobs groups) (tool : ToolJob) :
    (groups.map (·.concat tool)).Pairwise fun g h => g.position < h.position :=
  List.pairwise_map.2 h.ordered

/-- The tool goes to the group of its diameter. -/
theorem addTool_of_equal {before after : List (Group tools)} {g : Group tools}
    (h : Grouped tools jobs (before ++ g :: after))
    (hg : g.first.diameter.equal tool.diameter = true) :
    Grouped (tools ++ [tool])
      (before.map Group.job ++ g.job.merged tool :: after.map Group.job)
      ((before ++ g :: after).map (·.concat tool)) := by
  have hpairwise := List.pairwise_append.1 h.pairwise_not_equal
  have hafter := (List.pairwise_cons.1 hpairwise.2.1).1
  -- Every other group has another diameter than the tool, because it has another than this one.
  have hbeforeNe : ∀ k ∈ before, k.first.diameter.equal tool.diameter = false := by
    intro k hk
    rw [← Bool.not_eq_true]
    intro hequal
    have hkg := hpairwise.2.2 k hk g List.mem_cons_self
    rw [Binary64.equal_trans hequal ((Binary64.equal_comm _ _).trans hg)] at hkg
    cases hkg
  have hafterNe : ∀ k ∈ after, k.first.diameter.equal tool.diameter = false := by
    intro k hk
    rw [← Bool.not_eq_true]
    intro hequal
    have hgk := hafter k hk
    rw [Binary64.equal_trans hg ((Binary64.equal_comm _ _).trans hequal)] at hgk
    cases hgk
  refine ⟨?_, h.pairwise_position_concat tool, fun k => ?_, ?_⟩
  · have hjob : ∀ {l : List (Group tools)},
        (∀ k ∈ l, k.first.diameter.equal tool.diameter = false) →
          (l.map (·.concat tool)).map Group.job = l.map Group.job := by
      intro l hl
      rw [List.map_map]
      exact List.map_congr_left fun k hk => Group.job_concat_of_not_equal (hl k hk)
    rw [List.map_append, List.map_append, List.map_cons, List.map_cons, hjob hbeforeNe,
      hjob hafterNe, Group.job_concat_of_equal hg]
  · rcases k.cases_concat with ⟨k, rfl⟩ | ⟨hnew, -⟩
    · exact List.mem_map_of_mem (h.complete k)
    · rw [hnew g.first g.first_mem] at hg
      cases hg
  · have hmembers : ∀ {l : List (Group tools)},
        (∀ k ∈ l, k.first.diameter.equal tool.diameter = false) →
          (l.map (·.concat tool)).flatMap Group.members = l.flatMap Group.members := by
      intro l hl
      rw [List.flatMap_map]
      exact List.flatMap_congr fun k hk => Group.members_concat_of_not_equal (hl k hk)
    have hperm := h.perm
    rw [List.flatMap_append, List.flatMap_cons] at hperm
    rw [List.map_append, List.map_cons, List.flatMap_append, List.flatMap_cons,
      hmembers hbeforeNe, hmembers hafterNe, Group.members_concat_of_equal hg]
    refine List.Perm.trans ?_ (hperm.append_right [tool])
    rw [List.append_assoc, List.append_assoc, List.append_assoc]
    exact (List.perm_append_comm.append_left _).append_left _

/-- The tool begins a group of its own. -/
theorem addTool_of_forall_not_equal (h : Grouped tools jobs groups)
    (hnew : ∀ g ∈ groups, g.first.diameter.equal tool.diameter = false) :
    ∃ groups', Grouped (tools ++ [tool]) (jobs ++ [tool]) groups' := by
  have hnone : ∀ t ∈ tools, t.diameter.equal tool.diameter = false := by
    intro t ht
    rw [← Bool.not_eq_true]
    intro hequal
    obtain ⟨g, hg, hmem⟩ := List.mem_flatMap.1 (h.perm.mem_iff.2 ht)
    have hfirst : g.first.diameter.equal tool.diameter = true := by
      rcases List.mem_cons.1 hmem with rfl | hmem
      · exact hequal
      · have hmember := (List.mem_filter.1 hmem).2
        exact Binary64.equal_trans ((Binary64.equal_comm _ _).trans hmember) hequal
    rw [hnew g hg] at hfirst
    cases hfirst
  refine ⟨groups.map (·.concat tool) ++ [Group.last hnone], ?_, ?_, fun k => ?_, ?_⟩
  · rw [List.map_append, List.map_singleton, Group.job_last, List.map_map, h.jobs_eq]
    exact congrArg (· ++ [tool])
      (List.map_congr_left fun g hg => (Group.job_concat_of_not_equal (hnew g hg)).symm)
  · refine List.pairwise_append.2
      ⟨h.pairwise_position_concat tool, List.pairwise_singleton _ _, fun g hg k hk => ?_⟩
    obtain ⟨g, -, rfl⟩ := List.mem_map.1 hg
    rw [List.mem_singleton.1 hk]
    exact g.position_lt
  · rcases k.cases_concat with ⟨k, rfl⟩ | ⟨hnew, rfl⟩
    · exact List.mem_append_left _ (List.mem_map_of_mem (h.complete k))
    · exact List.mem_append_right _ List.mem_cons_self
  · rw [List.flatMap_append, List.flatMap_map, List.flatMap_singleton]
    refine List.Perm.append_right [tool] ?_
    rw [List.flatMap_congr fun g hg => Group.members_concat_of_not_equal (hnew g hg)]
    exact h.perm

theorem addTool (h : Grouped tools jobs groups) (tool : ToolJob) :
    ∃ groups', Grouped (tools ++ [tool]) (addTool tool jobs) groups' := by
  rcases addTool_cases tool jobs with ⟨before, job, after, hjobs, hjob, hadd⟩ | ⟨hnew, hadd⟩
  · -- The job that the tool is merged into is that of a group.
    obtain ⟨groupsBefore, rest, rfl, rfl, hrest⟩ :=
      List.map_eq_append_iff.1 (h.jobs_eq.symm.trans hjobs)
    obtain ⟨g, groupsAfter, rfl, rfl, rfl⟩ := List.map_eq_cons_iff.1 hrest
    rw [hadd]
    exact ⟨_, h.addTool_of_equal hjob⟩
  · rw [hadd]
    refine h.addTool_of_forall_not_equal fun g hg => hnew g.job ?_
    rw [h.jobs_eq]
    exact List.mem_map_of_mem hg

theorem addTools (h : Grouped tools jobs groups) (more : List ToolJob) :
    ∃ groups', Grouped (tools ++ more) (addTools jobs more) groups' := by
  induction more generalizing tools jobs with
  | nil =>
    rw [List.append_nil]
    exact ⟨groups, h⟩
  | cons tool more ih =>
    obtain ⟨groups', hgroups'⟩ := h.addTool tool
    rw [List.append_cons]
    exact ih hgroups'

end Grouped

/-! ### Merging in steps -/

section Steps

variable {jobs : List ToolJob} {job tool other : ToolJob} {d : Binary64}

/-- Some job has the diameter. -/
def HasDiameter (d : Binary64) (jobs : List ToolJob) : Prop :=
  ∃ job ∈ jobs, job.diameter.equal d = true

/-- A tool that is added takes no diameter away. -/
theorem HasDiameter.addTool (h : HasDiameter d jobs) (tool : ToolJob) :
    HasDiameter d (addTool tool jobs) := by
  obtain ⟨k, hk, hkd⟩ := h
  rcases addTool_cases tool jobs with ⟨before, job, after, rfl, -, hadd⟩ | ⟨-, hadd⟩
  · rw [hadd]
    rcases List.mem_append.1 hk with hk | hk
    · exact ⟨k, List.mem_append_left _ hk, hkd⟩
    rcases List.mem_cons.1 hk with rfl | hk
    · exact ⟨k.merged tool, List.mem_append_right _ List.mem_cons_self, hkd⟩
    · exact ⟨k, List.mem_append_right _ (List.mem_cons_of_mem _ hk), hkd⟩
  · rw [hadd]
    exact ⟨k, List.mem_append_left _ hk, hkd⟩

/-- The diameter of a tool that is added is there. -/
theorem hasDiameter_addTool (h : tool.diameter.equal d = true) (jobs : List ToolJob) :
    HasDiameter d (addTool tool jobs) := by
  rcases addTool_cases tool jobs with ⟨before, job, after, rfl, hjob, hadd⟩ | ⟨-, hadd⟩
  · rw [hadd]
    exact ⟨job.merged tool, List.mem_append_right _ List.mem_cons_self,
      Binary64.equal_trans hjob h⟩
  · rw [hadd]
    exact ⟨tool, List.mem_append_right _ List.mem_cons_self, h⟩

/-- A job that has taken a tool goes where the job goes and then the tool. -/
theorem addTool_merged (h : job.diameter.equal tool.diameter = true) (jobs : List ToolJob) :
    addTool (job.merged tool) jobs = addTool tool (addTool job jobs) := by
  have hmerged : (job.merged tool).diameter = job.diameter := rfl
  induction jobs with
  | nil =>
    rw [addTool, addTool, addTool, if_pos h]
    rfl
  | cons k jobs ih =>
    rw [addTool, addTool, hmerged]
    by_cases hk : k.diameter.equal job.diameter = true
    · rw [if_pos hk, if_pos hk, addTool, if_pos (Binary64.equal_trans hk h)]
      simp only [ToolJob.merged, List.append_assoc]
    · have hne : ¬ k.diameter.equal tool.diameter = true := fun hkt =>
        hk (Binary64.equal_trans hkt ((Binary64.equal_comm _ _).trans h))
      rw [if_neg hk, if_neg hk, addTool, if_neg hne, ih]

/-- A tool whose diameter is there already may be added before or after one of another diameter. -/
theorem addTool_comm (hne : tool.diameter.equal other.diameter = false)
    (h : HasDiameter tool.diameter jobs) :
    addTool tool (addTool other jobs) = addTool other (addTool tool jobs) := by
  induction jobs with
  | nil =>
    obtain ⟨k, hk, -⟩ := h
    cases hk
  | cons k jobs ih =>
    by_cases hk : k.diameter.equal tool.diameter = true
    · have hother : ¬ k.diameter.equal other.diameter = true := by
        intro hko
        rw [Binary64.equal_trans ((Binary64.equal_comm _ _).trans hk) hko] at hne
        cases hne
      rw [addTool, if_neg hother, addTool, if_pos hk, addTool, if_pos hk, addTool, if_neg hother]
    · have hrest : HasDiameter tool.diameter jobs := by
        obtain ⟨l, hl, hlt⟩ := h
        rcases List.mem_cons.1 hl with rfl | hl
        · exact absurd hlt hk
        · exact ⟨l, hl, hlt⟩
      by_cases hother : k.diameter.equal other.diameter = true
      · rw [addTool, if_pos hother, addTool, if_neg hk, addTool, if_neg hk, addTool, if_pos hother]
      · rw [addTool, if_neg hother, addTool, if_neg hk, ih hrest, addTool, if_neg hk, addTool,
          if_neg hother]

/-- A tool whose diameter is there already may be added before tools of other diameters or after
them. -/
theorem addTools_addTool_of_hasDiameter {tools : List ToolJob}
    (hne : ∀ t ∈ tools, tool.diameter.equal t.diameter = false)
    (h : HasDiameter tool.diameter jobs) :
    addTools (addTool tool jobs) tools = addTool tool (addTools jobs tools) := by
  induction tools generalizing jobs with
  | nil => rfl
  | cons t tools ih =>
    obtain ⟨ht, htools⟩ := List.forall_mem_cons.1 hne
    calc addTools (addTool t (addTool tool jobs)) tools
        = addTools (addTool tool (addTool t jobs)) tools := by rw [addTool_comm ht h]
      _ = addTool tool (addTools (addTool t jobs) tools) := ih htools (h.addTool t)

theorem addTools_append (jobs tools more : List ToolJob) :
    addTools jobs (tools ++ more) = addTools (addTools jobs tools) more :=
  List.foldl_append

/-- A tool may be added to merged tools before these are added, or after. -/
theorem addTools_addTool {tools : List ToolJob}
    (h : tools.Pairwise fun a b => a.diameter.equal b.diameter = false) (jobs : List ToolJob)
    (tool : ToolJob) : addTools jobs (addTool tool tools) = addTool tool (addTools jobs tools) := by
  rcases addTool_cases tool tools with ⟨before, job, after, rfl, hjob, hadd⟩ | ⟨-, hadd⟩
  · have hafter := (List.pairwise_cons.1 (List.pairwise_append.1 h).2.1).1
    have hne : ∀ t ∈ after, tool.diameter.equal t.diameter = false := by
      intro t ht
      rw [← Bool.not_eq_true]
      intro hequal
      have hjt := hafter t ht
      rw [Binary64.equal_trans hjob hequal] at hjt
      cases hjt
    rw [hadd, addTools_append, addTools_append]
    calc addTools (addTool (job.merged tool) (addTools jobs before)) after
        = addTools (addTool tool (addTool job (addTools jobs before))) after := by
          rw [addTool_merged hjob]
      _ = addTool tool (addTools (addTool job (addTools jobs before)) after) :=
          addTools_addTool_of_hasDiameter hne (hasDiameter_addTool hjob _)
  · rw [hadd, addTools_append]
    rfl

/-- Tools that have been merged are added as they would have been one by one. -/
theorem addTools_merged (jobs tools : List ToolJob) :
    addTools jobs (addTools [] tools) = addTools jobs tools := by
  induction tools using List.reverseRecOn with
  | nil => rfl
  | append_singleton tools tool ih =>
    have hmerged := (Merges.nil.addTools tools).diameters
    calc addTools jobs (addTools [] (tools ++ [tool]))
        = addTools jobs (addTool tool (addTools [] tools)) := by
          rw [addTools_append]
          rfl
      _ = addTool tool (addTools jobs (addTools [] tools)) := addTools_addTool hmerged jobs tool
      _ = addTools jobs (tools ++ [tool]) := by
          rw [ih, addTools_append]
          rfl

end Steps

/-! ### Merged jobs -/

/-- The merged jobs are those of the groups in the order of their first tools: each has the diameter
of its first tool and the segments of its members in source order, a tool whose diameter is NaN is
alone in its group, and no hole is lost. Tools may be merged in two parts first, which are then
merged like one, so merged jobs are not merged any further. -/
theorem byDiameter_groups (d : DrillJob) (a b : List ToolJob) :
    (∃ groups : List (Group d.tools),
      d.byDiameter = groups.map Group.job ∧
      (groups.Pairwise fun g h => g.position < h.position) ∧
      (∀ g : Group d.tools, g ∈ groups) ∧
      (groups.flatMap Group.members).Perm d.tools ∧
      ∀ before tool after, d.tools = before ++ tool :: after → tool.diameter = .nan →
        ∃ g ∈ groups, g.position = before.length ∧ g.members = [tool]) ∧
    (d.byDiameter.Pairwise fun j k => j.diameter.equal k.diameter = false) ∧
    DrillJob.holeCount ⟨d.byDiameter⟩ = d.holeCount ∧
    DrillJob.byDiameter ⟨a ++ b⟩ =
      DrillJob.byDiameter ⟨DrillJob.byDiameter ⟨a⟩ ++ DrillJob.byDiameter ⟨b⟩⟩ ∧
    DrillJob.byDiameter ⟨d.byDiameter⟩ = d.byDiameter := by
  have hmerges := merges_byDiameter d
  obtain ⟨groups, hgroups⟩ := Grouped.nil.addTools d.tools
  refine ⟨⟨groups, hgroups.jobs_eq, hgroups.ordered, hgroups.complete, hgroups.perm, ?_⟩,
    hmerges.diameters, hmerges.perm.length_eq, ?_, addTools_merged [] d.tools⟩
  · intro before tool after htools hnan
    have hnew : ∀ t ∈ before, t.diameter.equal tool.diameter = false := by
      intro t _
      rw [hnan, Binary64.equal_comm]
      rfl
    let g : Group d.tools := ⟨before, tool, after, htools, hnew⟩
    exact ⟨g, hgroups.complete g, rfl, Group.members_of_nan hnan⟩
  · show addTools [] (a ++ b) = addTools [] (addTools [] a ++ addTools [] b)
    rw [addTools_append, addTools_append, addTools_merged, addTools_merged]

end DrillPost
