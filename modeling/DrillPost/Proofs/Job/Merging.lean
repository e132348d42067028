import DrillPost.Job.Basic
import DrillPost.Proofs.Gcode.Word
import Mathlib.Data.List.Perm.Basic

/-!
# Merging loses no hole

`Merges tools jobs` says that the jobs are what the tools merge into: no two jobs have equal
diameters, the segments of a job are those of the tools of its diameter in source order, every tool
has a job, every job has the diameter of a tool, and the jobs have the holes of the tools. One more
tool keeps it so (`Merges.addTool`), and so the jobs of a drill job are what its tools merge into
(`merges_byDiameter`).

A tool whose diameter is NaN is merged with none, not even with itself, so what is said of segments
is said of other diameters only.
-/

namespace DrillPost

def ofDiameter (diameter : Binary64) (tools : List ToolJob) : List ToolJob :=
  tools.filter fun t => t.diameter.equal diameter

theorem ofDiameter_concat_of_equal {diameter : Binary64} {tool : ToolJob}
    (h : tool.diameter.equal diameter = true) (tools : List ToolJob) :
    ofDiameter diameter (tools ++ [tool]) = ofDiameter diameter tools ++ [tool] := by
  have htool : [tool].filter (fun t => t.diameter.equal diameter) = [tool] :=
    List.filter_cons_of_pos h
  rw [ofDiameter, List.filter_append, htool, ofDiameter]

theorem ofDiameter_concat_of_not_equal {diameter : Binary64} {tool : ToolJob}
    (h : tool.diameter.equal diameter = false) (tools : List ToolJob) :
    ofDiameter diameter (tools ++ [tool]) = ofDiameter diameter tools := by
  have htool : [tool].filter (fun t => t.diameter.equal diameter) = [] :=
    List.filter_cons_of_neg (ne_true_of_eq_false h)
  rw [ofDiameter, List.filter_append, htool, List.append_nil, ofDiameter]

/-- What tools merge into. -/
structure Merges (tools jobs : List ToolJob) : Prop where
  diameters : jobs.Pairwise fun a b => a.diameter.equal b.diameter = false
  segments_eq : ∀ job ∈ jobs, job.diameter ≠ .nan →
    job.segments = (ofDiameter job.diameter tools).flatMap ToolJob.segments
  exists_job : ∀ tool ∈ tools, ∃ job ∈ jobs,
    job.diameter = tool.diameter ∨ job.diameter.equal tool.diameter = true
  exists_tool : ∀ job ∈ jobs, ∃ tool ∈ tools, tool.diameter = job.diameter
  perm : (jobs.flatMap ToolJob.holes).Perm (tools.flatMap ToolJob.holes)

/-- A job that has taken the segments of a tool. -/
def ToolJob.merged (job tool : ToolJob) : ToolJob :=
  { job with segments := job.segments ++ tool.segments }

theorem ToolJob.holes_merged (job tool : ToolJob) :
    (job.merged tool).holes = job.holes ++ tool.holes := by
  rw [holes, merged, List.flatMap_append]
  rfl

/-- A tool goes to the first job of its diameter, or else becomes the last job. -/
theorem addTool_cases (tool : ToolJob) (jobs : List ToolJob) :
    (∃ before job after, jobs = before ++ job :: after ∧ job.diameter.equal tool.diameter = true ∧
      addTool tool jobs = before ++ job.merged tool :: after) ∨
    ((∀ job ∈ jobs, job.diameter.equal tool.diameter = false) ∧
      addTool tool jobs = jobs ++ [tool]) := by
  induction jobs with
  | nil => exact .inr ⟨List.forall_mem_nil _, rfl⟩
  | cons first jobs ih =>
    rw [addTool]
    split
    · next hfirst => exact .inl ⟨[], first, jobs, rfl, hfirst, rfl⟩
    · next hfirst =>
      rw [Bool.not_eq_true] at hfirst
      rcases ih with ⟨before, job, after, rfl, hjob, hadd⟩ | ⟨hnone, hadd⟩
      · exact .inl ⟨first :: before, job, after, rfl, hjob, by rw [hadd, List.cons_append]⟩
      · refine .inr ⟨List.forall_mem_cons.2 ⟨hfirst, hnone⟩, ?_⟩
        rw [hadd, List.cons_append]

namespace Merges

variable {tools jobs : List ToolJob} {tool : ToolJob}

theorem eq_of_equal (h : Merges tools jobs) {a b : ToolJob} (ha : a ∈ jobs) (hb : b ∈ jobs)
    (hab : a.diameter.equal b.diameter = true) : a = b := by
  have hsymm : Std.Symm fun a b : ToolJob => a.diameter.equal b.diameter = false :=
    ⟨fun a b hne => by rw [Binary64.equal_comm, hne]⟩
  by_contra hne
  rw [h.diameters.forall ha hb hne] at hab
  cases hab

theorem nil : Merges [] [] :=
  ⟨.nil, List.forall_mem_nil _, List.forall_mem_nil _, List.forall_mem_nil _, .nil⟩

/-- A tool of a job's diameter is merged into the job. -/
theorem addTool_of_equal {before after : List ToolJob} {job : ToolJob}
    (h : Merges tools (before ++ job :: after)) (hjob : job.diameter.equal tool.diameter = true) :
    Merges (tools ++ [tool]) (before ++ job.merged tool :: after) := by
  have hpairwise := List.pairwise_append.1 h.diameters
  have hafter := List.pairwise_cons.1 hpairwise.2.1
  -- Every other job has another diameter than the tool, because it has another than this job.
  have hother : ∀ k ∈ before ++ after, tool.diameter.equal k.diameter = false := by
    intro k hk
    rw [← Bool.not_eq_true]
    intro heq
    have htrans := Binary64.equal_trans hjob heq
    rcases List.mem_append.1 hk with hk | hk
    · have hne := hpairwise.2.2 k hk job List.mem_cons_self
      rw [Binary64.equal_comm, htrans] at hne
      cases hne
    · rw [hafter.1 k hk] at htrans
      cases htrans
  have hkeep : ∀ k ∈ before ++ after, k.diameter ≠ .nan → k.segments =
      (ofDiameter k.diameter (tools ++ [tool])).flatMap ToolJob.segments := by
    intro k hk hnan
    have hk' : k ∈ before ++ job :: after := by
      rcases List.mem_append.1 hk with hk | hk
      · exact List.mem_append_left _ hk
      · exact List.mem_append_right _ (List.mem_cons_of_mem _ hk)
    rw [ofDiameter_concat_of_not_equal (hother k hk)]
    exact h.segments_eq k hk' hnan
  refine ⟨?_, ?_, ?_, ?_, ?_⟩
  · refine List.pairwise_append.2 ⟨hpairwise.1, List.pairwise_cons.2 ⟨hafter.1, hafter.2⟩, ?_⟩
    intro k hk l hl
    rcases List.mem_cons.1 hl with rfl | hl
    · exact hpairwise.2.2 k hk job List.mem_cons_self
    · exact hpairwise.2.2 k hk l (List.mem_cons_of_mem _ hl)
  · intro k hk hnan
    rcases List.mem_append.1 hk with hk | hk
    · exact hkeep k (List.mem_append_left _ hk) hnan
    rcases List.mem_cons.1 hk with rfl | hk
    · have hsegments := h.segments_eq job (List.mem_append_right _ List.mem_cons_self) hnan
      have htool : tool.diameter.equal job.diameter = true := by rw [Binary64.equal_comm, hjob]
      show job.segments ++ tool.segments =
        (ofDiameter job.diameter (tools ++ [tool])).flatMap ToolJob.segments
      rw [ofDiameter_concat_of_equal htool, List.flatMap_append, ← hsegments, List.flatMap_cons,
        List.flatMap_nil, List.append_nil]
    · exact hkeep k (List.mem_append_right _ hk) hnan
  · intro t ht
    rcases List.mem_append.1 ht with ht | ht
    · obtain ⟨k, hk, hkt⟩ := h.exists_job t ht
      rcases List.mem_append.1 hk with hk | hk
      · exact ⟨k, List.mem_append_left _ hk, hkt⟩
      rcases List.mem_cons.1 hk with rfl | hk
      · exact ⟨k.merged tool, List.mem_append_right _ List.mem_cons_self, hkt⟩
      · exact ⟨k, List.mem_append_right _ (List.mem_cons_of_mem _ hk), hkt⟩
    · rw [List.mem_singleton.1 ht]
      exact ⟨job.merged tool, List.mem_append_right _ List.mem_cons_self, .inr hjob⟩
  · intro k hk
    -- The job that took the segments has kept its diameter.
    have hk' : ∃ l ∈ before ++ job :: after, l.diameter = k.diameter := by
      rcases List.mem_append.1 hk with hk | hk
      · exact ⟨k, List.mem_append_left _ hk, rfl⟩
      rcases List.mem_cons.1 hk with rfl | hk
      · exact ⟨job, List.mem_append_right _ List.mem_cons_self, rfl⟩
      · exact ⟨k, List.mem_append_right _ (List.mem_cons_of_mem _ hk), rfl⟩
    obtain ⟨l, hl, hlk⟩ := hk'
    obtain ⟨t, ht, htl⟩ := h.exists_tool l hl
    exact ⟨t, List.mem_append_left _ ht, htl.trans hlk⟩
  · have hperm := h.perm
    rw [List.flatMap_append, List.flatMap_cons] at hperm ⊢
    rw [ToolJob.holes_merged, List.flatMap_append, List.flatMap_cons, List.flatMap_nil,
      List.append_nil]
    refine List.Perm.trans ?_ (hperm.append_right tool.holes)
    rw [List.append_assoc, List.append_assoc, List.append_assoc]
    exact (List.perm_append_comm.append_left _).append_left _

/-- A tool of a new diameter becomes a job of its own. -/
theorem addTool_of_forall_not_equal (h : Merges tools jobs)
    (hnew : ∀ job ∈ jobs, job.diameter.equal tool.diameter = false) :
    Merges (tools ++ [tool]) (jobs ++ [tool]) := by
  refine ⟨?_, ?_, ?_, ?_, ?_⟩
  · refine List.pairwise_append.2 ⟨h.diameters, List.pairwise_singleton _ _, ?_⟩
    intro k hk l hl
    rw [List.mem_singleton.1 hl]
    exact hnew k hk
  · intro k hk hnan
    rcases List.mem_append.1 hk with hk | hk
    · have hne : tool.diameter.equal k.diameter = false := by
        rw [Binary64.equal_comm, hnew k hk]
      rw [ofDiameter_concat_of_not_equal hne]
      exact h.segments_eq k hk hnan
    · cases List.mem_singleton.1 hk
      -- A tool of this diameter would have a job, and the new tool would be merged into that.
      have hnone : ofDiameter tool.diameter tools = [] := by
        rw [ofDiameter, List.filter_eq_nil_iff]
        intro t ht heq
        obtain ⟨k, hk, hkt⟩ := h.exists_job t ht
        have hkt : k.diameter.equal tool.diameter = true := by
          rcases hkt with hkt | hkt
          · rw [hkt, heq]
          · exact Binary64.equal_trans hkt heq
        rw [hnew k hk] at hkt
        cases hkt
      rw [ofDiameter_concat_of_equal (Binary64.equal_self hnan), hnone, List.nil_append,
        List.flatMap_cons, List.flatMap_nil, List.append_nil]
  · intro t ht
    rcases List.mem_append.1 ht with ht | ht
    · obtain ⟨k, hk, hkt⟩ := h.exists_job t ht
      exact ⟨k, List.mem_append_left _ hk, hkt⟩
    · rw [List.mem_singleton.1 ht]
      exact ⟨tool, List.mem_append_right _ List.mem_cons_self, .inl rfl⟩
  · intro k hk
    rcases List.mem_append.1 hk with hk | hk
    · obtain ⟨t, ht, htk⟩ := h.exists_tool k hk
      exact ⟨t, List.mem_append_left _ ht, htk⟩
    · rw [List.mem_singleton.1 hk]
      exact ⟨tool, List.mem_append_right _ List.mem_cons_self, rfl⟩
  · rw [List.flatMap_append, List.flatMap_append]
    exact h.perm.append_right _

theorem addTool (h : Merges tools jobs) (tool : ToolJob) :
    Merges (tools ++ [tool]) (addTool tool jobs) := by
  -- The two cases are kept apart: either one job grows, or one is new.
  rcases addTool_cases tool jobs with ⟨before, job, after, rfl, hjob, hadd⟩ | ⟨hnew, hadd⟩
  · rw [hadd]
    exact h.addTool_of_equal hjob
  · rw [hadd]
    exact h.addTool_of_forall_not_equal hnew

theorem addTools (h : Merges tools jobs) (more : List ToolJob) :
    Merges (tools ++ more) (addTools jobs more) := by
  induction more generalizing tools jobs with
  | nil =>
    rw [List.append_nil]
    exact h
  | cons tool more ih =>
    rw [List.append_cons]
    exact ih (h.addTool tool)

end Merges

theorem merges_byDiameter (d : DrillJob) : Merges d.tools d.byDiameter :=
  Merges.nil.addTools d.tools

end DrillPost
