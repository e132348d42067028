import DrillPost.Proofs.Job.Merging
import DrillPost.Proofs.Job.Validation

/-!
# The first thing wrong with a job

A job whose diameter a tool can have is at fault exactly for its first hole with a coordinate that
is not finite (`ToolJob.firstNonFinite?_eq_some_iff`). `ToolJob.IsFirstNonFinite` says what is meant
by it: the position of the hole is the least, segments counting before holes, and so there is no
other such hole (`ToolJob.IsFirstNonFinite.unique`).

Tool jobs are without fault exactly if the jobs that they merge into are
(`DrillJob.forall_fault?_eq_none_iff`). The segments of a merged job are those of the tools of its
diameter, so the position that is reported for it counts the segments of these tools one after
another (`first_faults`).
-/

namespace DrillPost

namespace ToolJob

variable {segments : List Segment} {index index' position position' : Nat} {hole hole' : Hole}
  {fault : JobFault}

/-! ### Positions -/

/-- The hole stands at a position of a segment and has a coordinate that is not finite; every hole
at an earlier position, or in an earlier segment, is on the table. -/
structure IsFirstNonFinite (segments : List Segment) (index position : Nat) (hole : Hole) :
    Prop where
  exists_segment : ∃ segment, segments[index]? = some segment ∧
    segment.holes[position]? = some hole
  isFinite_eq : hole.isFinite = false
  isFinite_of_earlier : ∀ i j segment earlier, segments[i]? = some segment →
    segment.holes[j]? = some earlier → i < index ∨ i = index ∧ j < position →
      earlier.isFinite = true

/-- Of two different positions the earlier would be finite. -/
theorem IsFirstNonFinite.unique (h : IsFirstNonFinite segments index position hole)
    (h' : IsFirstNonFinite segments index' position' hole') :
    index = index' ∧ position = position' ∧ hole = hole' := by
  obtain ⟨segment, hsegment, hhole⟩ := h.exists_segment
  obtain ⟨segment', hsegment', hhole'⟩ := h'.exists_segment
  have hnot : ¬ (index' < index ∨ index' = index ∧ position' < position) := by
    intro hlt
    have hfinite := h.isFinite_of_earlier _ _ _ _ hsegment' hhole' hlt
    simp [h'.isFinite_eq] at hfinite
  have hnot' : ¬ (index < index' ∨ index = index' ∧ position < position') := by
    intro hlt
    have hfinite := h'.isFinite_of_earlier _ _ _ _ hsegment hhole hlt
    simp [h.isFinite_eq] at hfinite
  obtain rfl : index = index' := by omega
  obtain rfl : position = position' := by omega
  rw [hsegment] at hsegment'
  cases hsegment'
  rw [hhole] at hhole'
  exact ⟨rfl, rfl, Option.some.inj hhole'⟩

/-- A list is cut where a numbered element stands. -/
theorem exists_split_of_zipIdx {α : Type} {l : List α} {before after : List (α × Nat)} {a : α}
    {i : Nat} (h : l.zipIdx = before ++ (a, i) :: after) :
    ∃ init rest, l = init ++ a :: rest ∧ i = init.length ∧ before = init.zipIdx := by
  obtain ⟨init, last, rfl, hbefore, hlast⟩ := List.zipIdx_eq_append_iff.1 h
  obtain ⟨b, rest, rfl, heq, -⟩ := List.zipIdx_eq_cons_iff.1 hlast.symm
  cases heq
  exact ⟨init, rest, rfl, Nat.zero_add _, hbefore⟩

/-- Segments and the holes of one of them are cut where the first fault is found. -/
theorem exists_split_of_firstNonFinite? (h : firstNonFinite? segments = some fault) :
    ∃ before segment after init hole rest, segments = before ++ segment :: after ∧
      segment.holes = init ++ hole :: rest ∧
      fault = .nonFiniteCoordinate before.length init.length hole ∧ hole.isFinite = false ∧
      (∀ s ∈ before, ∀ k ∈ s.holes, k.isFinite = true) ∧ ∀ k ∈ init, k.isFinite = true := by
  obtain ⟨pairs, ⟨segment, index⟩, _, hzip, hfound, hnone⟩ := List.findSome?_eq_some_iff.1 h
  obtain ⟨before, after, rfl, rfl, rfl⟩ := exists_split_of_zipIdx hzip
  obtain ⟨⟨hole, position⟩, hfirst, rfl⟩ := Option.map_eq_some_iff.1 hfound
  obtain ⟨hnot, holePairs, _, hholes, hinit⟩ := List.find?_eq_some_iff_append.1 hfirst
  obtain ⟨init, rest, hsplit, rfl, rfl⟩ := exists_split_of_zipIdx hholes
  refine ⟨before, segment, after, init, hole, rest, rfl, hsplit, rfl, by simpa using hnot, ?_, ?_⟩
  · exact (firstNonFinite?_eq_none_iff before).1 (List.findSome?_eq_none_iff.2 hnone)
  · intro k hk
    obtain ⟨j, hj⟩ := List.mem_iff_getElem?.1 hk
    simpa using hinit (k, j) (List.mk_mem_zipIdx_iff_getElem?.2 hj)

theorem isFirstNonFinite_append {before after : List Segment} {segment : Segment}
    {init rest : List Hole} (hsplit : segment.holes = init ++ hole :: rest)
    (hnot : hole.isFinite = false) (hbefore : ∀ s ∈ before, ∀ k ∈ s.holes, k.isFinite = true)
    (hinit : ∀ k ∈ init, k.isFinite = true) :
    IsFirstNonFinite (before ++ segment :: after) before.length init.length hole := by
  refine ⟨⟨segment, by simp, by simp [hsplit]⟩, hnot, ?_⟩
  rintro i j other earlier hother hearlier (hlt | ⟨rfl, hlt⟩)
  · rw [List.getElem?_append_left hlt] at hother
    exact hbefore other (List.mem_of_getElem? hother) earlier (List.mem_of_getElem? hearlier)
  · rw [List.getElem?_append_right (Nat.le_refl _), Nat.sub_self, List.getElem?_cons_zero,
      Option.some_inj] at hother
    rw [← hother, hsplit, List.getElem?_append_left hlt] at hearlier
    exact hinit earlier (List.mem_of_getElem? hearlier)

theorem firstNonFinite?_eq_some_iff : firstNonFinite? segments = some fault ↔
    ∃ index position hole, fault = .nonFiniteCoordinate index position hole ∧
      IsFirstNonFinite segments index position hole := by
  constructor
  · intro h
    obtain ⟨before, segment, after, init, hole, rest, rfl, hsplit, rfl, hnot, hbefore, hinit⟩ :=
      exists_split_of_firstNonFinite? h
    exact ⟨_, _, hole, rfl, isFirstNonFinite_append hsplit hnot hbefore hinit⟩
  · rintro ⟨index, position, hole, rfl, hfirst⟩
    cases hfound : firstNonFinite? segments with
    | none =>
      obtain ⟨segment, hsegment, hhole⟩ := hfirst.exists_segment
      have hfinite := (firstNonFinite?_eq_none_iff segments).1 hfound segment
        (List.mem_of_getElem? hsegment) hole (List.mem_of_getElem? hhole)
      simp [hfirst.isFinite_eq] at hfinite
    | some found =>
      -- Whatever is found is first too, and there is one first hole.
      obtain ⟨before, segment, after, init, other, rest, rfl, hsplit, rfl, hnot, hbefore, hinit⟩ :=
        exists_split_of_firstNonFinite? hfound
      obtain ⟨rfl, rfl, rfl⟩ :=
        hfirst.unique (isFirstNonFinite_append hsplit hnot hbefore hinit)
      rfl

/-! ### Faults -/

theorem hasDiameter_iff (t : ToolJob) :
    t.hasDiameter = true ↔ t.diameter.isFinite = true ∧ Binary64.less .zero t.diameter = true :=
  Bool.and_eq_true_iff

theorem fault?_eq_invalidDiameter_iff (t : ToolJob) (x : Binary64) :
    t.fault? = some (.invalidDiameter x) ↔ x = t.diameter ∧ t.hasDiameter = false := by
  unfold fault?
  split
  · next hdiameter =>
    rw [firstNonFinite?_eq_some_iff, hdiameter]
    constructor
    · rintro ⟨_, _, _, hfault, -⟩
      cases hfault
    · rintro ⟨-, hnot⟩
      cases hnot
  · next hdiameter => simp [hdiameter, eq_comm]

theorem fault?_eq_nonFiniteCoordinate_iff (t : ToolJob) :
    t.fault? = some (.nonFiniteCoordinate index position hole) ↔
      t.hasDiameter = true ∧ IsFirstNonFinite t.segments index position hole := by
  unfold fault?
  split
  · next hdiameter =>
    rw [firstNonFinite?_eq_some_iff]
    constructor
    · rintro ⟨_, _, _, hfault, hfirst⟩
      cases hfault
      exact ⟨hdiameter, hfirst⟩
    · rintro ⟨-, hfirst⟩
      exact ⟨_, _, _, rfl, hfirst⟩
  · next hdiameter => simp [hdiameter]

/-- In the order in which the holes are drilled, all before the first that is not finite are. -/
theorem exists_holes_eq_of_fault? {t : ToolJob}
    (h : t.fault? = some (.nonFiniteCoordinate index position hole)) :
    ∃ earlier later, t.holes = earlier ++ hole :: later ∧ ∀ k ∈ earlier, k.isFinite = true := by
  obtain ⟨hdiameter, -⟩ := t.fault?_eq_nonFiniteCoordinate_iff.1 h
  rw [fault?, if_pos hdiameter] at h
  obtain ⟨before, segment, after, init, other, rest, hsegments, hsplit, hfault, -, hbefore,
    hinit⟩ := exists_split_of_firstNonFinite? h
  cases hfault
  refine ⟨before.flatMap Segment.holes ++ init, rest ++ after.flatMap Segment.holes, ?_, ?_⟩
  · simp [holes, hsegments, hsplit]
  · rw [List.forall_mem_append]
    refine ⟨fun k hk => ?_, hinit⟩
    obtain ⟨s, hs, hk⟩ := List.mem_flatMap.1 hk
    exact hbefore s hs k hk

end ToolJob

/-! ### Merged jobs -/

/-- Equal values are both diameters of tools, or neither is. -/
theorem ToolJob.hasDiameter_eq_of_equal {t u : ToolJob} (h : t.diameter.equal u.diameter = true) :
    t.hasDiameter = u.hasDiameter := by
  unfold hasDiameter
  cases ht : t.diameter <;> cases hu : u.diameter <;>
    simp_all [Binary64.equal, Binary64.less, Binary64.isFinite, Binary64.zero]

namespace DrillJob

theorem forall_fault?_eq_none_iff (d : DrillJob) :
    (∀ t ∈ d.tools, t.fault? = none) ↔ ∀ job ∈ d.byDiameter, job.fault? = none := by
  have hmerges := merges_byDiameter d
  simp only [ToolJob.fault?_eq_none_iff, ← ToolJob.hasDiameter_iff]
  constructor
  · intro h job hjob
    obtain ⟨tool, htool, hdiameter⟩ := hmerges.exists_tool job hjob
    refine ⟨?_, fun hole hhole => ?_⟩
    · have hhas := (h tool htool).1
      rwa [ToolJob.hasDiameter, hdiameter] at hhas
    · have hmem := hmerges.perm.mem_iff.1 (List.mem_flatMap.2 ⟨job, hjob, hhole⟩)
      obtain ⟨source, hsource, hhole⟩ := List.mem_flatMap.1 hmem
      exact (h source hsource).2 hole hhole
  · intro h tool htool
    obtain ⟨job, hjob, hdiameter⟩ := hmerges.exists_job tool htool
    refine ⟨?_, fun hole hhole => ?_⟩
    · rcases hdiameter with hdiameter | hequal
      · have hhas := (h job hjob).1
        rwa [ToolJob.hasDiameter, hdiameter] at hhas
      · rw [← ToolJob.hasDiameter_eq_of_equal hequal]
        exact (h job hjob).1
    · have hmem := hmerges.perm.mem_iff.2 (List.mem_flatMap.2 ⟨tool, htool, hhole⟩)
      obtain ⟨merged, hmerged, hhole⟩ := List.mem_flatMap.1 hmem
      exact (h merged hmerged).2 hole hhole

end DrillJob

/-- A job is without fault exactly if its diameter is finite and positive and each of its holes is
on the table. Otherwise the diameter is to blame, or else the first hole that is not on the table.
Tool jobs are without fault exactly if those that they merge into are. Where a merged job is at
fault for a hole, the hole has its position among the segments of the tools of the diameter, and all
holes of these tools that come before it in the source are on the table. -/
theorem first_faults (t : ToolJob) (d : DrillJob) :
    (t.fault? = none ↔
      (t.diameter.isFinite = true ∧ Binary64.less .zero t.diameter = true) ∧
        ∀ hole ∈ t.holes, hole.isFinite = true) ∧
    (∀ x, t.fault? = some (.invalidDiameter x) ↔ x = t.diameter ∧
      ¬ (t.diameter.isFinite = true ∧ Binary64.less .zero t.diameter = true)) ∧
    (∀ index position hole, t.fault? = some (.nonFiniteCoordinate index position hole) ↔
      (t.diameter.isFinite = true ∧ Binary64.less .zero t.diameter = true) ∧
        ToolJob.IsFirstNonFinite t.segments index position hole) ∧
    ((∀ tool ∈ d.tools, tool.fault? = none) ↔ ∀ job ∈ d.byDiameter, job.fault? = none) ∧
    ∀ job ∈ d.byDiameter, ∀ index position hole,
      job.fault? = some (.nonFiniteCoordinate index position hole) →
        ToolJob.IsFirstNonFinite ((ofDiameter job.diameter d.tools).flatMap ToolJob.segments)
          index position hole ∧
        ∃ earlier later, (ofDiameter job.diameter d.tools).flatMap ToolJob.holes =
            earlier ++ hole :: later ∧ ∀ k ∈ earlier, k.isFinite = true := by
  refine ⟨t.fault?_eq_none_iff, fun x => ?_, fun index position hole => ?_,
    d.forall_fault?_eq_none_iff, ?merged⟩
  · rw [t.fault?_eq_invalidDiameter_iff, ← t.hasDiameter_iff, Bool.not_eq_true]
  · rw [t.fault?_eq_nonFiniteCoordinate_iff, t.hasDiameter_iff]
  case merged =>
    intro job hjob index position hole hfault
    obtain ⟨hdiameter, hfirst⟩ := job.fault?_eq_nonFiniteCoordinate_iff.1 hfault
    have hnumber : job.diameter ≠ .nan := by
      intro hnan
      simp [ToolJob.hasDiameter, hnan, Binary64.isFinite] at hdiameter
    have hsegments := (merges_byDiameter d).segments_eq job hjob hnumber
    have hholes : (ofDiameter job.diameter d.tools).flatMap ToolJob.holes = job.holes := by
      rw [ToolJob.holes, hsegments, List.flatMap_assoc]
      rfl
    rw [hholes, ← hsegments]
    exact ⟨hfirst, ToolJob.exists_holes_eq_of_fault? hfault⟩

/-- The fault of a merged job counts the segments of two tools, with a tool that has no diameter
between them. -/
theorem first_faults_two_tools :
    let bad : Hole := ⟨.nan, .zero⟩
    let one : ToolJob := ⟨.ofNat 1, [⟨[⟨.zero, .zero⟩]⟩]⟩
    let two : ToolJob := ⟨.ofNat 1, [⟨[]⟩, ⟨[⟨.zero, .zero⟩, bad]⟩]⟩
    let d : DrillJob := ⟨[one, ⟨.nan, [⟨[bad]⟩]⟩, two]⟩
    let job : ToolJob := ⟨.ofNat 1, one.segments ++ two.segments⟩
    job ∈ d.byDiameter ∧ job.fault? = some (.nonFiniteCoordinate 2 1 bad) ∧
      ToolJob.IsFirstNonFinite ((ofDiameter job.diameter d.tools).flatMap ToolJob.segments) 2 1
        bad ∧
      ¬ ∀ tool ∈ d.tools, tool.fault? = none := by
  intro bad one two d job
  obtain ⟨-, -, -, hall, hmerged⟩ := first_faults job d
  have hjob : job ∈ d.byDiameter := by decide +kernel
  have hfault : job.fault? = some (.nonFiniteCoordinate 2 1 bad) := by decide +kernel
  refine ⟨hjob, hfault, (hmerged job hjob 2 1 bad hfault).1, fun hnone => ?_⟩
  rw [hall.1 hnone job hjob] at hfault
  cases hfault

end DrillPost
