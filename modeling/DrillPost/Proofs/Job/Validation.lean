import DrillPost.Job.Basic
import DrillPost.Settings.Basic
import Mathlib.Logic.Basic

/-!
# Settings and jobs without fault

Settings are fit for a program exactly if the depth is a finite number that is not negative and the
height is finite (`ProgramSettings.fault?_eq_none_iff`). A job is fit to be drilled exactly if its
diameter is a finite positive number and each of its holes is on the table
(`ToolJob.fault?_eq_none_iff`).
-/

namespace DrillPost

theorem ProgramSettings.fault?_eq_none_iff (s : ProgramSettings) :
    s.fault? = none ↔ s.drillDepth.isFinite = true ∧ Binary64.less s.drillDepth .zero = false ∧
      s.safeHeight.isFinite = true := by
  unfold fault? hasDepth
  split
  · next h =>
    rw [Bool.and_eq_true, Bool.not_eq_true'] at h
    split
    · next hheight => exact ⟨fun _ => ⟨h.1, h.2, hheight⟩, fun _ => rfl⟩
    · next hheight => exact ⟨nofun, fun h => absurd h.2.2 hheight⟩
  · next h =>
    rw [Bool.and_eq_true, Bool.not_eq_true'] at h
    exact ⟨nofun, fun hdepth => absurd ⟨hdepth.1, hdepth.2.1⟩ h⟩

namespace ToolJob

theorem firstNonFinite?_eq_none_iff (segments : List Segment) :
    firstNonFinite? segments = none ↔ ∀ s ∈ segments, ∀ h ∈ s.holes, h.isFinite = true := by
  rw [firstNonFinite?, List.findSome?_eq_none_iff]
  constructor
  · intro h s hs hole hhole
    obtain ⟨i, hi⟩ := List.mem_iff_getElem?.1 hs
    obtain ⟨j, hj⟩ := List.mem_iff_getElem?.1 hhole
    have hnone := Option.map_eq_none_iff.1 (h (s, i) (List.mk_mem_zipIdx_iff_getElem?.2 hi))
    have hfinite := List.find?_eq_none.1 hnone (hole, j) (List.mk_mem_zipIdx_iff_getElem?.2 hj)
    simpa using hfinite
  · rintro h ⟨s, i⟩ hs
    rw [Option.map_eq_none_iff, List.find?_eq_none]
    rintro ⟨hole, j⟩ hhole
    have hfinite := h s (List.fst_mem_of_mem_zipIdx hs) hole (List.fst_mem_of_mem_zipIdx hhole)
    show ¬ (!hole.isFinite) = true
    rw [hfinite]
    decide

theorem fault?_eq_none_iff (t : ToolJob) :
    t.fault? = none ↔ (t.diameter.isFinite = true ∧ Binary64.less .zero t.diameter = true) ∧
      ∀ h ∈ t.holes, h.isFinite = true := by
  have hholes : (∀ h ∈ t.holes, h.isFinite = true) ↔
      ∀ s ∈ t.segments, ∀ h ∈ s.holes, h.isFinite = true := by
    constructor
    · intro h s hs hole hhole
      exact h hole (List.mem_flatMap.2 ⟨s, hs, hhole⟩)
    · intro h hole hhole
      obtain ⟨s, hs, hhole⟩ := List.mem_flatMap.1 hhole
      exact h s hs hole hhole
  rw [hholes, ← firstNonFinite?_eq_none_iff, ← Bool.and_eq_true]
  unfold fault? hasDiameter
  split
  · next h => exact ⟨fun hnone => ⟨h, hnone⟩, fun hnone => hnone.2⟩
  · next h => exact ⟨nofun, fun hnone => absurd hnone.1 h⟩

end ToolJob

end DrillPost
