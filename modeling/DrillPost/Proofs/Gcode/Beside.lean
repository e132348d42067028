import DrillPost.Proofs.Files.Beside
import DrillPost.Proofs.Gcode.Programs

/-!
# Programs beside another file

Programs are put in place alike in two file systems that are the same but for one place, if that
place is out of their way (`Gcode.IsAside`): it is not the place of a program or of a temporary
file, and the paths of the programs do not lead through it. Then the same comes of both, and the
file systems are still the same but for the place (`Gcode.placeJobs_beside`).
-/

namespace DrillPost

variable {name : Bytes} {directory : Location} {entry : Entry}

namespace Outcome

variable {ε δ α β : Type} {place : Location} {o o' : Outcome ε α}

/-- The same came of two steps, and the files are the same but for one place. -/
structure Beside (place : Location) (entry : Entry) (o o' : Outcome ε α) : Prop where
  result_eq : o'.result = o.result
  files : FileSystem.Beside place entry o.files o'.files

namespace Beside

theorem andThen {next : α → FileSystem → Outcome ε β} (h : Beside place entry o o')
    (hnext : ∀ value fs fs', FileSystem.Beside place entry fs fs' →
      Beside place entry (next value fs) (next value fs')) :
    Beside place entry (o.andThen next) (o'.andThen next) := by
  unfold Outcome.andThen
  rw [h.result_eq]
  cases o.result with
  | error error => exact ⟨rfl, h.files⟩
  | ok value =>
    have hvalue := hnext value o.files o'.files h.files
    exact ⟨hvalue.result_eq, hvalue.files⟩

theorem map (h : Beside place entry o o') (f : α → β) :
    Beside place entry (o.map f) (o'.map f) := by
  refine ⟨?_, h.files⟩
  simp only [Outcome.map, h.result_eq]

theorem mapError (h : Beside place entry o o') (f : ε → δ) :
    Beside place entry (o.mapError f) (o'.mapError f) := by
  refine ⟨?_, h.files⟩
  simp only [Outcome.mapError, h.result_eq]

theorem afterEvents (h : Beside place entry o o') (events : List Event) :
    Beside place entry (o.afterEvents events) (o'.afterEvents events) :=
  ⟨h.result_eq, h.files⟩

end Beside

end Outcome

namespace Gcode

variable {disk : Disk} {host : Host} {settings : ProgramSettings} {sinkName : Path}
  {files files' : FileSystem} {path : Path}

/-! ### One file -/

/-- The place is out of the way when a program is put at its path. -/
structure IsAside (host : Host) (path : Path) (name : Bytes) (directory : Location) : Prop where
  workingDirectory : ¬ name :: directory <:+ host.workingDirectory
  isDots_eq : isDots name = false
  not_isSuffix_tmp : ¬ utf8 ".tmp" <:+ name
  not_mem_names : name ∉ path.names

theorem isSuffix_temporaryName (number : Nat) : utf8 ".tmp" <:+ temporaryName number := by
  rw [temporaryName, utf8_append]
  exact List.suffix_append _ _

theorem slash_not_mem_temporaryName (number : Nat) : slash ∉ temporaryName number := by
  apply slash_not_mem_utf8
  rw [String.toList_append, String.toList_append, List.mem_append, List.mem_append]
  rintro ((hc | hc) | hc)
  · exact absurd hc (by decide)
  · rw [String.toList_ofList] at hc
    have hdigit : '/'.isDigit = true := Nat.isDigit_of_mem_toDigits (by decide) (by decide) hc
    exact absurd hdigit (by decide)
  · exact absurd hc (by decide)

namespace IsAside

variable (h : IsAside host path name directory)
include h

theorem ne_dot : name ≠ [dot] := by
  have hdots := h.isDots_eq
  rintro rfl
  cases hdots

theorem ne_temporary (number : Nat) (inner : Location) :
    temporaryName number :: inner ≠ name :: directory := by
  intro heq
  apply h.not_isSuffix_tmp
  rw [← (List.cons.inj heq).1]
  exact isSuffix_temporaryName number

theorem not_mem_names_directoryOf : name ∉ (directoryOf path).names := by
  unfold directoryOf
  split
  · next parent hparent =>
    intro hmem
    obtain ⟨hparent, -⟩ := Option.filter_eq_some_iff.1 hparent
    exact h.not_mem_names ((Path.names_parent? hparent).subset hmem)
  · have hnames : (Path.ofText ".").names = [[dot]] := by decide
    rw [hnames, List.mem_singleton]
    exact h.ne_dot

/-- A temporary file is made at the same place in both. -/
theorem freshLocation_eq (hfiles : files.Beside (name :: directory) entry files') :
    freshLocation files' host (directoryOf path) = freshLocation files host (directoryOf path) := by
  obtain ⟨before, hbefore, hnames, hjoin⟩ := (directoryOf path).exists_join
  have hslash := slash_not_mem_temporaryName 0
  have hne : temporaryName 0 ≠ [] := by decide
  have hdropLast : name ∉ ((directoryOf path).join ⟨temporaryName 0⟩).names.dropLast := by
    rw [hjoin _ hslash, hbefore.names_append hslash hne, List.dropLast_concat, hnames]
    exact h.not_mem_names_directoryOf
  have htaken : ∀ number inner, files'.lookup? (temporaryName number :: inner) =
      files.lookup? (temporaryName number :: inner) := by
    intro number inner
    rw [hfiles, if_neg (h.ne_temporary number inner)]
  unfold freshLocation
  rw [hfiles.resolveParent_eq h.workingDirectory hdropLast]
  simp only [htaken]

theorem placedMode_eq (disk : Disk) (hfiles : files.Beside (name :: directory) entry files') :
    placedMode disk host files' path = placedMode disk host files path := by
  unfold placedMode
  rw [hfiles.entry?_eq h.workingDirectory h.not_mem_names]

theorem finish (disk : Disk) (hfiles : files.Beside (name :: directory) entry files')
    {temporary : Location} (htemporary : temporary ≠ name :: directory) (content : Bytes) :
    FileSystem.BesideResult (name :: directory) entry
      (Gcode.finish disk host files path temporary content)
      (Gcode.finish disk host files' path temporary content) := by
  unfold Gcode.finish
  rw [h.placedMode_eq disk hfiles]
  cases placedMode disk host files path with
  | error fault => exact .error fault
  | ok mode =>
    dsimp only
    cases disk.syncFault?.orElse fun _ => disk.moveFault? with
    | some fault => exact .error fault
    | none =>
      exact (hfiles.insert htemporary _).moveFile h.workingDirectory htemporary h.not_mem_names
        h.ne_dot

theorem put (disk : Disk) (hfiles : files.Beside (name :: directory) entry files')
    (pieces : List Piece) :
    Outcome.Beside (name :: directory) entry (Gcode.put disk host files path pieces)
      (Gcode.put disk host files' path pieces) := by
  unfold Gcode.put
  rw [h.freshLocation_eq hfiles]
  cases hfresh : freshLocation files host (directoryOf path) with
  | error fault => exact ⟨rfl, hfiles⟩
  | ok temporary =>
    have htemporary : temporary ≠ name :: directory := by
      unfold freshLocation at hfresh
      split at hfresh
      · cases hfresh
      split at hfresh
      · cases hfresh
      · cases hfresh
        exact h.ne_temporary _ _
    have hopened := hfiles.insert htemporary (.file (newFileMode host) [])
    have hfinish := h.finish disk hopened htemporary (deliver disk.room pieces).accepted
    dsimp only
    generalize Gcode.finish disk host (files.insert temporary _) path temporary _ = placed
      at hfinish ⊢
    generalize Gcode.finish disk host (files'.insert temporary _) path temporary _ = placed'
      at hfinish ⊢
    split_ifs
    · cases hfinish with
      | ok hplaced => exact ⟨rfl, hplaced⟩
      | error fault => exact ⟨rfl, hopened.erase htemporary⟩
    · exact ⟨rfl, hopened.erase htemporary⟩

end IsAside

/-! ### All programs -/

theorem place_beside {job : ToolJob}
    (h : job.diameter.isFinite = true →
      IsAside host (programPath sinkName job.diameter) name directory)
    (hfiles : files.Beside (name :: directory) entry files') :
    Outcome.Beside (name :: directory) entry (place disk host settings sinkName job files)
      (place disk host settings sinkName job files') := by
  unfold place
  cases hfault : fault? settings job with
  | some fault => exact ⟨rfl, hfiles⟩
  | none =>
    have hput := (h (isFinite_of_fault?_eq hfault)).put disk hfiles (pieces settings job)
    apply Outcome.Beside.afterEvents
    apply (hput.mapError _).andThen
    intro value fs fs' hplaced
    exact ⟨rfl, hplaced⟩

/-- The programs of jobs are put in place alike in both. -/
theorem placeJobs_beside (disks : Disks) (settings : ProgramSettings) (jobs : List ToolJob)
    (h : ∀ diameter : Binary64, diameter.isFinite = true →
      IsAside host (programPath sinkName diameter) name directory)
    (hfiles : files.Beside (name :: directory) entry files') :
    Outcome.Beside (name :: directory) entry (placeJobs disks host settings sinkName jobs files)
      (placeJobs disks host settings sinkName jobs files') := by
  induction jobs generalizing disks files files' with
  | nil => exact ⟨rfl, hfiles⟩
  | cons job jobs ih =>
    apply (place_beside (h job.diameter) hfiles).andThen
    intro path fs fs' hplaced
    exact (ih (disks.after 1) hplaced).map (path :: ·)

end Gcode

end DrillPost
