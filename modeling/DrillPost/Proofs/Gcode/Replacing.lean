import DrillPost.Proofs.Gcode.Programs

/-!
# Programs that are in place already

A program that could be put in place can be put in place once more, on the files that it left or on
any others with the same directories and the same temporary files, as long as permission bits can be
given to what is there (`Gcode.put_again`). Where the program is held already, that changes nothing
that can be looked up (`Gcode.place_again`), and so it is with all programs of a list of jobs
(`Gcode.placeJobs_again`).
-/

namespace DrillPost

/-- The same disk, where permission bits can be changed. -/
def Disk.permissive (disk : Disk) : Disk := { disk with modeFault? := none }

/-- The same disks, where permission bits can be changed. -/
def Disks.permissive (disks : Disks) : Disks := fun position => (disks position).permissive

namespace Gcode

variable {disk : Disk} {host : Host} {settings : ProgramSettings} {sinkName : Path}
  {files again : FileSystem} {path : Path}

/-! ### The same room -/

/-- A file that can be put in place in one file system can be put in place in the other. -/
structure SameRoom (files again : FileSystem) : Prop where
  isDirectory_eq : ∀ here, again.isDirectory here = files.isDirectory here
  lookup?_temporary : ∀ number directory, again.lookup? (temporaryName number :: directory) =
    files.lookup? (temporaryName number :: directory)

theorem SameRoom.leads (h : SameRoom files again) {directory : Location} {name : Bytes}
    (hleads : files.Leads host path directory name) : again.Leads host path directory name :=
  hleads.mono fun here hhere => (h.isDirectory_eq here).trans hhere

theorem SameRoom.freshLocation (h : SameRoom files again) {directory : Path} {temporary : Location}
    (hfresh : freshLocation files host directory = .ok temporary) :
    Gcode.freshLocation again host directory = .ok temporary := by
  unfold Gcode.freshLocation at hfresh ⊢
  split at hfresh
  · cases hfresh
  · next place name hparent =>
    have hdir : ∀ here, files.isDirectory here = true → again.isDirectory here = true :=
      fun here hhere => (h.isDirectory_eq here).trans hhere
    rw [FileSystem.resolveParent_mono hdir hparent]
    simpa only [h.lookup?_temporary] using hfresh

theorem exists_placedMode_permissive (disk : Disk) (host : Host) (files : FileSystem)
    (path : Path) : ∃ mode, placedMode disk.permissive host files path = .ok mode := by
  unfold placedMode
  cases files.entry? host path with
  | none => exact ⟨_, rfl⟩
  | some entry => exact ⟨_, rfl⟩

/-! ### Once more -/

theorem finish_again {temporary : Location} {content : Bytes} {placed : FileSystem}
    (hdir : ∀ here, again.isDirectory here = files.isDirectory here)
    (htemporary : files.isDirectory temporary = false)
    (h : finish disk host files path temporary content = .ok placed) :
    ∃ placed', finish disk.permissive host again path temporary content = .ok placed' := by
  unfold finish at h ⊢
  split at h
  · cases h
  next mode hmode =>
  split at h
  · cases h
  next hfault =>
  obtain ⟨mode', hmode'⟩ := exists_placedMode_permissive disk host again path
  obtain ⟨directory, name, entry, hleads, hfile, hentry, -⟩ := FileSystem.moveFile_eq_ok h
  have hsame : ∀ here, (again.insert temporary (.file mode' content)).isDirectory here =
      (files.insert temporary (.file mode content)).isDirectory here := by
    intro here
    rw [FileSystem.isDirectory_insert_file ((hdir temporary).trans htemporary),
      FileSystem.isDirectory_insert_file htemporary, hdir]
  have hleads' := hleads.mono fun here hhere => (hsame here).trans hhere
  have hmoved := hleads'.moveFile_eq ((hsame _).trans hfile) (FileSystem.lookup?_insert_self _ _ _)
  rw [hmode']
  dsimp only [Disk.permissive]
  rw [hfault]
  exact ⟨_, hmoved⟩

theorem put_again {pieces : List Piece} {value : Unit} (hsame : SameRoom files again)
    (h : (put disk host files path pieces).result = .ok value) :
    (put disk.permissive host again path pieces).result = .ok value := by
  unfold put at h ⊢
  split at h
  · cases h
  next temporary hfresh =>
  have hnone := freshLocation_eq_ok hfresh
  rw [hsame.freshLocation hfresh]
  have hnone' := freshLocation_eq_ok (hsame.freshLocation hfresh)
  dsimp only [Disk.permissive] at h ⊢
  split at h
  · next hcomplete =>
    rw [if_pos hcomplete]
    split at h
    · cases h
    · next placed hfinish =>
      have hdir : ∀ here,
          (again.insert temporary (.file (newFileMode host) [])).isDirectory here =
            (files.insert temporary (.file (newFileMode host) [])).isDirectory here := by
        intro here
        rw [isDirectory_temporary hnone', isDirectory_temporary hnone, hsame.isDirectory_eq]
      have htemporary :
          (files.insert temporary (.file (newFileMode host) [])).isDirectory temporary = false := by
        rw [isDirectory_temporary hnone]
        exact FileSystem.isDirectory_eq_false_of_lookup? hnone
      obtain ⟨placed', hfinish'⟩ := finish_again hdir htemporary hfinish
      dsimp only [Disk.permissive] at hfinish'
      rw [hfinish']
      rfl
  · cases h

/-- What comes of a program is what comes of its pieces, unless it has a fault. -/
theorem place_result (disk : Disk) (host : Host) (settings : ProgramSettings) (sinkName : Path)
    (job : ToolJob) (files : FileSystem) :
    (place disk host settings sinkName job files).result =
      match fault? settings job with
      | some fault => .error fault
      | none =>
        match (put disk host files (programPath sinkName job.diameter)
            (pieces settings job)).result with
        | .ok () => .ok (programPath sinkName job.diameter)
        | .error cause => .error (.destination (programPath sinkName job.diameter) cause) := by
  unfold place
  cases fault? settings job with
  | some fault => rfl
  | none =>
    dsimp only [Outcome.afterEvents, Outcome.andThen, Outcome.mapError]
    cases (put disk host files (programPath sinkName job.diameter) (pieces settings job)).result <;>
      rfl

/-- The program of a job is at its path. -/
def IsHeld (host : Host) (settings : ProgramSettings) (sinkName : Path) (files : FileSystem)
    (job : ToolJob) : Prop :=
  ∃ directory name mode, files.Leads host (programPath sinkName job.diameter) directory name ∧
    files.lookup? (name :: directory) = some (.file mode (utf8 (document settings job)))

/-- A program that is at its path can be put there again, and nothing changes. -/
theorem place_again {job : ToolJob} {written : Path} (hsame : SameRoom files again)
    (hheld : IsHeld host settings sinkName again job)
    (h : (place disk host settings sinkName job files).result = .ok written) :
    let o := place disk.permissive host settings sinkName job again
    o.result = .ok written ∧ ∀ here, o.files.lookup? here = again.lookup? here := by
  intro o
  have hresult : o.result = .ok written := by
    have hput := place_result disk host settings sinkName job files
    rw [h] at hput
    show (place disk.permissive host settings sinkName job again).result = .ok written
    rw [place_result]
    split at hput
    · cases hput
    split at hput
    · next hput' =>
      rw [put_again hsame hput', hput]
    · cases hput
  refine ⟨hresult, ?_⟩
  obtain ⟨-, rfl, directory, name, hleads, hplaced⟩ := place_eq_ok hresult
  obtain ⟨inner, last, mode, hleads', hlookup⟩ := hheld
  obtain ⟨rfl, rfl⟩ := Prod.mk.inj (Except.ok.inj
    (hleads.resolveParent_eq.symm.trans hleads'.resolveParent_eq))
  intro here
  by_cases hhere : here = name :: directory
  · -- The file has the content and the permission bits that it had.
    rw [hhere, hplaced.lookup?_target, hlookup]
    rfl
  · exact hplaced.lookup?_other here hhere

theorem temporaryName_ne_target {diameter : Binary64} {directory : Location} {name : Bytes}
    (hleads : files.Leads host (programPath sinkName diameter) directory name) (number : Nat)
    (inner : Location) : temporaryName number :: inner ≠ name :: directory := by
  obtain ⟨init, last, hends⟩ := exists_leads_programPath host sinkName
  intro heq
  have htmp : utf8 ".tmp" <:+ temporaryName number := by
    rw [temporaryName, utf8_append]
    exact List.suffix_append _ _
  rw [(List.cons.inj heq).1, (hends hleads).2] at htmp
  exact not_isSuffix_tmp last diameter htmp

/-- After all programs have been put in place, there is room for them as before. -/
theorem AllPlaced.sameRoom {jobs : List ToolJob}
    (h : AllPlaced host settings sinkName jobs files again) : SameRoom files again := by
  refine ⟨h.isDirectory_eq, ?_⟩
  intro number inner
  apply h.lookup?_other
  intro job hjob directory name hleads
  exact temporaryName_ne_target hleads number inner

theorem AllPlaced.isHeld {jobs : List ToolJob}
    (h : AllPlaced host settings sinkName jobs files again) :
    ∀ job ∈ jobs, IsHeld host settings sinkName again job := by
  intro job hjob
  obtain ⟨directory, name, hleads, hlookup⟩ := h.exists_lookup? job hjob
  exact ⟨directory, name, _, h.sameRoom.leads hleads, hlookup⟩

/-- Programs that are at their paths can be put there again, and nothing changes. -/
theorem placeJobs_again {disks : Disks} {jobs : List ToolJob} {paths : List Path} (hsame : SameRoom files again)
    (hheld : ∀ job ∈ jobs, IsHeld host settings sinkName again job)
    (h : (placeJobs disks host settings sinkName jobs files).result = .ok paths) :
    let o := placeJobs disks.permissive host settings sinkName jobs again
    o.result = .ok paths ∧ ∀ here, o.files.lookup? here = again.lookup? here := by
  induction jobs generalizing disks files again paths with
  | nil => exact ⟨h, fun _ => rfl⟩
  | cons job jobs ih =>
    obtain ⟨hjob, hjobs⟩ := List.forall_mem_cons.1 hheld
    obtain ⟨written, hwritten, hrest, -⟩ := Outcome.andThen_eq_ok h
    obtain ⟨more, hmore, rfl⟩ := Outcome.map_eq_ok hrest
    let first := place (disks.permissive 0) host settings sinkName job again
    have hfirst : first.result = .ok written ∧
        ∀ here, first.files.lookup? here = again.lookup? here := place_again hsame hjob hwritten
    obtain ⟨hagain, hunchanged⟩ := hfirst
    obtain ⟨hfault, rfl, directory, name, hleads, hplaced⟩ := place_eq_ok hwritten
    have hisDirectory : ∀ here, first.files.isDirectory here = again.isDirectory here := by
      intro here
      rw [FileSystem.isDirectory, hunchanged, FileSystem.isDirectory]
    -- The first program changes neither directories nor temporary files.
    have hnext : SameRoom (place (disks 0) host settings sinkName job files).files
        first.files := by
      constructor
      · intro here
        rw [hisDirectory, hsame.isDirectory_eq, hplaced.isDirectory]
      · intro number inner
        rw [hunchanged, hsame.lookup?_temporary, hplaced.lookup?_other]
        exact temporaryName_ne_target hleads number inner
    have hheld' : ∀ other ∈ jobs, IsHeld host settings sinkName first.files other := by
      intro other hother
      obtain ⟨inner, last, mode, hlast, hlookup⟩ := hjobs other hother
      refine ⟨inner, last, mode, ?_, (hunchanged _).trans hlookup⟩
      exact hlast.mono fun here hhere => (hisDirectory here).trans hhere
    have hothers : (placeJobs (disks.permissive.after 1) host settings sinkName jobs
        first.files).result = .ok more ∧ ∀ here, (placeJobs (disks.permissive.after 1) host
          settings sinkName jobs first.files).files.lookup? here = first.files.lookup? here :=
      ih hnext hheld' hmore
    obtain ⟨hresult, hrest⟩ := hothers
    constructor
    · rw [placeJobs, Outcome.andThen, hagain]
      dsimp only [Outcome.afterEvents, Outcome.map]
      rw [hresult]
    · intro here
      rw [placeJobs, Outcome.andThen, hagain]
      exact (hrest here).trans (hunchanged here)

end Gcode

end DrillPost
