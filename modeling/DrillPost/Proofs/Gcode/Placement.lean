import DrillPost.Gcode.Placement
import DrillPost.Proofs.Files.Resolve
import DrillPost.Proofs.Gcode.Word
import DrillPost.Proofs.Job.Validation
import DrillPost.Proofs.Text.Utf8

/-!
# Programs are put in place as a whole

A program either gets to its path, and then nothing but what is at the path has changed, or the
files are what they were (`Gcode.place_atomic`). `Gcode.Placed` is what has happened when a file is
in place: its content is new, its permission bits are those of the file that was there, and every
other location holds what it held.

The temporary file is made where nothing was (`Gcode.freshLocation_eq_ok`). So to take it away
undoes it, and to move it is to make the file at the path.
-/

namespace DrillPost.Gcode

/-! ### Sending pieces -/

theorem joinPieces_event (e : Event) (rest : List Piece) :
    joinPieces (.event e :: rest) = joinPieces rest := rfl

theorem joinPieces_text (s : String) (rest : List Piece) :
    joinPieces (.text s :: rest) = s ++ joinPieces rest := by
  have htext : Piece.text? (.text s) = some s := rfl
  rw [joinPieces, List.filterMap_cons_some htext, String.join_cons, joinPieces]

/-- A sink that has taken every piece holds their text. -/
theorem accepted_deliver {room : Option Nat} {pieces : List Piece}
    (h : (deliver room pieces).isComplete = true) :
    (deliver room pieces).accepted = utf8 (joinPieces pieces) := by
  induction pieces generalizing room with
  | nil => cases room <;> rfl
  | cons piece rest ih =>
    cases piece with
    | event e =>
      rw [deliver] at h ⊢
      rw [joinPieces_event]
      exact ih h
    | text s =>
      rw [joinPieces_text, utf8_append]
      cases room with
      | none =>
        rw [deliver] at h ⊢
        exact congrArg (utf8 s ++ ·) (ih h)
      | some room =>
        rw [deliver] at h ⊢
        split at h
        · next hfits =>
          rw [if_pos hfits]
          exact congrArg (utf8 s ++ ·) (ih h)
        · cases h

/-! ### Putting a file in place -/

variable {disk : Disk} {host : Host} {files files' : FileSystem} {path : Path}
  {target temporary : Location} {content : Bytes}

/-- A temporary file is made where nothing is. -/
theorem freshLocation_eq_ok {directory : Path}
    (h : freshLocation files host directory = .ok temporary) : files.lookup? temporary = none := by
  unfold freshLocation at h
  split at h
  · cases h
  next place _ _ =>
  split at h
  · cases h
  next number hfree =>
  cases h
  have htaken := not_isTaken_of_firstFree? hfree
  rwa [Option.isSome_eq_false_iff, Option.isNone_iff_eq_none] at htaken

/-- The file at a place has new content, and nothing else has changed. -/
structure Placed (host : Host) (files : FileSystem) (target : Location) (content : Bytes)
    (files' : FileSystem) : Prop where
  /-- No directory gave way to the file. -/
  isDirectory_eq : files.isDirectory target = false
  /-- A file that was there keeps its permission bits. -/
  lookup?_target : files'.lookup? target =
    some (.file ((files.lookup? target).elim (newFileMode host) Entry.mode) content)
  lookup?_other : ∀ other, other ≠ target → files'.lookup? other = files.lookup? other

theorem Placed.isDirectory (h : Placed host files target content files') (here : Location) :
    files'.isDirectory here = files.isDirectory here := by
  by_cases heq : here = target
  · rw [heq, h.isDirectory_eq, FileSystem.isDirectory, h.lookup?_target]
    rfl
  · rw [FileSystem.isDirectory, h.lookup?_other here heq, FileSystem.isDirectory]

/-- The permission bits of a program are looked up at the place that its path leads to. -/
theorem placedMode_eq_ok {directory : Location} {name : Bytes} {mode : Nat}
    (hleads : files.Leads host path directory name)
    (h : placedMode disk host files path = .ok mode) :
    mode = (files.lookup? (name :: directory)).elim (newFileMode host) Entry.mode := by
  rw [placedMode, hleads.entry?_eq] at h
  cases hentry : files.lookup? (name :: directory) with
  | none =>
    rw [hentry] at h
    cases h
    rfl
  | some entry =>
    rw [hentry] at h
    cases hfault : disk.modeFault? with
    | none =>
      rw [hfault] at h
      cases h
      rfl
    | some fault =>
      rw [hfault] at h
      cases h

/-- With its temporary file a directory tree is what it is without. -/
theorem isDirectory_temporary (hfresh : files.lookup? temporary = none) (mode : Nat)
    (content : Bytes) (here : Location) :
    (files.insert temporary (.file mode content)).isDirectory here = files.isDirectory here :=
  FileSystem.isDirectory_insert_file (FileSystem.isDirectory_eq_false_of_lookup? hfresh) here

/-- A temporary file that is filled and moved is the file that the path leads to. -/
theorem finish_eq_ok (hfresh : files.lookup? temporary = none)
    (h : finish disk host (files.insert temporary (.file (newFileMode host) [])) path temporary
      content = .ok files') :
    ∃ directory name, files.Leads host path directory name ∧
      Placed host files (name :: directory) content files' := by
  unfold finish at h
  split at h
  · cases h
  next mode hmode =>
  split at h
  · cases h
  obtain ⟨directory, name, entry, hleads, hfile, hentry, rfl⟩ := FileSystem.moveFile_eq_ok h
  -- Neither making nor filling the temporary file changes a directory, so the path leads where it
  -- led before.
  generalize hopened : files.insert temporary (.file (newFileMode host) []) = opened at *
  have hdir : ∀ here, (opened.insert temporary (.file mode content)).isDirectory here =
      files.isDirectory here := by
    intro here
    have htemporary : opened.isDirectory temporary = false := by
      rw [← hopened, FileSystem.isDirectory, FileSystem.lookup?_insert_self]
      rfl
    rw [FileSystem.isDirectory_insert_file htemporary, ← hopened, isDirectory_temporary hfresh]
  have hother : ∀ here, here ≠ temporary → opened.lookup? here = files.lookup? here := by
    intro here hne
    rw [← hopened, FileSystem.lookup?_insert_of_ne hne]
  rw [FileSystem.lookup?_insert_self] at hentry
  cases hentry
  have hfiles : files.Leads host path directory name :=
    hleads.mono fun here hhere => (hdir here) ▸ hhere
  have hopenedLeads : opened.Leads host path directory name := by
    refine hfiles.mono fun here hhere => ?_
    rwa [← hopened, isDirectory_temporary hfresh]
  -- With the temporary file gone, only the file at the path is new.
  have hkept : ∀ here, ((opened.insert temporary (.file mode content)).erase temporary).lookup? here
      = files.lookup? here := by
    intro here
    rw [FileSystem.lookup?_erase]
    split
    · next heq => rw [heq, hfresh]
    · next hne => rw [FileSystem.lookup?_insert_of_ne hne, hother here hne]
  refine ⟨directory, name, hfiles, ?_, ?_, ?_⟩
  · rw [← hdir, hfile]
  · have hmode := placedMode_eq_ok hopenedLeads hmode
    rw [FileSystem.lookup?_insert_self, hmode]
    -- The path may lead to the temporary file itself, where nothing was before.
    by_cases heq : name :: directory = temporary
    · rw [heq, hfresh, ← hopened, FileSystem.lookup?_insert_self]
      rfl
    · rw [hother _ heq]
  · intro other hne
    rw [FileSystem.lookup?_insert_of_ne hne, hkept]

/-- Pieces that cannot be put in place leave the files as they were. -/
theorem put_eq_error {pieces : List Piece} {fault : IoError}
    (h : (put disk host files path pieces).result = .error fault) :
    (put disk host files path pieces).files = files := by
  unfold put at h ⊢
  split
  · rfl
  next temporary htemporary =>
  -- Whatever fails from here on, the temporary file is taken away again.
  have herase := FileSystem.erase_insert (freshLocation_eq_ok htemporary)
    (.file (newFileMode host) [])
  rw [htemporary] at h
  dsimp only at h ⊢
  split
  · next hcomplete =>
    rw [if_pos hcomplete] at h
    split
    · exact herase
    · next hfinish =>
      rw [hfinish] at h
      cases h
  · exact herase

/-- Pieces that are put in place are the file that the path leads to. -/
theorem put_eq_ok {pieces : List Piece} {value : Unit}
    (h : (put disk host files path pieces).result = .ok value) :
    ∃ directory name, files.Leads host path directory name ∧
      Placed host files (name :: directory) (utf8 (joinPieces pieces))
        (put disk host files path pieces).files := by
  unfold put at h ⊢
  split
  · next htemporary =>
    rw [htemporary] at h
    cases h
  next temporary htemporary =>
  rw [htemporary] at h
  dsimp only at h ⊢
  split
  · next hcomplete =>
    rw [if_pos hcomplete] at h
    split
    · next hfinish =>
      rw [hfinish] at h
      cases h
    · next placed hfinish =>
      rw [← accepted_deliver hcomplete]
      exact finish_eq_ok (freshLocation_eq_ok htemporary) hfinish
  · next hcomplete =>
    rw [if_neg hcomplete] at h
    cases h

/-! ### The path of a program -/

def pathEnding (diameter : Binary64) : Bytes := utf8 ("_" ++ scalar diameter ++ "." ++ extension)

theorem programPath_eq (sinkName : Path) (diameter : Binary64) :
    programPath sinkName diameter = ⟨sinkName.bytes ++ pathEnding diameter⟩ := rfl

theorem isSuffix_pathEnding (diameter : Binary64) : utf8 ".cnc" <:+ pathEnding diameter := by
  refine ⟨utf8 ("_" ++ scalar diameter), ?_⟩
  rw [pathEnding, String.append_assoc, utf8_append _ ("." ++ extension)]
  rfl

theorem pathEnding_ne_nil (diameter : Binary64) : pathEnding diameter ≠ [] := by
  intro hnil
  have hlength := (isSuffix_pathEnding diameter).length_le
  rw [hnil] at hlength
  exact absurd hlength (by decide)

/-- The ending belongs to the last name of the path. -/
theorem slash_not_mem_pathEnding (diameter : Binary64) : slash ∉ pathEnding diameter := by
  refine slash_not_mem_utf8 ?_
  rw [String.toList_append, String.toList_append, String.toList_append, List.mem_append,
    List.mem_append, List.mem_append]
  rintro (((hc | hc) | hc) | hc)
  · exact absurd hc (by decide)
  · exact slash_not_mem_scalar diameter hc
  · exact absurd hc (by decide)
  · exact absurd hc (by decide)

theorem start_programPath (diameter : Binary64) (host : Host) (sinkName : Path) :
    FileSystem.start host (programPath sinkName diameter) = FileSystem.start host sinkName := by
  have habsolute : (programPath sinkName diameter).isAbsolute = sinkName.isAbsolute := by
    rw [programPath_eq, Path.isAbsolute, Path.isAbsolute]
    cases hbytes : sinkName.bytes with
    | nil =>
      rw [List.nil_append, List.head?_nil, Option.none_beq_some, beq_eq_false_iff_ne]
      exact fun hhead => slash_not_mem_pathEnding diameter (List.mem_of_mem_head? hhead)
    | cons b rest => rfl
  rw [FileSystem.start, FileSystem.start, habsolute]

/-- All programs of a run have their places in one directory, under names that differ only in how
they end. -/
theorem exists_leads_programPath (host : Host) (sinkName : Path) :
    ∃ init last, ∀ {diameter : Binary64} {files : FileSystem} {directory : Location} {name : Bytes},
      files.Leads host (programPath sinkName diameter) directory name →
        files.follow (FileSystem.start host sinkName) init = .ok directory ∧
          name = last ++ pathEnding diameter := by
  obtain ⟨init, last, hnames⟩ := Path.exists_names_append sinkName.bytes
  refine ⟨init, last, ?_⟩
  intro diameter files directory name hleads
  have hnames := hnames (pathEnding diameter) (slash_not_mem_pathEnding diameter)
    (pathEnding_ne_nil diameter)
  obtain ⟨-, hfollow, -, hname⟩ := FileSystem.resolveParent_eq_ok hleads.resolveParent_eq
  rw [start_programPath, programPath_eq, hnames, List.dropLast_concat] at hfollow
  rw [programPath_eq, hnames, List.getLast?_concat, Option.getD_some] at hname
  exact ⟨hfollow, hname.symm⟩

/-! ### Putting a program in place -/

section Place

variable {settings : ProgramSettings} {sinkName : Path} {job : ToolJob}

theorem fault?_eq_none_iff : fault? settings job = none ↔
    settings.fault? = none ∧ job.fault? = none := by
  unfold fault?
  cases settings.fault? with
  | none =>
    exact ⟨fun h => ⟨rfl, Option.map_eq_none_iff.1 h⟩, fun h => Option.map_eq_none_iff.2 h.2⟩
  | some fault => exact ⟨nofun, nofun⟩

/-- A program that is in place is the text of the program, at a place in the directory of the
path. -/
theorem place_eq_ok {written : Path}
    (h : (place disk host settings sinkName job files).result = .ok written) :
    fault? settings job = none ∧ written = programPath sinkName job.diameter ∧
      ∃ directory name, files.Leads host written directory name ∧
        Placed host files (name :: directory) (utf8 (document settings job))
          (place disk host settings sinkName job files).files := by
  unfold place at h ⊢
  split
  · next fault hfault =>
    rw [hfault] at h
    cases h
  next hfault =>
  rw [hfault] at h
  dsimp only [Outcome.afterEvents, Outcome.andThen, Outcome.mapError] at h ⊢
  cases hput : (put disk host files (programPath sinkName job.diameter)
    (pieces settings job)).result with
  | error cause =>
    rw [hput] at h
    cases h
  | ok value =>
    rw [hput] at h
    cases h
    exact ⟨hfault, rfl, put_eq_ok hput⟩

/-- A program that is not in place has changed nothing, and faults of the settings come before those
of the job and these before any failure to put it in place. -/
theorem place_eq_error {error : ProgramError}
    (h : (place disk host settings sinkName job files).result = .error error) :
    (place disk host settings sinkName job files).files = files ∧
      (fault? settings job = some error ∨ fault? settings job = none ∧
        ∃ cause, error = .destination (programPath sinkName job.diameter) cause) := by
  unfold place at h ⊢
  split
  · next fault hfault =>
    rw [hfault] at h
    cases h
    exact ⟨rfl, .inl hfault⟩
  next hfault =>
  rw [hfault] at h
  dsimp only [Outcome.afterEvents, Outcome.andThen, Outcome.mapError] at h ⊢
  cases hput : (put disk host files (programPath sinkName job.diameter)
    (pieces settings job)).result with
  | error cause =>
    rw [hput] at h
    cases h
    exact ⟨put_eq_error hput, .inr ⟨hfault, cause, rfl⟩⟩
  | ok value =>
    rw [hput] at h
    cases h

/-- The name of a program is not the name of a temporary file. -/
theorem not_isSuffix_tmp (last : Bytes) (diameter : Binary64) :
    ¬ utf8 ".tmp" <:+ last ++ pathEnding diameter := by
  intro htmp
  have hcnc : utf8 ".cnc" <:+ last ++ pathEnding diameter :=
    (isSuffix_pathEnding diameter).trans (List.suffix_append _ _)
  have hsuffix : utf8 ".tmp" <:+ utf8 ".cnc" :=
    List.suffix_of_suffix_length_le htmp hcnc (by decide)
  exact absurd hsuffix (by decide)

/-- Putting a program in place does all of it or nothing. -/
theorem place_atomic (disk : Disk) (host : Host) (settings : ProgramSettings) (sinkName : Path)
    (job : ToolJob) (files : FileSystem) :
    let path := programPath sinkName job.diameter
    let o := place disk host settings sinkName job files
    match o.result with
    | .error error =>
      o.files = files ∧
        match settings.fault?, job.fault? with
        | some fault, _ => error = .settings fault
        | none, some fault => error = .job fault
        | none, none => ∃ cause, error = .destination path cause
    | .ok written =>
      written = path ∧ ∃ text target,
        program settings job = .ok text ∧ files.entry? host path = files.lookup? target ∧
        o.files.resolve host path = .ok target ∧ Placed host files target (utf8 text) o.files ∧
        (∀ here, o.files.isDirectory here = files.isDirectory here) ∧
        ∀ directory name, utf8 ".tmp" <:+ name →
          o.files.lookup? (name :: directory) = files.lookup? (name :: directory) := by
  intro path o
  cases hresult : o.result with
  | error error =>
    obtain ⟨hfiles, hfault⟩ := place_eq_error hresult
    refine ⟨hfiles, ?_⟩
    rcases hfault with hfault | ⟨hfault, cause, rfl⟩
    · unfold fault? at hfault
      cases hs : settings.fault? with
      | some fault =>
        rw [hs] at hfault
        exact (Option.some.inj hfault).symm
      | none =>
        rw [hs] at hfault
        obtain ⟨fault, hj, rfl⟩ := Option.map_eq_some_iff.1 hfault
        rw [hj]
    · obtain ⟨hs, hj⟩ := fault?_eq_none_iff.1 hfault
      rw [hs, hj]
      exact ⟨cause, rfl⟩
  | ok written =>
    obtain ⟨hfault, hwritten, directory, name, hleads, hplaced⟩ := place_eq_ok hresult
    rw [hwritten] at hleads
    have hafter : o.files.Leads host path directory name :=
      hleads.mono fun here hhere => (hplaced.isDirectory here).trans hhere
    have hprogram : program settings job = .ok (document settings job) := by
      rw [program, hfault]
    refine ⟨hwritten, document settings job, name :: directory, hprogram, hleads.entry?_eq,
      hafter.resolve_eq_ok hplaced.lookup?_target, hplaced, hplaced.isDirectory, ?_⟩
    intro other temporary htmp
    -- The program's own name ends in another way than the names of temporary files.
    refine hplaced.lookup?_other _ fun heq => ?_
    obtain ⟨init, last, hends⟩ := exists_leads_programPath host sinkName
    obtain ⟨-, hname⟩ := hends hleads
    rw [(List.cons.inj heq).1, hname] at htmp
    exact not_isSuffix_tmp last job.diameter htmp

end Place

end DrillPost.Gcode
