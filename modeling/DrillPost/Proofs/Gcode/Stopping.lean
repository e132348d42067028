import DrillPost.Proofs.Gcode.Programs

/-!
# Where a list of programs stops

To try every job, each on the files that the one before left, is `Gcode.placeEach`. Programs are put
in place as long as no job fails, so the first job that fails in this way ends the run, and what it
leaves is what the jobs before it made (`Gcode.placeAll_stops`, by `Gcode.placeJobs_eq_error`).

Of the other jobs nothing is there: none of their paths leads to a place of a program that is there,
whatever their diameters are.
-/

namespace DrillPost.Gcode

variable {disks : Disks} {host : Host} {settings : ProgramSettings} {sinkName : Path}
  {files files' : FileSystem} {jobs done rest : List ToolJob} {job : ToolJob}

/-- What becomes of each job when all are tried one after another, whether the one before fails or
not. -/
def placeEach (disks : Disks) (host : Host) (settings : ProgramSettings) (sinkName : Path) :
    List ToolJob → FileSystem → List (Outcome ProgramError Path)
  | [], _ => []
  | job :: jobs, files =>
    let o := place (disks 0) host settings sinkName job files
    o :: placeEach (disks.after 1) host settings sinkName jobs o.files

/-! ### One job more -/

theorem placeJobs_cons_of_ok {path : Path}
    (h : (place (disks 0) host settings sinkName job files).result = .ok path) :
    placeJobs disks host settings sinkName (job :: jobs) files =
      ((placeJobs (disks.after 1) host settings sinkName jobs
        (place (disks 0) host settings sinkName job files).files).map (path :: ·)).afterEvents
          (place (disks 0) host settings sinkName job files).events := by
  rw [placeJobs, Outcome.andThen, h]

theorem placeJobs_cons_of_error {error : ProgramError}
    (h : (place (disks 0) host settings sinkName job files).result = .error error) :
    placeJobs disks host settings sinkName (job :: jobs) files =
      .fail (place (disks 0) host settings sinkName job files).files error
        (place (disks 0) host settings sinkName job files).events := by
  rw [placeJobs, Outcome.andThen, h]
  rfl

/-! ### Jobs that do not fail -/

/-- Jobs of which none fails are put in place one after another. -/
theorem placeEach_of_ok {paths : List Path}
    (h : (placeJobs disks host settings sinkName done files).result = .ok paths)
    (rest : List ToolJob) :
    let o := placeJobs disks host settings sinkName done files
    let tried := placeEach disks host settings sinkName done files
    (∀ w ∈ tried, ∃ path, w.result = .ok path) ∧ tried.length = done.length ∧
      o.events = tried.flatMap Outcome.events ∧
      placeEach disks host settings sinkName (done ++ rest) files =
        tried ++ placeEach (disks.after done.length) host settings sinkName rest o.files := by
  induction done generalizing disks files paths with
  | nil => exact ⟨List.forall_mem_nil _, rfl, rfl, rfl⟩
  | cons job done ih =>
    obtain ⟨path, hpath, hrest, -⟩ := Outcome.andThen_eq_ok h
    obtain ⟨more, hmore, -⟩ := Outcome.map_eq_ok hrest
    obtain ⟨hall, hlength, hevents, heach⟩ := ih hmore
    rw [placeJobs_cons_of_ok hpath]
    refine ⟨List.forall_mem_cons.2 ⟨⟨path, hpath⟩, hall⟩, congrArg (· + 1) hlength, ?_, ?_⟩
    · exact congrArg (_ ++ ·) hevents
    · exact congrArg (_ :: ·) heach

/-! ### The first job that fails -/

/-- A run that fails has put the programs of some jobs in place, and then a job failed. -/
theorem placeJobs_eq_error {error : ProgramError}
    (h : (placeJobs disks host settings sinkName jobs files).result = .error error) :
    ∃ done job rest paths, jobs = done ++ job :: rest ∧
      let o := placeJobs disks host settings sinkName done files
      let failed := place (disks done.length) host settings sinkName job o.files
      o.result = .ok paths ∧ failed.result = .error error ∧
        (placeJobs disks host settings sinkName jobs files).files = o.files ∧
        (placeJobs disks host settings sinkName jobs files).events = o.events ++ failed.events := by
  induction jobs generalizing disks files with
  | nil => cases h
  | cons job jobs ih =>
    cases hplace : (place (disks 0) host settings sinkName job files).result with
    | error error' =>
      rw [placeJobs_cons_of_error hplace] at h ⊢
      cases h
      exact ⟨[], job, jobs, [], rfl, rfl, hplace, (place_eq_error hplace).1, rfl⟩
    | ok path =>
      rw [placeJobs_cons_of_ok hplace] at h ⊢
      cases hjobs : (placeJobs (disks.after 1) host settings sinkName jobs
          (place (disks 0) host settings sinkName job files).files).result with
      | ok paths =>
        dsimp only [Outcome.afterEvents, Outcome.map] at h
        rw [hjobs] at h
        cases h
      | error error' =>
        dsimp only [Outcome.afterEvents, Outcome.map] at h
        rw [hjobs] at h
        cases h
        obtain ⟨done, failed, rest, paths, rfl, hdone, hfailed, hfiles, hevents⟩ := ih hjobs
        refine ⟨job :: done, failed, rest, path :: paths, rfl, ?_⟩
        rw [placeJobs_cons_of_ok hplace]
        dsimp only [Outcome.afterEvents, Outcome.map]
        rw [hdone, hevents, List.append_assoc]
        exact ⟨rfl, hfailed, hfiles, rfl⟩

/-- A run of jobs ends with the first that fails, and leaves what those before it made. -/
structure Stops (disks : Disks) (host : Host) (settings : ProgramSettings) (sinkName : Path)
    (jobs : List ToolJob) (files : FileSystem) (o : Outcome ProgramError (List Path))
    (error : ProgramError) (k : Nat) : Prop where
  /-- The job fails. -/
  fails : ∃ w, (placeEach disks host settings sinkName jobs files)[k]? = some w ∧
    w.result = .error error
  /-- No job before it does. -/
  earlier : ∀ w ∈ (placeEach disks host settings sinkName jobs files).take k,
    ∃ path, w.result = .ok path
  /-- The files are those that the jobs before it leave when there is no other. -/
  files_eq : ∃ paths,
    (placeJobs disks host settings sinkName (jobs.take k) files).result = .ok paths ∧
      o.files = (placeJobs disks host settings sinkName (jobs.take k) files).files
  /-- The programs before it are in place, and nothing else has changed. -/
  allPlaced : AllPlaced host settings sinkName (jobs.take k) files o.files
  /-- Nothing has changed where it or a later job would be. -/
  lookup?_later : ∀ job ∈ jobs.drop k, ∀ directory name,
    files.Leads host (programPath sinkName job.diameter) directory name →
      o.files.lookup? (name :: directory) = files.lookup? (name :: directory)
  /-- No temporary file has come or gone. -/
  lookup?_temporary : ∀ directory name, utf8 ".tmp" <:+ name →
    o.files.lookup? (name :: directory) = files.lookup? (name :: directory)
  /-- No later job is reported. -/
  events_eq : o.events =
    ((placeEach disks host settings sinkName jobs files).take (k + 1)).flatMap Outcome.events

/-- Programs that are in place are not where a job of another diameter would be, also if that
diameter is fit for no program. -/
theorem AllPlaced.lookup?_of_not_equal (h : AllPlaced host settings sinkName done files files')
    (hdiameter : ∀ k ∈ done, k.diameter.equal job.diameter = false) {directory : Location}
    {name : Bytes} (hleads : files.Leads host (programPath sinkName job.diameter) directory name) :
    files'.lookup? (name :: directory) = files.lookup? (name :: directory) := by
  apply h.lookup?_other
  intro k hk inner last hlast
  have hfinite := isFinite_of_fault?_eq (h.fault?_eq k hk)
  exact (target_ne hfinite (hdiameter k hk) hlast hleads).symm

theorem AllPlaced.lookup?_temporary (h : AllPlaced host settings sinkName done files files')
    (directory : Location) {name : Bytes} (htmp : utf8 ".tmp" <:+ name) :
    files'.lookup? (name :: directory) = files.lookup? (name :: directory) := by
  apply h.lookup?_other
  intro job _ inner last hlast heq
  obtain ⟨init, stem, hends⟩ := exists_leads_programPath host sinkName
  rw [(List.cons.inj heq).1, (hends hlast).2] at htmp
  exact not_isSuffix_tmp stem job.diameter htmp

theorem exists_stops
    (hdiameters : jobs.Pairwise fun a b => a.diameter.equal b.diameter = false)
    {error : ProgramError}
    (h : (placeJobs disks host settings sinkName jobs files).result = .error error) :
    ∃ k, Stops disks host settings sinkName jobs files
      (placeJobs disks host settings sinkName jobs files) error k := by
  obtain ⟨done, job, rest, paths, rfl, hdone, hfailed, hfiles, hevents⟩ := placeJobs_eq_error h
  obtain ⟨hearlier, hlength, hevents', heach⟩ := placeEach_of_ok hdone (job :: rest)
  rw [← hfiles] at hfailed heach
  have htake : (done ++ job :: rest).take done.length = done := List.take_left' rfl
  have hdrop : (done ++ job :: rest).drop done.length = job :: rest := List.drop_left' rfl
  obtain ⟨hdone_diameters, -, hlater⟩ := List.pairwise_append.1 hdiameters
  have hall := (allPlaced_placeJobs hdone_diameters hdone).2
  rw [← hfiles] at hall
  refine ⟨done.length, ?_, ?_, ?_, ?_, ?_, fun directory name => hall.lookup?_temporary directory,
    ?_⟩
  · refine ⟨_, ?_, hfailed⟩
    rw [heach, List.getElem?_append_right hlength.le, hlength, Nat.sub_self, placeEach,
      List.getElem?_cons_zero, Disks.after_first]
  · rw [heach, List.take_left' hlength]
    exact hearlier
  · rw [htake]
    exact ⟨paths, hdone, hfiles⟩
  · rw [htake]
    exact hall
  · rw [hdrop]
    intro other hother directory name hleads
    exact hall.lookup?_of_not_equal (fun k hk => hlater k hk other hother) hleads
  · rw [heach, placeEach, ← hlength, List.take_append, List.take_of_length_le (Nat.le_succ _),
      Nat.add_sub_cancel_left, List.take_succ_cons, List.take_zero, List.flatMap_append,
      List.flatMap_singleton, hevents, hevents', hfiles, Disks.after_first, hlength]

/-- The programs of a drill job stop at the first that cannot be put in place: there is an error
exactly if some job fails when all are tried, it is that of the first job that does, and what is
there then is what the jobs before it made. -/
theorem placeAll_stops (disks : Disks) (host : Host) (settings : ProgramSettings) (sinkName : Path)
    (drill : DrillJob) (files : FileSystem) :
    let o := placeAll disks host settings sinkName drill files
    ((∃ error, o.result = .error error) ↔
      ∃ w ∈ placeEach disks host settings sinkName drill.byDiameter files,
        ∃ error, w.result = .error error) ∧
    ∀ error, o.result = .error error →
      ∃ k, Stops disks host settings sinkName drill.byDiameter files o error k := by
  intro o
  have hstops : ∀ error, o.result = .error error →
      ∃ k, Stops disks host settings sinkName drill.byDiameter files o error k :=
    fun error herror => exists_stops (merges_byDiameter drill).diameters herror
  refine ⟨⟨?_, ?_⟩, hstops⟩
  · rintro ⟨error, herror⟩
    obtain ⟨k, hk⟩ := hstops error herror
    obtain ⟨w, hw, hfails⟩ := hk.fails
    exact ⟨w, List.mem_of_getElem? hw, error, hfails⟩
  · rintro ⟨w, hw, error, hfails⟩
    cases hresult : o.result with
    | error error' => exact ⟨error', rfl⟩
    | ok paths =>
      obtain ⟨hall, -⟩ := placeEach_of_ok hresult []
      obtain ⟨path, hpath⟩ := hall w hw
      rw [hpath] at hfails
      cases hfails

/-- The first program takes the place of a file, and the tool of the second cannot have its
diameter. -/
theorem placeAll_stops_second_tool :
    let drill : DrillJob := ⟨[⟨.ofNat 3, []⟩, ⟨.infinite false, []⟩, ⟨.ofNat 5, []⟩]⟩
    let host : Host := ⟨[], 0o022, none, none, none⟩
    let files := FileSystem.empty.insert [utf8 "out_3.cnc"] (.file 0o600 [])
    let o := placeAll .sound host .standard (.ofText "out") drill files
    let error := ProgramError.job (.invalidDiameter (.infinite false))
    o.result = .error error ∧
      ∃ k, Stops .sound host .standard (.ofText "out") drill.byDiameter files o error k := by
  intro drill host files o error
  have h : o.result = .error error := by decide +kernel
  exact ⟨h, (placeAll_stops .sound host .standard (.ofText "out") drill files).2 error h⟩

end DrillPost.Gcode
