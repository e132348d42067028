import DrillPost.Proofs.Files.Inside
import DrillPost.Proofs.Gcode.Names

/-!
# The directory of the programs

Where no name is given, programs are named after the stem of the job. They go into the configured
directory, or else into that of the job (`Gcode.GoInto`, `Options.goInto_sinkName_iff`), however
the name of the job is written: a path that is cut after its stem ends in the stem, and a name that
follows a directory is inside it.

Only a stem of one or two dots is no file name. Then no name is found that could be put into a
directory, and the configured one is forgotten (`Options.sinkName_of_isDots`).

A directory may be written in two ways, so it has to be shown that both lead to the same place: dots
between names can be left out and put in (`FileSystem.follow_filter`,
`FileSystem.follow_of_filter`).
-/

namespace DrillPost

namespace Path

variable {p q : Path}

/-- The path, or the working directory where the path is empty. -/
def orWorkingDirectory (p : Path) : Path := if p.bytes = [] then .ofText "." else p

theorem isAbsolute_iff_head_eq : p.isAbsolute = true ↔ p.head = [slash] := by
  unfold head
  split_ifs with habsolute hdot
  · simp [habsolute]
  · simp [habsolute, dot, slash]
  · simp [habsolute]

theorem isAbsolute_eq_of_head_eq (h : p.head = q.head) : p.isAbsolute = q.isAbsolute := by
  rw [Bool.eq_iff_iff, isAbsolute_iff_head_eq, isAbsolute_iff_head_eq, h]

/-- The names of a path are its components, but for the dots between them. -/
theorem filter_names (p : Path) : p.names.filter (· ≠ [dot]) = p.components.2 := by
  rw [components_snd, names, named, List.filter_filter]
  congr
  funext piece
  simp [Bool.and_comm]

end Path

namespace FileSystem

variable {fs : FileSystem} {host : Host} {p q : Path} {place inner : Location} {names : List Bytes}

/-- A dot leads from a directory to the directory. -/
theorem enter_dot (h : fs.isDirectory place = true) : fs.enter place [dot] = .ok place := by
  rw [enter, entryFault?_eq_none_iff.2 h]
  rfl

/-- Between the names that lead to a directory dots can be put in. -/
theorem follow_of_filter (hinner : fs.isDirectory inner = true)
    (h : fs.follow place (names.filter (· ≠ [dot])) = .ok inner) :
    fs.follow place names = .ok inner := by
  have hplace := isDirectory_of_follow_eq_ok hinner h
  induction names generalizing place with
  | nil => exact h
  | cons name names ih =>
    by_cases hname : name = [dot]
    · rw [List.filter_cons_of_neg (by simpa using hname)] at h
      rw [follow, hname, enter_dot hplace]
      exact ih h hplace
    · rw [List.filter_cons_of_pos (by simpa using hname), follow] at h
      rw [follow]
      cases henter : fs.enter place name with
      | error fault =>
        rw [henter] at h
        cases h
      | ok next =>
        rw [henter] at h
        exact ih h (isDirectory_of_follow_eq_ok hinner h)

/-- Between names dots can be left out. -/
theorem follow_filter (h : fs.follow place names = .ok inner) :
    fs.follow place (names.filter (· ≠ [dot])) = .ok inner := by
  induction names generalizing place with
  | nil => exact h
  | cons name names ih =>
    rw [follow] at h
    cases henter : fs.enter place name with
    | error fault =>
      rw [henter] at h
      cases h
    | ok next =>
      rw [henter] at h
      by_cases hname : name = [dot]
      · rw [hname, enter_dot (isDirectory_of_enter_eq_ok henter)] at henter
        cases henter
        rw [List.filter_cons_of_neg (by simpa using hname)]
        exact ih h
      · rw [List.filter_cons_of_pos (by simpa using hname), follow, henter]
        exact ih h

/-- Paths with the same components lead to the same directory. -/
theorem follow_of_components_eq (hcomponents : p.components = q.components)
    (hinner : fs.isDirectory inner = true)
    (h : fs.follow (start host p) p.names = .ok inner) :
    fs.follow (start host q) q.names = .ok inner := by
  have hstart : start host p = start host q := by
    rw [start, start, Path.isAbsolute_eq_of_head_eq (congrArg Prod.fst hcomponents)]
  have hnames := follow_filter h
  rw [Path.filter_names, hcomponents, ← Path.filter_names, hstart] at hnames
  exact follow_of_filter hinner hnames

theorem resolve_orWorkingDirectory (hfault : ¬ p.bytes = [] → p.fault? = none)
    (hinner : fs.isDirectory inner = true)
    (h : fs.follow (start host p) p.names = .ok inner) :
    fs.resolve host p.orWorkingDirectory = .ok inner := by
  unfold Path.orWorkingDirectory
  split
  · next hempty =>
    obtain rfl : p = ⟨[]⟩ := congrArg Path.mk hempty
    apply resolve_of_follow rfl _ hinner
    apply follow_of_filter hinner
    exact h
  · next hempty => exact resolve_of_follow (hfault hempty) h hinner

end FileSystem

namespace Gcode

/-- The programs that share a name go into the directory, and their names begin with the stem. -/
structure GoInto (sinkName directory : Path) (stem : Bytes) : Prop where
  isInside : sinkName.IsInside directory stem
  isInside_programPath : ∀ diameter,
    (programPath sinkName diameter).IsInside directory (stem ++ pathEnding diameter)
  /-- A program that is in place is in the directory that the path of the directory leads to. -/
  exists_resolve : ∀ disk host settings job files written,
    (place disk host settings sinkName job files).result = .ok written →
    ∃ location, files.resolve host directory.orWorkingDirectory = .ok location ∧
      Placed host files ((stem ++ pathEnding job.diameter) :: location)
        (utf8 (document settings job)) (place disk host settings sinkName job files).files

/-- The programs of a shared name are inside the directory that the name follows. -/
theorem isInside_programPath {front stem : Bytes} {directory : Path}
    (hfront : Path.BeginsPiece front) (hslash : slash ∉ stem)
    (hsame : (Path.mk front).components = directory.components) (diameter : Binary64) :
    (programPath ⟨front ++ stem⟩ diameter).IsInside directory (stem ++ pathEnding diameter) := by
  have hslash' : slash ∉ stem ++ pathEnding diameter := by
    rw [List.mem_append, not_or]
    exact ⟨hslash, slash_not_mem_pathEnding diameter⟩
  have hunderscore : underscore ∈ stem ++ pathEnding diameter := by
    rw [pathEnding_eq_cons]
    exact List.mem_append_right stem List.mem_cons_self
  have hdots : isDots (stem ++ pathEnding diameter) = false := by
    rw [isDots, Bool.or_eq_false_iff, beq_eq_false_iff_ne, beq_eq_false_iff_ne]
    constructor
    · intro heq
      rw [heq] at hunderscore
      exact absurd hunderscore (by decide)
    · intro heq
      rw [heq] at hunderscore
      exact absurd hunderscore (by decide)
  rw [programPath_eq, List.append_assoc]
  exact hfront.isInside_append hslash' (List.ne_nil_of_mem hunderscore) hdots hsame

/-- A program that is in place is in the directory that the shared name follows. -/
theorem exists_resolve_of_place {front stem : Bytes} {directory : Path} {disk : Disk} {host : Host}
    {settings : ProgramSettings} {job : ToolJob} {files : FileSystem} {written : Path}
    (hfront : Path.BeginsPiece front) (hslash : slash ∉ stem) (hdot : stem ≠ [dot])
    (hsame : (Path.mk front).components = directory.components)
    (hstarts : directory.bytes <+: front)
    (h : (place disk host settings ⟨front ++ stem⟩ job files).result = .ok written) :
    ∃ location, files.resolve host directory.orWorkingDirectory = .ok location ∧
      Placed host files ((stem ++ pathEnding job.diameter) :: location)
        (utf8 (document settings job)) (place disk host settings ⟨front ++ stem⟩ job files).files := by
  obtain ⟨-, rfl, location, name, hleads, hplaced⟩ := place_eq_ok h
  obtain ⟨rfl, hfollow⟩ := eq_of_leads_programPath hfront hslash hleads
  obtain ⟨hfault, -, hlocation, -⟩ := FileSystem.resolveParent_eq_ok hleads.resolveParent_eq
  have hstart : FileSystem.start host ⟨front ++ stem⟩ = FileSystem.start host ⟨front⟩ := by
    have habsolute := Path.isAbsolute_eq_of_head_eq (hfront.head_eq hslash hdot)
    rw [FileSystem.start, FileSystem.start, habsolute]
  have hbegins : directory.bytes <+: (programPath ⟨front ++ stem⟩ job.diameter).bytes := by
    rw [programPath_eq, List.append_assoc]
    exact hstarts.trans (List.prefix_append front _)
  rw [hstart] at hfollow
  refine ⟨location, ?_, hplaced⟩
  apply FileSystem.resolve_orWorkingDirectory _ hlocation
    (FileSystem.follow_of_components_eq hsame hlocation hfollow)
  intro hempty
  exact Path.fault?_of_isPrefix hbegins hempty hfault

end Gcode

namespace Options

variable {options : Options} {input parent : Path} {stem : Bytes}

/-- The shared name follows the directory that the programs go to, unless it is one of dots. -/
theorem exists_front (houtput : options.output = .none) (hstem : input.stem? = some stem)
    (hparent : input.parent? = some parent) (hproper : isDots stem = false) (c : Configuration) :
    ∃ front, options.sinkName input c = ⟨front ++ stem⟩ ∧ Path.BeginsPiece front ∧
      slash ∉ stem ∧ stem ≠ [] ∧
      (Path.mk front).components = (c.output.directory.getD parent).components ∧
      (c.output.directory.getD parent).bytes <+: front := by
  obtain ⟨name, hname, hsplit⟩ := Option.map_eq_some_iff.1 hstem
  have hdots := Path.isDots_of_fileName? hname
  obtain ⟨hdot, hdots'⟩ : stem ≠ [dot] ∧ stem ≠ [dot, dot] := by simpa [isDots] using hproper
  obtain ⟨before, tail, rfl, hbefore, hslash, hne, htail⟩ := Path.exists_fileName?_append hname
  obtain ⟨hbegins, hne'⟩ := isPrefix_stem hsplit hne
  have hslash' : slash ∉ stem := fun hmem => hslash (hbegins.subset hmem)
  have hwithout := hbefore.withoutExtension_append hslash hne hdots htail hsplit
  rw [if_neg fun hone => hdot hone.1] at hwithout
  have hfile := hbefore.fileName?_append hslash' hne' hdot
  rw [if_neg hdots'] at hfile
  rw [sinkName, houtput]
  dsimp only
  rw [hwithout, hfile]
  cases c.output.directory with
  | none =>
    -- The parent is that of the path without the trail.
    have halike := Path.Alike.of_trail (List.append_ne_nil_of_right_ne_nil before hne) htail
    rw [List.append_assoc] at halike
    obtain ⟨parent', hparent', hcomponents, hstarts⟩ :=
      hbefore.exists_parent?_append hslash hne (by rintro rfl; cases hdots)
    rw [halike.parent?_eq, hparent'] at hparent
    cases hparent
    exact ⟨before, rfl, hbefore, hslash', hne', hcomponents.symm, hstarts⟩
  | some directory =>
    obtain ⟨front, hfront, hsame, hstarts, hjoin⟩ := directory.exists_join_components
    exact ⟨front, hjoin stem hslash', hfront, hslash', hne', hsame, hstarts⟩

/-- Where the stem of the job is one of dots, the shared name is two dots next to the job, whatever
directory is configured. -/
theorem sinkName_of_isDots {before name : Bytes} (houtput : options.output = .none)
    (hname : (Path.mk (before ++ name)).fileName? = some name)
    (hdots : isDots (splitExtension name).1 = true) (c : Configuration) :
    options.sinkName ⟨before ++ name⟩ c = ⟨before ++ [dot, dot]⟩ := by
  obtain ⟨hbefore, hslash, hne⟩ := Path.beginsPiece_of_fileName? hname
  apply sinkName_of_dots houtput hbefore
  have hwithout := hbefore.withoutExtension_append hslash hne (Path.isDots_of_fileName? hname) .nil
    rfl
  rw [List.append_nil] at hwithout
  rw [hwithout]
  rw [isDots, Bool.or_eq_true, beq_iff_eq, beq_iff_eq] at hdots
  rcases hdots with hone | htwo
  · rw [if_pos ⟨hone, rfl⟩]
  · rw [htwo]
    rfl

/-- The programs of a job go into the configured directory, or else into that of the job, under the
stem of its name, unless the stem is one or two dots. Then, where nothing follows the name, programs
are named after two dots and go into the directory of the job, whatever directory is configured. -/
theorem goInto_sinkName_iff (houtput : options.output = .none) (hstem : input.stem? = some stem)
    (c : Configuration) :
    ∃ parent, input.parent? = some parent ∧
      (Gcode.GoInto (options.sinkName input c) (c.output.directory.getD parent) stem ↔
        isDots stem = false) ∧
      (isDots stem = true → ∀ before name, input = ⟨before ++ name⟩ →
        input.fileName? = some name → options.sinkName input c = ⟨before ++ [dot, dot]⟩) := by
  obtain ⟨name, hname, rfl⟩ := Option.map_eq_some_iff.1 hstem
  obtain ⟨parent, hparent⟩ := Path.exists_parent? hname
  refine ⟨parent, hparent, ⟨?_, ?_⟩, ?_⟩
  · intro hinto
    exact Path.isDots_of_fileName? hinto.isInside.fileName?_eq
  · intro hproper
    have hdot : (splitExtension name).1 ≠ [dot] := by
      intro hdot
      rw [hdot] at hproper
      cases hproper
    obtain ⟨front, hsink, hfront, hslash, hne, hsame, hstarts⟩ :=
      exists_front houtput hstem hparent hproper c
    rw [hsink]
    constructor
    · exact hfront.isInside_append hslash hne hproper hsame
    · intro diameter
      exact Gcode.isInside_programPath hfront hslash hsame diameter
    · intro disk host settings job files written hwritten
      exact Gcode.exists_resolve_of_place hfront hslash hdot hsame hstarts hwritten
  · rintro hdots before name' rfl hname'
    rw [hname] at hname'
    cases hname'
    exact sinkName_of_isDots houtput hname hdots c

/-- The name of the job has two dots in it and slashes after it, and programs go into the configured
directory. -/
theorem goInto_sinkName_iff_configured :
    let input := Path.ofText "parts/plate.v2.json/./"
    let directory := Path.ofText "out"
    let c : Configuration := { Configuration.standard with output := ⟨some directory⟩ }
    let stem := utf8 "plate.v2"
    let host : Host := ⟨[], 0o022, .none, .none, .none⟩
    let files := FileSystem.empty.insert [utf8 "out"] (.directory 0o755)
    let sinkName := Options.none.sinkName input c
    let job : ToolJob := ⟨.ofNat 3, []⟩
    let o := Gcode.place .sound host .standard sinkName job files
    Options.none.output = .none ∧ input.stem? = some stem ∧
      o.result = .ok (.ofText "out/plate.v2_3.cnc") ∧
      Gcode.GoInto sinkName directory stem ∧
      Gcode.Placed host files [stem ++ Gcode.pathEnding job.diameter, utf8 "out"]
        (utf8 (Gcode.document .standard job)) o.files := by
  intro input directory c stem host files sinkName job o
  have houtput : Options.none.output = .none := rfl
  have hstem : input.stem? = some stem := by decide
  have hresult : o.result = .ok (.ofText "out/plate.v2_3.cnc") := by decide +kernel
  obtain ⟨parent, -, hinto, -⟩ := goInto_sinkName_iff houtput hstem c
  have hgo : Gcode.GoInto sinkName directory stem := hinto.2 (by decide)
  refine ⟨houtput, hstem, hresult, hgo, ?_⟩
  obtain ⟨location, hlocation, hplaced⟩ := hgo.exists_resolve _ _ _ _ _ _ hresult
  obtain rfl : [utf8 "out"] = location := by
    have hresolve : files.resolve host directory.orWorkingDirectory = .ok [utf8 "out"] := by
      decide
    exact Except.ok.inj (hresolve.symm.trans hlocation)
  exact hplaced

/-- A job whose stem is a dot makes the configured directory be forgotten. -/
theorem not_goInto_sinkName_dot :
    let input := Path.ofText "..json"
    let directory := Path.ofText "out"
    let c : Configuration := { Configuration.standard with output := ⟨some directory⟩ }
    let sinkName := Options.none.sinkName input c
    input.fileName? = some (utf8 "..json") ∧ input.stem? = some (utf8 ".") ∧
      sinkName = .ofText ".." ∧
      Gcode.programPath sinkName (.ofNat 1) = .ofText ".._1.cnc" ∧
      ¬ sinkName.IsInside directory (utf8 ".") ∧
      ¬ (Gcode.programPath sinkName (.ofNat 1)).IsInside directory (utf8 "._1.cnc") := by
  intro input directory c sinkName
  refine ⟨by decide, by decide, by decide, by decide +kernel, ?_, ?_⟩
  · intro hinside
    have hname := hinside.fileName?_eq
    exact absurd hname (by decide)
  · intro hinside
    have hname := hinside.fileName?_eq
    exact absurd hname (by decide +kernel)

end Options

end DrillPost
