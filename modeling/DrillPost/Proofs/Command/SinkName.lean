import DrillPost.Command.Options
import DrillPost.Proofs.Files.Inside
import DrillPost.Proofs.Files.Staying
import DrillPost.Proofs.Gcode.Programs

/-!
# Programs beside their inputs

Where no name is given, programs are named after the job (`Options.exists_sinkName`). They never
have the place of the job itself (`Options.target_ne_input`): behind the part that both names begin
with the name of a program goes on with an underscore and has a dot in it, and the name of the job
goes on with a dot, or has none, or ends. Nor do they have the place of a configuration
(`Gcode.target_ne_source`), which has another extension.

All of this is about places, so it holds however the paths are written.
-/

namespace DrillPost

namespace Gcode

variable {files : FileSystem} {host : Host} {sinkName : Path} {diameter : Binary64}
  {directory place : Location} {name before stem : Bytes}

theorem head?_pathEnding (diameter : Binary64) :
    (pathEnding diameter).head? = some 0x5F := by
  rw [pathEnding, String.append_assoc, String.append_assoc, utf8_append]
  rfl

theorem dot_mem_pathEnding (diameter : Binary64) : dot ∈ pathEnding diameter :=
  (isSuffix_pathEnding diameter).subset (by decide)

/-- The last name of a program goes on where the shared name ends. -/
theorem names_programPath (hbefore : Path.BeginsPiece before) (hstem : slash ∉ stem) :
    (programPath ⟨before ++ stem⟩ diameter).names =
      (Path.mk before).names ++ [stem ++ pathEnding diameter] := by
  have hslash : slash ∉ stem ++ pathEnding diameter := by
    rw [List.mem_append, not_or]
    exact ⟨hstem, slash_not_mem_pathEnding diameter⟩
  have hne : stem ++ pathEnding diameter ≠ [] :=
    List.append_ne_nil_of_right_ne_nil stem (pathEnding_ne_nil diameter)
  rw [programPath_eq, List.append_assoc, hbefore.names_append hslash hne]

/-- A program goes where the bytes before the last piece of the shared name lead. -/
theorem eq_of_leads_programPath (hbefore : Path.BeginsPiece before) (hstem : slash ∉ stem)
    (h : files.Leads host (programPath ⟨before ++ stem⟩ diameter) directory name) :
    name = stem ++ pathEnding diameter ∧
      files.follow (FileSystem.start host ⟨before ++ stem⟩) (Path.mk before).names =
        .ok directory := by
  obtain ⟨-, hfollow, -, hname⟩ := FileSystem.resolveParent_eq_ok h.resolveParent_eq
  rw [start_programPath, names_programPath hbefore hstem, List.dropLast_concat] at hfollow
  rw [names_programPath hbefore hstem] at hname
  rw [List.getLast?_concat, Option.getD_some] at hname
  exact ⟨hname.symm, hfollow⟩

/-- A file that a configuration is loaded from is not the file of a program. -/
theorem target_ne_source {source : Path} {format : FileFormat} {content : Bytes}
    (hformat : FileFormat.ofPath source = .ok format)
    (hsource : files.HasFile host source place content)
    (h : files.Leads host (programPath sinkName diameter) directory name) :
    place ≠ name :: directory := by
  obtain ⟨inner, last, rfl, hleads⟩ | ⟨before, inner, rfl, hbefore, -, -⟩ :=
    hsource.leads_or_dots
  · intro heq
    obtain ⟨init, stem, hends⟩ := exists_leads_programPath host sinkName
    apply FileFormat.not_isSuffix hformat hleads "cnc" (by decide) (by cases format <;> decide)
    rw [(List.cons.inj heq).1, (hends h).2]
    exact (isSuffix_pathEnding diameter).trans (List.suffix_append _ _)
  · -- A path that ends in two dots has no extension.
    obtain ⟨bytes, text, hbytes, -⟩ := FileFormat.ofPath_eq_ok_iff.1 hformat
    rw [Path.extension?, hbefore.fileName?_append (by decide) (by decide) (by decide)] at hbytes
    cases hbytes

end Gcode

namespace Options

variable {options : Options} {before last : Bytes}

/-- Without a name of their own programs have a name that the name of the job begins with, in the
directory of the job or in the configured one. What is left out of the name begins with a dot, or
there is no dot in it. -/
theorem exists_sinkName (h : options.output = .none) (hbefore : Path.BeginsPiece before)
    (hslash : slash ∉ last) (hne : last ≠ []) (hdots : isDots last = false) (c : Configuration) :
    ∃ front stem rest, options.sinkName ⟨before ++ last⟩ c = ⟨front ++ stem⟩ ∧
      Path.BeginsPiece front ∧ slash ∉ stem ∧ last = stem ++ rest ∧
      (rest.head? = some dot ∨ dot ∉ rest) ∧
      ((Path.mk front).names = (Path.mk before).names ∨
        ∃ directory ∈ c.output.directory, (Path.mk front).names = directory.names) := by
  obtain ⟨stem, rest, hlast, hrest, hstem, hdot, hwithout⟩ :=
    hbefore.exists_withoutExtension hslash hne hdots
  have hslash' : slash ∉ stem := fun hmem => hslash (hlast ▸ List.mem_append_left rest hmem)
  have hfile := hbefore.fileName?_append hslash' hstem hdot
  rw [sinkName, h]
  dsimp only
  rw [hwithout, hfile]
  split
  · next directory name hdirectory hname =>
    split_ifs at hname
    cases hname
    obtain ⟨front, hfront, hnames, hjoin⟩ := directory.exists_join
    exact ⟨front, stem, rest, hjoin stem hslash', hfront, hslash', hlast, hrest,
      .inr ⟨directory, hdirectory, hnames⟩⟩
  · exact ⟨before, stem, rest, rfl, hbefore, hslash', hlast, hrest, .inl rfl⟩

/-- Where two dots are left of the name of the job, no directory is asked for. -/
theorem sinkName_of_dots {input : Path} (h : options.output = .none)
    (hbefore : Path.BeginsPiece before)
    (hwithout : input.withoutExtension = ⟨before ++ [dot, dot]⟩) (c : Configuration) :
    options.sinkName input c = ⟨before ++ [dot, dot]⟩ := by
  have hfile : (Path.mk (before ++ [dot, dot])).fileName? = .none := by
    rw [hbefore.fileName?_append (by decide) (by decide) (by decide), if_pos rfl]
  rw [sinkName, h]
  dsimp only
  rw [hwithout, hfile]
  cases c.output.directory <;> rfl

theorem sinkName_dots (h : options.output = .none) (hbefore : Path.BeginsPiece before)
    (c : Configuration) :
    options.sinkName ⟨before ++ [dot, dot]⟩ c = ⟨before ++ [dot, dot]⟩ := by
  have hfile : (Path.mk (before ++ [dot, dot])).fileName? = .none := by
    rw [hbefore.fileName?_append (by decide) (by decide) (by decide), if_pos rfl]
  apply sinkName_of_dots h hbefore
  rw [Path.withoutExtension, Path.extension?, hfile, Option.bind_none, Option.getD_none,
    List.length_nil, Nat.sub_zero, List.take_length, hbefore.endAtStem_dots]

/-- The file that a job is loaded from is not the file of a program. -/
theorem target_ne_input {files : FileSystem} {host : Host} {input : Path} {place : Location}
    {content : Bytes} {c : Configuration} {diameter : Binary64} {directory : Location}
    {name : Bytes} (h : options.output = .none) (hinput : files.HasFile host input place content)
    (hleads : files.Leads host (Gcode.programPath (options.sinkName input c) diameter) directory
      name) : place ≠ name :: directory := by
  intro heq
  obtain ⟨inner, last, rfl, hlast⟩ | ⟨before, inner, rfl, hbefore, hfollow, rfl⟩ :=
    hinput.leads_or_dots
  · obtain ⟨before, hbefore, rfl, hslash, hne⟩ := hlast.exists_append
    obtain ⟨front, stem, rest, hsink, hfront, hstem, hparts, hrest, -⟩ :=
      options.exists_sinkName h hbefore hslash hne hlast.isDots_eq c
    rw [hsink] at hleads
    obtain ⟨hname, -⟩ := Gcode.eq_of_leads_programPath hfront hstem hleads
    rw [(List.cons.inj heq).1, hname] at hparts
    have hending := List.append_cancel_left hparts
    rw [← hending, Gcode.head?_pathEnding] at hrest
    rcases hrest with hhead | hdot
    · exact absurd hhead (by decide)
    · exact hdot (Gcode.dot_mem_pathEnding diameter)
  · -- The program is in a directory, and the file is what should be above that directory.
    rw [sinkName_dots h hbefore] at hleads
    obtain ⟨-, hdirectory⟩ := Gcode.eq_of_leads_programPath hbefore (by decide) hleads
    rw [hfollow] at hdirectory
    cases hdirectory
    have hlength := congrArg List.length heq
    simp at hlength

end Options

end DrillPost
