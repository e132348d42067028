import DrillPost.Proofs.Command.SinkName

/-!
# Names of programs

The path of a program ends in an underscore and a word for the diameter, and there is no other
underscore in this ending (`Gcode.underscore_not_mem_wordEnding`). So the last underscore of the
path tells where the ending begins, and the path tells both the name that the programs of a run
share and, up to the sign of a zero, the diameter (`Gcode.programPath_eq_iff`).

The ending has no slash in it either, and no zero byte. So it belongs to the last piece of the path,
and the program is made in the directory that the shared name points into
(`Gcode.resolve_directoryBefore`).
-/

namespace DrillPost

namespace Path

/-- The directory that a name points into: the path up to the last slash of the name, or the
working directory if there is no slash in it. -/
def directoryBefore (p : Path) : Path :=
  let before := (p.bytes.reverse.dropWhile (· ≠ slash)).reverse
  if before = [] then .ofText "." else ⟨before⟩

theorem directoryBefore_append {before last : Bytes} (h : BeginsPiece before)
    (hslash : slash ∉ last) :
    directoryBefore ⟨before ++ last⟩ = if before = [] then .ofText "." else ⟨before⟩ := by
  have hbefore : ((before ++ last).reverse.dropWhile (· ≠ slash)).reverse = before := by
    have hlast : ∀ b ∈ last.reverse, decide (b ≠ slash) = true := by
      intro b hb
      apply decide_eq_true
      rintro rfl
      exact hslash (List.mem_reverse.1 hb)
    rw [List.reverse_append, List.dropWhile_append_of_pos hlast]
    obtain rfl | ⟨rest, rfl⟩ := h
    · rfl
    · simp
  rw [directoryBefore, hbefore]

end Path

namespace Gcode

variable {x y : Binary64}

/-! ### Endings -/

theorem byte_not_mem_utf8 {c : Char} {b : UInt8} {s : String} (hb : b.toNat = c.toNat)
    (hlow : b.toNat < 0x80) (h : c ∉ s.toList) : b ∉ utf8 s := by
  intro hmem
  obtain ⟨d, hd, hbyte⟩ := List.mem_flatMap.1 hmem
  have hval : d.toNat = c.toNat := (toNat_eq_of_mem_utf8EncodeChar hbyte hlow).trans hb
  rw [Char.toNat_inj.1 hval] at hd
  exact h hd

/-- The byte of an underscore. -/
def underscore : UInt8 := 0x5F

/-- What follows the underscore in the path of a program. -/
def wordEnding (x : Binary64) : Bytes := utf8 (scalar x ++ "." ++ extension)

theorem pathEnding_eq_cons (x : Binary64) : pathEnding x = underscore :: wordEnding x := by
  rw [pathEnding, String.append_assoc, String.append_assoc, utf8_append, wordEnding,
    String.append_assoc]
  rfl

/-- Every character of the ending belongs to the word of the diameter or to the extension. -/
theorem byte_not_mem_wordEnding (hx : x.isFinite = true) {c : Char} {b : UInt8}
    (hb : b.toNat = c.toNat) (hlow : b.toNat < 0x80) (hword : ¬ IsWordChar c)
    (hextension : c ∉ extension.toList) : b ∉ wordEnding x := by
  apply byte_not_mem_utf8 hb hlow
  rw [String.toList_append, String.toList_append, List.mem_append, List.mem_append]
  rintro ((hc | hc) | hc)
  · exact hword (isWordChar_of_mem_scalar hx hc)
  · exact hword (.inr (.inl (List.mem_singleton.1 hc)))
  · exact hextension hc

theorem underscore_not_mem_wordEnding (hx : x.isFinite = true) : underscore ∉ wordEnding x :=
  byte_not_mem_wordEnding (c := '_') hx rfl (by decide) (by unfold IsWordChar; decide) (by decide)

theorem zero_not_mem_pathEnding (hx : x.isFinite = true) : 0 ∉ pathEnding x := by
  rw [pathEnding_eq_cons, List.mem_cons, not_or]
  refine ⟨by decide, ?_⟩
  exact byte_not_mem_wordEnding (c := '\x00') hx rfl (by decide) (by unfold IsWordChar; decide)
    (by decide)

/-- Bytes are cut at their last underscore in one way. -/
theorem append_underscore_inj {before before' after after' : Bytes} (h : underscore ∉ after)
    (h' : underscore ∉ after')
    (heq : before ++ underscore :: after = before' ++ underscore :: after') :
    before = before' ∧ after = after' := by
  -- Where one cut comes before the other, the later underscore is behind the earlier cut.
  rcases List.append_eq_append_iff.1 heq with ⟨more, hmore, hrest⟩ | ⟨more, hmore, hrest⟩
  · cases more with
    | nil => exact ⟨by simp [hmore], (List.cons.inj hrest).2⟩
    | cons b more =>
      rw [(List.cons.inj hrest).2] at h
      exact absurd (List.mem_append_right more List.mem_cons_self) h
  · cases more with
    | nil => exact ⟨by simp [hmore], (List.cons.inj hrest).2.symm⟩
    | cons b more =>
      rw [(List.cons.inj hrest).2] at h'
      exact absurd (List.mem_append_right more List.mem_cons_self) h'

/-! ### Names and diameters -/

/-- A path tells the shared name and the diameter. -/
theorem programPath_eq_iff {sinkName other : Path} (hx : x.isFinite = true)
    (hy : y.isFinite = true) :
    programPath sinkName x = programPath other y ↔ sinkName = other ∧ x.equal y = true := by
  constructor
  · intro h
    have hbytes := congrArg Path.bytes h
    rw [programPath_eq, programPath_eq, pathEnding_eq_cons, pathEnding_eq_cons] at hbytes
    obtain ⟨hname, hword⟩ := append_underscore_inj (underscore_not_mem_wordEnding hx)
      (underscore_not_mem_wordEnding hy) hbytes
    have hending : pathEnding x = pathEnding y := by
      rw [pathEnding_eq_cons, pathEnding_eq_cons, hword]
    exact ⟨congrArg Path.mk hname, equal_of_scalar_eq hx hy (scalar_eq_of_pathEnding_eq hending)⟩
  · rintro ⟨rfl, hequal⟩
    rw [programPath, programPath, scalar_eq_of_equal hx hy hequal]

/-! ### Directories -/

/-- A program goes to the directory that the shared name points into. -/
theorem resolve_directoryBefore {files : FileSystem} {host : Host} {sinkName : Path}
    {directory : Location} {name : Bytes}
    (h : files.Leads host (programPath sinkName x) directory name) :
    files.resolve host sinkName.directoryBefore = .ok directory := by
  obtain ⟨before, last, hbytes, hbefore, hslash⟩ := Path.exists_lastPiece sinkName.bytes
  obtain rfl : sinkName = ⟨before ++ last⟩ := by rw [← hbytes]
  obtain ⟨-, hfollow⟩ := eq_of_leads_programPath hbefore hslash h
  obtain ⟨hfault, -, hdirectory, -⟩ := FileSystem.resolveParent_eq_ok h.resolveParent_eq
  rw [Path.directoryBefore_append hbefore hslash]
  split
  · next hnil =>
    subst hnil
    have hrelative : FileSystem.start host ⟨[] ++ last⟩ = host.workingDirectory := by
      have hhead : last.head? ≠ some slash := fun hhead => hslash (List.mem_of_mem_head? hhead)
      simp [FileSystem.start, Path.isAbsolute, hhead]
    rw [hrelative] at hfollow
    obtain rfl : host.workingDirectory = directory := Except.ok.inj hfollow
    apply FileSystem.resolve_of_follow rfl _ hdirectory
    show files.follow host.workingDirectory [[dot]] = .ok host.workingDirectory
    rw [FileSystem.follow, FileSystem.enter, FileSystem.entryFault?_eq_none_iff.2 hdirectory]
    rfl
  · next hne =>
    have hstart : FileSystem.start host ⟨before⟩ = FileSystem.start host ⟨before ++ last⟩ := by
      rw [FileSystem.start, FileSystem.start, Path.isAbsolute, Path.isAbsolute,
        List.head?_append_of_ne_nil before hne]
    have hbegins : before <+: (programPath ⟨before ++ last⟩ x).bytes := by
      rw [programPath_eq, List.append_assoc]
      exact List.prefix_append before _
    apply FileSystem.resolve_of_follow (Path.fault?_of_isPrefix hbegins hne hfault) _ hdirectory
    rwa [hstart]

/-- What a path of a program tells, and where the program is made. -/
theorem programPath_unambiguous (sinkName : Path) :
    (∀ other x y, x.isFinite = true → y.isFinite = true →
      (programPath sinkName x = programPath other y ↔ sinkName = other ∧ x.equal y = true)) ∧
    ∀ job : ToolJob, job.fault? = none →
      ∃ ending, (programPath sinkName job.diameter).bytes = sinkName.bytes ++ ending ∧
        slash ∉ ending ∧ 0 ∉ ending ∧
        ∀ disk host settings files written,
          (place disk host settings sinkName job files).result = .ok written →
          ∃ directory stem, files.resolve host sinkName.directoryBefore = .ok directory ∧
            stem <:+ sinkName.bytes ∧
            Placed host files ((stem ++ ending) :: directory) (utf8 (document settings job))
              (place disk host settings sinkName job files).files := by
  refine ⟨fun other x y hx hy => programPath_eq_iff hx hy, ?_⟩
  intro job hjob
  have hfinite := (job.fault?_eq_none_iff.1 hjob).1.1
  refine ⟨pathEnding job.diameter, rfl, slash_not_mem_pathEnding _,
    zero_not_mem_pathEnding hfinite, ?_⟩
  intro disk host settings files written hwritten
  obtain ⟨-, rfl, directory, name, hleads, hplaced⟩ := place_eq_ok hwritten
  obtain ⟨before, last, hbytes, hbefore, hslash⟩ := Path.exists_lastPiece sinkName.bytes
  obtain rfl : sinkName = ⟨before ++ last⟩ := by rw [← hbytes]
  obtain ⟨rfl, -⟩ := eq_of_leads_programPath hbefore hslash hleads
  exact ⟨directory, last, resolve_directoryBefore hleads, List.suffix_append before last, hplaced⟩

/-- A shared name that itself looks like that of a program: zeros of both signs share a path, and
the program is made in the directory of the name. -/
theorem programPath_unambiguous_underscores :
    let sinkName := Path.ofText "parts/out_3"
    let minusZero : Binary64 := .finite true .zero
    let job : ToolJob := ⟨.ofNat 3, []⟩
    let host : Host := ⟨[], 0o022, none, none, none⟩
    let files := FileSystem.empty.insert [utf8 "parts"] (.directory 0o755)
    let o := place .sound host .standard sinkName job files
    programPath sinkName .zero = programPath sinkName minusZero ∧
      programPath sinkName minusZero ≠ programPath (.ofText "parts/out") job.diameter ∧
      o.result = .ok (.ofText "parts/out_3_3.cnc") ∧
      ∃ ending directory stem, files.resolve host sinkName.directoryBefore = .ok directory ∧
        Placed host files ((stem ++ ending) :: directory) (utf8 (document .standard job))
          o.files := by
  intro sinkName minusZero job host files o
  obtain ⟨hpath, hplace⟩ := programPath_unambiguous sinkName
  have hjob : job.fault? = none := by decide +kernel
  have hdiameter : job.diameter.isFinite = true := by decide +kernel
  have hresult : o.result = .ok (.ofText "parts/out_3_3.cnc") := by decide +kernel
  refine ⟨(hpath sinkName .zero minusZero rfl rfl).2 ⟨rfl, by decide⟩, ?_, hresult, ?_⟩
  · intro heq
    have hname := ((hpath _ minusZero job.diameter rfl hdiameter).1 heq).1
    exact absurd hname (by decide)
  · obtain ⟨ending, -, -, -, hmade⟩ := hplace job hjob
    obtain ⟨directory, stem, hresolve, -, hplaced⟩ := hmade .sound host .standard files _ hresult
    exact ⟨ending, directory, stem, hresolve, hplaced⟩

end Gcode

end DrillPost
