import DrillPost.Proofs.Files.Naming
import Mathlib.Tactic.SplitIfs

/-!
# Files that stay

A path leads to a file (`FileSystem.HasFile`) by the name of the file, or by two dots at its end
(`FileSystem.HasFile.leads_or_dots`). The path leads to the same file for as long as nothing happens
to the file and to the directories (`FileSystem.HasFile.stay`).
-/

namespace DrillPost

namespace FileSystem

variable {fs fs' : FileSystem} {host : Host} {p : Path} {place : Location} {content : Bytes}

/-! ### Files that paths lead to -/

/-- The path leads to a file at a place, and this is its content. -/
structure HasFile (fs : FileSystem) (host : Host) (p : Path) (place : Location) (content : Bytes) :
    Prop where
  resolve_eq : fs.resolve host p = .ok place
  exists_lookup? : ∃ mode, fs.lookup? place = some (.file mode content)

theorem isFileAt_iff : fs.isFileAt host p = true ↔
    ∃ place content, fs.HasFile host p place content := by
  unfold isFileAt entry?
  constructor
  · intro h
    split at h
    · next place hplace =>
      cases hentry : fs.lookup? place with
      | none => simp [hentry] at h
      | some entry =>
        cases entry with
        | file mode content => exact ⟨place, content, hplace, mode, hentry⟩
        | directory mode => simp [hentry, Entry.isDirectory] at h
    · cases h
  · rintro ⟨place, content, hplace, mode, hentry⟩
    simp [hplace, hentry, Entry.isDirectory]

theorem readText_eq_ok_iff {text : String} : fs.readText host p = .ok text ↔
    ∃ place content, fs.HasFile host p place content ∧ ofUtf8? content = some text := by
  unfold readText readFile
  constructor
  · intro h
    split at h
    · cases h
    next content hcontent =>
    split at hcontent
    · cases hcontent
    next place hplace =>
    split at hcontent
    · next mode content' hentry =>
      cases hcontent
      split at h
      · next htext =>
        cases h
        exact ⟨place, content, ⟨hplace, mode, hentry⟩, htext⟩
      · cases h
    · cases hcontent
    · cases hcontent
  · rintro ⟨place, content, ⟨hplace, mode, hentry⟩, htext⟩
    simp [hplace, hentry, htext]

/-- A path leads to a file by the name of the file, or by two dots at its end. -/
theorem HasFile.leads_or_dots (h : fs.HasFile host p place content) :
    (∃ directory name, place = name :: directory ∧ fs.Leads host p directory name) ∨
      ∃ before directory, p = ⟨before ++ [dot, dot]⟩ ∧ Path.BeginsPiece before ∧
        fs.follow (start host p) (Path.mk before).names = .ok directory ∧
        place = directory.tail := by
  obtain ⟨h, mode, hfile⟩ := h
  unfold resolve at h
  split at h
  · cases h
  next hfault =>
  split at h
  · cases h
  next inner hfollow =>
  split at h
  · cases h
  next entry hentry =>
  split at h
  · cases h
  next hslash =>
  cases h
  rw [hfile] at hentry
  cases hentry
  have hends : p.endsInSlash = false := by
    rw [Bool.eq_false_iff]
    exact fun hends => hslash ⟨hends, rfl⟩
  obtain ⟨before, last, hbytes, hbefore, hlast⟩ := Path.exists_lastPiece p.bytes
  have hp : p = ⟨before ++ last⟩ := by rw [← hbytes]
  have hne : last ≠ [] := by
    rintro rfl
    rw [List.append_nil] at hbytes
    obtain rfl | ⟨rest, rfl⟩ := hbefore
    · simp [Path.fault?, hbytes] at hfault
    · simp [Path.endsInSlash, hbytes] at hends
  have hnames : p.names = (Path.mk before).names ++ [last] := by
    rw [hp, hbefore.names_append hlast hne]
  rw [hnames] at hfollow
  obtain ⟨directory, hdirectory, henter⟩ := exists_follow_of_concat hfollow
  have hisDirectory := isDirectory_of_enter_eq_ok henter
  rw [enter, entryFault?_eq_none_iff.2 hisDirectory] at henter
  dsimp only at henter
  split_ifs at henter with hdot hdots hlength
  · -- A single dot would lead to a directory.
    cases henter
    rw [isDirectory, hfile] at hisDirectory
    cases hisDirectory
  · cases henter
    exact .inr ⟨before, directory, by rw [hp, hdots], hbefore, hdirectory, rfl⟩
  · cases henter
    refine .inl ⟨directory, last, rfl, ?_, by simp [isDots, hdot, hdots],
      Nat.not_lt.1 hlength, hends⟩
    rw [resolveParent, hfault, hnames, List.dropLast_concat, hdirectory]
    dsimp only
    rw [entryFault?_eq_none_iff.2 hisDirectory, List.getLast?_concat]
    rfl

/-! ### Files that stay -/

theorem HasFile.stay (h : fs.HasFile host p place content)
    (hdir : ∀ here, fs'.isDirectory here = fs.isDirectory here)
    (hplace : fs'.lookup? place = fs.lookup? place) : fs'.HasFile host p place content :=
  ⟨resolve_mono (fun here hhere => (hdir here).trans hhere) hplace h.resolve_eq,
    hplace ▸ h.exists_lookup?⟩

theorem HasFile.entry?_eq (h : fs.HasFile host p place content)
    (hdir : ∀ here, fs'.isDirectory here = fs.isDirectory here)
    (hplace : fs'.lookup? place = fs.lookup? place) : fs'.entry? host p = fs.entry? host p := by
  unfold entry?
  rw [h.resolve_eq, (h.stay hdir hplace).resolve_eq]
  exact hplace

end FileSystem

end DrillPost
