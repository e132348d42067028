import DrillPost.Proofs.Files.Making

/-!
# Directories above a path

Directories that are made above a path are where nothing was, and paths above it lead to them
(`FileSystem.IsNewAbove`). Nothing else changes while they are made, and if everything is in a
directory (`FileSystem.IsRooted`), nothing is in a new directory but other new ones
(`FileSystem.OnlyNewAbove`, `FileSystem.Makes.onlyNewAbove`). Where not all of them can be made, the
path leads to no directory (`FileSystem.isDirectoryAt_createDirectories`).

What is written afterwards is a file where no directory was (`FileSystem.OnlyNewAbove.writeFile`).
-/

namespace DrillPost

namespace FileSystem

variable {fs fs' fs'' : FileSystem} {host : Host} {p q : Path} {place : Location}

/-- At the place is a directory that was not there, and a path above `p` leads to it. -/
structure IsNewAbove (host : Host) (p : Path) (fs fs' : FileSystem) (place : Location) : Prop where
  lookup?_before : fs.lookup? place = none
  lookup?_after : fs'.lookup? place = some (.directory (host.newMode 0o777))
  exists_isAbove : ∃ above : Path, above.IsAbove p ∧ fs'.resolve host above = .ok place

/-- Everything but the root is in a directory. -/
def IsRooted (fs : FileSystem) : Prop :=
  ∀ name directory, fs.lookup? (name :: directory) ≠ none → fs.isDirectory directory = true

/-- Directories above the path are new, and nothing else has changed. -/
structure OnlyNewAbove (host : Host) (p : Path) (fs fs' : FileSystem) : Prop where
  lookup?_eq_or : ∀ place,
    fs'.lookup? place = fs.lookup? place ∨ IsNewAbove host p fs fs' place
  /-- The new directories hold nothing but each other. -/
  lookup?_inside : fs.IsRooted → ∀ place, IsNewAbove host p fs fs' place → ∀ name,
    fs'.lookup? (name :: place) = none ∨ IsNewAbove host p fs fs' (name :: place)

/-- The path leads to a file with this content, and no other place has changed since directories
were made. A file that was there before keeps its permission bits. -/
structure WrittenAt (host : Host) (p : Path) (content : Bytes) (fs made fs' : FileSystem)
    (target : Location) : Prop where
  resolve_eq : fs'.resolve host p = .ok target
  isDirectory_eq : fs.isDirectory target = false
  lookup?_target : fs'.lookup? target =
    some (.file ((fs.lookup? target).elim (host.newMode 0o666) Entry.mode) content)
  lookup?_other : ∀ place, place ≠ target → fs'.lookup? place = made.lookup? place

/-! ### One directory -/

theorem isDirectory_insert_directory (fs : FileSystem) (place : Location) (mode : Nat)
    {here : Location} (h : fs.isDirectory here = true) :
    (fs.insert place (.directory mode)).isDirectory here = true := by
  by_cases heq : here = place
  · rw [heq, isDirectory, lookup?_insert_self]
    rfl
  · rwa [isDirectory, lookup?_insert_of_ne heq]

/-- A directory is made where nothing was, and its path leads to it. -/
theorem exists_insert_of_createDirectory (h : fs.createDirectory host p = .ok fs') :
    ∃ place, fs.lookup? place = none ∧ fs' = fs.insert place (.directory (host.newMode 0o777)) ∧
      fs'.resolve host p = .ok place := by
  obtain ⟨directory, name, hparent, hdots, hlength, hnone, rfl⟩ := createDirectory_eq_ok h
  obtain ⟨hfault, -⟩ := resolveParent_eq_ok hparent
  have hfollow := follow_of_resolveParent hparent hdots hlength
  refine ⟨name :: directory, hnone, rfl, ?_⟩
  apply resolve_of_follow hfault
  · exact follow_mono (fun _ => isDirectory_insert_directory fs (name :: directory) _) hfollow
  · rw [isDirectory, lookup?_insert_self]
    rfl

/-! ### Directories, one after the other -/

/-- One more directory keeps what has been made. -/
theorem IsNewAbove.of_createDirectory (h : IsNewAbove host p fs fs' place)
    (hmake : fs'.createDirectory host q = .ok fs'') : IsNewAbove host p fs fs'' place := by
  obtain ⟨above, habove, hresolve⟩ := h.exists_isAbove
  obtain ⟨made, hnone, rfl, -⟩ := exists_insert_of_createDirectory hmake
  have hne : place ≠ made := by
    rintro rfl
    rw [h.lookup?_after] at hnone
    cases hnone
  have hlookup := lookup?_insert_of_ne hne fs' (.directory (host.newMode 0o777))
  refine ⟨h.lookup?_before, hlookup.trans h.lookup?_after, above, habove, ?_⟩
  exact resolve_mono (fun _ => isDirectory_insert_directory fs' made _) hlookup hresolve

/-- What changes while directories above a path are made. -/
theorem Makes.lookup?_eq_or_isNewAbove (h : Makes host (·.IsAbove p) fs fs') (place : Location) :
    fs'.lookup? place = fs.lookup? place ∨ IsNewAbove host p fs fs' place := by
  induction h with
  | refl => exact .inl rfl
  | @tail fs' fs'' _ hone ih =>
    obtain ⟨q, hq, hmake⟩ := hone
    rcases ih with heq | hnew
    · obtain ⟨made, hnone, rfl, hresolve⟩ := exists_insert_of_createDirectory hmake
      by_cases hplace : place = made
      · subst hplace
        exact .inr ⟨heq ▸ hnone, lookup?_insert_self _ _ _, q, hq, hresolve⟩
      · exact .inl ((lookup?_insert_of_ne hplace fs' _).trans heq)
    · exact .inr (hnew.of_createDirectory hmake)

theorem Makes.onlyNewAbove (h : Makes host (·.IsAbove p) fs fs') : OnlyNewAbove host p fs fs' := by
  refine ⟨h.lookup?_eq_or_isNewAbove, ?_⟩
  intro hrooted place hnew name
  rcases h.lookup?_eq_or_isNewAbove (name :: place) with heq | hinner
  · by_cases hnone : fs.lookup? (name :: place) = none
    · exact .inl (heq.trans hnone)
    · -- What was there before would be in a directory that was there.
      have hplace := hrooted name place hnone
      rw [isDirectory, hnew.lookup?_before] at hplace
      cases hplace
  · exact .inr hinner

/-! ### Directories that are missing -/

/-- What a directory is in is a directory. -/
theorem isDirectoryAt_parent? (h : fs.isDirectoryAt host p = true) (hparent : p.parent? = some q)
    (hne : q.bytes ≠ []) : fs.isDirectoryAt host q = true := by
  obtain ⟨place, hresolve, hplace⟩ := isDirectoryAt_iff.1 h
  obtain ⟨hfault, hfollow⟩ := resolve_eq_ok hresolve
  have hbegins := Path.isPrefix_parent? hparent
  obtain ⟨rest, hrest⟩ := Path.names_parent? hparent
  have hstart : start host q = start host p := by
    obtain ⟨more, hmore⟩ := hbegins
    have hhead : (q.bytes ++ more).head? = q.bytes.head? := by
      cases hbytes : q.bytes with
      | nil => exact absurd hbytes hne
      | cons b bytes => rfl
    rw [start, start, Path.isAbsolute, Path.isAbsolute, ← hmore, hhead]
  rw [← hrest, ← hstart] at hfollow
  obtain ⟨inner, hinner, hmore⟩ := exists_follow_of_append hfollow
  have hdirectory := isDirectory_of_follow_eq_ok hplace hmore
  have hresolve := resolve_of_follow (Path.fault?_of_isPrefix hbegins hne hfault) hinner hdirectory
  exact isDirectoryAt_iff.2 ⟨inner, hresolve, hdirectory⟩

theorem ensureDirectory_eq_some {cause : IoError}
    (h : fs.ensureDirectory host p = (fs', some cause)) :
    fs' = fs ∧ fs.isDirectoryAt host p = false := by
  unfold ensureDirectory at h
  cases hmake : fs.createDirectory host p with
  | ok made =>
    rw [hmake] at h
    cases h
  | error fault =>
    rw [hmake] at h
    obtain ⟨rfl, hcause⟩ := Prod.mk.inj h
    refine ⟨rfl, ?_⟩
    cases hplace : fs.isDirectoryAt host p with
    | false => rfl
    | true =>
      rw [hplace] at hcause
      cases hcause

/-- Where not all directories can be made, there is none at the path. -/
theorem isDirectoryAt_createDirectories (fs : FileSystem) (host : Host) (p : Path)
    {made : FileSystem} {cause : IoError} (h : fs.createDirectories host p = (made, some cause)) :
    p.bytes ≠ [] ∧ made.isDirectoryAt host p = false := by
  unfold createDirectories at h
  split at h
  · cases h
  next hne =>
  refine ⟨hne, ?_⟩
  split at h
  · next fs' hensure =>
    obtain ⟨rfl, hmissing⟩ := ensureDirectory_eq_some hensure
    split at h
    · cases h
      exact hmissing
    · next parent hparent =>
      split at h
      · next between hbetween =>
        obtain ⟨rfl, hstill⟩ := ensureDirectory_eq_some h
        exact hstill
      · next between fault hbetween =>
        cases h
        -- A directory at the path would be in one at the path of the parent.
        obtain ⟨hnonempty, hnone⟩ := isDirectoryAt_createDirectories _ host parent hbetween
        cases hplace : made.isDirectoryAt host p with
        | false => rfl
        | true =>
          have habove := isDirectoryAt_parent? hplace hparent hnonempty
          exact absurd (hnone.symm.trans habove) Bool.false_ne_true
  · obtain ⟨rfl, hmissing⟩ := ensureDirectory_eq_some h
    exact hmissing
termination_by p.bytes.length
decreasing_by exact Path.length_parent?_lt ‹_›

/-! ### Writing -/

/-- What is written where only directories are new. -/
theorem OnlyNewAbove.writeFile {content : Bytes} (h : OnlyNewAbove host p fs fs')
    (hwrite : fs'.writeFile host p content = .ok fs'') :
    ∃ target, WrittenAt host p content fs fs' fs'' target := by
  obtain ⟨directory, name, mode, hleads, hfile, rfl, rfl⟩ := writeFile_eq_ok hwrite
  have hlookup : fs'.lookup? (name :: directory) = fs.lookup? (name :: directory) := by
    rcases h.lookup?_eq_or (name :: directory) with heq | hnew
    · exact heq
    · rw [isDirectory, hnew.lookup?_after] at hfile
      cases hfile
  refine ⟨name :: directory, ?_, ?_, ?_, ?_⟩
  · apply Leads.resolve_eq_ok _ (lookup?_insert_self fs' (name :: directory) _)
    exact hleads.mono fun here hhere => (isDirectory_insert_file hfile here).trans hhere
  · rwa [isDirectory, hlookup] at hfile
  · rw [lookup?_insert_self, hlookup]
  · intro place hplace
    exact lookup?_insert_of_ne hplace fs' _

end FileSystem

end DrillPost
