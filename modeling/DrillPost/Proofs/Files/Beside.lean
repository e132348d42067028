import DrillPost.Proofs.Files.Staying

/-!
# File systems that differ in one place

Two file systems are the same but for one place (`FileSystem.Beside`): something is done to both,
and as long as it does not get to the place it is the same that comes of it. A path does not get
there when the name of the place is not among the names of the path and the working directory is
neither at the place nor below it; everything that is found by following names is then found alike
(`FileSystem.Beside.resolve_eq`, `FileSystem.Beside.resolveParent_eq`).
-/

namespace DrillPost

namespace FileSystem

variable {fs fs' : FileSystem} {host : Host} {p : Path} {name : Bytes} {directory here : Location}
  {entry : Entry}

/-- The file systems are the same but for one place, where the second has the entry. -/
def Beside (place : Location) (entry : Entry) (fs fs' : FileSystem) : Prop :=
  ∀ here, fs'.lookup? here = if here = place then some entry else fs.lookup? here

/-- The same came of something that was done to both: the same failure, or file systems that are
still the same but for the place. -/
inductive BesideResult (place : Location) (entry : Entry) :
    Except IoError FileSystem → Except IoError FileSystem → Prop where
  | ok {fs fs' : FileSystem} (h : Beside place entry fs fs') :
    BesideResult place entry (.ok fs) (.ok fs')
  | error (fault : IoError) : BesideResult place entry (.error fault) (.error fault)

namespace Beside

theorem lookup?_eq (h : Beside (name :: directory) entry fs fs')
    (hhere : ¬ name :: directory <:+ here) : fs'.lookup? here = fs.lookup? here := by
  rw [h here, if_neg]
  rintro rfl
  exact hhere List.suffix_rfl

/-! ### Changes -/

variable {place : Location}

theorem insert (h : Beside place entry fs fs') (hhere : here ≠ place) (new : Entry) :
    Beside place entry (fs.insert here new) (fs'.insert here new) := by
  intro there
  rw [lookup?_insert, lookup?_insert, h there]
  split_ifs <;> simp_all

theorem erase (h : Beside place entry fs fs') (hhere : here ≠ place) :
    Beside place entry (fs.erase here) (fs'.erase here) := by
  intro there
  rw [lookup?_erase, lookup?_erase, h there]
  split_ifs <;> simp_all

end Beside

/-! ### Following names -/

/-- Other names than that of a place do not lead there from elsewhere. -/
theorem not_isSuffix_of_enter {other : Bytes} {inner : Location}
    (h : fs.enter here other = .ok inner) (hhere : ¬ name :: directory <:+ here)
    (hother : name ≠ other) : ¬ name :: directory <:+ inner := by
  unfold enter at h
  split at h
  · cases h
  split_ifs at h <;> cases h
  · exact hhere
  · intro hinner
    exact hhere (hinner.trans (List.tail_suffix here))
  · rw [List.suffix_cons_iff, not_or]
    exact ⟨fun heq => hother (List.cons.inj heq).1, hhere⟩

theorem not_isSuffix_of_follow {names : List Bytes} {inner : Location}
    (h : fs.follow here names = .ok inner) (hhere : ¬ name :: directory <:+ here)
    (hnames : name ∉ names) : ¬ name :: directory <:+ inner := by
  induction names generalizing here with
  | nil =>
    cases h
    exact hhere
  | cons other names ih =>
    rw [List.mem_cons, not_or] at hnames
    rw [follow] at h
    split at h
    · next next hnext =>
      exact ih h (not_isSuffix_of_enter hnext hhere hnames.1) hnames.2
    · cases h

theorem not_isSuffix_start (hhost : ¬ name :: directory <:+ host.workingDirectory) (p : Path) :
    ¬ name :: directory <:+ start host p := by
  unfold start
  split
  · simp
  · exact hhost

theorem not_isSuffix_of_resolve {place : Location} (h : fs.resolve host p = .ok place)
    (hhost : ¬ name :: directory <:+ host.workingDirectory) (hnames : name ∉ p.names) :
    ¬ name :: directory <:+ place := by
  unfold resolve at h
  split at h
  · cases h
  split at h
  · cases h
  next inner hfollow =>
  split at h
  · cases h
  · split at h <;> cases h
    exact not_isSuffix_of_follow hfollow (not_isSuffix_start hhost p) hnames

theorem not_isSuffix_of_resolveParent {other : Bytes} {inner : Location}
    (h : fs.resolveParent host p = .ok (inner, other))
    (hhost : ¬ name :: directory <:+ host.workingDirectory) (hnames : name ∉ p.names)
    (hdot : name ≠ [dot]) : ¬ name :: directory <:+ other :: inner := by
  obtain ⟨-, hfollow, -, hlast⟩ := resolveParent_eq_ok h
  have hinner := not_isSuffix_of_follow hfollow (not_isSuffix_start hhost p)
    fun hmem => hnames (List.dropLast_subset _ hmem)
  rw [List.suffix_cons_iff, not_or]
  refine ⟨fun heq => ?_, hinner⟩
  rw [← (List.cons.inj heq).1] at hlast
  cases hnames' : p.names.getLast? with
  | none =>
    rw [hnames'] at hlast
    exact hdot hlast.symm
  | some last =>
    rw [hnames', Option.getD_some] at hlast
    exact hnames (hlast ▸ List.mem_of_getLast? hnames')

namespace Beside

theorem enter_eq (h : Beside (name :: directory) entry fs fs')
    (hhere : ¬ name :: directory <:+ here) (other : Bytes) :
    fs'.enter here other = fs.enter here other := by
  simp only [enter, entryFault?, h.lookup?_eq hhere]

theorem follow_eq (h : Beside (name :: directory) entry fs fs')
    (hhere : ¬ name :: directory <:+ here) {names : List Bytes} (hnames : name ∉ names) :
    fs'.follow here names = fs.follow here names := by
  induction names generalizing here with
  | nil => rfl
  | cons other names ih =>
    rw [List.mem_cons, not_or] at hnames
    rw [follow, follow, h.enter_eq hhere]
    split
    · next next hnext =>
      exact ih (not_isSuffix_of_enter hnext hhere hnames.1) hnames.2
    · rfl

theorem isDirectory_eq (h : Beside (name :: directory) entry fs fs')
    (hhere : ¬ name :: directory <:+ here) : fs'.isDirectory here = fs.isDirectory here := by
  rw [isDirectory, isDirectory, h.lookup?_eq hhere]

/-! ### Following paths -/

variable (h : Beside (name :: directory) entry fs fs')
  (hhost : ¬ name :: directory <:+ host.workingDirectory)
include h hhost

theorem resolve_eq (hnames : name ∉ p.names) : fs'.resolve host p = fs.resolve host p := by
  have hstart := not_isSuffix_start hhost p
  unfold resolve
  rw [h.follow_eq hstart hnames]
  cases p.fault? with
  | some fault => rfl
  | none =>
    dsimp only
    cases hfollow : fs.follow (start host p) p.names with
    | error fault => rfl
    | ok place =>
      dsimp only
      rw [h.lookup?_eq (not_isSuffix_of_follow hfollow hstart hnames)]

theorem resolveParent_eq (hnames : name ∉ p.names.dropLast) :
    fs'.resolveParent host p = fs.resolveParent host p := by
  have hstart := not_isSuffix_start hhost p
  unfold resolveParent
  rw [h.follow_eq hstart hnames]
  cases p.fault? with
  | some fault => rfl
  | none =>
    dsimp only
    cases hfollow : fs.follow (start host p) p.names.dropLast with
    | error fault => rfl
    | ok place =>
      dsimp only [entryFault?]
      rw [h.lookup?_eq (not_isSuffix_of_follow hfollow hstart hnames)]

theorem entry?_eq (hnames : name ∉ p.names) : fs'.entry? host p = fs.entry? host p := by
  unfold entry?
  rw [h.resolve_eq hhost hnames]
  cases hplace : fs.resolve host p with
  | error fault => rfl
  | ok place => exact h.lookup?_eq (not_isSuffix_of_resolve hplace hhost hnames)

theorem readText_eq (hnames : name ∉ p.names) : fs'.readText host p = fs.readText host p := by
  unfold readText readFile
  rw [h.resolve_eq hhost hnames]
  cases hplace : fs.resolve host p with
  | error fault => rfl
  | ok place =>
    dsimp only
    rw [h.lookup?_eq (not_isSuffix_of_resolve hplace hhost hnames)]

/-- A file is moved alike in both. -/
theorem moveFile {place : Location} (hplace : place ≠ name :: directory) (hnames : name ∉ p.names)
    (hdot : name ≠ [dot]) :
    BesideResult (name :: directory) entry (fs.moveFile host place p)
      (fs'.moveFile host place p) := by
  have hparent := h.resolveParent_eq hhost fun hmem => hnames (List.dropLast_subset _ hmem)
  have hlookup : fs'.lookup? place = fs.lookup? place := by rw [h place, if_neg hplace]
  unfold FileSystem.moveFile
  rw [hparent, hlookup]
  cases hresult : fs.resolveParent host p with
  | error fault => exact .error _
  | ok found =>
    obtain ⟨inner, other⟩ := found
    have htarget := not_isSuffix_of_resolveParent hresult hhost hnames hdot
    have hne : other :: inner ≠ name :: directory := fun heq => htarget (heq ▸ List.suffix_rfl)
    dsimp only
    rw [h.isDirectory_eq htarget]
    split_ifs
    · exact .error _
    · exact .error _
    · cases fs.lookup? place with
      | none => exact .error _
      | some moved => exact .ok ((h.erase hplace).insert hne moved)

end Beside

end FileSystem

end DrillPost
