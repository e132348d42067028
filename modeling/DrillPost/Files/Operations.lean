import DrillPost.Files.Resolve

/-!
# Operations on files

Reading, writing and moving whole files, and making directories. Each operation that changes
something returns the changed file system or the reason why nothing changed; only
`createDirectories` can change something and then fail.

The program may read and write everything: permission bits are kept, and given to what is new, but
nothing is refused because of them.
-/

namespace DrillPost

namespace Path

theorem length_joinSlash_splitSlash (b : Bytes) : (joinSlash (splitSlash b)).length = b.length := by
  have hne : ∀ b : Bytes, splitSlash b ≠ [] := by
    intro b
    cases b with
    | nil => simp [splitSlash]
    | cons c r =>
      simp only [splitSlash]
      cases splitSlash r with
      | nil => simp
      | cons => simp only []; split <;> simp
  induction b with
  | nil => rfl
  | cons c r ih =>
    have := hne r
    simp only [splitSlash]
    cases h : splitSlash r with
    | nil => exact absurd h this
    | cons piece pieces =>
      rw [h] at ih
      by_cases hc : c = slash
      · simp only [hc, if_true, List.length_cons, ← ih]
        cases pieces <;> simp [joinSlash, List.intercalate_cons_cons]
      · simp only [hc, if_false, List.length_cons, ← ih]
        cases pieces <;> simp [joinSlash, List.intercalate_cons_cons]

theorem length_joinSlash_le_of_isPrefix {a b : List Bytes} (h : a <+: b) :
    (joinSlash a).length ≤ (joinSlash b).length := by
  obtain ⟨c, rfl⟩ := h
  induction a with
  | nil => simp [joinSlash]
  | cons x a ih =>
    cases a with
    | nil =>
      cases c with
      | nil => simp
      | cons y c => simp [joinSlash, List.intercalate_cons_cons]
    | cons y a =>
      simp only [joinSlash, List.cons_append, List.intercalate_cons_cons, List.length_append]
      simp only [joinSlash, List.cons_append] at ih
      omega

theorem isPrefix_trimPieces (pieces : List Bytes) : trimPieces pieces <+: pieces := by
  unfold trimPieces
  have h := List.dropWhile_suffix (l := pieces.reverse) fun piece => piece == [] || piece == [dot]
  simpa using List.reverse_prefix.2 h

/-- The last piece that is left names something. -/
theorem ne_nil_of_getLast?_trimPieces {pieces : List Bytes} {name : Bytes}
    (h : (trimPieces pieces).getLast? = some name) : name ≠ [] := by
  unfold trimPieces at h
  rw [List.getLast?_reverse] at h
  rintro rfl
  have := List.head?_dropWhile_not (fun piece => piece == [] || piece == [dot]) pieces.reverse
  rw [h] at this
  simp at this

theorem length_joinSlash_dropLast_lt {pieces : List Bytes} {name : Bytes}
    (h : pieces.getLast? = some name) (hne : name ≠ []) :
    (joinSlash pieces.dropLast).length < (joinSlash pieces).length := by
  have hpos : 0 < name.length := List.length_pos_iff.2 hne
  obtain ⟨init, rfl⟩ := List.getLast?_eq_some_iff.1 h
  rw [List.dropLast_concat]
  clear h
  induction init with
  | nil => simpa [joinSlash] using hpos
  | cons x init ih =>
    cases init with
    | nil => simp [joinSlash, List.intercalate_cons_cons]
    | cons y init =>
      simp only [joinSlash, List.cons_append, List.intercalate_cons_cons, List.length_append]
        at ih ⊢
      omega

theorem length_head_add (p : Path) :
    p.head.length + (p.bytes.drop p.head.length).length = p.bytes.length := by
  suffices p.head.length ≤ p.bytes.length by simp; omega
  unfold head isAbsolute
  cases hb : p.bytes with
  | nil => simp [splitSlash]
  | cons c r => split <;> simp; split <;> simp

/-- The path of the parent is shorter, so only finitely many directories lie above a path. -/
theorem length_parent?_lt {p q : Path} (h : p.parent? = some q) :
    q.bytes.length < p.bytes.length := by
  have hlen := p.length_head_add
  unfold parent? at h
  split at h
  · next hne =>
    cases h
    have hname := List.getLast?_eq_some_getLast hne
    have h1 := length_joinSlash_dropLast_lt hname (ne_nil_of_getLast?_trimPieces hname)
    have h2 := length_joinSlash_le_of_isPrefix (isPrefix_trimPieces p.pieces.dropLast)
    have h3 := length_joinSlash_le_of_isPrefix
      (isPrefix_trimPieces (splitSlash (p.bytes.drop p.head.length)))
    rw [length_joinSlash_splitSlash] at h3
    simp only [withPieces, List.length_append]
    unfold pieces at h1 h2 ⊢
    omega
  · split at h
    · next hdot =>
      cases h
      rw [hdot] at hlen
      simp at hlen ⊢
      omega
    · cases h

end Path

namespace FileSystem

/-- The content of the file that a path leads to. -/
def readFile (fs : FileSystem) (host : Host) (p : Path) : Except IoError Bytes :=
  match fs.resolve host p with
  | .error fault => .error fault
  | .ok place =>
    match fs.lookup? place with
    | some (.file _ content) => .ok content
    | some (.directory _) => .error .isADirectory
    | none => .error .notFound

def readText (fs : FileSystem) (host : Host) (p : Path) : Except IoError String :=
  match fs.readFile host p with
  | .error fault => .error fault
  | .ok content =>
    match ofUtf8? content with
    | some text => .ok text
    | none => .error .notText

/-- Puts content into the file that a path leads to. A file that is already there keeps its
permission bits. -/
def writeFile (fs : FileSystem) (host : Host) (p : Path) (content : Bytes) :
    Except IoError FileSystem :=
  match fs.resolveParent host p with
  | .error fault => .error fault
  | .ok (directory, name) =>
    if isDots name ∨ p.endsInSlash then .error .isADirectory
    else if maxNameLength < name.length then .error .nameTooLong
    else
      match fs.lookup? (name :: directory) with
      | some (.directory _) => .error .isADirectory
      | some (.file mode _) => .ok (fs.insert (name :: directory) (.file mode content))
      | none => .ok (fs.insert (name :: directory) (.file (host.newMode 0o666) content))

/-- Makes the directory that a path names. -/
def createDirectory (fs : FileSystem) (host : Host) (p : Path) : Except IoError FileSystem :=
  match fs.resolveParent host p with
  | .error fault => .error fault
  | .ok (directory, name) =>
    if isDots name then .error .alreadyExists
    else if maxNameLength < name.length then .error .nameTooLong
    else if (fs.lookup? (name :: directory)).isSome then .error .alreadyExists
    else .ok (fs.insert (name :: directory) (.directory (host.newMode 0o777)))

/-- Makes the directory that a path names, unless there is one. -/
def ensureDirectory (fs : FileSystem) (host : Host) (p : Path) : FileSystem × Option IoError :=
  match fs.createDirectory host p with
  | .ok fs => (fs, none)
  | .error fault => (fs, if fs.isDirectoryAt host p then none else some fault)

/-- Makes the directory that a path names and every directory above it that is missing. Directories
that were made before something failed stay. -/
def createDirectories (fs : FileSystem) (host : Host) (p : Path) : FileSystem × Option IoError :=
  if p.bytes = [] then (fs, none)
  else
    match fs.ensureDirectory host p with
    | (_, some .notFound) =>
      -- Only a parent that is missing can be made first.
      match _h : p.parent? with
      | none => (fs, some .notFound)
      | some parent =>
        match fs.createDirectories host parent with
        | (fs, none) => fs.ensureDirectory host p
        | (fs, some fault) => (fs, some fault)
    | outcome => outcome
termination_by p.bytes.length
decreasing_by exact Path.length_parent?_lt _h

/-- Removes the file that a path leads to. -/
def removeFile (fs : FileSystem) (host : Host) (p : Path) : Except IoError FileSystem :=
  match fs.resolve host p with
  | .error fault => .error fault
  | .ok place => if fs.isDirectory place then .error .isADirectory else .ok (fs.erase place)

/-- Moves the file at a location to a path, in place of a file that is there. A zero byte in the
path is for the operating system to refuse. -/
def moveFile (fs : FileSystem) (host : Host) (place : Location) (p : Path) :
    Except IoError FileSystem :=
  match fs.resolveParent host p with
  | .error fault => .error (if fault = .nulInName then .invalidArgument else fault)
  | .ok (directory, name) =>
    if maxNameLength < name.length then .error .nameTooLong
    else if isDots name ∨ p.endsInSlash ∨ fs.isDirectory (name :: directory) then
      .error .isADirectory
    else
      match fs.lookup? place with
      | some entry => .ok ((fs.erase place).insert (name :: directory) entry)
      | none => .error .notFound

/-- Gives what a path leads to other permission bits. -/
def setMode (fs : FileSystem) (host : Host) (p : Path) (mode : Nat) : Except IoError FileSystem :=
  match fs.resolve host p with
  | .error fault => .error fault
  | .ok place =>
    match fs.lookup? place with
    | some entry => .ok (fs.insert place (entry.withMode mode))
    | none => .error .notFound

/-- The permission bits of what a path leads to. -/
def modeAt (fs : FileSystem) (host : Host) (p : Path) : Except IoError Nat :=
  match fs.resolve host p with
  | .error fault => .error fault
  | .ok place => (fs.lookup? place).elim (.error .notFound) fun entry => .ok entry.mode

/-- The paths of everything below a location, from there on; those of directories end in a
slash. -/
def pathsBelow (fs : FileSystem) (place : Location) : List Path :=
  fs.entries.filterMap fun (inner, entry) =>
    if place.isSuffixOf inner ∧ place.length < inner.length then
      some ⟨joinSlash (inner.take (inner.length - place.length)).reverse ++
        if entry.isDirectory then [slash] else []⟩
    else none

end FileSystem

end DrillPost
