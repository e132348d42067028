import DrillPost.Files.FileSystem

/-!
# From paths to locations

A path is followed name by name, from the root or from the working directory. Only a directory can
be entered; a name may be at most 255 bytes long and a path 4095. `FileSystem.resolve` finds what a
path leads to, `FileSystem.resolveParent` finds the directory that its last name is in, whether or
not anything has that name.
-/

namespace DrillPost

namespace Path

/-- The names that a path is followed by. -/
def names (p : Path) : List Bytes := (splitSlash p.bytes).filter (· ≠ [])

/-- Whether the path can only lead to a directory. -/
def endsInSlash (p : Path) : Bool := p.bytes.getLast? == some slash

/-- Why no path with these bytes can be followed. -/
def fault? (p : Path) : Option IoError :=
  if 0 ∈ p.bytes then some .nulInName
  else if p.bytes = [] then some .notFound
  else if 4096 ≤ p.bytes.length then some .nameTooLong
  else none

end Path

def maxNameLength : Nat := 255

/-- Whether a name is one of the two that every directory has. -/
def isDots (name : Bytes) : Bool := name == [dot] || name == [dot, dot]

namespace FileSystem

/-- Why a location cannot be entered. -/
def entryFault? (fs : FileSystem) (place : Location) : Option IoError :=
  match fs.lookup? place with
  | none => some .notFound
  | some (.file ..) => some .notADirectory
  | some (.directory _) => none

/-- Where a name leads from a location, whether or not anything is there. -/
def enter (fs : FileSystem) (place : Location) (name : Bytes) : Except IoError Location :=
  match fs.entryFault? place with
  | some fault => .error fault
  | none =>
    if name = [dot] then .ok place
    else if name = [dot, dot] then .ok place.tail
    -- That a name is too long shows only where something could have it.
    else if maxNameLength < name.length then .error .nameTooLong
    else .ok (name :: place)

def follow (fs : FileSystem) : Location → List Bytes → Except IoError Location
  | place, [] => .ok place
  | place, name :: names =>
    match fs.enter place name with
    | .ok inner => fs.follow inner names
    | .error fault => .error fault

def start (host : Host) (p : Path) : Location := if p.isAbsolute then [] else host.workingDirectory

/-- The location of what a path leads to. -/
def resolve (fs : FileSystem) (host : Host) (p : Path) : Except IoError Location :=
  match p.fault? with
  | some fault => .error fault
  | none =>
    match fs.follow (start host p) p.names with
    | .error fault => .error fault
    | .ok place =>
      match fs.lookup? place with
      | none => .error .notFound
      | some entry =>
        if p.endsInSlash ∧ !entry.isDirectory then .error .notADirectory else .ok place

/-- The directory that the last name of a path is in, and that name; the root is in itself. -/
def resolveParent (fs : FileSystem) (host : Host) (p : Path) : Except IoError (Location × Bytes) :=
  match p.fault? with
  | some fault => .error fault
  | none =>
    match fs.follow (start host p) p.names.dropLast with
    | .error fault => .error fault
    | .ok place =>
      match fs.entryFault? place with
      | some fault => .error fault
      | none => .ok (place, p.names.getLast?.getD [dot])

/-- What a path leads to. -/
def entry? (fs : FileSystem) (host : Host) (p : Path) : Option Entry :=
  match fs.resolve host p with
  | .ok place => fs.lookup? place
  | .error _ => none

/-- Whether a path leads to a file. -/
def isFileAt (fs : FileSystem) (host : Host) (p : Path) : Bool :=
  (fs.entry? host p).any (!·.isDirectory)

/-- Whether a path leads to a directory. -/
def isDirectoryAt (fs : FileSystem) (host : Host) (p : Path) : Bool :=
  (fs.entry? host p).any (·.isDirectory)

end FileSystem

end DrillPost
