import DrillPost.Files.IoError
import DrillPost.Files.Path

/-!
# File systems

A file system is a finite map from locations to entries. There are no links, neither symbolic ones
nor second names of one file, so a location is the list of names that leads to it from the root. `FileSystem.lookup?` is the view that the operations
are described by: `lookup?_insert` and `lookup?_erase` say what a change leaves alone.
-/

namespace DrillPost

/-- A place in the tree, as the names that lead to it, the innermost first. -/
abbrev Location := List Bytes

/-- What can be at a location. The mode holds the permission bits. -/
inductive Entry where
  | file (mode : Nat) (content : Bytes)
  | directory (mode : Nat)
deriving DecidableEq

namespace Entry

def mode : Entry → Nat
  | .file mode _ => mode
  | .directory mode => mode

/-- The same entry with other permission bits. -/
def withMode (mode : Nat) : Entry → Entry
  | .file _ content => .file mode content
  | .directory _ => .directory mode

/-- Whether names can lead on from here. -/
def isDirectory : Entry → Bool
  | .directory _ => true
  | .file .. => false

end Entry

/-- What is at which location; each location counts once, at its first occurrence. -/
structure FileSystem where
  entries : List (Location × Entry)
deriving DecidableEq

namespace FileSystem

def empty : FileSystem := ⟨[([], .directory 0o755)]⟩

def lookup? (fs : FileSystem) (place : Location) : Option Entry :=
  (fs.entries.find? fun e => e.1 = place).map Prod.snd

/-- Nothing is at the location any more. -/
def erase (fs : FileSystem) (place : Location) : FileSystem :=
  ⟨fs.entries.filter fun e => e.1 ≠ place⟩

/-- The entry is at the location instead of what was there. -/
def insert (fs : FileSystem) (place : Location) (entry : Entry) : FileSystem :=
  ⟨(place, entry) :: (fs.erase place).entries⟩

theorem lookup?_erase (fs : FileSystem) (place here : Location) :
    (fs.erase place).lookup? here = if here = place then none else fs.lookup? here := by
  unfold lookup? erase
  rw [List.find?_filter]
  split
  · subst here
    rw [List.find?_eq_none.2 (by simp)]
    rfl
  · next h =>
    congr 2
    funext e
    by_cases he : e.1 = here
    · simp [he, h]
    · simp [he]

theorem lookup?_insert (fs : FileSystem) (place here : Location) (entry : Entry) :
    (fs.insert place entry).lookup? here =
      if here = place then some entry else fs.lookup? here := by
  by_cases h : here = place
  · subst here
    simp [insert, lookup?]
  · have hne : ¬ place = here := fun e => h e.symm
    have herase := lookup?_erase fs place here
    unfold lookup? at herase ⊢
    simp only [insert, List.find?_cons, hne, decide_false, herase, h, if_false]

/-- Whether a location is the location of a directory. -/
def isDirectory (fs : FileSystem) (place : Location) : Bool :=
  (fs.lookup? place).any Entry.isDirectory

end FileSystem

/-- What a program is told about the machine it runs on. -/
structure Host where
  /-- The directory that relative paths start from. -/
  workingDirectory : Location
  /-- The permission bits that new entries do not get. -/
  umask : Nat
  /-- The home directory of the user, if the environment names one. -/
  home : Option Bytes
  /-- The home directory of the user, if the list of users names one. -/
  accountHome : Option Bytes
  /-- The directory for configuration files, if the environment names one. -/
  configHome : Option Bytes
deriving DecidableEq

/-- The permission bits that are left of `mode` for a new entry. -/
def Host.newMode (host : Host) (mode : Nat) : Nat := mode &&& (0o777 ^^^ (host.umask &&& 0o777))

end DrillPost
