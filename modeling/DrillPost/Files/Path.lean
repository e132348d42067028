import DrillPost.Text.Utf8

/-!
# Paths

A path is a sequence of bytes; a slash divides it into pieces. Pieces that are empty or a single dot
name nothing, except a dot that begins a relative path. The last piece that names something is the
file name; it is split at its last dot into a stem and an extension.

`Path.withoutExtension` and `Path.join` are what the name of a program is built from, `Path.parent?`
tells where it goes.
-/

namespace DrillPost

/-- The byte that divides a path into pieces. -/
def slash : UInt8 := 0x2F

def dot : UInt8 := 0x2E

/-- The runs of bytes between slashes; there is always at least one. -/
def splitSlash : Bytes → List Bytes
  | [] => [[]]
  | b :: r =>
    match splitSlash r with
    | [] => [[]]
    | piece :: pieces => if b = slash then [] :: piece :: pieces else (b :: piece) :: pieces

/-- Puts a slash between pieces. -/
def joinSlash (pieces : List Bytes) : Bytes := [slash].intercalate pieces

/-- Splits a name at its last dot. A name whose only dot comes first, or that has none, is all
stem. -/
def splitExtension (name : Bytes) : Bytes × Option Bytes :=
  let after := (name.reverse.takeWhile (· ≠ dot)).reverse
  let before := (name.reverse.dropWhile (· ≠ dot)).tail.reverse
  if before = [] then (name, none) else (before, some after)

/-- The name of a file, a directory, or a place where one might be. -/
structure Path where
  bytes : Bytes
deriving DecidableEq, Inhabited

namespace Path

/-- The path whose bytes encode a text. -/
def ofText (s : String) : Path := ⟨utf8 s⟩

/-- The text that the path encodes, if it encodes one. -/
def text? (p : Path) : Option String := ofUtf8? p.bytes

/-- The path as it is shown in messages. -/
def display (p : Path) : String := lossy p.bytes

/-- Whether the path starts at the root. -/
def isAbsolute (p : Path) : Bool := p.bytes.head? == some slash

/-! ### Pieces -/

/-- The slash of an absolute path, or the dot that begins a relative one. -/
def head (p : Path) : Bytes :=
  if p.isAbsolute then [slash]
  else if (splitSlash p.bytes).head? = some [dot] then [dot]
  else []

/-- Pieces without those at the end that name nothing. -/
def trimPieces (pieces : List Bytes) : List Bytes :=
  (pieces.reverse.dropWhile fun piece => piece == [] || piece == [dot]).reverse

/-- The pieces after the head, up to the last that names something. -/
def pieces (p : Path) : List Bytes := trimPieces (splitSlash (p.bytes.drop p.head.length))

/-- The path with the given pieces after the head. -/
def withPieces (p : Path) (pieces : List Bytes) : Path := ⟨p.head ++ joinSlash pieces⟩

/-- The last piece, unless the path names nothing or ends in two dots. -/
def fileName? (p : Path) : Option Bytes := p.pieces.getLast?.filter (· ≠ [dot, dot])

/-- The path of the directory that the last piece is in. -/
def parent? (p : Path) : Option Path :=
  if p.pieces ≠ [] then some (p.withPieces (trimPieces p.pieces.dropLast))
  else if p.head = [dot] then some ⟨[]⟩
  else none

/-- The path that is so many levels above the parent. -/
def aboveParent? : (levels : Nat) → Path → Option Path
  | 0, p => p.parent?
  | levels + 1, p => p.parent?.bind (aboveParent? levels)

/-! ### Stem and extension -/

/-- The file name up to its last dot. -/
def stem? (p : Path) : Option Bytes := p.fileName?.map fun name => (splitExtension name).1

/-- The file name after its last dot. -/
def extension? (p : Path) : Option Bytes := p.fileName?.bind fun name => (splitExtension name).2

/-- The path up to the end of its stem; a path without a file name is left as it is. -/
def endAtStem (p : Path) : Path :=
  match p.stem? with
  | none => p
  | some stem => p.withPieces (p.pieces.dropLast ++ [stem])

/-- The path without its extension: as many bytes as the extension has are cut off the end, and then
what still follows the stem. -/
def withoutExtension (p : Path) : Path :=
  endAtStem ⟨p.bytes.take (p.bytes.length - (p.extension?.getD []).length)⟩

/-- The path of a name inside a directory; an absolute name stands for itself. -/
def join (directory name : Path) : Path :=
  if name.isAbsolute then name
  else if directory.bytes = [] ∨ directory.bytes.getLast? = some slash then
    ⟨directory.bytes ++ name.bytes⟩
  else ⟨directory.bytes ++ slash :: name.bytes⟩

end Path

end DrillPost
