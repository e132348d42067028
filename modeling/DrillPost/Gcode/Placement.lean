import DrillPost.Files.Operations
import DrillPost.Files.Outcome
import DrillPost.Gcode.Program

/-!
# Putting programs in place

A program goes to its path by way of a temporary file beside it: the file is made, filled, given its
permission bits, written out, and moved to the path. So the path holds a whole program or what it
held before, and where a step fails the temporary file is removed and the files are as they were.

`Gcode.place` puts one program in place, `Gcode.placeAll` those of a drill job, one for each
diameter, up to the first failure. A `Disk` says which of the steps fail that no look at the files
foretells; between one program and the next it may change, so a run has `Disks`.
-/

namespace DrillPost

/-- How a disk takes a program. -/
structure Disk where
  /-- How many bytes of a program it takes, if there is a limit. -/
  room : Option Nat
  /-- Why permission bits cannot be changed. -/
  modeFault? : Option IoError
  /-- Why a file cannot be written out. -/
  syncFault? : Option IoError
  /-- Why a file cannot be moved. -/
  moveFault? : Option IoError

/-- A disk that never fails. -/
def Disk.sound : Disk := ⟨none, none, none, none⟩

/-- How the disk takes each of the programs that are put in place one after another. -/
abbrev Disks := (position : Nat) → Disk

namespace Disks

/-- Disks that never fail. -/
def sound : Disks := fun _ => .sound

/-- How the programs after the first ones are taken. -/
def after (disks : Disks) (count : Nat) : Disks := fun position => disks (position + count)

@[simp] theorem after_first (disks : Disks) (count : Nat) : disks.after count 0 = disks count :=
  congrArg disks (Nat.zero_add count)

end Disks

namespace Gcode

/-! ### Temporary files -/

/-- The name of a temporary file; every name is of one length. -/
def temporaryName (number : Nat) : Bytes :=
  utf8 (".snapdrill-" ++ String.ofList (Nat.toDigits 10 (100000 + number)) ++ ".tmp")

/-- How many names are tried. -/
def attempts : Nat := 65536

/-- The first number from `number` on that is not taken. -/
def firstFree? (isTaken : Nat → Bool) (number : Nat) : (attempts : Nat) → Option Nat
  | 0 => none
  | attempts + 1 =>
    if isTaken number then firstFree? isTaken (number + 1) attempts else some number

theorem not_isTaken_of_firstFree? {isTaken : Nat → Bool} {start free : Nat} {attempts : Nat}
    (h : firstFree? isTaken start attempts = some free) : isTaken free = false := by
  induction attempts generalizing start with
  | zero => cases h
  | succ attempts ih =>
    unfold firstFree? at h
    split at h
    · exact ih h
    · next hfree => simpa [← Option.some.inj h] using hfree

/-- The directory that the file at a path is in. -/
def directoryOf (path : Path) : Path :=
  match path.parent?.filter fun parent => parent.bytes ≠ [] with
  | some parent => parent
  | none => .ofText "."

/-- A location in a directory where nothing is. -/
def freshLocation (files : FileSystem) (host : Host) (directory : Path) :
    Except IoError Location :=
  match files.resolveParent host (directory.join ⟨temporaryName 0⟩) with
  | .error fault => .error fault
  | .ok (place, _) =>
    match firstFree? (fun n => (files.lookup? (temporaryName n :: place)).isSome) 0 attempts with
    | none => .error .noFreshName
    | some number => .ok (temporaryName number :: place)

/-! ### One program -/

/-- The permission bits of a new file. -/
def newFileMode (host : Host) : Nat := host.newMode 0o666

/-- The permission bits that the program at a path gets: those of what is there, else those of a new
file. -/
def placedMode (disk : Disk) (host : Host) (files : FileSystem) (path : Path) :
    Except IoError Nat :=
  match files.entry? host path with
  | none => .ok (newFileMode host)
  | some entry => disk.modeFault?.elim (.ok entry.mode) .error

/-- Gives the filled temporary file its permission bits, writes it out and moves it to the path. -/
def finish (disk : Disk) (host : Host) (files : FileSystem) (path : Path) (temporary : Location)
    (content : Bytes) : Except IoError FileSystem :=
  match placedMode disk host files path with
  | .error fault => .error fault
  | .ok mode =>
    match disk.syncFault?.orElse fun _ => disk.moveFault? with
    | some fault => .error fault
    | none => (files.insert temporary (.file mode content)).moveFile host temporary path

/-- Puts the text of pieces at a path. -/
def put (disk : Disk) (host : Host) (files : FileSystem) (path : Path) (pieces : List Piece) :
    Outcome IoError Unit :=
  match freshLocation files host (directoryOf path) with
  | .error fault => .fail files fault []
  | .ok temporary =>
    -- The temporary file is there while the path is looked at, but never when `put` is done.
    let opened := files.insert temporary (.file (newFileMode host) [])
    let delivery := deliver disk.room pieces
    if delivery.isComplete then
      match finish disk host opened path temporary delivery.accepted with
      | .error fault => .fail (opened.erase temporary) fault delivery.events
      | .ok placed => .ok placed () delivery.events
    else .fail (opened.erase temporary) .noSpace delivery.events

/-- What is reported of a program that is in place. -/
def placedEvent (job : ToolJob) (path : Path) : Event :=
  ⟨.info, reporter,
    s!"Wrote {job.holeCount} holes at diameter {job.diameter.text} to " ++ path.display⟩

/-- Puts the program of a job in place and returns its path. What is wrong with settings or job
shows before any file is touched. -/
def place (disk : Disk) (host : Host) (settings : ProgramSettings) (sinkName : Path) (job : ToolJob)
    (files : FileSystem) : Outcome ProgramError Path :=
  match fault? settings job with
  | some fault => .fail files fault []
  | none =>
    let path := programPath sinkName job.diameter
    let o := (put disk host files path (pieces settings job)).mapError (.destination path)
    (o.andThen fun _ files => .ok files path [placedEvent job path]).afterEvents (openingEvents job)

/-! ### All programs of a drill job -/

/-- Puts programs in place one after another, up to the first failure. -/
def placeJobs (disks : Disks) (host : Host) (settings : ProgramSettings) (sinkName : Path) :
    List ToolJob → FileSystem → Outcome ProgramError (List Path)
  | [], files => .ok files [] []
  | job :: jobs, files =>
    (place (disks 0) host settings sinkName job files).andThen fun path files =>
      (placeJobs (disks.after 1) host settings sinkName jobs files).map (path :: ·)

/-- Puts one program for each diameter of a drill job in place and returns their paths. Programs
that are in place when a later one fails stay. -/
def placeAll (disks : Disks) (host : Host) (settings : ProgramSettings) (sinkName : Path)
    (drill : DrillJob) (files : FileSystem) : Outcome ProgramError (List Path) :=
  placeJobs disks host settings sinkName drill.byDiameter files

end Gcode

end DrillPost
