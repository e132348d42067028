import DrillPost.Command.Report

/-!
# The program

The outer layer: it looks at the files that a call can depend on, lets `DrillPost.call` say what
follows, and stores the files that changed. A file that is there is filled anew and so keeps its
permission bits.
-/

namespace DrillPost

/-- The locations that are passed on the way along names. -/
def passed : Location → List Bytes → List Location
  | place, [] => [place]
  | place, name :: names =>
    let inner :=
      if name = [dot] then place else if name = [dot, dot] then place.tail else name :: place
    place :: passed inner names

/-- The absolute path of a location. -/
def pathOf (place : Location) : String := (Path.mk (slash :: joinSlash place.reverse)).display

/-- What is at a location of the machine. -/
def probe (place : Location) : IO (Option Entry) := do
  try
    let content ← IO.FS.readBinFile (pathOf place)
    return some (.file 0o644 content.toList)
  catch
    | .inappropriateType .. => return some (.directory 0o755)
    | _ => return none

/-- Adds what is on the way to paths. -/
def look (host : Host) (files : FileSystem) (paths : List Path) : IO FileSystem := do
  let mut files := files
  for path in paths do
    for place in passed (FileSystem.start host path) path.names do
      if (files.lookup? place).isNone then
        if let some entry ← probe place then
          files := files.insert place entry
  return files

/-- The files that say what there is to do. -/
def sources (host : Host) (options : Options) : List Path :=
  (options.config.or (Configuration.userPath? host)).toList ++ options.input.toList

/-- The paths that programs go to. -/
def destinations (host : Host) (options : Options) (files : FileSystem) : List Path :=
  match options.input, (options.configuration host files).result with
  | some input, .ok c =>
    match (DrillJob.load files host input).result with
    | .ok drill =>
      drill.byDiameter.map fun job =>
        Gcode.programPath (options.sinkName input c) job.diameter
    | .error _ => []
  | _, _ => []

/-- Stores the files that are not as they were. -/
def store (before after : FileSystem) : IO Unit := do
  for (place, entry) in after.entries do
    if before.lookup? place ≠ some entry then
      if let .file _ content := entry then
        IO.FS.writeBinFile (pathOf place) ⟨content.toArray⟩

/-- The home directory of a user in the list of users. -/
def homeOf? (users : String) (user : String) : Option String :=
  (users.splitOn "\n").findSome? fun line =>
    match line.splitOn ":" with
    | [_, _, number, _, _, home, _] => if number = user then some home else none
    | _ => none

/-- The number of the user who runs a process, as its status tells it. -/
def userOf? (status : String) : Option String :=
  (status.splitOn "\n").findSome? fun line =>
    match line.splitOn "\t" with
    | "Uid:" :: number :: _ => some number
    | _ => none

/-- What a file holds, if it can be read. -/
def contentOf (file : String) : IO String := do
  try IO.FS.readFile file catch _ => return ""

/-- The machine that the program runs on. -/
def thisHost : IO Host := do
  let directory ← IO.currentDir
  let home ← IO.getEnv "HOME"
  let configHome ← IO.getEnv "XDG_CONFIG_HOME"
  let users ← contentOf "/etc/passwd"
  let user := userOf? (← contentOf "/proc/self/status")
  return {
    workingDirectory := (Path.ofText directory.toString).names.reverse
    umask := 0o022
    home := home.map utf8
    accountHome := (user.bind (homeOf? users)).map utf8
    configHome := configHome.map utf8 }

/-- The files that a call can depend on. -/
def filesFor (host : Host) (arguments : List String) : IO FileSystem := do
  match Options.ofArguments arguments with
  | .error _ => return .empty
  | .ok options =>
    let files ← look host .empty (⟨[dot]⟩ :: sources host options)
    look host files (destinations host options files)

end DrillPost

def main (arguments : List String) : IO UInt32 := do
  let host ← DrillPost.thisHost
  let directives ← IO.getEnv "RUST_LOG"
  let files ← DrillPost.filesFor host arguments
  let (report, after) :=
    DrillPost.call DrillPost.Disks.sound host (directives.getD "") arguments files
  DrillPost.store files after
  IO.eprint report.stderr
  IO.print report.stdout
  return report.exitCode.toUInt32
