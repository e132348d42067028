import DrillPost.Files.Operations
import DrillPost.Files.Outcome
import DrillPost.Settings.Error

/-!
# Configuration files

The extension of a file says how a configuration is written in it. A configuration that is loaded
has to be fit for use, and so has one that is saved. Without a path the file of the user is loaded,
if there is one.
-/

namespace DrillPost

/-- How a configuration is written in a file. -/
inductive FileFormat where
  | json
  | toml
deriving DecidableEq

/-- The format that the extension of a path says, in either case of letters. -/
def FileFormat.ofPath (path : Path) : Except SettingsError FileFormat :=
  match (path.extension?.bind ofUtf8?).map fun name => name.toList.map Char.toLower with
  | some ['j', 's', 'o', 'n'] => .ok .json
  | some ['t', 'o', 'm', 'l'] => .ok .toml
  | _ => .error (.unsupportedFormat path)

namespace Configuration

def reporter : String := "snapdrill_settings::config"

/-- The directory of the program among the configuration files of a user. -/
def applicationName : String := "snapdrill"

/-- The name of the configuration file of a user. -/
def fileName : String := "config.toml"

/-- What is reported when there is nothing to load. -/
def standardEvent : Event := ⟨.debug, reporter, "No configuration file found, using defaults"⟩

/-- What is reported of a configuration that was loaded. -/
def loadedEvent (path : Path) : Event :=
  ⟨.debug, reporter, "Loaded configuration from " ++ path.display⟩

/-! ### Text -/

/-- Reads a configuration in a format. -/
def ofText (format : FileFormat) (text : String) : Except SettingsError Configuration :=
  match format with
  | .json =>
    match ofJson text with
    | .ok c => .ok c
    | .error e => .error (.json e)
  | .toml =>
    match ofToml text with
    | .ok c => .ok c
    | .error e => .error (.toml e)

/-- Writes a configuration in a format. -/
def toText (c : Configuration) (format : FileFormat) : Except SettingsError String :=
  match format with
  | .json =>
    match c.toJson with
    | .ok text => .ok text
    | .error e => .error (.json e)
  | .toml =>
    match c.toToml? with
    | some text => .ok text
    | none => .error .directoryNotText

/-! ### Loading -/

def load (files : FileSystem) (host : Host) (path : Path) : Except SettingsError Configuration :=
  match FileFormat.ofPath path with
  | .error e => .error e
  | .ok format =>
    match files.readText host path with
    | .error cause => .error (.load path cause)
    | .ok text =>
      match ofText format text with
      | .error e => .error e
      | .ok c =>
        match c.validate with
        | .error e => .error e
        | .ok () => .ok c

/-- The home of a user: the one that the environment names, else the one in the list of users. An
empty name is none. -/
def home? (host : Host) : Option Path :=
  ((host.home.filter (· ≠ [])).or (host.accountHome.filter (· ≠ []))).map Path.mk

/-- The directory of the configuration files of a user: the one that the environment names if it is
absolute, else a hidden one at home. A user without a home has none. -/
def userDirectory? (host : Host) : Option Path :=
  match host.configHome.filter fun b => (Path.mk b).isAbsolute with
  | some directory => some ⟨directory⟩
  | none => (home? host).map fun home => home.join (.ofText ".config")

/-- The path of the configuration file of a user. -/
def userPath? (host : Host) : Option Path :=
  (userDirectory? host).map fun directory =>
    (directory.join (.ofText applicationName)).join (.ofText fileName)

/-- The file that a configuration is loaded from: the one that is given, else that of the user if
there is one. -/
def source? (files : FileSystem) (host : Host) (given : Option Path) : Option Path :=
  match given with
  | some path => some path
  | none => (userPath? host).filter (files.isFileAt host)

/-- Loads the configuration in a file, and reports it. -/
def loadWithReport (files : FileSystem) (host : Host) (path : Path) :
    Outcome SettingsError Configuration :=
  match load files host path with
  | .ok c => .ok files c [loadedEvent path]
  | .error e => .fail files e []

/-- Loads the configuration that counts, and reports where it came from. -/
def loadOrStandard (files : FileSystem) (host : Host) (given : Option Path) :
    Outcome SettingsError Configuration :=
  match source? files host given with
  | none => .ok files .standard [standardEvent]
  | some path => loadWithReport files host path

end Configuration

/-! ### Saving -/

/-- How a disk takes a configuration. -/
structure SavingDisk where
  /-- Why a directory cannot be made, and how many levels it is above the one of the file. -/
  directoryFault? : Option (Nat × IoError)
  /-- Why a file cannot be opened. -/
  openFault? : Option IoError
  /-- How many bytes of a file it takes, and why it takes no more. -/
  writeFault? : Option (Nat × IoError)

/-- A disk that never fails. -/
def SavingDisk.sound : SavingDisk := ⟨none, none, none⟩

namespace Configuration

/-- Makes the directories above a path, the topmost first. -/
def makeParents (disk : SavingDisk) (files : FileSystem) (host : Host) (path : Path) :
    FileSystem × Option IoError :=
  match path.parent?.filter fun parent => parent.bytes ≠ [] with
  | none => (files, none)
  | some parent =>
    match disk.directoryFault? with
    | none => files.createDirectories host parent
    | some (levels, cause) =>
      match parent.aboveParent? levels with
      | none => (files, some cause)
      | some above =>
        match files.createDirectories host above with
        | (files, fault?) => (files, some (fault?.getD cause))

/-- The text that is saved under a path. -/
def savedText (c : Configuration) (path : Path) : Except SettingsError String :=
  match c.validate with
  | .error e => .error e
  | .ok () =>
    match FileFormat.ofPath path with
    | .error e => .error e
    | .ok format => c.toText format

/-- Writes a text to a path. The file is emptied first, so it holds a part of the text when the disk
takes no more. -/
def writeText (disk : SavingDisk) (files : FileSystem) (host : Host) (path : Path)
    (text : String) : FileSystem × Option IoError :=
  let content := utf8 text
  let fault? := disk.writeFault?.filter fun fault => fault.1 < content.length
  match disk.openFault? with
  | some cause => (files, some cause)
  | none =>
    match files.writeFile host path (fault?.elim content fun fault => content.take fault.1) with
    | .error cause => (files, some cause)
    | .ok files => (files, fault?.map Prod.snd)

/-- Saves a configuration on a disk. What is wrong with the configuration or the path shows before
anything is changed; directories that were made for the file stay when the file cannot be
written. -/
def saveOn (disk : SavingDisk) (c : Configuration) (files : FileSystem) (host : Host)
    (path : Path) : Outcome SettingsError Unit :=
  match c.savedText path with
  | .error e => .fail files e []
  | .ok text =>
    match makeParents disk files host path with
    | (files, some cause) => .fail files (.directory cause) []
    | (files, none) =>
      match writeText disk files host path text with
      | (files, some cause) => .fail files (.save path cause) []
      | (files, none) => .ok files () []

/-- Saves a configuration. -/
def save (c : Configuration) (files : FileSystem) (host : Host) (path : Path) :
    Outcome SettingsError Unit :=
  c.saveOn .sound files host path

end Configuration

end DrillPost
