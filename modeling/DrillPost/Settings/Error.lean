import DrillPost.Files.IoError
import DrillPost.Settings.Json
import DrillPost.Settings.Toml

/-!
# What can go wrong with a configuration
-/

namespace DrillPost

/-- Why a configuration could not be loaded, used or saved. -/
inductive SettingsError where
  /-- The file could not be read. -/
  | load (path : Path) (cause : IoError)
  /-- The file could not be written. -/
  | save (path : Path) (cause : IoError)
  /-- The directory of the file could not be made. -/
  | directory (cause : IoError)
  | json (cause : Json.Error)
  | toml (cause : Toml.Error)
  /-- The configuration cannot be written, because its directory is no text. -/
  | directoryNotText
  | invalid (fault : SettingsFault)
  /-- The name of the file says no format. -/
  | unsupportedFormat (path : Path)
deriving DecidableEq

/-- What a message says of a document that was not read. -/
def Toml.Error.message : Toml.Error → String
  | .malformed => "TOML parse error"
  | .content message => message

/-- What a message says of a name that says no format. -/
def unsupportedFormatMessage (path : Path) : String :=
  "Unsupported config format: " ++ path.display ++ " (expected .json or .toml)"

namespace SettingsError

/-- What lies behind the failure, if it is not the failure itself. -/
def cause? : SettingsError → Option String
  | .load .. | .save .. => none
  | .directory cause => some cause.message
  | .json cause => some cause.message
  | .toml cause => some cause.message
  | .directoryNotText => some Configuration.directoryNotText
  | .invalid fault => some fault.message
  | .unsupportedFormat path => some (unsupportedFormatMessage path)

def message : SettingsError → String
  | .load path cause => "Failed to load settings: " ++ path.display ++ ": " ++ cause.message
  | .save path cause => "Failed to save settings: " ++ path.display ++ ": " ++ cause.message
  | .directory cause => "I/O error: " ++ cause.message
  | .json cause => "JSON error: " ++ cause.message
  | .toml cause => "TOML error: " ++ cause.message
  | .directoryNotText => "TOML serialization error: " ++ Configuration.directoryNotText
  | .invalid fault => "Invalid encoder settings: " ++ fault.message
  | .unsupportedFormat path => "Config error: " ++ unsupportedFormatMessage path

end SettingsError

/-- Why a configuration cannot be used. -/
def Configuration.validate (c : Configuration) : Except SettingsError Unit :=
  match c.program.fault? with
  | some fault => .error (.invalid fault)
  | none => .ok ()

end DrillPost
