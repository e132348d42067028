import DrillPost.Json.Kind
import DrillPost.Settings.Basic

/-!
# Settings in JSON

Every part of a configuration is a record whose fields may be left out; what is left out has its
standard value.
-/

namespace DrillPost

open Json

/-! ### Program settings -/

namespace ProgramSettings

/-- Reads program settings in the list form, and the end of the list. -/
def readItems : Reader ProgramSettings := fun s =>
  match itemOr standard.spindlePower readWord32 0 s with
  | .error e => .error e
  | .ok (power, t) =>
    match itemOr standard.safeHeight readReal 1 t.rest with
    | .error e => .error e
    | .ok (height, u) =>
      match itemOr standard.drillDepth readReal 2 u.rest with
      | .error e => .error e
      | .ok depth => ((depth.after u (ProgramSettings.mk power height)).after t id).close

/-- What a member means for the settings that have been read. -/
def field (fields : Overrides) (name : String) : Except String (Reader Overrides) :=
  if name = "spindle_power" then
    setOnce name fields.spindlePower readWord32 fun x => { fields with spindlePower := some x }
  else if name = "safe_height" then
    setOnce name fields.safeHeight readReal fun x => { fields with safeHeight := some x }
  else if name = "drill_depth" then
    setOnce name fields.drillDepth readReal fun x => { fields with drillDepth := some x }
  else ignoreField fields

/-- Reads the members of program settings and the end of the object. -/
def readFields : Reader ProgramSettings :=
  Reader.map standard.override (readMembers readString field true Overrides.none)

def record : Record ProgramSettings := ⟨"struct EncoderConfig", readItems, readFields⟩

def read : Reader ProgramSettings := record.read

end ProgramSettings

/-! ### Output settings -/

namespace OutputSettings

def readDirectory : Reader (Option Path) :=
  (readText? "path string").map fun text => text.map Path.ofText

/-- Reads output settings in the list form, and the end of the list. -/
def readItems : Reader OutputSettings := fun s =>
  match itemOr standard.directory readDirectory 0 s with
  | .error e => .error e
  | .ok (directory, t) => Part.close (⟨directory⟩, t)

/-- What a member means for the directory that has been read. -/
def field (directory : Option (Option Path)) (name : String) :
    Except String (Reader (Option (Option Path))) :=
  if name = "directory" then setOnce name directory readDirectory some else ignoreField directory

/-- Reads the members of output settings and the end of the object. -/
def readFields : Reader OutputSettings :=
  Reader.map (fun d => ⟨d.getD standard.directory⟩) (readMembers readString field true none)

def record : Record OutputSettings := ⟨"struct OutputSettings", readItems, readFields⟩

def read : Reader OutputSettings := record.read

end OutputSettings

/-! ### Configurations -/

namespace Configuration

/-- What has been read of a configuration. -/
structure Fields where
  program : Option ProgramSettings
  output : Option OutputSettings

/-- Reads a configuration in the list form, and the end of the list. -/
def readItems : Reader Configuration := fun s =>
  match itemOr .standard ProgramSettings.read 0 s with
  | .error e => .error e
  | .ok (program, t) =>
    match itemOr .standard OutputSettings.read 1 t.rest with
    | .error e => .error e
    | .ok output => (output.after t (Configuration.mk program)).close

/-- What a member means for the parts that have been read. -/
def field (fields : Fields) (name : String) : Except String (Reader Fields) :=
  if name = "encoder" then
    setOnce name fields.program ProgramSettings.read fun x => { fields with program := some x }
  else if name = "output" then
    setOnce name fields.output OutputSettings.read fun x => { fields with output := some x }
  else ignoreField fields

/-- Reads the members of a configuration and the end of the object. -/
def readFields : Reader Configuration :=
  Reader.map (fun f => ⟨f.program.getD .standard, f.output.getD .standard⟩)
    (readMembers readString field true ⟨none, none⟩)

def record : Record Configuration := ⟨"struct Config", readItems, readFields⟩

def read : Reader Configuration := record.read

/-- Reads a configuration from a text. -/
def ofJson (text : String) : Except Json.Error Configuration := readText read text

/-- What a message says of a directory that is no text. -/
def directoryNotText : String := "path contains invalid UTF-8 characters"

/-- Writes a configuration with every setting on a line of its own. -/
def toJson (c : Configuration) : Except Json.Error String :=
  match c.toTree? with
  | some tree => .ok (pretty tree)
  | none => .error ⟨.data directoryNotText, none⟩

end Configuration

end DrillPost
