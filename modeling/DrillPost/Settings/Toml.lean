import DrillPost.Settings.Basic
import DrillPost.Toml.Kind
import DrillPost.Toml.Printer

/-!
# Settings in TOML

A configuration is a document of two tables, one for the settings of programs and one for where
programs go. What is left out has its standard value.
-/

namespace DrillPost

open Toml

/-! ### Reading -/

/-- How program settings are read from a document. -/
def ProgramSettings.tomlRecord : Record ProgramSettings ProgramSettings where
  expected := "struct EncoderConfig"
  ofItems items :=
    match itemOr standard.spindlePower Node.word32 0 items with
    | .error f => .error f
    | .ok power =>
      match itemOr standard.safeHeight Node.real 1 items with
      | .error f => .error f
      | .ok height =>
        (itemOr standard.drillDepth Node.real 2 items).map (ProgramSettings.mk power height)
  start := standard
  member s name n :=
    if name = "spindle_power" then n.word32.map fun x => { s with spindlePower := x }
    else if name = "safe_height" then n.real.map fun x => { s with safeHeight := x }
    else if name = "drill_depth" then n.real.map fun x => { s with drillDepth := x }
    else .ok s
  finish := .ok

/-- What a node means as a directory. -/
def OutputSettings.directoryOf : Meaning (Option Path) := fun n =>
  (n.text "path string").map fun s => some (Path.ofText s)

/-- How output settings are read from a document. -/
def OutputSettings.tomlRecord : Record OutputSettings OutputSettings where
  expected := "struct OutputSettings"
  ofItems items := (itemOr standard.directory directoryOf 0 items).map OutputSettings.mk
  start := standard
  member s name n :=
    if name = "directory" then (directoryOf n).map OutputSettings.mk else .ok s
  finish := .ok

/-- How a configuration is read from a document. -/
def Configuration.tomlRecord : Record Configuration Configuration where
  expected := "struct Config"
  ofItems items :=
    match itemOr .standard ProgramSettings.tomlRecord.read 0 items with
    | .error f => .error f
    | .ok program =>
      (itemOr .standard OutputSettings.tomlRecord.read 1 items).map (Configuration.mk program)
  start := standard
  member c name n :=
    if name = "encoder" then
      (ProgramSettings.tomlRecord.read n).map fun program => { c with program }
    else if name = "output" then
      (OutputSettings.tomlRecord.read n).map fun output => { c with output }
    else .ok c
  finish := .ok

/-- Reads program settings from a document. -/
def ProgramSettings.ofToml (text : String) : Except Toml.Error ProgramSettings :=
  readText ProgramSettings.tomlRecord.read text

/-- Reads output settings from a document. -/
def OutputSettings.ofToml (text : String) : Except Toml.Error OutputSettings :=
  readText OutputSettings.tomlRecord.read text

/-- Reads a configuration from a document. -/
def Configuration.ofToml (text : String) : Except Toml.Error Configuration :=
  readText Configuration.tomlRecord.read text

/-! ### Writing -/

/-- A line that gives a key a value. -/
def settingLine (key : String) (value : List Char) : List Char :=
  key.toList ++ [' ', '=', ' '] ++ value ++ ['\n']

def ProgramSettings.toTomlLines (s : ProgramSettings) : List Char :=
  settingLine "spindle_power" (Nat.toDigits 10 s.spindlePower.toNat) ++
    settingLine "safe_height" (s.safeHeight.write Toml.layout).toList ++
    settingLine "drill_depth" (s.drillDepth.write Toml.layout).toList

/-- Writes a directory that is a text. -/
def directoryLines (directory : Option String) : List Char :=
  match directory with
  | none => []
  | some s => settingLine "directory" (writeText s.toList)

/-- Writes a configuration whose directory is the given text. -/
def tomlLines (program : ProgramSettings) (directory : Option String) : List Char :=
  "[encoder]\n".toList ++ program.toTomlLines ++ "\n[output]\n".toList ++ directoryLines directory

/-- Writes a configuration, if its directory is a text. -/
def Configuration.toToml? (c : Configuration) : Option String :=
  match c.output.directory with
  | none => some (String.ofList (tomlLines c.program none))
  | some directory =>
    directory.text?.map fun text => String.ofList (tomlLines c.program (some text))

end DrillPost
