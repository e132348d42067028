import DrillPost.Files.Path
import DrillPost.Tree.Basic

/-!
# Settings

The numbers that every program is built from, and where programs go. `Configuration.override` puts
values given for one run over the values of a configuration, each on its own.

As a tree every setting is a member of a map. A directory that is not given is left out, and one
that is no text cannot be written.
-/

namespace DrillPost

/-- The numbers that a program is built from. -/
structure ProgramSettings where
  /-- The power at which the spindle is started. -/
  spindlePower : UInt32
  /-- The height at which the tool travels, in millimetres. -/
  safeHeight : Binary64
  /-- How far below the surface a hole reaches, in millimetres. -/
  drillDepth : Binary64
deriving DecidableEq

/-- Where programs go. -/
structure OutputSettings where
  /-- The directory for programs when no name is given; without one they go beside the job. -/
  directory : Option Path
deriving DecidableEq

/-- Everything that can be configured. -/
structure Configuration where
  program : ProgramSettings
  output : OutputSettings
deriving DecidableEq

/-- Values that replace those of a configuration for one run. -/
structure Overrides where
  spindlePower : Option UInt32
  safeHeight : Option Binary64
  drillDepth : Option Binary64
deriving DecidableEq

/-- Full power, twenty-five millimetres up and two millimetres deep. -/
def ProgramSettings.standard : ProgramSettings := ⟨100, .ofNat 25, .ofNat 2⟩

/-- Programs go beside the job. -/
def OutputSettings.standard : OutputSettings := ⟨none⟩

/-- What holds where nothing is configured. -/
def Configuration.standard : Configuration := ⟨.standard, .standard⟩

/-- Replaces nothing. -/
def Overrides.none : Overrides := ⟨.none, .none, .none⟩

/-- Why no program can be built with the settings. -/
inductive SettingsFault where
  | invalidDrillDepth (depth : Binary64)
  | invalidSafeHeight (height : Binary64)
deriving DecidableEq

def SettingsFault.message : SettingsFault → String
  | .invalidDrillDepth depth => "Drill depth must be a non-negative magnitude, got " ++ depth.text
  | .invalidSafeHeight height => "Safe height must be finite, got " ++ height.text

namespace ProgramSettings

/-- The depth is finite and does not lie above the surface. -/
def hasDepth (s : ProgramSettings) : Bool :=
  s.drillDepth.isFinite && !Binary64.less s.drillDepth .zero

/-- The first thing wrong with the settings. -/
def fault? (s : ProgramSettings) : Option SettingsFault :=
  if s.hasDepth then
    if s.safeHeight.isFinite then none else some (.invalidSafeHeight s.safeHeight)
  else some (.invalidDrillDepth s.drillDepth)

/-- The settings with some of them replaced. -/
def override (s : ProgramSettings) (o : Overrides) : ProgramSettings where
  spindlePower := o.spindlePower.getD s.spindlePower
  safeHeight := o.safeHeight.getD s.safeHeight
  drillDepth := o.drillDepth.getD s.drillDepth

end ProgramSettings

/-- The configuration with some of its settings replaced. -/
def Configuration.override (c : Configuration) (o : Overrides) : Configuration :=
  { c with program := c.program.override o }

/-! ### Trees -/

def ProgramSettings.toTree (s : ProgramSettings) : Tree :=
  .map [
    ("spindle_power", .int s.spindlePower.toNat),
    ("safe_height", .real s.safeHeight),
    ("drill_depth", .real s.drillDepth)]

/-- Output settings as a map, if the directory is a text. -/
def OutputSettings.toTree? (s : OutputSettings) : Option Tree :=
  match s.directory with
  | none => some (.map [])
  | some directory => directory.text?.map fun text => .map [("directory", .text text)]

/-- A configuration as a map, if its directory is a text. -/
def Configuration.toTree? (c : Configuration) : Option Tree :=
  c.output.toTree?.map fun output => .map [("encoder", c.program.toTree), ("output", output)]

end DrillPost
