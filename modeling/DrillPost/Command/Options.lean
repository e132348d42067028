import DrillPost.Settings.Basic

/-!
# Options

What can be asked for on the command line. A switch stands alone, a valued option is followed by a
value; both have a long name, some also a letter. `Options` is what a whole command line asks for.
-/

namespace DrillPost

/-- An option that stands alone. -/
inductive Switch where
  | stdout
  | printConfig
  | verbose
  | help
  | version
deriving DecidableEq

/-- An option that is followed by a value. -/
inductive ValuedOption where
  | output
  | config
  | spindlePower
  | safeHeight
  | drillDepth
deriving DecidableEq

/-- An option. -/
inductive OptionName where
  | switch (s : Switch)
  | valued (o : ValuedOption)
deriving DecidableEq

/-! ### Names -/

namespace Switch

def longName : Switch → String
  | .stdout => "stdout"
  | .printConfig => "print-config"
  | .verbose => "verbose"
  | .help => "help"
  | .version => "version"

def letter? : Switch → Option Char
  | .stdout | .printConfig => none
  | .verbose => some 'v'
  | .help => some 'h'
  | .version => some 'V'

/-- The switch in a message; dots follow the one that may be repeated. -/
def label (s : Switch) : String :=
  "--" ++ s.longName ++ if s = .verbose then "..." else ""

end Switch

namespace ValuedOption

def longName : ValuedOption → String
  | .output => "output"
  | .config => "config"
  | .spindlePower => "spindle-power"
  | .safeHeight => "safe-height"
  | .drillDepth => "drill-depth"

def letter? : ValuedOption → Option Char
  | .output => some 'o'
  | .config => some 'c'
  | .spindlePower | .safeHeight | .drillDepth => none

/-- What stands for the value. -/
def placeholder (o : ValuedOption) : String :=
  String.ofList (o.longName.toList.map fun c => if c = '-' then '_' else c.toUpper)

def label (o : ValuedOption) : String := "--" ++ o.longName ++ " <" ++ o.placeholder ++ ">"

/-- Whether a value may be a number with a minus sign. -/
def allowsNegative : ValuedOption → Bool
  | .safeHeight | .drillDepth => true
  | .output | .config | .spindlePower => false

end ValuedOption

namespace OptionName

def longName : OptionName → String
  | .switch s => s.longName
  | .valued o => o.longName

def letter? : OptionName → Option Char
  | .switch s => s.letter?
  | .valued o => o.letter?

def label : OptionName → String
  | .switch s => s.label
  | .valued o => o.label

/-- Every option, in the order in which help lists them. -/
def all : List OptionName :=
  [.valued .output, .valued .config, .valued .spindlePower, .valued .safeHeight,
    .valued .drillDepth, .switch .stdout, .switch .printConfig, .switch .verbose, .switch .help,
    .switch .version]

def ofLong? (name : List Char) : Option OptionName := all.find? fun o => o.longName.toList == name

def ofLetter? (c : Char) : Option OptionName := all.find? fun o => o.letter? == some c

end OptionName

/-! ### What is asked for -/

/-- What a command line asks for. -/
structure Options where
  /-- The file that holds the job. -/
  input : Option Path
  /-- The name that all programs share. -/
  output : Option Path
  /-- The file that holds the configuration. -/
  config : Option Path
  overrides : Overrides
  /-- Programs are printed and no files are written. -/
  toStdout : Bool
  /-- The configuration is printed and nothing else is done. -/
  printConfig : Bool
  /-- How often more detail is asked for. -/
  verbosity : Nat
deriving DecidableEq

namespace Options

/-- Asks for nothing. -/
def none : Options := ⟨.none, .none, .none, .none, false, false, 0⟩

/-- The largest verbosity; asking for still more detail changes nothing. -/
def maxVerbosity : Nat := 255

/-- Whether an option has been given a value. -/
def has (options : Options) : ValuedOption → Bool
  | .output => options.output.isSome
  | .config => options.config.isSome
  | .spindlePower => options.overrides.spindlePower.isSome
  | .safeHeight => options.overrides.safeHeight.isSome
  | .drillDepth => options.overrides.drillDepth.isSome

/-- The name that the programs of a run share, before their diameters: the one that is given, else
that of the job without its extension, in the configured directory if there is one. -/
def sinkName (options : Options) (input : Path) (config : Configuration) : Path :=
  match options.output with
  | some output => output
  | .none =>
    let stem := input.withoutExtension
    match config.output.directory, stem.fileName? with
    | some directory, some name => directory.join ⟨name⟩
    | _, _ => stem

end Options

end DrillPost
