import DrillPost.Command.Options
import DrillPost.Decimal.Numeral

/-!
# Notices

What is shown instead of a run: help, the version, or what is wrong with the arguments. A message
names an argument as help lists it.
-/

namespace DrillPost

/-- Why a text is no number of the kind that an option takes. -/
inductive ValueError where
  | emptyInteger
  | notInteger
  | tooLarge
  | tooSmall
  /-- An integer that no power can be. -/
  | outOfRange (value : Int)
  | emptyReal
  | notReal
deriving DecidableEq

def ValueError.message : ValueError → String
  | .emptyInteger => "cannot parse integer from empty string"
  | .notInteger => "invalid digit found in string"
  | .tooLarge => "number too large to fit in target type"
  | .tooSmall => "number too small to fit in target type"
  | .outOfRange value => s!"{value} is not in 0..={UInt32.size - 1}"
  | .emptyReal => "cannot parse float from empty string"
  | .notReal => "invalid float literal"

/-- What is wrong with arguments. -/
inductive UsageError where
  /-- An argument has no value, or an empty one where a path is needed. -/
  | valueMissing (label : String)
  | invalidValue (option : ValuedOption) (value : String) (cause : ValueError)
  | unknown (argument : String)
  | repeated (label : String)
  /-- A value is attached to a switch. -/
  | valueUnexpected (switch : Switch) (value : String)
  | inputMissing
deriving DecidableEq

def inputLabel : String := "[INPUT]"

def UsageError.message : UsageError → String
  | .valueMissing label => "a value is required for '" ++ label ++ "' but none was supplied"
  | .invalidValue option value cause =>
    "invalid value '" ++ value ++ "' for '" ++ option.label ++ "': " ++ cause.message
  | .unknown argument => "unexpected argument '" ++ argument ++ "' found"
  | .repeated label => "the argument '" ++ label ++ "' cannot be used multiple times"
  | .valueUnexpected switch value =>
    "unexpected value '" ++ value ++ "' for '" ++ switch.label ++ "' found; no more were expected"
  | .inputMissing => "the following required arguments were not provided:"

/-- What is shown instead of a run. -/
inductive Notice where
  | usage (error : UsageError)
  | help
  /-- The version, with or without what is known of the build. -/
  | version (ofBuild : Bool)
deriving DecidableEq

/-! ### Texts -/

def programName : String := "snapdrill"

def programVersion : String := "0.4.0"

/-- What the program does with an option. -/
def OptionName.summary : OptionName → String
  | .valued .output => "Output name; programs are written to <OUTPUT>_<diameter>.cnc"
  | .valued .config => "Configuration file (.json or .toml)"
  | .valued .spindlePower => "Spindle power level for M3"
  | .valued .safeHeight => "Z height for travel between holes (mm)"
  | .valued .drillDepth => "Plunge depth below the surface as a positive magnitude (mm)"
  | .switch .stdout => "Print programs to stdout instead of writing files"
  | .switch .printConfig => "Print the effective configuration as TOML and exit"
  | .switch .verbose => "Increase log verbosity"
  | .switch .help => "Print help"
  | .switch .version => "Print version"

/-- The left column of the line of an option. -/
def OptionName.usage (o : OptionName) : String :=
  match o.letter? with
  | some c => "-" ++ String.singleton c ++ ", " ++ o.label
  | none => "    " ++ o.label

/-- The text with blanks up to a width. -/
def padRight (width : Nat) (s : String) : String :=
  s ++ String.ofList (List.replicate (width - s.length) ' ')

/-- How wide the left column of the options is. -/
def usageWidth : Nat := (OptionName.all.map fun o => o.usage.length).foldl max 0

def OptionName.helpLine (o : OptionName) : String :=
  "  " ++ padRight usageWidth o.usage ++ "  " ++ o.summary

def usageLine : String := "Usage: " ++ programName ++ " [OPTIONS] " ++ inputLabel

/-- What the program does and what can be asked of it. -/
def helpText : String :=
  let opening := ["Convert drilling jobs into Snapmaker CNC programs", "", usageLine, "",
    "Arguments:", "  " ++ inputLabel ++ "  Drill job JSON file", "", "Options:"]
  String.join ((opening ++ OptionName.all.map OptionName.helpLine).map (· ++ "\n"))

/-- The name and the version of the program. No date of the build is kept. -/
def versionText (ofBuild : Bool) : String :=
  programName ++ " " ++ programVersion ++ (if ofBuild then " (build date unknown)" else "") ++ "\n"

/-- Whether a character of an argument is shown: control characters are not, unless they are
blanks. -/
def isShown (c : Char) : Bool :=
  (' ' ≤ c && c ≠ '\x7f') || c == '\t' || c == '\n' || c == '\x0c' || c == '\r'

def Notice.text : Notice → String
  | .help => helpText
  | .version ofBuild => versionText ofBuild
  | .usage error =>
    let detail := if error = .inputMissing then "\n  <INPUT>" else ""
    "error: " ++ String.ofList (error.message.toList.filter isShown) ++ detail ++ "\n\n" ++
      usageLine ++ "\n\nFor more information, try '--help'.\n"

end DrillPost
