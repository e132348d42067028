import DrillPost.Command.Arguments
import DrillPost.Command.Run
import DrillPost.Log.Filter

/-!
# Reports

What a call of the program shows to the outside: its exit code, and what it writes to its two
channels. Results go to standard output. Standard error first names the directives that were passed
over, then shows the events that the filter lets through, and last the failure, with what lies
behind it.

Directives stop a call before its run if one of them cannot be cut out of its text. Apart from that,
neither verbosity nor directives have a part in anything but standard error.
-/

namespace DrillPost

/-! ### Events -/

/-- A character in the message of an event; those that could change the look of a terminal are shown
by their codes. -/
def showChar (c : Char) : List Char :=
  if c = '\x1b' then "\\x1b".toList
  else if c = '\x07' then "\\x07".toList
  else if c = '\x08' then "\\x08".toList
  else if c = '\x0c' then "\\x0c".toList
  else if c = '\x7f' then "\\x7f".toList
  else if 0x80 ≤ c.toNat ∧ c.toNat ≤ 0x9f then escapeCodePoint c
  else [c]

/-- The event as a line, with its target if more detail was asked for. -/
def Event.shown (withTarget : Bool) (e : Event) : String :=
  e.level.label ++ " " ++ (if withTarget then e.target ++ ": " else "") ++
    String.ofList (e.message.toList.flatMap showChar) ++ "\n"

/-- The lines of the events that a filter lets through. -/
def Filter.shownEvents (f : Filter) (verbosity : Nat) (events : List Event) : String :=
  String.join ((events.filter f.shows).map (Event.shown (0 < verbosity)))

/-- The lines about directives that were passed over. -/
def ignoredDirectives (directives : String) : String :=
  String.join ((Filter.ignored directives.toList).map fun part => Filter.ignoredLine part ++ "\n")

/-! ### Failures -/

/-- The text with every line moved to the right. -/
def indent (s : String) : String :=
  String.ofList ("    ".toList ++ s.toList.flatMap fun c =>
    if c = '\n' then c :: "    ".toList else [c])

/-- A failure, and under it what lies behind it. -/
def RunError.shown (e : RunError) : String :=
  "Error: " ++ e.message ++ "\n" ++
    e.cause?.elim "" fun cause => "\nCaused by:\n" ++ indent cause ++ "\n"

/-! ### Reports -/

/-- What a call of the program shows. -/
structure Report where
  exitCode : UInt8
  stdout : String
  stderr : String
deriving DecidableEq

/-- What is shown instead of a run. -/
def Notice.report (n : Notice) : Report :=
  match n with
  | .usage _ => ⟨2, "", n.text⟩
  | .help | .version _ => ⟨0, n.text, ""⟩

/-- What a call shows that is stopped by a directive. Where in the program that was is told after
this. -/
def Report.stopped (directives : String) : Report := ⟨101, "", ignoredDirectives directives⟩

/-- What a run shows under the filter of the directives. -/
def Run.report (r : Run) (verbosity : Nat) (directives : String) (filter : Filter) : Report :=
  let events := (filter.withVerbosity verbosity).shownEvents verbosity r.outcome.events
  let shown := ignoredDirectives directives ++ events
  match r.outcome.result with
  | .ok paths => ⟨0, r.printed ++ String.join (paths.map fun path => path.display ++ "\n"), shown⟩
  | .error e => ⟨1, r.printed, shown ++ e.shown⟩

/-- What a call of the program shows, and the files after it. -/
def call (disks : Disks) (host : Host) (directives : String) (arguments : List String)
    (files : FileSystem) : Report × FileSystem :=
  match Options.ofArguments arguments with
  | .error n => (n.report, files)
  | .ok options =>
    match Filter.ofText? directives with
    | none => (.stopped directives, files)
    | some filter =>
      let r := options.run disks host files
      (r.report options.verbosity directives filter, r.outcome.files)

end DrillPost
