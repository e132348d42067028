/-!
# Log events

What a run reports about itself, as data: a level, the part of the program that speaks, and a
message. Functions return the events beside their result; which of them are shown is decided when
the run is over (`DrillPost.Log.Filter`).
-/

namespace DrillPost

/-- How detailed an event is, from the gravest to the most detailed. -/
inductive Level where
  | error
  | warn
  | info
  | debug
  | trace
deriving DecidableEq, Inhabited

namespace Level

/-- The rank of a level: more detailed levels have larger ranks. -/
def rank : Level → Nat
  | .error => 1
  | .warn => 2
  | .info => 3
  | .debug => 4
  | .trace => 5

def label : Level → String
  | .error => "ERROR"
  | .warn => "WARN"
  | .info => "INFO"
  | .debug => "DEBUG"
  | .trace => "TRACE"

end Level

/-- A report of something that happened in a run. -/
structure Event where
  level : Level
  /-- The part of the program that reports. -/
  target : String
  message : String
deriving DecidableEq

/-- The event as one line, without its target. -/
def Event.line (e : Event) : String := e.level.label ++ " " ++ e.message

end DrillPost
