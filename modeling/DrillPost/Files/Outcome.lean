import DrillPost.Files.FileSystem
import DrillPost.Log.Event

/-!
# Outcomes

What came of something that may change files and report events: a result or a failure, the files as
they are then, and the events in order. A failure does not undo changes by itself, so an outcome
always says what the files hold.
-/

namespace DrillPost

/-- What came of a step. -/
structure Outcome (ε α : Type) where
  result : Except ε α
  files : FileSystem
  events : List Event

namespace Outcome

variable {ε δ α β : Type}

def ok (files : FileSystem) (value : α) (events : List Event) : Outcome ε α :=
  ⟨.ok value, files, events⟩

def fail (files : FileSystem) (error : ε) (events : List Event) : Outcome ε α :=
  ⟨.error error, files, events⟩

/-- The same outcome, after other events. -/
def afterEvents (events : List Event) (o : Outcome ε α) : Outcome ε α :=
  { o with events := events ++ o.events }

/-- The outcome of a step and of the next, which is not taken when the first fails. -/
def andThen (o : Outcome ε α) (next : α → FileSystem → Outcome ε β) : Outcome ε β :=
  match o.result with
  | .ok value => (next value o.files).afterEvents o.events
  | .error error => ⟨.error error, o.files, o.events⟩

/-- The same outcome with another value. -/
def map (f : α → β) (o : Outcome ε α) : Outcome ε β :=
  ⟨match o.result with
    | .ok value => .ok (f value)
    | .error error => .error error, o.files, o.events⟩

/-- The same outcome with another kind of failure. -/
def mapError (f : ε → δ) (o : Outcome ε α) : Outcome δ α :=
  ⟨match o.result with
    | .ok value => .ok value
    | .error error => .error (f error), o.files, o.events⟩

end Outcome

end DrillPost
