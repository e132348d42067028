import DrillPost.Log.Directive

/-!
# Filters

A filter is a list of directives. For an event the most specific directive that is for it decides:
the one with the longest target, and of two with one target the later. The variable that holds
directives separates them by commas; each flag for more detail adds a directive for all parts, which
by the same rule takes the place of the one that was there.
-/

namespace DrillPost

namespace Directive

/-- Whether a directive is for an event. The only field of an event is its message. -/
def isFor (d : Directive) (e : Event) : Bool :=
  d.isStatic && d.target.all (fun target => target.isPrefixOf e.target) &&
    d.fields.all fun field => field.1 == "message"

/-- How specific a directive is: whether it has a target, how long that is, and how many fields it
asks for. -/
def specificity (d : Directive) : Nat × Nat :=
  (d.target.elim 0 (·.utf8ByteSize + 1), d.fields.length)

/-- The more specific of two directives, the later of two that are equally specific. -/
def moreSpecific (earlier later : Directive) : Directive :=
  if later.specificity.1 < earlier.specificity.1 ∨
      (later.specificity.1 = earlier.specificity.1 ∧ later.specificity.2 < earlier.specificity.2)
  then earlier else later

end Directive

/-- Directives, in the order in which they were given. -/
structure Filter where
  directives : List Directive
deriving DecidableEq

namespace Filter

/-- The directive that decides about an event. -/
def decisive? (f : Filter) (e : Event) : Option Directive :=
  (f.directives.filter (·.isFor e)).foldl
    (fun best d => some (best.elim d fun b => b.moreSpecific d)) none

/-- Whether an event is shown. -/
def shows (f : Filter) (e : Event) : Bool :=
  (f.decisive? e).any fun d => e.level.rank ≤ Threshold.rank d.threshold

/-- The filter with one more directive. -/
def add (f : Filter) (d : Directive) : Filter := ⟨f.directives ++ [d]⟩

/-- The more detailed of two thresholds. -/
def maxThreshold (s t : Threshold) : Threshold :=
  if Threshold.rank s < Threshold.rank t then t else s

/-- No event that is more detailed is shown. A directive that asks for a value might show anything.
-/
def bound (f : Filter) : Threshold :=
  if f.directives.any Directive.asksForValue then some .trace
  else (f.directives.map Directive.threshold).foldl maxThreshold none

/-! ### Reading -/

/-- The texts between commas that are not empty. -/
def split (s : List Char) : List (List Char) := (s.splitOn ',').filter (· ≠ [])

/-- The directives of a text; what is no directive is passed over. There are none where one of the
texts stops the program. -/
def directivesOf? (s : List Char) : Option (List Directive) :=
  ((split s).mapM Directive.ofText?).map fun readings => readings.filterMap Except.toOption

/-- The texts that are passed over, with the reason, up to one that stops the program. -/
def ignored (s : List Char) : List (List Char × DirectiveError) :=
  ((split s).takeWhile fun part => (Directive.ofText? part).isSome).filterMap fun part =>
    match Directive.ofText? part with
    | some (.error e) => some (part, e)
    | _ => none

/-- What a message says of a text that is passed over. -/
def ignoredLine (part : List Char × DirectiveError) : String :=
  "ignoring `" ++ String.ofList part.1 ++ "`: " ++ part.2.message

/-- The filter of a text, unless reading it stops the program. Without any directive, events are
shown up to `info`. -/
def ofText? (s : String) : Option Filter :=
  (directivesOf? s.toList).map fun directives =>
    if directives = [] then ⟨[.everywhere (some .info)]⟩ else ⟨directives⟩

/-- The filter when there is a number of flags for more detail. -/
def withVerbosity (f : Filter) (verbosity : Nat) : Filter :=
  match verbosity with
  | 0 => f
  | 1 => f.add (.everywhere (some .debug))
  | _ => f.add (.everywhere (some .trace))

end Filter

end DrillPost
