import DrillPost.Log.Event
import DrillPost.Text.CharClass
import DrillPost.Text.Reading

/-!
# Directives

A directive says how detailed the events of a part of the program may be to be shown. It is a level,
a target, or a target with a level; between target and level may stand, in brackets, the name of a
scope and the fields that an event must have. Nothing here opens a scope, so a directive for a scope
shows nothing.

The shape of a directive is that of its text without the blanks at its ends, but its parts are cut
from the text as it stands, at the same byte positions: blanks in front shift every cut. A cut that
comes to lie inside a character stops the program, and then there is no result (`none`).
-/

namespace DrillPost

/-- Up to which level events are shown: none of them, or those up to a level. -/
abbrev Threshold := Option Level

/-- How detailed events may be: nothing is shown at rank zero. -/
def Threshold.rank (t : Threshold) : Nat := t.elim 0 Level.rank

def thresholdOfNumber? : Nat → Option Threshold
  | 0 => some none
  | 1 => some (some .error)
  | 2 => some (some .warn)
  | 3 => some (some .info)
  | 4 => some (some .debug)
  | 5 => some (some .trace)
  | _ => none

/-- The value of digits after an optional plus sign. -/
def number? (s : List Char) : Option Nat :=
  let digits := if s.head? = some '+' then s.tail else s
  if digits ≠ [] ∧ digits.all Char.isDigit then some (Nat.ofDigitChars 10 digits 0) else none

/-- The level that a name in any case or a number means. -/
def thresholdOf? (s : List Char) : Option Threshold :=
  match (number? s).bind thresholdOfNumber? with
  | some t => some t
  | none =>
    match String.ofList (s.map Char.toLower) with
    | "" => some (some .error)
    | "off" => some none
    | "error" => some (some .error)
    | "warn" => some (some .warn)
    | "info" => some (some .info)
    | "debug" => some (some .debug)
    | "trace" => some (some .trace)
    | _ => none

/-- How detailed the events of a target may be. -/
structure Directive where
  /-- The beginning of the names of the parts that it is for; all parts without one. -/
  target : Option String
  /-- Whether it is for the events of a named scope. -/
  hasScope : Bool
  /-- The fields that an event must have, and whether a value is asked for. -/
  fields : List (String × Bool)
  threshold : Threshold
deriving DecidableEq

/-- Why a text is no directive. -/
inductive DirectiveError where
  | malformed
  | level
deriving DecidableEq

def DirectiveError.message : DirectiveError → String
  | .malformed => "invalid filter directive"
  | .level =>
    "error parsing level filter: expected one of \"off\", \"error\", \"warn\", \"info\", " ++
      "\"debug\", \"trace\", or a number 0-5"

namespace Directive

/-- A directive for all parts of the program. -/
def everywhere (threshold : Threshold) : Directive := ⟨none, false, [], threshold⟩

/-- Whether a directive asks for the value of a field. -/
def asksForValue (d : Directive) : Bool := d.fields.any Prod.snd

/-- Whether a directive is for events whatever their scope. -/
def isStatic (d : Directive) : Bool := !d.hasScope && !d.asksForValue

/-! ### Reading -/

/-- What a text says, or why it is no directive. -/
abbrev Reading := Except DirectiveError Directive

/-- Reads what follows the equals sign of a directive, from a byte position on. -/
def readLevel (d : Directive) (s : List Char) (start : Nat) : Option Reading :=
  (splitAtByte? s start).map fun (_, level) =>
    if level = [] then .ok { d with threshold := some .trace }
    else
      match thresholdOf? level with
      | some threshold => .ok { d with threshold }
      | none => .error .level

/-- Reads what follows the brackets of a directive; `shape` is what is left of its shape. -/
def readAfterBrackets (d : Directive) (s : List Char) (start : Nat) (shape : List Char) :
    Option Reading :=
  match shape with
  | [] => some (.ok d)
  | c :: _ => if c = '=' then readLevel d s (start + 1) else some (.error .malformed)

/-- The field that a text asks for. -/
def fieldOf (s : List Char) : String × Bool :=
  (String.ofList (s.takeWhile (· ≠ '=')), s.contains '=')

/-- Reads what stands in braces and the bracket after it. -/
def readFields (d : Directive) (s : List Char) (start : Nat) (shape : List Char) :
    Option Reading :=
  match shape.span (· ≠ '\x7d') with
  | (_, []) => some (.error .malformed)
  | (field, _ :: shape) =>
    let stop := start + byteCount field
    (cut? s start stop).bind fun field =>
      -- Braces hold something and end the brackets.
      if field = [] ∨ shape.head? ≠ some ']' then some (.error .malformed)
      else readAfterBrackets { d with fields := [fieldOf field] } s (stop + 2) shape.tail

/-- Reads what stands in brackets and what follows. -/
def readScope (d : Directive) (s : List Char) (start : Nat) (shape : List Char) :
    Option Reading :=
  match shape.span fun c => c ≠ ']' ∧ c ≠ '\x7b' with
  | (_, []) => some (.error .malformed)
  | (scope, c :: shape) =>
    let stop := start + byteCount scope
    (cut? s start stop).bind fun scope =>
      if c = ']' then readAfterBrackets { d with hasScope := true } s (stop + 1) shape
      else readFields { d with hasScope := scope ≠ [] } s (stop + 1) shape

/-- The directive that a level or a target alone is. -/
def ofBare (s : List Char) : Directive :=
  match thresholdOf? s with
  | some threshold => everywhere threshold
  | none => ⟨some (String.ofList s), false, [], some .trace⟩

/-- Whether a directive without brackets may begin with a character. -/
def canBegin (c : Char) : Bool := c == '-' || c == ':' || c == '_' || isAlphanumeric c

/-- Reads a directive that begins with a target or a level. -/
def readTarget (s shape : List Char) : Option Reading :=
  match shape.span fun c => c ≠ '=' ∧ c ≠ '[' with
  | (_, []) => some (.ok (ofBare s))
  | (target, c :: shape) =>
    let stop := byteCount target
    (cut? s 0 stop).bind fun target =>
      let d : Directive := ⟨some (String.ofList target), false, [], some .trace⟩
      if c = '=' then readLevel d s (stop + 1) else readScope d s (stop + 1) shape

def ofText? (s : List Char) : Option Reading :=
  match trimSpace s with
  | [] => some (.error .malformed)
  | c :: shape =>
    if c = '[' then readScope (everywhere (some .trace)) s 1 shape
    else if canBegin c then readTarget s (c :: shape)
    else some (.error .malformed)

end Directive

end DrillPost
