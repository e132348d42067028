import DrillPost.Decimal.Layout
import DrillPost.Text.Quoted

/-!
# Trees

What a structured text says once its notation is gone: scalars, lists, and maps whose members keep
the order in which they stand. A map may hold a name twice; what that means is for the reader of the
map to decide.

`Mismatch` is what a reader says when a value is not of the kind that was asked for, or has the
wrong number of parts.
-/

namespace DrillPost

/-- A structured value. -/
inductive Tree where
  | null
  | bool (b : Bool)
  | int (n : Int)
  | real (x : Binary64)
  | text (s : String)
  | list (items : List Tree)
  | map (members : List (String × Tree))

instance : Inhabited Tree := ⟨.null⟩

namespace Tree

def real? : Tree → Option Binary64
  | .int n => some (.ofInt n)
  | .real x => some x
  | _ => none

def list? : Tree → Option (List Tree)
  | .list items => some items
  | _ => none

/-- The values that members with a name have, in order. -/
def valuesOf (name : String) (members : List (String × Tree)) : List Tree :=
  (members.filter fun m => m.1 = name).map Prod.snd

end Tree

/-! ### Values of the wrong kind -/

/-- A value that was found where another kind was expected. -/
inductive Found where
  | null
  | bool (b : Bool)
  | int (n : Int)
  | real (x : Binary64)
  | text (s : String)
  | list
  | map
deriving DecidableEq

namespace Mismatch

/-- The value as a message names it. Numbers are written in the layout of the notation. -/
def describe (layout : Layout) : Found → String
  | .null => "null"
  | .bool b => if b then "boolean `true`" else "boolean `false`"
  | .int n => "integer `" ++ toString n ++ "`"
  | .real x => "floating point `" ++ x.write layout ++ "`"
  | .text s => "string " ++ quoted s
  | .list => "sequence"
  | .map => "map"

/-- The value is of another kind. -/
def kind (layout : Layout) (found : Found) (expected : String) : String :=
  "invalid type: " ++ describe layout found ++ ", expected " ++ expected

/-- The value is of the right kind but out of range. -/
def range (n : Int) (expected : String) : String :=
  "invalid value: integer `" ++ toString n ++ "`, expected " ++ expected

/-- A list has too few items. -/
def length (n : Nat) (expected : String) : String :=
  "invalid length " ++ toString n ++ ", expected " ++ expected

def missing (name : String) : String := "missing field `" ++ name ++ "`"

def duplicate (name : String) : String := "duplicate field `" ++ name ++ "`"

end Mismatch

end DrillPost
