import DrillPost.Text.Reading
import DrillPost.Tree.Basic

/-!
# Nodes

What a TOML document says, with the places where it says it. A table remembers how it came about,
because that decides what later lines may still add to it.
-/

namespace DrillPost.Toml

/-- A stretch of a text, by the unread text at its beginning and at its end. -/
structure Span where
  start : List Char
  stop : List Char
deriving DecidableEq

/-- A name in front of a value or in a header. -/
structure Key where
  name : String
  span : Span
deriving DecidableEq

/-- How a table came about. -/
inductive Origin where
  /-- Between braces, so that nothing can be added to it. -/
  | inline
  /-- By a header of its own. -/
  | header
  /-- By a header of a table inside it. -/
  | implied
  /-- By a dotted key. -/
  | dotted
deriving DecidableEq

/-- A value without parts. -/
inductive Scalar where
  | bool (b : Bool)
  | int (n : Int)
  | real (x : Binary64)
  | text (s : String)
  /-- A date, a time of day, or both. -/
  | moment (s : String)
deriving DecidableEq

/-- A value with its place. -/
inductive Node where
  | scalar (span : Span) (value : Scalar)
  | array (span : Span) (items : List Node)
  /-- The tables of headers in double brackets. -/
  | tables (span : Option Span) (items : List Node)
  /-- A table that only dotted keys or headers inside it make has no place of its own. -/
  | table (origin : Origin) (span : Option Span) (members : List (Key × Node))

instance : Inhabited Node := ⟨.table .inline none []⟩

abbrev Members := List (Key × Node)

namespace Node

def span? : Node → Option Span
  | .scalar span _ => some span
  | .array span _ => some span
  | .tables span _ => span
  | .table _ span _ => span

/-- The node as a message names it; a moment counts as a map. -/
def found : Node → Found
  | .scalar _ (.bool b) => .bool b
  | .scalar _ (.int n) => .int n
  | .scalar _ (.real x) => .real x
  | .scalar _ (.text s) => .text s
  | .scalar _ (.moment _) => .map
  | .array .. | .tables .. => .list
  | .table .. => .map

/-- The member under which a moment is handed on. -/
def momentName : String := "$__toml_private_datetime"

mutual

def toTree : Node → Tree
  | .scalar _ (.bool b) => .bool b
  | .scalar _ (.int n) => .int n
  | .scalar _ (.real x) => .real x
  | .scalar _ (.text s) => .text s
  | .scalar _ (.moment s) => .map [(momentName, .text s)]
  | .array _ items => .list (itemTrees items)
  | .tables _ items => .list (itemTrees items)
  | .table _ _ members => .map (memberTrees members)

/-- The items without their places. -/
def itemTrees : List Node → List Tree
  | [] => []
  | item :: items => item.toTree :: itemTrees items

/-- The members without their places. -/
def memberTrees : List (Key × Node) → List (String × Tree)
  | [] => []
  | (key, value) :: members => (key.name, value.toTree) :: memberTrees members

end

end Node

end DrillPost.Toml
