import DrillPost.Decimal.Layout
import DrillPost.Tree.Basic

/-!
# Writing JSON

`compact` writes a tree on one line without blanks; `pretty` gives every item and member a line of
its own, indented by two blanks a level. A number that is not finite is written as `null`.
-/

namespace DrillPost.Json

/-- Numbers in JSON: whole numbers keep a fraction, and an exponent is written from `1e16` on and
below `1e-5`. -/
def layout : Layout where
  tie := .even
  keepsFraction := true
  isPositional e := -5 ≤ e ∧ e < 16
  nan := "null"
  infinity _ := "null"

/-- How a character stands in a string. -/
def escape (c : Char) : List Char :=
  if c = '"' then ['\\', '"']
  else if c = '\\' then ['\\', '\\']
  else if c = '\x08' then ['\\', 'b']
  else if c = '\x0c' then ['\\', 'f']
  else if c = '\n' then ['\\', 'n']
  else if c = '\r' then ['\\', 'r']
  else if c = '\t' then ['\\', 't']
  else if c.toNat < 32 then
    ['\\', 'u', '0', '0', Nat.digitChar (c.toNat / 16), Nat.digitChar (c.toNat % 16)]
  else [c]

def quote (s : String) : List Char := '"' :: (s.toList.flatMap escape ++ ['"'])

/-- Writes a value that is neither a list nor a map. -/
def scalar : Tree → List Char
  | .null => "null".toList
  | .bool b => (if b then "true" else "false").toList
  | .int n => (if n < 0 then ['-'] else []) ++ Nat.toDigits 10 n.natAbs
  | .real x => (x.write layout).toList
  | .text s => quote s
  | .list _ | .map _ => []

mutual

def writeCompact : Tree → List Char
  | .list [] => ['[', ']']
  | .list (item :: items) => '[' :: (writeCompact item ++ writeItems items)
  | .map [] => ['\x7b', '\x7d']
  | .map ((name, value) :: members) =>
    '\x7b' :: (quote name ++ ':' :: (writeCompact value ++ writeMembers members))
  | .null => scalar .null
  | .bool b => scalar (.bool b)
  | .int n => scalar (.int n)
  | .real x => scalar (.real x)
  | .text s => scalar (.text s)

/-- Writes the items after the first, and the end of the list. -/
def writeItems : List Tree → List Char
  | [] => [']']
  | item :: items => ',' :: (writeCompact item ++ writeItems items)

/-- Writes the members after the first, and the end of the map. -/
def writeMembers : List (String × Tree) → List Char
  | [] => ['\x7d']
  | (name, value) :: members =>
    ',' :: (quote name ++ ':' :: (writeCompact value ++ writeMembers members))

end

def compact (t : Tree) : String := String.ofList (writeCompact t)

def newline (depth : Nat) : List Char := '\n' :: List.replicate (2 * depth) ' '

mutual

/-- Writes a tree whose items and members stand at a depth. -/
def writePretty (depth : Nat) : Tree → List Char
  | .list [] => ['[', ']']
  | .list (item :: items) =>
    '[' :: (newline depth ++ writePretty (depth + 1) item ++ writePrettyItems depth items)
  | .map [] => ['\x7b', '\x7d']
  | .map ((name, value) :: members) =>
    '\x7b' :: (newline depth ++ quote name ++
      ':' :: ' ' :: (writePretty (depth + 1) value ++ writePrettyMembers depth members))
  | .null => scalar .null
  | .bool b => scalar (.bool b)
  | .int n => scalar (.int n)
  | .real x => scalar (.real x)
  | .text s => scalar (.text s)

/-- Writes the items after the first, and the end of the list. -/
def writePrettyItems (depth : Nat) : List Tree → List Char
  | [] => newline (depth - 1) ++ [']']
  | item :: items =>
    ',' :: (newline depth ++ writePretty (depth + 1) item ++ writePrettyItems depth items)

/-- Writes the members after the first, and the end of the map. -/
def writePrettyMembers (depth : Nat) : List (String × Tree) → List Char
  | [] => newline (depth - 1) ++ ['\x7d']
  | (name, value) :: members =>
    ',' :: (newline depth ++ quote name ++
      ':' :: ' ' :: (writePretty (depth + 1) value ++ writePrettyMembers depth members))

end

/-- The tree with every item and member on a line of its own. -/
def pretty (t : Tree) : String := String.ofList (writePretty 1 t)

end DrillPost.Json
