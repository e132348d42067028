import DrillPost.Json.Number
import DrillPost.Json.Printer
import DrillPost.Json.Text

/-!
# Values

`readTree` reads any value as a tree; brackets may stand in brackets 127 deep. `skipValue` passes
over a value of any depth with a list of the brackets that are still open. `mismatch` says what is
wrong with a value that is of another kind than the one that was asked for.
-/

namespace DrillPost.Json

/-- A value without parts. -/
inductive Scalar where
  | null
  | bool (b : Bool)
  | number (n : Number)
  | text (s : String)

namespace Scalar

def toTree : Scalar → Tree
  | .null => .null
  | .bool b => .bool b
  | .number (.int n) => .int n
  | .number (.real x) => .real x
  | .text s => .text s

/-- The scalar as a message names it. -/
def found : Scalar → Found
  | .null => .null
  | .bool b => .bool b
  | .number (.int n) => .int n
  | .number (.real x) => .real x
  | .text s => .text s

end Scalar

def readWord (word : List Char) (s : List Char) : Except Failure (Tail s) :=
  match word, s with
  | [], s => .ok (.all s)
  | _ :: _, [] => .error (.before .endInValue [])
  | w :: word, c :: r =>
    if c = w then Tail.past c <$> readWord word r else .error ⟨.expectedWord, c :: r, 1⟩

/-- Reads the rest of a word that stands for a value. -/
def readNamed {α : Type} (first : Char) (word : String) (value : α) (r : List Char) :
    Except Failure (Read α (first :: r)) :=
  Read.ofTail value first <$> readWord word.toList r

def readScalar : Reader Scalar
  | [] => .error (.before .endInValue [])
  | c :: r =>
    if c = 'n' then readNamed c "ull" .null r
    else if c = 't' then readNamed c "rue" (.bool true) r
    else if c = 'f' then readNamed c "alse" (.bool false) r
    else if c = '"' then Read.past c <$> Reader.map .text readString r
    else if c = '-' then Read.past c <$> Reader.map .number (readNumber true) r
    else if c.isDigit then Reader.map .number (readNumber false) (c :: r)
    else .error (.atNext .expectedValue (c :: r))

/-! ### Trees -/

/-- A member whose value is read is the last of those that were read before. -/
def addMember (read : Reader Tree) (members : List (String × Tree)) (name : String) :
    Except String (Reader (List (String × Tree))) :=
  .ok (read.map fun value => (name, value) :: members)

/-- Reads a value whose brackets stand at most `depth` deep. -/
def readTreeWithin (depth : Nat) : Reader Tree := fun s =>
  match nextChar s with
  | none => .error (.before .endInValue [])
  | some c =>
    if c.value = '[' then
      match depth with
      | 0 => .error (.atNext .tooDeep c.unread.rest)
      | depth + 1 => c.thenRead (Reader.map .list (readItems (readTreeWithin depth) true))
    else if c.value = '\x7b' then
      match depth with
      | 0 => .error (.atNext .tooDeep c.unread.rest)
      | depth + 1 =>
        c.thenRead (Reader.map (fun members => .map members.reverse)
          (readMembers readString (addMember (readTreeWithin depth)) true []))
    else c.unread.thenRead (Reader.map Scalar.toTree readScalar)

/-- How deep brackets may stand in brackets. -/
def maxDepth : Nat := 127

def readTree : Reader Tree := readTreeWithin maxDepth

/-! ### Passing over a value -/

/-- A bracket that is open. -/
inductive Bracket where
  | list
  | object
deriving DecidableEq

namespace Bracket

/-- The character that closes the bracket. -/
def closing : Bracket → Char
  | .list => ']'
  | .object => '\x7d'

/-- The text ended before the bracket was closed. -/
def atEnd : Bracket → Cause
  | .list => .endInList
  | .object => .endInObject

/-- Something stands where a comma or the closing bracket should. -/
def expectedComma : Bracket → Cause
  | .list => .expectedCommaInList
  | .object => .expectedCommaInObject

end Bracket

def skipNumber : Reader Unit := Reader.map (fun _ => ()) (readLiteral .invalidNumber)

def skipScalar : Reader Unit
  | [] => .error (.before .endInValue [])
  | c :: r =>
    if c = 'n' then readNamed c "ull" () r
    else if c = 't' then readNamed c "rue" () r
    else if c = 'f' then readNamed c "alse" () r
    else if c = '"' then Read.past c <$> skipString r
    else if c = '-' then Read.past c <$> skipNumber r
    else if c.isDigit then skipNumber (c :: r)
    else .error (.atNext .expectedValue (c :: r))

/-- Passes over the key of a member and its colon, if the bracket is that of an object. -/
def skipKey (bracket : Bracket) (s : List Char) : Except Failure (Tail s) :=
  match bracket with
  | .list => .ok (.all s)
  | .object =>
    match nextChar s with
    | none => .error (.before .endInObject [])
    | some c =>
      if c.value ≠ '"' then .error (.atNext .keyNotString c.unread.rest)
      else
        match c.thenRead skipString with
        | .error e => .error e
        | .ok key => Read.toTail <$> key.thenRead readColon

mutual

/-- Passes over a value and then over what closes the brackets that are open around it, the
innermost first. -/
def skipValueIn (opened : List Bracket) (s : List Char) : Except Failure (Read Unit s) :=
  match nextChar s with
  | none => .error (.before .endInValue [])
  | some c =>
    if c.value = '[' ∨ c.value = '\x7b' then
      match skipFirstIn (if c.value = '[' then .list else .object) opened c.rest with
      | .error e => .error e
      | .ok x => .ok (c.andThen (fun _ _ => ()) x)
    else
      match c.unread.thenRead skipScalar with
      | .error e => .error e
      | .ok x =>
        match skipMoreIn opened x.rest with
        | .error e => .error e
        | .ok t => .ok (x.leave t)
termination_by (s.length, 2)
decreasing_by
  · exact Prod.Lex.left _ _ c.shorter
  · exact Prod.Lex.left _ _ x.shorter

/-- Passes over what follows an open bracket. -/
def skipFirstIn (bracket : Bracket) (opened : List Bracket) (s : List Char) :
    Except Failure (Read Unit s) :=
  match nextChar s with
  | none => .error (.before bracket.atEnd [])
  | some c =>
    if c.value = bracket.closing then
      match skipMoreIn opened c.rest with
      | .error e => .error e
      | .ok t => .ok ((c.leave t).map fun _ => ())
    else
      match skipKey bracket s with
      | .error e => .error e
      | .ok t =>
        match skipValueIn (bracket :: opened) t.rest with
        | .error e => .error e
        | .ok x => .ok (x.within t)
termination_by (s.length, 3)
decreasing_by
  · exact Prod.Lex.left _ _ c.shorter
  · exact Prod.Lex.right' _ t.notLonger (by decide)

/-- Passes over what follows a value inside open brackets. -/
def skipMoreIn (opened : List Bracket) (s : List Char) : Except Failure (Tail s) :=
  match opened with
  | [] => .ok (.all s)
  | bracket :: opened =>
    match nextChar s with
    | none => .error (.before bracket.atEnd [])
    | some c =>
      if c.value = ',' then
        match skipKey bracket c.rest with
        | .error e => .error e
        | .ok t =>
          match skipValueIn (bracket :: opened) (c.leave t).rest with
          | .error e => .error e
          | .ok x => .ok ((c.leave t).toTail.andThen x.toTail)
      else if c.value = bracket.closing then
        match skipMoreIn opened c.rest with
        | .error e => .error e
        | .ok t => .ok (c.toTail.andThen t)
      else .error (.atNext bracket.expectedComma c.unread.rest)
termination_by (s.length, 1)
decreasing_by
  · exact Prod.Lex.left _ _ (c.leave t).shorter
  · exact Prod.Lex.left _ _ c.shorter

end

def skipValue : Reader Unit := skipValueIn []

/-! ### Values of the wrong kind -/

/-- What is wrong with the value at the front of a text where another kind was expected. A list or
an object is not read. -/
def mismatch (expected : String) (s : List Char) : Failure :=
  match s with
  | '[' :: _ => .before (.data (Mismatch.kind layout .list expected)) s
  | '\x7b' :: _ => .before (.data (Mismatch.kind layout .map expected)) s
  | _ =>
    match readScalar s with
    | .error e => e
    | .ok x => .before (.data (Mismatch.kind layout x.value.found expected)) x.rest

end DrillPost.Json
