import DrillPost.Toml.Number
import DrillPost.Toml.Table

/-!
# Keys and values

A key is bare or quoted, and dots join several. Arrays may go over several lines and hold comments;
tables between braces stand on one line. Brackets and braces may stand in each other 79 deep, and as
many keys may be joined.
-/

namespace DrillPost.Toml

/-- How deep values may stand in values, and how many keys may be joined by dots. -/
def maxDepth : Nat := 79

/-! ### Keys -/

/-- Characters of a bare key. -/
def isBare (c : Char) : Bool := c.isAlphanum || c == '_' || c == '-'

def readName : Reader String
  | [] => none
  | c :: r =>
    if c = '"' ∨ c = '\'' then readQuoted (c :: r)
    else if isBare c then
      some (.ofTail (String.ofList (c :: r.takeWhile isBare)) c (.dropRun isBare r))
    else none

def readSimpleKey : Reader Key := fun s =>
  (readName s).map fun x => x.map fun name => ⟨name, ⟨s, x.rest⟩⟩

/-- Reads keys joined by dots, with the blanks around each. -/
def readKeys (s : List Char) : Option (Read (List Key) s) :=
  match (Tail.dropRun isBlank s).thenRead readSimpleKey with
  | none => none
  | some x =>
    let key := x.leave (.dropRun isBlank x.rest)
    match key.skip? '.' with
    | none => some (key.map ([·]))
    | some dot =>
      -- A dot that no key follows is left for the reader of what comes next to refuse.
      match readKeys dot.rest with
      | none => some (key.map ([·]))
      | some keys => some (dot.andThen List.cons keys)
termination_by s.length
decreasing_by exact dot.shorter

/-- Reads a key that leads on from a table. -/
def readPath : Reader (List Key) := fun s =>
  (readKeys s).filter fun x => x.value.length ≤ maxDepth

/-! ### Blanks between the items of an array -/

/-- The text after a comment, if it starts with one. -/
def dropComment (s : List Char) : Tail s :=
  match s with
  | '#' :: r => (Tail.dropRun isOrdinary r).past '#'
  | s => .all s

/-- The text after blanks, and a comment if one follows. -/
def dropBlank (s : List Char) : Tail s :=
  (Tail.dropRun isBlank s).andThen (dropComment (Tail.dropRun isBlank s).rest)

/-- The text after blanks, line ends, and comments with their line ends. -/
def dropFiller (s : List Char) : Tail s :=
  match (dropBlank s).thenRead readNewline with
  -- A comment counts as filler only with the end of its line.
  | none => .dropRun isBlank s
  | some x => x.toTail.andThen (dropFiller x.rest)
termination_by s.length
decreasing_by exact x.shorter

/-! ### Values -/

def readItems (item : Reader Node) (s : List Char) : Option (Read (List Node) s) :=
  match (dropFiller s).first? with
  | none => none
  | some c =>
    if c.value = ']' then some (c.map fun _ => [])
    else
      match (dropFiller s).thenRead item with
      | none => none
      | some x =>
        match (x.toTail.andThen (dropFiller x.rest)).first? with
        | none => none
        | some d =>
          if d.value = ']' then some (d.map fun _ => [x.value])
          else if d.value = ',' then
            (readItems item d.rest).map (d.andThen fun _ others => x.value :: others)
          else none
termination_by s.length
decreasing_by exact d.shorter

def readMember (value : Reader Node) : Reader (List Key × Node) := fun s =>
  match readPath s with
  | none => none
  | some path =>
    match readWord ['='] path.rest with
    | none => none
    | some t =>
      ((path.leave (t.andThen (.dropRun isBlank t.rest))).thenRead value).map
        (·.map fun node => (path.value, node))

/-- Reads members between braces after the first, each after a comma, and the brace that ends them.
-/
def readMoreMembers (value : Reader Node) (members : Members) (s : List Char) :
    Option (Read Members s) :=
  match (Tail.dropRun isBlank s).first? with
  | none => none
  | some c =>
    if c.value = '\x7d' then some (c.map fun _ => members)
    else if c.value = ',' then
      match c.thenRead (readMember value) with
      | none => none
      | some m =>
        match assign m.value.1 m.value.2 members with
        | none => none
        | some members =>
          (readMoreMembers value members m.rest).map (m.andThen fun _ members => members)
    else none
termination_by s.length
decreasing_by exact m.shorter

/-- Reads the members between braces and the brace that ends them. -/
def readMembers (value : Reader Node) : Reader Members := fun s =>
  let start := Tail.dropRun isBlank s
  match start.rest.head? with
  | none => none
  | some c =>
    if c = '\x7d' then start.thenRead (readMoreMembers value [])
    else
      match start.thenRead (readMember value) with
      | none => none
      | some m =>
        match assign m.value.1 m.value.2 [] with
        | none => none
        | some members => m.thenRead (readMoreMembers value members)

def readScalar : Reader Scalar
  | [] => none
  | c :: r =>
    if c = '"' ∨ c = '\'' then (readString (c :: r)).map (·.map .text)
    else if c = 't' then readNamed 't' ['r', 'u', 'e'] (.bool true) (c :: r)
    else if c = 'f' then readNamed 'f' ['a', 'l', 's', 'e'] (.bool false) (c :: r)
    else readNumeric (c :: r)

/-- Reads a value whose brackets stand at most `depth` deep. -/
def readValueWithin (depth : Nat) : Reader Node := fun s =>
  match s with
  | '[' :: r =>
    match depth with
    | 0 => none
    | depth + 1 =>
      (readItems (readValueWithin depth) r).map fun x =>
        (x.map (.array ⟨'[' :: r, x.rest⟩)).past '['
  | '\x7b' :: r =>
    match depth with
    | 0 => none
    | depth + 1 =>
      (readMembers (readValueWithin depth) r).map fun x =>
        (x.map (.table .inline (some ⟨'\x7b' :: r, x.rest⟩))).past '\x7b'
  | s => (readScalar s).map fun x => x.map (.scalar ⟨s, x.rest⟩)

def readValue : Reader Node := readValueWithin maxDepth

end DrillPost.Toml
