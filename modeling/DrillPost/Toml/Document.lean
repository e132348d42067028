import DrillPost.Toml.Value

/-!
# Documents

A document is a list of statements, one a line: values for keys, and headers, each of which begins a
table that the values after it belong to. `Document.add` takes one statement into what the
statements before it said; a statement that touches a finished table again makes the document
invalid.
-/

namespace DrillPost.Toml

/-- What a line of a document says. -/
inductive Statement where
  | value (path : List Key) (node : Node)
  /-- A header in single brackets. -/
  | table (path : List Key) (span : Span)
  /-- A header in double brackets. -/
  | item (path : List Key) (span : Span)

/-! ### Statements -/

/-- Reads blanks, a comment, and the end of the line or of the text. -/
def readLineEnd (s : List Char) : Option (Tail s) :=
  match (dropBlank s).thenRead readNewline with
  | some x => some x.toTail
  | none => if (dropBlank s).rest = [] then some (dropBlank s) else none

def readHeader (closing : List Char) (make : List Key → Span → Statement) (start : List Char) :
    Reader Statement := fun s =>
  match readPath s with
  | none => none
  | some path =>
    match readWord closing path.rest with
    | none => none
    | some t =>
      (readLineEnd t.rest).map fun u =>
        (path.leave (t.andThen u)).map fun keys => make keys ⟨start, t.rest⟩

def readStatement : Reader Statement := fun s =>
  match s with
  | '[' :: '[' :: r => (readHeader [']', ']'] .item s r).map fun x => (x.past '[').past '['
  | '[' :: r => (readHeader [']'] .table s r).map (·.past '[')
  | s =>
    match readMember readValue s with
    | none => none
    | some m =>
      (readLineEnd m.rest).map fun t => (m.leave t).map fun (path, node) => .value path node

def readStatements (s : List Char) : Option (List Statement) :=
  let start := Tail.dropRun isBlank s
  match start.rest.head? with
  | none => some []
  | some c =>
    if c = '#' ∨ c = '\n' ∨ c = '\r' then
      match readLineEnd start.rest with
      | none => none
      | some t => if _h : t.rest.length < s.length then readStatements t.rest else none
    else
      match start.thenRead readStatement with
      | none => none
      | some x => (readStatements x.rest).map (x.value :: ·)
termination_by s.length
decreasing_by
  · exact _h
  · exact x.shorter

/-! ### Documents -/

/-- What has been said so far. -/
structure Document where
  /-- The tables that are finished. -/
  root : Members
  /-- The path of the table that values are added to, and whether its header has double brackets;
  none before the first header. -/
  current : Option (List Key × Bool)
  /-- The stretch of that table. -/
  span : Span
  /-- The members of that table. -/
  members : Members

namespace Document

def empty (text : List Char) : Document := ⟨[], none, ⟨text, text⟩, []⟩

/-- The members of the whole document, with the table that values were added to in its place. -/
def finish (d : Document) : Option Members :=
  match d.current with
  | none => some d.members
  | some (path, isItem) =>
    let table : Node := .table .header (some d.span) d.members
    (atHeader (fun key => if isItem then pushTable key table else putTable key table) path
      d.root).map Prod.fst

/-- What is said after one more statement. -/
def add (d : Document) : Statement → Option Document
  | .value path node => do
    let members ← assign path node d.members
    return { d with
      members
      span := match node.span? with
        | some span => ⟨d.span.start, span.stop⟩
        | none => d.span }
  | .table path span => do
    let root ← d.finish
    let (root, members) ← atHeader takeImplied path root
    return ⟨root, some (path, false), span, members⟩
  | .item path span => do
    let root ← d.finish
    let (root, _) ← atHeader openTables path root
    return ⟨root, some (path, true), span, []⟩

/-- The stretch of the values before the first header. -/
def rootSpan (text : List Char) (statements : List Statement) : Span :=
  let values := statements.takeWhile fun
    | .value .. => true
    | _ => false
  match values.getLast? with
  | some (.value _ node) => ⟨text, (node.span?.map Span.stop).getD text⟩
  | _ => ⟨text, text⟩

end Document

/-- The character that may stand in front of a text to mark its encoding. -/
def byteOrderMark : Char := '\uFEFF'

def ofText? (text : String) : Option Node :=
  let s := text.toList
  -- Positions count from the mark on, although it says nothing.
  let body := if s.head? = some byteOrderMark then s.tail else s
  match readStatements body with
  | none => none
  | some statements =>
    match statements.foldlM Document.add (.empty s) with
    | none => none
    | some d =>
      d.finish.map fun members => .table .header (some (Document.rootSpan s statements)) members

end DrillPost.Toml
