import DrillPost.Text.Quoted
import DrillPost.Text.Reading

/-!
# Strings

A string is basic, between double quotes, or literal, between single quotes; either may stand
between three quotes instead, and then goes over several lines. Escapes count only in basic strings.
A line end is a newline, which a carriage return may precede; in a string it counts as a newline
alone.
-/

namespace DrillPost.Toml

/-- Takes a value off the front of a text, if there is one. -/
abbrev Reader (α : Type) := (s : List Char) → Option (Read α s)

/-- Blanks within a line. -/
def isBlank (c : Char) : Bool := c == ' ' || c == '\t'

/-- Characters that may stand in comments and strings; quotes and backslashes may mean more there.
-/
def isOrdinary (c : Char) : Bool := c == '\t' || (32 ≤ c.toNat && c.toNat ≠ 127)

def readNewline : Reader Unit
  | '\n' :: r => some (.one () '\n' r)
  | '\r' :: '\n' :: r => some ((Read.one () '\n' r).past '\r')
  | _ => none

/-- The text after a line end, if it starts with one. -/
def dropNewline (s : List Char) : Tail s := (readNewline s).elim (.all s) Read.toTail

/-- The text after blanks and line ends. -/
def dropSpace (s : List Char) : Tail s :=
  match s with
  | '\r' :: '\n' :: r => ((dropSpace r).past '\n').past '\r'
  | c :: r => if isBlank c ∨ c = '\n' then (dropSpace r).past c else .all (c :: r)
  | [] => .all []

/-! ### Escapes -/

/-- The value of hexadecimal digits, if all are. -/
def hexValue? (digits : List Char) : Option Nat :=
  digits.foldlM (fun n c => (hexDigit? c).map (n * 16 + ·)) 0

/-- The character of a code point, if it is one. -/
def charOf? (n : Nat) : Option Char := if h : n.isValidChar then some (Char.ofNatAux n h) else none

/-- Reads a code point of a number of hexadecimal digits. -/
def readCodePoint (count : Nat) (s : List Char) : Option (Char × Tail s) :=
  if s.length < count then none
  else ((hexValue? (s.take count)).bind charOf?).map (·, .drop count s)

def readEscape : Reader Char
  | [] => none
  | c :: r =>
    if c = 'u' ∨ c = 'U' then
      (readCodePoint (if c = 'u' then 4 else 8) r).map fun (d, t) => .ofTail d c t
    else (escaped? c).map fun d => .one d c r

/-! ### Strings on one line -/

/-- Reads a character of a basic string, or its closing quote. -/
def readBasicCharacter : (s : List Char) → Option (Step Char s)
  | [] => none
  | c :: r =>
    if c = '"' then some (.last (.one [] c r))
    else if c = '\\' then (readEscape r).map fun x => .more ((x.map ([·])).past c)
    else if isOrdinary c then some (.more (.one [c] c r))
    else none

def readBasic : Reader (List Char) := readRun readBasicCharacter

/-- Reads a character of a literal string, or its closing quote. -/
def readLiteralCharacter : (s : List Char) → Option (Step Char s)
  | [] => none
  | c :: r =>
    if c = '\'' then some (.last (.one [] c r))
    else if isOrdinary c then some (.more (.one [c] c r))
    else none

/-- Reads a literal string after its opening quote. -/
def readLiteral : Reader (List Char) := readRun readLiteralCharacter

/-! ### Strings over several lines -/

/-- Reads the end of a string over several lines: three quotes, of which one or two more may stand
in front that belong to the string. -/
def readClosing (quote : Char) : Reader (List Char)
  | a :: b :: c :: r =>
    if a = quote ∧ b = quote ∧ c = quote then
      let extra := (r.take 2).takeWhile (· = quote)
      some (((Read.ofTail extra c (.drop extra.length r)).past b).past a)
    else none
  | _ => none

/-- The text after a backslash that ends a line: blanks and line ends, with at least one line end
among the first. -/
def dropContinuation? (s : List Char) : Option (Tail s) :=
  ((Tail.dropRun isBlank s).thenRead readNewline).map fun x => x.toTail.andThen (dropSpace x.rest)

/-- Reads a piece of a string over several lines, or its end. `escapes` says whether backslashes are
escapes. -/
def readPiece (quote : Char) (escapes : Bool) (s : List Char) : Option (Step Char s) :=
  match readClosing quote s with
  | some x => some (.last x)
  | none =>
    match s with
    | [] => none
    | c :: r =>
      if c = '\\' ∧ escapes then
        -- A backslash at the end of a line joins it to the next one.
        match dropContinuation? r with
        | some t => some (.more (.ofTail [] c t))
        | none => (readEscape r).map fun x => .more ((x.map ([·])).past c)
      else
        match readNewline (c :: r) with
        | some x => some (.more (x.map fun _ => ['\n']))
        | none => if isOrdinary c then some (.more (.one [c] c r)) else none

/-- Reads a string over several lines after its opening quotes and first line end. -/
def readLines (quote : Char) (escapes : Bool) : Reader (List Char) :=
  readRun (readPiece quote escapes)

/-! ### Any string -/

def readQuoted : Reader String
  | [] => none
  | c :: r =>
    (if c = '"' then readBasic r else if c = '\'' then readLiteral r else none).map fun x =>
      (x.map String.ofList).past c

/-- Reads a string over several lines after its opening quotes. -/
def readBlock (quote : Char) (escapes : Bool) : Reader String := fun s =>
  ((dropNewline s).thenRead (readLines quote escapes)).map (·.map String.ofList)

def readString : Reader String
  | '"' :: '"' :: '"' :: r =>
    (readBlock '"' true r).map fun x => ((x.past '"').past '"').past '"'
  | '\'' :: '\'' :: '\'' :: r =>
    (readBlock '\'' false r).map fun x => ((x.past '\'').past '\'').past '\''
  | s => readQuoted s

end DrillPost.Toml
