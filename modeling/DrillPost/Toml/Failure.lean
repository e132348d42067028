import DrillPost.Text.Utf8
import DrillPost.Toml.Node

/-!
# Why a document is not what was wanted

A fault says what is wrong with a value and where the value stands. The message of a fault shows the
first line of the value with a mark under it.
-/

namespace DrillPost.Toml

/-- What is wrong with a value, and where it stands if that is known. -/
structure Fault where
  message : String
  span : Option Span
deriving DecidableEq

/-- The fault, with a place if it had none. -/
def Fault.orAt (span : Option Span) (f : Fault) : Fault := { f with span := f.span <|> span }

/-- Why a text was not read. -/
inductive Error where
  /-- The text is no document. -/
  | malformed
  /-- The text is a document, but does not say what was asked for. -/
  | content (message : String)
deriving DecidableEq

/-- The characters of the last line. -/
def lineStart (before : List Char) : List Char :=
  (before.reverse.takeWhile (· ≠ '\n')).reverse

/-- Where a value stands, for someone who reads the text: the line, and the column in it. -/
structure Place where
  line : Nat
  column : Nat

/-- The place where the unread text of a text starts. -/
def placeAt (text unread : List Char) : Place :=
  let before := text.take (text.length - unread.length)
  ⟨before.count '\n', (lineStart before).length⟩

def lineAt (text : List Char) (line : Nat) : List Char := (text.splitOn '\n').getD line []

/-- The fault in its text: the line of the value, a mark under the value, and what is wrong. -/
def Fault.inText (text : String) (f : Fault) : String :=
  match f.span with
  | none => f.message ++ "\n"
  | some span =>
    let place := placeAt text.toList span.start
    let number := toString (place.line + 1)
    let content := lineAt text.toList place.line
    let gutter := String.ofList (List.replicate (number.length + 1) ' ')
    let width := min (byteCount span.start - byteCount span.stop)
      (byteCount content - place.column)
    let mark := String.ofList (List.replicate (place.column + 1) ' ' ++
      List.replicate (max 1 width) '^')
    s!"TOML parse error at line {number}, column {place.column + 1}\n" ++
      gutter ++ "|\n" ++
      number ++ " | " ++ String.ofList content ++ "\n" ++
      gutter ++ "|" ++ mark ++ "\n" ++
      f.message ++ "\n"

end DrillPost.Toml
