import DrillPost.Text.Reading
import DrillPost.Text.Utf8

/-!
# Why a text is not the JSON that was wanted

A reader that fails says why and which text it had not read yet. Only when the whole text is known
does that become a line and a column, both counted the way editors count: lines from one, and
columns in bytes, so that the first byte of a line is in column one.
-/

namespace DrillPost.Json

/-- Why reading stopped. -/
inductive Cause where
  | endInList
  | endInObject
  | endInString
  | endInValue
  | expectedColon
  | expectedCommaInList
  | expectedCommaInObject
  | expectedWord
  | expectedValue
  | invalidEscape
  | invalidNumber
  | numberOutOfRange
  | controlCharacter
  | keyNotString
  | loneSurrogate
  | unfinishedSurrogatePair
  | trailingComma
  | trailingCharacters
  | tooDeep
  /-- The text is JSON, but does not say what was asked for. -/
  | data (message : String)
deriving DecidableEq

namespace Cause

def message : Cause → String
  | .endInList => "EOF while parsing a list"
  | .endInObject => "EOF while parsing an object"
  | .endInString => "EOF while parsing a string"
  | .endInValue => "EOF while parsing a value"
  | .expectedColon => "expected `:`"
  | .expectedCommaInList => "expected `,` or `]`"
  | .expectedCommaInObject => "expected `,` or `\x7d`"
  | .expectedWord => "expected ident"
  | .expectedValue => "expected value"
  | .invalidEscape => "invalid escape"
  | .invalidNumber => "invalid number"
  | .numberOutOfRange => "number out of range"
  | .controlCharacter => "control character (\\u0000-\\u001F) found while parsing a string"
  | .keyNotString => "key must be a string"
  | .loneSurrogate => "lone leading surrogate in hex escape"
  | .unfinishedSurrogatePair => "unexpected end of hex escape"
  | .trailingComma => "trailing comma"
  | .trailingCharacters => "trailing characters"
  | .tooDeep => "recursion limit exceeded"
  | .data message => message

end Cause

/-- What kind of failure a cause is: the text ended too early, it is not JSON, or it is JSON that
says something else. -/
inductive Category where
  | unexpectedEnd
  | malformed
  | content
deriving DecidableEq

def Cause.category : Cause → Category
  | .endInList | .endInObject | .endInString | .endInValue => .unexpectedEnd
  | .data _ => .content
  | _ => .malformed

/-- Why reading stopped, and where: so many bytes after the start of the unread text. -/
structure Failure where
  cause : Cause
  unread : List Char
  past : Nat
deriving DecidableEq

namespace Failure

/-- The failure lies at the next byte, or at the end of the text. -/
def atNext (cause : Cause) (s : List Char) : Failure := ⟨cause, s, if s = [] then 0 else 1⟩

/-- The failure lies before the unread text. -/
def before (cause : Cause) (s : List Char) : Failure := ⟨cause, s, 0⟩

end Failure

/-- A line, and a column in it. -/
structure Position where
  line : Nat
  column : Nat
deriving DecidableEq

/-- The byte that ends a line. -/
def lineFeed : UInt8 := 0x0A

/-- The position after a beginning of a text. -/
def Position.after (read : Bytes) : Position where
  line := 1 + read.count lineFeed
  column := (read.reverse.takeWhile (· ≠ lineFeed)).length

/-- Why a whole text could not be read, with the position if the failure has one. -/
structure Error where
  cause : Cause
  position : Option Position
deriving DecidableEq

def Error.message (e : Error) : String :=
  match e.position with
  | none => e.cause.message
  | some p => e.cause.message ++ s!" at line {p.line} column {p.column}"

/-- A failure in reading a text, with its position. -/
def Failure.inText (text : String) (f : Failure) : Error where
  cause := f.cause
  position := some
    (.after ((utf8 text).take (byteCount text.toList - byteCount f.unread + f.past)))

end DrillPost.Json
