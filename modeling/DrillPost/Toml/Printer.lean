import DrillPost.Decimal.Layout

/-!
# Writing values

A text is written in the first form that can hold it without escapes: between double quotes, between
single quotes, between three double quotes, between three single quotes. A text that no form can
hold that way is written with escapes. A number always has a fraction and never an exponent.
-/

namespace DrillPost.Toml

def layout : Layout where
  tie := .up
  keepsFraction := true
  isPositional _ := true
  nan := "nan"
  infinity negative := if negative then "-inf" else "inf"

/-- A control character other than a tab or a newline. -/
def isControl (c : Char) : Bool := (c.toNat < 32 && c ≠ '\t' && c ≠ '\n') || c.toNat == 127

/-- Whether a character comes three times in a row. -/
def hasRun (c : Char) : List Char → Bool
  | a :: b :: d :: rest => (a == c && b == c && d == c) || hasRun c (b :: d :: rest)
  | _ => false

/-- A code point of four hexadecimal digits in upper case. -/
def codePoint (c : Char) : List Char :=
  let digits := (Nat.toDigits 16 c.toNat).map Char.toUpper
  '\\' :: 'u' :: (List.replicate (4 - digits.length) '0' ++ digits)

/-- How a character other than a double quote stands in a basic string. Newlines stand as they are
if the string may have several lines. -/
def escape (isMultiLine : Bool) (c : Char) : List Char :=
  if c = '\x08' then ['\\', 'b']
  else if c = '\t' then ['\\', 't']
  else if c = '\n' then if isMultiLine then ['\n'] else ['\\', 'n']
  else if c = '\x0c' then ['\\', 'f']
  else if c = '\r' then ['\\', 'r']
  else if c = '\\' then ['\\', '\\']
  else if isControl c then codePoint c
  else [c]

/-- The characters of a basic string on one line. -/
def escapeLine (s : List Char) : List Char :=
  s.flatMap fun c => if c = '"' then ['\\', '"'] else escape false c

/-- The characters of a basic string over several lines, after `quotes` double quotes. Every third
of the double quotes in a row is escaped. -/
def escapeLines (quotes : Nat) : List Char → List Char
  | [] => []
  | c :: rest =>
    if c = '"' then
      if quotes = 2 then '\\' :: '"' :: escapeLines 0 rest else '"' :: escapeLines (quotes + 1) rest
    else escape true c ++ escapeLines 0 rest

/-- The forms of a string. -/
inductive StringForm where
  | basic
  | literal
  | basicLines
  | literalLines
deriving DecidableEq

/-- The form that a text is written in. -/
def formOf (s : List Char) : StringForm :=
  if '\\' ∉ s ∧ '"' ∉ s ∧ '\n' ∉ s ∧ !s.any isControl then .basic
  else if '\'' ∉ s ∧ '\n' ∉ s ∧ !s.any isControl then .literal
  else if '\\' ∉ s ∧ !s.any isControl ∧ !hasRun '"' s then .basicLines
  else if !hasRun '\'' s ∧ !s.any isControl then .literalLines
  else if '\n' ∈ s then .basicLines
  else .basic

/-- What follows the opening quotes of a string over several lines. -/
def firstLine (s : List Char) : List Char := if '\n' ∈ s then ['\n'] else []

def writeText (s : List Char) : List Char :=
  match formOf s with
  | .basic => '"' :: (escapeLine s ++ ['"'])
  | .literal => '\'' :: (s ++ ['\''])
  | .basicLines => ['"', '"', '"'] ++ firstLine s ++ escapeLines 0 s ++ ['"', '"', '"']
  | .literalLines => ['\'', '\'', '\''] ++ firstLine s ++ s ++ ['\'', '\'', '\'']

end DrillPost.Toml
