import DrillPost.Decimal.Shortest

/-!
# Written numbers

`Decimal.positional` writes a decimal without an exponent and `Decimal.scientific` with one. A
`Layout` holds what the texts of binary64 values differ in from format to format: which way ties
go, whether a whole number keeps a fraction, where an exponent begins, and the names of the values
that have no digits. `Binary64.write` writes the shortest decimal of a value in a layout.
-/

namespace DrillPost

namespace Decimal

def digits (d : Decimal) : List Char := Nat.toDigits 10 d.coefficient

/-- The exponent of the leading digit. -/
def leadingExponent (d : Decimal) : Int := d.exponent + d.digits.length - 1

/-- Writes the number without an exponent, with a point only before digits that need it. -/
def positional (d : Decimal) : List Char :=
  if 0 ≤ d.exponent then d.digits ++ List.replicate d.exponent.toNat '0'
  else
    let places := (-d.exponent).toNat
    if places < d.digits.length then
      d.digits.take (d.digits.length - places) ++
        '.' :: d.digits.drop (d.digits.length - places)
    else '0' :: '.' :: (List.replicate (places - d.digits.length) '0' ++ d.digits)

/-- Writes the number as its digits, a point after the first, and a signed exponent. -/
def scientific (d : Decimal) : List Char :=
  let mantissa := match d.digits with
    | [] => []
    | [c] => [c]
    | c :: r => c :: '.' :: r
  let exponent := d.leadingExponent
  mantissa ++ 'e' :: (if exponent < 0 then '-' else '+') :: Nat.toDigits 10 exponent.natAbs

end Decimal

/-- How a format writes binary64 values. -/
structure Layout where
  tie : Tie
  /-- Whether a whole number without an exponent ends in `.0`. -/
  keepsFraction : Bool
  /-- Which exponents of the leading digit are written out as digits. -/
  isPositional : Int → Bool
  nan : String
  infinity : (negative : Bool) → String

namespace Layout

/-- Writes a decimal in the layout. -/
def decimal (l : Layout) (d : Decimal) : List Char :=
  if l.isPositional d.leadingExponent then
    let text := d.positional
    if l.keepsFraction ∧ '.' ∉ text then text ++ ['.', '0'] else text
  else d.scientific

/-- Numbers in messages: never an exponent, no fraction that is not there. -/
def message : Layout where
  tie := .up
  keepsFraction := false
  isPositional _ := true
  nan := "NaN"
  infinity negative := if negative then "-inf" else "inf"

end Layout

namespace Binary64

/-- Writes the shortest decimal that reads back as the value. -/
def write (l : Layout) : Binary64 → String
  | .nan => l.nan
  | .infinite negative => l.infinity negative
  | .finite negative x =>
    String.ofList ((if negative then ['-'] else []) ++ l.decimal (x.shortest l.tie))

/-- The text of a value in a message. -/
def text (x : Binary64) : String := x.write .message

end Binary64

end DrillPost
