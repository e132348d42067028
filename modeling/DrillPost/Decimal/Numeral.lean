import DrillPost.Decimal.Basic

/-!
# Numerals

A `Numeral` is an unsigned decimal as it is written: the digits before the point, the digits after
it and the exponent. `Numeral.ofText?` reads the plain grammar, in which either group of digits may
be missing but not both, and the exponent may be left out. `Binary64.ofText` reads a whole text as a
value: a sign, then a numeral or the name of a value that has no numeral.
-/

namespace DrillPost

/-- The value of a run of decimal digits. -/
def digitsValue (digits : List Char) : Nat := Nat.ofDigitChars 10 digits 0

/-- An unsigned decimal as written. -/
structure Numeral where
  /-- The digits before the point. -/
  whole : List Char
  /-- The digits after the point. -/
  fraction : List Char
  exponent : Int
deriving DecidableEq

namespace Numeral

/-- The number that a numeral denotes. -/
def toDecimal (n : Numeral) : Decimal :=
  ⟨digitsValue (n.whole ++ n.fraction), n.exponent - n.fraction.length⟩

/-- A nonempty run of digits that fills the text. -/
def digits? (s : List Char) : Option Nat :=
  if s ≠ [] ∧ s.all Char.isDigit then some (digitsValue s) else none

/-- What may follow the digits: nothing, or the letter `e` and a number that may have a sign. -/
def exponent? : List Char → Option Int
  | [] => some 0
  | c :: r =>
    if c = 'e' ∨ c = 'E' then
      match r with
      | '+' :: t => (digits? t).map Int.ofNat
      | '-' :: t => (digits? t).map fun n => -(Int.ofNat n)
      | t => (digits? t).map Int.ofNat
    else none

/-- Reads a numeral that fills the text. -/
def ofText? (s : List Char) : Option Numeral :=
  let whole := s.takeWhile Char.isDigit
  match s.dropWhile Char.isDigit with
  | '.' :: r =>
    let fraction := r.takeWhile Char.isDigit
    if whole = [] ∧ fraction = [] then none
    else (exponent? (r.dropWhile Char.isDigit)).map (⟨whole, fraction, ·⟩)
  | r => if whole = [] then none else (exponent? r).map (⟨whole, [], ·⟩)

end Numeral

/-- Why a text is not a number. -/
inductive NumberError where
  | empty
  | malformed
deriving DecidableEq

namespace Binary64

/-- Reads a text without a sign: a numeral, or the name of an infinity or of NaN in any case. -/
def ofUnsignedText? (negative : Bool) (s : List Char) : Option Binary64 :=
  match Numeral.ofText? s with
  | some n => some (n.toDecimal.toBinary64 negative)
  | none =>
    let name := s.map Char.toLower
    if name = "inf".toList ∨ name = "infinity".toList then some (.infinite negative)
    else if name = "nan".toList then some .nan
    else none

/-- Reads a text as the value nearest to the number it denotes. -/
def ofText (s : String) : Except NumberError Binary64 :=
  match s.toList with
  | [] => .error .empty
  | '+' :: r => (ofUnsignedText? false r).elim (.error .malformed) .ok
  | '-' :: r => (ofUnsignedText? true r).elim (.error .malformed) .ok
  | r => (ofUnsignedText? false r).elim (.error .malformed) .ok

end Binary64

end DrillPost
