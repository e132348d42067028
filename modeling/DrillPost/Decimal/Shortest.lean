import DrillPost.Decimal.Basic

/-!
# Shortest decimals

`shortest` is the decimal with the fewest digits that reads back as a given magnitude and, among
those, the nearest to it. The decimals of `n` digits around a number form a grid; if any point of
the grid reads back as the number, one of the number's two neighbours on the grid does, because
rounding is monotone. So only the two neighbours are tried, for one digit, two digits and so on;
seventeen digits always suffice.
-/

namespace DrillPost

/-- Which of two equally near decimals is taken. -/
inductive Tie where
  | up
  | even
deriving DecidableEq

namespace Decimal

/-- The place `p` of the leading digit of `num / den`: `10 ^ (p - 1) ≤ num / den < 10 ^ p`. -/
def leadingPlace (num den : Nat) : Int :=
  -- Below one, `(den - 1) / num` has one digit more than there are zeros after the point.
  if den ≤ num then digitCount (num / den) else 1 - (digitCount ((den - 1) / num) : Int)

/-- How many whole steps of `10 ^ exponent` there are in `num / den`. -/
def stepsIn (num den : Nat) (exponent : Int) : Nat :=
  num * powerOfTen (-exponent).toNat / (den * powerOfTen exponent.toNat)

/-- Compares `num / den` with the middle between `steps` and `steps + 1` steps of `10 ^ exponent`.
-/
def compareMiddle (num den steps : Nat) (exponent : Int) : Ordering :=
  compare (2 * (num * powerOfTen (-exponent).toNat))
    ((2 * steps + 1) * (den * powerOfTen exponent.toNat))

end Decimal

namespace Magnitude

/-- The denominator of the number of units. -/
def unitsPerOne : Nat := 1 <<< 1074

/-- Whether a decimal reads back as the magnitude. -/
def isReadFrom (x : Magnitude) (d : Decimal) : Bool := d.nearest? == some x

/-- The nearer of the two neighbours of `x` on the grid of `10 ^ exponent`, `lower` being the one
below. -/
def nearer (tie : Tie) (x : Magnitude) (lower : Decimal) : Decimal :=
  let upper : Decimal := ⟨lower.coefficient + 1, lower.exponent⟩
  match Decimal.compareMiddle x.units unitsPerOne lower.coefficient lower.exponent with
  | .lt => lower
  | .gt => upper
  | .eq =>
    match tie with
    | .up => upper
    | .even => if lower.coefficient % 2 = 0 then lower else upper

/-- The point of the grid of `10 ^ exponent` that reads back as `x` and is nearest to it, if the
grid has one. -/
def onGrid? (tie : Tie) (x : Magnitude) (exponent : Int) : Option Decimal :=
  let lower : Decimal := ⟨Decimal.stepsIn x.units unitsPerOne exponent, exponent⟩
  let upper : Decimal := ⟨lower.coefficient + 1, exponent⟩
  match x.isReadFrom lower, x.isReadFrom upper with
  | true, true => some (nearer tie x lower)
  | true, false => some lower
  | false, true => some upper
  | false, false => none

/-- The first grid that has a point reading back as `x`, from the one of `digits` digits on, among
`grids` of them; without one, the neighbour below on the last grid. -/
def firstOnGrids (tie : Tie) (x : Magnitude) : (grids digits : Nat) → Decimal
  | 0, digits =>
    let exponent := Decimal.leadingPlace x.units unitsPerOne - digits
    ⟨Decimal.stepsIn x.units unitsPerOne exponent, exponent⟩
  | grids + 1, digits =>
    match onGrid? tie x (Decimal.leadingPlace x.units unitsPerOne - digits) with
    | some d => d
    | none => firstOnGrids tie x grids (digits + 1)

/-- The decimal of fewest digits that reads back as `x`, and of those the nearest to it. -/
def shortest (tie : Tie) (x : Magnitude) : Decimal :=
  if x.units = 0 then ⟨0, 0⟩ else (firstOnGrids tie x 17 1).trim

end Magnitude

end DrillPost
