import DrillPost.Binary64.Rounding

/-!
# Decimals

A `Decimal` is a coefficient times a power of ten. `Decimal.nearest?` is the magnitude nearest to
it: `none` when that is beyond the largest. Exponents far outside the range of binary64 are
answered without computing the power.
-/

namespace DrillPost

def powerOfTen (n : Nat) : Nat := Nat.pow 10 n

theorem powerOfTen_pos (n : Nat) : 0 < powerOfTen n := Nat.pow_pos (by decide)

/-- The number that is `coefficient` times ten to the power `exponent`. -/
structure Decimal where
  coefficient : Nat
  exponent : Int
deriving DecidableEq, Inhabited

namespace Decimal

/-- The numerator of the number as a ratio. -/
def num (d : Decimal) : Nat := d.coefficient * powerOfTen d.exponent.toNat

/-- The denominator of the number as a ratio, a power of ten. -/
def den (d : Decimal) : Nat := powerOfTen (-d.exponent).toNat

theorem den_pos (d : Decimal) : 0 < d.den := powerOfTen_pos _

/-- The number of digits of a natural number. -/
def digitCount (n : Nat) : Nat := (Nat.toDigits 10 n).length

theorem digitCount_le_iff {n k : Nat} (h : 0 < k) : digitCount n ≤ k ↔ n < powerOfTen k :=
  Nat.length_toDigits_le_iff (by decide) h

theorem digitCount_pos (n : Nat) : 0 < digitCount n := Nat.length_toDigits_pos

/-- The magnitude nearest to the number, ties to even; `none` beyond the largest. Every number with
a digit in the four-hundredth place or above is beyond it, and every number below the
four-hundredth place after the point is nearest to zero. -/
def nearest? (d : Decimal) : Option Magnitude :=
  if d.coefficient = 0 then some .zero
  else if 400 < d.exponent then none
  else if d.exponent + digitCount d.coefficient < -400 then some .zero
  else Magnitude.nearest? d.num d.den

/-- The value nearest to the number with the given sign, an infinity beyond the largest value. -/
def toBinary64 (negative : Bool) (d : Decimal) : Binary64 :=
  match d.nearest? with
  | some x => .finite negative x
  | none => .infinite negative

/-- The same number with no zero at the end of its coefficient. -/
def trim (d : Decimal) : Decimal :=
  if h : d.coefficient ≠ 0 ∧ d.coefficient % 10 = 0 then
    trim ⟨d.coefficient / 10, d.exponent + 1⟩
  else d
termination_by d.coefficient
decreasing_by omega

end Decimal

end DrillPost
