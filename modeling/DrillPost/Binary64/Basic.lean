/-!
# Binary64 values

A `Magnitude` is a finite absolute value of the binary64 format, kept exactly: a significand of at
most 53 bits and a scale, counted from the least positive value. The fields make the pair unique, so
equality of magnitudes is equality of numbers (`Magnitude.eq_of_units_eq`). A `Binary64` is a signed
magnitude, an infinity or NaN; `Binary64.equal` and `Binary64.less` are the comparisons of the
arithmetic, for which the two zeros are equal and a NaN is unordered.
-/

namespace DrillPost

/-- A finite magnitude: `significand` times two to the power `scale - 1074`. -/
structure Magnitude where
  /-- The digits of the number in base two, at most fifty-three of them. -/
  significand : Nat
  /-- How often the least positive value is doubled. -/
  scale : Nat
  significand_lt : significand < 0x20000000000000
  scale_le : scale ≤ 2045
  /-- Only the least scale holds numbers of fewer than fifty-three digits. -/
  normal : 0x10000000000000 ≤ significand ∨ scale = 0
deriving DecidableEq

namespace Magnitude

/-- The number, counted in units of the least positive magnitude, two to the power `-1074`. -/
def units (x : Magnitude) : Nat := x.significand <<< x.scale

def zero : Magnitude := ⟨0, 0, by decide, by decide, .inr rfl⟩

instance : Inhabited Magnitude := ⟨zero⟩

@[simp] theorem units_zero : zero.units = 0 := rfl

/-- A larger scale holds only larger numbers. -/
theorem units_lt_of_scale_lt {x y : Magnitude} (h : x.scale < y.scale) : x.units < y.units := by
  have hy : 0x10000000000000 ≤ y.significand := by
    rcases y.normal with h' | h'
    · exact h'
    · omega
  have hpow : 2 ^ (x.scale + 1) ≤ 2 ^ y.scale := Nat.pow_le_pow_right (by decide) h
  unfold units
  rw [Nat.shiftLeft_eq, Nat.shiftLeft_eq]
  calc x.significand * 2 ^ x.scale < 0x20000000000000 * 2 ^ x.scale :=
        Nat.mul_lt_mul_of_pos_right x.significand_lt (Nat.two_pow_pos _)
    _ = 0x10000000000000 * 2 ^ (x.scale + 1) := by rw [Nat.pow_succ 2 x.scale]; omega
    _ ≤ y.significand * 2 ^ y.scale := Nat.mul_le_mul hy hpow

/-- Two magnitudes that denote the same number are the same magnitude. -/
theorem eq_of_units_eq {x y : Magnitude} (h : x.units = y.units) : x = y := by
  have hs : x.scale = y.scale := by
    rcases Nat.lt_trichotomy x.scale y.scale with hlt | heq | hgt
    · exact absurd h (Nat.ne_of_lt (units_lt_of_scale_lt hlt))
    · exact heq
    · exact absurd h.symm (Nat.ne_of_lt (units_lt_of_scale_lt hgt))
  have hm : x.significand = y.significand := by
    unfold units at h
    rw [hs, Nat.shiftLeft_eq, Nat.shiftLeft_eq] at h
    exact Nat.eq_of_mul_eq_mul_right (Nat.two_pow_pos _) h
  cases x; cases y; simp_all

end Magnitude

/-- A binary64 value; all NaNs are one. -/
inductive Binary64 where
  | nan
  | infinite (negative : Bool)
  | finite (negative : Bool) (magnitude : Magnitude)
deriving DecidableEq

namespace Binary64

instance : Inhabited Binary64 := ⟨.finite false .zero⟩

/-- Neither an infinity nor NaN. -/
def isFinite : Binary64 → Bool
  | .finite .. => true
  | _ => false

/-- Zero of either sign. -/
def isZero : Binary64 → Bool
  | .finite _ x => x.significand == 0
  | _ => false

/-- The same magnitude with the other sign. -/
def neg : Binary64 → Binary64
  | .nan => .nan
  | .infinite s => .infinite (!s)
  | .finite s x => .finite (!s) x

/-- The signed number of units of a sign and a magnitude. -/
def signedUnits (negative : Bool) (x : Magnitude) : Int :=
  if negative then -(x.units : Int) else x.units

/-- Equality as numbers: the zeros are equal whatever their signs, and a NaN equals nothing. -/
def equal : Binary64 → Binary64 → Bool
  | .infinite s, .infinite t => s == t
  | .finite s x, .finite t y => signedUnits s x == signedUnits t y
  | _, _ => false

/-- The strict order of the number line, the infinities at its ends; a NaN is nowhere on it. -/
def less : Binary64 → Binary64 → Bool
  | .infinite s, .infinite t => s && !t
  | .infinite s, .finite .. => s
  | .finite .., .infinite t => !t
  | .finite s x, .finite t y => signedUnits s x < signedUnits t y
  | _, _ => false

def zero : Binary64 := .finite false .zero

/-- The value of an interchange word: a sign bit, eleven exponent bits, fifty-two fraction bits. -/
def ofBits (word : UInt64) : Binary64 :=
  let fraction := word.toNat % 0x10000000000000
  let exponent := word.toNat / 0x10000000000000 % 2048
  let negative := word.toNat / 0x8000000000000000 == 1
  have hf : fraction < 0x10000000000000 := Nat.mod_lt _ (by decide)
  have he : exponent < 2048 := Nat.mod_lt _ (by decide)
  -- The largest exponent stands for what is no number, the least for numbers without a leading one.
  if hm : exponent = 2047 then
    if fraction = 0 then .infinite negative else .nan
  else if exponent = 0 then
    .finite negative ⟨fraction, 0, by omega, by omega, .inr rfl⟩
  else
    .finite negative
      ⟨0x10000000000000 + fraction, exponent - 1, by omega, by omega, .inl (by omega)⟩

@[simp] theorem isFinite_finite (s : Bool) (x : Magnitude) : (finite s x).isFinite = true := rfl

theorem equal_finite (s t : Bool) (x y : Magnitude) :
    (finite s x).equal (finite t y) = (signedUnits s x == signedUnits t y) := rfl

/-- Every value but NaN equals itself. -/
theorem equal_self {x : Binary64} (h : x ≠ .nan) : x.equal x = true := by
  cases x <;> simp_all [equal]

theorem equal_comm (x y : Binary64) : x.equal y = y.equal x := by
  cases x <;> cases y <;> simp [equal, Bool.beq_comm]

end Binary64

end DrillPost
