import DrillPost.Proofs.Binary64.Nearest

/-!
# The nearest magnitude is the closest

`Magnitude.IsNearest` says between which middles a number lies. That is what rounding to nearest,
ties to even, means among signed values: a value with the magnitude that is nearest to the size of a
number, and with the sign of the number, is `Binary64.IsClosest` to it. No finite value is closer,
and where another is as close the significand is even (`Binary64.isClosest_of_isNearest`).
-/

namespace DrillPost

/-! ### Distances -/

section Distances

variable {u a b : ℚ}

/-- A number is at least as close to the smaller of two numbers if it is not above their middle. -/
theorem abs_sub_le_iff_of_lt (h : a < b) : |u - a| ≤ |u - b| ↔ 2 * u ≤ a + b := by
  have hfactor : (u - b) ^ 2 - (u - a) ^ 2 = (b - a) * (a + b - 2 * u) := by ring
  rw [← sq_le_sq, ← sub_nonneg, hfactor, mul_nonneg_iff_of_pos_left (sub_pos.2 h), sub_nonneg]

theorem abs_sub_le_iff_of_gt (h : b < a) : |u - a| ≤ |u - b| ↔ a + b ≤ 2 * u := by
  have hfactor : (u - b) ^ 2 - (u - a) ^ 2 = (a - b) * (2 * u - (a + b)) := by ring
  rw [← sq_le_sq, ← sub_nonneg, hfactor, mul_nonneg_iff_of_pos_left (sub_pos.2 h), sub_nonneg]

end Distances

namespace Magnitude

variable {x y : Magnitude} {q : ℚ}

/-! ### Neighbours -/

/-- A larger magnitude is at least a step away. -/
theorem units_add_le (h : x.units < y.units) : (x.units : ℚ) + 2 ^ x.scale ≤ y.units := by
  have hp : (0 : ℚ) < 2 ^ x.scale := by positivity
  rw [x.units_cast, y.units_cast]
  rcases Nat.lt_trichotomy y.scale x.scale with hlt | heq | hgt
  · exact absurd (units_lt_of_scale_lt hlt) (by omega)
  · have hsig : x.significand < y.significand := by
      simp only [units, Nat.shiftLeft_eq, heq] at h
      exact Nat.lt_of_mul_lt_mul_right h
    have hsig : (x.significand : ℚ) + 1 ≤ y.significand := by exact_mod_cast hsig
    rw [heq]
    calc (x.significand : ℚ) * 2 ^ x.scale + 2 ^ x.scale = (x.significand + 1) * 2 ^ x.scale := by
          ring
      _ ≤ y.significand * 2 ^ x.scale := mul_le_mul_of_nonneg_right hsig hp.le
  · have hx : (x.significand : ℚ) + 1 ≤ 2 ^ 53 := by exact_mod_cast x.significand_lt
    have hy : (2 : ℚ) ^ 52 ≤ y.significand := by
      exact_mod_cast y.normal.resolve_right (by omega)
    calc (x.significand : ℚ) * 2 ^ x.scale + 2 ^ x.scale = (x.significand + 1) * 2 ^ x.scale := by
          ring
      _ ≤ 2 ^ 53 * 2 ^ x.scale := mul_le_mul_of_nonneg_right hx hp.le
      _ = 2 ^ 52 * 2 ^ (x.scale + 1) := by ring
      _ ≤ y.significand * 2 ^ y.scale :=
          mul_le_mul hy (pow_le_pow_right₀ (by norm_num) hgt) (by positivity) (by positivity)

/-- Whatever is larger than a magnitude is at least as far from the middle above it. -/
theorem upperMiddle_le (h : x.units < y.units) : 2 * x.upperMiddle ≤ x.units + y.units := by
  have hle := units_add_le h
  rw [upperMiddle]
  linarith

/-- Whatever is smaller than a magnitude is at least as far from the middle below it. -/
theorem le_lowerMiddle (h : y.units < x.units) : (x.units : ℚ) + y.units ≤ 2 * x.lowerMiddle := by
  have hle := units_add_le h
  rcases Nat.lt_trichotomy y.scale x.scale with hlt | heq | hgt
  · obtain ⟨k, hk⟩ := Nat.exists_eq_succ_of_ne_zero (show x.scale ≠ 0 by omega)
    have hp : (0 : ℚ) < 2 ^ k := by positivity
    -- Smaller scales end below the least number of fifty-three digits, by a step of the scale
    -- before.
    have hy : (y.units : ℚ) ≤ (2 ^ 53 - 1) * 2 ^ k := by
      have hsig : (y.significand : ℚ) ≤ 2 ^ 53 - 1 := by
        have : (y.significand : ℚ) + 1 ≤ 2 ^ 53 := by exact_mod_cast y.significand_lt
        linarith
      rw [y.units_cast]
      exact mul_le_mul hsig (pow_le_pow_right₀ (by norm_num) (by omega)) (by positivity)
        (by norm_num)
    by_cases hpower : x.significand = 0x10000000000000
    · obtain ⟨hlower, hx⟩ := lowerMiddle_of_power hpower hk
      rw [hlower, hx]
      linarith
    · have hnormal := x.normal.resolve_right (by omega)
      have hsig : (2 : ℚ) ^ 52 + 1 ≤ x.significand := by
        exact_mod_cast (show 2 ^ 52 + 1 ≤ x.significand by omega)
      have hx : (2 ^ 52 + 1) * (2 * 2 ^ k) ≤ (x.units : ℚ) := by
        have hpow : (2 : ℚ) ^ x.scale = 2 * 2 ^ k := by
          rw [hk, Nat.succ_eq_add_one, pow_succ, mul_comm]
        rw [x.units_cast, hpow]
        exact mul_le_mul_of_nonneg_right hsig (by positivity)
      rw [lowerMiddle, if_neg fun hno => hpower hno.1, hk, pow_succ]
      linarith
  · have hp : (0 : ℚ) < 2 ^ x.scale := by positivity
    rw [heq] at hle
    rw [lowerMiddle]
    split <;> linarith
  · exact absurd (units_lt_of_scale_lt hgt) (by omega)

/-- No magnitude is closer to a number than the one that is nearest to it, and another is as close
only if the nearest one is even. -/
theorem IsNearest.closest (h : x.IsNearest q) (y : Magnitude) :
    |q - x.toRat| ≤ |q - y.toRat| ∧
      (|q - y.toRat| = |q - x.toRat| → y = x ∨ x.significand % 2 = 0) := by
  have hU := unitsPerOne_pos
  have hlow := h.lowerMiddle_le
  have hup := h.le_upperMiddle
  -- Distances are compared in units.
  rw [← mul_le_mul_iff_left₀ hU, ← mul_left_inj' hU.ne', abs_sub_toRat_mul, abs_sub_toRat_mul]
  rcases Nat.lt_trichotomy x.units y.units with hlt | heq | hgt
  · have hmiddle := upperMiddle_le hlt
    have hcast : (x.units : ℚ) < y.units := by exact_mod_cast hlt
    refine ⟨(abs_sub_le_iff_of_lt hcast).2 (by linarith), fun htie => .inr ?_⟩
    have hge := (abs_sub_le_iff_of_gt hcast).1 htie.le
    exact h.even_of_eq (.inr (by linarith))
  · rw [eq_of_units_eq heq]
    exact ⟨le_rfl, fun _ => .inl rfl⟩
  · have hmiddle := le_lowerMiddle hgt
    have hcast : (y.units : ℚ) < x.units := by exact_mod_cast hgt
    refine ⟨(abs_sub_le_iff_of_gt hcast).2 (by linarith), fun htie => .inr ?_⟩
    have hle := (abs_sub_le_iff_of_lt hcast).1 htie.le
    exact h.even_of_eq (.inl (by linarith))

theorem toRat_nonneg (x : Magnitude) : 0 ≤ x.toRat :=
  div_nonneg (Nat.cast_nonneg _) unitsPerOne_pos.le

end Magnitude

namespace Binary64

/-! ### Signed values -/

/-- The number that a finite value is. -/
def toRat : Binary64 → ℚ
  | .finite negative x => if negative then -x.toRat else x.toRat
  | _ => 0

/-- No finite value is closer to the number, and another is as close only if this one is even. -/
def IsClosest (v : Binary64) (q : ℚ) : Prop :=
  ∃ negative x, v = .finite negative x ∧ ∀ other y,
    |q - v.toRat| ≤ |q - (finite other y).toRat| ∧
      (|q - (finite other y).toRat| = |q - v.toRat| → y = x ∨ x.significand % 2 = 0)

/-- A distance to a value does not depend on the sign that it shares. -/
theorem abs_signed_sub (negative : Bool) (r : ℚ) (x : Magnitude) :
    |(if negative then -r else r) - (finite negative x).toRat| = |r - x.toRat| := by
  cases negative
  · rfl
  · show |-r - -x.toRat| = _
    rw [neg_sub_neg, abs_sub_comm]

/-- Rounding the size of a number and giving it the sign of the number is rounding the number. -/
theorem isClosest_of_isNearest {x : Magnitude} {r : ℚ} (hr : 0 ≤ r) (h : x.IsNearest r)
    (negative : Bool) : (finite negative x).IsClosest (if negative then -r else r) := by
  refine ⟨negative, x, rfl, fun other y => ?_⟩
  rw [abs_signed_sub]
  by_cases hsign : other = negative
  · rw [hsign, abs_signed_sub]
    exact h.closest y
  · -- A value of the other sign is no closer than zero.
    have hother : |(if negative then -r else r) - (finite other y).toRat| = r + y.toRat := by
      rw [← abs_of_nonneg (add_nonneg hr y.toRat_nonneg)]
      cases negative <;> cases other
      · exact absurd rfl hsign
      · exact congrArg abs (sub_neg_eq_add r y.toRat)
      · exact (congrArg abs (neg_add' r y.toRat).symm).trans (abs_neg _)
      · exact absurd rfl hsign
    obtain ⟨hle, htie⟩ := h.closest .zero
    rw [Magnitude.toRat_zero, sub_zero, abs_of_nonneg hr] at hle htie
    rw [hother]
    refine ⟨by linarith [y.toRat_nonneg], fun heq => ?_⟩
    have hzero : y.toRat = 0 := by linarith [y.toRat_nonneg]
    rw [hzero, add_zero] at heq
    rw [Magnitude.eq_of_units_eq (y := .zero) (Magnitude.toRat_eq_zero_iff.1 hzero)]
    exact htie heq

end Binary64

end DrillPost
