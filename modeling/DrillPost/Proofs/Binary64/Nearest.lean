import DrillPost.Decimal.Shortest
import Mathlib.Algebra.Order.Field.Power
import Mathlib.Tactic.FieldSimp
import Mathlib.Tactic.Linarith
import Mathlib.Tactic.NormNum
import Mathlib.Tactic.Positivity
import Mathlib.Tactic.Ring

/-!
# Rounding is to the nearest magnitude

`Magnitude.toRat` is the number that a magnitude is. A magnitude is nearest to a number,
`Magnitude.IsNearest`, if the number lies between the middles to the two neighbouring magnitudes; a
middle belongs to the neighbour whose significand is even.

* `nearest?_eq_some_iff`: `Magnitude.nearest?` finds the magnitude that is nearest, if there is one.
* `isNearest_of_between`: the numbers that round to a magnitude have no gaps.
* `isNearest_of_abs_lt` and `abs_sub_le_of_isNearest`: how close is close enough, and how close it
  must be.
* `exists_units_eq`: a number of fewer than fifty-four binary digits is a magnitude.
-/

namespace DrillPost

/-! ### Rounding to a natural number -/

/-- A ratio is rounded by at most one half, and by one half only to an even number. -/
theorem roundRatio_spec (num : Nat) {den : Nat} (hden : 0 < den) :
    (roundRatio num den : ℚ) - 1 / 2 ≤ num / den ∧ (num : ℚ) / den ≤ roundRatio num den + 1 / 2 ∧
      ((num : ℚ) / den = roundRatio num den - 1 / 2 ∨ (num : ℚ) / den = roundRatio num den + 1 / 2 →
        roundRatio num den % 2 = 0) := by
  have hd : (0 : ℚ) < den := by exact_mod_cast hden
  have hlt : num % den < den := Nat.mod_lt _ hden
  have hnum : (num : ℚ) / den = (num / den : Nat) + (num % den : Nat) / den := by
    rw [div_eq_iff hd.ne', add_mul, div_mul_cancel₀ _ hd.ne']
    exact_mod_cast (Nat.div_add_mod' num den).symm
  have hrest : (0 : ℚ) ≤ (num % den : Nat) / den := by positivity
  rw [hnum]
  unfold roundRatio
  split
  · next h =>
    have hle : ((num % den : Nat) : ℚ) / den ≤ 1 / 2 := by
      rw [div_le_div_iff₀ hd (by norm_num)]
      have : num % den * 2 ≤ 1 * den := by omega
      exact_mod_cast this
    refine ⟨by linarith, by linarith, ?_⟩
    rintro (heq | heq)
    · linarith
    · have hhalf : ((num % den : Nat) : ℚ) / den = 1 / 2 := by linarith
      rw [div_eq_div_iff hd.ne' (by norm_num)] at hhalf
      have : num % den * 2 = 1 * den := by exact_mod_cast hhalf
      omega
  · next h =>
    have hle : (1 : ℚ) / 2 ≤ ((num % den : Nat) : ℚ) / den := by
      rw [div_le_div_iff₀ (by norm_num) hd]
      have : 1 * den ≤ num % den * 2 := by omega
      exact_mod_cast this
    have hlt' : ((num % den : Nat) : ℚ) / den < 1 := by
      rw [div_lt_one hd]
      exact_mod_cast hlt
    push_cast
    refine ⟨by linarith, by linarith, ?_⟩
    rintro (heq | heq)
    · have hhalf : ((num % den : Nat) : ℚ) / den = 1 / 2 := by linarith
      rw [div_eq_div_iff hd.ne' (by norm_num)] at hhalf
      have : num % den * 2 = 1 * den := by exact_mod_cast hhalf
      omega
    · linarith

/-- Only one natural number is what a ratio is rounded to. -/
theorem roundRatio_eq {num den r : Nat} (hden : 0 < den) (hlower : (r : ℚ) - 1 / 2 ≤ num / den)
    (hupper : (num : ℚ) / den ≤ r + 1 / 2)
    (heven : (num : ℚ) / den = r - 1 / 2 ∨ (num : ℚ) / den = r + 1 / 2 → r % 2 = 0) :
    roundRatio num den = r := by
  obtain ⟨hl, hu, he⟩ := roundRatio_spec num hden
  set k := roundRatio num den
  have h1 : k ≤ r + 1 := by
    have : (k : ℚ) ≤ r + 1 := by linarith
    exact_mod_cast this
  have h2 : r ≤ k + 1 := by
    have : (r : ℚ) ≤ k + 1 := by linarith
    exact_mod_cast this
  rcases Nat.lt_trichotomy k r with hlt | heq | hgt
  · -- Two neighbours share only their middle, and one of them is odd.
    have hr : (r : ℚ) = k + 1 := by exact_mod_cast (show r = k + 1 by omega)
    have := he (.inr (by linarith))
    have := heven (.inl (by linarith))
    omega
  · exact heq
  · have hk : (k : ℚ) = r + 1 := by exact_mod_cast (show k = r + 1 by omega)
    have := he (.inl (by linarith))
    have := heven (.inr (by linarith))
    omega

/-- The scale of a number of units is determined by the power of two below it. -/
theorem scaleFor_eq {n k : Nat} (hlt : n < 2 ^ (53 + k)) (hle : k = 0 ∨ 2 ^ (52 + k) ≤ n) :
    scaleFor n = k := by
  unfold scaleFor
  rcases hle with rfl | hle
  · by_cases h0 : n = 0
    · simp [h0]
    · have := (Nat.log2_lt h0).2 hlt
      omega
  · have h0 : n ≠ 0 := by
      have := Nat.two_pow_pos (52 + k)
      omega
    have h1 := (Nat.log2_lt h0).2 hlt
    have h2 := (Nat.le_log2 h0).2 hle
    omega

namespace Magnitude

/-! ### Magnitudes as numbers -/

theorem shiftLeft_eq_mul_unitsPerOne (n : Nat) : n <<< 1074 = n * unitsPerOne :=
  (Nat.shiftLeft_eq n 1074).trans (congrArg (n * ·) (Nat.one_shiftLeft 1074).symm)

theorem unitsPerOne_pos : (0 : ℚ) < unitsPerOne :=
  Nat.cast_pos.2 (lt_of_lt_of_eq (Nat.two_pow_pos 1074) (Nat.one_shiftLeft 1074).symm)

theorem shiftLeft_cast (m n : Nat) : ((m <<< n : Nat) : ℚ) = m * 2 ^ n := by
  rw [Nat.shiftLeft_eq]
  push_cast
  rfl

theorem unitsPerOne_eq : (unitsPerOne : ℚ) = 2 ^ 1074 := by
  rw [unitsPerOne, shiftLeft_cast, Nat.cast_one, one_mul]

def toRat (x : Magnitude) : ℚ := x.units / unitsPerOne

theorem toRat_mul_unitsPerOne (x : Magnitude) : x.toRat * unitsPerOne = x.units :=
  div_mul_cancel₀ _ unitsPerOne_pos.ne'

@[simp] theorem toRat_zero : zero.toRat = 0 := by simp [toRat]

theorem units_cast (x : Magnitude) : (x.units : ℚ) = x.significand * 2 ^ x.scale :=
  shiftLeft_cast _ _

theorem toRat_eq_zero_iff {x : Magnitude} : x.toRat = 0 ↔ x.units = 0 := by
  rw [toRat, div_eq_zero_iff]
  simp [unitsPerOne_pos.ne']

/-! ### What rounds to a magnitude -/

/-- The middle between the magnitude and the next one above, in units. -/
def upperMiddle (x : Magnitude) : ℚ := x.units + 2 ^ x.scale / 2

/-- The middle between the magnitude and the next one below, in units. Below a power of two the
steps are half as long. -/
def lowerMiddle (x : Magnitude) : ℚ :=
  x.units - (if x.significand = 0x10000000000000 ∧ x.scale ≠ 0 then 2 ^ x.scale / 4
    else 2 ^ x.scale / 2)

/-- No other magnitude is nearer to the number, and of two that are equally near this one has the
even significand. -/
structure IsNearest (x : Magnitude) (q : ℚ) : Prop where
  lowerMiddle_le : x.lowerMiddle ≤ q * unitsPerOne
  le_upperMiddle : q * unitsPerOne ≤ x.upperMiddle
  even_of_eq : q * unitsPerOne = x.lowerMiddle ∨ q * unitsPerOne = x.upperMiddle →
    x.significand % 2 = 0

variable {num den : Nat} {x : Magnitude} {q : ℚ}

theorem shiftLeft_div_shiftLeft (num den k : Nat) :
    ((num <<< 1074 : Nat) : ℚ) / (den <<< k : Nat) = num / den * unitsPerOne / 2 ^ k := by
  rw [shiftLeft_eq_mul_unitsPerOne, Nat.shiftLeft_eq]
  push_cast
  rw [div_mul_eq_mul_div, div_div]

theorem shiftLeft_div_lt_iff (hden : 0 < den) {bound : Nat} :
    (num <<< 1074) / den < bound ↔ (num : ℚ) / den * unitsPerOne < bound := by
  have hd : (0 : ℚ) < den := by exact_mod_cast hden
  rw [Nat.div_lt_iff_lt_mul hden, div_mul_eq_mul_div, div_lt_iff₀ hd,
    shiftLeft_eq_mul_unitsPerOne]
  norm_cast

/-- The scale found for a ratio is the one at which it has fifty-three digits. -/
theorem scaleOf_eq (hden : 0 < den) {k : Nat} (hlt : (num : ℚ) / den * unitsPerOne < 2 ^ (53 + k))
    (hle : k = 0 ∨ 2 ^ (52 + k) ≤ (num : ℚ) / den * unitsPerOne) : scaleOf num den = k := by
  refine scaleFor_eq ?_ (hle.imp_right fun hle => ?_)
  · rw [shiftLeft_div_lt_iff hden]
    push_cast
    exact hlt
  · rw [← Nat.not_lt, shiftLeft_div_lt_iff hden]
    push_cast
    exact not_lt.2 hle

theorem le_of_scaleOf_ne_zero (num : Nat) (hden : 0 < den) (h : scaleOf num den ≠ 0) :
    2 ^ (52 + scaleOf num den) ≤ (num : ℚ) / den * unitsPerOne := by
  have hle := le_shiftRight_scaleFor h
  rw [Nat.shiftRight_eq_div_pow, Nat.le_div_iff_mul_le (Nat.two_pow_pos _),
    show 0x10000000000000 = 2 ^ 52 from rfl, ← Nat.pow_add] at hle
  rw [← Nat.not_lt, shiftLeft_div_lt_iff hden] at hle
  push_cast at hle
  exact not_lt.1 hle

theorem lt_of_scaleOf (num : Nat) (hden : 0 < den) :
    (num : ℚ) / den * unitsPerOne < 2 ^ (53 + scaleOf num den) := by
  have hlt := shiftRight_scaleFor_lt ((num <<< 1074) / den)
  rw [Nat.shiftRight_eq_div_pow, Nat.div_lt_iff_lt_mul (Nat.two_pow_pos _),
    show 0x20000000000000 = 2 ^ 53 from rfl, ← Nat.pow_add, shiftLeft_div_lt_iff hden] at hlt
  push_cast at hlt
  exact hlt

/-- What is nearest at a scale is nearest among all magnitudes, as long as it is not a power of two
that lies above the number. -/
theorem isNearest_of_steps {t : ℚ} (ht : q * unitsPerOne = t * 2 ^ x.scale)
    (hlower : (x.significand : ℚ) - 1 / 2 ≤ t) (hupper : t ≤ x.significand + 1 / 2)
    (heven : t = x.significand - 1 / 2 ∨ t = x.significand + 1 / 2 → x.significand % 2 = 0)
    (hpower : x.significand = 0x10000000000000 → x.scale ≠ 0 → 0x10000000000000 ≤ t) :
    x.IsNearest q := by
  have hp : (0 : ℚ) < 2 ^ x.scale := by positivity
  have hu := x.units_cast
  -- Both middles are so many steps.
  have hup : x.upperMiddle = (x.significand + 1 / 2) * 2 ^ x.scale := by
    rw [upperMiddle, hu]; ring
  have heven_of_upper : q * unitsPerOne = x.upperMiddle → x.significand % 2 = 0 := by
    intro h
    rw [ht, hup] at h
    exact heven (.inr (mul_right_cancel₀ hp.ne' h))
  have hle_upper : q * unitsPerOne ≤ x.upperMiddle := by
    rw [ht, hup]
    exact mul_le_mul_of_nonneg_right hupper hp.le
  by_cases hx : x.significand = 0x10000000000000 ∧ x.scale ≠ 0
  · have hlow : x.lowerMiddle < t * 2 ^ x.scale := by
      have h1 : (0x10000000000000 : ℚ) * 2 ^ x.scale ≤ t * 2 ^ x.scale :=
        mul_le_mul_of_nonneg_right (hpower hx.1 hx.2) hp.le
      rw [lowerMiddle, if_pos hx, hu, hx.1]
      push_cast
      linarith
    refine ⟨by rw [ht]; exact hlow.le, hle_upper, ?_⟩
    rintro (h | h)
    · rw [ht] at h
      exact absurd h hlow.ne'
    · exact heven_of_upper h
  · have hlow : x.lowerMiddle = (x.significand - 1 / 2) * 2 ^ x.scale := by
      rw [lowerMiddle, if_neg hx, hu]; ring
    refine ⟨?_, hle_upper, ?_⟩
    · rw [ht, hlow]
      exact mul_le_mul_of_nonneg_right hlower hp.le
    · rintro (h | h)
      · rw [ht, hlow] at h
        exact heven (.inl (mul_right_cancel₀ hp.ne' h))
      · exact heven_of_upper h

/-- A number that is not below the power of two of the scale, or that is at the least scale, is
measured in the steps of that scale. -/
theorem IsNearest.steps (h : x.IsNearest q) {t : ℚ} (ht : q * unitsPerOne = t * 2 ^ x.scale)
    (hle : x.scale = 0 ∨ 0x10000000000000 ≤ t) :
    (x.significand : ℚ) - 1 / 2 ≤ t ∧ t ≤ x.significand + 1 / 2 ∧
      (t = x.significand - 1 / 2 ∨ t = x.significand + 1 / 2 → x.significand % 2 = 0) := by
  have hp : (0 : ℚ) < 2 ^ x.scale := by positivity
  have hu := x.units_cast
  have hup : x.upperMiddle = (x.significand + 1 / 2) * 2 ^ x.scale := by
    rw [upperMiddle, hu]; ring
  have h1 : t ≤ x.significand + 1 / 2 := by
    have := h.le_upperMiddle
    rw [ht, hup] at this
    exact le_of_mul_le_mul_right this hp
  have h2 : t = x.significand + 1 / 2 → x.significand % 2 = 0 := by
    intro heq
    exact h.even_of_eq (.inr (by rw [ht, hup, heq]))
  by_cases hx : x.significand = 0x10000000000000 ∧ x.scale ≠ 0
  · have hsig : (x.significand : ℚ) = 0x10000000000000 := by exact_mod_cast hx.1
    have h3 : (x.significand : ℚ) ≤ t := by
      rw [hsig]
      exact hle.resolve_left hx.2
    refine ⟨by linarith, h1, ?_⟩
    rintro (heq | heq)
    · linarith
    · exact h2 heq
  · have hlow : x.lowerMiddle = (x.significand - 1 / 2) * 2 ^ x.scale := by
      rw [lowerMiddle, if_neg hx, hu]; ring
    refine ⟨?_, h1, ?_⟩
    · have := h.lowerMiddle_le
      rw [ht, hlow] at this
      exact le_of_mul_le_mul_right this hp
    · rintro (heq | heq)
      · exact h.even_of_eq (.inl (by rw [ht, hlow, heq]))
      · exact h2 heq

/-- Below a power of two the steps are those of the scale before. -/
theorem lowerMiddle_of_power {k : Nat} (hsig : x.significand = 0x10000000000000)
    (hscale : x.scale = k + 1) :
    x.lowerMiddle = (0x20000000000000 - 1 / 2) * 2 ^ k ∧
      (x.units : ℚ) = 0x20000000000000 * 2 ^ k := by
  have hu : (x.units : ℚ) = 0x20000000000000 * 2 ^ k := by
    rw [x.units_cast, hsig, hscale, pow_succ]
    push_cast
    ring
  refine ⟨?_, hu⟩
  rw [lowerMiddle, if_pos ⟨hsig, by omega⟩, hu, hscale, pow_succ]
  ring

/-- What `nearest?` finds is nearest. -/
theorem isNearest_of_nearest? (hden : 0 < den) (h : nearest? num den = some x) :
    x.IsNearest (num / den) := by
  have hstep : 0 < den <<< scaleOf num den := by
    rw [Nat.shiftLeft_eq]
    exact Nat.mul_pos hden (Nat.two_pow_pos _)
  have hspec := roundRatio_spec (num <<< 1074) hstep
  rw [shiftLeft_div_shiftLeft] at hspec
  have hp : (0 : ℚ) < 2 ^ scaleOf num den := by positivity
  have hlt := lt_of_scaleOf num hden
  have hge := le_of_scaleOf_ne_zero num hden
  set u : ℚ := (num : ℚ) / den * unitsPerOne with hu
  set k := scaleOf num den with hk
  rw [pow_add] at hlt hge
  have hcancel : u = u / 2 ^ k * 2 ^ k := (div_mul_cancel₀ _ hp.ne').symm
  unfold nearest? at h
  split at h
  · next hs =>
    -- The significand still fits, so the steps of the scale are those of the magnitude.
    split at h <;> cases h
    refine isNearest_of_steps hcancel hspec.1 hspec.2.1 hspec.2.2 fun _ hk0 => ?_
    rw [le_div_iff₀ hp]
    exact le_trans (by norm_num) (hge hk0)
  · next hs =>
    split at h <;> cases h
    -- Rounding went up to the next power of two, whose own steps are twice as long.
    have hsig : significandOf num den = 0x20000000000000 :=
      Nat.le_antisymm (significandOf_le num den) (Nat.not_lt.1 hs)
    have hround : (roundRatio (num <<< 1074) (den <<< k) : ℚ) = 0x20000000000000 := by
      exact_mod_cast hsig
    have hlower := hspec.1
    rw [hround] at hlower
    have hbelow : u / 2 ^ k < 0x20000000000000 := by
      rw [div_lt_iff₀ hp]
      exact lt_of_lt_of_le hlt (by norm_num)
    -- The number lies below the power of two that it is rounded to.
    have hlow := lowerMiddle_of_power (x := ⟨0x10000000000000, k + 1, by decide, by assumption,
      .inl (Nat.le_refl _)⟩) (k := k) rfl rfl
    refine ⟨?_, ?_, fun _ => by norm_num⟩
    · rw [hlow.1, ← hu, hcancel]
      exact mul_le_mul_of_nonneg_right hlower hp.le
    · rw [upperMiddle, hlow.2, ← hu, hcancel]
      have := mul_le_mul_of_nonneg_right hbelow.le hp.le
      exact le_add_of_le_of_nonneg this (by positivity)

/-- The nearest magnitude is found, if there is one. -/
theorem nearest?_of_isNearest (hden : 0 < den) (h : x.IsNearest (num / den)) :
    nearest? num den = some x := by
  have hp : (0 : ℚ) < 2 ^ x.scale := by positivity
  set u : ℚ := (num : ℚ) / den * unitsPerOne with hu
  have hcancel : u = u / 2 ^ x.scale * 2 ^ x.scale := (div_mul_cancel₀ _ hp.ne').symm
  -- A number below a magnitude that is a power of two is rounded at the scale before.
  by_cases hle : x.scale = 0 ∨ 0x10000000000000 ≤ u / 2 ^ x.scale
  · obtain ⟨hlower, hupper, heven⟩ := h.steps hcancel hle
    have hscale : scaleOf num den = x.scale := by
      refine scaleOf_eq hden ?_ (hle.imp_right fun hle => ?_)
      · have hsig : (x.significand : ℚ) ≤ 0x1FFFFFFFFFFFFF := by
          exact_mod_cast Nat.le_of_lt_succ x.significand_lt
        rw [← hu, hcancel, pow_add]
        exact mul_lt_mul_of_pos_right (by linarith) hp
      · rw [le_div_iff₀ hp] at hle
        rw [← hu, pow_add]
        exact le_trans (by norm_num) hle
    have hsig : significandOf num den = x.significand := by
      unfold significandOf
      rw [hscale]
      refine roundRatio_eq ?_ ?_ ?_ ?_
      · rw [Nat.shiftLeft_eq]
        exact Nat.mul_pos hden (Nat.two_pow_pos _)
      all_goals rw [shiftLeft_div_shiftLeft]
      · exact hlower
      · exact hupper
      · exact heven
    unfold nearest?
    rw [dif_pos (hsig ▸ x.significand_lt), dif_pos (hscale ▸ x.scale_le)]
    exact congrArg some (eq_of_units_eq (by simp only [units, hsig, hscale]))
  · -- The number lies below the magnitude, which is a power of two.
    rw [not_or, not_le] at hle
    have hnormal := x.normal.resolve_right hle.1
    have hsig : x.significand = 0x10000000000000 := by
      by_contra hne
      have hgt : (0x10000000000001 : ℚ) ≤ x.significand := by
        exact_mod_cast (show 0x10000000000001 ≤ x.significand by omega)
      have := h.lowerMiddle_le
      rw [lowerMiddle, if_neg fun hx => hne hx.1, x.units_cast, ← hu, hcancel] at this
      have h1 := mul_lt_mul_of_pos_right hle.2 hp
      have h2 := mul_le_mul_of_nonneg_right hgt hp.le
      linarith
    -- At the scale before, the number is within half a step of the power of two.
    obtain ⟨k, hk⟩ := Nat.exists_eq_succ_of_ne_zero hle.1
    have hp' : (0 : ℚ) < 2 ^ k := by positivity
    have hpow : (2 : ℚ) ^ x.scale = 2 * 2 ^ k := by rw [hk, Nat.succ_eq_add_one, pow_succ, mul_comm]
    have hcancel' : u = u / 2 ^ k * 2 ^ k := (div_mul_cancel₀ _ hp'.ne').symm
    have hlow : 0x20000000000000 - 1 / 2 ≤ u / 2 ^ k := by
      have := h.lowerMiddle_le
      rw [(lowerMiddle_of_power hsig hk).1, ← hu, hcancel'] at this
      exact le_of_mul_le_mul_right this hp'
    have hup : u / 2 ^ k < 0x20000000000000 := by
      have := hle.2
      rw [hpow, ← div_div, div_right_comm, div_lt_iff₀ (by norm_num)] at this
      linarith
    have hscale : scaleOf num den = k := by
      refine scaleOf_eq hden ?_ (.inr ?_)
      · rw [← hu, hcancel', pow_add]
        exact mul_lt_mul_of_pos_right (lt_of_lt_of_le hup (by norm_num)) hp'
      · rw [← hu, hcancel', pow_add]
        exact mul_le_mul_of_nonneg_right (le_trans (by norm_num) hlow) hp'.le
    have hround : significandOf num den = 0x20000000000000 := by
      unfold significandOf
      rw [hscale]
      refine roundRatio_eq ?_ ?_ ?_ ?_
      · rw [Nat.shiftLeft_eq]
        exact Nat.mul_pos hden (Nat.two_pow_pos _)
      all_goals rw [shiftLeft_div_shiftLeft, ← hu]; push_cast
      · exact hlow
      · linarith
      · exact fun _ => by norm_num
    have hscale_le := x.scale_le
    unfold nearest?
    rw [dif_neg (by omega), dif_pos (by omega)]
    exact congrArg some (eq_of_units_eq (by simp only [units, hsig, hscale, hk]))

theorem nearest?_eq_some_iff (hden : 0 < den) :
    nearest? num den = some x ↔ x.IsNearest (num / den) :=
  ⟨isNearest_of_nearest? hden, nearest?_of_isNearest hden⟩

/-! ### How near a number is -/

theorem lowerMiddle_lt (x : Magnitude) : x.lowerMiddle < x.units := by
  have hp : (0 : ℚ) < 2 ^ x.scale := by positivity
  unfold lowerMiddle
  split <;> linarith

theorem lt_upperMiddle (x : Magnitude) : x.units < x.upperMiddle := by
  have hp : (0 : ℚ) < 2 ^ x.scale := by positivity
  unfold upperMiddle
  linarith

theorem isNearest_toRat (x : Magnitude) : x.IsNearest x.toRat where
  lowerMiddle_le := by rw [toRat_mul_unitsPerOne]; exact x.lowerMiddle_lt.le
  le_upperMiddle := by rw [toRat_mul_unitsPerOne]; exact x.lt_upperMiddle.le
  even_of_eq h := by
    rw [toRat_mul_unitsPerOne] at h
    rcases h with h | h
    · exact absurd h x.lowerMiddle_lt.ne'
    · exact absurd h x.lt_upperMiddle.ne

/-- The numbers that a magnitude is nearest to have no gap: with one of them, all between it and the
magnitude are such numbers. -/
theorem isNearest_of_between {r : ℚ} (h : x.IsNearest q)
    (hr : q ≤ r ∧ r ≤ x.toRat ∨ x.toRat ≤ r ∧ r ≤ q) : x.IsNearest r := by
  have hmul : ∀ {a b : ℚ}, a ≤ b → a * unitsPerOne ≤ b * unitsPerOne :=
    fun hab => mul_le_mul_of_nonneg_right hab unitsPerOne_pos.le
  have hlow := x.lowerMiddle_lt
  have hup := x.lt_upperMiddle
  rcases hr with ⟨h1, h2⟩ | ⟨h1, h2⟩
  · have h1' := hmul h1
    have h2' := hmul h2
    rw [toRat_mul_unitsPerOne] at h2'
    refine ⟨le_trans h.lowerMiddle_le h1', by linarith, ?_⟩
    rintro (heq | heq)
    · exact h.even_of_eq (.inl (le_antisymm (heq ▸ h1') h.lowerMiddle_le))
    · linarith
  · have h1' := hmul h1
    have h2' := hmul h2
    rw [toRat_mul_unitsPerOne] at h1'
    refine ⟨by linarith, le_trans h2' h.le_upperMiddle, ?_⟩
    rintro (heq | heq)
    · linarith
    · exact h.even_of_eq (.inr (le_antisymm h.le_upperMiddle (heq ▸ h2')))

/-- Half a step is at least one part in two to the power `54`, also below a power of two. -/
theorem units_lt_mul_middle (x : Magnitude) :
    (x.units : ℚ) < 2 ^ 54 * (x.upperMiddle - x.units) ∧
      (x.units : ℚ) ≤ 2 ^ 54 * (x.units - x.lowerMiddle) := by
  have hp : (0 : ℚ) < 2 ^ x.scale := by positivity
  have hsig : (x.significand : ℚ) < 2 ^ 53 := by exact_mod_cast x.significand_lt
  have hu := x.units_cast
  have hlt : (x.units : ℚ) < 2 ^ 54 * (2 ^ x.scale / 2) := by
    have := mul_lt_mul_of_pos_right hsig hp
    rw [hu]
    linarith
  refine ⟨by rw [upperMiddle]; linarith, ?_⟩
  rw [lowerMiddle]
  split
  · next h =>
    have hpow : (x.significand : ℚ) = 2 ^ 52 := by exact_mod_cast h.1
    rw [hu, hpow]
    linarith
  · linarith

theorem abs_sub_toRat_mul (x : Magnitude) (q : ℚ) :
    |q - x.toRat| * unitsPerOne = |q * unitsPerOne - x.units| := by
  rw [← toRat_mul_unitsPerOne, ← sub_mul, abs_mul, abs_of_pos unitsPerOne_pos]

/-- A number that is off by less than one part in two to the power `54` rounds to the magnitude. -/
theorem isNearest_of_abs_lt (h : 2 ^ 54 * |q - x.toRat| < x.toRat) : x.IsNearest q := by
  have hU := unitsPerOne_pos
  have hdist : 2 ^ 54 * |q * unitsPerOne - x.units| < x.units := by
    have := mul_lt_mul_of_pos_right h hU
    rwa [mul_assoc, abs_sub_toRat_mul, toRat_mul_unitsPerOne] at this
  obtain ⟨h1, h2⟩ := x.units_lt_mul_middle
  have h3 := neg_abs_le (q * unitsPerOne - x.units)
  have h4 := le_abs_self (q * unitsPerOne - x.units)
  refine ⟨by linarith, by linarith, ?_⟩
  rintro (heq | heq) <;> linarith

/-- A number that rounds to a magnitude with fifty-three digits is off by at most one part in two to
the power `53`. -/
theorem abs_sub_le_of_isNearest (h : x.IsNearest q) (hx : 0x10000000000000 ≤ x.significand) :
    2 ^ 53 * |q - x.toRat| ≤ x.toRat := by
  have hU := unitsPerOne_pos
  have hp : (0 : ℚ) < 2 ^ x.scale := by positivity
  have hsig : (2 ^ 52 : ℚ) ≤ x.significand := by exact_mod_cast hx
  have hhalf : 2 ^ 53 * (2 ^ x.scale / 2) ≤ (x.units : ℚ) := by
    have := mul_le_mul_of_nonneg_right hsig hp.le
    rw [x.units_cast]
    linarith
  have hlow : (x.units : ℚ) - 2 ^ x.scale / 2 ≤ q * unitsPerOne := by
    refine le_trans ?_ h.lowerMiddle_le
    unfold lowerMiddle
    split <;> linarith
  have hup : q * unitsPerOne ≤ x.units + 2 ^ x.scale / 2 := h.le_upperMiddle
  have hdist : |q * unitsPerOne - x.units| ≤ 2 ^ x.scale / 2 :=
    abs_le.2 ⟨by linarith, by linarith⟩
  have : 2 ^ 53 * |q - x.toRat| * unitsPerOne ≤ x.toRat * unitsPerOne := by
    rw [mul_assoc, abs_sub_toRat_mul, toRat_mul_unitsPerOne]
    linarith
  exact le_of_mul_le_mul_right this hU

theorem IsNearest.unique {y : Magnitude} (hq : 0 ≤ q) (hx : x.IsNearest q) (hy : y.IsNearest q) :
    x = y := by
  -- `nearest?` finds one magnitude for the ratio, and both are what it finds.
  have hcast : ((q.num.natAbs : Nat) : ℚ) / (q.den : Nat) = q := by
    rw [Nat.cast_natAbs, abs_of_nonneg (Rat.num_nonneg.2 hq)]
    exact Rat.num_div_den q
  rw [← hcast] at hx hy
  have hx' := nearest?_of_isNearest q.den_pos hx
  rw [nearest?_of_isNearest q.den_pos hy] at hx'
  exact (Option.some.inj hx').symm

/-! ### Numbers that are magnitudes -/

/-- A number that is not too small rounds to a magnitude of fifty-three binary digits. -/
theorem IsNearest.le_significand (h : x.IsNearest q)
    (hq : 2 ^ 52 ≤ q * unitsPerOne) : 0x10000000000000 ≤ x.significand := by
  rcases x.normal with hnormal | hscale
  · exact hnormal
  · have hle := le_trans hq h.le_upperMiddle
    rw [upperMiddle, units_cast, hscale, pow_zero, mul_one] at hle
    by_contra hlt
    have hcast : (x.significand : ℚ) + 1 ≤ 0x10000000000000 := by
      exact_mod_cast Nat.not_le.1 hlt
    norm_num at hle hcast
    linarith

theorem IsNearest.eq_zero (h : x.IsNearest 0) : x = zero := by
  refine h.unique le_rfl ?_
  rw [← toRat_zero]
  exact isNearest_toRat zero

/-- A number of at most fifty-three binary digits, doubled so often that it is still in range, is a
magnitude. -/
theorem exists_units_eq (m : Nat) {s : Nat} (hm : m < 0x20000000000000) (hs : s ≤ 2045) :
    ∃ x : Magnitude, x.units = m * 2 ^ s := by
  induction s generalizing m with
  | zero => exact ⟨⟨m, 0, hm, by omega, .inr rfl⟩, by simp [units]⟩
  | succ s ih =>
    by_cases hbig : 0x10000000000000 ≤ m
    · exact ⟨⟨m, s + 1, hm, hs, .inl hbig⟩, Nat.shiftLeft_eq _ _⟩
    -- Too few digits for this scale: one digit more at the scale before.
    · obtain ⟨x, hx⟩ := ih (2 * m) (by omega) (by omega)
      exact ⟨x, by rw [hx, pow_succ]; ring⟩

theorem mul?_eq_some_iff {y z : Magnitude} :
    x.mul? y = some z ↔ z.IsNearest (x.toRat * y.toRat) := by
  have hden : 1 <<< 2148 = unitsPerOne * unitsPerOne := by
    rw [← shiftLeft_eq_mul_unitsPerOne, unitsPerOne, ← Nat.shiftLeft_add]
  rw [mul?, hden, nearest?_eq_some_iff (Nat.mul_pos (Nat.cast_pos.1 unitsPerOne_pos)
    (Nat.cast_pos.1 unitsPerOne_pos)), toRat, toRat, div_mul_div_comm]
  push_cast
  rfl

theorem div?_eq_some_iff {y z : Magnitude} (hy : 0 < y.units) :
    x.div? y = some z ↔ z.IsNearest (x.toRat / y.toRat) := by
  rw [div?, nearest?_eq_some_iff hy, toRat, toRat, div_div_div_cancel_right₀ unitsPerOne_pos.ne']

end Magnitude

end DrillPost
