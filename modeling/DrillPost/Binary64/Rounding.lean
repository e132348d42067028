import DrillPost.Binary64.Basic

/-!
# Rounding to binary64

`roundRatio` rounds a ratio of natural numbers to the nearest natural number, ties to even.
`Magnitude.nearest?` rounds a ratio to the nearest magnitude, again with ties to even; a ratio that
rounds to two to the power `1024` or more has none. Products and quotients of magnitudes are the
exact product or quotient rounded once.
-/

namespace DrillPost

/-- The natural number nearest to `num / den`; halfway between two, the even one. -/
def roundRatio (num den : Nat) : Nat :=
  if 2 * (num % den) < den ∨ (2 * (num % den) = den ∧ num / den % 2 = 0) then num / den
  else num / den + 1

theorem div_le_roundRatio (num den : Nat) : num / den ≤ roundRatio num den := by
  unfold roundRatio; split <;> omega

theorem roundRatio_le_div_succ (num den : Nat) : roundRatio num den ≤ num / den + 1 := by
  unfold roundRatio; split <;> omega

/-- The least scale at which `n` units make fewer than two to the power `53` steps. -/
def scaleFor (n : Nat) : Nat := n.log2 - 52

theorem shiftRight_scaleFor_lt (n : Nat) : n >>> scaleFor n < 0x20000000000000 := by
  rw [Nat.shiftRight_eq_div_pow, Nat.div_lt_iff_lt_mul (Nat.two_pow_pos _),
    show 0x20000000000000 = 2 ^ 53 from rfl, ← Nat.pow_add]
  by_cases h0 : n = 0
  · subst h0; exact Nat.two_pow_pos _
  · exact (Nat.log2_lt h0).1 (by unfold scaleFor; omega)

theorem le_shiftRight_scaleFor {n : Nat} (h : scaleFor n ≠ 0) :
    0x10000000000000 ≤ n >>> scaleFor n := by
  have h0 : n ≠ 0 := by rintro rfl; exact h rfl
  rw [Nat.shiftRight_eq_div_pow, Nat.le_div_iff_mul_le (Nat.two_pow_pos _),
    show 0x10000000000000 = 2 ^ 52 from rfl, ← Nat.pow_add]
  exact (Nat.le_log2 h0).1 (by unfold scaleFor at h ⊢; omega)

namespace Magnitude

/-- The scale of the significand of `num / den`, before rounding. -/
def scaleOf (num den : Nat) : Nat := scaleFor ((num <<< 1074) / den)

/-- The significand of `num / den` at its scale, rounded; it may need a fifty-fourth digit. -/
def significandOf (num den : Nat) : Nat :=
  roundRatio (num <<< 1074) (den <<< scaleOf num den)

theorem le_significandOf {num den : Nat} (h : scaleOf num den ≠ 0) :
    0x10000000000000 ≤ significandOf num den := by
  refine Nat.le_trans (le_shiftRight_scaleFor h) ?_
  rw [Nat.shiftRight_eq_div_pow, Nat.div_div_eq_div_mul, ← Nat.shiftLeft_eq]
  exact div_le_roundRatio _ _

theorem significandOf_le (num den : Nat) : significandOf num den ≤ 0x20000000000000 := by
  have h := shiftRight_scaleFor_lt ((num <<< 1074) / den)
  rw [Nat.shiftRight_eq_div_pow, Nat.div_div_eq_div_mul, ← Nat.shiftLeft_eq] at h
  exact Nat.le_trans (roundRatio_le_div_succ _ _) h

/-- The magnitude nearest to `num / den`; halfway between two, the one with the even significand.
`none` when that would be two to the power `1024` or more. -/
def nearest? (num den : Nat) : Option Magnitude :=
  if hs : significandOf num den < 0x20000000000000 then
    if hk : scaleOf num den ≤ 2045 then
      some ⟨significandOf num den, scaleOf num den, hs, hk,
        (Decidable.em (scaleOf num den = 0)).symm.imp_left le_significandOf⟩
    else none
  -- Rounding went up to the next power of two, whose last digits are zeros.
  else if hk : scaleOf num den + 1 ≤ 2045 then
    some ⟨0x10000000000000, scaleOf num den + 1, by decide, hk, .inl (Nat.le_refl _)⟩
  else none

/-- The exact product, rounded. -/
def mul? (x y : Magnitude) : Option Magnitude :=
  nearest? (x.units * y.units) (1 <<< 2148)

/-- The exact quotient, rounded. -/
def div? (x y : Magnitude) : Option Magnitude := nearest? x.units y.units

end Magnitude

namespace Binary64

/-- The value nearest to `num / den` with the given sign, an infinity beyond the largest value. -/
def ofRatio (negative : Bool) (num den : Nat) : Binary64 :=
  match Magnitude.nearest? num den with
  | some x => .finite negative x
  | none => .infinite negative

/-- The value nearest to an integer; zero is positive. -/
def ofInt (n : Int) : Binary64 := ofRatio (n < 0) n.natAbs 1

/-- The value nearest to a natural number. -/
def ofNat (n : Nat) : Binary64 := ofRatio false n 1

end Binary64

end DrillPost
