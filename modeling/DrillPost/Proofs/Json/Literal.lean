import DrillPost.Proofs.Json.Numeral

/-!
# The value of a short literal

A literal is a decimal: its digits, before the point and after it, and an exponent. If it has few
digits and a small exponent, then its value is the magnitude nearest to that decimal
(`Json.Literal.IsShort.isValue`). The significand and the power of ten are magnitudes themselves
(`nearest?_one`, `toRat_tenToThe`), so that only one product or quotient is rounded.
-/

namespace DrillPost

namespace Magnitude

/-- A number with few binary digits is a magnitude. -/
theorem exists_toRat_eq (m : Nat) {s : Nat} (hm : m < 0x20000000000000) (hs : s ≤ 971) :
    ∃ x : Magnitude, x.toRat = m * 2 ^ s := by
  obtain ⟨x, hx⟩ := exists_units_eq m hm (show s + 1074 ≤ 2045 by omega)
  refine ⟨x, ?_⟩
  rw [toRat, hx, div_eq_iff unitsPerOne_pos.ne', unitsPerOne_eq]
  push_cast
  rw [pow_add, mul_assoc]

end Magnitude

namespace Json

open Magnitude

/-! ### Exact magnitudes -/

theorem nearest?_one {m : Nat} (hm : m < 0x20000000000000) :
    Magnitude.nearest? m 1 = some (significandMagnitude m) ∧
      (significandMagnitude m).toRat = m := by
  obtain ⟨x, hx⟩ := exists_toRat_eq m hm (Nat.zero_le 971)
  rw [pow_zero, mul_one] at hx
  have hnearest : Magnitude.nearest? m 1 = some x := by
    rw [nearest?_eq_some_iff Nat.one_pos, Nat.cast_one, div_one, ← hx]
    exact x.isNearest_toRat
  have hvalue : significandMagnitude m = x := by
    rw [significandMagnitude, hnearest, Option.getD_some]
  rw [hvalue]
  exact ⟨hnearest, hx⟩

theorem ofRatio_eq {negative : Bool} {num den : Nat} {x : Magnitude}
    (h : Magnitude.nearest? num den = some x) :
    Binary64.ofRatio negative num den = .finite negative x := by
  unfold Binary64.ofRatio
  split
  · next y hy =>
    rw [hy] at h
    rw [Option.some.inj h]
  · next hnone =>
    rw [hnone] at h
    cases h

/-- An integer of at most fifty-three binary digits is kept exactly. -/
theorem ofInt_eq {n : Int} (hn : n.natAbs < 0x20000000000000) :
    Binary64.ofInt n = .finite (n < 0) (significandMagnitude n.natAbs) :=
  ofRatio_eq (nearest?_one hn).1

/-- A power of ten with an exponent of at most twenty-two is kept exactly. -/
theorem toRat_tenToThe {n : Nat} (hn : n ≤ 22) : (tenToThe n).toRat = 10 ^ n := by
  have hfive : 5 ^ n < 0x20000000000000 :=
    lt_of_le_of_lt (Nat.pow_le_pow_right (by decide) hn) (by decide)
  -- Ten to the power `n` is five to the power `n` doubled `n` times, and even five to the power
  -- `22` fits.
  obtain ⟨x, hx⟩ := exists_toRat_eq (5 ^ n) hfive (show n ≤ 971 by omega)
  have hten : x.toRat = 10 ^ n := by
    rw [hx]
    push_cast
    rw [← mul_pow]
    norm_num
  have hnearest : Decimal.nearest? ⟨1, n⟩ = some x := by
    rw [Decimal.nearest?_eq_some_iff, Decimal.toRat]
    dsimp only
    rw [Nat.cast_one, one_mul, zpow_natCast, ← hten]
    exact x.isNearest_toRat
  rw [tenToThe, hnearest, Option.getD_some, hten]

/-- Moving the point by a few places is one rounding of the exact result. -/
theorem movePoint_eq_some_iff {m : Nat} {places : Int} {x : Magnitude} (hm : m < 0x20000000000000)
    (hplaces : places.natAbs ≤ 22) :
    movePoint (significandMagnitude m) places = some x ↔ x.IsNearest (m * 10 ^ places) := by
  have hten := toRat_tenToThe hplaces
  have hsignificand := (nearest?_one hm).2
  rw [movePoint, if_pos (show places.natAbs ≤ 308 by omega)]
  split
  · next hle =>
    rw [mul?_eq_some_iff, hsignificand, hten]
    obtain ⟨n, rfl⟩ := Int.eq_ofNat_of_zero_le hle
    rw [Int.natAbs_natCast, ← zpow_natCast]
  · next hlt =>
    have hunits : 0 < (tenToThe places.natAbs).units := by
      rw [Nat.pos_iff_ne_zero, ne_eq, ← toRat_eq_zero_iff, hten]
      positivity
    rw [div?_eq_some_iff hunits, hsignificand, hten]
    obtain ⟨n, hn⟩ := Int.eq_ofNat_of_zero_le (show 0 ≤ -places by omega)
    rw [show places = -(n : Int) by omega, Int.natAbs_neg, Int.natAbs_natCast, zpow_neg,
      zpow_natCast, ← div_eq_mul_inv]

/-! ### Digits -/

theorem le_ofDigitChars (digits : List Char) (init : Nat) :
    init ≤ Nat.ofDigitChars 10 digits init := by
  rw [Nat.ofDigitChars_eq_ofDigitChars_zero]
  calc init ≤ 10 ^ digits.length * init :=
        Nat.le_mul_of_pos_left init (Nat.pow_pos (by decide))
    _ ≤ 10 ^ digits.length * init + Nat.ofDigitChars 10 digits 0 := Nat.le_add_right _ _

/-- Digits that make a number of sixty-four bits are all taken. -/
theorem takeDigits_eq {digits : List Char} {taken : Nat}
    (h : Nat.ofDigitChars 10 digits taken < UInt64.size) :
    takeDigits taken digits = (Nat.ofDigitChars 10 digits taken, []) := by
  induction digits generalizing taken with
  | nil => rfl
  | cons c digits ih =>
    rw [Nat.ofDigitChars_cons, Nat.mul_comm] at h ⊢
    rw [takeDigits, if_pos (lt_of_le_of_lt (le_ofDigitChars _ _) h)]
    exact ih h

/-- An exponent has the value of its digits, unless they are too many. -/
theorem exponentValue_spec (digits : List Char) (value : Nat) :
    match exponentValue value digits with
    | .ok n => n = Nat.ofDigitChars 10 digits value
    | .error _ => maxExponent < Nat.ofDigitChars 10 digits value := by
  induction digits generalizing value with
  | nil => rfl
  | cons c digits ih =>
    rw [Nat.ofDigitChars_cons, Nat.mul_comm, exponentValue]
    by_cases hle : value * 10 + (c.toNat - '0'.toNat) ≤ maxExponent
    · rw [if_pos hle]
      exact ih _
    · rw [if_neg hle]
      exact lt_of_lt_of_le (Nat.not_le.1 hle) (le_ofDigitChars _ _)

/-! ### Literals -/

namespace Literal

def decimal (l : Literal) : Decimal := l.numeral.toDecimal

/-- All its digits are one number, and the exponent is that of the last of them. -/
theorem decimal_eq (l : Literal) : l.decimal =
    ⟨digitsValue (l.whole ++ l.fraction),
      l.exponent.elim 0 Exponent.toInt - l.fraction.length⟩ := rfl

/-- The literal has at most fifteen digits, but for zeros at its front, and a small exponent. -/
structure IsShort (l : Literal) : Prop where
  coefficient_lt : l.decimal.coefficient < 10 ^ 15
  natAbs_exponent_le : l.decimal.exponent.natAbs ≤ 22

instance (l : Literal) : Decidable l.IsShort :=
  decidable_of_iff (l.decimal.coefficient < 10 ^ 15 ∧ l.decimal.exponent.natAbs ≤ 22)
    ⟨fun h => ⟨h.1, h.2⟩, fun h => ⟨h.1, h.2⟩⟩

variable {l : Literal}

/-- Of a short literal every digit is taken. -/
theorem IsShort.significand_eq (h : l.IsShort) :
    (takeDigits 0 l.whole).2 = [] ∧
      l.significand = (l.decimal.coefficient, -(l.fraction.length : Int)) := by
  -- Reading the fraction goes on where the digits before the point ended.
  have hlt : Nat.ofDigitChars 10 l.fraction (Nat.ofDigitChars 10 l.whole 0) < UInt64.size := by
    rw [← Nat.ofDigitChars_append]
    exact lt_trans h.coefficient_lt (by decide)
  have hwhole := takeDigits_eq (lt_of_le_of_lt (le_ofDigitChars _ _) hlt)
  refine ⟨by rw [hwhole], ?_⟩
  rw [significand, hwhole]
  dsimp only
  rw [takeDigits_eq hlt, decimal_eq, digitsValue, Nat.ofDigitChars_append]
  simp

/-- The value is the magnitude nearest to the decimal that the literal is, with the sign that was
written. Of a zero the sign may be lost. -/
def IsValue (l : Literal) (isNegative : Bool) (y : Binary64) : Prop :=
  ∃ negative x, y = .finite negative x ∧ x.IsNearest l.decimal.toRat ∧
    (l.decimal.coefficient ≠ 0 → negative = isNegative)

/-- A zero is the value of a literal without another digit. -/
theorem isValue_zero (h0 : l.decimal.coefficient = 0) (isNegative negative : Bool) :
    l.IsValue isNegative (.finite negative .zero) := by
  refine ⟨negative, .zero, rfl, ?_, fun hne => absurd h0 hne⟩
  rw [Decimal.toRat_eq_zero_iff.2 h0, ← toRat_zero]
  exact isNearest_toRat _

/-- The digits of a short literal without point and exponent are a magnitude. -/
theorem IsShort.isNearest_significandMagnitude (h : l.IsShort) (hfraction : l.fraction = [])
    (hexponent : l.exponent = none) :
    (significandMagnitude l.decimal.coefficient).IsNearest l.decimal.toRat := by
  have hm : l.decimal.coefficient < 0x20000000000000 := lt_trans h.coefficient_lt (by decide)
  have hrat : l.decimal.toRat = (significandMagnitude l.decimal.coefficient).toRat := by
    rw [(nearest?_one hm).2, Decimal.toRat, decimal_eq, hfraction, hexponent]
    simp
  rw [hrat]
  exact isNearest_toRat _

/-- A value of a literal that is written as an integer. -/
theorem IsShort.isValue_integerValue (h : l.IsShort) (hfraction : l.fraction = [])
    (hexponent : l.exponent = none) (isNegative : Bool) :
    l.IsValue isNegative (integerValue isNegative l.decimal.coefficient).toBinary64 := by
  have hm : l.decimal.coefficient < 0x20000000000000 := lt_trans h.coefficient_lt (by decide)
  have hnearest := h.isNearest_significandMagnitude hfraction hexponent
  cases isNegative with
  | false =>
    have hint : Binary64.ofInt l.decimal.coefficient =
        .finite false (significandMagnitude l.decimal.coefficient) := ofInt_eq hm
    exact ⟨_, _, hint, hnearest, fun _ => rfl⟩
  | true =>
    by_cases h0 : l.decimal.coefficient = 0
    · rw [integerValue, if_neg (show ¬ (!true) = true by decide), if_pos h0]
      exact isValue_zero h0 true true
    · have hint : Binary64.ofInt (-l.decimal.coefficient) =
          .finite true (significandMagnitude l.decimal.coefficient) := by
        rw [ofInt_eq (by rw [Int.natAbs_neg]; exact hm), Int.natAbs_neg, Int.natAbs_natCast,
          decide_eq_true (by omega)]
      rw [integerValue, if_neg (show ¬ (!true) = true by decide), if_neg h0, if_pos (by omega)]
      exact ⟨_, _, hint, hnearest, fun _ => rfl⟩

/-- A value whose significand was moved by the exponent. -/
theorem IsShort.isValue_scaled (h : l.IsShort) {isNegative : Bool} {exponent : Int} {y : Binary64}
    (hexponent : exponent = l.decimal.exponent)
    (hy : scaled? isNegative l.decimal.coefficient exponent = some y) : l.IsValue isNegative y := by
  subst hexponent
  have hm : l.decimal.coefficient < 0x20000000000000 := lt_trans h.coefficient_lt (by decide)
  obtain ⟨x, hx, rfl⟩ := Option.map_eq_some_iff.1 hy
  exact ⟨_, x, rfl, (movePoint_eq_some_iff hm h.natAbs_exponent_le).1 hx, fun _ => rfl⟩

theorem IsShort.isValue (h : l.IsShort) {isNegative : Bool} {rest : List Char} {n : Number}
    (hn : l.value isNegative rest = .ok n) : l.IsValue isNegative n.toBinary64 := by
  obtain ⟨hleft, hsignificand⟩ := h.significand_eq
  unfold value at hn
  rw [hsignificand] at hn
  dsimp only at hn
  split at hn
  · next hexponent =>
    split at hn
    · next hinteger =>
      cases hn
      exact h.isValue_integerValue hinteger.1 hexponent isNegative
    · split at hn
      · next hy =>
        cases hn
        refine h.isValue_scaled ?_ hy
        rw [decimal_eq, hexponent]
        simp
      · cases hn
  · next e hexponent =>
    have hspec := exponentValue_spec e.digits 0
    split at hn
    · next places hplaces =>
      rw [hplaces] at hspec
      have hdigits : digitsValue e.digits = places := hspec.symm
      split at hn
      · next hy =>
        cases hn
        refine h.isValue_scaled ?_ hy
        rw [decimal_eq, hexponent, Option.elim_some, Exponent.toInt, hdigits]
        dsimp only
        split <;> omega
      · cases hn
    · next hplaces =>
      rw [hplaces] at hspec
      split at hn
      · next hzero =>
        cases hn
        refine isValue_zero (hzero.resolve_right fun hnegative => ?_) isNegative isNegative
        -- An exponent that is too large to be written out is not small.
        have hlarge : maxExponent < digitsValue e.digits := hspec
        have hsmall := h.natAbs_exponent_le
        rw [decimal_eq, hexponent, Option.elim_some, Exponent.toInt, if_pos hnegative] at hsmall
        rw [maxExponent] at hlarge
        dsimp only at hsmall
        omega
      · cases hn

/-- A short literal that is not zero is far from the smallest magnitudes. -/
theorem IsShort.le_toRat_mul (h : l.IsShort) (h0 : l.decimal.coefficient ≠ 0) :
    2 ^ 52 ≤ l.decimal.toRat * Magnitude.unitsPerOne := by
  have hsmall := h.natAbs_exponent_le
  have hone : (1 : ℚ) ≤ l.decimal.coefficient := by exact_mod_cast Nat.pos_of_ne_zero h0
  have hpow : (2 : ℚ) ^ 52 * 10 ^ 22 ≤ 2 ^ 1074 := by
    calc (2 : ℚ) ^ 52 * 10 ^ 22 ≤ 2 ^ 52 * 2 ^ 88 :=
          mul_le_mul_of_nonneg_left (by norm_num) (by positivity)
      _ = 2 ^ 140 := by rw [← pow_add]
      _ ≤ 2 ^ 1074 := pow_le_pow_right₀ (by norm_num) (by norm_num)
  have hten : (10 ^ 22 : ℚ)⁻¹ ≤ l.decimal.toRat := by
    calc (10 ^ 22 : ℚ)⁻¹ = 10 ^ (-((22 : Nat) : Int)) := by rw [zpow_neg, zpow_natCast]
      _ ≤ 10 ^ l.decimal.exponent := zpow_le_zpow_right₀ (by norm_num) (by omega)
      _ ≤ l.decimal.toRat := le_mul_of_one_le_left (by positivity) hone
  calc (2 : ℚ) ^ 52 ≤ (10 ^ 22)⁻¹ * 2 ^ 1074 := by
        rw [inv_mul_eq_div, le_div_iff₀ (by positivity)]
        exact hpow
    _ ≤ l.decimal.toRat * Magnitude.unitsPerOne := by
        rw [Magnitude.unitsPerOne_eq]
        exact mul_le_mul_of_nonneg_right hten (by positivity)

/-- The shortest decimal of the magnitude nearest to a short literal is the literal. -/
theorem IsShort.toRat_shortest (h : l.IsShort) {x : Magnitude} (hx : x.IsNearest l.decimal.toRat)
    (tie : Tie) : (x.shortest tie).toRat = l.decimal.toRat := by
  -- Zero is not far from the smallest magnitudes, but there is nothing to be rounded.
  by_cases h0 : l.decimal.coefficient = 0
  · have hzero : l.decimal.toRat = 0 := Decimal.toRat_eq_zero_iff.2 h0
    rw [hzero] at hx ⊢
    rw [hx.eq_zero, Magnitude.shortest, if_pos Magnitude.units_zero]
    exact Decimal.toRat_eq_zero_iff.2 rfl
  · exact Magnitude.toRat_shortest tie h.coefficient_lt (hx.le_significand (h.le_toRat_mul h0)) hx

end Literal

end Json

end DrillPost
