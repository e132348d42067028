import DrillPost.Proofs.Binary64.Nearest

/-!
# The number that a decimal is

`Decimal.toRat` is the number. Reading a decimal rounds that number and nothing else
(`nearest?_eq_some_iff`): the exponents that are answered without a power of ten are those at which
the answer is the same. Cutting zeros off the end of the coefficient leaves the number as it is
(`toRat_trim`).
-/

namespace DrillPost

theorem powerOfTen_cast (n : Nat) : ((powerOfTen n : Nat) : ℚ) = 10 ^ n := by
  unfold powerOfTen
  exact_mod_cast rfl

/-- A power of ten is above the power of two with three times the exponent. -/
theorem two_pow_le_ten_pow (n : Nat) : (2 : ℚ) ^ (3 * n) ≤ 10 ^ n := by
  rw [pow_mul]
  exact pow_le_pow_left₀ (by norm_num) (by norm_num) n

namespace Magnitude

/-- No number of two to the power `1024` or above rounds to a magnitude. -/
theorem IsNearest.lt_two_pow {x : Magnitude} {q : ℚ} (h : x.IsNearest q) : q < 2 ^ 1024 := by
  have hU := unitsPerOne_pos
  have hsig : (x.significand : ℚ) + 1 ≤ 2 ^ 53 := by exact_mod_cast x.significand_lt
  have hp : (0 : ℚ) < 2 ^ x.scale := by positivity
  have hscale : (2 : ℚ) ^ x.scale ≤ 2 ^ 2045 := pow_le_pow_right₀ (by norm_num) x.scale_le
  have hmul : q * unitsPerOne < 2 ^ 1024 * unitsPerOne := by
    calc q * unitsPerOne ≤ x.significand * 2 ^ x.scale + 2 ^ x.scale / 2 := by
          rw [← x.units_cast]
          exact h.le_upperMiddle
      _ < (x.significand + 1) * 2 ^ x.scale := by linarith
      _ ≤ 2 ^ 53 * 2 ^ x.scale := mul_le_mul_of_nonneg_right hsig hp.le
      _ ≤ 2 ^ 53 * 2 ^ 2045 := mul_le_mul_of_nonneg_left hscale (by positivity)
      _ = 2 ^ 1024 * unitsPerOne := by rw [unitsPerOne_eq, ← pow_add, ← pow_add]
  exact lt_of_mul_lt_mul_right hmul hU.le

theorem isNearest_zero {q : ℚ} (hq : 0 ≤ q) (hle : q * unitsPerOne ≤ 1 / 2) :
    zero.IsNearest q := by
  have h0 : (0 : ℚ) ≤ q * unitsPerOne := mul_nonneg hq unitsPerOne_pos.le
  refine ⟨?_, ?_, fun _ => rfl⟩
  · rw [lowerMiddle, if_neg fun h => h.2 rfl, units_zero]
    norm_num [zero]
    linarith
  · rw [upperMiddle, units_zero]
    norm_num [zero]
    linarith

end Magnitude

namespace Decimal

def toRat (d : Decimal) : ℚ := d.coefficient * 10 ^ d.exponent

theorem toRat_nonneg (d : Decimal) : 0 ≤ d.toRat := by
  unfold toRat
  positivity

theorem toRat_eq_zero_iff {d : Decimal} : d.toRat = 0 ↔ d.coefficient = 0 := by
  have h10 : (10 : ℚ) ^ d.exponent ≠ 0 := by positivity
  rw [toRat, mul_eq_zero, or_iff_left h10, Nat.cast_eq_zero]

theorem num_div_den (d : Decimal) : (d.num : ℚ) / d.den = d.toRat := by
  unfold num den toRat
  push_cast
  rw [powerOfTen_cast, powerOfTen_cast]
  rcases Int.le_total 0 d.exponent with h | h
  · obtain ⟨n, hn⟩ := Int.eq_ofNat_of_zero_le h
    rw [hn]
    simp
  · obtain ⟨n, hn⟩ := Int.eq_ofNat_of_zero_le (Int.neg_nonneg_of_nonpos h)
    rw [show d.exponent = -(n : Int) by omega]
    simp [div_eq_mul_inv]

/-- A coefficient is below the power of ten with as many zeros as it has digits. -/
theorem coefficient_lt (n : Nat) : (n : ℚ) < 10 ^ digitCount n := by
  rw [← powerOfTen_cast]
  exact_mod_cast (digitCount_le_iff (digitCount_pos n)).1 (Nat.le_refl _)

theorem toRat_lt (d : Decimal) : d.toRat < 10 ^ (d.exponent + digitCount d.coefficient) := by
  rw [toRat, add_comm, zpow_add₀ (by norm_num), zpow_natCast]
  exact mul_lt_mul_of_pos_right (coefficient_lt _) (by positivity)

theorem nearest?_eq_some_iff {d : Decimal} {x : Magnitude} :
    d.nearest? = some x ↔ x.IsNearest d.toRat := by
  have hiff : Magnitude.nearest? d.num d.den = some x ↔ x.IsNearest d.toRat := by
    rw [Magnitude.nearest?_eq_some_iff d.den_pos, num_div_den]
  -- Where the answer is zero, it is so because the number rounds to zero.
  have hzero : Magnitude.zero.IsNearest d.toRat → (some .zero = some x ↔ x.IsNearest d.toRat) := by
    intro h
    refine ⟨fun heq => Option.some.inj heq ▸ h, fun hx => ?_⟩
    rw [h.unique d.toRat_nonneg hx]
  unfold nearest?
  split
  · next h0 =>
    apply hzero
    rw [toRat, h0, Nat.cast_zero, zero_mul, ← Magnitude.toRat_zero]
    exact Magnitude.zero.isNearest_toRat
  split
  · next h0 hbig =>
    refine ⟨fun h => (Option.some_ne_none _ h.symm).elim, fun h => ?_⟩
    have hc : (1 : ℚ) ≤ d.coefficient := by exact_mod_cast Nat.pos_of_ne_zero h0
    have hlt := h.lt_two_pow
    have hge : (2 : ℚ) ^ 1024 ≤ d.toRat := by
      calc (2 : ℚ) ^ 1024 ≤ 2 ^ (3 * 401) := pow_le_pow_right₀ (by norm_num) (by norm_num)
        _ ≤ 10 ^ 401 := two_pow_le_ten_pow 401
        _ = 10 ^ ((401 : Nat) : Int) := (zpow_natCast _ _).symm
        _ ≤ 10 ^ d.exponent := zpow_le_zpow_right₀ (by norm_num) (by omega)
        _ ≤ d.coefficient * 10 ^ d.exponent := le_mul_of_one_le_left (by positivity) hc
    exact absurd hlt (not_lt.2 hge)
  split
  · next hsmall =>
    apply hzero
    refine Magnitude.isNearest_zero d.toRat_nonneg ?_
    have hlt : d.toRat ≤ (10 ^ 401)⁻¹ := by
      calc d.toRat ≤ 10 ^ (d.exponent + digitCount d.coefficient) := d.toRat_lt.le
        _ ≤ 10 ^ (-((401 : Nat) : Int)) := zpow_le_zpow_right₀ (by norm_num) (by omega)
        _ = (10 ^ 401)⁻¹ := by rw [zpow_neg, zpow_natCast]
    have hpow : (2 : ℚ) ^ 1074 * 2 ≤ 10 ^ 401 := by
      rw [← pow_succ]
      exact le_trans (pow_le_pow_right₀ (by norm_num) (by norm_num)) (two_pow_le_ten_pow 401)
    calc d.toRat * Magnitude.unitsPerOne ≤ (10 ^ 401)⁻¹ * Magnitude.unitsPerOne :=
          mul_le_mul_of_nonneg_right hlt Magnitude.unitsPerOne_pos.le
      _ ≤ 1 / 2 := by
          rw [Magnitude.unitsPerOne_eq, inv_mul_eq_div,
            div_le_div_iff₀ (by positivity) (by norm_num), one_mul]
          exact hpow
  · exact hiff

theorem toRat_trim (d : Decimal) : d.trim.toRat = d.toRat := by
  fun_induction trim d with
  | case1 d h ih =>
    rw [ih, toRat, toRat]
    have hc : (d.coefficient : ℚ) = (d.coefficient / 10 : Nat) * 10 := by
      exact_mod_cast (Nat.div_mul_cancel (Nat.dvd_of_mod_eq_zero h.2)).symm
    rw [hc, zpow_add_one₀ (by norm_num)]
    ring
  | case2 d h => rfl

end Decimal

end DrillPost
