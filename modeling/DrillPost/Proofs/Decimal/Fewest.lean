import DrillPost.Proofs.Decimal.Shortest

/-!
# No decimal is shorter

`Decimal.precision` is the number of significant digits of a decimal. Among the decimals that read
as a positive magnitude none has fewer of them than the shortest one, and none with as many lies
closer to the magnitude (`Magnitude.shortest_spec`).

A decimal need not lie on the grid of as many digits as it has, because its leading digit may stand
in another place than that of the magnitude. Then there is a power of ten between the two, which is
on every grid, reads as the magnitude, and lies closer to it (`Magnitude.exists_between_on_grid`).
-/

namespace DrillPost

namespace Decimal

/-! ### Precision -/

/-- The number of digits of a decimal that is not zero, without the zeros at its end. -/
def precision (d : Decimal) : Nat := digitCount d.trim.coefficient

theorem precision_pos (d : Decimal) : 0 < d.precision := digitCount_pos _

theorem trim_trim (d : Decimal) : d.trim.trim = d.trim := by
  fun_induction trim d with
  | case1 d h ih => exact ih
  | case2 d h => rw [trim, dif_neg h]

theorem precision_trim (d : Decimal) : d.trim.precision = d.precision := by
  rw [precision, trim_trim, precision]

theorem coefficient_trim_le (d : Decimal) : d.trim.coefficient ≤ d.coefficient := by
  fun_induction trim d with
  | case1 d h ih => exact le_trans ih (Nat.div_le_self _ _)
  | case2 d h => exact le_rfl

theorem precision_le_of_lt {d : Decimal} {k : Nat} (hk : 0 < k) (h : d.coefficient < 10 ^ k) :
    d.precision ≤ k :=
  (digitCount_le_iff hk).2 (lt_of_le_of_lt d.coefficient_trim_le h)

/-- A power of ten has a single digit that counts, so it needs no digit more than what is below
it. -/
theorem precision_le_of_le {d : Decimal} {k : Nat} (hk : 0 < k) (h : d.coefficient ≤ 10 ^ k) :
    d.precision ≤ k := by
  rcases Nat.lt_or_eq_of_le h with hlt | heq
  · exact precision_le_of_lt hk hlt
  · obtain ⟨n, rfl⟩ := Nat.exists_eq_succ_of_ne_zero hk.ne'
    have hpos := Nat.pow_pos (n := n) (show 0 < 10 by decide)
    have hdiv : d.coefficient / 10 = 10 ^ n := by
      rw [heq, Nat.succ_eq_add_one, Nat.pow_succ, Nat.mul_div_cancel _ (by decide)]
    have hlast : d.coefficient ≠ 0 ∧ d.coefficient % 10 = 0 := by
      rw [heq, Nat.succ_eq_add_one, Nat.pow_succ]
      omega
    rw [precision, trim, dif_pos hlast]
    refine precision_le_of_lt hk ?_
    rw [hdiv]
    exact Nat.pow_lt_pow_right (by decide) (Nat.lt_succ_self n)

/-- The coefficient of a trimmed decimal is below the power of ten of the precision. -/
theorem coefficient_trim_lt (d : Decimal) : (d.trim.coefficient : ℚ) < 10 ^ d.precision :=
  coefficient_lt _

/-! ### Grids -/

theorem natCast_pow_mul_zpow (n : Nat) {i j : Int} (h : n + i = j) :
    ((10 ^ n : Nat) : ℚ) * 10 ^ i = 10 ^ j := by
  push_cast
  rw [← h, zpow_add₀ (by norm_num), zpow_natCast]

/-- Comparing with a middle of two steps is comparing the ratio with the number that the middle
is. -/
theorem compareMiddle_eq (num : Nat) {den : Nat} (hden : 0 < den) (steps : Nat) (e : Int) :
    compareMiddle num den steps e =
      compare ((2 : ℚ) * (num / den)) ((2 * steps + 1) * 10 ^ e) := by
  have hp : (0 : ℚ) < 10 ^ e := by positivity
  have hstep : 0 < den * powerOfTen e.toNat := Nat.mul_pos hden (powerOfTen_pos _)
  have hs : (0 : ℚ) < (den * powerOfTen e.toNat : Nat) := by exact_mod_cast hstep
  -- Both sides are compared in units of a step divided by the denominator.
  have hmono : StrictMono fun n : Nat => (n : ℚ) * (10 ^ e / (den * powerOfTen e.toNat : Nat)) :=
    (Nat.strictMono_cast (α := ℚ)).mul_const (div_pos hp hs)
  have hratio := ratio_div_zpow num den e
  rw [div_eq_iff hp.ne'] at hratio
  rw [compareMiddle, ← cmp_eq_compare, ← hmono.cmp_map_eq, cmp_eq_compare]
  congr 1
  · rw [hratio]
    push_cast
    ring
  · rw [Nat.cast_mul, mul_assoc, mul_div_cancel₀ _ hs.ne']
    push_cast
    rfl

end Decimal

namespace Magnitude

variable {x : Magnitude} {tie : Tie} {d : Decimal} {e : Int}

/-! ### What is found on a grid -/

/-- The nearer neighbour lies on the other side of the middle between the neighbours than the
magnitude does, or the magnitude is in the middle. -/
theorem nearer_cases (tie : Tie) (x : Magnitude) (e : Int) :
    nearer tie x (x.lowerOnGrid e) = x.lowerOnGrid e ∧
        2 * x.toRat ≤ (x.lowerOnGrid e).toRat + (x.upperOnGrid e).toRat ∨
      nearer tie x (x.lowerOnGrid e) = x.upperOnGrid e ∧
        (x.lowerOnGrid e).toRat + (x.upperOnGrid e).toRat ≤ 2 * x.toRat := by
  have hmiddle : (x.lowerOnGrid e).toRat + (x.upperOnGrid e).toRat =
      (2 * (x.lowerOnGrid e).coefficient + 1) * 10 ^ (x.lowerOnGrid e).exponent := by
    unfold lowerOnGrid upperOnGrid Decimal.toRat
    push_cast
    ring
  have hcompare := Decimal.compareMiddle_eq x.units (Nat.cast_pos.1 unitsPerOne_pos)
    (x.lowerOnGrid e).coefficient (x.lowerOnGrid e).exponent
  rw [← hmiddle] at hcompare
  change _ = compare (2 * x.toRat) _ at hcompare
  unfold nearer
  dsimp only
  rw [hcompare]
  split
  · next hlt => exact .inl ⟨rfl, (compare_lt_iff_lt.1 hlt).le⟩
  · next hgt => exact .inr ⟨rfl, (compare_gt_iff_gt.1 hgt).le⟩
  · next heq =>
    have heq := compare_eq_iff_eq.1 heq
    split
    · exact .inr ⟨rfl, heq.ge⟩
    · split
      · exact .inl ⟨rfl, heq.le⟩
      · exact .inr ⟨rfl, heq.ge⟩

/-- Neither of the two neighbours on a grid is closer than the nearer one. -/
theorem abs_nearer_sub_le (tie : Tie) (x : Magnitude) (e : Int) :
    |(nearer tie x (x.lowerOnGrid e)).toRat - x.toRat| ≤ |(x.lowerOnGrid e).toRat - x.toRat| ∧
      |(nearer tie x (x.lowerOnGrid e)).toRat - x.toRat| ≤ |(x.upperOnGrid e).toRat - x.toRat| := by
  have hlower := abs_of_nonpos (sub_nonpos.2 (x.lowerOnGrid_le e))
  have hupper := abs_of_pos (sub_pos.2 (x.lt_upperOnGrid e))
  rcases nearer_cases tie x e with ⟨h, hle⟩ | ⟨h, hle⟩
  · rw [h, hlower, hupper]
    exact ⟨le_rfl, by linarith⟩
  · rw [h, hlower, hupper]
    exact ⟨by linarith, le_rfl⟩

/-- What is found on a grid is as close as any of its points that read as the magnitude. -/
theorem abs_onGrid?_sub_le {c : Nat} (hd : x.onGrid? tie e = some d)
    (h : x.IsNearest (c * 10 ^ e)) : |d.toRat - x.toRat| ≤ |(c * 10 ^ e : ℚ) - x.toRat| := by
  obtain ⟨hnearLower, hnearUpper⟩ := abs_nearer_sub_le tie x e
  have hneighbour := exists_neighbour h
  rw [onGrid?_eq] at hd
  split at hd
  · cases hd
    rcases hneighbour with ⟨-, hle⟩ | ⟨-, hle⟩
    · exact hnearLower.trans hle
    · exact hnearUpper.trans hle
  · next hlower hupper =>
    cases hd
    rcases hneighbour with ⟨-, hle⟩ | ⟨hread, -⟩
    · exact hle
    · cases hread.symm.trans hupper
  · next hlower hupper =>
    cases hd
    rcases hneighbour with ⟨hread, -⟩ | ⟨-, hle⟩
    · cases hread.symm.trans hlower
    · exact hle
  · cases hd

/-! ### Places of the leading digit -/

/-- Between a decimal and a magnitude, or where the decimal is, there is a point of the grid that
has as many digits as the decimal. -/
theorem exists_between_on_grid {place : Int} {k : Nat} (hlow : 10 ^ (place - 1) ≤ x.toRat)
    (hhigh : x.toRat < 10 ^ place) (hk : 0 < k) (hd : (d.coefficient : ℚ) < 10 ^ k) :
    ∃ c : Nat, d.toRat ≤ c * 10 ^ (place - k) ∧ (c : ℚ) * 10 ^ (place - k) ≤ x.toRat ∨
      x.toRat ≤ c * 10 ^ (place - k) ∧ (c : ℚ) * 10 ^ (place - k) ≤ d.toRat := by
  rcases lt_or_ge d.toRat (10 ^ (place - 1)) with hbelow | hbelow
  · refine ⟨10 ^ (k - 1), .inl ?_⟩
    have hplace : ((k - 1 : Nat) : Int) + (place - k) = place - 1 := by omega
    rw [Decimal.natCast_pow_mul_zpow (k - 1) hplace]
    exact ⟨hbelow.le, hlow⟩
  rcases lt_or_ge d.toRat (10 ^ place) with habove | habove
  · -- The leading digits stand in the same place, so the decimal is on the grid itself.
    have hexponent : place - k ≤ d.exponent := by
      by_contra hlt
      have hle : d.toRat < 10 ^ (place - 1) := by
        calc d.toRat < 10 ^ k * 10 ^ d.exponent := mul_lt_mul_of_pos_right hd (by positivity)
          _ = 10 ^ (k + d.exponent) := by rw [zpow_add₀ (by norm_num), zpow_natCast]
          _ ≤ 10 ^ (place - 1) := zpow_le_zpow_right₀ (by norm_num) (by omega)
      exact absurd hle (not_lt.2 hbelow)
    obtain ⟨c, hc⟩ := Decimal.exists_toRat_eq hexponent
    rw [hc]
    rcases le_total d.toRat x.toRat with hle | hle
    · exact ⟨c, .inl ⟨le_rfl, hc ▸ hle⟩⟩
    · exact ⟨c, .inr ⟨hc ▸ hle, le_rfl⟩⟩
  · refine ⟨10 ^ k, .inr ?_⟩
    rw [Decimal.natCast_pow_mul_zpow k (show (k : Int) + (place - k) = place by omega)]
    exact ⟨hhigh.le, habove⟩

/-- What is found on the grid of some digits has no more digits that count. -/
theorem precision_le_of_onGrid? {k : Nat} (hk : 0 < k)
    (hhigh : x.toRat < 10 ^ Decimal.leadingPlace x.units unitsPerOne)
    (hd : x.onGrid? tie (Decimal.leadingPlace x.units unitsPerOne - k) = some d) :
    d.precision ≤ k := by
  set place := Decimal.leadingPlace x.units unitsPerOne
  have hlower : Decimal.stepsIn x.units unitsPerOne (place - k) < 10 ^ k := by
    have hp : (0 : ℚ) < 10 ^ (place - k) := by positivity
    have hlt := (x.lowerOnGrid_le (place - k)).trans_lt hhigh
    rw [← Decimal.natCast_pow_mul_zpow k (show (k : Int) + (place - k) = place by omega)] at hlt
    exact_mod_cast lt_of_mul_lt_mul_right hlt hp.le
  have hupper : (x.upperOnGrid (place - k)).precision ≤ k :=
    Decimal.precision_le_of_le hk hlower
  have hlower : (x.lowerOnGrid (place - k)).precision ≤ k :=
    Decimal.precision_le_of_lt hk hlower
  rw [onGrid?_eq] at hd
  split at hd
  · cases hd
    rcases nearer_lowerOnGrid tie x (place - k) with h | h
    · rwa [h]
    · rwa [h]
  · cases hd
    exact hlower
  · cases hd
    exact hupper
  · cases hd

/-! ### The shortest decimal -/

/-- The shortest decimal is what is found on the first grid that has a point reading as the
magnitude. It has at most as many digits as that grid. -/
theorem exists_grid (tie : Tie) (hx : 0 < x.units) :
    ∃ k d, x.onGrid? tie (Decimal.leadingPlace x.units unitsPerOne - (k : Nat)) = some d ∧
      (x.shortest tie).toRat = d.toRat ∧ (x.shortest tie).precision ≤ k ∧
      ∀ (i c : Nat), 0 < i →
        x.IsNearest (c * 10 ^ (Decimal.leadingPlace x.units unitsPerOne - (i : Nat))) → k ≤ i := by
  obtain ⟨c, hc⟩ := exists_isNearest_seventeen hx
  obtain ⟨k, hk, -, hfound, hcoarser⟩ :=
    exists_onGrid?_firstOnGrids tie 17 1 (by omega) (by omega) hc
  have hshortest : x.shortest tie = (x.firstOnGrids tie 17 1).trim := by
    rw [shortest, if_neg hx.ne']
  refine ⟨k, _, hfound, ?_, ?_, fun i c hi hread => ?_⟩
  · rw [hshortest, Decimal.toRat_trim]
  · rw [hshortest, Decimal.precision_trim]
    exact precision_le_of_onGrid? hk (leadingPlace_units hx).2 hfound
  · by_contra hlt
    obtain ⟨d, hd⟩ := exists_onGrid? tie hread
    rw [hcoarser i hi (by omega)] at hd
    cases hd

/-- Among the decimals that read as a positive magnitude none has fewer significant digits than the
shortest one, and none with as many lies closer to the magnitude. -/
theorem shortest_spec (tie : Tie) (hx : 0 < x.units) (h : x.IsNearest d.toRat) :
    (x.shortest tie).precision ≤ d.precision ∧
      (d.precision = (x.shortest tie).precision →
        |(x.shortest tie).toRat - x.toRat| ≤ |d.toRat - x.toRat|) := by
  obtain ⟨hlow, hhigh⟩ := leadingPlace_units hx
  obtain ⟨k, found, hfound, hvalue, hprecision, hfirst⟩ := exists_grid tie hx
  obtain ⟨c, hc⟩ := exists_between_on_grid hlow hhigh d.precision_pos d.coefficient_trim_lt
  rw [Decimal.toRat_trim] at hc
  have hread := isNearest_of_between h hc
  have hle := hfirst d.precision c d.precision_pos hread
  refine ⟨hprecision.trans hle, fun heq => ?_⟩
  -- The shortest decimal was found on the grid of its own digits.
  obtain rfl : k = d.precision := by omega
  rw [hvalue]
  refine (abs_onGrid?_sub_le hfound hread).trans ?_
  rcases hc with ⟨h1, h2⟩ | ⟨h1, h2⟩
  · rw [abs_of_nonpos (by linarith), abs_of_nonpos (by linarith)]
    linarith
  · rw [abs_of_nonneg (by linarith), abs_of_nonneg (by linarith)]
    linarith

end Magnitude

end DrillPost
