import DrillPost.Proofs.Decimal.Value

/-!
# The shortest decimal

* `isNearest_shortest`: the shortest decimal of a magnitude reads back as the magnitude.
* `toRat_shortest`: where a decimal of at most fifteen digits reads as a magnitude of fifty-three
  binary digits, the shortest decimal of the magnitude is the same number.

Both follow from the grids. On the grid of seventeen digits one of the two neighbours of a magnitude
is near enough to it; and if any point of a grid reads as the magnitude, so does a neighbour
(`exists_onGrid?`), because the numbers that round to a magnitude have no gaps. Points of the grid
of fifteen digits are further apart than two numbers that round to the same magnitude.
-/

namespace DrillPost

namespace Decimal

/-- A decimal lies on every grid that is at least as fine as its exponent. -/
theorem exists_toRat_eq {d : Decimal} {e : Int} (h : e ≤ d.exponent) :
    ∃ c : Nat, d.toRat = c * 10 ^ e := by
  refine ⟨d.coefficient * 10 ^ (d.exponent - e).toNat, ?_⟩
  obtain ⟨n, hn⟩ := Int.eq_ofNat_of_zero_le (Int.sub_nonneg_of_le h)
  rw [toRat, hn, show d.exponent = n + e by omega, zpow_add₀ (by norm_num)]
  push_cast
  rw [Int.toNat_natCast, zpow_natCast, mul_assoc]

/-! ### Places and steps -/

variable {num den : Nat}

theorem powerOfTen_le_iff {n k : Nat} (h : 0 < k) : powerOfTen k ≤ n ↔ k < digitCount n := by
  rw [← Nat.not_lt, ← digitCount_le_iff h, Nat.not_le]

/-- A positive number has its digits. -/
theorem powerOfTen_pred_le {n : Nat} (hn : 0 < n) : powerOfTen (digitCount n - 1) ≤ n := by
  rcases Nat.lt_or_ge 1 (digitCount n) with h | h
  · exact (powerOfTen_le_iff (by omega)).2 (by omega)
  · rw [show digitCount n - 1 = 0 by omega]
    exact hn

/-- The leading digit stands just below the leading place. -/
theorem leadingPlace_spec (hnum : 0 < num) (hden : 0 < den) :
    (10 : ℚ) ^ (leadingPlace num den - 1) ≤ num / den ∧
      (num : ℚ) / den < 10 ^ leadingPlace num den := by
  have hn : (0 : ℚ) < num := by exact_mod_cast hnum
  have hd : (0 : ℚ) < den := by exact_mod_cast hden
  unfold leadingPlace
  split
  · next hle =>
    have hpos : 0 < num / den := Nat.div_pos hle hden
    have h1 := powerOfTen_pred_le hpos
    have h2 := (digitCount_le_iff (digitCount_pos (num / den))).1 (Nat.le_refl _)
    have hcount := digitCount_pos (num / den)
    rw [Nat.le_div_iff_mul_le hden] at h1
    rw [Nat.div_lt_iff_lt_mul hden] at h2
    constructor
    · rw [show (digitCount (num / den) : Int) - 1 = ((digitCount (num / den) - 1 : Nat) : Int) by
        omega, zpow_natCast, le_div_iff₀ hd, ← powerOfTen_cast]
      exact_mod_cast h1
    · rw [zpow_natCast, div_lt_iff₀ hd, ← powerOfTen_cast]
      exact_mod_cast h2
  · next hlt =>
    have hpos : 0 < (den - 1) / num := Nat.div_pos (by omega) hnum
    have h1 := powerOfTen_pred_le hpos
    have h2 := (digitCount_le_iff (digitCount_pos ((den - 1) / num))).1 (Nat.le_refl _)
    have hcount := digitCount_pos ((den - 1) / num)
    rw [Nat.le_div_iff_mul_le hnum] at h1
    rw [Nat.div_lt_iff_lt_mul hnum] at h2
    set k := digitCount ((den - 1) / num)
    constructor
    · rw [show 1 - (k : Int) - 1 = -(k : Int) by omega, zpow_neg, zpow_natCast, inv_eq_one_div,
        div_le_div_iff₀ (by positivity) hd, ← powerOfTen_cast, one_mul, mul_comm]
      exact_mod_cast (show den ≤ powerOfTen k * num by omega)
    · rw [show 1 - (k : Int) = -((k - 1 : Nat) : Int) by omega, zpow_neg, zpow_natCast,
        inv_eq_one_div, div_lt_div_iff₀ hd (by positivity), ← powerOfTen_cast, one_mul, mul_comm]
      exact_mod_cast (show powerOfTen (k - 1) * num < den by omega)

/-- How many steps of a power of ten there are in a ratio, as a ratio of natural numbers. -/
theorem ratio_div_zpow (num den : Nat) (e : Int) :
    (num : ℚ) / den / 10 ^ e =
      (num * powerOfTen (-e).toNat : Nat) / (den * powerOfTen e.toNat : Nat) := by
  have hnd := num_div_den ⟨1, e⟩
  unfold Decimal.num Decimal.den toRat at hnd
  rw [one_mul, Nat.cast_one, one_mul] at hnd
  rw [← hnd, div_div_eq_mul_div, div_mul_eq_mul_div, div_div]
  push_cast
  rfl

theorem stepsIn_spec (num : Nat) (hden : 0 < den) (e : Int) :
    (stepsIn num den e : ℚ) * 10 ^ e ≤ num / den ∧
      (num : ℚ) / den < (stepsIn num den e + 1) * 10 ^ e := by
  have hp : (0 : ℚ) < 10 ^ e := by positivity
  have hstep : 0 < den * powerOfTen e.toNat := Nat.mul_pos hden (powerOfTen_pos _)
  have hs : (0 : ℚ) < (den * powerOfTen e.toNat : Nat) := by exact_mod_cast hstep
  rw [← le_div_iff₀ hp, ← div_lt_iff₀ hp, ratio_div_zpow]
  unfold stepsIn
  rw [le_div_iff₀ hs, div_lt_iff₀ hs]
  constructor
  · exact_mod_cast Nat.div_mul_le_self _ _
  · exact_mod_cast Nat.lt_mul_of_div_lt (Nat.lt_succ_self _) hstep

end Decimal

namespace Magnitude

variable {x : Magnitude} {tie : Tie}

/-! ### Grids -/

theorem isReadFrom_iff {d : Decimal} : x.isReadFrom d = true ↔ x.IsNearest d.toRat := by
  rw [isReadFrom, beq_iff_eq, Decimal.nearest?_eq_some_iff]

/-- The neighbour of a magnitude below it on the grid of a power of ten. -/
def lowerOnGrid (x : Magnitude) (e : Int) : Decimal := ⟨Decimal.stepsIn x.units unitsPerOne e, e⟩

/-- The neighbour of a magnitude above it on the grid of a power of ten. -/
def upperOnGrid (x : Magnitude) (e : Int) : Decimal :=
  ⟨Decimal.stepsIn x.units unitsPerOne e + 1, e⟩

theorem lowerOnGrid_le (x : Magnitude) (e : Int) : (x.lowerOnGrid e).toRat ≤ x.toRat :=
  (Decimal.stepsIn_spec x.units (Nat.cast_pos.1 unitsPerOne_pos) e).1

theorem lt_upperOnGrid (x : Magnitude) (e : Int) : x.toRat < (x.upperOnGrid e).toRat := by
  have := (Decimal.stepsIn_spec x.units (Nat.cast_pos.1 unitsPerOne_pos) e).2
  unfold upperOnGrid Decimal.toRat
  push_cast
  exact this

theorem upperOnGrid_sub_lowerOnGrid (x : Magnitude) (e : Int) :
    (x.upperOnGrid e).toRat - (x.lowerOnGrid e).toRat = 10 ^ e := by
  unfold upperOnGrid lowerOnGrid Decimal.toRat
  push_cast
  ring

theorem onGrid?_eq (tie : Tie) (x : Magnitude) (e : Int) :
    x.onGrid? tie e =
      match x.isReadFrom (x.lowerOnGrid e), x.isReadFrom (x.upperOnGrid e) with
      | true, true => some (nearer tie x (x.lowerOnGrid e))
      | true, false => some (x.lowerOnGrid e)
      | false, true => some (x.upperOnGrid e)
      | false, false => none := rfl

theorem nearer_lowerOnGrid (tie : Tie) (x : Magnitude) (e : Int) :
    nearer tie x (x.lowerOnGrid e) = x.lowerOnGrid e ∨
      nearer tie x (x.lowerOnGrid e) = x.upperOnGrid e := by
  unfold nearer
  dsimp only
  split
  · exact .inl rfl
  · exact .inr rfl
  · split
    · exact .inr rfl
    · split
      · exact .inl rfl
      · exact .inr rfl

/-- What is found on a grid is one of the two neighbours and reads as the magnitude. -/
theorem onGrid?_eq_some {e : Int} {d : Decimal} (h : x.onGrid? tie e = some d) :
    d.exponent = e ∧ x.IsNearest d.toRat := by
  rw [onGrid?_eq] at h
  split at h
  · next hlower hupper =>
    cases h
    rcases nearer_lowerOnGrid tie x e with h | h
    · rw [h]
      exact ⟨rfl, isReadFrom_iff.1 hlower⟩
    · rw [h]
      exact ⟨rfl, isReadFrom_iff.1 hupper⟩
  · next hlower _ =>
    cases h
    exact ⟨rfl, isReadFrom_iff.1 hlower⟩
  · next _ hupper =>
    cases h
    exact ⟨rfl, isReadFrom_iff.1 hupper⟩
  · cases h

/-- If a point of a grid reads as a magnitude, so does a neighbour of the magnitude that is at least
as close. -/
theorem exists_neighbour {c : Nat} {e : Int} (h : x.IsNearest (c * 10 ^ e)) :
    (x.isReadFrom (x.lowerOnGrid e) = true ∧
        |(x.lowerOnGrid e).toRat - x.toRat| ≤ |(c * 10 ^ e : ℚ) - x.toRat|) ∨
      x.isReadFrom (x.upperOnGrid e) = true ∧
        |(x.upperOnGrid e).toRat - x.toRat| ≤ |(c * 10 ^ e : ℚ) - x.toRat| := by
  have hp : (0 : ℚ) < 10 ^ e := by positivity
  have hlower := x.lowerOnGrid_le e
  have hupper := (x.lt_upperOnGrid e).le
  rw [isReadFrom_iff, isReadFrom_iff]
  -- A point below the magnitude is at most the lower neighbour, one above at least the upper.
  rcases Nat.lt_or_ge (Decimal.stepsIn x.units unitsPerOne e) c with hlt | hge
  · have hle : (x.upperOnGrid e).toRat ≤ c * 10 ^ e := by
      refine mul_le_mul_of_nonneg_right ?_ hp.le
      exact_mod_cast hlt
    refine .inr ⟨isNearest_of_between h (.inr ⟨hupper, hle⟩), ?_⟩
    rw [abs_of_nonneg (by linarith), abs_of_nonneg (by linarith)]
    linarith
  · have hle : c * 10 ^ e ≤ (x.lowerOnGrid e).toRat := by
      refine mul_le_mul_of_nonneg_right ?_ hp.le
      exact_mod_cast hge
    refine .inl ⟨isNearest_of_between h (.inl ⟨hle, hlower⟩), ?_⟩
    rw [abs_of_nonpos (by linarith), abs_of_nonpos (by linarith)]
    linarith

/-- If any point of a grid reads as the magnitude, one is found. -/
theorem exists_onGrid? (tie : Tie) {c : Nat} {e : Int} (h : x.IsNearest (c * 10 ^ e)) :
    ∃ d, x.onGrid? tie e = some d := by
  have hneighbour := exists_neighbour h
  rw [onGrid?_eq]
  split
  · exact ⟨_, rfl⟩
  · exact ⟨_, rfl⟩
  · exact ⟨_, rfl⟩
  · next hlower hupper =>
    rw [hlower, hupper] at hneighbour
    rcases hneighbour with ⟨hread, -⟩ | ⟨hread, -⟩ <;> cases hread

/-- Among grids one of which has a point that reads as the magnitude, the search stops at the first
such grid, with what is found on it. -/
theorem exists_onGrid?_firstOnGrids (tie : Tie) {c n : Nat} (grids digits : Nat) (hlow : digits ≤ n)
    (hhigh : n < digits + grids)
    (h : x.IsNearest (c * 10 ^ (Decimal.leadingPlace x.units unitsPerOne - n))) :
    ∃ k, digits ≤ k ∧ k ≤ n ∧ x.onGrid? tie (Decimal.leadingPlace x.units unitsPerOne - k) =
        some (x.firstOnGrids tie grids digits) ∧
      ∀ i, digits ≤ i → i < k →
        x.onGrid? tie (Decimal.leadingPlace x.units unitsPerOne - i) = none := by
  induction grids generalizing digits with
  | zero => omega
  | succ grids ih =>
    unfold firstOnGrids
    split
    · next d hd => exact ⟨digits, le_rfl, hlow, hd, fun i h1 h2 => by omega⟩
    · next hnone =>
      have hne : digits ≠ n := by
        rintro rfl
        obtain ⟨d, hd⟩ := exists_onGrid? tie h
        rw [hd] at hnone
        cases hnone
      obtain ⟨k, hdigits, hk, hfound, hcoarser⟩ := ih (digits + 1) (by omega) (by omega)
      refine ⟨k, by omega, hk, hfound, fun i h1 h2 => ?_⟩
      rcases Nat.eq_or_lt_of_le h1 with rfl | hlt
      · exact hnone
      · exact hcoarser i hlt h2

/-- The search stops at a point that reads as the magnitude, on a grid that has one or on a coarser
one. -/
theorem firstOnGrids_spec (tie : Tie) {c n : Nat} (grids digits : Nat) (hlow : digits ≤ n)
    (hhigh : n < digits + grids)
    (h : x.IsNearest (c * 10 ^ (Decimal.leadingPlace x.units unitsPerOne - n))) :
    ∃ k ≤ n, (x.firstOnGrids tie grids digits).exponent =
        Decimal.leadingPlace x.units unitsPerOne - k ∧
      x.IsNearest (x.firstOnGrids tie grids digits).toRat := by
  obtain ⟨k, -, hk, hfound, -⟩ := exists_onGrid?_firstOnGrids tie grids digits hlow hhigh h
  exact ⟨k, hk, onGrid?_eq_some hfound⟩

/-! ### The shortest decimal reads back -/

theorem leadingPlace_units (hx : 0 < x.units) :
    (10 : ℚ) ^ (Decimal.leadingPlace x.units unitsPerOne - 1) ≤ x.toRat ∧
      x.toRat < 10 ^ Decimal.leadingPlace x.units unitsPerOne :=
  Decimal.leadingPlace_spec hx (Nat.cast_pos.1 unitsPerOne_pos)

/-- Seventeen digits are enough. -/
theorem exists_isNearest_seventeen (hx : 0 < x.units) :
    ∃ c : Nat, x.IsNearest (c * 10 ^ (Decimal.leadingPlace x.units unitsPerOne - (17 : Nat))) := by
  set e := Decimal.leadingPlace x.units unitsPerOne - (17 : Nat) with he
  have hstep : (10 : ℚ) ^ e * 10 ^ 16 ≤ x.toRat := by
    refine le_of_eq_of_le ?_ (leadingPlace_units hx).1
    rw [← zpow_natCast, ← zpow_add₀ (by norm_num)]
    congr 1
    omega
  have hp : (0 : ℚ) < 10 ^ e := by positivity
  have hlower := x.lowerOnGrid_le e
  have hupper := x.lt_upperOnGrid e
  have hdiff := x.upperOnGrid_sub_lowerOnGrid e
  -- One of the two neighbours is at most half a step away.
  rcases le_total (x.toRat - (x.lowerOnGrid e).toRat) ((x.upperOnGrid e).toRat - x.toRat) with h | h
  · refine ⟨(x.lowerOnGrid e).coefficient, isNearest_of_abs_lt ?_⟩
    show 2 ^ 54 * |(x.lowerOnGrid e).toRat - x.toRat| < x.toRat
    rw [abs_of_nonpos (by linarith)]
    linarith
  · refine ⟨(x.upperOnGrid e).coefficient, isNearest_of_abs_lt ?_⟩
    show 2 ^ 54 * |(x.upperOnGrid e).toRat - x.toRat| < x.toRat
    rw [abs_of_nonneg (by linarith)]
    linarith

/-- The shortest decimal of a magnitude reads back as the magnitude. -/
theorem isNearest_shortest (tie : Tie) (x : Magnitude) : x.IsNearest (x.shortest tie).toRat := by
  unfold shortest
  split
  · next h0 =>
    have hx : x.toRat = 0 := toRat_eq_zero_iff.2 h0
    have hzero : (⟨0, 0⟩ : Decimal).toRat = x.toRat := by
      rw [hx, Decimal.toRat, Nat.cast_zero, zero_mul]
    rw [hzero]
    exact x.isNearest_toRat
  · next h0 =>
    rw [Decimal.toRat_trim]
    obtain ⟨c, hc⟩ := exists_isNearest_seventeen (Nat.pos_of_ne_zero h0)
    obtain ⟨k, -, -, h⟩ := firstOnGrids_spec tie 17 1 (by omega) (by omega) hc
    exact h

/-! ### Decimals of few digits -/

/-- A decimal of at most fifteen digits that reads as a magnitude has no digit below the grid of
fifteen digits: the magnitude is too near to it. -/
theorem leadingPlace_le_of_isNearest {d : Decimal} (hd : d.coefficient < 10 ^ 15)
    (hx : 0x10000000000000 ≤ x.significand) (hpos : 0 < x.units) (h : x.IsNearest d.toRat) :
    Decimal.leadingPlace x.units unitsPerOne - (15 : Nat) ≤ d.exponent := by
  -- If it had such a digit, the decimal would have to lie a whole step below the power of ten that
  -- the magnitude is not below.
  by_contra hlt
  set place := Decimal.leadingPlace x.units unitsPerOne with hplace
  have hp : (0 : ℚ) < 10 ^ (place - 16) := by positivity
  have hcoefficient : (d.coefficient : ℚ) ≤ 10 ^ 15 - 1 := by
    have : (d.coefficient : ℚ) + 1 ≤ 10 ^ 15 := by exact_mod_cast hd
    linarith
  have hle : d.toRat ≤ (10 ^ 15 - 1) * 10 ^ (place - 16) := by
    refine mul_le_mul hcoefficient ?_ (by positivity) (by norm_num)
    exact zpow_le_zpow_right₀ (by norm_num) (by omega)
  have hge : 10 ^ 15 * 10 ^ (place - 16) ≤ x.toRat := by
    refine le_of_eq_of_le ?_ (leadingPlace_units hpos).1
    rw [← zpow_natCast, ← zpow_add₀ (by norm_num)]
    congr 1
    omega
  have hnear := abs_sub_le_of_isNearest h hx
  have habs := neg_abs_le (d.toRat - x.toRat)
  linarith

/-- Where a decimal of at most fifteen digits reads as a magnitude of fifty-three binary digits, the
shortest decimal of the magnitude is the same number. -/
theorem toRat_shortest (tie : Tie) {d : Decimal} (hd : d.coefficient < 10 ^ 15)
    (hx : 0x10000000000000 ≤ x.significand) (h : x.IsNearest d.toRat) :
    (x.shortest tie).toRat = d.toRat := by
  have hpos : 0 < x.units := by
    rw [units, Nat.shiftLeft_eq]
    exact Nat.mul_pos (by omega) (Nat.two_pow_pos _)
  obtain ⟨c, hc⟩ := Decimal.exists_toRat_eq (leadingPlace_le_of_isNearest hd hx hpos h)
  obtain ⟨k, hk, hexponent, hshort⟩ :=
    firstOnGrids_spec tie 17 1 (by omega) (by omega) (hc ▸ h)
  have hfirst : (x.shortest tie).toRat = (x.firstOnGrids tie 17 1).toRat := by
    rw [shortest, if_neg (by omega), Decimal.toRat_trim]
  rw [hfirst]
  set first := x.firstOnGrids tie 17 1
  set place := Decimal.leadingPlace x.units unitsPerOne
  obtain ⟨c', hc'⟩ := Decimal.exists_toRat_eq (d := first) (e := place - (15 : Nat)) (by omega)
  -- Both lie on the grid of fifteen digits, less than a step apart.
  have hp : (0 : ℚ) < 10 ^ (place - (15 : Nat)) := by positivity
  have hlt : x.toRat < 10 ^ 15 * 10 ^ (place - (15 : Nat)) := by
    refine lt_of_lt_of_eq (leadingPlace_units hpos).2 ?_
    rw [← zpow_natCast, ← zpow_add₀ (by norm_num)]
    congr 1
    omega
  have h1 := abs_sub_le_of_isNearest h hx
  have h2 := abs_sub_le_of_isNearest hshort hx
  have h3 : |d.toRat - first.toRat| ≤ |d.toRat - x.toRat| + |first.toRat - x.toRat| := by
    rw [abs_sub_comm first.toRat]
    exact abs_sub_le _ _ _
  have hdist : |(c : ℚ) - c'| * 10 ^ (place - (15 : Nat)) < 1 * 10 ^ (place - (15 : Nat)) := by
    rw [← abs_of_pos hp, ← abs_mul, abs_of_pos hp, sub_mul, ← hc, ← hc']
    linarith
  have hc_eq : (c : Int) = c' := by
    have hlt_one := lt_of_mul_lt_mul_right hdist hp.le
    have : |(c : Int) - c'| < 1 := by exact_mod_cast hlt_one
    exact Int.eq_of_sub_eq_zero (Int.abs_lt_one_iff.1 this)
  rw [hc, hc', Int.natCast_inj.1 hc_eq]

end Magnitude

end DrillPost
