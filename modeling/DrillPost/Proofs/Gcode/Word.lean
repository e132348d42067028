import DrillPost.Gcode.Line
import DrillPost.Proofs.Decimal.Numeral

/-!
# Number words read back

The word of a finite value is a sign and a plain numeral (`toList_scalar`, `toList_coordinate`).
Read as a value it is the one that was written, but that a zero has lost its sign (`ofText_scalar`,
`ofText_coordinate`). So values are equal exactly if their words are (`equal_of_scalar_eq`,
`scalar_eq_of_equal`).
-/

namespace DrillPost

namespace Binary64

/-- The same value, a zero without a sign. -/
def unsignedZero : Binary64 → Binary64
  | .finite negative x => .finite (negative && x.significand != 0) x
  | x => x

theorem units_eq_zero_iff {x : Magnitude} : x.units = 0 ↔ x.significand = 0 := by
  rw [Magnitude.units, Nat.shiftLeft_eq, Nat.mul_eq_zero,
    or_iff_left (Nat.two_pow_pos x.scale).ne']

/-- Equal values have the same magnitude, and the same sign unless they are zeros. -/
theorem equal_finite_iff {s t : Bool} {x y : Magnitude} :
    (finite s x).equal (finite t y) = true ↔ x = y ∧ (s = t ∨ x.significand = 0) := by
  rw [equal_finite, beq_iff_eq]
  constructor
  · intro h
    -- Units of both signs can only be equal if there are none, so the magnitudes are equal.
    have hxy : x = y := by
      apply Magnitude.eq_of_units_eq
      cases s <;> cases t <;> simp only [signedUnits] at h <;> omega
    subst hxy
    refine ⟨rfl, ?_⟩
    rw [← units_eq_zero_iff, or_iff_not_imp_left]
    intro hst
    cases s <;> cases t <;> simp_all [signedUnits]
  · rintro ⟨rfl, rfl | h⟩
    · rfl
    · rw [← units_eq_zero_iff] at h
      cases s <;> cases t <;> simp [signedUnits, h]

theorem equal_self_of_isFinite {x : Binary64} (h : x.isFinite = true) : x.equal x = true := by
  apply equal_self
  rintro rfl
  cases h

/-- Equality is transitive on values that are finite in the middle. -/
theorem equal_trans {x y z : Binary64} (hxy : x.equal y = true) (hyz : y.equal z = true) :
    x.equal z = true := by
  cases x <;> cases y <;> cases z <;> simp_all [equal]

/-- The sign of a zero makes no difference to the number. -/
theorem equal_unsignedZero {x : Binary64} (hx : x.isFinite = true) :
    x.unsignedZero.equal x = true := by
  cases x with
  | nan => cases hx
  | infinite s => cases hx
  | finite s x =>
    rw [unsignedZero, equal_finite_iff]
    refine ⟨rfl, ?_⟩
    by_cases h : x.significand = 0
    · exact .inr h
    · left
      rw [bne_iff_ne.2 h, Bool.and_true]

theorem isFinite_unsignedZero (x : Binary64) : x.unsignedZero.isFinite = x.isFinite := by
  cases x <;> rfl

theorem equal_of_unsignedZero_eq {x y : Binary64} (hx : x.isFinite = true)
    (hy : y.isFinite = true) (h : x.unsignedZero = y.unsignedZero) : x.equal y = true := by
  have hx := equal_unsignedZero hx
  have hy := equal_unsignedZero hy
  rw [h, equal_comm] at hx
  exact equal_trans hx hy

/-- The text reads as a value that is equal to the given one. -/
def ReadsAs (word : String) (x : Binary64) : Prop := ∃ y, ofText word = .ok y ∧ y.equal x = true

theorem neg_equal_neg (x y : Binary64) : x.neg.equal y.neg = x.equal y := by
  have hneg : ∀ (s : Bool) (x : Magnitude), signedUnits (!s) x = -signedUnits s x := by
    intro s x
    cases s <;> simp [signedUnits]
  cases x with
  | nan => rfl
  | infinite s => cases y <;> simp [neg, equal]
  | finite s x =>
    cases y with
    | nan => rfl
    | infinite t => rfl
    | finite t y =>
      rw [neg, neg, equal_finite, equal_finite, hneg, hneg, Bool.eq_iff_iff, beq_iff_eq, beq_iff_eq,
        Int.neg_inj]

end Binary64

namespace Gcode

open Numeral

/-- The numeral in the word of a magnitude. -/
def wordNumeral (x : Magnitude) : Numeral := (x.shortest .up).numeral

theorem isPlain_wordNumeral (x : Magnitude) : (wordNumeral x).IsPlain :=
  Decimal.isPlain_numeral _

theorem isNearest_wordNumeral (x : Magnitude) : x.IsNearest (wordNumeral x).toRat := by
  rw [wordNumeral, Decimal.toRat_numeral]
  exact x.isNearest_shortest .up

theorem toList_scalar (s : Bool) (x : Magnitude) :
    (scalar (.finite s x)).toList =
      signText (s && x.significand != 0) ++ (wordNumeral x).plainText := by
  unfold scalar
  split
  · next h =>
    have hzero : x.significand = 0 := beq_iff_eq.1 h
    -- Zero is written without a sign, and its shortest decimal is `0`.
    have hshort : x.shortest .up = ⟨0, 0⟩ := by
      rw [Magnitude.shortest, if_pos (Binary64.units_eq_zero_iff.2 hzero)]
    rw [hzero, wordNumeral, hshort, bne_self_eq_false, Bool.and_false]
    rfl
  · next h =>
    have hne : (x.significand != 0) = true := by
      rw [bne, Bool.not_eq_true']
      exact Bool.eq_false_iff.2 h
    rw [hne, Bool.and_true, wordNumeral, ← Decimal.positional_eq, Binary64.text, Binary64.write,
      String.toList_ofList]
    rfl

/-- No sign and no digit is a point. -/
theorem point_mem_scalar_iff (s : Bool) (x : Magnitude) :
    '.' ∈ (scalar (.finite s x)).toList ↔ (wordNumeral x).fraction ≠ [] := by
  have hplain := isPlain_wordNumeral x
  have hdigits : ∀ {l : List Char}, IsDigits l → '.' ∉ l := fun hl h => absurd (hl _ h) (by decide)
  have hsign : '.' ∉ signText (s && x.significand != 0) := by
    cases s && x.significand != 0 <;> decide
  rw [toList_scalar, List.mem_append, or_iff_right hsign, plainText]
  split
  · next h =>
    exact ⟨fun hm => absurd hm (hdigits hplain.whole_digits), fun hne => absurd h hne⟩
  · next h =>
    exact ⟨fun _ => h, fun _ => List.mem_append_right _ List.mem_cons_self⟩

theorem toList_coordinate (s : Bool) (x : Magnitude) :
    (coordinate (.finite s x)).toList =
      signText (s && x.significand != 0) ++ (wordNumeral x).withFraction.plainText := by
  have hpoint := point_mem_scalar_iff s x
  unfold coordinate withFraction
  split
  · next h =>
    -- Without a point the numeral has no fraction, and gets one.
    have hnil : (wordNumeral x).fraction = [] := not_not.1 fun hne => h.2 (hpoint.2 hne)
    rw [String.toList_append, toList_scalar, if_pos hnil, List.append_assoc, plainText, if_pos hnil]
    rfl
  · next h =>
    have hne : (wordNumeral x).fraction ≠ [] := hpoint.1 (not_not.1 fun hm => h ⟨rfl, hm⟩)
    rw [toList_scalar, if_neg hne]

/-! ### Reading back -/

theorem ofText_scalar {x : Binary64} (hx : x.isFinite = true) :
    Binary64.ofText (scalar x) = .ok x.unsignedZero := by
  cases x with
  | nan => cases hx
  | infinite s => cases hx
  | finite s x =>
    rw [← String.ofList_toList (s := scalar _), toList_scalar,
      Binary64.ofText_signText (ofText?_plainText (isPlain_wordNumeral x)),
      Binary64.toBinary64_of_isNearest (isNearest_wordNumeral x)]
    rfl

theorem ofText_coordinate {x : Binary64} (hx : x.isFinite = true) :
    Binary64.ofText (coordinate x) = .ok x.unsignedZero := by
  cases x with
  | nan => cases hx
  | infinite s => cases hx
  | finite s x =>
    have hplain := isPlain_wordNumeral x
    have hnear : x.IsNearest (wordNumeral x).withFraction.toRat := by
      rw [toRat_withFraction hplain]
      exact isNearest_wordNumeral x
    rw [← String.ofList_toList (s := coordinate _), toList_coordinate,
      Binary64.ofText_signText (ofText?_plainText hplain.withFraction),
      Binary64.toBinary64_of_isNearest hnear]
    rfl

theorem readsAs_scalar {x : Binary64} (hx : x.isFinite = true) : Binary64.ReadsAs (scalar x) x :=
  ⟨_, ofText_scalar hx, Binary64.equal_unsignedZero hx⟩

theorem readsAs_coordinate {x : Binary64} (hx : x.isFinite = true) :
    Binary64.ReadsAs (coordinate x) x :=
  ⟨_, ofText_coordinate hx, Binary64.equal_unsignedZero hx⟩

theorem equal_of_scalar_eq {x y : Binary64} (hx : x.isFinite = true) (hy : y.isFinite = true)
    (h : scalar x = scalar y) : x.equal y = true := by
  have hread := ofText_scalar hx
  rw [h, ofText_scalar hy] at hread
  exact Binary64.equal_of_unsignedZero_eq hx hy (Except.ok.inj hread).symm

theorem scalar_eq_of_equal {x y : Binary64} (hx : x.isFinite = true) (hy : y.isFinite = true)
    (h : x.equal y = true) : scalar x = scalar y := by
  cases x with
  | nan => cases hx
  | infinite s => cases hx
  | finite s x =>
    cases y with
    | nan => cases hy
    | infinite t => cases hy
    | finite t y =>
      obtain ⟨rfl, hsign⟩ := Binary64.equal_finite_iff.1 h
      rw [← String.toList_inj, toList_scalar, toList_scalar]
      rcases hsign with rfl | hzero
      · rfl
      · rw [hzero, bne_self_eq_false, Bool.and_false, Bool.and_false]

theorem coordinate_eq_of_equal {x y : Binary64} (hx : x.isFinite = true) (hy : y.isFinite = true)
    (h : x.equal y = true) : coordinate x = coordinate y := by
  have hscalar := scalar_eq_of_equal hx hy h
  simp [coordinate, hscalar, hx, hy]

/-! ### Characters -/

def IsWordChar (c : Char) : Prop := c.isDigit ∨ c = '.' ∨ c = '-'

theorem isWordChar_of_mem_signed {n : Numeral} (h : n.IsPlain) {s : Bool} {c : Char}
    (hc : c ∈ signText s ++ n.plainText) : IsWordChar c := by
  rcases List.mem_append.1 hc with hc | hc
  · cases s
    · cases hc
    · exact .inr (.inr (List.mem_singleton.1 hc))
  · exact (mem_plainText h hc).imp_right .inl

theorem isWordChar_of_mem_scalar {x : Binary64} (hx : x.isFinite = true) {c : Char}
    (hc : c ∈ (scalar x).toList) : IsWordChar c := by
  cases x with
  | nan => cases hx
  | infinite s => cases hx
  | finite s x =>
    rw [toList_scalar] at hc
    exact isWordChar_of_mem_signed (isPlain_wordNumeral x) hc

theorem slash_not_mem_scalar (x : Binary64) : '/' ∉ (scalar x).toList := by
  cases x with
  | nan => decide
  | infinite s => cases s <;> decide
  | finite s x =>
    intro hc
    rcases isWordChar_of_mem_scalar rfl hc with hc | hc | hc <;> exact absurd hc (by decide)

/-- What is written like a finite value is one. -/
theorem isFinite_of_scalar_eq {x y : Binary64} (hx : x.isFinite = true)
    (h : scalar x = scalar y) : y.isFinite = true := by
  have hn : 'n' ∉ (scalar y).toList := by
    intro hc
    rw [← h] at hc
    rcases isWordChar_of_mem_scalar hx hc with hc | hc | hc <;> exact absurd hc (by decide)
  have hN : 'N' ∉ (scalar y).toList := by
    intro hc
    rw [← h] at hc
    rcases isWordChar_of_mem_scalar hx hc with hc | hc | hc <;> exact absurd hc (by decide)
  cases y with
  | nan => exact absurd (by decide) hN
  | infinite s => cases s <;> exact absurd (by decide) hn
  | finite s y => rfl

theorem isWordChar_of_mem_coordinate {x : Binary64} (hx : x.isFinite = true) {c : Char}
    (hc : c ∈ (coordinate x).toList) : IsWordChar c := by
  cases x with
  | nan => cases hx
  | infinite s => cases hx
  | finite s x =>
    rw [toList_coordinate] at hc
    exact isWordChar_of_mem_signed (isPlain_wordNumeral x).withFraction hc

end Gcode

end DrillPost
