import DrillPost.Proofs.Decimal.Rounded
import DrillPost.Proofs.Decimal.Significant
import DrillPost.Proofs.Gcode.Word

/-!
# Number words have the fewest digits

The word of a value that is not zero has as few significant digits as any text that reads as the
value, and lies at least as close to it as any with as many (`Gcode.words_shortest`). This is what
`Magnitude.shortest_spec` says of decimals, told of texts: a text that reads as the value is the
sign of the value and a numeral (`Binary64.ReadsAs.exists_numeral`).
-/

namespace DrillPost

/-- A text that reads as a finite value that is not zero has the sign of the value. -/
theorem Binary64.ReadsAs.exists_numeral {word : String} {negative : Bool} {x : Magnitude}
    (h : ReadsAs word (.finite negative x)) (hx : x.significand ≠ 0) :
    ∃ n, Numeral.ofSigned? word.toList = some (negative, n) ∧ x.IsNearest n.toRat := by
  obtain ⟨y, hread, hequal⟩ := h
  cases y with
  | nan => cases hequal
  | infinite s => cases hequal
  | finite s m =>
    obtain ⟨rfl, hsign⟩ := equal_finite_iff.1 hequal
    obtain rfl := hsign.resolve_right hx
    exact Binary64.exists_numeral hread

namespace Gcode

variable {x : Magnitude}

/-- A decimal that reads as a magnitude that is not zero has a digit that counts. -/
theorem coefficient_ne_zero {d : Decimal} (hx : 0 < x.units) (h : x.IsNearest d.toRat) :
    d.coefficient ≠ 0 := by
  intro hzero
  rw [Decimal.toRat_eq_zero_iff.2 hzero] at h
  rw [h.eq_zero] at hx
  exact absurd hx (lt_irrefl _)

/-- The significant digits of a text of a sign and a numeral. -/
def significantDigits? (word : String) : Option (List Char) :=
  (Numeral.ofSigned? word.toList).map fun (_, n) => n.significantDigits

/-- What is read from the word of a value. -/
theorem ofSigned?_scalar (negative : Bool) (x : Magnitude) :
    Numeral.ofSigned? (scalar (.finite negative x)).toList =
      some (negative && x.significand != 0, wordNumeral x) := by
  rw [toList_scalar]
  exact Numeral.ofSigned?_signText (Numeral.ofText?_plainText (isPlain_wordNumeral x)) _

theorem ofSigned?_coordinate (negative : Bool) (x : Magnitude) :
    Numeral.ofSigned? (coordinate (.finite negative x)).toList =
      some (negative && x.significand != 0, (wordNumeral x).withFraction) := by
  rw [toList_coordinate]
  exact Numeral.ofSigned?_signText
    (Numeral.ofText?_plainText (isPlain_wordNumeral x).withFraction) _

/-- The word of a value that is not zero reads as the value. Of the texts that do, none has fewer
significant digits, and none with as many denotes a number that is closer to the value. A coordinate
has the same significant digits. -/
theorem words_shortest {v : Binary64} (hv : v.isFinite = true) (hzero : v.isZero = false) :
    Binary64.ReadsAs (scalar v) v ∧
    ∃ digits q, significantDigits? (scalar v) = some digits ∧
      significantDigits? (coordinate v) = some digits ∧
      Numeral.number? (scalar v).toList = some q ∧
      ∀ word, Binary64.ReadsAs word v →
        ∃ others r, significantDigits? word = some others ∧
          Numeral.number? word.toList = some r ∧ digits.length ≤ others.length ∧
            (others.length = digits.length → |q - v.toRat| ≤ |r - v.toRat|) := by
  refine ⟨readsAs_scalar hv, ?_⟩
  obtain ⟨negative, x, rfl⟩ : ∃ negative x, v = .finite negative x := by
    cases v with
    | nan => cases hv
    | infinite s => cases hv
    | finite s x => exact ⟨s, x, rfl⟩
  have hne : x.significand ≠ 0 := beq_eq_false_iff_ne.1 hzero
  have hx : 0 < x.units := Nat.pos_of_ne_zero fun h => hne (Binary64.units_eq_zero_iff.1 h)
  have hword := ofSigned?_scalar negative x
  have hcoordinate := ofSigned?_coordinate negative x
  rw [bne_iff_ne.2 hne, Bool.and_true] at hword hcoordinate
  refine ⟨(wordNumeral x).significantDigits, if negative then -(wordNumeral x).toRat else
    (wordNumeral x).toRat, ?_, ?_, ?_, fun word hread => ?_⟩
  · rw [significantDigits?, hword]
    rfl
  · rw [significantDigits?, hcoordinate]
    exact congrArg some (wordNumeral x).significantDigits_withFraction
  · rw [Numeral.number?, hword]
    rfl
  · obtain ⟨n, hn, hnear⟩ := hread.exists_numeral hne
    obtain ⟨hwhole, hfraction⟩ := Numeral.isDigits_of_ofSigned? hn
    have hshortest := coefficient_ne_zero hx (x.isNearest_shortest .up)
    obtain ⟨hfewest, hclosest⟩ := Magnitude.shortest_spec .up hx hnear
    refine ⟨n.significantDigits, if negative then -n.toRat else n.toRat, ?_, ?_, ?_⟩
    · rw [significantDigits?, hn]
      rfl
    · rw [Numeral.number?, hn]
      rfl
    · rw [Binary64.abs_signed_sub, Binary64.abs_signed_sub, wordNumeral, Decimal.toRat_numeral,
        Numeral.length_significantDigits_numeral hshortest,
        Numeral.length_significantDigits hwhole hfraction (coefficient_ne_zero hx hnear)]
      exact ⟨hfewest, hclosest⟩

/-- At the value next to zero from below: `-3e-324` reads as it and has as many digits as its word,
which is no farther from it. -/
theorem words_shortest_least :
    let least : Binary64 := .finite true ⟨1, 0, by decide, by decide, .inr rfl⟩
    Binary64.ReadsAs "-3e-324" least ∧
    ∃ digits q r, significantDigits? (scalar least) = some digits ∧
      Numeral.number? (scalar least).toList = some q ∧
      Numeral.number? "-3e-324".toList = some r ∧ digits.length ≤ 1 ∧
        (digits.length = 1 → |q - least.toRat| ≤ |r - least.toRat|) := by
  intro least
  have hread : Binary64.ReadsAs "-3e-324" least := ⟨least, by decide +kernel, by decide +kernel⟩
  obtain ⟨-, digits, q, hdigits, -, hq, hshortest⟩ := words_shortest (v := least) rfl (by decide)
  obtain ⟨others, r, hothers, hr, hfewest, hclosest⟩ := hshortest _ hread
  have hlength : significantDigits? "-3e-324" = some ['3'] := by decide +kernel
  rw [hlength] at hothers
  cases hothers
  exact ⟨hread, digits, q, r, hdigits, hq, hr, hfewest, fun h => hclosest h.symm⟩

end Gcode

end DrillPost
