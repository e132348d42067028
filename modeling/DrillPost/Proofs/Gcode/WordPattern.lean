import DrillPost.Proofs.Decimal.Layout
import DrillPost.Proofs.Decimal.Rounded
import DrillPost.Proofs.Decimal.Significant
import DrillPost.Proofs.Gcode.Word
import Mathlib.Computability.RegularExpressions

/-!
# How number words look

`Gcode.scalarPattern` and `Gcode.coordinatePattern` are the regular expressions of number words. No
word begins with a zero that another digit follows (`Magnitude.noLeadingZero_numeral`), and a
fraction that is there because the number needs it does not end in one
(`Magnitude.getLast?_fraction`). `Gcode.words_wellFormed` says that the words of finite values
match, read back and tell the values apart.
-/

namespace DrillPost

open Numeral RegularExpression

/-! ### The last digit -/

theorem getLast?_toDigits (n : Nat) :
    (Nat.toDigits 10 n).getLast? = some (Nat.digitChar (n % 10)) := by
  rw [Nat.toDigits_eq_if (by decide)]
  split
  · next hlt => rw [Nat.mod_eq_of_lt hlt, List.getLast?_singleton]
  · exact List.getLast?_concat

theorem Decimal.trim_mod {d : Decimal} (h : d.trim.coefficient ≠ 0) :
    d.trim.coefficient % 10 ≠ 0 := by
  fun_induction Decimal.trim d with
  | case1 d hlast ih => exact ih h
  | case2 d hlast => exact fun hzero => hlast ⟨h, hzero⟩

theorem Decimal.getLast?_fraction {d : Decimal} (h : d.numeral.fraction ≠ []) :
    d.numeral.fraction.getLast? = some (Nat.digitChar (d.coefficient % 10)) := by
  unfold numeral at h ⊢
  split at h
  · exact absurd rfl h
  split at h
  · next hneg hplaces =>
    rw [if_neg hneg, if_pos hplaces, List.getLast?_drop, if_neg (by omega)]
    exact getLast?_toDigits _
  · next hneg hplaces =>
    rw [if_neg hneg, if_neg hplaces, List.getLast?_append_of_ne_nil _ d.digits_ne_nil]
    exact getLast?_toDigits _

namespace Magnitude

theorem shortest_mod {tie : Tie} {x : Magnitude} (h : (x.shortest tie).coefficient ≠ 0) :
    (x.shortest tie).coefficient % 10 ≠ 0 := by
  unfold shortest at h ⊢
  split at h
  · exact absurd rfl h
  · next hne =>
    rw [if_neg hne]
    exact Decimal.trim_mod h

/-- The fraction of a shortest decimal ends in a digit that counts. -/
theorem getLast?_fraction {tie : Tie} {x : Magnitude}
    (h : (x.shortest tie).numeral.fraction ≠ []) :
    ∃ n < 10, n ≠ 0 ∧ (x.shortest tie).numeral.fraction.getLast? = some (Nat.digitChar n) := by
  refine ⟨_, Nat.mod_lt _ (by decide), shortest_mod fun hzero => h ?_, Decimal.getLast?_fraction h⟩
  rw [shortest_eq_zero hzero]
  rfl

end Magnitude

namespace Gcode

/-! ### Patterns -/

/-- Any one of the characters. -/
def oneOf (chars : List Char) : RegularExpression Char := (chars.map char).sum

def digit : RegularExpression Char := oneOf ['0', '1', '2', '3', '4', '5', '6', '7', '8', '9']

def nonzeroDigit : RegularExpression Char := oneOf ['1', '2', '3', '4', '5', '6', '7', '8', '9']

def optional (p : RegularExpression Char) : RegularExpression Char := 1 + p

/-- The pattern `-?(0|[1-9][0-9]*)`. -/
def wholePattern : RegularExpression Char :=
  optional (char '-') * (char '0' + nonzeroDigit * star digit)

/-- The pattern `-?(0|[1-9][0-9]*)(\.[0-9]*[1-9])?`. -/
def scalarPattern : RegularExpression Char :=
  wholePattern * optional (char '.' * (star digit * nonzeroDigit))

/-- The pattern `-?(0|[1-9][0-9]*)\.[0-9]+`. -/
def coordinatePattern : RegularExpression Char :=
  wholePattern * (char '.' * (digit * star digit))

section Matching

variable {p q : RegularExpression Char} {s t : List Char} {chars : List Char} {c : Char}

theorem rmatch_append (hs : p.rmatch s = true) (ht : q.rmatch t = true) :
    (p * q).rmatch (s ++ t) = true :=
  (mul_rmatch_iff p q _).2 ⟨s, t, rfl, hs, ht⟩

theorem rmatch_cons (ht : p.rmatch t = true) (c : Char) : (char c * p).rmatch (c :: t) = true :=
  rmatch_append ((char_rmatch_iff c [c]).2 rfl) ht

theorem rmatch_optional_nil : (optional p).rmatch [] = true :=
  (add_rmatch_iff 1 p []).2 (.inl rfl)

theorem rmatch_optional (h : p.rmatch s = true) : (optional p).rmatch s = true :=
  (add_rmatch_iff 1 p s).2 (.inr h)

theorem rmatch_oneOf (h : c ∈ chars) : (oneOf chars).rmatch [c] = true := by
  induction chars with
  | nil => cases h
  | cons a chars ih =>
    refine (add_rmatch_iff (char a) (oneOf chars) [c]).2 ?_
    rcases List.mem_cons.1 h with rfl | h
    · exact .inl ((char_rmatch_iff c [c]).2 rfl)
    · exact .inr (ih h)

theorem rmatch_digit {n : Nat} (h : n < 10) : digit.rmatch [Nat.digitChar n] = true :=
  rmatch_oneOf (by decide +revert)

theorem rmatch_nonzeroDigit {n : Nat} (h : n < 10) (hne : n ≠ 0) :
    nonzeroDigit.rmatch [Nat.digitChar n] = true :=
  rmatch_oneOf (by decide +revert)

theorem rmatch_digits (h : IsDigits s) : (star digit).rmatch s = true := by
  refine (star_rmatch_iff digit s).2 ⟨s.map ([·]), by simp [← List.flatMap_def], ?_⟩
  intro t ht
  obtain ⟨c, hc, rfl⟩ := List.mem_map.1 ht
  obtain ⟨n, hn, rfl⟩ := exists_eq_digitChar (h c hc)
  exact ⟨List.cons_ne_nil _ _, rmatch_digit hn⟩

end Matching

theorem rmatch_whole {n : Numeral} (h : n.IsPlain) (hzero : NoLeadingZero n.whole)
    (negative : Bool) : wholePattern.rmatch (signText negative ++ n.whole) = true := by
  have hsign : (optional (char '-')).rmatch (signText negative) = true := by
    cases negative
    · exact rmatch_optional_nil
    · exact rmatch_optional ((char_rmatch_iff '-' ['-']).2 rfl)
  refine rmatch_append hsign ((add_rmatch_iff _ _ _).2 ?_)
  rcases hzero with hzero | hhead
  · exact .inl (hzero ▸ (char_rmatch_iff '0' ['0']).2 rfl)
  · obtain ⟨c, r, hwhole⟩ := List.exists_cons_of_ne_nil h.whole_ne_nil
    have hdigits := h.whole_digits
    rw [hwhole] at hdigits hhead ⊢
    obtain ⟨n, hn, rfl⟩ := exists_eq_digitChar (hdigits c List.mem_cons_self)
    have hne : n ≠ 0 := by
      rintro rfl
      exact hhead rfl
    exact .inr (rmatch_append (rmatch_nonzeroDigit hn hne)
      (rmatch_digits fun c hc => hdigits c (List.mem_cons_of_mem _ hc)))

theorem rmatch_scalar (negative : Bool) (x : Magnitude) :
    scalarPattern.rmatch (scalar (.finite negative x)).toList = true := by
  have hplain := isPlain_wordNumeral x
  have hwhole := rmatch_whole hplain (x.noLeadingZero_numeral .up)
    (negative && x.significand != 0)
  rw [toList_scalar, plainText]
  split
  · rw [← List.append_nil (_ ++ _)]
    exact rmatch_append hwhole rmatch_optional_nil
  · next hne =>
    obtain ⟨n, hn, hn0, hlast⟩ := Magnitude.getLast?_fraction hne
    obtain ⟨others, hfraction⟩ := List.getLast?_eq_some_iff.1 hlast
    have hdigits := hplain.fraction_digits
    rw [← List.append_assoc]
    refine rmatch_append hwhole (rmatch_optional (rmatch_cons ?_ '.'))
    rw [wordNumeral, hfraction] at hdigits ⊢
    exact rmatch_append (rmatch_digits fun c hc => hdigits c (List.mem_append_left _ hc))
      (rmatch_nonzeroDigit hn hn0)

theorem rmatch_coordinate (negative : Bool) (x : Magnitude) :
    coordinatePattern.rmatch (coordinate (.finite negative x)).toList = true := by
  have hplain := (isPlain_wordNumeral x).withFraction
  have hzero : NoLeadingZero (wordNumeral x).withFraction.whole := by
    rw [whole_withFraction]
    exact x.noLeadingZero_numeral .up
  have hne := fraction_withFraction_ne_nil (wordNumeral x)
  rw [toList_coordinate, plainText, if_neg hne, ← List.append_assoc]
  refine rmatch_append (rmatch_whole hplain hzero _) (rmatch_cons ?_ '.')
  obtain ⟨c, r, hfraction⟩ := List.exists_cons_of_ne_nil hne
  have hdigits := hplain.fraction_digits
  rw [hfraction] at hdigits ⊢
  obtain ⟨n, hn, rfl⟩ := exists_eq_digitChar (hdigits c List.mem_cons_self)
  exact rmatch_append (rmatch_digit hn)
    (rmatch_digits fun c hc => hdigits c (List.mem_cons_of_mem _ hc))

/-! ### Words -/

theorem equal_of_coordinate_eq {x y : Binary64} (hx : x.isFinite = true) (hy : y.isFinite = true)
    (h : coordinate x = coordinate y) : x.equal y = true := by
  have hread := ofText_coordinate hx
  rw [h, ofText_coordinate hy] at hread
  exact Binary64.equal_of_unsignedZero_eq hx hy (Except.ok.inj hread).symm

theorem scalar_ne_negative_zero {v : Binary64} (hv : v.isFinite = true) : scalar v ≠ "-0" := by
  intro h
  have hread := ofText_scalar hv
  rw [h] at hread
  cases v with
  | nan => cases hv
  | infinite s => cases hv
  | finite s x =>
    have hzero : Binary64.ofText "-0" = .ok (.finite true .zero) := by decide +kernel
    obtain ⟨hs, rfl⟩ := Binary64.finite.inj (Except.ok.inj (hzero.symm.trans hread))
    cases s <;> cases hs

/-- The words of a finite value match their patterns, have no exponent, and denote a number to which
the value that they read as is closest, and that value is equal to the one that was written. So
values are equal exactly if their words are. -/
theorem words_wellFormed {v : Binary64} (hv : v.isFinite = true) :
    scalarPattern.rmatch (scalar v).toList = true ∧
    coordinatePattern.rmatch (coordinate v).toList = true ∧
    (∀ c ∈ (scalar v).toList, c.toLower ≠ 'e') ∧ scalar v ≠ "-0" ∧
    coordinate v = (if '.' ∈ (scalar v).toList then scalar v else scalar v ++ ".0") ∧
    (∀ word ∈ [scalar v, coordinate v], ∃ y q, Binary64.ofText word = .ok y ∧
      Numeral.number? word.toList = some q ∧ y.IsClosest q ∧ y.equal v = true) ∧
    ∀ w, w.isFinite = true →
      (scalar v = scalar w ↔ v.equal w = true) ∧
        (coordinate v = coordinate w ↔ v.equal w = true) := by
  have hread : ∀ word, Binary64.ofText word = .ok v.unsignedZero →
      ∃ y q, Binary64.ofText word = .ok y ∧ Numeral.number? word.toList = some q ∧
        y.IsClosest q ∧ y.equal v = true := by
    intro word hword
    obtain ⟨q, hq, hclosest⟩ :=
      Binary64.isClosest_of_ofText (v.isFinite_unsignedZero.trans hv) hword
    exact ⟨_, q, hword, hq, hclosest, Binary64.equal_unsignedZero hv⟩
  refine ⟨?_, ?_, fun c hc => ?_, scalar_ne_negative_zero hv, ?_, ?_, fun w hw => ⟨?_, ?_⟩⟩
  · cases v with
    | finite negative x => exact rmatch_scalar negative x
    | _ => cases hv
  · cases v with
    | finite negative x => exact rmatch_coordinate negative x
    | _ => cases hv
  · rcases isWordChar_of_mem_scalar hv hc with hdigit | rfl | rfl
    · have hlower : ∀ n < 10, (Nat.digitChar n).toLower ≠ 'e' := by decide
      obtain ⟨n, hn, rfl⟩ := exists_eq_digitChar hdigit
      exact hlower n hn
    · decide
    · decide
  · rw [coordinate, hv]
    by_cases h : '.' ∈ (scalar v).toList <;> simp [h]
  · exact List.forall_mem_cons.2 ⟨hread _ (ofText_scalar hv),
      List.forall_mem_singleton.2 (hread _ (ofText_coordinate hv))⟩
  · exact ⟨equal_of_scalar_eq hv hw, scalar_eq_of_equal hv hw⟩
  · exact ⟨equal_of_coordinate_eq hv hw, coordinate_eq_of_equal hv hw⟩

/-- At the zero that has a sign, whose words have none, and at two neighbours, the sum of 0.1 and 0.2
and 0.3, whose words differ. -/
theorem words_wellFormed_zero_and_sum :
    let zero : Binary64 := .finite true .zero
    let sum : Binary64 :=
      .finite false ⟨0x13333333333334, 1020, by decide, by decide, .inl (by decide)⟩
    let below : Binary64 :=
      .finite false ⟨0x13333333333333, 1020, by decide, by decide, .inl (by decide)⟩
    zero.isFinite = true ∧ sum.isFinite = true ∧
      (scalar zero = "0" ∧ coordinate zero = "0.0" ∧ scalar zero ≠ "-0") ∧
      scalar sum = "0.30000000000000004" ∧ coordinate sum = scalar sum ∧ scalar sum ≠ scalar below ∧
      ∀ v ∈ [zero, sum], scalarPattern.rmatch (scalar v).toList = true ∧
        coordinatePattern.rmatch (coordinate v).toList = true ∧
        ∃ y q, Binary64.ofText (scalar v) = .ok y ∧
          Numeral.number? (scalar v).toList = some q ∧ y.IsClosest q ∧ y.equal v = true := by
  intro zero sum below
  obtain ⟨hscalar, hcoordinate, -, hne, -, hread, -⟩ := words_wellFormed (v := zero) rfl
  obtain ⟨hscalar', hcoordinate', -, -, hpoint, hread', hequal⟩ := words_wellFormed (v := sum) rfl
  have hword : scalar sum = "0.30000000000000004" := by decide +kernel
  have hsame : coordinate sum = scalar sum := by
    rw [hpoint, hword, if_pos (by decide)]
  have hapart : scalar sum ≠ scalar below := fun h =>
    absurd ((hequal below rfl).1.1 h) (by decide +kernel)
  refine ⟨rfl, rfl, ⟨by decide +kernel, by decide +kernel, hne⟩, hword, hsame, hapart, ?_⟩
  rw [List.forall_mem_cons, List.forall_mem_singleton]
  exact ⟨⟨hscalar, hcoordinate, hread _ List.mem_cons_self⟩,
    ⟨hscalar', hcoordinate', hread' _ List.mem_cons_self⟩⟩

end Gcode

end DrillPost
