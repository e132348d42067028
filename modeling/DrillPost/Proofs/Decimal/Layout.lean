import DrillPost.Proofs.Decimal.Numeral

/-!
# Written numbers as numerals

A decimal that is written without an exponent is a plain numeral, and has a fraction where the
layout keeps one (`Layout.decimal_eq`). No digits of a number begin with a zero, unless they are a
zero alone (`noLeadingZero_toDigits`), and neither do those before the point of a shortest decimal
(`Magnitude.noLeadingZero_numeral`).
-/

namespace DrillPost

open Numeral

/-! ### Leading zeros -/

/-- The digits are a zero alone, or begin with another digit. -/
def NoLeadingZero (digits : List Char) : Prop := digits = ['0'] ∨ digits.head? ≠ some '0'

instance (digits : List Char) : Decidable (NoLeadingZero digits) :=
  inferInstanceAs (Decidable (_ ∨ _))

theorem head?_toDigits {n : Nat} (h : 0 < n) : (Nat.toDigits 10 n).head? ≠ some '0' := by
  induction n using Nat.strong_induction_on with
  | _ n ih =>
    rw [Nat.toDigits_eq_if (by decide)]
    split
    · next hlt =>
      have hdigit : ∀ n < 10, 0 < n → [Nat.digitChar n].head? ≠ some '0' := by decide
      exact hdigit n hlt h
    · next hge =>
      rw [List.head?_append_of_ne_nil _ Nat.toDigits_ne_nil]
      exact ih (n / 10) (by omega) (by omega)

theorem noLeadingZero_toDigits (n : Nat) : NoLeadingZero (Nat.toDigits 10 n) := by
  rcases Nat.eq_zero_or_pos n with rfl | hpos
  · exact .inl (Nat.toDigits_zero 10)
  · exact .inr (head?_toDigits hpos)

namespace Magnitude

/-- A shortest decimal without digits other than zero is the zero that is written as one digit. -/
theorem shortest_eq_zero {tie : Tie} {x : Magnitude} (h : (x.shortest tie).coefficient = 0) :
    x.shortest tie = ⟨0, 0⟩ := by
  have hnear : (x.shortest tie).nearest? = some x :=
    Decimal.nearest?_eq_some_iff.2 (x.isNearest_shortest tie)
  rw [Decimal.nearest?, if_pos h] at hnear
  obtain rfl := Option.some.inj hnear
  rfl

theorem noLeadingZero_numeral (tie : Tie) (x : Magnitude) :
    NoLeadingZero (x.shortest tie).numeral.whole := by
  rcases Nat.eq_zero_or_pos (x.shortest tie).coefficient with hzero | hpos
  · rw [shortest_eq_zero hzero]
    exact .inl (by decide)
  have hhead := head?_toDigits hpos
  generalize x.shortest tie = d at hhead hpos
  unfold Decimal.numeral
  split
  · right
    rw [List.head?_append_of_ne_nil _ d.digits_ne_nil]
    exact hhead
  split
  · next hplaces =>
    right
    rw [List.head?_take, if_neg (by omega)]
    exact hhead
  · exact .inl rfl

end Magnitude

/-! ### Layouts -/

theorem point_mem_plainText_iff {n : Numeral} (h : n.IsPlain) :
    '.' ∈ n.plainText ↔ n.fraction ≠ [] := by
  unfold plainText
  split
  · next hnil =>
    have hwhole : '.' ∉ n.whole := fun hmem => absurd (h.whole_digits _ hmem) (by decide)
    exact ⟨fun hmem => absurd hmem hwhole, fun hne => absurd hnil hne⟩
  · next hne => exact ⟨fun _ => hne, fun _ => List.mem_append_right _ List.mem_cons_self⟩

theorem exists_plainText_eq_cons {n : Numeral} (h : n.IsPlain) :
    ∃ c r, n.plainText = c :: r ∧ c.isDigit = true := by
  obtain ⟨c, r, hwhole⟩ := List.exists_cons_of_ne_nil h.whole_ne_nil
  have hc : c.isDigit = true := h.whole_digits c (hwhole ▸ List.mem_cons_self)
  unfold plainText
  rw [hwhole]
  split
  · exact ⟨c, r, rfl, hc⟩
  · exact ⟨c, r ++ '.' :: n.fraction, rfl, hc⟩

theorem fraction_withFraction_ne_nil (n : Numeral) : n.withFraction.fraction ≠ [] := by
  unfold withFraction
  split
  · exact List.cons_ne_nil '0' []
  · next hne => exact hne

theorem whole_withFraction (n : Numeral) : n.withFraction.whole = n.whole := by
  unfold withFraction
  split <;> rfl

/-- A number without an exponent is a plain numeral with a fraction, where the layout keeps one. -/
theorem Layout.decimal_eq {l : Layout} {d : Decimal} (hkeeps : l.keepsFraction = true)
    (hpositional : l.isPositional d.leadingExponent = true) :
    l.decimal d = d.numeral.withFraction.plainText := by
  have hpoint := point_mem_plainText_iff d.isPlain_numeral
  rw [Layout.decimal, if_pos hpositional]
  dsimp only
  rw [Decimal.positional_eq, withFraction]
  by_cases hnil : d.numeral.fraction = []
  · rw [if_pos ⟨hkeeps, fun hmem => hpoint.1 hmem hnil⟩, if_pos hnil, plainText, if_pos hnil]
    rfl
  · rw [if_neg fun hno => hno.2 (hpoint.2 hnil), if_neg hnil]

end DrillPost
