import DrillPost.Proofs.Decimal.Fewest
import DrillPost.Proofs.Decimal.Numeral
import Mathlib.Data.List.DropRight

/-!
# Significant digits

The significant digits of a numeral are its digits without the zeros at the beginning and at the
end. There are as many of them as the precision of the decimal that the numeral denotes, unless that
is zero (`Numeral.length_significantDigits`). Zeros that place the digits of a decimal add none
(`Decimal.significant_numeral`), nor does a zero after the point
(`Numeral.significantDigits_withFraction`).
-/

namespace DrillPost

/-- Digits without the zeros at the beginning and at the end. -/
def significant (digits : List Char) : List Char :=
  (digits.dropWhile (· == '0')).rdropWhile (· == '0')

/-! ### Zeros at the beginning -/

theorem exists_eq_digitChar {c : Char} (h : c.isDigit = true) : ∃ n < 10, c = Nat.digitChar n := by
  obtain ⟨h1, h2⟩ := Char.isDigit_iff_toNat.1 h
  change 48 ≤ c.toNat at h1
  change c.toNat ≤ 57 at h2
  refine ⟨c.toNat - 48, by omega, Char.toNat_inj.1 ?_⟩
  rw [Nat.toNat_digitChar_of_lt_ten (by omega)]
  omega

theorem digitsValue_digitChar {n : Nat} (h : n < 10) : digitsValue [Nat.digitChar n] = n := by
  rw [← Nat.toDigits_of_lt_base h, digitsValue_toDigits]

/-- Digits without the zeros at the beginning are those that the number is written with. If it is
zero, there are none. -/
theorem dropWhile_zero_eq {s : List Char} (hs : IsDigits s) :
    s.dropWhile (· == '0') = if digitsValue s = 0 then [] else Nat.toDigits 10 (digitsValue s) := by
  induction s using List.reverseRecOn with
  | nil => rfl
  | append_singleton s c ih =>
    obtain ⟨n, hn, rfl⟩ := exists_eq_digitChar (hs c (List.mem_append_right _ List.mem_cons_self))
    have ih := ih fun c hc => hs c (List.mem_append_left _ hc)
    rw [List.dropWhile_append, ih, digitsValue_append, digitsValue_digitChar hn,
      List.length_singleton, pow_one]
    by_cases hzero : digitsValue s = 0
    · -- The first digit that may count is the last one.
      rw [if_pos hzero, List.isEmpty_nil, if_pos rfl, hzero, Nat.zero_mul, Nat.zero_add]
      by_cases hn0 : n = 0
      · rw [hn0]
        rfl
      · rw [if_neg hn0, Nat.toDigits_of_lt_base hn]
        exact List.dropWhile_cons_of_neg (by simpa using hn0)
    · have hne : (Nat.toDigits 10 (digitsValue s)).isEmpty = false :=
        List.isEmpty_eq_false_iff.2 Nat.toDigits_ne_nil
      rw [if_neg hzero, hne, if_neg Bool.false_ne_true, if_neg (by omega), Nat.mul_comm,
        ← Nat.toDigits_append_toDigits (by decide) (Nat.pos_of_ne_zero hzero) hn,
        Nat.toDigits_of_lt_base hn]

/-! ### Zeros at the end -/

theorem rdropWhile_zero_toDigits {d : Decimal} (h : d.coefficient ≠ 0) :
    (Nat.toDigits 10 d.coefficient).rdropWhile (· == '0') =
      Nat.toDigits 10 d.trim.coefficient := by
  fun_induction Decimal.trim d with
  | case1 d hlast ih =>
    obtain ⟨-, hzero⟩ := hlast
    have hdigits : Nat.toDigits 10 d.coefficient =
        Nat.toDigits 10 (d.coefficient / 10) ++ ['0'] := by
      rw [Nat.toDigits_of_base_le (by decide) (by omega), hzero]
      rfl
    rw [hdigits, List.rdropWhile_concat_pos _ _ _ rfl]
    exact ih (show d.coefficient / 10 ≠ 0 by omega)
  | case2 d hlast =>
    have hlast : d.coefficient % 10 ≠ 0 := fun hzero => hlast ⟨h, hzero⟩
    have hneg : ¬ (Nat.digitChar (d.coefficient % 10) == '0') = true := by simpa using hlast
    rw [Nat.toDigits_eq_if (by decide)]
    split
    · next hlt =>
      rw [Nat.mod_eq_of_lt hlt] at hneg
      rw [List.rdropWhile_singleton, if_neg hneg]
    · exact List.rdropWhile_concat_neg _ _ _ hneg

/-- There are as many significant digits as the precision of the number says. -/
theorem length_significant {d : Decimal} {s : List Char} (hs : IsDigits s)
    (hvalue : digitsValue s = d.coefficient) (h : d.coefficient ≠ 0) :
    (significant s).length = d.precision := by
  rw [significant, dropWhile_zero_eq hs, hvalue, if_neg h, rdropWhile_zero_toDigits h]
  rfl

theorem significant_append_zero (s : List Char) : significant (s ++ ['0']) = significant s := by
  unfold significant
  rw [List.dropWhile_append]
  split
  · next hnil =>
    rw [List.isEmpty_iff.1 hnil]
    rfl
  · exact List.rdropWhile_concat_pos _ _ _ rfl

theorem significant_append_replicate (s : List Char) (n : Nat) :
    significant (s ++ List.replicate n '0') = significant s := by
  induction n with
  | zero => rw [List.replicate_zero, List.append_nil]
  | succ n ih => rw [List.replicate_succ', ← List.append_assoc, significant_append_zero, ih]

theorem significant_replicate_append (n : Nat) (s : List Char) :
    significant (List.replicate n '0' ++ s) = significant s := by
  have hzeros : ∀ c ∈ List.replicate n '0', (c == '0') = true :=
    fun c hc => beq_iff_eq.2 (List.eq_of_mem_replicate hc)
  rw [significant, List.dropWhile_append_of_pos hzeros, significant]

/-- Writing a decimal without an exponent adds no digit that counts. -/
theorem Decimal.significant_numeral (d : Decimal) :
    significant (d.numeral.whole ++ d.numeral.fraction) = significant d.digits := by
  unfold numeral
  split
  · rw [List.append_nil, significant_append_replicate]
  split
  · rw [List.take_append_drop]
  · exact significant_replicate_append (_ + 1) d.digits

namespace Numeral

def significantDigits (n : Numeral) : List Char := significant (n.whole ++ n.fraction)

theorem length_significantDigits {n : Numeral} (hwhole : IsDigits n.whole)
    (hfraction : IsDigits n.fraction) (h : n.toDecimal.coefficient ≠ 0) :
    n.significantDigits.length = n.toDecimal.precision :=
  length_significant (hwhole.append hfraction) rfl h

theorem length_significantDigits_numeral {d : Decimal} (h : d.coefficient ≠ 0) :
    d.numeral.significantDigits.length = d.precision := by
  rw [significantDigits, d.significant_numeral]
  exact length_significant d.isDigits_digits (digitsValue_toDigits _) h

theorem significantDigits_withFraction (n : Numeral) :
    n.withFraction.significantDigits = n.significantDigits := by
  unfold withFraction
  split
  · next hnil =>
    rw [significantDigits, significantDigits, hnil, List.append_nil]
    exact significant_append_zero n.whole
  · rfl

end Numeral

end DrillPost
