import DrillPost.Decimal.Layout
import DrillPost.Decimal.Numeral
import DrillPost.Proofs.Decimal.Shortest
import Mathlib.Data.List.TakeWhile

/-!
# Numerals without an exponent

A numeral is plain if it has a digit before the point and no exponent. `Decimal.numeral` is the
plain numeral that a decimal is written as, and the one that is read from the text:

* `Decimal.positional_eq`: the text of a decimal is the text of its numeral.
* `Numeral.ofText?_plainText`: the text of a plain numeral reads as the numeral.
* `Decimal.toRat_numeral`: the numeral of a decimal is the same number.
* `Binary64.ofText_signText`: a text of a sign and a numeral reads as the value nearest to it.
-/

namespace DrillPost

/-! ### Runs of digits -/

def IsDigits (s : List Char) : Prop := ∀ c ∈ s, c.isDigit

instance (s : List Char) : Decidable (IsDigits s) := List.decidableBAll _ s

theorem IsDigits.append {s t : List Char} (hs : IsDigits s) (ht : IsDigits t) :
    IsDigits (s ++ t) := by
  intro c hc
  rcases List.mem_append.1 hc with hc | hc
  · exact hs c hc
  · exact ht c hc

theorem isDigits_replicate_zero (n : Nat) : IsDigits (List.replicate n '0') := by
  intro c hc
  rw [(List.mem_replicate.1 hc).2]
  rfl

theorem IsDigits.sublist {s t : List Char} (hs : IsDigits s) (h : t.Sublist s) : IsDigits t :=
  fun c hc => hs c (h.subset hc)

theorem Decimal.isDigits_digits (d : Decimal) : IsDigits d.digits :=
  fun _ hc => Nat.isDigit_of_mem_toDigits (by decide) (by decide) hc

theorem digitsValue_append (s t : List Char) :
    digitsValue (s ++ t) = digitsValue s * 10 ^ t.length + digitsValue t := by
  unfold digitsValue
  rw [Nat.ofDigitChars_append, Nat.ofDigitChars_eq_ofDigitChars_zero, Nat.mul_comm]

theorem digitsValue_replicate_zero (n : Nat) : digitsValue (List.replicate n '0') = 0 := by
  unfold digitsValue
  rw [Nat.ofDigitChars_replicate_zero, Nat.mul_zero]

@[simp] theorem digitsValue_zero : digitsValue ['0'] = 0 := by decide

theorem digitsValue_toDigits (n : Nat) : digitsValue (Nat.toDigits 10 n) = n :=
  Nat.ofDigitChars_ten_toDigits

namespace Numeral

/-! ### Plain numerals -/

/-- A numeral without an exponent that does not begin with the point. -/
structure IsPlain (n : Numeral) : Prop where
  whole_ne_nil : n.whole ≠ []
  whole_digits : IsDigits n.whole
  fraction_digits : IsDigits n.fraction
  exponent_eq : n.exponent = 0

/-- How a plain numeral is written: with a point only before digits. -/
def plainText (n : Numeral) : List Char :=
  if n.fraction = [] then n.whole else n.whole ++ '.' :: n.fraction

/-- Digits end where another character follows. -/
theorem span_digits_append {digits rest : List Char} (hdigits : IsDigits digits)
    (hrest : ∀ c ∈ rest.head?, c.isDigit = false) :
    (digits ++ rest).takeWhile Char.isDigit = digits ∧
      (digits ++ rest).dropWhile Char.isDigit = rest := by
  rw [List.takeWhile_append_of_pos hdigits, List.dropWhile_append_of_pos hdigits]
  cases rest with
  | nil => exact ⟨List.append_nil digits, rfl⟩
  | cons c r =>
    have hc := ne_true_of_eq_false (hrest c rfl)
    rw [List.takeWhile_cons_of_neg hc, List.dropWhile_cons_of_neg hc]
    exact ⟨List.append_nil digits, rfl⟩

variable {whole fraction rest : List Char} {exponent : Int}

theorem ofText?_whole (hwhole : IsDigits whole) (hne : whole ≠ [])
    (hrest : ∀ c ∈ rest.head?, c.isDigit = false ∧ c ≠ '.') (h : exponent? rest = some exponent) :
    ofText? (whole ++ rest) = some ⟨whole, [], exponent⟩ := by
  obtain ⟨htake, hdrop⟩ := span_digits_append hwhole fun c hc => (hrest c hc).1
  unfold ofText?
  rw [htake, hdrop]
  split
  · exact absurd rfl (hrest '.' rfl).2
  · rw [if_neg hne, h]
    rfl

theorem ofText?_point (hwhole : IsDigits whole) (hfraction : IsDigits fraction) (hne : whole ≠ [])
    (hrest : ∀ c ∈ rest.head?, c.isDigit = false) (h : exponent? rest = some exponent) :
    ofText? (whole ++ '.' :: (fraction ++ rest)) = some ⟨whole, fraction, exponent⟩ := by
  -- The point ends the first run of digits, and what follows the digits ends the second.
  have hpoint : ∀ c ∈ ('.' :: (fraction ++ rest)).head?, c.isDigit = false := by
    intro c hc
    cases Option.some.inj hc
    rfl
  obtain ⟨htake, hdrop⟩ := span_digits_append hwhole hpoint
  obtain ⟨htake', hdrop'⟩ := span_digits_append hfraction hrest
  unfold ofText?
  rw [htake, hdrop]
  show (if whole = [] ∧ (fraction ++ rest).takeWhile Char.isDigit = [] then none
    else (exponent? ((fraction ++ rest).dropWhile Char.isDigit)).map fun e =>
      Numeral.mk whole ((fraction ++ rest).takeWhile Char.isDigit) e) = _
  rw [htake', hdrop', if_neg fun h => hne h.1, h]
  rfl

theorem ofText?_plainText {n : Numeral} (h : n.IsPlain) : ofText? n.plainText = some n := by
  obtain ⟨hne, hwhole, hfraction, hexponent⟩ := h
  obtain ⟨whole, fraction, exponent⟩ := n
  simp only at hne hwhole hfraction hexponent
  subst hexponent
  unfold plainText
  split
  · next hnil =>
    have hread : ofText? (whole ++ []) = some ⟨whole, [], 0⟩ :=
      ofText?_whole hwhole hne nofun rfl
    rw [List.append_nil] at hread
    rw [hread, show fraction = [] from hnil]
  · have hread : ofText? (whole ++ '.' :: (fraction ++ [])) = some ⟨whole, fraction, 0⟩ :=
      ofText?_point hwhole hfraction hne nofun rfl
    rw [List.append_nil] at hread
    exact hread

def toRat (n : Numeral) : ℚ := n.toDecimal.toRat

theorem toRat_eq {n : Numeral} (h : n.exponent = 0) :
    n.toRat = digitsValue (n.whole ++ n.fraction) / 10 ^ n.fraction.length := by
  rw [toRat, Decimal.toRat, toDecimal, h, zero_sub, zpow_neg, zpow_natCast, div_eq_mul_inv]

/-- The same numeral with a digit after the point. -/
def withFraction (n : Numeral) : Numeral :=
  if n.fraction = [] then { n with fraction := ['0'] } else n

theorem IsPlain.withFraction {n : Numeral} (h : n.IsPlain) : n.withFraction.IsPlain := by
  unfold Numeral.withFraction
  split
  · exact ⟨h.whole_ne_nil, h.whole_digits, isDigits_replicate_zero 1, h.exponent_eq⟩
  · exact h

theorem toRat_withFraction {n : Numeral} (h : n.IsPlain) : n.withFraction.toRat = n.toRat := by
  rw [toRat_eq h.withFraction.exponent_eq, toRat_eq h.exponent_eq]
  unfold Numeral.withFraction
  split
  · next hnil =>
    rw [hnil, List.append_nil, digitsValue_append, digitsValue_zero]
    push_cast
    simp
  · rfl

end Numeral

namespace Decimal

/-! ### The numeral of a decimal -/

/-- The plain numeral that a decimal is written as. -/
def numeral (d : Decimal) : Numeral :=
  if 0 ≤ d.exponent then ⟨d.digits ++ List.replicate d.exponent.toNat '0', [], 0⟩
  else if (-d.exponent).toNat < d.digits.length then
    ⟨d.digits.take (d.digits.length - (-d.exponent).toNat),
      d.digits.drop (d.digits.length - (-d.exponent).toNat), 0⟩
  else ⟨['0'], List.replicate ((-d.exponent).toNat - d.digits.length) '0' ++ d.digits, 0⟩

theorem digits_ne_nil (d : Decimal) : d.digits ≠ [] := Nat.toDigits_ne_nil

theorem isPlain_numeral (d : Decimal) : d.numeral.IsPlain := by
  have hdigits := d.isDigits_digits
  unfold numeral
  split
  · refine ⟨?_, hdigits.append (isDigits_replicate_zero _), nofun, rfl⟩
    exact fun h => d.digits_ne_nil (List.append_eq_nil_iff.1 h).1
  split
  · next hlt =>
    refine ⟨?_, hdigits.sublist (List.take_sublist _ _), hdigits.sublist (List.drop_sublist _ _),
      rfl⟩
    intro h
    have := congrArg List.length h
    rw [List.length_take, List.length_nil] at this
    omega
  · exact ⟨List.cons_ne_nil _ _, isDigits_replicate_zero 1,
      (isDigits_replicate_zero _).append hdigits, rfl⟩

theorem positional_eq (d : Decimal) : d.positional = d.numeral.plainText := by
  unfold positional numeral Numeral.plainText
  split
  · rfl
  · next hneg =>
    dsimp only
    split
    · next hlt =>
      rw [if_neg]
      intro h
      have := congrArg List.length h
      rw [List.length_drop, List.length_nil] at this
      omega
    · rw [if_neg fun h => d.digits_ne_nil (List.append_eq_nil_iff.1 h).2]
      rfl

theorem toRat_numeral (d : Decimal) : d.numeral.toRat = d.toRat := by
  have hdigits : digitsValue d.digits = d.coefficient := digitsValue_toDigits _
  rw [Numeral.toRat_eq d.isPlain_numeral.exponent_eq, toRat]
  unfold numeral
  split
  · next hle =>
    obtain ⟨n, hn⟩ := Int.eq_ofNat_of_zero_le hle
    dsimp only
    rw [List.append_nil, digitsValue_append, hdigits, digitsValue_replicate_zero,
      List.length_replicate, hn, Int.toNat_natCast, zpow_natCast]
    push_cast
    simp
  · next hneg =>
    obtain ⟨n, hn⟩ := Int.eq_ofNat_of_zero_le (show 0 ≤ -d.exponent by omega)
    rw [show d.exponent = -(n : Int) by omega, zpow_neg, zpow_natCast, neg_neg, Int.toNat_natCast,
      div_eq_mul_inv]
    split
    · next hlt =>
      dsimp only
      rw [List.take_append_drop, hdigits, List.length_drop]
      congr 3
      omega
    · next hge =>
      dsimp only
      rw [digitsValue_append, digitsValue_append, hdigits, digitsValue_replicate_zero,
        digitsValue_zero, List.length_append, List.length_replicate]
      push_cast
      rw [Nat.sub_add_cancel (Nat.not_lt.1 hge)]
      simp

end Decimal

/-! ### Signs -/

def signText (negative : Bool) : List Char := if negative then ['-'] else []

namespace Numeral

theorem ofText?_plus (r : List Char) : ofText? ('+' :: r) = none := rfl

theorem ofText?_minus (r : List Char) : ofText? ('-' :: r) = none := rfl

theorem mem_plainText {n : Numeral} (h : n.IsPlain) {c : Char} (hc : c ∈ n.plainText) :
    c.isDigit ∨ c = '.' := by
  unfold plainText at hc
  split at hc
  · exact .inl (h.whole_digits c hc)
  · rcases List.mem_append.1 hc with hc | hc
    · exact .inl (h.whole_digits c hc)
    · rcases List.mem_cons.1 hc with rfl | hc
      · exact .inr rfl
      · exact .inl (h.fraction_digits c hc)

/-- Splits a sign off the front of a text and reads the rest as a numeral. -/
def ofSigned? : List Char → Option (Bool × Numeral)
  | '+' :: r => (ofText? r).map (false, ·)
  | '-' :: r => (ofText? r).map (true, ·)
  | r => (ofText? r).map (false, ·)

/-- The number that a text of a sign and a numeral denotes. -/
def number? (s : List Char) : Option ℚ :=
  (ofSigned? s).map fun (negative, n) => if negative then -n.toRat else n.toRat

variable {s : List Char} {n : Numeral}

theorem ofSigned?_signText (h : ofText? s = some n) (negative : Bool) :
    ofSigned? (signText negative ++ s) = some (negative, n) := by
  cases negative
  · show ofSigned? s = _
    unfold ofSigned?
    split
    -- No numeral begins with a sign, so only the last case is left.
    · next r => cases (ofText?_plus r).symm.trans h
    · next r => cases (ofText?_minus r).symm.trans h
    · rw [h]
      rfl
  · show (ofText? s).map (true, ·) = _
    rw [h]
    rfl

theorem number?_signText (h : ofText? s = some n) (negative : Bool) :
    number? (signText negative ++ s) = some (if negative then -n.toRat else n.toRat) := by
  rw [number?, ofSigned?_signText h]
  rfl

end Numeral

namespace Binary64

variable {s : List Char} {n : Numeral}

/-- A text of a sign and a numeral reads as the value nearest to the numeral. -/
theorem ofText_signText (h : Numeral.ofText? s = some n) (negative : Bool) :
    ofText (String.ofList (signText negative ++ s)) = .ok (n.toDecimal.toBinary64 negative) := by
  have hread : ∀ negative, ofUnsignedText? negative s = some (n.toDecimal.toBinary64 negative) := by
    intro negative
    rw [ofUnsignedText?, h]
  unfold ofText
  rw [String.toList_ofList]
  cases negative
  · rw [signText, if_neg Bool.false_ne_true, List.nil_append]
    split
    · cases h
    · next r => cases (Numeral.ofText?_plus r).symm.trans h
    · next r => cases (Numeral.ofText?_minus r).symm.trans h
    · rw [hread false]
      rfl
  · show Option.elim (ofUnsignedText? true s) (Except.error _) Except.ok = _
    rw [hread true]
    rfl

theorem toBinary64_of_isNearest {d : Decimal} {x : Magnitude} (h : x.IsNearest d.toRat)
    (negative : Bool) : d.toBinary64 negative = .finite negative x := by
  rw [Decimal.toBinary64, Decimal.nearest?_eq_some_iff.2 h]

end Binary64

end DrillPost
