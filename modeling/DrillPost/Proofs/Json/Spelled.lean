import DrillPost.Json.Kind
import DrillPost.Proofs.Decimal.Layout
import DrillPost.Proofs.Json.Literal
import DrillPost.Proofs.Json.Reader

/-!
# Spelled literals

One literal has several spellings, because its exponent may begin with either letter and a plus sign
in it may be left out (`Literal.IsSpelled`). Each of them is read as the literal
(`reads_readLiteral`), and what a reader of numbers makes of it, behind a sign or not, is the value
of the literal (`gives_readNumeric`).

A short literal has a value, unless its exponent cannot be written out
(`Literal.IsShort.exists_number?`).
-/

namespace DrillPost

namespace Magnitude

/-- Numbers well below the largest magnitude are near to one. -/
theorem exists_isNearest {num den : Nat} (hden : 0 < den) (h : (num : ℚ) / den < 2 ^ 1023) :
    ∃ x : Magnitude, x.IsNearest (num / den) := by
  have hscale : scaleOf num den + 1 ≤ 2045 := by
    by_contra hlarge
    -- At so large a scale the number has too many units.
    have hlow := le_of_scaleOf_ne_zero num hden (by omega)
    have hhigh : (num : ℚ) / den * unitsPerOne < 2 ^ 1023 * 2 ^ 1074 := by
      rw [unitsPerOne_eq]
      exact mul_lt_mul_of_pos_right h (by positivity)
    rw [← pow_add] at hhigh
    have hpow := lt_of_le_of_lt hlow hhigh
    rw [pow_lt_pow_iff_right₀ (by norm_num)] at hpow
    omega
  have hsome : ∃ x, nearest? num den = some x := by
    unfold nearest?
    split_ifs with hsignificand hfits
    · exact ⟨_, rfl⟩
    · omega
    · exact ⟨_, rfl⟩
  obtain ⟨x, hx⟩ := hsome
  exact ⟨x, isNearest_of_nearest? hden hx⟩

end Magnitude

namespace Json

variable (atEnd : Cause) {rest : List Char}

/-! ### The text of a literal -/

/-- A character that does not belong to a number that stands before it. -/
def EndsNumber (c : Char) : Prop := c.isDigit = false ∧ c ≠ '.' ∧ c ≠ 'e' ∧ c ≠ 'E'

instance (c : Char) : Decidable (EndsNumber c) := inferInstanceAs (Decidable (_ ∧ _))

def Exponent.text (e : Exponent) : List Char :=
  'e' :: (if e.isNegative then '-' else '+') :: e.digits

/-- The texts of an exponent: a letter in either case, and a sign that may be left out if it is a
plus. -/
inductive IsExponentText : Option Exponent → List Char → Prop
  | none : IsExponentText none []
  | plain {letter : Char} (h : letter = 'e' ∨ letter = 'E') (digits : List Char) :
      IsExponentText (some ⟨false, digits⟩) (letter :: digits)
  | signed {letter : Char} (h : letter = 'e' ∨ letter = 'E') (e : Exponent) :
      IsExponentText (some e) (letter :: (if e.isNegative then '-' else '+') :: e.digits)

def fractionText (fraction : List Char) : List Char :=
  if fraction = [] then [] else '.' :: fraction

namespace Literal

/-- The literal as it is written, with a sign before the digits of its exponent. -/
def text (l : Literal) : List Char :=
  l.whole ++ (fractionText l.fraction ++ l.exponent.elim [] Exponent.text)

/-- The literal can be written: digits stand where there have to be some. -/
structure IsWritten (l : Literal) : Prop where
  whole_ne_nil : l.whole ≠ []
  whole_digits : IsDigits l.whole
  noLeadingZero : NoLeadingZero l.whole
  fraction_digits : IsDigits l.fraction
  exponent_digits : ∀ e ∈ l.exponent, IsDigits e.digits ∧ e.digits ≠ []

/-- The text is a spelling of the literal. -/
structure IsSpelled (l : Literal) (text : List Char) : Prop extends l.IsWritten where
  exists_exponentText : ∃ exponentText, IsExponentText l.exponent exponentText ∧
    text = l.whole ++ (fractionText l.fraction ++ exponentText)

theorem IsWritten.isSpelled {l : Literal} (h : l.IsWritten) : l.IsSpelled l.text := by
  refine ⟨h, _, ?_, rfl⟩
  cases l.exponent with
  | none => exact .none
  | some e => exact .signed (.inl rfl) e

theorem IsSpelled.exists_text_eq_cons {l : Literal} {text : List Char} (h : l.IsSpelled text) :
    ∃ c r, text = c :: r ∧ c.isDigit = true := by
  obtain ⟨exponentText, -, htext⟩ := h.exists_exponentText
  obtain ⟨c, r, hwhole⟩ := List.exists_cons_of_ne_nil h.whole_ne_nil
  have hc := h.whole_digits c (hwhole ▸ List.mem_cons_self)
  rw [htext, hwhole]
  exact ⟨c, _, rfl, hc⟩

end Literal

/-- The digits of a whole number are a literal. -/
theorem isWritten_whole (n : Nat) : Literal.IsWritten ⟨Nat.toDigits 10 n, [], none⟩ :=
  ⟨Nat.toDigits_ne_nil, fun _ hc => Nat.isDigit_of_mem_toDigits (by decide) (by decide) hc,
    noLeadingZero_toDigits n, nofun, nofun⟩

/-! ### Reading the parts -/

theorem digitRun_append {digits : List Char} (hdigits : IsDigits digits)
    (hrest : ∀ c ∈ rest.head?, c.isDigit = false) :
    digitRun (digits ++ rest) = digits ∧ (afterDigits (digits ++ rest)).rest = rest :=
  Numeral.span_digits_append hdigits hrest

theorem reads_readWhole {whole : List Char} (hdigits : IsDigits whole) (hne : whole ≠ [])
    (hzero : NoLeadingZero whole) (hrest : ∀ c ∈ rest.head?, c.isDigit = false) :
    Reads (readWhole atEnd (whole ++ rest)) whole rest := by
  cases whole with
  | nil => exact absurd rfl hne
  | cons c whole =>
    obtain ⟨hrun, hafter⟩ :=
      digitRun_append (fun d hd => hdigits d (List.mem_cons_of_mem c hd)) hrest
    have hlength := (afterDigits (whole ++ rest)).notLonger
    rw [hafter] at hlength
    refine ⟨Nat.lt_succ_of_le hlength, ?_⟩
    show readWhole atEnd (c :: (whole ++ rest)) = _
    by_cases hc : c = '0'
    · -- A zero at the front stands alone.
      obtain rfl : whole = [] := by
        rcases hzero with heq | hhead
        · exact (List.cons.inj heq).2
        · exact absurd (congrArg some hc) hhead
      have hend : (([] ++ rest : List Char).head?.any Char.isDigit) = false := by
        cases rest with
        | nil => rfl
        | cons d rest => exact hrest d rfl
      rw [readWhole, if_pos hc, hend]
      rfl
    · rw [readWhole, if_neg hc, if_pos (hdigits c List.mem_cons_self), hrun]
      simp only [Read.ofTail, hafter]
      rfl

theorem exists_readFraction {fraction : List Char} (hdigits : IsDigits fraction)
    (hrest : ∀ c ∈ rest.head?, c.isDigit = false ∧ c ≠ '.') :
    ∃ t, readFraction atEnd (fractionText fraction ++ rest) = .ok (fraction, t) ∧
      t.rest = rest := by
  obtain ⟨hrun, hafter⟩ := digitRun_append hdigits fun c hc => (hrest c hc).1
  by_cases hnil : fraction = []
  · subst hnil
    refine ⟨.all rest, ?_, rfl⟩
    show readFraction atEnd rest = _
    unfold readFraction
    split
    · exact absurd rfl (hrest '.' rfl).2
    · rfl
  · have htext : fractionText fraction ++ rest = '.' :: (fraction ++ rest) := by
      rw [fractionText, if_neg hnil, List.cons_append]
    rw [htext]
    refine ⟨(afterDigits (fraction ++ rest)).past '.', ?_, hafter⟩
    rw [readFraction, hrun, if_neg hnil]

/-- What begins with a digit has no sign. -/
theorem exponentSign_of_isDigit {s : List Char} (h : ∀ c ∈ s.head?, c.isDigit = true) :
    exponentSign s = (false, .all s) := by
  unfold exponentSign
  split
  · exact absurd (h _ rfl) (by decide)
  · exact absurd (h _ rfl) (by decide)
  · rfl

theorem exists_readExponent_letter {letter : Char} (hletter : letter = 'e' ∨ letter = 'E')
    {isNegative : Bool} {signed digits : List Char} {t : Tail signed}
    (hsign : exponentSign signed = (isNegative, t)) (ht : t.rest = digits ++ rest)
    (hdigits : IsDigits digits) (hne : digits ≠ []) (hrest : ∀ c ∈ rest.head?, c.isDigit = false) :
    ∃ u, readExponent atEnd (letter :: signed) = .ok (some ⟨isNegative, digits⟩, u) ∧
      u.rest = rest := by
  obtain ⟨hrun, hafter⟩ := digitRun_append hdigits hrest
  rw [← ht] at hrun hafter
  rw [readExponent, if_pos hletter, hsign]
  dsimp only
  rw [hrun, if_neg hne]
  exact ⟨_, rfl, hafter⟩

theorem exists_readExponent {exponent : Option Exponent} {exponentText : List Char}
    (h : IsExponentText exponent exponentText)
    (hdigits : ∀ e ∈ exponent, IsDigits e.digits ∧ e.digits ≠ [])
    (hrest : ∀ c ∈ rest.head?, EndsNumber c) :
    ∃ t, readExponent atEnd (exponentText ++ rest) = .ok (exponent, t) ∧ t.rest = rest := by
  have hend : ∀ c ∈ rest.head?, c.isDigit = false := fun c hc => (hrest c hc).1
  cases h with
  | none =>
    rw [List.nil_append]
    refine ⟨.all rest, ?_, rfl⟩
    cases rest with
    | nil => rfl
    | cons c rest =>
      obtain ⟨-, -, hlower, hupper⟩ := hrest c rfl
      rw [readExponent, if_neg (not_or.2 ⟨hlower, hupper⟩)]
  | plain hletter digits =>
    obtain ⟨hdigits, hne⟩ := hdigits _ rfl
    have hsign : exponentSign (digits ++ rest) = (false, .all (digits ++ rest)) := by
      refine exponentSign_of_isDigit fun c hc => ?_
      rw [List.head?_append_of_ne_nil _ hne] at hc
      exact hdigits c (List.mem_of_mem_head? hc)
    exact exists_readExponent_letter atEnd hletter hsign rfl hdigits hne hend
  | signed hletter e =>
    obtain ⟨isNegative, digits⟩ := e
    obtain ⟨hdigits, hne⟩ := hdigits _ rfl
    cases isNegative with
    | true => exact exists_readExponent_letter atEnd hletter rfl rfl hdigits hne hend
    | false => exact exists_readExponent_letter atEnd hletter rfl rfl hdigits hne hend

theorem IsExponentText.forall_mem_head? {exponent : Option Exponent} {exponentText : List Char}
    (h : IsExponentText exponent exponentText) {p : Char → Prop} (he : p 'e') (hE : p 'E')
    (hrest : ∀ c ∈ rest.head?, p c) : ∀ c ∈ (exponentText ++ rest).head?, p c := by
  cases h with
  | none => exact hrest
  | plain hletter | signed hletter =>
    rcases hletter with rfl | rfl
    · exact forall_mem_head?_cons he _
    · exact forall_mem_head?_cons hE _

theorem forall_mem_head?_fractionText (fraction : List Char) {p : Char → Prop} (hpoint : p '.')
    (hrest : ∀ c ∈ rest.head?, p c) : ∀ c ∈ (fractionText fraction ++ rest).head?, p c := by
  unfold fractionText
  split
  · exact hrest
  · exact forall_mem_head?_cons hpoint _

/-- A literal is read where it is spelled, up to a character that ends it. -/
theorem reads_readLiteral {l : Literal} {text : List Char} (h : l.IsSpelled text)
    (hrest : ∀ c ∈ rest.head?, EndsNumber c) :
    Reads (readLiteral atEnd (text ++ rest)) l rest := by
  obtain ⟨whole, fraction, exponent⟩ := l
  obtain ⟨exponentText, hexponent, rfl⟩ := h.exists_exponentText
  have hafterFraction : ∀ c ∈ (exponentText ++ rest).head?, c.isDigit = false ∧ c ≠ '.' :=
    hexponent.forall_mem_head? (by decide) (by decide)
      fun c hc => ⟨(hrest c hc).1, (hrest c hc).2.1⟩
  have hafterWhole : ∀ c ∈ (fractionText fraction ++ (exponentText ++ rest)).head?,
      c.isDigit = false :=
    forall_mem_head?_fractionText fraction (by decide) fun c hc => (hafterFraction c hc).1
  have hwhole := reads_readWhole atEnd h.whole_digits h.whole_ne_nil h.noLeadingZero hafterWhole
  obtain ⟨shorter, hwhole⟩ := hwhole.eq_ok
  obtain ⟨t, hfraction, ht⟩ := exists_readFraction atEnd h.fraction_digits hafterFraction
  have hread : ∃ u : Tail t.rest, readExponent atEnd t.rest = .ok (exponent, u) ∧
      u.rest = rest := by
    rw [ht]
    exact exists_readExponent atEnd hexponent h.exponent_digits hrest
  obtain ⟨u, hread, hu⟩ := hread
  rw [List.append_assoc, List.append_assoc]
  have hlength :
      rest.length < (whole ++ (fractionText fraction ++ (exponentText ++ rest))).length :=
    Nat.lt_of_le_of_lt (by
      simp only [List.length_append]
      omega) shorter
  refine ⟨hlength, ?_⟩
  rw [readLiteral, hwhole]
  dsimp only
  rw [hfraction]
  dsimp only
  rw [hread]
  simp only [Read.leave, Read.map, Tail.andThen, hu]
  rfl

/-- The characters of a literal are the numeral that it is. -/
theorem Literal.IsSpelled.ofText?_eq {l : Literal} {text : List Char} (h : l.IsSpelled text) :
    Numeral.ofText? text = some l.numeral := by
  have hread : Reads (readLiteral .endInValue (text ++ [])) l [] :=
    reads_readLiteral .endInValue h nofun
  rw [List.append_nil] at hread
  obtain ⟨shorter, hread⟩ := hread.eq_ok
  obtain ⟨chars, htext, hnumeral⟩ := ofText?_of_readLiteral hread
  rw [List.append_nil] at htext
  rw [htext, hnumeral]

/-! ### Reading the value -/

/-- The value of a literal, if it is in range. -/
def Literal.number? (l : Literal) (isNegative : Bool) : Option Number :=
  (l.value isNegative []).toOption

/-- What follows a literal shows only in the failure. -/
theorem Literal.toOption_value (l : Literal) (isNegative : Bool) (rest : List Char) :
    (l.value isNegative rest).toOption = l.number? isNegative := by
  unfold number? value
  dsimp only
  cases l.exponent with
  | none =>
    dsimp only
    split
    · rfl
    · cases scaled? isNegative l.significand.1 l.significand.2 with
      | none => rfl
      | some x => rfl
  | some e =>
    dsimp only
    cases exponentValue 0 e.digits with
    | error left =>
      dsimp only
      split <;> rfl
    | ok n =>
      dsimp only
      split <;> rfl

section Numbers

variable {l : Literal} {text : List Char} (h : l.IsSpelled text)

include h

theorem gives_readNumber (isNegative : Bool) (hrest : ∀ c ∈ rest.head?, EndsNumber c) :
    Gives (readNumber isNegative (text ++ rest)) (l.number? isNegative) rest := by
  obtain ⟨shorter, hread⟩ := (reads_readLiteral .endInValue h hrest).eq_ok
  rw [← l.toOption_value isNegative rest]
  cases hvalue : l.value isNegative rest with
  | error e =>
    refine ⟨e, ?_⟩
    rw [readNumber, hread]
    dsimp only
    rw [hvalue]
  | ok n =>
    refine ⟨shorter, ?_⟩
    rw [readNumber, hread]
    dsimp only
    rw [hvalue]
    rfl

theorem gives_readSigned (negative : Bool) (hrest : ∀ c ∈ rest.head?, EndsNumber c) :
    Gives (readSigned (signText negative ++ (text ++ rest))) (l.number? negative) rest := by
  have hread := gives_readNumber h negative hrest
  cases negative with
  | true =>
    show Gives (Read.past '-' <$> readNumber true (text ++ rest)) _ rest
    cases hvalue : l.number? true with
    | none =>
      rw [hvalue] at hread
      obtain ⟨e, he⟩ := hread
      exact ⟨e, by rw [he]; rfl⟩
    | some n =>
      rw [hvalue] at hread
      obtain ⟨shorter, hread⟩ := hread.eq_ok
      exact ⟨Nat.lt_succ_of_lt shorter, by rw [hread]; rfl⟩
  | false =>
    obtain ⟨c, r, rfl, hc⟩ := h.exists_text_eq_cons
    have hminus : c ≠ '-' := by
      rintro rfl
      exact absurd hc (by decide)
    show Gives (readSigned (c :: (r ++ rest))) _ rest
    rw [readSigned, if_neg hminus]
    exact hread

omit h in
theorem isBlank_eq_false_of_isDigit {c : Char} (hc : c.isDigit = true) : isBlank c = false := by
  have hne : ∀ {d : Char}, d.isDigit = false → (c == d) = false := by
    intro d hd
    rw [beq_eq_false_iff_ne]
    rintro rfl
    exact Bool.false_ne_true (hd.symm.trans hc)
  rw [isBlank, hne (by decide), hne (by decide), hne (by decide), hne (by decide)]
  rfl

omit h in
theorem beginsNumber_iff {c : Char} : beginsNumber c = true ↔ c.isDigit = true ∨ c = '-' := by
  rw [beginsNumber, Bool.or_eq_true, beq_iff_eq, or_comm]

theorem Literal.IsSpelled.exists_signed_eq_cons (negative : Bool) (rest : List Char) :
    ∃ c r, signText negative ++ (text ++ rest) = c :: r ∧
      isBlank c = false ∧ beginsNumber c = true := by
  cases negative with
  | true => exact ⟨'-', _, rfl, rfl, rfl⟩
  | false =>
    obtain ⟨c, r, rfl, hc⟩ := h.exists_text_eq_cons
    refine ⟨c, r ++ rest, rfl, isBlank_eq_false_of_isDigit hc, ?_⟩
    rw [beginsNumber, hc, Bool.or_true]

theorem gives_readNumeric (expected : String) (negative : Bool)
    {blanks : List Char} (hblanks : ∀ c ∈ blanks, isBlank c = true)
    (hrest : ∀ c ∈ rest.head?, EndsNumber c) :
    Gives (readNumeric expected (blanks ++ (signText negative ++ (text ++ rest))))
      (l.number? negative) rest := by
  have hread := gives_readSigned h negative hrest
  obtain ⟨c, r, hcons, hblank, hbegins⟩ := h.exists_signed_eq_cons negative rest
  rw [hcons] at hread ⊢
  obtain ⟨shorter, hnext⟩ := (reads_nextChar hblanks hblank r).eq_some
  have hnumber : Gives ((Read.unread ⟨c, r, shorter⟩).thenRead readSigned) (l.number? negative)
    rest := Gives.within hread
  rw [readNumeric, hnext]
  dsimp only
  rw [if_pos hbegins]
  exact hnumber

end Numbers

/-! ### Short literals have values -/

namespace Literal

variable {l : Literal}

/-- A short literal with a point or an exponent has the nearest value. -/
theorem IsShort.number?_eq (h : l.IsShort)
    (hreal : l.fraction ≠ [] ∨ l.exponent ≠ none)
    (hexponent : ∀ e ∈ l.exponent, digitsValue e.digits ≤ maxExponent) {x : Magnitude}
    (hx : x.IsNearest l.decimal.toRat) (negative : Bool) :
    l.number? negative = some (.real (.finite negative x)) := by
  have hm : l.decimal.coefficient < 0x20000000000000 := lt_trans h.coefficient_lt (by decide)
  have hscaled : scaled? negative l.decimal.coefficient l.decimal.exponent =
      some (.finite negative x) := by
    rw [scaled?, (movePoint_eq_some_iff hm h.natAbs_exponent_le).2 hx, Option.map_some]
  rw [decimal_eq] at hscaled
  dsimp only at hscaled
  unfold number? value
  rw [h.significand_eq.2, decimal_eq]
  dsimp only
  cases he : l.exponent with
  | none =>
    have hfraction : l.fraction ≠ [] := hreal.resolve_right fun hne => hne he
    rw [he] at hscaled
    dsimp only
    rw [if_neg fun hinteger => hfraction hinteger.1, ← zero_sub,
      ← Option.elim_none 0 Exponent.toInt, hscaled]
    rfl
  | some e =>
    have hspec := exponentValue_spec e.digits 0
    cases hvalue : exponentValue 0 e.digits with
    | error left =>
      rw [hvalue] at hspec
      exact absurd (hexponent e he) (Nat.not_le.2 hspec)
    | ok n =>
      rw [hvalue] at hspec
      obtain rfl : n = digitsValue e.digits := hspec
      have hplaces : (if e.isNegative = true then
          -(l.fraction.length : Int) - (digitsValue e.digits : Int)
          else -(l.fraction.length : Int) + (digitsValue e.digits : Int)) =
          Option.elim l.exponent 0 Exponent.toInt - l.fraction.length := by
        rw [he, Option.elim_some, Exponent.toInt]
        split <;> omega
      dsimp only
      rw [hvalue]
      dsimp only
      rw [hplaces, hscaled]
      rfl

/-- A short literal without point and exponent is an integer. -/
theorem IsShort.number?_eq_integerValue (h : l.IsShort) (hfraction : l.fraction = [])
    (hexponent : l.exponent = none) (negative : Bool) :
    l.number? negative = some (integerValue negative l.decimal.coefficient) := by
  unfold number? value
  rw [h.significand_eq.2, hexponent]
  dsimp only
  rw [if_pos ⟨hfraction, h.significand_eq.1⟩]
  rfl

theorem IsShort.exists_isNearest (h : l.IsShort) :
    ∃ x : Magnitude, x.IsNearest l.decimal.toRat := by
  rw [← Decimal.num_div_den]
  refine Magnitude.exists_isNearest (Decimal.den_pos _) ?_
  rw [Decimal.num_div_den]
  have hcoefficient : (l.decimal.coefficient : ℚ) ≤ 10 ^ 15 := by
    exact_mod_cast h.coefficient_lt.le
  have hpower : (10 : ℚ) ^ l.decimal.exponent ≤ 10 ^ 22 := by
    rw [← zpow_natCast]
    have := h.natAbs_exponent_le
    exact zpow_le_zpow_right₀ (by norm_num) (by omega)
  calc l.decimal.toRat ≤ 10 ^ 15 * 10 ^ 22 :=
        mul_le_mul hcoefficient hpower (by positivity) (by positivity)
    _ < 2 ^ 123 := by norm_num
    _ ≤ 2 ^ 1023 := pow_le_pow_right₀ (by norm_num) (by norm_num)

/-- A short literal has a value, unless its exponent cannot be written out. -/
theorem IsShort.exists_number? (h : l.IsShort)
    (hexponent : ∀ e ∈ l.exponent, digitsValue e.digits ≤ maxExponent) (negative : Bool) :
    ∃ n, l.number? negative = some n ∧ l.IsValue negative n.toBinary64 := by
  by_cases hinteger : l.fraction = [] ∧ l.exponent = none
  · obtain ⟨hfraction, hnone⟩ := hinteger
    exact ⟨_, h.number?_eq_integerValue hfraction hnone negative,
      h.isValue_integerValue hfraction hnone negative⟩
  · obtain ⟨x, hx⟩ := h.exists_isNearest
    exact ⟨_, h.number?_eq (not_and_or.1 hinteger) hexponent hx negative, negative, x, rfl, hx,
      fun _ => rfl⟩

end Literal

end Json

end DrillPost
