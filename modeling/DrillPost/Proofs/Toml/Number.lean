import DrillPost.Proofs.Decimal.Layout
import DrillPost.Proofs.Json.Spelled
import DrillPost.Proofs.Text.Reading
import DrillPost.Toml.Number
import DrillPost.Toml.Printer

/-!
# Numbers are read where they are spelled

Any spelling of a literal, behind a sign or not, is read as a number of base ten, up to a character
that can stand behind a value (`reads_readNumeric_literal`). It is not taken for a date or a time,
because what divides the digits of a literal is not what divides those of dates and times
(`skipMoment_eq_none`).

So a whole number is read back as an integer (`reads_readNumeric_toDigits`), and a finite value,
which is written with a fraction and without an exponent, as itself (`reads_readNumeric_write`), the
sign of a zero included.
-/

namespace DrillPost.Toml

open Numeral

variable {digits whole rest : List Char}

/-- A character that can stand behind a value: a blank, an end of the line, a comment, a comma or a
closing bracket. -/
def EndsValue (c : Char) : Prop := c ∈ [' ', '\t', '\n', '\r', '#', ',', ']', '\x7d']

instance (c : Char) : Decidable (EndsValue c) := inferInstanceAs (Decidable (_ ∈ _))

/-- What can stand behind a value has no place in a number, a date or a time. -/
theorem EndsValue.spec {c : Char} (h : EndsValue c) :
    Json.EndsNumber c ∧ c ≠ '_' ∧ c ≠ '-' ∧ c ≠ ':' ∧ base? c = none := by
  simp only [EndsValue, List.mem_cons, List.not_mem_nil, or_false] at h
  rcases h with rfl | rfl | rfl | rfl | rfl | rfl | rfl | rfl <;> decide

/-! ### Digits -/

theorem exists_readMoreDigits (hdigits : IsDigits digits)
    (hrest : ∀ c ∈ rest.head?, c.isDigit = false ∧ c ≠ '_') :
    ∃ t, readMoreDigits Char.isDigit (digits ++ rest) = some (digits, t) ∧ t.rest = rest := by
  induction digits with
  | nil =>
    cases rest with
    | nil => exact ⟨.all [], rfl, rfl⟩
    | cons c rest =>
      obtain ⟨hdigit, hunderscore⟩ := hrest c rfl
      refine ⟨.all (c :: rest), ?_, rfl⟩
      show readMoreDigits Char.isDigit (c :: rest) = _
      unfold readMoreDigits
      rw [hdigit, if_neg Bool.false_ne_true, if_neg hunderscore]
  | cons c digits ih =>
    obtain ⟨hc, hdigits⟩ := List.forall_mem_cons.1 hdigits
    obtain ⟨t, hmore, ht⟩ := ih hdigits
    refine ⟨t.past c, ?_, ht⟩
    show readMoreDigits Char.isDigit (c :: (digits ++ rest)) = _
    unfold readMoreDigits
    rw [if_pos hc, hmore]
    rfl

theorem reads_readDigits (hdigits : IsDigits digits) (hne : digits ≠ [])
    (hrest : ∀ c ∈ rest.head?, c.isDigit = false ∧ c ≠ '_') :
    Reads (readDigits Char.isDigit (digits ++ rest)) digits rest := by
  cases digits with
  | nil => exact absurd rfl hne
  | cons c digits =>
    obtain ⟨hc, hdigits⟩ := List.forall_mem_cons.1 hdigits
    obtain ⟨t, hmore, ht⟩ := exists_readMoreDigits hdigits hrest
    have hlength := t.notLonger
    rw [ht] at hlength
    refine ⟨Nat.lt_succ_of_le hlength, ?_⟩
    show readDigits Char.isDigit (c :: (digits ++ rest)) = _
    rw [readDigits, if_pos hc, hmore]
    simp only [Option.map_some, Read.ofTail, ht]
    rfl

theorem readWhole_eq_readDigits {s : List Char} (h : s.head? ≠ some '0') :
    readWhole s = readDigits Char.isDigit s := by
  unfold readWhole
  split
  · exact absurd rfl h
  · rfl

theorem reads_readWhole (hwhole : IsDigits whole) (hne : whole ≠ []) (hzero : NoLeadingZero whole)
    (hrest : ∀ c ∈ rest.head?, c.isDigit = false ∧ c ≠ '_') :
    Reads (readWhole (whole ++ rest)) whole rest := by
  rcases hzero with rfl | hhead
  · exact ⟨Nat.lt_succ_self _, rfl⟩
  · replace hhead : (whole ++ rest).head? ≠ some '0' := by
      rwa [List.head?_append_of_ne_nil _ hne]
    rw [readWhole_eq_readDigits hhead]
    exact reads_readDigits hwhole hne hrest

/-! ### Numbers in base ten -/

theorem exists_readFraction {fraction : List Char} (hfraction : IsDigits fraction)
    (hrest : ∀ c ∈ rest.head?, c.isDigit = false ∧ c ≠ '_' ∧ c ≠ '.') :
    ∃ t, readFraction (Json.fractionText fraction ++ rest) = some (fraction, t) ∧
      t.rest = rest := by
  by_cases hnil : fraction = []
  · subst hnil
    refine ⟨.all rest, ?_, rfl⟩
    show readFraction rest = _
    unfold readFraction
    split
    · exact absurd rfl (hrest '.' rfl).2.2
    · rfl
  · have htext : Json.fractionText fraction ++ rest = '.' :: (fraction ++ rest) := by
      rw [Json.fractionText, if_neg hnil, List.cons_append]
    obtain ⟨shorter, hread⟩ := (reads_readDigits hfraction hnil
      fun c hc => ⟨(hrest c hc).1, (hrest c hc).2.1⟩).eq_some
    rw [htext, readFraction, hread]
    exact ⟨_, rfl, rfl⟩

/-- What begins with a digit has no sign. -/
theorem readSign_of_isDigit {s : List Char} (h : ∀ c ∈ s.head?, c.isDigit = true) :
    readSign s = (false, .all s) := by
  unfold readSign
  split
  · exact absurd (h _ rfl) (by decide)
  · exact absurd (h _ rfl) (by decide)
  · rfl

theorem exists_readExponent_letter {letter : Char} (hletter : letter = 'e' ∨ letter = 'E')
    {isNegative : Bool} {signed : List Char} {t : Tail signed}
    (hsign : readSign signed = (isNegative, t)) (ht : t.rest = digits ++ rest)
    (hdigits : IsDigits digits) (hne : digits ≠ [])
    (hrest : ∀ c ∈ rest.head?, c.isDigit = false ∧ c ≠ '_') :
    ∃ u, readExponent (letter :: signed) =
      some (some (Json.Exponent.toInt ⟨isNegative, digits⟩), u) ∧ u.rest = rest := by
  have hread : Reads (t.thenRead (readDigits Char.isDigit)) digits rest :=
    Reads.within (by rw [ht]; exact reads_readDigits hdigits hne hrest)
  obtain ⟨shorter, hread⟩ := hread.eq_some
  rw [readExponent, if_pos hletter, hsign]
  dsimp only
  rw [hread]
  exact ⟨_, rfl, rfl⟩

theorem exists_readExponent {exponent : Option Json.Exponent} {exponentText : List Char}
    (h : Json.IsExponentText exponent exponentText)
    (hdigits : ∀ e ∈ exponent, IsDigits e.digits ∧ e.digits ≠ [])
    (hrest : ∀ c ∈ rest.head?, EndsValue c) :
    ∃ t, readExponent (exponentText ++ rest) = some (exponent.map Json.Exponent.toInt, t) ∧
      t.rest = rest := by
  have hend : ∀ c ∈ rest.head?, c.isDigit = false ∧ c ≠ '_' :=
    fun c hc => ⟨(hrest c hc).spec.1.1, (hrest c hc).spec.2.1⟩
  cases h with
  | none =>
    rw [List.nil_append]
    refine ⟨.all rest, ?_, rfl⟩
    cases rest with
    | nil => rfl
    | cons c rest =>
      obtain ⟨-, -, hlower, hupper⟩ := (hrest c rfl).spec.1
      rw [readExponent, if_neg (not_or.2 ⟨hlower, hupper⟩)]
      rfl
  | plain hletter digits =>
    obtain ⟨hdigits, hne⟩ := hdigits _ rfl
    have hsign : readSign (digits ++ rest) = (false, .all (digits ++ rest)) := by
      refine readSign_of_isDigit fun c hc => ?_
      rw [List.head?_append_of_ne_nil _ hne] at hc
      exact hdigits c (List.mem_of_mem_head? hc)
    exact exists_readExponent_letter hletter hsign rfl hdigits hne hend
  | signed hletter e =>
    obtain ⟨isNegative, digits⟩ := e
    obtain ⟨hdigits, hne⟩ := hdigits _ rfl
    cases isNegative with
    | true => exact exists_readExponent_letter hletter rfl rfl hdigits hne hend
    | false => exact exists_readExponent_letter hletter rfl rfl hdigits hne hend

/-- The value of a literal behind a sign, if it can be kept. -/
def literalValue? (negative : Bool) (l : Json.Literal) : Option Scalar :=
  decimalValue? negative l.whole l.fraction (l.exponent.map Json.Exponent.toInt)

variable {l : Json.Literal} {text : List Char} {negative : Bool} {value : Scalar}

theorem reads_readDecimal (h : l.IsSpelled text) (hvalue : literalValue? negative l = some value)
    (hrest : ∀ c ∈ rest.head?, EndsValue c) :
    Reads (readDecimal negative (text ++ rest)) value rest := by
  obtain ⟨whole, fraction, exponent⟩ := l
  obtain ⟨exponentText, hexponent, rfl⟩ := h.exists_exponentText
  have hafterFraction : ∀ c ∈ (exponentText ++ rest).head?,
      c.isDigit = false ∧ c ≠ '_' ∧ c ≠ '.' :=
    hexponent.forall_mem_head? (by decide) (by decide) fun c hc =>
      ⟨(hrest c hc).spec.1.1, (hrest c hc).spec.2.1, (hrest c hc).spec.1.2.1⟩
  have hafterWhole : ∀ c ∈ (Json.fractionText fraction ++ (exponentText ++ rest)).head?,
      c.isDigit = false ∧ c ≠ '_' :=
    Json.forall_mem_head?_fractionText fraction (by decide) fun c hc =>
      ⟨(hafterFraction c hc).1, (hafterFraction c hc).2.1⟩
  obtain ⟨shorter, hwhole⟩ :=
    (reads_readWhole h.whole_digits h.whole_ne_nil h.noLeadingZero hafterWhole).eq_some
  obtain ⟨t, hfraction, ht⟩ := exists_readFraction h.fraction_digits hafterFraction
  have hread : ∃ u : Tail t.rest,
      readExponent t.rest = some (exponent.map Json.Exponent.toInt, u) ∧ u.rest = rest := by
    rw [ht]
    exact exists_readExponent hexponent h.exponent_digits hrest
  obtain ⟨u, hread, hu⟩ := hread
  rw [List.append_assoc, List.append_assoc]
  have hlength :
      rest.length < (whole ++ (Json.fractionText fraction ++ (exponentText ++ rest))).length :=
    Nat.lt_of_le_of_lt (by
      simp only [List.length_append]
      omega) shorter
  refine ⟨hlength, ?_⟩
  rw [readDecimal, hwhole]
  dsimp only
  rw [hfraction]
  dsimp only
  rw [hread]
  show ((literalValue? negative ⟨whole, fraction, exponent⟩).map _) = _
  rw [hvalue]
  simp only [Option.map_some, Read.leave, Read.map, Tail.andThen, hu]
  rfl

/-! ### Neither dates nor times -/

/-- A field is taken off the front, digits only. -/
theorem readField_eq_some {count low high value : Nat} {s : List Char} {t : Tail s}
    (h : readField count low high s = some (value, t)) :
    IsDigits (s.take count) ∧ t.rest = s.drop count := by
  unfold readField at h
  dsimp only at h
  split at h
  · next hfield =>
    obtain ⟨-, hdigits, -⟩ := hfield
    cases h
    exact ⟨List.all_eq_true.1 hdigits, rfl⟩
  · cases h

theorem readChar_eq_none {c : Char} {s : List Char} (h : ∀ d ∈ s.head?, d ≠ c) :
    readChar c s = none := by
  cases s with
  | nil => rfl
  | cons d s =>
    rw [readChar, readWord, if_neg (h d rfl)]

/-- What follows some of the digits at the front of a text is another of them, or what follows them
all. -/
theorem head?_drop (hdigits : IsDigits digits) (hrest : ∀ c ∈ rest.head?, c.isDigit = false)
    {count : Nat} (htake : IsDigits ((digits ++ rest).take count)) :
    ∀ c ∈ ((digits ++ rest).drop count).head?, c.isDigit = true ∨ c ∈ rest.head? := by
  intro c hc
  by_cases hle : count ≤ digits.length
  · rw [List.drop_append_of_le_length hle, List.head?_append] at hc
    cases hdrop : (digits.drop count).head? with
    | none =>
      rw [hdrop, Option.none_or] at hc
      exact .inr hc
    | some d =>
      rw [hdrop, Option.some_or] at hc
      obtain rfl : d = c := Option.some.inj hc
      exact .inl (hdigits d (List.mem_of_mem_drop (List.mem_of_mem_head? hdrop)))
  · -- The first character after the digits would be one of those that were taken.
    obtain ⟨k, rfl⟩ : ∃ k, count = digits.length + (k + 1) := ⟨count - digits.length - 1, by omega⟩
    rw [List.take_length_add_append] at htake
    cases rest with
    | nil =>
      rw [List.append_nil, List.drop_eq_nil_of_le (by omega)] at hc
      cases hc
    | cons d rest =>
      have hd := htake d (List.mem_append_right _ (by rw [List.take_succ_cons]; exact .head _))
      exact absurd (hrest d rfl) (by rw [hd]; decide)

theorem skipMoment_eq_none (hdigits : IsDigits digits)
    (hrest : ∀ c ∈ rest.head?, c.isDigit = false ∧ c ≠ '-' ∧ c ≠ ':') :
    skipMoment (digits ++ rest) = none := by
  have hseparator : ∀ {count low high value : Nat} {t : Tail (digits ++ rest)} {d : Char},
      readField count low high (digits ++ rest) = some (value, t) →
      d = '-' ∨ d = ':' → readChar d t.rest = none := by
    intro count low high value t d hfield hd
    obtain ⟨htake, ht⟩ := readField_eq_some hfield
    rw [ht]
    apply readChar_eq_none
    rintro c hc rfl
    rcases head?_drop hdigits (fun c hc => (hrest c hc).1) htake c hc with hdigit | hmem
    · rcases hd with rfl | rfl <;> exact absurd hdigit (by decide)
    · exact hd.elim (hrest c hmem).2.1 (hrest c hmem).2.2
  have hdate : skipDate (digits ++ rest) = none := by
    unfold skipDate
    cases hfield : readField 4 0 9999 (digits ++ rest) with
    | none => rfl
    | some field =>
      obtain ⟨year, t⟩ := field
      have hno := hseparator hfield (.inl rfl)
      simp [hno]
  have htime : skipTime (digits ++ rest) = none := by
    unfold skipTime
    cases hfield : readField 2 0 23 (digits ++ rest) with
    | none => rfl
    | some field =>
      obtain ⟨hour, t⟩ := field
      have hno := hseparator hfield (.inr rfl)
      simp [hno]
  rw [skipMoment, hdate]
  exact htime

theorem skipMoment_minus (s : List Char) : skipMoment ('-' :: s) = none := by
  have hfield : ∀ count low high, readField (count + 1) low high ('-' :: s) = none := by
    intro count low high
    cases hfield : readField (count + 1) low high ('-' :: s) with
    | none => rfl
    | some field =>
      obtain ⟨hdigits, -⟩ := readField_eq_some hfield
      exact absurd (hdigits '-' List.mem_cons_self) (by decide)
  have hdate : skipDate ('-' :: s) = none := by
    rw [skipDate, hfield]
    rfl
  rw [skipMoment, hdate]
  show skipTime ('-' :: s) = none
  rw [skipTime, hfield]
  rfl

/-! ### Numbers -/

variable {s : List Char}

theorem reads_readUnsigned (hhead : ∀ c ∈ s.head?, c.isDigit = true) {negative : Bool}
    (h : Reads (readDecimal negative s) value rest) :
    Reads (readUnsigned negative s) value rest := by
  have hne : ∀ {c : Char}, c.isDigit = false → s.head? ≠ some c :=
    fun hc heq => Bool.false_ne_true (hc.symm.trans (hhead _ heq))
  rw [readUnsigned, if_neg (hne (by decide)), if_neg (hne (by decide))]
  exact h

theorem reads_readNumber (hhead : ∀ c ∈ s.head?, c.isDigit = true)
    (hbase : ∀ c r, s = '0' :: c :: r → base? c = none)
    (h : Reads (readDecimal false s) value rest) : Reads (readNumber s) value rest := by
  unfold readNumber
  split
  · next c r =>
    rw [hbase c r rfl]
    exact h
  · have hsign : readSign s = (false, .all s) := by
      unfold readSign
      split
      · exact absurd (hhead _ rfl) (by decide)
      · exact absurd (hhead _ rfl) (by decide)
      · rfl
    rw [hsign]
    have hunsigned := reads_readUnsigned hhead h
    exact Reads.within (t := .all s) hunsigned

theorem reads_readNumber_minus (hhead : ∀ c ∈ s.head?, c.isDigit = true)
    (h : Reads (readDecimal true s) value rest) : Reads (readNumber ('-' :: s)) value rest :=
  Reads.within (t := (Tail.all s).past '-') (reads_readUnsigned hhead h)

theorem reads_readNumeric (hmoment : skipMoment s = none) (h : Reads (readNumber s) value rest) :
    Reads (readNumeric s) value rest := by
  have hno : readMoment s = none := by
    rw [readMoment, hmoment]
  rw [readNumeric, hno]
  exact h

/-- A literal is read where it is spelled, up to what can stand behind a value. -/
theorem reads_readNumeric_literal (h : l.IsSpelled text)
    (hvalue : literalValue? negative l = some value) (hrest : ∀ c ∈ rest.head?, EndsValue c) :
    Reads (readNumeric (signText negative ++ (text ++ rest))) value rest := by
  have hread := reads_readDecimal h hvalue hrest
  have hhead : ∀ c ∈ (text ++ rest).head?, c.isDigit = true := by
    obtain ⟨c, r, rfl, hc⟩ := h.exists_text_eq_cons
    exact forall_mem_head?_cons hc _
  cases negative with
  | true => exact reads_readNumeric (skipMoment_minus _) (reads_readNumber_minus hhead hread)
  | false =>
    obtain ⟨exponentText, hexponent, htext⟩ := h.exists_exponentText
    -- What follows the digits at the front neither divides a date nor names a base.
    have hafter : ∀ c ∈ (Json.fractionText l.fraction ++ (exponentText ++ rest)).head?,
        (c.isDigit = false ∧ c ≠ '-' ∧ c ≠ ':') ∧ base? c = none :=
      Json.forall_mem_head?_fractionText _ (by decide) <|
        hexponent.forall_mem_head? (by decide) (by decide) fun c hc =>
          ⟨⟨(hrest c hc).spec.1.1, (hrest c hc).spec.2.2.1, (hrest c hc).spec.2.2.2.1⟩,
            (hrest c hc).spec.2.2.2.2⟩
    have hsplit : text ++ rest =
        l.whole ++ (Json.fractionText l.fraction ++ (exponentText ++ rest)) := by
      rw [htext, List.append_assoc, List.append_assoc]
    show Reads (readNumeric (text ++ rest)) value rest
    rw [hsplit] at hhead hread ⊢
    refine reads_readNumeric (skipMoment_eq_none h.whole_digits fun c hc => (hafter c hc).1)
      (reads_readNumber hhead (fun c r heq => ?_) hread)
    rcases h.noLeadingZero with hzero | hne
    · rw [hzero] at heq
      have hafterZero : Json.fractionText l.fraction ++ (exponentText ++ rest) = c :: r :=
        (List.cons.inj heq).2
      exact (hafter c (by rw [hafterZero]; rfl)).2
    · have hzero := congrArg List.head? heq
      rw [List.head?_append_of_ne_nil _ h.whole_ne_nil] at hzero
      exact absurd hzero hne

/-- A whole number of at most 63 bits is read as an integer. -/
theorem reads_readNumeric_toDigits {n : Nat} (hn : n < 0x8000000000000000) (rest : List Char) :
    Reads (readNumeric (Nat.toDigits 10 n ++ '\n' :: rest)) (.int n) ('\n' :: rest) := by
  have hvalue : literalValue? false ⟨Nat.toDigits 10 n, [], none⟩ = some (.int n) := by
    show (int? (digitsValue (Nat.toDigits 10 n))).map Scalar.int = _
    rw [digitsValue_toDigits, int?, if_pos (by omega)]
    rfl
  have hends : ∀ c ∈ ('\n' :: rest).head?, EndsValue c := forall_mem_head?_cons (by decide) rest
  have hread := reads_readNumeric_literal (Json.isWritten_whole n).isSpelled hvalue hends
  have htext : Json.Literal.text ⟨Nat.toDigits 10 n, [], none⟩ = Nat.toDigits 10 n :=
    List.append_nil _
  rwa [htext] at hread

/-- The numeral that a magnitude is written as. -/
def writtenNumeral (x : Magnitude) : Numeral := (x.shortest .up).numeral.withFraction

theorem toList_write (negative : Bool) (x : Magnitude) :
    ((Binary64.finite negative x).write layout).toList =
      signText negative ++ (writtenNumeral x).plainText := by
  rw [Binary64.write, String.toList_ofList, Layout.decimal_eq rfl rfl]
  rfl

theorem toBinary64_writtenNumeral (negative : Bool) (x : Magnitude) :
    (writtenNumeral x).toDecimal.toBinary64 negative = .finite negative x := by
  have hnear : x.IsNearest (writtenNumeral x).toRat := by
    rw [writtenNumeral, toRat_withFraction (Decimal.isPlain_numeral _), Decimal.toRat_numeral]
    exact x.isNearest_shortest .up
  exact Binary64.toBinary64_of_isNearest hnear negative

/-- A finite value is read back. -/
theorem reads_readNumeric_write (negative : Bool) (x : Magnitude) (rest : List Char) :
    Reads (readNumeric (((Binary64.finite negative x).write layout).toList ++ '\n' :: rest))
      (.real (.finite negative x)) ('\n' :: rest) := by
  have hplain : (writtenNumeral x).IsPlain := (Decimal.isPlain_numeral _).withFraction
  have hfraction : (writtenNumeral x).fraction ≠ [] := fraction_withFraction_ne_nil _
  have hzero : NoLeadingZero (writtenNumeral x).whole := by
    rw [writtenNumeral, whole_withFraction]
    exact x.noLeadingZero_numeral .up
  have hx := toBinary64_writtenNumeral negative x
  rw [toList_write, List.append_assoc]
  generalize writtenNumeral x = n at hplain hfraction hzero hx
  have hvalue : literalValue? negative ⟨n.whole, n.fraction, none⟩ =
      some (.real (.finite negative x)) := by
    have hnumeral : (⟨n.whole, n.fraction, 0⟩ : Numeral) = n := by
      rw [← hplain.exponent_eq]
    show decimalValue? negative n.whole n.fraction none = _
    rw [decimalValue?, if_neg fun hno => hfraction hno.1, Option.getD_none]
    dsimp only
    rw [hnumeral, hx]
    rfl
  have hspelled : Json.Literal.IsSpelled ⟨n.whole, n.fraction, none⟩ n.plainText := by
    refine ⟨⟨hplain.whole_ne_nil, hplain.whole_digits, hzero, hplain.fraction_digits, nofun⟩, [],
      .none, ?_⟩
    rw [List.append_nil, plainText, if_neg hfraction, Json.fractionText, if_neg hfraction]
  have hends : ∀ c ∈ ('\n' :: rest).head?, EndsValue c := forall_mem_head?_cons (by decide) rest
  exact reads_readNumeric_literal hspelled hvalue hends

end DrillPost.Toml
