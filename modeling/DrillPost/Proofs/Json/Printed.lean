import DrillPost.Json.Printer
import DrillPost.Proofs.Json.Spelled

/-!
# Printed numbers

A magnitude is printed as a literal of its shortest decimal (`toList_write`). The literal is nearest
to the magnitude; whether its value is the magnitude depends on how the value is computed. `reread?`
is that value, and it is the printed one where the literal is short (`reread?_of_isShort`).
-/

namespace DrillPost.Json

/-! ### The literal of a magnitude -/

/-- The literal that a magnitude is written as. -/
def printed (x : Magnitude) : Literal :=
  let d := x.shortest .even
  if layout.isPositional d.leadingExponent then
    ⟨d.numeral.withFraction.whole, d.numeral.withFraction.fraction, none⟩
  else
    ⟨d.digits.take 1, d.digits.drop 1,
      some ⟨d.leadingExponent < 0, Nat.toDigits 10 d.leadingExponent.natAbs⟩⟩

theorem isWritten_printed (x : Magnitude) : (printed x).IsWritten := by
  unfold printed
  dsimp only
  split
  · have hplain := (x.shortest .even).isPlain_numeral.withFraction
    refine ⟨hplain.whole_ne_nil, hplain.whole_digits, ?_, hplain.fraction_digits, nofun⟩
    rw [whole_withFraction]
    exact x.noLeadingZero_numeral .even
  · have hdigits := (x.shortest .even).isDigits_digits
    refine ⟨?_, hdigits.sublist (List.take_sublist _ _), ?_,
      hdigits.sublist (List.drop_sublist _ _), ?_⟩
    · rw [ne_eq, List.take_eq_nil_iff, not_or]
      exact ⟨by decide, Decimal.digits_ne_nil _⟩
    · obtain ⟨c, r, hcons⟩ := List.exists_cons_of_ne_nil (x.shortest .even).digits_ne_nil
      rw [hcons]
      by_cases hc : c = '0'
      · exact .inl (congrArg (fun c => [c]) hc)
      · exact .inr fun hhead => hc (Option.some.inj hhead)
    · intro e he
      obtain rfl := Option.some.inj he
      exact ⟨fun c hc => Nat.isDigit_of_mem_toDigits (by decide) (by decide) hc,
        Nat.toDigits_ne_nil⟩

theorem text_printed (x : Magnitude) : (printed x).text = layout.decimal (x.shortest .even) := by
  unfold printed
  dsimp only
  split
  · next hpositional =>
    rw [Layout.decimal_eq rfl hpositional, Literal.text, fractionText,
      if_neg (fraction_withFraction_ne_nil _), Numeral.plainText,
      if_neg (fraction_withFraction_ne_nil _)]
    exact congrArg _ (List.append_nil _)
  · next hscientific =>
    rw [Layout.decimal, if_neg hscientific, Decimal.scientific, Literal.text]
    obtain ⟨c, r, hcons⟩ := List.exists_cons_of_ne_nil (x.shortest .even).digits_ne_nil
    rw [hcons]
    cases r with
    | nil => simp [fractionText, Exponent.text]
    | cons d r => simp [fractionText, Exponent.text]

theorem toList_write (negative : Bool) (x : Magnitude) :
    ((Binary64.finite negative x).write layout).toList = signText negative ++ (printed x).text := by
  rw [Binary64.write, String.toList_ofList, text_printed]
  rfl

theorem toInt_toDigits (n : Int) :
    Exponent.toInt ⟨n < 0, Nat.toDigits 10 n.natAbs⟩ = n := by
  rw [Exponent.toInt, digitsValue_toDigits]
  by_cases hn : n < 0
  · rw [if_pos (decide_eq_true hn)]
    omega
  · rw [if_neg (Bool.not_eq_true _ ▸ decide_eq_false hn)]
    omega

/-- With an exponent the literal has the digits of the decimal as they are. -/
theorem decimal_printed_of_scientific {x : Magnitude}
    (h : ¬ layout.isPositional (x.shortest .even).leadingExponent = true) :
    (printed x).decimal = x.shortest .even := by
  have hlength : 0 < (x.shortest .even).digits.length :=
    List.length_pos_iff.2 (x.shortest .even).digits_ne_nil
  have hdigits : digitsValue (x.shortest .even).digits = (x.shortest .even).coefficient :=
    digitsValue_toDigits _
  have hexponent : (x.shortest .even).leadingExponent -
      (((x.shortest .even).digits.drop 1).length : Int) = (x.shortest .even).exponent := by
    rw [List.length_drop, Decimal.leadingExponent]
    omega
  unfold printed
  dsimp only
  rw [if_neg h, Literal.decimal_eq]
  dsimp only [Option.elim_some]
  rw [List.take_append_drop, hdigits, toInt_toDigits, hexponent]

/-- The literal denotes the decimal that the magnitude is nearest to. -/
theorem isNearest_printed (x : Magnitude) : x.IsNearest (printed x).decimal.toRat := by
  suffices h : (printed x).decimal.toRat = (x.shortest .even).toRat by
    rw [h]
    exact x.isNearest_shortest .even
  by_cases hpositional : layout.isPositional (x.shortest .even).leadingExponent = true
  · have hplain := (x.shortest .even).isPlain_numeral
    have hnumeral : ∀ {n : Numeral}, n.exponent = 0 →
        Literal.numeral ⟨n.whole, n.fraction, none⟩ = n := by
      rintro ⟨whole, fraction, exponent⟩ rfl
      rfl
    unfold printed
    dsimp only
    rw [if_pos hpositional, Literal.decimal, hnumeral hplain.withFraction.exponent_eq]
    exact (Numeral.toRat_withFraction hplain).trans (Decimal.toRat_numeral _)
  · rw [decimal_printed_of_scientific hpositional]

/-! ### Printed values that are read back -/

/-- The value that is read where a value was printed, if it is in range. -/
def reread? : Binary64 → Option Binary64
  | .finite negative x => ((printed x).number? negative).map Number.toBinary64
  | _ => none

/-- A magnitude that is printed as a short literal has the value that the literal has. -/
theorem number?_printed_of_isShort {x : Magnitude} (h : (printed x).IsShort) (negative : Bool) :
    (printed x).number? negative = some (.real (.finite negative x)) := by
  by_cases hpositional : layout.isPositional (x.shortest .even).leadingExponent = true
  · refine h.number?_eq (.inl ?_) ?_ (isNearest_printed x) negative
    · rw [printed, if_pos hpositional]
      exact fraction_withFraction_ne_nil _
    · rw [printed, if_pos hpositional]
      exact nofun
  · refine h.number?_eq (.inr ?_) ?_ (isNearest_printed x) negative
    · rw [printed, if_neg hpositional]
      exact Option.some_ne_none _
    · have hcoefficient := h.coefficient_lt
      have hexponent := h.natAbs_exponent_le
      rw [decimal_printed_of_scientific hpositional] at hcoefficient hexponent
      have hlength : (x.shortest .even).digits.length ≤ 15 :=
        (Decimal.digitCount_le_iff (by decide)).2 hcoefficient
      rw [printed, if_neg hpositional]
      intro e he
      obtain rfl := Option.some.inj he
      dsimp only
      rw [digitsValue_toDigits, Decimal.leadingExponent, maxExponent]
      omega

/-- A value that is printed as a short literal is read back. -/
theorem reread?_of_isShort {x : Magnitude} (h : (printed x).IsShort) (negative : Bool) :
    reread? (.finite negative x) = some (.finite negative x) := by
  rw [reread?, number?_printed_of_isShort h]
  rfl

/-- The value is printed with at most fifteen digits, and with a small exponent. -/
def IsShort : Binary64 → Prop
  | .finite _ x => (printed x).IsShort
  | _ => False

instance : DecidablePred IsShort
  | .finite _ x => inferInstanceAs (Decidable (printed x).IsShort)
  | .nan | .infinite _ => inferInstanceAs (Decidable False)

theorem IsShort.reread?_eq {x : Binary64} (h : IsShort x) : reread? x = some x :=
  match x, h with
  | .finite negative _, h => reread?_of_isShort h negative

end DrillPost.Json
