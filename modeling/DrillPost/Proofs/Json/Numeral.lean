import DrillPost.Json.Number
import DrillPost.Proofs.Decimal.Numeral

/-!
# Literals are numerals

A literal is read up to the first character that cannot belong to it. The characters that were read
are a numeral (`Json.ofText?_of_readLiteral`), and so a literal denotes a number without regard to
how its value is computed.
-/

namespace DrillPost.Json

def Exponent.toInt (e : Exponent) : Int :=
  if e.isNegative then -(digitsValue e.digits : Int) else digitsValue e.digits

def Literal.numeral (l : Literal) : Numeral :=
  ⟨l.whole, l.fraction, l.exponent.elim 0 Exponent.toInt⟩

variable {atEnd : Cause} {s : List Char}

theorem isDigits_digitRun (s : List Char) : IsDigits (digitRun s) :=
  fun _ hc => List.mem_takeWhile_imp hc

theorem digitRun_append_afterDigits (s : List Char) : digitRun s ++ (afterDigits s).rest = s :=
  List.takeWhile_append_dropWhile

theorem readWhole_eq_ok {x : Read (List Char) s} (h : readWhole atEnd s = .ok x) :
    IsDigits x.value ∧ x.value ≠ [] ∧ s = x.value ++ x.rest := by
  cases s with
  | nil => cases h
  | cons c r =>
    unfold readWhole at h
    dsimp only at h
    split at h
    · next hzero =>
      split at h
      · cases h
      · cases h
        refine ⟨?_, List.cons_ne_nil _ _, rfl⟩
        rw [hzero]
        exact isDigits_replicate_zero 1
    · split at h
      · next hc =>
        cases h
        refine ⟨?_, List.cons_ne_nil _ _, ?_⟩
        · intro d hd
          rcases List.mem_cons.1 hd with rfl | hd
          · exact hc
          · exact isDigits_digitRun r d hd
        · exact congrArg (c :: ·) (digitRun_append_afterDigits r).symm
      · cases h

theorem readFraction_eq_ok {fraction : List Char} {t : Tail s}
    (h : readFraction atEnd s = .ok (fraction, t)) :
    IsDigits fraction ∧
      (fraction = [] ∧ s = t.rest ∨ fraction ≠ [] ∧ s = '.' :: (fraction ++ t.rest)) := by
  unfold readFraction at h
  split at h
  · next r =>
    split at h
    · cases h
    · next hne =>
      cases h
      refine ⟨isDigits_digitRun r, .inr ⟨hne, ?_⟩⟩
      exact congrArg ('.' :: ·) (digitRun_append_afterDigits r).symm
  · cases h
    exact ⟨nofun, .inl ⟨rfl, rfl⟩⟩

theorem digits?_eq {digits : List Char} (hdigits : IsDigits digits) (hne : digits ≠ []) :
    Numeral.digits? digits = some (digitsValue digits) := by
  rw [Numeral.digits?, if_pos ⟨hne, List.all_eq_true.2 hdigits⟩]

/-- A sign, or none, and digits are an exponent. -/
theorem exponent?_sign {c : Char} (hc : c = 'e' ∨ c = 'E') {digits : List Char}
    (hdigits : IsDigits digits) (hne : digits ≠ []) (r : List Char) :
    ∃ sign, r = sign ++ (exponentSign r).2.rest ∧
      Numeral.exponent? (c :: (sign ++ digits)) =
        some (Exponent.toInt ⟨(exponentSign r).1, digits⟩) := by
  have hvalue := digits?_eq hdigits hne
  unfold exponentSign
  split
  · next r =>
    refine ⟨['-'], rfl, ?_⟩
    show (if c = 'e' ∨ c = 'E' then (Numeral.digits? digits).map fun n => -(Int.ofNat n)
      else none) = _
    rw [if_pos hc, hvalue]
    rfl
  · next r =>
    refine ⟨['+'], rfl, ?_⟩
    show (if c = 'e' ∨ c = 'E' then (Numeral.digits? digits).map Int.ofNat else none) = _
    rw [if_pos hc, hvalue]
    rfl
  · refine ⟨[], rfl, ?_⟩
    rw [List.nil_append, Numeral.exponent?, if_pos hc, hvalue]
    · rfl
    · rintro r rfl
      exact absurd (hdigits '+' List.mem_cons_self) (by decide)
    · rintro r rfl
      exact absurd (hdigits '-' List.mem_cons_self) (by decide)

theorem readExponent_eq_ok {exponent : Option Exponent} {t : Tail s}
    (h : readExponent atEnd s = .ok (exponent, t)) :
    ∃ chars, s = chars ++ t.rest ∧
      Numeral.exponent? chars = some (exponent.elim 0 Exponent.toInt) ∧
      ∀ c ∈ chars.head?, c.isDigit = false ∧ c ≠ '.' := by
  unfold readExponent at h
  cases s with
  | nil =>
    cases h
    exact ⟨[], rfl, rfl, nofun⟩
  | cons c r =>
    dsimp only at h
    split at h
    · next hc =>
      split at h
      · cases h
      · next hne =>
        cases h
        obtain ⟨sign, hr, hexponent⟩ := exponent?_sign hc (isDigits_digitRun _) hne r
        refine ⟨c :: (sign ++ digitRun (exponentSign r).2.rest), ?_, hexponent, ?_⟩
        · rw [List.cons_append, List.append_assoc]
          refine congrArg (c :: ·) ?_
          refine hr.trans (congrArg (sign ++ ·) ?_)
          exact (digitRun_append_afterDigits _).symm
        · intro d hd
          cases Option.some.inj hd
          rcases hc with rfl | rfl <;> decide
    · cases h
      exact ⟨[], rfl, rfl, nofun⟩

/-- The characters of a literal are the numeral that it is. -/
theorem ofText?_of_readLiteral {l : Read Literal s} (h : readLiteral atEnd s = .ok l) :
    ∃ chars, s = chars ++ l.rest ∧ Numeral.ofText? chars = some l.value.numeral := by
  unfold readLiteral at h
  split at h
  · cases h
  · next whole hwhole =>
    split at h
    · cases h
    · next fraction t hfraction =>
      split at h
      · cases h
      · next exponent u hexponent =>
        cases h
        obtain ⟨hdigits, hne, hs⟩ := readWhole_eq_ok hwhole
        obtain ⟨hdigits', hrest⟩ := readFraction_eq_ok hfraction
        obtain ⟨chars, hu, hvalue, hhead⟩ := readExponent_eq_ok hexponent
        -- The parts follow one another in the text. The cases are whether there is a point.
        rcases hrest with ⟨rfl, hrest⟩ | ⟨-, hrest⟩
        · refine ⟨whole.value ++ chars, ?_, ?_⟩
          · rw [List.append_assoc]
            refine hs.trans (congrArg (whole.value ++ ·) ?_)
            exact hrest.trans hu
          · exact Numeral.ofText?_whole hdigits hne hhead hvalue
        · refine ⟨whole.value ++ '.' :: (fraction ++ chars), ?_, ?_⟩
          · rw [List.append_assoc, List.cons_append, List.append_assoc]
            refine hs.trans (congrArg (whole.value ++ ·) ?_)
            refine hrest.trans (congrArg (fun r => '.' :: (fraction ++ r)) ?_)
            exact hu
          · exact Numeral.ofText?_point hdigits hdigits' hne (fun c hc => (hhead c hc).1) hvalue

end DrillPost.Json
